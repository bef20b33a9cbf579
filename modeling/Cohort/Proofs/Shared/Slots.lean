import Cohort.Proofs.Key.Discovery
import Cohort.Proofs.Storage.Undisturbed
import Cohort.Shared.Groups
/-
  What happens at the SLOTS of shared groups.

  1. **Growth.**  A key that has a slot keeps it (`Grows`).  That is all a worker has to know of
     what the others do to the dictionary.

  2. **Entries.**  `Entries P` says `P` of every slot, its key and its entry.  Inserting adds one
     slot and modifying touches one, so an argument about entries is one about that slot
     (`entries_insert`, `entries_modify`).

  3. **Buckets.**  `Hold` says which tallies a list of unlocked buckets holds, one per aggregate.
-/

namespace Cohort

/-! ## Shared dictionaries -/

namespace SharedDictionary

variable {β : Type} {spec : GroupingSpec} {d : SharedDictionary β} {k : Key}

theorem size_eq (d : SharedDictionary β) : d.size = d.dictionary.size := d.entries_size

theorem size_eq_length (d : SharedDictionary β) : d.size = d.dictionary.keys.toList.length := by
  rw [size_eq, Dictionary.size, Array.length_toList]

/-- The keys after one is inserted. -/
theorem keys_insert (d : SharedDictionary β) (k : Key) (entry : β) :
    (d.insert k entry).dictionary.keys.toList = d.dictionary.keys.toList ++ [k] :=
  Dictionary.keys_toList_insert d.dictionary k

/-- What is found has a slot that is there. -/
theorem lt_size_of_find (hd : d.dictionary.IsIndex spec) (hk : spec.IsHashed k) {s : Nat}
    (h : d.find k = some s) : s < d.size := by
  obtain ⟨k', hk', -⟩ := (hd.find_eq_some_iff hk).mp h
  rw [size_eq_length]
  exact (List.getElem?_eq_some_iff.mp hk').1

/-- A dictionary in which everything is found that is found in the other, at the same slot. -/
def Grows (spec : GroupingSpec) (d d' : SharedDictionary β) : Prop :=
  ∀ k s, spec.IsHashed k → d.find k = some s → d'.find k = some s

theorem Grows.refl (d : SharedDictionary β) : d.Grows spec d := fun _ _ _ h => h

/-- **An insertion moves no slot.** -/
theorem grows_insert (hd : d.dictionary.IsIndex spec) (hk : spec.IsHashed k)
    (hnew : d.find k = none) (entry : β) : d.Grows spec (d.insert k entry) :=
  fun _ _ hk' h => hd.find_insert_of_some hk hk' hnew h

theorem grows_modify (d : SharedDictionary β) (slot : Nat) (change : β → β) :
    d.Grows spec (d.modify slot change) := fun _ _ _ h => h

/-- An inserted key is found at the new slot. -/
theorem find_insert_self (hd : d.dictionary.IsIndex spec) (hk : spec.IsHashed k)
    (hnew : d.find k = none) (entry : β) : (d.insert k entry).find k = some d.size := by
  rw [size_eq]
  exact hd.find_insert_self hk hnew

/-! ## Entries -/

/-- What holds of every slot, its key and its entry. -/
def Entries (P : Nat → Key → β → Prop) (d : SharedDictionary β) : Prop :=
  ∀ s k, d.dictionary.keys.toList[s]? = some k → ∃ entry, d.get? s = some entry ∧ P s k entry

variable {P P' : Nat → Key → β → Prop}

/-- After an insertion there is one more slot. -/
theorem entries_insert (hd : Entries P d) {entry : β}
    (hold : ∀ s k e, s < d.size → P s k e → P' s k e) (hnew : P' d.size k entry) :
    Entries P' (d.insert k entry) := by
  intro s k' hs
  rw [keys_insert] at hs
  rw [get?_insert]
  rcases Nat.lt_trichotomy s d.size with hlt | heq | hgt
  · rw [List.getElem?_append_left (d.size_eq_length ▸ hlt)] at hs
    obtain ⟨e, hget, he⟩ := hd s k' hs
    rw [if_neg (Nat.ne_of_lt hlt)]
    exact ⟨e, hget, hold s k' e hlt he⟩
  · subst heq
    rw [d.size_eq_length, List.getElem?_concat_length] at hs
    cases hs
    rw [if_pos rfl]
    exact ⟨entry, rfl, hnew⟩
  · rw [List.getElem?_eq_none (by rw [List.length_append, ← d.size_eq_length]; exact hgt)] at hs
    cases hs

/-- After a modification one slot has another entry. -/
theorem entries_modify (hd : Entries P d) {slot : Nat} {change : β → β}
    (hself : ∀ k e, d.dictionary.keys.toList[slot]? = some k → P slot k e → P' slot k (change e))
    (hother : ∀ s k e, slot ≠ s → P s k e → P' s k e) : Entries P' (d.modify slot change) := by
  intro s k hs
  obtain ⟨e, hget, he⟩ := hd s k hs
  rw [get?_modify]
  by_cases hslot : slot = s
  · subst hslot
    rw [if_pos rfl, hget]
    exact ⟨change e, rfl, hself k e hs he⟩
  · rw [if_neg hslot]
    exact ⟨e, hget, hother s k e hslot he⟩

/-- A weaker property of the same entries. -/
theorem Entries.imp (hd : Entries P d) (h : ∀ s k e, P s k e → P' s k e) : Entries P' d := by
  intro s k hs
  obtain ⟨e, hget, he⟩ := hd s k hs
  exact ⟨e, hget, h s k e he⟩

end SharedDictionary

/-! ## Buckets -/

namespace Bucket

variable [FloatAddition] {aggregates : List Aggregate} {T T' : Nat → Aggregate → Tally}
variable {bs : List Bucket}

omit [FloatAddition] in
/-- Unlocked buckets that hold these tallies, one per aggregate. -/
def Hold (aggregates : List Aggregate) (T : Nat → Aggregate → Tally) (bs : List Bucket) : Prop :=
  ∀ j a, aggregates[j]? = some a → bs[j]? = some (ofTally (T j a))

omit [FloatAddition] in
theorem hold_map (tally : Aggregate → Tally) :
    Hold aggregates (fun _ => tally) ((aggregates.map tally).map ofTally) := by
  intro j a ha
  rw [List.getElem?_map, List.getElem?_map, ha]
  rfl

omit [FloatAddition] in
/-- Tallies may be given in another way. -/
theorem Hold.congr (h : Hold aggregates T bs) (hT : ∀ j a, T' j a = T j a) :
    Hold aggregates T' bs := by
  intro j a ha
  rw [hT]
  exact h j a ha

/-- A call on one of them. -/
theorem Hold.perform (h : Hold aggregates T bs) {f : AggregateFunction} {call : Call} {j : Nat}
    {a : Aggregate} (ha : aggregates[j]? = some a)
    (hself : Bucket.perform f call (ofTally (T j a)) = ofTally (T' j a))
    (hother : ∀ j' a', j ≠ j' → T' j' a' = T j' a') :
    Hold aggregates T' (bs.modify j (Bucket.perform f call)) := by
  intro j' a' ha'
  rw [List.getElem?_modify, h j' a' ha', Option.map_eq_map, Option.map_some]
  by_cases hj : j = j'
  · subst hj
    have heq : a' = a := Option.some.inj (ha'.symm.trans ha)
    subst heq
    rw [if_pos rfl, hself]
  · rw [if_neg hj, hother j' a' hj]

omit [FloatAddition] in
/-- What is read of them. -/
theorem Hold.load {g : SharedGroups} {s j : Nat} {a : Aggregate} (h : Hold aggregates T bs)
    (hs : g.get? s = some bs) (ha : aggregates[j]? = some a) :
    SharedGroups.load g j s = .ok (T j a) := by
  rw [SharedGroups.load, hs]
  dsimp only
  rw [h j a ha]
  rfl

end Bucket
end Cohort
