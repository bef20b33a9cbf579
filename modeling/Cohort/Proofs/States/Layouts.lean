import Cohort.Proofs.States.Lawful
/-
  The three layouts keep their accounts.

  Each layout has one condition besides what it reads:

  * buckets  — no bucket is locked, so a group is nothing but its tallies (`BucketStates.Holds`);
  * lists    — past the groups there are only empty tallies, so a new group needs no work
               (`ListStates.Holds`);
  * arrays   — the same, and all arrays have one capacity that covers the groups, so no place that
               an operation changes is past the end (`ArrayStates.Holds`).

  `append` is where they differ: buckets move a group as it is, the others fold it into an empty
  one. The instance for `m.Layout` is what later proofs use.
-/

namespace Cohort

/-! ## Buckets -/

namespace BucketStates

/-- States of unlocked buckets that hold the groups of an account. -/
structure Holds (n : Nat) (s : BucketStates) (gs : Account) : Prop where
  aggregateCount : s.aggregateCount = n
  reads : Reads (fun ts => some (ts.map .ofTally)) n s.groups.size (s.groups[·]?) gs

variable {n : Nat} {s source : BucketStates} {gs gs' : Account} {o o' : Nat} {ts us : List Tally}

/-- The buckets of a group hold its tallies. -/
theorem Holds.group_eq (h : Holds n s gs) (ho : gs[o]? = some (some ts)) :
    s.group o = .ok (ts.map .ofTally) := by
  rw [group, (h.reads.shown o ts ho).1]

/-- Changing the buckets of a group that is there. -/
theorem Holds.modify (h : Holds n s gs) (ho : gs[o]? = some (some ts))
    {change : List Bucket → List Bucket} {ts' : List Tally} (hlen : ts'.length = n)
    (hchange : change (ts.map .ofTally) = ts'.map .ofTally) :
    ∃ s', s.modify o change = .ok s' ∧ Holds n s' (gs.set o (some ts')) := by
  refine ⟨_, if_pos (h.reads.lt_size ho), h.aggregateCount, ?_⟩
  rw [Array.size_modify]
  refine h.reads.change hlen ?_ fun o' ho' => ?_
  · show (s.groups.modify o change)[o]? = _
    rw [Array.getElem?_modify, if_pos rfl, (h.reads.shown o ts ho).1, Option.map_some, hchange]
  · show (s.groups.modify o change)[o']? = _
    rw [Array.getElem?_modify, if_neg ho']

/-- A group that is moved out hands over its buckets, and its place is forgotten. -/
theorem Holds.takeGroup (h : Holds n s gs) (ho : gs[o]? = some (some ts)) :
    ∃ s', s.takeGroup o = .ok (ts.map .ofTally, s') ∧ Holds n s' (gs.set o none) := by
  have hmodify : s.modify o (fun _ => []) =
      .ok { s with groups := s.groups.modify o fun _ => [] } := if_pos (h.reads.lt_size ho)
  refine ⟨{ s with groups := s.groups.modify o fun _ => [] }, ?_, h.aggregateCount, ?_⟩
  · rw [BucketStates.takeGroup, h.group_eq ho, hmodify]
    rfl
  · rw [Array.size_modify]
    refine h.reads.forget fun o' ho' => ?_
    show (s.groups.modify o fun _ => [])[o']? = _
    rw [Array.getElem?_modify, if_neg ho']

/-- Adding buckets at the end. -/
theorem Holds.push (h : Holds n s gs) (hlen : ts.length = n) :
    Holds n { s with groups := s.groups.push (ts.map .ofTally) } (gs ++ [some ts]) := by
  refine ⟨h.aggregateCount, ?_⟩
  rw [Array.size_push]
  refine h.reads.concat hlen ?_ fun o ho => ?_
  · show (s.groups.push (ts.map .ofTally))[s.groups.size]? = _
    rw [Array.getElem?_push_size]
  · show (s.groups.push (ts.map .ofTally))[o]? = _
    rw [Array.getElem?_push_lt ho, Array.getElem?_eq_getElem ho]

instance [FloatAddition] : LawfulStates BucketStates where
  Holds := Holds
  holds_create _ _ := ⟨rfl, rfl, fun _ _ h => nomatch h⟩
  size_eq h := h.reads.size
  tallies_eq {n s gs o ts} h ho := by
    show (s.group o).map _ = _
    rw [h.group_eq ho]
    show Except.ok ((ts.map Bucket.ofTally).map (·.tally)) = _
    rw [List.map_map]
    exact congrArg Except.ok (List.map_id'' (fun _ => rfl) ts)
  length_eq {n s gs o ts} h ho := (h.reads.shown o ts ho).2
  holds_push {n s gs} h := by
    have hempty : List.replicate s.aggregateCount Bucket.empty =
        (List.replicate n Tally.empty).map .ofTally := by
      rw [h.aggregateCount, List.map_replicate]
      rfl
    show Holds n { s with groups := s.groups.push (List.replicate s.aggregateCount .empty) } _
    rw [hempty]
    exact h.push List.length_replicate
  holds_reserve _ h := h
  holds_update {n s gs o ts} aggregates t row h ho := by
    refine h.modify ho ((length_updateTallies _ _ _ _).trans (h.reads.shown o ts ho).2) ?_
    refine (map_alongside (fun _ _ => ?_) aggregates ts).symm
    rfl
  holds_merge {n s source gs gs' o o' ts us} aggregates h ho h' ho' := by
    show ∃ s', (source.group o' >>= fun g => s.modify o
      (alongside (fun p b => b.merge p.1.function p.2.tally) (aggregates.zip g))) = .ok s' ∧ _
    rw [h'.group_eq ho']
    refine h.modify ho ((length_foldTallies _ _ _).trans (h.reads.shown o ts ho).2) ?_
    rw [List.zip_map_right, alongside_map_left]
    refine (map_alongside (fun _ _ => ?_) (aggregates.zip us) ts).symm
    rfl
  holds_append {n s source gs gs' o' us} _ h h' ho' := by
    obtain ⟨source', htake, hsource⟩ := h'.takeGroup ho'
    refine ⟨{ s with groups := s.groups.push (us.map .ofTally) }, source', us, ?_,
      h.push (h'.reads.shown o' us ho').2, hsource, Or.inl rfl⟩
    show (source.takeGroup o' >>= _) = _
    rw [htake, ← h.reads.size]
    rfl
  holds_take h ho := h.takeGroup ho

end BucketStates

/-! ## Lists -/

namespace ListStates

/-- States of lists that hold the groups of an account, and nothing past them. -/
structure Holds (n : Nat) (s : ListStates) (gs : Account) : Prop where
  reads : Reads (fun ts => ts) n s.groups s.group gs
  beyond : ∀ o, s.groups ≤ o → s.group o = List.replicate n .empty

/-- Change one group of all lists. -/
def modify {α : Type} (s : ListStates) (o : Nat) (change : α → Tally → Tally) (as : List α) :
    ListStates :=
  { s with lists := alongside (fun a l => l.modify o (change a)) as s.lists }

/-- A change of one group of all lists is read at that group only. -/
theorem group_modify {α : Type} (s : ListStates) (o : Nat) (change : α → Tally → Tally)
    (as : List α) (o' : Nat) :
    (s.modify o change as).group o' =
      if o = o' then alongside change as (s.group o') else s.group o' := by
  by_cases h : o = o'
  · rw [if_pos h]
    exact map_alongside (fun a l => by rw [TallyList.get_modify, if_pos h]) as s.lists
  · rw [if_neg h, ← alongside_id as (s.group o')]
    exact map_alongside (fun a l => by rw [TallyList.get_modify, if_neg h]) as s.lists

variable {n : Nat} {s source : ListStates} {gs gs' : Account} {o o' : Nat} {ts us : List Tally}

theorem Holds.modify (h : Holds n s gs) (ho : gs[o]? = some (some ts)) {α : Type}
    (change : α → Tally → Tally) (as : List α) :
    Holds n (s.modify o change as) (gs.set o (some (alongside change as ts))) := by
  have hlt : o < s.groups := h.reads.lt_size ho
  refine ⟨h.reads.change ?_ ?_ fun o' hne => ?_, fun o' hle => ?_⟩
  · exact (length_alongside _ _ _).trans (h.reads.shown o ts ho).2
  · rw [group_modify, if_pos rfl, (h.reads.shown o ts ho).1]
  · rw [group_modify, if_neg hne]
  · have hne : o ≠ o' := by intro heq; subst heq; exact absurd hlt (Nat.not_lt.mpr hle)
    rw [group_modify, if_neg hne]
    exact h.beyond o' hle

theorem Holds.pushGroup (h : Holds n s gs) :
    Holds n s.pushGroup (gs ++ [some (List.replicate n .empty)]) :=
  ⟨h.reads.concat List.length_replicate (h.beyond s.groups (Nat.le_refl _)) fun _ _ => rfl,
    fun o ho => h.beyond o (Nat.le_of_succ_le ho)⟩

theorem Holds.forget (h : Holds n s gs) : Holds n s (gs.set o none) :=
  ⟨h.reads.forget fun _ _ => rfl, h.beyond⟩

variable [FloatAddition]

/-- Folding a group of a source is changing one group by the tallies of the source. -/
theorem mergeGroup_eq (aggregates : List Aggregate) (o : Nat) (source : ListStates) (o' : Nat)
    (s : ListStates) :
    mergeGroup aggregates o source o' s =
      s.modify o (fun (p : Aggregate × Tally) t => p.1.function.merge t p.2)
        (aggregates.zip (source.group o')) := by
  rw [mergeGroup, ListStates.modify, group, List.zip_map_right, alongside_map_left]
  rfl

theorem Holds.mergeGroup (h : Holds n s gs) (ho : gs[o]? = some (some ts))
    (h' : Holds n source gs') (ho' : gs'[o']? = some (some us)) (aggregates : List Aggregate) :
    Holds n (mergeGroup aggregates o source o' s)
      (gs.set o (some (foldTallies aggregates us ts))) := by
  rw [mergeGroup_eq, (h'.reads.shown o' us ho').1]
  exact h.modify ho _ _

instance : LawfulStates ListStates where
  Holds := Holds
  holds_create n _ :=
    ⟨⟨rfl, fun _ _ h => nomatch h⟩, fun o _ => by
      show (List.replicate n TallyList.empty).map _ = _
      rw [List.map_replicate]
      rfl⟩
  size_eq h := h.reads.size
  tallies_eq {n s gs o ts} h ho := congrArg Except.ok (h.reads.shown o ts ho).1
  length_eq {n s gs o ts} h ho := (h.reads.shown o ts ho).2
  holds_push h := h.pushGroup
  holds_reserve _ h := h
  holds_update aggregates t row h ho :=
    ⟨_, rfl, h.modify ho (fun (a : Aggregate) tally => a.updateTally t row tally) aggregates⟩
  holds_merge aggregates h ho h' ho' := ⟨_, rfl, h.mergeGroup ho h' ho' aggregates⟩
  holds_append {n s source gs gs' o' us} aggregates h h' ho' := by
    -- the group is folded into an empty one, which stands at the end
    have hlast : (gs ++ [some (List.replicate n Tally.empty)])[s.groups]? =
        some (some (List.replicate n .empty)) := by
      rw [h.reads.size, List.getElem?_concat_length]
    have hmerged := h.pushGroup.mergeGroup hlast h' ho' aggregates
    rw [h.reads.size, List.set_append_right _ _ (Nat.le_refl _), Nat.sub_self] at hmerged
    refine ⟨_, source, foldTallies aggregates us (List.replicate n .empty), ?_, hmerged,
      h'.forget, Or.inr rfl⟩
    rw [← h.reads.size]
    rfl
  holds_take {n s gs o ts} h ho :=
    ⟨s, congrArg (fun g => Except.ok (g.map Bucket.ofTally, s)) (h.reads.shown o ts ho).1, h.forget⟩

end ListStates

/-! ## Arrays -/

namespace ArrayStates

/-- States of arrays that hold the groups of an account, and nothing past them, and whose one
    capacity covers the groups. -/
structure Holds (n : Nat) (s : ArrayStates) (gs : Account) : Prop where
  reads : Reads (fun ts => ts) n s.groups s.group gs
  beyond : ∀ o, s.groups ≤ o → s.group o = List.replicate n .empty
  capacity : ∀ a ∈ s.arrays, a.capacity = s.capacity
  covers : ∀ a ∈ s.arrays, s.groups ≤ a.capacity

variable {n : Nat} {s source : ArrayStates} {gs gs' : Account} {o o' : Nat} {ts us : List Tally}

/-- Arrays of one capacity have the capacity of the states. -/
theorem capacity_eq_of_mem {c : Nat} (h : ∀ a ∈ s.arrays, a.capacity = c) :
    ∀ a ∈ s.arrays, a.capacity = s.capacity := by
  intro a ha
  have hc : s.capacity = c := by
    cases harrays : s.arrays with
    | nil => rw [harrays] at ha; cases ha
    | cons b bs =>
      rw [ArrayStates.capacity, harrays]
      exact h b (harrays ▸ List.mem_cons_self)
  rw [h a ha, hc]

/-- Growing all arrays changes no tally and gives them all the capacity asked for. -/
theorem Holds.ensure (h : Holds n s gs) (needed : Nat) :
    Holds n (s.ensure needed) gs ∧ ∀ a ∈ (s.ensure needed).arrays, needed ≤ a.capacity := by
  have hgroup : ∀ o, (s.ensure needed).group o = s.group o := by
    intro o
    rw [ArrayStates.ensure, group, List.map_map]
    exact List.map_congr_left fun a _ => TallyArray.get_grow a _ o
  have hcapacity : ∀ a ∈ (s.ensure needed).arrays,
      a.capacity = s.capacity + (needed - s.capacity) := by
    intro a ha
    obtain ⟨b, hb, rfl⟩ := List.mem_map.mp ha
    rw [TallyArray.capacity_grow, h.capacity b hb]
  have hcovers : ∀ a ∈ (s.ensure needed).arrays, s.groups ≤ a.capacity := by
    intro a ha
    obtain ⟨b, hb, rfl⟩ := List.mem_map.mp ha
    have := h.covers b hb
    rw [TallyArray.capacity_grow]
    omega
  refine ⟨⟨⟨h.reads.size, fun o ts ho => ?_⟩, fun o ho => ?_, capacity_eq_of_mem hcapacity,
    hcovers⟩, fun a ha => ?_⟩
  · rw [hgroup]; exact h.reads.shown o ts ho
  · rw [hgroup]; exact h.beyond o ho
  · rw [hcapacity a ha]; omega

/-- A further group, for which there is room by then. -/
theorem Holds.pushGroup (h : Holds n s gs) :
    Holds n s.pushGroup (gs ++ [some (List.replicate n .empty)]) := by
  have hroomy : ∃ roomy : ArrayStates, s.pushGroup = { roomy with groups := roomy.groups + 1 } ∧
      Holds n roomy gs ∧ ∀ a ∈ roomy.arrays, roomy.groups + 1 ≤ a.capacity := by
    unfold ArrayStates.pushGroup
    -- arrays that are full are doubled first, and from nothing they get one place
    by_cases hfull : s.groups = s.capacity
    · obtain ⟨hholds, hneeded⟩ := h.ensure (max (s.groups * 2) 1)
      refine ⟨s.ensure (max (s.groups * 2) 1), by rw [if_pos hfull]; rfl, hholds, fun a ha => ?_⟩
      have := hneeded a ha
      show s.groups + 1 ≤ a.capacity
      omega
    · refine ⟨s, by rw [if_neg hfull], h, fun a ha => ?_⟩
      have h1 := h.covers a ha
      have h2 := h.capacity a ha
      omega
  obtain ⟨roomy, heq, hholds, hroom⟩ := hroomy
  rw [heq]
  exact ⟨hholds.reads.concat List.length_replicate (hholds.beyond _ (Nat.le_refl _)) fun _ _ => rfl,
    fun o ho => hholds.beyond o (Nat.le_of_succ_le ho), hholds.capacity, hroom⟩

/-- **Changing one group of all arrays succeeds**, as the group is within their capacity. -/
theorem Holds.modify (h : Holds n s gs) (ho : gs[o]? = some (some ts)) {α : Type}
    (change : α → Tally → Tally) (as : List α) :
    ∃ arrays, tryAlongside (fun a x => x.modify o (change a)) as s.arrays = .ok arrays ∧
      Holds n { s with arrays := arrays } (gs.set o (some (alongside change as ts))) := by
  have hlt : o < s.groups := h.reads.lt_size ho
  have hsucceeds : ∀ (a : α), ∀ x ∈ s.arrays, ∃ x', x.modify o (change a) = .ok x' :=
    fun a x hx => TallyArray.exists_modify (Nat.lt_of_lt_of_le hlt (h.covers x hx)) (change a)
  obtain ⟨arrays, harrays⟩ := exists_tryAlongside_eq_ok as s.arrays hsucceeds
  have hself : arrays.map (·.get o) = alongside change as (s.group o) :=
    map_of_tryAlongside
      (fun a x x' hx => by rw [TallyArray.get_of_modify hx, if_pos rfl]) harrays
  have hother : ∀ o', o ≠ o' → arrays.map (·.get o') = s.group o' := by
    intro o' hne
    rw [← alongside_id as (s.group o')]
    exact map_of_tryAlongside
      (fun a x x' hx => by rw [TallyArray.get_of_modify hx, if_neg hne]) harrays
  -- no array grows by this, so what was covered still is
  have hcapacities : arrays.map (·.capacity) = s.arrays.map (·.capacity) := by
    rw [← alongside_id as (s.arrays.map (·.capacity))]
    exact map_of_tryAlongside (fun a x x' hx => TallyArray.capacity_of_modify hx) harrays
  have hcapacity : ∀ a ∈ arrays, a.capacity = s.capacity ∧ s.groups ≤ a.capacity := by
    intro a ha
    have hmem : a.capacity ∈ arrays.map (·.capacity) := List.mem_map_of_mem ha
    rw [hcapacities] at hmem
    obtain ⟨b, hb, hba⟩ := List.mem_map.mp hmem
    exact ⟨hba ▸ h.capacity b hb, hba ▸ h.covers b hb⟩
  refine ⟨arrays, harrays, h.reads.change ?_ ?_ hother, fun o' hle => ?_,
    capacity_eq_of_mem fun a ha => (hcapacity a ha).1, fun a ha => (hcapacity a ha).2⟩
  · exact (length_alongside _ _ _).trans (h.reads.shown o ts ho).2
  · rw [← (h.reads.shown o ts ho).1]; exact hself
  · have hne : o ≠ o' := by intro heq; subst heq; exact absurd hlt (Nat.not_lt.mpr hle)
    exact (hother o' hne).trans (h.beyond o' hle)

theorem Holds.forget (h : Holds n s gs) : Holds n s (gs.set o none) :=
  ⟨h.reads.forget fun _ _ => rfl, h.beyond, h.capacity, h.covers⟩

variable [FloatAddition]

theorem Holds.mergeGroup (h : Holds n s gs) (ho : gs[o]? = some (some ts))
    (h' : Holds n source gs') (ho' : gs'[o']? = some (some us)) (aggregates : List Aggregate) :
    ∃ s', mergeGroup aggregates o source o' s = .ok s' ∧
      Holds n s' (gs.set o (some (foldTallies aggregates us ts))) := by
  obtain ⟨arrays, harrays, hholds⟩ := h.modify ho
    (fun (p : Aggregate × TallyArray) t => p.1.function.merge t (p.2.get o'))
    (aggregates.zip source.arrays)
  have hfold : foldTallies aggregates us ts =
      alongside (fun (p : Aggregate × TallyArray) t => p.1.function.merge t (p.2.get o'))
        (aggregates.zip source.arrays) ts := by
    rw [← (h'.reads.shown o' us ho').1, foldTallies, group, List.zip_map_right, alongside_map_left]
    rfl
  refine ⟨{ s with arrays := arrays }, ?_, hfold ▸ hholds⟩
  show (tryAlongside _ _ _ >>= _) = _
  exact congrArg (· >>= fun arrays => pure { s with arrays := arrays }) harrays

instance : LawfulStates ArrayStates where
  Holds := Holds
  holds_create n m := by
    refine ⟨⟨rfl, fun _ _ h => nomatch h⟩, fun o _ => ?_, fun a ha => ?_, fun a _ => Nat.zero_le _⟩
    · show (List.replicate n (TallyArray.ofCapacity m)).map _ = _
      rw [List.map_replicate]
      rfl
    · show a.capacity = ArrayStates.capacity ⟨List.replicate n (TallyArray.ofCapacity m), 0⟩
      have ha' : a ∈ List.replicate n (TallyArray.ofCapacity m) := ha
      obtain ⟨hn, rfl⟩ := List.mem_replicate.mp ha'
      cases n with
      | zero => exact absurd rfl hn
      | succ n => rfl
  size_eq h := h.reads.size
  tallies_eq {n s gs o ts} h ho := congrArg Except.ok (h.reads.shown o ts ho).1
  length_eq {n s gs o ts} h ho := (h.reads.shown o ts ho).2
  holds_push h := h.pushGroup
  holds_reserve _ h := (h.ensure _).1
  holds_update {n s gs o ts} aggregates t row h ho := by
    obtain ⟨arrays, harrays, hholds⟩ := h.modify ho
      (fun (a : Aggregate) tally => a.updateTally t row tally) aggregates
    refine ⟨{ s with arrays := arrays }, ?_, hholds⟩
    exact congrArg (· >>= fun arrays => pure { s with arrays := arrays }) harrays
  holds_merge aggregates h ho h' ho' := h.mergeGroup ho h' ho' aggregates
  holds_append {n s source gs gs' o' us} aggregates h h' ho' := by
    -- as with lists: an empty group at the end takes in the other's tallies
    have hlast : (gs ++ [some (List.replicate n Tally.empty)])[s.groups]? =
        some (some (List.replicate n .empty)) := by
      rw [h.reads.size, List.getElem?_concat_length]
    obtain ⟨s', hmerge, hmerged⟩ := h.pushGroup.mergeGroup hlast h' ho' aggregates
    rw [h.reads.size, List.set_append_right _ _ (Nat.le_refl _), Nat.sub_self] at hmerged
    refine ⟨s', source, foldTallies aggregates us (List.replicate n .empty), ?_, hmerged,
      h'.forget, Or.inr rfl⟩
    rw [← h.reads.size]
    exact congrArg (· >>= fun target => pure (s.groups, target, source)) hmerge
  holds_take {n s gs o ts} h ho :=
    ⟨s, congrArg (fun g => Except.ok (g.map Bucket.ofTally, s)) (h.reads.shown o ts ho).1, h.forget⟩

end ArrayStates

/-- **Every storage mode has a lawful layout.** -/
instance [FloatAddition] : (m : StorageMode) → LawfulStates m.Layout
  | .bucket => inferInstanceAs (LawfulStates BucketStates)
  | .list => inferInstanceAs (LawfulStates ListStates)
  | .array => inferInstanceAs (LawfulStates ArrayStates)

end Cohort
