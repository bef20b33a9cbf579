import Cohort.Proofs.Key.Discovery
import Cohort.Proofs.Lockstep
/-
  TWINS: what belongs together in two runs that hash key values differently.

  1. **Keys.**  Twins agree in row and values.  Each carries the hash of its values, computed by the
     function of its own run, and the two hashes have nothing to do with one another.

  2. **Dictionaries.**  Twins list their keys in the same order.  Since lookup is decided by the values
     alone, a key is found in one of them exactly where its twin is found in the other
     (`Dictionary.Twins.find`), however many keys have one hash in one run or in the other.

  3. **Evaluators.**  Twins remember the same row.  Asked for a row, they remember twin keys.
-/

namespace Cohort

/-- The specification with another hash of key values. -/
def GroupingSpec.hashedBy (spec : GroupingSpec) (h : Scalar → UInt64) : GroupingSpec :=
  { spec with hashValue := h }

/-! ## Keys -/

/-- Keys that differ in their hashes at most, each of which is that of its own run. -/
structure Key.Twins (h h' : Scalar → UInt64) (k k' : Key) : Prop where
  row : k.row = k'.row
  values : k.values = k'.values
  hash : k.hash = Hash.ofValues h k.values
  hash' : k'.hash = Hash.ofValues h' k'.values

variable {h h' : Scalar → UInt64} {spec : GroupingSpec} {t : Table}

/-- A row has twin keys. -/
theorem GroupingSpec.twins_keyAt (spec : GroupingSpec) (t : Table) (row : Nat) :
    Key.Twins h h' ((spec.hashedBy h).keyAt t row) ((spec.hashedBy h').keyAt t row) :=
  ⟨rfl, rfl, rfl, rfl⟩

theorem Key.Twins.symm {k k' : Key} (hk : k.Twins h h' k') : k'.Twins h' h k :=
  ⟨hk.row.symm, hk.values.symm, hk.hash', hk.hash⟩

/-! ## Dictionaries -/

/-- Dictionaries of different keys that are twins, ordinal by ordinal. -/
structure Dictionary.Twins (h h' : Scalar → UInt64) (d d' : Dictionary) : Prop where
  keys : List.Forall₂ (Key.Twins h h') d.keys.toList d'.keys.toList
  distinct : d.keys.toList.Pairwise fun a b => a.values ≠ b.values

namespace Dictionary

variable {d d' : Dictionary} {k k' : Key}

theorem twins_empty (h h' : Scalar → UInt64) : Dictionary.empty.Twins h h' .empty := ⟨.nil, .nil⟩

theorem Twins.symm (hd : d.Twins h h' d') : d'.Twins h' h d := by
  have hvalues : d.keys.toList.map (·.values) = d'.keys.toList.map (·.values) := by
    have hkeys : List.Forall₂ Eq (d.keys.toList.map (·.values)) (d'.keys.toList.map (·.values)) :=
      List.rel_map (fun _ _ hk => hk.values) hd.keys
    rwa [List.forall₂_eq_eq_eq] at hkeys
  refine ⟨(hd.keys.imp fun _ _ hk => hk.symm).flip, ?_⟩
  have hdistinct : (d.keys.toList.map (·.values)).Pairwise (· ≠ ·) :=
    List.pairwise_map.mpr hd.distinct
  rw [hvalues] at hdistinct
  exact List.pairwise_map.mp hdistinct

/-- Dictionaries that are twins are both indexes, each by its own hash. -/
theorem Twins.isIndex (hd : d.Twins h h' d') (spec : GroupingSpec) :
    d.IsIndex (spec.hashedBy h) := by
  refine ⟨fun k hk => ?_, hd.distinct⟩
  obtain ⟨o, ho⟩ := List.mem_iff_getElem?.mp hk
  obtain ⟨_, -, htwins⟩ := getElem?_of_forall₂ hd.keys.flip ho
  exact htwins.hash

theorem Twins.size_eq (hd : d.Twins h h' d') : d.size = d'.size := by
  have hlength := hd.keys.length_eq
  rwa [Array.length_toList, Array.length_toList] at hlength

/-- What one of two twins finds, the other finds at the same ordinal. -/
theorem Twins.find_of_some (hd : d.Twins h h' d') (hk : k.Twins h h' k') {o : Nat}
    (hfind : d.find k = some o) : d'.find k' = some o := by
  obtain ⟨found, hfound, hvalues⟩ :=
    ((hd.isIndex ⟨[], [], h⟩).find_eq_some_iff hk.hash).mp hfind
  obtain ⟨found', hfound', htwins⟩ := getElem?_of_forall₂ hd.keys.flip hfound
  refine ((hd.symm.isIndex ⟨[], [], h'⟩).find_eq_some_iff hk.hash').mpr ⟨found', hfound', ?_⟩
  rw [← htwins.values, hvalues, hk.values]

/-- **Twin keys are found at the same ordinal**, or neither is found. -/
theorem Twins.find (hd : d.Twins h h' d') (hk : k.Twins h h' k') : d.find k = d'.find k' := by
  cases hfind : d.find k with
  | some o => exact (hd.find_of_some hk hfind).symm
  | none =>
    cases hfind' : d'.find k' with
    | none => rfl
    | some o =>
      rw [hd.symm.find_of_some hk.symm hfind'] at hfind
      cases hfind

/-- Twin keys that are not found may be added. -/
theorem Twins.insert (hd : d.Twins h h' d') (hk : k.Twins h h' k') (hnew : d.find k = none) :
    (d.insert k).Twins h h' (d'.insert k') := by
  refine ⟨?_, ((hd.isIndex ⟨[], [], h⟩).insert hk.hash hnew).distinct⟩
  rw [keys_toList_insert, keys_toList_insert]
  exact List.rel_append hd.keys (.cons hk .nil)

end Dictionary

/-! ## Evaluators -/

/-- Evaluators that remember the same row of a table, each with the key of its own run. -/
structure KeyEvaluator.Twins (spec : GroupingSpec) (t : Table) (h h' : Scalar → UInt64)
    (ev ev' : KeyEvaluator) : Prop where
  row : ev.row = ev'.row
  coherent : ev.IsCoherent (spec.hashedBy h) t
  coherent' : ev'.IsCoherent (spec.hashedBy h') t

theorem KeyEvaluator.twins_create (spec : GroupingSpec) (t : Table) (h h' : Scalar → UInt64) :
    (KeyEvaluator.create spec.keys h).Twins spec t h h' (.create spec.keys h') :=
  ⟨rfl, isCoherent_create (spec.hashedBy h) t, isCoherent_create (spec.hashedBy h') t⟩

namespace KeyEvaluator.Twins

variable {ev ev' : KeyEvaluator}

/-- Twins that are asked for the same row stay twins. -/
theorem visit (hev : ev.Twins spec t h h' ev') (row : Nat) :
    (ev.visit t row).Twins spec t h h' (ev'.visit t row) :=
  ⟨(row_visit ev t row).trans (row_visit ev' t row).symm, hev.coherent.visit row,
    hev.coherent'.visit row⟩

/-- What twins remember are twin keys. -/
theorem keyAt (hev : ev.Twins spec t h h' ev') {row : Nat} (hrow : ev.row = some row) :
    (ev.keyAt row).Twins h h' (ev'.keyAt row) := by
  rw [hev.coherent.memory row hrow, hev.coherent'.memory row (hev.row ▸ hrow)]
  exact spec.twins_keyAt t row

end KeyEvaluator.Twins

/-- **A row finds its group, or opens one, at the same ordinal in both runs.** -/
theorem Dictionary.Twins.findOrInsert {d d' : Dictionary} {ev ev' : KeyEvaluator}
    (hd : d.Twins h h' d') (hev : ev.Twins spec t h h' ev') (row : Nat) :
    (d.findOrInsert ev t row).1 = (d'.findOrInsert ev' t row).1 ∧
      (d.findOrInsert ev t row).2.1.Twins h h' (d'.findOrInsert ev' t row).2.1 ∧
      (d.findOrInsert ev t row).2.2.Twins spec t h h' (d'.findOrInsert ev' t row).2.2 := by
  have hvisit := hev.visit row
  have hkey := hvisit.keyAt (KeyEvaluator.row_visit ev t row)
  have hfind := hd.find hkey
  rw [Dictionary.findOrInsert, Dictionary.findOrInsert, findRemembered_eq_find _ _ row,
    findRemembered_eq_find _ _ row, ← hfind]
  cases hf : d.find ((ev.visit t row).keyAt row) with
  | some o => exact ⟨rfl, hd, hvisit⟩
  | none => exact ⟨by rw [hd.size_eq], hd.insert hkey hf, hvisit⟩

end Cohort
