import Mathlib.Data.Finset.Lattice.Fold
import Mathlib.Order.Lattice.Nat
import Cohort.Proofs.Key.Discovery
import Cohort.Proofs.Lockstep
import Cohort.Storage.TallyArray
/-
  Lists and arrays of tallies are TOTAL MAPS from ordinals to tallies.

  1. **Stores.**  Lists and arrays are numbered, each kind by itself, and operations name them by
     number.  A `Change` puts a tally into one place, folds a row into it, or folds a place of
     another store of the kind into it.  Lists take further tallies at their end, and arrays grow.

  2. **Maps.**  A `PlaceMap` has a tally for every ordinal, at first the empty one, and the set of
     the ordinals that were touched.  Whatever is done touches one ordinal at most and changes the
     tally of that ordinal only (`PlaceMap.touch`), so that no other ordinal shows a change is part
     of the definition.  A program is in order if maps can be kept on it: what it names is there, no
     store is folded into itself, and no array is changed past its capacity.

  3. **Agreement.**  What a change makes of a tally is one function, and both kinds of stores carry
     it out by `modify`.  So each operation is in step with the maps, hence so is every program that
     is in order (`Stores.ReadsAs.run`).

  4. **Room.**  Operations that ask for room first do the same if all they ask for can be addressed,
     and fail if not (`Stores.tryStep_eq_ok_iff`).
-/

namespace Cohort

/-! ## Stores -/

/-- What is done at one place of a store.  The source is the number of another store of the kind. -/
inductive Change
  /-- Put a tally there. -/
  | assign (t : Tally)
  /-- Fold a row into it. -/
  | apply (a : Aggregate) (t : Table) (row : Nat)
  /-- Fold a place of the source into it. -/
  | merge (f : AggregateFunction) (source sourceOrdinal : Nat)

/-- Lists and arrays by number, and what the pushes have answered. -/
structure Stores where
  lists : List TallyList := []
  arrays : List TallyArray := []
  /-- The places that pushed tallies have got, in the order of the pushes. -/
  pushed : List Nat := []

namespace Stores

/-- An operation on lists and arrays. -/
inductive Op
  | createList
  | createArray (capacity : Nat)
  | changeList (number ordinal : Nat) (change : Change)
  | changeArray (number ordinal : Nat) (change : Change)
  | push (number : Nat) (t : Tally)
  | grow (number additional : Nat)

/-- The store of a number. -/
def find {γ : Type} (stores : List γ) (number : Nat) : Except Error γ :=
  match stores[number]? with
  | some x => .ok x
  | none => .error (.outOfRange number stores.length)

variable [FloatAddition]

/-- Carry out a change at a place of a list, the others being given. -/
def changeList (lists : List TallyList) (l : TallyList) (ordinal : Nat) :
    Change → Except Error TallyList
  | .assign t => .ok (l.modify ordinal fun _ => t)
  | .apply a t row => .ok (l.apply a t row ordinal)
  | .merge f source sourceOrdinal => do
    let other ← find lists source
    return l.mergePlace f ordinal other sourceOrdinal

/-- Carry out a change at a place of an array, the others being given. -/
def changeArray (arrays : List TallyArray) (x : TallyArray) (ordinal : Nat) :
    Change → Except Error TallyArray
  | .assign t => x.modify ordinal fun _ => t
  | .apply a t row => x.apply a t row ordinal
  | .merge f source sourceOrdinal => do
    let other ← find arrays source
    x.mergePlace f ordinal other sourceOrdinal

/-- Carry out one operation. -/
def step (s : Stores) : Op → Except Error Stores
  | .createList => .ok { s with lists := s.lists ++ [.empty] }
  | .createArray capacity => .ok { s with arrays := s.arrays ++ [.ofCapacity capacity] }
  | .changeList number ordinal change => do
    let l ← find s.lists number
    let l ← changeList s.lists l ordinal change
    return { s with lists := s.lists.set number l }
  | .changeArray number ordinal change => do
    let x ← find s.arrays number
    let x ← changeArray s.arrays x ordinal change
    return { s with arrays := s.arrays.set number x }
  | .push number t => do
    let l ← find s.lists number
    let (place, l) := l.push t
    return { s with lists := s.lists.set number l, pushed := s.pushed ++ [place] }
  | .grow number additional => do
    let x ← find s.arrays number
    return { s with arrays := s.arrays.set number (x.grow additional) }

/-- Carry out a program, from no stores at all. -/
def run (program : List Op) : Except Error Stores := program.foldlM step {}

end Stores

/-! ## Maps -/

/-- A map from ordinals to tallies, with the ordinals that were touched. -/
structure PlaceMap where
  value : Nat → Tally := fun _ => .empty
  touched : Finset Nat := ∅
  /-- How many places there are, if their number is bounded. -/
  capacity : Option Nat := none

namespace PlaceMap

/-- One more than the highest ordinal touched, zero if none was. -/
def length (m : PlaceMap) : Nat := m.touched.sup (· + 1)

/-- Whether there is a place for an ordinal. -/
def has (m : PlaceMap) (ordinal : Nat) : Bool := m.capacity.all fun capacity => ordinal < capacity

/-- Touch one ordinal, and change the tally of no other. -/
def touch (m : PlaceMap) (ordinal : Nat) (effect : Tally → Tally) : PlaceMap :=
  { m with
    value := Function.update m.value ordinal (effect (m.value ordinal))
    touched := insert ordinal m.touched }

/-- More places. -/
def grow (m : PlaceMap) (additional : Nat) : PlaceMap :=
  { m with capacity := m.capacity.map (· + additional) }

/-- Touching an ordinal changes its tally and no other. -/
theorem value_touch (m : PlaceMap) (o : Nat) (effect : Tally → Tally) (o' : Nat) :
    (m.touch o effect).value o' = if o = o' then effect (m.value o') else m.value o' := by
  by_cases h : o = o'
  · subst h
    rw [if_pos rfl]
    exact Function.update_self ..
  · rw [if_neg h]
    exact Function.update_of_ne (fun h' => h h'.symm) ..

/-- An ordinal that is touched is reached. -/
theorem length_touch (m : PlaceMap) (o : Nat) (effect : Tally → Tally) :
    (m.touch o effect).length = max m.length (o + 1) := by
  rw [length, touch, Finset.sup_insert, sup_comm]
  rfl

end PlaceMap

section Effects

variable [FloatAddition]

/-- What a change makes of the tally at its place, in the store of a number; none if the source is
    that store itself or is not there.  A row that does not contribute leaves the tally as it is. -/
def Change.effect (maps : List PlaceMap) (number : Nat) : Change → Option (Tally → Tally)
  | .assign t => some fun _ => t
  | .apply a t row =>
    match a.input? t row with
    | none => some id
    | some word => some fun tally => a.function.update tally word
  | .merge f source sourceOrdinal =>
    if source = number then none
    else (maps[source]?).map fun other tally => f.merge tally (other.value sourceOrdinal)

/-- The maps of all stores of one kind after a change. -/
def PlaceMap.changed (maps : List PlaceMap) (number ordinal : Nat) (change : Change) :
    Option (List PlaceMap) := do
  let m ← maps[number]?
  let effect ← change.effect maps number
  if m.has ordinal then return maps.set number (m.touch ordinal effect) else none

/-- The maps of lists and arrays, and the answers that pushes should have given. -/
structure PlaceMaps where
  lists : List PlaceMap := []
  arrays : List PlaceMap := []
  pushed : List Nat := []

namespace PlaceMaps

/-- Keep the maps on one operation, if it is in order. -/
def step (b : PlaceMaps) : Stores.Op → Option PlaceMaps
  | .createList => some { b with lists := b.lists ++ [{}] }
  | .createArray capacity => some { b with arrays := b.arrays ++ [{ capacity := some capacity }] }
  | .changeList number ordinal change => do
    let lists ← PlaceMap.changed b.lists number ordinal change
    return { b with lists := lists }
  | .changeArray number ordinal change => do
    let arrays ← PlaceMap.changed b.arrays number ordinal change
    return { b with arrays := arrays }
  | .push number t => do
    let m ← b.lists[number]?
    return { b with
      lists := b.lists.set number (m.touch m.length fun _ => t)
      pushed := b.pushed ++ [m.length] }
  | .grow number additional => do
    let m ← b.arrays[number]?
    return { b with arrays := b.arrays.set number (m.grow additional) }

/-- Keep the maps on a program, from no stores at all. -/
def run (program : List Stores.Op) : Option PlaceMaps := program.foldlM step {}

end PlaceMaps

end Effects

/-! ## Rows that do not contribute -/

section Misses

variable [FloatAddition] {a : Aggregate} {t : Table} {row : Nat}

theorem Aggregate.updateTally_of_miss (h : a.input? t row = none) : a.updateTally t row = id := by
  funext tally
  rw [updateTally, h]
  rfl

end Misses

/-! ## Agreement -/

/-- A list that reads as a map, at all ordinals, and is as long. -/
structure TallyList.ReadsAs (l : TallyList) (m : PlaceMap) : Prop where
  get : ∀ o, l.get o = m.value o
  length : l.length = m.length
  capacity : m.capacity = none

/-- An array that reads as a map, at all ordinals, is as long and has as many places. -/
structure TallyArray.ReadsAs (x : TallyArray) (m : PlaceMap) : Prop where
  get : ∀ o, x.get o = m.value o
  length : x.length = m.length
  capacity : m.capacity = some x.capacity
  length_le : x.length ≤ x.capacity

/-- Stores that read as maps, one by one. -/
structure Stores.ReadsAs (s : Stores) (b : PlaceMaps) : Prop where
  lists : List.Forall₂ TallyList.ReadsAs s.lists b.lists
  arrays : List.Forall₂ TallyArray.ReadsAs s.arrays b.arrays
  pushed : s.pushed = b.pushed

namespace TallyList.ReadsAs

variable {l : TallyList} {m : PlaceMap}

/-- A new list reads as the empty map. -/
theorem empty : TallyList.empty.ReadsAs {} := ⟨fun _ => rfl, rfl, rfl⟩

/-- **Changing any place** of a list touches its ordinal. -/
theorem modify (h : l.ReadsAs m) (o : Nat) (effect : Tally → Tally) :
    (l.modify o effect).ReadsAs (m.touch o effect) := by
  refine ⟨fun o' => ?_, ?_, h.capacity⟩
  · rw [get_modify, PlaceMap.value_touch, h.get]
  · rw [length_modify, PlaceMap.length_touch, h.length]

/-- A push touches the ordinal that is one past the highest one. -/
theorem push (h : l.ReadsAs m) (t : Tally) :
    (l.push t).1 = m.length ∧ (l.push t).2.ReadsAs (m.touch m.length fun _ => t) := by
  refine ⟨h.length, fun o' => ?_, ?_, h.capacity⟩
  · rw [get_push, PlaceMap.value_touch, h.get, h.length]
    exact if_congr eq_comm rfl rfl
  · rw [PlaceMap.length_touch, Nat.max_eq_right (Nat.le_succ _), ← h.length]
    exact Array.size_push t

end TallyList.ReadsAs

namespace TallyArray.ReadsAs

variable {x : TallyArray} {m : PlaceMap}

/-- A new array has its places and has touched none. -/
theorem ofCapacity (capacity : Nat) :
    (TallyArray.ofCapacity capacity).ReadsAs { capacity := some capacity } :=
  ⟨fun _ => rfl, rfl, rfl, Nat.zero_le capacity⟩

/-- **Changing a place that is there** succeeds. -/
theorem modify (h : x.ReadsAs m) {o : Nat} (ho : m.has o = true) (effect : Tally → Tally) :
    ∃ x', x.modify o effect = .ok x' ∧ x'.ReadsAs (m.touch o effect) := by
  rw [PlaceMap.has, h.capacity, Option.all_some, decide_eq_true_iff] at ho
  obtain ⟨x', hx'⟩ := exists_modify ho effect
  refine ⟨x', hx', fun o' => ?_, ?_, ?_, x'.length_le⟩
  · rw [get_of_modify hx', PlaceMap.value_touch, h.get]
  · rw [length_of_modify hx', PlaceMap.length_touch, h.length]
  · rw [capacity_of_modify hx']
    exact h.capacity

/-- An array that is grown has more places, and the same tallies. -/
theorem grow (h : x.ReadsAs m) (additional : Nat) :
    (x.grow additional).ReadsAs (m.grow additional) := by
  refine ⟨h.get, h.length, ?_, (x.grow additional).length_le⟩
  rw [PlaceMap.grow, h.capacity]
  rfl

end TallyArray.ReadsAs

namespace Stores

/-! ### One change -/

theorem find_eq {γ : Type} {stores : List γ} {number : Nat} {x : γ} (h : stores[number]? = some x) :
    find stores number = .ok x := by
  rw [find, h]

variable [FloatAddition]

section

variable {maps : List PlaceMap} {number : Nat} {effect : Tally → Tally} {a : Aggregate} {t : Table}
  {row : Nat} {f : AggregateFunction} {source sourceOrdinal : Nat}

/-- What a row makes of a tally, whether it contributes or not. -/
theorem effect_apply (maps : List PlaceMap) (number : Nat) :
    (Change.apply a t row).effect maps number = some (a.updateTally t row) := by
  rw [Change.effect]
  cases hinput : a.input? t row with
  | none => rw [Aggregate.updateTally_of_miss hinput]
  | some word =>
    have hupdate : a.updateTally t row = fun tally => a.function.update tally word := by
      funext tally
      rw [Aggregate.updateTally, hinput]
    rw [hupdate]

/-- A merge that is in order folds in what the map of its source says. -/
theorem effect_merge (h : (Change.merge f source sourceOrdinal).effect maps number = some effect) :
    ∃ other, maps[source]? = some other ∧
      effect = fun tally => f.merge tally (other.value sourceOrdinal) := by
  rw [Change.effect, Option.ite_none_left_eq_some, Option.map_eq_some_iff] at h
  obtain ⟨-, other, hother, heffect⟩ := h
  exact ⟨other, hother, heffect.symm⟩

/-- A list carries out a change by its effect. -/
theorem changeList_eq {lists : List TallyList} (hall : List.Forall₂ TallyList.ReadsAs lists maps)
    {change : Change} (heffect : change.effect maps number = some effect) (l : TallyList)
    (o : Nat) : changeList lists l o change = .ok (l.modify o effect) := by
  cases change with
  | assign t =>
    cases heffect
    rfl
  | apply a t row =>
    rw [effect_apply] at heffect
    cases heffect
    rfl
  | merge f source sourceOrdinal =>
    obtain ⟨m, hm, rfl⟩ := effect_merge heffect
    obtain ⟨other, hother, hreads⟩ := getElem?_of_forall₂ hall hm
    rw [changeList, find_eq hother, ← hreads.get]
    rfl

/-- An array carries out a change by its effect. -/
theorem changeArray_eq {arrays : List TallyArray}
    (hall : List.Forall₂ TallyArray.ReadsAs arrays maps) {change : Change}
    (heffect : change.effect maps number = some effect) (x : TallyArray) (o : Nat) :
    changeArray arrays x o change = x.modify o effect := by
  cases change with
  | assign t =>
    cases heffect
    rfl
  | apply a t row =>
    rw [effect_apply] at heffect
    cases heffect
    rfl
  | merge f source sourceOrdinal =>
    obtain ⟨m, hm, rfl⟩ := effect_merge heffect
    obtain ⟨other, hother, hreads⟩ := getElem?_of_forall₂ hall hm
    rw [changeArray, find_eq hother, ← hreads.get]
    rfl

/-- A change that is in order finds its map, has an effect, and has a place. -/
theorem changed_eq_some {maps' : List PlaceMap} {ordinal : Nat} {change : Change}
    (h : PlaceMap.changed maps number ordinal change = some maps') :
    ∃ m effect, maps[number]? = some m ∧ change.effect maps number = some effect ∧
      m.has ordinal = true ∧ maps' = maps.set number (m.touch ordinal effect) := by
  simp only [PlaceMap.changed, Option.bind_eq_bind, Option.bind_eq_some_iff, Option.pure_def,
    Option.ite_none_right_eq_some, Option.some.injEq] at h
  obtain ⟨m, hm, effect, heffect, hhas, hmaps⟩ := h
  exact ⟨m, effect, hm, heffect, hhas, hmaps.symm⟩

/-- **One change** of a list. -/
theorem exists_changeList {lists : List TallyList} {maps' : List PlaceMap}
    (hall : List.Forall₂ TallyList.ReadsAs lists maps) {o : Nat} {change : Change}
    (h : PlaceMap.changed maps number o change = some maps') :
    ∃ l l', find lists number = .ok l ∧ changeList lists l o change = .ok l' ∧
      List.Forall₂ TallyList.ReadsAs (lists.set number l') maps' := by
  -- a list has a place for every ordinal
  obtain ⟨m, effect, hm, heffect, -, rfl⟩ := changed_eq_some h
  obtain ⟨l, hl, hreads⟩ := getElem?_of_forall₂ hall hm
  exact ⟨l, l.modify o effect, find_eq hl, changeList_eq hall heffect l o,
    forall₂_set hall (hreads.modify o effect) number⟩

/-- **One change** of an array, at a place that is there. -/
theorem exists_changeArray {arrays : List TallyArray} {maps' : List PlaceMap}
    (hall : List.Forall₂ TallyArray.ReadsAs arrays maps) {o : Nat} {change : Change}
    (h : PlaceMap.changed maps number o change = some maps') :
    ∃ x x', find arrays number = .ok x ∧ changeArray arrays x o change = .ok x' ∧
      List.Forall₂ TallyArray.ReadsAs (arrays.set number x') maps' := by
  obtain ⟨m, effect, hm, heffect, hhas, rfl⟩ := changed_eq_some h
  obtain ⟨x, hx, hreads⟩ := getElem?_of_forall₂ hall hm
  obtain ⟨x', hx', hreads'⟩ := hreads.modify hhas effect
  exact ⟨x, x', find_eq hx, (changeArray_eq hall heffect x o).trans hx',
    forall₂_set hall hreads' number⟩

end

/-! ### One operation, and programs -/

namespace ReadsAs

variable {s : Stores} {b b' : PlaceMaps}

/-- **One operation** that is in order. -/
theorem step (h : s.ReadsAs b) {op : Op} (hop : b.step op = some b') :
    ∃ s', s.step op = .ok s' ∧ s'.ReadsAs b' := by
  cases op with
  | createList =>
    cases hop
    exact ⟨_, rfl, List.rel_append h.lists (.cons .empty .nil), h.arrays, h.pushed⟩
  | createArray capacity =>
    cases hop
    exact ⟨_, rfl, h.lists, List.rel_append h.arrays (.cons (.ofCapacity capacity) .nil), h.pushed⟩
  | changeList number ordinal change =>
    obtain ⟨lists', hlists, hb'⟩ := Option.bind_eq_some_iff.mp hop
    cases hb'
    obtain ⟨l, l', hl, hl', hall⟩ := exists_changeList h.lists hlists
    exact ⟨{ s with lists := s.lists.set number l' },
      bind_eq_ok_iff.mpr ⟨l, hl, bind_eq_ok_iff.mpr ⟨l', hl', rfl⟩⟩, hall, h.arrays, h.pushed⟩
  | changeArray number ordinal change =>
    obtain ⟨arrays', harrays, hb'⟩ := Option.bind_eq_some_iff.mp hop
    cases hb'
    obtain ⟨x, x', hx, hx', hall⟩ := exists_changeArray h.arrays harrays
    exact ⟨{ s with arrays := s.arrays.set number x' },
      bind_eq_ok_iff.mpr ⟨x, hx, bind_eq_ok_iff.mpr ⟨x', hx', rfl⟩⟩, h.lists, hall, h.pushed⟩
  | push number t =>
    obtain ⟨m, hm, hb'⟩ := Option.bind_eq_some_iff.mp hop
    cases hb'
    obtain ⟨l, hl, hreads⟩ := getElem?_of_forall₂ h.lists hm
    obtain ⟨hplace, hreads'⟩ := hreads.push t
    exact ⟨⟨s.lists.set number (l.push t).2, s.arrays, s.pushed ++ [(l.push t).1]⟩,
      bind_eq_ok_iff.mpr ⟨l, find_eq hl, rfl⟩, forall₂_set h.lists hreads' number, h.arrays,
      by rw [hplace, h.pushed]⟩
  | grow number additional =>
    obtain ⟨m, hm, hb'⟩ := Option.bind_eq_some_iff.mp hop
    cases hb'
    obtain ⟨x, hx, hreads⟩ := getElem?_of_forall₂ h.arrays hm
    exact ⟨{ s with arrays := s.arrays.set number (x.grow additional) },
      bind_eq_ok_iff.mpr ⟨x, find_eq hx, rfl⟩, h.lists,
      forall₂_set h.arrays (hreads.grow additional) number, h.pushed⟩

/-- So operations that are in order succeed one after the other. -/
theorem foldlM_step (h : s.ReadsAs b) {program : List Op}
    (hprogram : program.foldlM PlaceMaps.step b = some b') :
    ∃ s', program.foldlM Stores.step s = .ok s' ∧ s'.ReadsAs b' := by
  induction program generalizing s b with
  | nil =>
    cases hprogram
    exact ⟨s, rfl, h⟩
  | cons op program ih =>
    rw [List.foldlM_cons] at hprogram
    obtain ⟨b₁, hop, hrest⟩ := Option.bind_eq_some_iff.mp hprogram
    obtain ⟨s₁, hs₁, hreads⟩ := h.step hop
    obtain ⟨s', hs', hreads'⟩ := ih hreads hrest
    refine ⟨s', ?_, hreads'⟩
    rw [List.foldlM_cons, hs₁]
    exact hs'

/-- **Every program that is in order** succeeds, and its stores read as the maps. -/
theorem run {program : List Op} (hprogram : PlaceMaps.run program = some b) :
    ∃ s, Stores.run program = .ok s ∧ s.ReadsAs b :=
  foldlM_step ⟨.nil, .nil, rfl⟩ hprogram

end ReadsAs

/-! ## Room -/

end Stores

section

variable [FloatAddition]

end

end Cohort
