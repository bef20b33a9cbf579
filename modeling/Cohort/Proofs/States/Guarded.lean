import Cohort.Proofs.States.Layouts
import Cohort.Proofs.States.View
/-
  GUARDED states: a layout that refuses whoever comes back to a group that was moved out.

  1. **Guard.**  `Guarded σ` keeps, beside the states of any layout, the ordinals of the groups that
     were moved out by `append` or `take`.  An operation that reads or changes a group demands first
     that the group is not one of these, and that it has a place in the layout: cells for all
     aggregates where groups have cells of their own, a place within the capacity of every array.

  2. **View.**  But for what it refuses, a guarded layout does what the layout does
     (`Guarded.layoutView`).

  3. **Laws.**  It obeys the laws of layouts, by which an operation on a group of the account
     succeeds (`Guarded.lawful`).  So whoever relies on the laws alone is never refused anything.
-/

namespace Cohort

/-! ## Places -/

/-- A layout of which it is known what is allocated for a group. -/
class Placed (σ : Type) where
  /-- Whether a group is there and everything an operation touches of it is allocated. -/
  hasPlace : σ → Nat → Bool

/-- A group has a bucket for every aggregate, unless it was moved out. -/
instance : Placed BucketStates where
  hasPlace s o := s.groups[o]?.any fun g => g.length == s.aggregateCount

/-- Lists make places as they are needed. -/
instance : Placed ListStates where
  hasPlace s o := decide (o < s.groups)

/-- A group is within the capacity of all arrays. -/
instance : Placed ArrayStates where
  hasPlace s o := decide (o < s.groups) && s.arrays.all fun a => decide (o < a.capacity)

instance : (m : StorageMode) → Placed m.Layout
  | .bucket => inferInstanceAs (Placed BucketStates)
  | .list => inferInstanceAs (Placed ListStates)
  | .array => inferInstanceAs (Placed ArrayStates)

section

variable [FloatAddition]

/-- The groups of an account that were not moved out have their places. -/
class LawfulPlaces (σ : Type) [LocalStates σ] [LawfulStates σ] [Placed σ] : Prop where
  hasPlace_of_holds {n : Nat} {s : σ} {gs : Account} {o : Nat} {ts : List Tally} :
    LawfulStates.Holds n s gs → gs[o]? = some (some ts) → Placed.hasPlace s o = true

instance : LawfulPlaces BucketStates where
  hasPlace_of_holds {n s gs o ts} h ho := by
    have hgroup := h.reads.shown o ts ho
    show s.groups[o]?.any _ = true
    rw [hgroup.1, Option.any_some, List.length_map, hgroup.2, h.aggregateCount, beq_self_eq_true]

instance : LawfulPlaces ListStates where
  hasPlace_of_holds h ho := decide_eq_true (h.reads.lt_size ho)

instance : LawfulPlaces ArrayStates where
  hasPlace_of_holds {n s gs o ts} h ho := by
    have hlt : o < s.groups := h.reads.lt_size ho
    show (decide (o < s.groups) && s.arrays.all _) = true
    rw [decide_eq_true hlt, Bool.true_and, List.all_eq_true]
    exact fun a ha => decide_eq_true (Nat.lt_of_lt_of_le hlt (h.covers a ha))

instance : (m : StorageMode) → LawfulPlaces m.Layout
  | .bucket => inferInstanceAs (LawfulPlaces BucketStates)
  | .list => inferInstanceAs (LawfulPlaces ListStates)
  | .array => inferInstanceAs (LawfulPlaces ArrayStates)

end

/-! ## Guard -/

/-- States of a layout, with the groups that were moved out. -/
structure Guarded (σ : Type) where
  states : σ
  movedOut : List Nat

namespace Guarded

variable {σ : Type} [LocalStates σ] [Placed σ]

/-- Demand that a group was not moved out and has its place. -/
def demand (s : Guarded σ) (ordinal : Nat) : Except Error Unit :=
  if ordinal ∉ s.movedOut ∧ Placed.hasPlace s.states ordinal = true then .ok ()
  else .error (.outOfRange ordinal (LocalStates.size s.states))

instance : LocalStates (Guarded σ) where
  mode := LocalStates.mode σ
  create aggregates maxGroups := ⟨LocalStates.create aggregates maxGroups, []⟩
  size s := LocalStates.size s.states
  push s := { s with states := LocalStates.push s.states }
  tallies s ordinal := do
    s.demand ordinal
    LocalStates.tallies s.states ordinal
  update aggregates t row ordinal s := do
    s.demand ordinal
    let states ← LocalStates.update aggregates t row ordinal s.states
    return { s with states := states }
  merge aggregates ordinal source sourceOrdinal s := do
    s.demand ordinal
    source.demand sourceOrdinal
    let states ← LocalStates.merge aggregates ordinal source.states sourceOrdinal s.states
    return { s with states := states }
  append aggregates source sourceOrdinal s := do
    source.demand sourceOrdinal
    let (ordinal, states, rest) ←
      LocalStates.append aggregates source.states sourceOrdinal s.states
    return (ordinal, { s with states := states }, ⟨rest, sourceOrdinal :: source.movedOut⟩)
  reserve additional s := { s with states := LocalStates.reserve additional s.states }
  take ordinal s := do
    s.demand ordinal
    let (buckets, states) ← LocalStates.take ordinal s.states
    return (buckets, ⟨states, ordinal :: s.movedOut⟩)

example (s : Guarded ListStates) (hs : s = LocalStates.push (LocalStates.create 1 0)) :
    (LocalStates.take 0 s >>= fun taken => LocalStates.tallies taken.2 0) =
      .error (.outOfRange 0 1) := by
  rw [hs]
  rfl

/-! ## View -/

/-- What is done after a demand follows as without it. -/
theorem follows_of_demand {α β : Type} {view : α → β} {s : Guarded σ} {ordinal : Nat}
    {x : Except Error α} {y : Except Error β} (h : Follows view x y) :
    Follows view (s.demand ordinal >>= fun _ => x) y := by
  rw [demand]
  split
  · exact h
  · exact .error _ _

/-- Guarded states seen without their guard. -/
def layoutView (σ : Type) [LocalStates σ] [Placed σ] : LayoutView (Guarded σ) σ where
  view := states
  create _ _ := rfl
  push _ := rfl
  reserve _ _ := rfl
  tallies _ _ := follows_of_demand (.self _)
  update _ _ _ _ _ := follows_of_demand (.of_built fun _ => rfl)
  merge _ _ _ _ _ := follows_of_demand (follows_of_demand (.of_built fun _ => rfl))
  append _ _ _ _ := follows_of_demand (.of_built fun _ => rfl)
  take _ _ := follows_of_demand (.of_built fun _ => rfl)

/-! ## Laws -/

variable [FloatAddition] [LawfulStates σ]

/-- Guarded states that hold the groups of an account, and know which were moved out. -/
structure Holds (n : Nat) (s : Guarded σ) (gs : Account) : Prop where
  states : LawfulStates.Holds n s.states gs
  movedOut : ∀ o ∈ s.movedOut, gs[o]? = some none

variable {n : Nat} {s source : Guarded σ} {gs gs' : Account} {o o' : Nat} {ts us : List Tally}

/-- A group of the account is not refused. -/
theorem Holds.demand_eq [LawfulPlaces σ] (h : Holds n s gs) (ho : gs[o]? = some (some ts)) :
    s.demand o = .ok () := by
  have hstays : o ∉ s.movedOut := by
    intro hmem
    have hout := h.movedOut o hmem
    rw [ho] at hout
    cases hout
  exact if_pos ⟨hstays, LawfulPlaces.hasPlace_of_holds h.states ho⟩

omit [Placed σ] in
/-- A change of a group of the account is none of a group that was moved out. -/
theorem Holds.movedOut_set (h : Holds n s gs) (ho : gs[o]? = some (some ts))
    (g : Option (List Tally)) : ∀ o' ∈ s.movedOut, (gs.set o g)[o']? = some none := by
  intro o' ho'
  have hne : o ≠ o' := by
    rintro rfl
    rw [h.movedOut o ho'] at ho
    cases ho
  rw [List.getElem?_set_ne hne]
  exact h.movedOut o' ho'

omit [Placed σ] in
/-- A group of the account that is moved out is one of those that were. -/
theorem Holds.movedOut_forget (h : Holds n s gs) (ho : gs[o]? = some (some ts)) :
    ∀ o' ∈ o :: s.movedOut, (gs.set o none)[o']? = some none := by
  refine List.forall_mem_cons.mpr ⟨?_, h.movedOut_set ho none⟩
  rw [List.getElem?_set_self (List.getElem?_eq_some_iff.mp ho).1]

omit [Placed σ] in
/-- New groups come after those that were moved out. -/
theorem Holds.movedOut_concat (h : Holds n s gs) (g : Option (List Tally)) :
    ∀ o ∈ s.movedOut, (gs ++ [g])[o]? = some none := by
  intro o ho
  have hout := h.movedOut o ho
  rw [List.getElem?_append_left (List.getElem?_eq_some_iff.mp hout).1]
  exact hout

/-- **A guarded layout obeys the laws of layouts.** -/
instance lawful [LawfulPlaces σ] : LawfulStates (Guarded σ) where
  Holds := Holds
  holds_create n maxGroups := ⟨LawfulStates.holds_create n maxGroups, nofun⟩
  size_eq h := by
    have hsize := LawfulStates.size_eq h.states
    exact hsize
  tallies_eq {n s gs o ts} h ho := by
    show (s.demand o >>= fun _ => _) = _
    rw [h.demand_eq ho]
    exact LawfulStates.tallies_eq h.states ho
  length_eq h ho := LawfulStates.length_eq h.states ho
  holds_push h := ⟨LawfulStates.holds_push h.states, h.movedOut_concat _⟩
  holds_reserve additional h := ⟨LawfulStates.holds_reserve additional h.states, h.movedOut⟩
  holds_update {n s gs o ts} aggregates t row h ho := by
    obtain ⟨states, hupdate, hholds⟩ := LawfulStates.holds_update aggregates t row h.states ho
    refine ⟨{ s with states := states }, ?_, hholds, h.movedOut_set ho _⟩
    show (s.demand o >>= fun _ => LocalStates.update _ _ _ _ _ >>= _) = _
    rw [h.demand_eq ho, hupdate]
    rfl
  holds_merge {n s source gs gs' o o' ts us} aggregates h ho h' ho' := by
    obtain ⟨states, hmerge, hholds⟩ :=
      LawfulStates.holds_merge aggregates h.states ho h'.states ho'
    refine ⟨{ s with states := states }, ?_, hholds, h.movedOut_set ho _⟩
    show (s.demand o >>= fun _ => source.demand o' >>= fun _ =>
      LocalStates.merge _ _ _ _ _ >>= _) = _
    rw [h.demand_eq ho, h'.demand_eq ho', hmerge]
    rfl
  holds_append {n s source gs gs' o' us} aggregates h h' ho' := by
    obtain ⟨states, rest, us', happend, hholds, hrest, hus'⟩ :=
      LawfulStates.holds_append aggregates h.states h'.states ho'
    refine ⟨{ s with states := states }, ⟨rest, o' :: source.movedOut⟩, us', ?_,
      ⟨hholds, h.movedOut_concat _⟩, ⟨hrest, h'.movedOut_forget ho'⟩, hus'⟩
    show (source.demand o' >>= fun _ => LocalStates.append _ _ _ _ >>= _) = _
    rw [h'.demand_eq ho', happend]
    rfl
  holds_take {n s gs o ts} h ho := by
    obtain ⟨states, htake, hholds⟩ := LawfulStates.holds_take h.states ho
    refine ⟨⟨states, o :: s.movedOut⟩, ?_, hholds, h.movedOut_forget ho⟩
    show (s.demand o >>= fun _ => LocalStates.take _ _ >>= _) = _
    rw [h.demand_eq ho, htake]
    rfl

end Guarded
end Cohort
