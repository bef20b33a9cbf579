import Cohort.Shared.Crew
import Cohort.States.Basic
/-
  VIEWS of a layout: one layout does what another does, and keeps books besides.

  1. **Outcomes.**  One outcome follows another through a view if it is what the view shows of the
     other, as far as the other succeeds (`Follows`).  Nothing is said where the other fails.  This
     goes through sequences, folds and maps.

  2. **Layouts.**  A `LayoutView` shows the states of one layout as those of another, so that every
     operation follows.  The first layout may refuse what the second would do.  If it refuses
     nothing in a run, then what it watches over is true of the run in the second layout.

  3. **Crews.**  Where every step follows, so does every interleaving.
-/

namespace Cohort

/-! ## Outcomes -/

/-- If `x` succeeds, then so does `y`, with what the view shows of the result. -/
def Follows {α β : Type} (view : α → β) (x : Except Error α) (y : Except Error β) : Prop :=
  ∀ a, x = .ok a → y = .ok (view a)

namespace Follows

variable {α β α' β' : Type} {view : α → β} {view' : α' → β'}

theorem ok (a : α) : Follows view (.ok a) (.ok (view a)) := by
  intro a' ha
  cases ha
  rfl

theorem error (e : Error) (y : Except Error β) : Follows view (.error e) y := nofun

theorem self (x : Except Error α) : Follows id x x := fun _ ha => ha

/-- What is built on a result shows the result. -/
theorem of_built {y : Except Error β} {build : β → α} (h : ∀ b, view (build b) = b) :
    Follows view (y >>= fun b => .ok (build b)) y := by
  intro a ha
  cases y with
  | error e => cases ha
  | ok b =>
    cases ha
    exact congrArg Except.ok (h b).symm

/-- What follows goes on with what is seen of it. -/
theorem bind {x : Except Error α} {y : Except Error β} (h : Follows view x y)
    {f : α → Except Error α'} {g : β → Except Error β'}
    (hfg : ∀ a, Follows view' (f a) (g (view a))) : Follows view' (x >>= f) (y >>= g) := by
  intro c hc
  cases x with
  | error e => cases hc
  | ok a =>
    rw [h a rfl]
    exact hfg a c hc

/-- Folds that follow step by step follow. -/
theorem foldlM {f : α → α' → Except Error α} {g : β → β' → Except Error β}
    (hstep : ∀ a x, Follows view (f a x) (g (view a) (view' x))) (xs : List α') (a : α) :
    Follows view (xs.foldlM f a) ((xs.map view').foldlM g (view a)) := by
  induction xs generalizing a with
  | nil => exact ok a
  | cons x xs ih =>
    rw [List.map_cons, List.foldlM_cons, List.foldlM_cons]
    exact (hstep a x).bind ih

/-- Folds over the same list. -/
theorem foldlM_same {f : α → α' → Except Error α} {g : β → α' → Except Error β}
    (hstep : ∀ a x, Follows view (f a x) (g (view a) x)) (xs : List α') (a : α) :
    Follows view (xs.foldlM f a) (xs.foldlM g (view a)) := by
  have h := @foldlM α β α' α' view id f g hstep xs a
  rwa [List.map_id] at h

theorem mapM {f : α → Except Error α'} {g : β → Except Error β'}
    (hstep : ∀ a, Follows view' (f a) (g (view a))) (xs : List α) :
    Follows (List.map view') (xs.mapM f) ((xs.map view).mapM g) := by
  induction xs with
  | nil => exact ok []
  | cons x xs ih =>
    rw [List.map_cons, List.mapM_cons, List.mapM_cons]
    exact (hstep x).bind fun a => ih.bind fun as => ok (a :: as)

end Follows

/-! ## Layouts -/

/-- States of a layout `τ` seen as states of a layout `σ`, where every operation follows. -/
structure LayoutView (τ σ : Type) [LocalStates τ] [LocalStates σ] where
  view : τ → σ
  create (aggregates maxGroups : Nat) :
    view (LocalStates.create aggregates maxGroups) = LocalStates.create aggregates maxGroups
  push (s : τ) : view (LocalStates.push s) = LocalStates.push (view s)
  reserve (additional : Nat) (s : τ) :
    view (LocalStates.reserve additional s) = LocalStates.reserve additional (view s)
  tallies (s : τ) (o : Nat) :
    Follows id (LocalStates.tallies s o) (LocalStates.tallies (view s) o)
  update (aggregates : List Aggregate) (t : Table) (row o : Nat) (s : τ) :
    Follows view (LocalStates.update aggregates t row o s)
      (LocalStates.update aggregates t row o (view s))
  merge (aggregates : List Aggregate) (o : Nat) (source : τ) (o' : Nat) (s : τ) :
    Follows view (LocalStates.merge aggregates o source o' s)
      (LocalStates.merge aggregates o (view source) o' (view s))
  append (aggregates : List Aggregate) (source : τ) (o' : Nat) (s : τ) :
    Follows (Prod.map id (Prod.map view view)) (LocalStates.append aggregates source o' s)
      (LocalStates.append aggregates (view source) o' (view s))
  take (o : Nat) (s : τ) :
    Follows (Prod.map id view) (LocalStates.take o s) (LocalStates.take o (view s))

/-- What is loaded is the same. -/
theorem LayoutView.load {τ σ : Type} [LocalStates τ] [LocalStates σ] (φ : LayoutView τ σ) (s : τ)
    (aggregate o : Nat) :
    Follows id (LocalStates.load s aggregate o) (LocalStates.load (φ.view s) aggregate o) :=
  (φ.tallies s o).bind fun _ => .self _

/-! ## Crews -/

namespace Crew

variable {ω ω' γ : Type} {see : ω → ω'}

/-- A crew whose workers are seen as others. -/
def seen (see : ω → ω') (c : Crew ω γ) : Crew ω' γ := ⟨c.workers.map see, c.shared⟩

variable {step : ω → γ → Except Error (ω × γ)} {step' : ω' → γ → Except Error (ω' × γ)}

/-- A turn follows, whoever has it. -/
theorem turn_follows (hstep : ∀ w g, Follows (Prod.map see id) (step w g) (step' (see w) g))
    (c : Crew ω γ) (i : Nat) : Follows (seen see) (c.turn step i) ((c.seen see).turn step' i) := by
  have hworker : (c.seen see).workers[i]? = c.workers[i]?.map see := List.getElem?_map
  rw [Crew.turn, Crew.turn, hworker]
  cases c.workers[i]? with
  | none => exact .ok c
  | some w =>
    refine (hstep w c.shared).bind fun r => ?_
    have hset : (c.workers.set i r.1).map see = (c.workers.map see).set i (see r.1) := List.map_set
    have hnext : Follows (seen see) (.ok ⟨c.workers.set i r.1, r.2⟩)
        (.ok ⟨(c.workers.set i r.1).map see, r.2⟩) := .ok (Crew.mk (c.workers.set i r.1) r.2)
    rwa [hset] at hnext

theorem run_follows (hstep : ∀ w g, Follows (Prod.map see id) (step w g) (step' (see w) g))
    (schedule : List Nat) (c : Crew ω γ) :
    Follows (seen see) (c.run step schedule) ((c.seen see).run step' schedule) :=
  Follows.foldlM_same (turn_follows hstep) schedule c

/-- **Every interleaving** follows, if workers have as many steps left as those they are seen as. -/
theorem interleave_follows
    (hstep : ∀ w g, Follows (Prod.map see id) (step w g) (step' (see w) g)) {cost : ω → Nat}
    {cost' : ω' → Nat} (hcost : ∀ w, cost' (see w) = cost w) (schedule : List Nat) (c : Crew ω γ) :
    Follows (seen see) (c.interleave step cost schedule)
      ((c.seen see).interleave step' cost' schedule) := by
  refine (run_follows hstep schedule c).bind fun d => ?_
  have hremaining : (d.seen see).remaining cost' = d.remaining cost := by
    rw [remaining, remaining, seen, List.zipIdx_map, List.flatMap_map]
    refine congrArg (List.flatMap · _) (funext fun w => ?_)
    exact congrArg (List.replicate · w.2) (hcost w.1)
  rw [hremaining]
  exact run_follows hstep _ d

end Crew
end Cohort
