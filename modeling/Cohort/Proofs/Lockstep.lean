import Mathlib.Data.List.Forall2
import Cohort.Shared.Crew
/-
  Two runs in LOCKSTEP: the same program on data that are not equal but correspond.

  1. **Outcomes.**  Two runs are in lockstep if both fail with the same error or both succeed with
     results that correspond.  This goes through sequences, folds and maps.

  2. **Crews.**  If every step of corresponding workers on corresponding groups is in lockstep, then
     so is every interleaving, the schedule being the same.
-/

namespace Cohort

/-- Two steps succeed if the first does and the second on what came of it. -/
theorem bind_eq_ok_iff {α β : Type} {x : Except Error α} {f : α → Except Error β} {b : β} :
    (x >>= f) = .ok b ↔ ∃ a, x = .ok a ∧ f a = .ok b := by
  cases x with
  | error e => exact ⟨nofun, fun ⟨_, ha, _⟩ => by cases ha⟩
  | ok a => exact ⟨fun h => ⟨a, rfl, h⟩, fun ⟨_, ha, h⟩ => by cases ha; exact h⟩

/-- Outcomes that correspond: the same error, or results related by `R`. -/
inductive Lockstep {α β : Type} (R : α → β → Prop) : Except Error α → Except Error β → Prop
  | ok {a : α} {b : β} (h : R a b) : Lockstep R (.ok a) (.ok b)
  | error (e : Error) : Lockstep R (.error e) (.error e)

namespace Lockstep

variable {α β α' β' : Type} {R : α → β → Prop} {S : α' → β' → Prop}

/-- What does not involve the difference is in lockstep with itself. -/
theorem self (x : Except Error α) : Lockstep Eq x x := by
  cases x with
  | error e => exact .error e
  | ok a => exact .ok rfl

/-- What is said of results may make use of where they come from. -/
theorem imp_of_ok {R' : α → β → Prop} {x : Except Error α} {y : Except Error β}
    (h : Lockstep R x y) (himp : ∀ a b, R a b → x = .ok a → y = .ok b → R' a b) :
    Lockstep R' x y := by
  cases h with
  | error e => exact .error e
  | ok hab => exact .ok (himp _ _ hab rfl rfl)

/-- Steps in lockstep, one after the other. -/
theorem bind {x : Except Error α} {y : Except Error β} (h : Lockstep R x y)
    {f : α → Except Error α'} {g : β → Except Error β'}
    (hfg : ∀ a b, R a b → Lockstep S (f a) (g b)) : Lockstep S (x >>= f) (y >>= g) := by
  cases h with
  | error e => exact .error e
  | ok hab => exact hfg _ _ hab

/-- Folds over lists that correspond member by member. -/
theorem foldlM {f : α → α' → Except Error α} {g : β → β' → Except Error β}
    (hstep : ∀ a b x y, R a b → S x y → Lockstep R (f a x) (g b y)) {xs : List α'} {ys : List β'}
    (hxs : List.Forall₂ S xs ys) {a : α} {b : β} (h : R a b) :
    Lockstep R (xs.foldlM f a) (ys.foldlM g b) := by
  induction hxs generalizing a b with
  | nil => exact .ok h
  | cons hxy _ ih =>
    rw [List.foldlM_cons, List.foldlM_cons]
    exact (hstep _ _ _ _ h hxy).bind fun a' b' h' => ih h'

theorem mapM {f : α → Except Error α'} {g : β → Except Error β'}
    (hstep : ∀ a b, R a b → Lockstep S (f a) (g b)) {xs : List α} {ys : List β}
    (hxs : List.Forall₂ R xs ys) : Lockstep (List.Forall₂ S) (xs.mapM f) (ys.mapM g) := by
  induction hxs with
  | nil => exact .ok .nil
  | cons hxy _ ih =>
    rw [List.mapM_cons, List.mapM_cons]
    exact (hstep _ _ hxy).bind fun a b hab => ih.bind fun as bs habs => .ok (.cons hab habs)

end Lockstep

/-! ## Places of lists that correspond -/

section Places

variable {α β : Type} {R : α → β → Prop} {as : List α} {bs : List β}

/-- Lists that correspond do so at every place. -/
theorem rel_getElem?_of_forall₂ (h : List.Forall₂ R as bs) (i : Nat) :
    Option.Rel R as[i]? bs[i]? := by
  induction h generalizing i with
  | nil => exact .none
  | cons hab _ ih =>
    cases i with
    | zero => exact .some hab
    | succ i => exact ih i

/-- What is at a place of one list corresponds to something at that place of the other. -/
theorem getElem?_of_forall₂ (h : List.Forall₂ R as bs) {i : Nat} {b : β} (hb : bs[i]? = some b) :
    ∃ a, as[i]? = some a ∧ R a b := by
  have hrel := rel_getElem?_of_forall₂ h i
  rw [hb] at hrel
  generalize as[i]? = found at hrel
  cases hrel with
  | some hab => exact ⟨_, rfl, hab⟩

theorem forall₂_set (h : List.Forall₂ R as bs) {a : α} {b : β} (hab : R a b) (i : Nat) :
    List.Forall₂ R (as.set i a) (bs.set i b) := by
  induction h generalizing i with
  | nil => exact .nil
  | cons hhead htail ih =>
    cases i with
    | zero => exact .cons hab htail
    | succ i => exact .cons hhead (ih i)

/-- Numbering keeps the correspondence. -/
theorem forall₂_zipIdx (h : List.Forall₂ R as bs) (n : Nat) :
    List.Forall₂ (fun p q => R p.1 q.1 ∧ p.2 = q.2) (as.zipIdx n) (bs.zipIdx n) := by
  induction h generalizing n with
  | nil => exact .nil
  | cons hab _ ih => exact .cons ⟨hab, rfl⟩ (ih (n + 1))

end Places

/-! ## Crews -/

namespace Crew

variable {ω ω' γ γ' : Type} {W : ω → ω' → Prop} {G : γ → γ' → Prop}

/-- Crews that correspond worker by worker and in what they share. -/
structure Corresponds (W : ω → ω' → Prop) (G : γ → γ' → Prop) (c : Crew ω γ) (c' : Crew ω' γ') :
    Prop where
  workers : List.Forall₂ W c.workers c'.workers
  shared : G c.shared c'.shared

variable {step : ω → γ → Except Error (ω × γ)} {step' : ω' → γ' → Except Error (ω' × γ')}
variable {c : Crew ω γ} {c' : Crew ω' γ'}

/-- Steps that are in lockstep wherever workers and what they share correspond. -/
def InLockstep (W : ω → ω' → Prop) (G : γ → γ' → Prop) (step : ω → γ → Except Error (ω × γ))
    (step' : ω' → γ' → Except Error (ω' × γ')) : Prop :=
  ∀ w w' g g', W w w' → G g g' →
    Lockstep (fun r r' => W r.1 r'.1 ∧ G r.2 r'.2) (step w g) (step' w' g')

theorem Corresponds.turn (hstep : InLockstep W G step step') (h : c.Corresponds W G c') (i : Nat) :
    Lockstep (Corresponds W G) (c.turn step i) (c'.turn step' i) := by
  have hrel := rel_getElem?_of_forall₂ h.workers i
  rw [Crew.turn, Crew.turn]
  generalize c.workers[i]? = w at hrel ⊢
  generalize c'.workers[i]? = w' at hrel ⊢
  cases hrel with
  | none => exact .ok h
  | some hw =>
    refine (hstep _ _ _ _ hw h.shared).bind fun r r' hr => .ok ?_
    exact ⟨forall₂_set h.workers hr.1 i, hr.2⟩

theorem Corresponds.run (hstep : InLockstep W G step step') (h : c.Corresponds W G c')
    (schedule : List Nat) :
    Lockstep (Corresponds W G) (c.run step schedule) (c'.run step' schedule) :=
  Lockstep.foldlM (fun _ _ i _ hc hi => hi ▸ hc.turn hstep i)
    (List.forall₂_same.mpr fun _ _ => rfl) h

/-- **Every interleaving** of steps in lockstep is in lockstep. -/
theorem Corresponds.interleave (hstep : InLockstep W G step step') {cost : ω → Nat}
    {cost' : ω' → Nat} (hcost : ∀ w w', W w w' → cost w = cost' w') (h : c.Corresponds W G c')
    (schedule : List Nat) :
    Lockstep (Corresponds W G) (c.interleave step cost schedule)
      (c'.interleave step' cost' schedule) := by
  refine (h.run hstep schedule).bind fun d d' hd => ?_
  have hremaining : d.remaining cost = d'.remaining cost' := by
    have hplaces := forall₂_zipIdx hd.workers 0
    rw [remaining, remaining]
    generalize d.workers.zipIdx = ws at hplaces ⊢
    generalize d'.workers.zipIdx = ws' at hplaces ⊢
    induction hplaces with
    | nil => rfl
    | cons hw _ ih => rw [List.flatMap_cons, List.flatMap_cons, ih, hcost _ _ hw.1, hw.2]
  rw [hremaining]
  exact hd.run hstep _

end Crew
end Cohort
