import Cohort.Error
/-
  Crews: workers that take turns on something shared.

  A worker's turn is one atomic step.  A SCHEDULE lists whose turn it is, by number; a turn of a
  worker that is done, or that does not exist, changes nothing.  `interleave` follows a schedule and
  then lets the workers finish one after the other.  For that each worker has a bound on the steps
  it still has to take, so every interleaving in which all workers finish is reached by a schedule.
-/

namespace Cohort

/-- Workers and what they share. -/
structure Crew (ω γ : Type) where
  workers : List ω
  shared : γ

namespace Crew

variable {ω γ : Type}

/-- One step of worker number `i`. -/
def turn (step : ω → γ → Except Error (ω × γ)) (c : Crew ω γ) (i : Nat) :
    Except Error (Crew ω γ) :=
  match c.workers[i]? with
  | none => .ok c
  | some w => do
    let (w, shared) ← step w c.shared
    return ⟨c.workers.set i w, shared⟩

/-- The turns of a schedule. -/
def run (step : ω → γ → Except Error (ω × γ)) (schedule : List Nat) (c : Crew ω γ) :
    Except Error (Crew ω γ) :=
  schedule.foldlM (turn step) c

/-- Enough turns for all workers to finish one after the other, given how many steps each has to
    take at most. -/
def remaining (cost : ω → Nat) (c : Crew ω γ) : List Nat :=
  c.workers.zipIdx.flatMap fun w => List.replicate (cost w.1) w.2

/-- The turns of a schedule, and then as many as it takes to finish. -/
def interleave (step : ω → γ → Except Error (ω × γ)) (cost : ω → Nat) (schedule : List Nat)
    (c : Crew ω γ) : Except Error (Crew ω γ) := do
  let c ← c.run step schedule
  c.run step (c.remaining cost)

end Crew
end Cohort
