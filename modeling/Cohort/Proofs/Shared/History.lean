import Mathlib.Data.List.Basic
import Cohort.Shared.Crew
/-
  What a crew has done: HISTORIES, and how to reason about all interleavings at once.

  1. **History.**  A schedule says whose turn it is; the history says what came of it, step by step:
     by whom, and what.  The deeds of one worker are read off by `ofWorker`, in the order in which
     that worker did them.

  2. **Discipline.**  What holds along every run splits in two.  `Common` is about the shared part
     and the whole history, `Own` about one worker and its own deeds.  A worker's step keeps
     `Common` and the worker's own `Own`; all that the OTHER workers notice is that the shared part
     has grown (`Grows`), and growth takes nothing away from them.  `Discipline.run` is the
     induction over the schedule.

  3. **End.**  If every step lowers the bound on the steps a worker still has to take, `interleave`
     ends with all bounds at zero, and it is the run of a longer schedule.
-/

namespace Cohort.Crew

variable {ω γ δ : Type}

/-! ## Histories -/

/-- What is done along a schedule, and by whom; `deeds` tells what a worker's next step does. -/
def history (step : ω → γ → Except Error (ω × γ)) (deeds : ω → γ → List δ) :
    List Nat → Crew ω γ → List (Nat × δ)
  | [], _ => []
  | i :: schedule, c =>
    match c.workers[i]?, turn step c i with
    | some w, .ok c' => (deeds w c.shared).map (i, ·) ++ history step deeds schedule c'
    | _, _ => history step deeds schedule c

/-- The deeds of one worker, in order. -/
def ofWorker (i : Nat) (h : List (Nat × δ)) : List δ :=
  h.filterMap fun e => if e.1 = i then some e.2 else none

theorem ofWorker_append (i : Nat) (h h' : List (Nat × δ)) :
    ofWorker i (h ++ h') = ofWorker i h ++ ofWorker i h' := List.filterMap_append

theorem ofWorker_cons (i : Nat) (e : Nat × δ) (h : List (Nat × δ)) :
    ofWorker i (e :: h) = if e.1 = i then e.2 :: ofWorker i h else ofWorker i h := by
  rw [ofWorker, List.filterMap_cons]
  by_cases hi : e.1 = i
  · rw [if_pos hi, if_pos hi]
    rfl
  · rw [if_neg hi, if_neg hi]
    rfl

/-- A worker's own deeds are all there ... -/
theorem ofWorker_own (i : Nat) (ds : List δ) : ofWorker i (ds.map (i, ·)) = ds := by
  induction ds with
  | nil => rfl
  | cons d ds ih => rw [List.map_cons, ofWorker_cons, if_pos rfl, ih]

/-- ... and those of others are not. -/
theorem ofWorker_other {i j : Nat} (hne : i ≠ j) (ds : List δ) :
    ofWorker j (ds.map (i, ·)) = [] := by
  induction ds with
  | nil => rfl
  | cons d ds ih => rw [List.map_cons, ofWorker_cons, if_neg hne, ih]

/-- What a worker did is what the history says of it. -/
theorem mem_ofWorker {i : Nat} {d : δ} {h : List (Nat × δ)} : d ∈ ofWorker i h ↔ (i, d) ∈ h := by
  rw [ofWorker, List.mem_filterMap]
  constructor
  · rintro ⟨⟨j, d'⟩, hmem, heq⟩
    by_cases hj : j = i
    · rw [if_pos hj] at heq
      cases heq
      exact hj ▸ hmem
    · rw [if_neg hj] at heq
      cases heq
  · exact fun hmem => ⟨(i, d), hmem, if_pos rfl⟩

/-- What one worker adds, among what all workers have. -/
theorem flatMap_range_bump {β : Type} (bs : List β) (F : Nat → List β) {i n : Nat} (hi : i < n) :
    ((List.range n).flatMap fun j => if i = j then bs ++ F j else F j).Perm
      (bs ++ (List.range n).flatMap F) := by
  induction n with
  | zero => omega
  | succ n ih =>
    rw [List.range_succ, List.flatMap_append, List.flatMap_append, List.flatMap_singleton,
      List.flatMap_singleton]
    by_cases hin : i = n
    · -- the worker is the last one: its deeds have to pass those of all before it
      subst hin
      have hsame : ((List.range i).flatMap fun j => if i = j then bs ++ F j else F j) =
          (List.range i).flatMap F := by
        refine List.flatMap_congr fun j hj => if_neg ?_
        have := List.mem_range.mp hj
        omega
      rw [hsame, if_pos rfl, ← List.append_assoc, ← List.append_assoc]
      exact List.perm_append_comm.append_right (F i)
    · rw [if_neg hin, ← List.append_assoc]
      exact (ih (by omega)).append_right (F n)

/-- **What the workers did one by one is what was done at all**, up to its order. -/
theorem perm_ofWorker {β : Type} (p : δ → Option β) {h : List (Nat × δ)} {n : Nat}
    (hn : ∀ e ∈ h, e.1 < n) :
    (h.filterMap fun e => p e.2).Perm
      ((List.range n).flatMap fun i => (ofWorker i h).filterMap p) := by
  induction h with
  | nil =>
    have hnone : ((List.range n).flatMap fun _ => ([] : List β)) = [] :=
      List.flatMap_eq_nil_iff.mpr fun _ _ => rfl
    exact List.Perm.of_eq hnone.symm
  | cons e h ih =>
    have hcons : ∀ i, (ofWorker i (e :: h)).filterMap p =
        if e.1 = i then (p e.2).toList ++ (ofWorker i h).filterMap p
        else (ofWorker i h).filterMap p := by
      intro i
      rw [ofWorker_cons]
      by_cases hi : e.1 = i
      · rw [if_pos hi, if_pos hi, List.filterMap_cons]
        cases p e.2 <;> rfl
      · rw [if_neg hi, if_neg hi]
    have hfirst : ((e :: h).filterMap fun e => p e.2) =
        (p e.2).toList ++ h.filterMap fun e => p e.2 := by
      rw [List.filterMap_cons]
      cases p e.2 <;> rfl
    have htail := ih fun e' he' => hn e' (List.mem_cons_of_mem e he')
    rw [hfirst, List.flatMap_congr fun i _ => hcons i]
    exact (htail.append_left _).trans
      (flatMap_range_bump _ _ (hn e List.mem_cons_self)).symm

/-- Where one worker did everything, its deeds in order are all deeds in order. -/
theorem filterMap_ofWorker {β : Type} (p : δ → Option β) {h : List (Nat × δ)} {i : Nat}
    (hi : ∀ e ∈ h, e.1 = i) : (ofWorker i h).filterMap p = h.filterMap fun e => p e.2 := by
  induction h with
  | nil => rfl
  | cons e h ih =>
    rw [ofWorker_cons, if_pos (hi e List.mem_cons_self), List.filterMap_cons, List.filterMap_cons,
      ih fun e' he' => hi e' (List.mem_cons_of_mem e he')]

/-! ## Turns -/

/-- A turn of nobody changes nothing. -/
theorem turn_of_none {step : ω → γ → Except Error (ω × γ)} {c : Crew ω γ} {i : Nat}
    (h : c.workers[i]? = none) : turn step c i = .ok c := by
  rw [turn, h]

/-- A turn is a step of the worker whose turn it is, on what all of them share. -/
theorem turn_of_some {step : ω → γ → Except Error (ω × γ)} {c : Crew ω γ} {i : Nat} {w w' : ω}
    {g' : γ} (h : c.workers[i]? = some w) (hstep : step w c.shared = .ok (w', g')) :
    turn step c i = .ok ⟨c.workers.set i w', g'⟩ := by
  rw [turn, h]
  dsimp only
  rw [hstep]
  rfl

/-- Nobody joins the crew and nobody leaves it. -/
theorem length_turn {step : ω → γ → Except Error (ω × γ)} {c c' : Crew ω γ} {i : Nat}
    (h : turn step c i = .ok c') : c'.workers.length = c.workers.length := by
  cases hi : c.workers[i]? with
  | none =>
    rw [turn_of_none hi] at h
    cases h
    rfl
  | some w =>
    cases hstep : step w c.shared with
    | error e =>
      rw [turn, hi] at h
      dsimp only at h
      rw [hstep] at h
      cases h
    | ok next =>
      rw [turn_of_some hi hstep] at h
      cases h
      exact List.length_set

/-- Whoever has done something is one of the crew. -/
theorem lt_of_mem_history {step : ω → γ → Except Error (ω × γ)} {deeds : ω → γ → List δ}
    {schedule : List Nat} {c : Crew ω γ} {e : Nat × δ} (h : e ∈ history step deeds schedule c) :
    e.1 < c.workers.length := by
  induction schedule generalizing c with
  | nil => cases h
  | cons i schedule ih =>
    unfold history at h
    split at h
    case h_1 w c' hi hturn =>
      rcases List.mem_append.mp h with h | h
      · obtain ⟨d, -, rfl⟩ := List.mem_map.mp h
        exact (List.getElem?_eq_some_iff.mp hi).1
      · exact length_turn hturn ▸ ih h
    case h_2 => exact ih h

theorem run_cons (step : ω → γ → Except Error (ω × γ)) (i : Nat) (schedule : List Nat)
    (c : Crew ω γ) : run step (i :: schedule) c = turn step c i >>= run step schedule := rfl

/-- A schedule may be cut anywhere. -/
theorem run_append (step : ω → γ → Except Error (ω × γ)) (s s' : List Nat) (c : Crew ω γ) :
    run step (s ++ s') c = run step s c >>= run step s' := List.foldlM_append ..

/-! ## Discipline -/

/-- How the workers of a crew keep what is common and what is their own. -/
structure Discipline (step : ω → γ → Except Error (ω × γ)) (deeds : ω → γ → List δ)
    (Common : List (Nat × δ) → γ → Prop) (Own : Nat → List δ → ω → γ → Prop)
    (Grows : γ → γ → Prop) : Prop where
  /-- A step succeeds and keeps what is common and what is the worker's own. -/
  keeps : ∀ {h g i w}, Common h g → Own i (ofWorker i h) w g →
    ∃ w' g', step w g = .ok (w', g') ∧ Common (h ++ (deeds w g).map (i, ·)) g' ∧
      Own i (ofWorker i h ++ deeds w g) w' g' ∧ Grows g g'
  /-- Growth takes nothing away. -/
  stable : ∀ {i ds w g g'}, Own i ds w g → Grows g g' → Own i ds w g'

/-- What is common to a crew holds of it, and what is their own of all its workers. -/
structure Holds (Common : List (Nat × δ) → γ → Prop) (Own : Nat → List δ → ω → γ → Prop)
    (h : List (Nat × δ)) (c : Crew ω γ) : Prop where
  common : Common h c.shared
  own : ∀ i w, c.workers[i]? = some w → Own i (ofWorker i h) w c.shared

namespace Discipline

variable {step : ω → γ → Except Error (ω × γ)} {deeds : ω → γ → List δ}
variable {Common : List (Nat × δ) → γ → Prop} {Own : Nat → List δ → ω → γ → Prop}
variable {Grows : γ → γ → Prop}

/-- **Every interleaving** succeeds and keeps what is common and what is the workers' own. -/
theorem run (d : Discipline step deeds Common Own Grows) (schedule : List Nat)
    {h : List (Nat × δ)} {c : Crew ω γ} (hc : Holds Common Own h c) :
    ∃ c', c.run step schedule = .ok c' ∧ Holds Common Own (h ++ history step deeds schedule c) c' ∧
      c'.workers.length = c.workers.length := by
  induction schedule generalizing h c with
  | nil => exact ⟨c, rfl, by rwa [history, List.append_nil], rfl⟩
  | cons i schedule ih =>
    cases hi : c.workers[i]? with
    | none =>
      obtain ⟨c', hrun, hholds, hlength⟩ := ih hc
      refine ⟨c', ?_, ?_, hlength⟩
      · rw [run_cons, turn_of_none hi]
        exact hrun
      · rw [history, hi]
        exact hholds
    | some w =>
      obtain ⟨w', g', hstep, hcommon, hown, hgrows⟩ := d.keeps hc.common (hc.own i w hi)
      have hturn : turn step c i = .ok ⟨c.workers.set i w', g'⟩ := turn_of_some hi hstep
      -- the worker whose turn it is keeps its own by its step, all others by stability
      have hnext : Holds Common Own (h ++ (deeds w c.shared).map (i, ·))
          ⟨c.workers.set i w', g'⟩ := by
        refine ⟨hcommon, fun j v hj => ?_⟩
        rw [ofWorker_append]
        by_cases hij : i = j
        · subst hij
          rw [List.getElem?_set_self (List.getElem?_eq_some_iff.mp hi).1] at hj
          cases hj
          rw [ofWorker_own]
          exact hown
        · rw [List.getElem?_set_ne hij] at hj
          rw [ofWorker_other hij, List.append_nil]
          exact d.stable (hc.own j v hj) hgrows
      obtain ⟨c', hrun, hholds, hlength⟩ := ih hnext
      refine ⟨c', ?_, ?_, ?_⟩
      · rw [run_cons, hturn]
        exact hrun
      · rw [history, hi, hturn]
        dsimp only
        rw [← List.append_assoc]
        exact hholds
      · rw [hlength, List.length_set]

end Discipline

/-! ## The end of a run -/

section Cost

variable {step : ω → γ → Except Error (ω × γ)} {cost : ω → Nat}

/-- Every turn lowers the bound of the worker whose turn it is. -/
theorem cost_le_of_run (hcost : ∀ {w g w' g'}, step w g = .ok (w', g') → cost w' ≤ cost w - 1)
    {schedule : List Nat} {c c' : Crew ω γ} (hrun : c.run step schedule = .ok c') {i : Nat}
    {w' : ω} (hi : c'.workers[i]? = some w') :
    ∃ w, c.workers[i]? = some w ∧ cost w' ≤ cost w - schedule.count i := by
  induction schedule generalizing c with
  | nil =>
    cases hrun
    exact ⟨w', hi, Nat.le_refl _⟩
  | cons j schedule ih =>
    rw [run_cons] at hrun
    cases hj : c.workers[j]? with
    | none =>
      rw [turn_of_none hj] at hrun
      obtain ⟨w, hw, hle⟩ := ih hrun
      have hne : j ≠ i := by
        intro heq
        rw [heq, hw] at hj
        cases hj
      rw [List.count_cons_of_ne hne]
      exact ⟨w, hw, hle⟩
    | some v =>
      cases hstep : step v c.shared with
      | error e =>
        rw [turn, hj] at hrun
        dsimp only at hrun
        rw [hstep] at hrun
        cases hrun
      | ok next =>
        rw [turn_of_some hj hstep] at hrun
        obtain ⟨w, hw, hle⟩ := ih hrun
        by_cases hji : j = i
        · subst hji
          rw [List.getElem?_set_self (List.getElem?_eq_some_iff.mp hj).1] at hw
          cases hw
          -- its own turn counts one, and has lowered the bound by one
          have hlower := hcost hstep
          refine ⟨v, hj, ?_⟩
          rw [List.count_cons_self]
          omega
        · rw [List.getElem?_set_ne hji] at hw
          rw [List.count_cons_of_ne hji]
          exact ⟨w, hw, hle⟩

/-- A worker gets as many of the remaining turns as it has to take. -/
theorem count_remaining {ws : List ω} {i : Nat} {w : ω} (hi : ws[i]? = some w) (k : Nat) :
    ((ws.zipIdx k).flatMap fun w => List.replicate (cost w.1) w.2).count (k + i) = cost w := by
  -- workers with higher numbers have none of these turns
  have hnone : ∀ (vs : List ω) (m : Nat), k + i < m →
      ((vs.zipIdx m).flatMap fun w => List.replicate (cost w.1) w.2).count (k + i) = 0 := by
    intro vs
    induction vs with
    | nil => exact fun _ _ => rfl
    | cons v vs ih =>
      intro m hm
      rw [List.zipIdx_cons, List.flatMap_cons, List.count_append, List.count_replicate,
        ih (m + 1) (by omega), if_neg (by simp only [beq_iff_eq]; omega)]
  induction ws generalizing i k with
  | nil => cases hi
  | cons v vs ih =>
    rw [List.zipIdx_cons, List.flatMap_cons, List.count_append, List.count_replicate]
    cases i with
    | zero =>
      cases hi
      rw [if_pos (by simp only [Nat.add_zero, beq_self_eq_true]), hnone vs (k + 1) (by omega)]
      rfl
    | succ i =>
      rw [if_neg (by simp only [beq_iff_eq]; omega), Nat.zero_add]
      have hshift : k + (i + 1) = k + 1 + i := by omega
      rw [hshift]
      refine ih hi (k + 1) fun vs m hm => ?_
      rw [← hshift]
      exact hnone vs m (by omega)

/-- **An interleaving ends.**  It is the run of a longer schedule, after which no worker has a step
    left to take. -/
theorem exists_interleave (hcost : ∀ {w g w' g'}, step w g = .ok (w', g') → cost w' ≤ cost w - 1)
    {c : Crew ω γ} (hsucceeds : ∀ schedule, ∃ c', c.run step schedule = .ok c')
    (schedule : List Nat) :
    ∃ rest c', c.interleave step cost schedule = .ok c' ∧
      c.run step (schedule ++ rest) = .ok c' ∧ ∀ w ∈ c'.workers, cost w = 0 := by
  obtain ⟨mid, hmid⟩ := hsucceeds schedule
  obtain ⟨c', hrun⟩ := hsucceeds (schedule ++ mid.remaining cost)
  have hrest : mid.run step (mid.remaining cost) = .ok c' := by
    rw [run_append, hmid] at hrun
    exact hrun
  refine ⟨mid.remaining cost, c', ?_, hrun, fun w' hw' => ?_⟩
  · rw [interleave, hmid]
    exact hrest
  · obtain ⟨i, hi⟩ := List.mem_iff_getElem?.mp hw'
    obtain ⟨w, hw, hle⟩ := cost_le_of_run hcost hrest hi
    have hcount : (mid.remaining cost).count i = cost w := by
      have hturns : (mid.remaining cost).count (0 + i) = cost w := count_remaining hw 0
      rw [Nat.zero_add] at hturns
      exact hturns
    omega

end Cost

end Cohort.Crew
