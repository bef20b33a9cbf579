import Cohort.Proofs.Storage.Serial
/-
  Calls on a shared bucket come to an END: no schedule leads to where they cannot all return.

  1. **Alone.**  A call that takes one step after the other, undisturbed, returns, as long as nobody
     else holds the lock (`Call.At.returns`).  A compare-and-swap that fails has reported the value
     with which it succeeds the next time.

  2. **Together.**  Whoever holds the lock can go on, and if nobody holds it, anybody can.  So the
     calls can be let finish one after the other (`Race.exists_isOver`).
-/

namespace Cohort

namespace Bucket

variable [FloatAddition] {f : AggregateFunction} {c : Call} {b : Bucket}

/-- Whether a call returns if it goes on alone from here. -/
def Returns (f : AggregateFunction) (c : Call) (s : Point × Bucket) : Prop :=
  ∃ n, Race.hasReturned (steps f c n s).1 = true

/-- A call returns if it does after its next step. -/
theorem Returns.of_step {s : Point × Bucket} (h : Returns f c (step f c false s.1 s.2)) :
    Returns f c s := by
  obtain ⟨n, hn⟩ := h
  exact ⟨n + 1, hn⟩

theorem returns_addCount (b : Bucket) : Returns f c (.addCount, b) := ⟨1, rfl⟩

/-- A compare-and-swap that has seen the value there is succeeds. -/
theorem returns_swapSum (b : Bucket) : Returns f c (.swapSum b.tally.value, b) := by
  refine .of_step ?_
  rw [step, if_pos ⟨rfl, rfl⟩]
  exact returns_addCount _

theorem returns_swapBest (b : Bucket) : Returns f c (.swapBest b.tally.value, b) := by
  refine .of_step ?_
  rw [step, if_pos ⟨rfl, rfl⟩]
  exact returns_addCount _

/-- An extremum that was looked at just now is kept, or replaced at once. -/
theorem returns_compare (b : Bucket) : Returns f c (c.compare f b.tally.value, b) := by
  rw [Call.compare]
  split
  · exact returns_swapBest b
  · exact returns_addCount b

theorem returns_loadBest (b : Bucket) : Returns f c (.loadBest, b) := .of_step (returns_compare b)

theorem returns_leaveLock (stored : Bool) (b : Bucket) : Returns f c (.leaveLock stored, b) := by
  refine .of_step ?_
  cases stored with
  | true => exact returns_addCount _
  | false => exact returns_loadBest _

theorem returns_recheckFlag (b : Bucket) : Returns f c (.recheckFlag, b) := by
  refine .of_step ?_
  rw [step]
  split
  · exact returns_leaveLock false b
  · exact .of_step (.of_step (returns_leaveLock true _))

/-- A call that finds the lock free gets it, and gives it back. -/
theorem returns_takeLock (hfree : b.locked = false) : Returns f c (.takeLock, b) := by
  refine .of_step ?_
  rw [step, hfree]
  exact returns_recheckFlag _

/-- **A call returns if it goes on alone**, unless another one has the lock. -/
theorem returns_of_unhindered (p : Point) (hfree : p.holdsLock = true ∨ b.locked = false) :
    Returns f c (p, b) := by
  cases p with
  | addValue => exact .of_step (returns_addCount _)
  | loadSum => exact .of_step (returns_swapSum b)
  | swapSum seen =>
    refine .of_step ?_
    rw [step]
    split
    · exact returns_addCount _
    · exact returns_swapSum b
  | checkFlag =>
    refine .of_step ?_
    rw [step]
    split
    · exact returns_loadBest b
    · exact returns_takeLock (hfree.resolve_left Bool.false_ne_true)
  | takeLock => exact returns_takeLock (hfree.resolve_left Bool.false_ne_true)
  | recheckFlag => exact returns_recheckFlag b
  | storeValue => exact .of_step (.of_step (returns_leaveLock true _))
  | storeFlag => exact .of_step (returns_leaveLock true _)
  | leaveLock stored => exact returns_leaveLock stored b
  | loadBest => exact returns_loadBest b
  | swapBest seen =>
    refine .of_step ?_
    rw [step]
    split
    · exact returns_addCount _
    · exact returns_compare b
  | addCount => exact returns_addCount b
  | readFlag => exact ⟨3, rfl⟩
  | readValue isSet => exact ⟨2, rfl⟩
  | readCount isSet value => exact ⟨1, rfl⟩
  | returned result => exact ⟨0, rfl⟩

end Bucket

namespace Race

open Bucket

variable [FloatAddition] {f : AggregateFunction} {t : Tally} {order : List Call} {r : Race}

/-- A number of turns of one call. -/
theorem run_replicate {i : Nat} {c : Call} {p : Point} (hi : r.calls[i]? = some (c, p)) (n : Nat) :
    r.run f (List.replicate n (i, false)) =
      ⟨(steps f c n (p, r.bucket)).2, r.calls.set i (c, (steps f c n (p, r.bucket)).1)⟩ := by
  induction n generalizing r p with
  | zero =>
    obtain ⟨hlt, hget⟩ := List.getElem?_eq_some_iff.mp hi
    show r = ⟨r.bucket, r.calls.set i (c, p)⟩
    rw [← hget, List.set_getElem_self]
  | succ n ih =>
    have hstep : r.step f (i, false) = ⟨(Bucket.step f c false p r.bucket).2,
        r.calls.set i (c, (Bucket.step f c false p r.bucket).1)⟩ := by
      rw [Race.step, hi]
    have hi' : (r.calls.set i (c, (Bucket.step f c false p r.bucket).1))[i]? =
        some (c, (Bucket.step f c false p r.bucket).1) :=
      List.getElem?_set_self (List.getElem?_eq_some_iff.mp hi).1
    show (r.step f (i, false)).run f (List.replicate n (i, false)) = _
    rw [hstep, ih hi', List.set_set]
    rfl

theorem run_append (s s' : List (Nat × Bool)) (r : Race) :
    r.run f (s ++ s') = (r.run f s).run f s' := List.foldl_append

/-- As long as some call has not returned, there is one that nobody hinders. -/
theorem Holds.exists_unhindered (h : Holds f t order r.bucket r.calls)
    (hsome : 0 < r.calls.countP fun x => !hasReturned x.2) :
    ∃ (i : Nat) (c : Call) (p : Point), r.calls[i]? = some (c, p) ∧ hasReturned p = false ∧
      (p.holdsLock = true ∨ r.bucket.locked = false) := by
  cases hlocked : r.bucket.locked with
  | true =>
    have hlock : 0 < r.calls.countP fun x => x.2.holdsLock := by
      rw [h.lock, hlocked]
      exact Nat.one_pos
    obtain ⟨x, hx, hholds⟩ := List.countP_pos_iff.mp hlock
    obtain ⟨i, hi⟩ := List.mem_iff_getElem?.mp hx
    refine ⟨i, x.1, x.2, hi, ?_, Or.inl hholds⟩
    cases hreturned : hasReturned x.2 with
    | false => rfl
    | true =>
      obtain ⟨result, hp⟩ := eq_returned hreturned
      rw [hp] at hholds
      cases hholds
  | false =>
    obtain ⟨x, hx, hnot⟩ := List.countP_pos_iff.mp hsome
    obtain ⟨i, hi⟩ := List.mem_iff_getElem?.mp hx
    exact ⟨i, x.1, x.2, hi, by simpa using hnot, Or.inr rfl⟩

/-- **Calls can be brought to an end** from wherever they are. -/
theorem Holds.exists_isOver (h : Holds f t order r.bucket r.calls) :
    ∃ rest, (r.run f rest).isOver = true := by
  induction hn : r.calls.countP (fun x => !hasReturned x.2) generalizing r order with
  | zero =>
    refine ⟨[], List.all_eq_true.mpr fun x hx => ?_⟩
    simpa using List.countP_eq_zero.mp hn x hx
  | succ n ih =>
    obtain ⟨i, c, p, hi, hp, hfree⟩ := h.exists_unhindered (by omega)
    -- one of the calls goes on alone until it returns, and then there are fewer
    obtain ⟨k, hk⟩ := returns_of_unhindered (f := f) (c := c) p hfree
    obtain ⟨order', h'⟩ := h.run (List.replicate k (i, false))
    have hrun := run_replicate (f := f) hi k
    obtain ⟨hlt, hget⟩ := List.getElem?_eq_some_iff.mp hi
    have hfewer : (r.run f (List.replicate k (i, false))).calls.countP
        (fun x => !hasReturned x.2) = n := by
      have hbefore := (List.getElem_cons_eraseIdx_perm hlt).countP_eq fun x => !hasReturned x.2
      rw [hrun]
      show (r.calls.set i _).countP _ = n
      rw [(List.set_perm_cons_eraseIdx hlt _).countP_eq, List.countP_cons, hk]
      rw [List.countP_cons, hget, hp] at hbefore
      simp only [Bool.not_false, if_true, Bool.not_true, Bool.false_eq_true, if_false] at hbefore ⊢
      omega
    obtain ⟨rest, hrest⟩ := ih h' hfewer
    refine ⟨List.replicate k (i, false) ++ rest, ?_⟩
    rwa [run_append]

/-- **No schedule is a dead end**: with every one, the calls can all return. -/
theorem exists_isOver (f : AggregateFunction) (t : Tally) (calls : List Call)
    (schedule : List (Nat × Bool)) :
    ∃ rest, ((start f (ofTally t) calls).run f (schedule ++ rest)).isOver = true := by
  obtain ⟨order, hstart⟩ := Holds.start f t calls
  obtain ⟨order', h⟩ := hstart.run schedule
  obtain ⟨rest, hrest⟩ := h.exists_isOver
  exact ⟨rest, by rwa [run_append]⟩

end Race
end Cohort
