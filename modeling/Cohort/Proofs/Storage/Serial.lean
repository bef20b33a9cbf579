import Mathlib.Algebra.GroupWithZero.Nat
import Mathlib.Data.List.Perm.Basic
import Cohort.Proofs.Storage.Turns
/-
  Races are SERIALIZABLE: a bucket on which any number of calls have returned holds what the plain
  operations give in some order.

  1. **The order** is that in which the calls took effect.  While calls are under way it is a list
     of those that have taken effect, and the bucket holds what they give in that order, except that
     weights are missing which are still to be paid, and that a first value may be there already
     whose flag is not raised (`Holds`).

  2. **Mutual exclusion.**  The number of calls that hold the lock is zero or one, as the lock says.

  3. **Induction.**  Calls are told apart by their place in a list, but nothing depends on the place
     (`Holds.perm`), so the call whose turn it is may stand in front (`Holds.turn`).
-/

namespace Cohort

namespace Race

open Bucket

variable [FloatAddition] {f : AggregateFunction}

/-! ## Contributions to tallies that differ in their counts -/

/-- A contribution raises the flag of an extremum, and nothing else changes a flag. -/
theorem isSet_contribute_of_extremum (hk : f.IsExtremum) (t : Tally) (w k : UInt64) :
    (f.contribute t w k).isSet = true := by
  rw [AggregateFunction.contribute_of_extremum hk]

theorem isSet_contribute_of_not_extremum (hk : ¬f.IsExtremum) (t : Tally) (w k : UInt64) :
    (f.contribute t w k).isSet = t.isSet := by
  rcases f.kind_cases with hk' | hk' | hk'
  · rw [AggregateFunction.contribute_of_count hk']
  · rw [AggregateFunction.contribute_of_sum hk']
  · exact absurd hk' hk

theorem isSet_contribute {s t : Tally} (hset : s.isSet = t.isSet) (w k l : UInt64) :
    (f.contribute s w k).isSet = (f.contribute t w l).isSet := by
  by_cases hk : f.IsExtremum
  · rw [isSet_contribute_of_extremum hk, isSet_contribute_of_extremum hk]
  · rw [isSet_contribute_of_not_extremum hk, isSet_contribute_of_not_extremum hk, hset]

/-- The value after a contribution depends on flag and value only, and on the value only if it is
    not replaced by a first one. -/
theorem value_contribute {s t : Tally} (hset : s.isSet = t.isSet)
    (hvalue : ¬(f.IsExtremum ∧ t.isSet = false) → s.value = t.value) (w k l : UInt64) :
    (f.contribute s w k).value = (f.contribute t w l).value := by
  by_cases hfirst : f.IsExtremum ∧ t.isSet = false
  · rw [AggregateFunction.contribute_of_extremum hfirst.1,
      AggregateFunction.contribute_of_extremum hfirst.1]
    simp only [hset, hfirst.2, Bool.false_eq_true, if_false]
  · have hsame := hvalue hfirst
    rcases f.kind_cases with hk | hk | hk
    · rw [AggregateFunction.contribute_of_count hk, AggregateFunction.contribute_of_count hk]
      exact hsame
    · rw [AggregateFunction.contribute_of_sum hk, AggregateFunction.contribute_of_sum hk]
      dsimp only
      rw [hsame]
    · rw [AggregateFunction.contribute_of_extremum hk, AggregateFunction.contribute_of_extremum hk]
      dsimp only
      rw [hset, hsame]

/-! ## What holds while calls are under way -/

/-- What holds of a bucket that had the tally `t`, the calls on it being at these points, those in
    `order` having taken effect. -/
structure Holds (f : AggregateFunction) (t : Tally) (order : List Call) (b : Bucket)
    (calls : List (Call × Point)) : Prop where
  at_point : ∀ x ∈ calls, x.1.At f b.tally x.2
  lock : calls.countP (fun x => x.2.holdsLock) = b.locked.toNat
  taken : order.Perm (calls.flatMap fun x => x.1.taken x.2)
  count : b.tally.count = t.count + UInt64.ofNat (calls.map fun x => x.1.paid f x.2).sum
  isSet : (order.foldl (Call.plain f) t).isSet = b.tally.isSet
  value : (∀ x ∈ calls, x.2.isStoring = false) → (order.foldl (Call.plain f) t).value = b.tally.value

variable {t : Tally} {order : List Call} {b : Bucket} {calls calls' : List (Call × Point)}

/-- The place of a call does not matter. -/
theorem Holds.perm (h : Holds f t order b calls) (hperm : calls.Perm calls') :
    Holds f t order b calls' := by
  refine ⟨fun x hx => h.at_point x (hperm.mem_iff.mpr hx), ?_, ?_, ?_, h.isSet, fun hstore => ?_⟩
  · rw [← hperm.countP_eq]
    exact h.lock
  · exact h.taken.trans (hperm.flatMap_right _)
  · rw [← (hperm.map _).sum_nat]
    exact h.count
  · exact h.value fun x hx => hstore x (hperm.mem_iff.mp hx)

/-! ## One turn -/

section Turn

variable {c : Call} {p p' : Point} {b' : Bucket} {rest : List (Call × Point)}

/-- If the call whose turn it is holds the lock, no other does. -/
theorem Holds.alone (h : Holds f t order b ((c, p) :: rest)) (hp : p.holdsLock = true) :
    b.locked = true ∧ rest.countP (fun x => x.2.holdsLock) = 0 := by
  have hlock := h.lock
  rw [List.countP_cons, if_pos hp] at hlock
  cases hlocked : b.locked with
  | true =>
    rw [hlocked, Bool.toNat_true] at hlock
    exact ⟨rfl, by omega⟩
  | false =>
    rw [hlocked, Bool.toNat_false] at hlock
    omega

/-- The other calls are where they can go on. -/
theorem Holds.at_rest (h : Holds f t order b ((c, p) :: rest)) (hturn : Turn f c p b p' b') :
    ∀ x ∈ rest, x.1.At f b'.tally x.2 := by
  intro x hx
  have hat := h.at_point x (List.mem_cons_of_mem _ hx)
  -- whoever holds the lock is alone with it
  have hexcluded : p.holdsLock = true → x.2.holdsLock = false := by
    intro hp
    have hnone := List.countP_eq_zero.mp (h.alone hp).2 x hx
    simpa using hnone
  cases hturn with
  | look | enter | leave => exact hat
  | store hk hunset =>
    refine hat.stable (fun hset => hset) fun _ _ hx' => ?_
    rw [hexcluded rfl] at hx'
    cases hx'
  | settle hlock hbefore hafter hpaid hfirst =>
    refine hat.stable (fun hset => ?_) fun hk hunset hx' => ?_
    · by_cases hk : f.IsExtremum
      · exact isSet_contribute_of_extremum hk _ _ _
      · exact (isSet_contribute_of_not_extremum hk _ _ _).trans hset
    · have hp := Point.holdsLock_of_isStoring (hfirst.mpr ⟨hk, hunset⟩)
      rw [hexcluded hp] at hx'
      cases hx'
  | count => exact hat.stable (fun hset => hset) fun _ hunset _ => ⟨hunset, rfl⟩

/-- **A turn** keeps what holds.  If the call has taken effect in it, the call comes last in the
    order. -/
theorem Holds.turn (h : Holds f t order b ((c, p) :: rest)) (hturn : Turn f c p b p' b')
    (hat : c.At f b'.tally p') : ∃ order', Holds f t order' b' ((c, p') :: rest) := by
  have hcontributes := (h.at_point (c, p) List.mem_cons_self).contributes
  have hall : ∀ x ∈ (c, p') :: rest, x.1.At f b'.tally x.2 :=
    List.forall_mem_cons.mpr ⟨hat, h.at_rest hturn⟩
  have hlock := h.lock
  have htaken := h.taken
  have hcount := h.count
  rw [List.countP_cons] at hlock
  rw [List.flatMap_cons] at htaken
  rw [List.map_cons, List.sum_cons] at hcount
  cases hturn with
  | look hlock' htaken' hpaid hstore =>
    refine ⟨order, hall, ?_, ?_, ?_, h.isSet, fun hstores => h.value ?_⟩
    · rw [List.countP_cons, hlock']
      exact hlock
    · rw [List.flatMap_cons, Call.taken, htaken']
      exact htaken
    · rw [List.map_cons, List.sum_cons, hpaid]
      exact hcount
    · exact List.forall_mem_cons.mpr ⟨hstore, (List.forall_mem_cons.mp hstores).2⟩
  | enter hfree =>
    refine ⟨order, hall, ?_, htaken, hcount, h.isSet, fun hstores => h.value ?_⟩
    · rw [hfree, if_neg nofun] at hlock
      rw [List.countP_cons]
      exact congrArg (· + 1) hlock
    · exact List.forall_mem_cons.mpr ⟨rfl, (List.forall_mem_cons.mp hstores).2⟩
  | @leave p' stored b hlock' htaken' hpaid =>
    refine ⟨order, hall, ?_, ?_, ?_, h.isSet, fun hstores => h.value ?_⟩
    · rw [List.countP_cons, if_neg (by rw [hlock']; exact nofun), (h.alone rfl).2]
      rfl
    · rw [List.flatMap_cons, Call.taken, htaken']
      cases stored <;> exact htaken
    · rw [List.map_cons, List.sum_cons, hpaid]
      exact hcount
    · exact List.forall_mem_cons.mpr ⟨rfl, (List.forall_mem_cons.mp hstores).2⟩
  | store hk hunset =>
    refine ⟨order, hall, ?_, htaken, hcount, h.isSet, fun hstores => ?_⟩
    · rw [List.countP_cons]
      exact hlock
    · exact absurd (hstores _ List.mem_cons_self) (Bool.not_eq_false _ ▸ rfl)
  | settle hlock' hbefore hafter hpaid hfirst =>
    have hc := hcontributes hbefore
    refine ⟨order ++ [c], hall, ?_, ?_, ?_, ?_, fun hstores => ?_⟩
    · rw [List.countP_cons, hlock']
      exact hlock
    · rw [List.flatMap_cons, Call.taken, if_pos hafter]
      rw [Call.taken, hbefore] at htaken
      exact (htaken.append_right [c]).trans List.perm_append_comm
    · rw [AggregateFunction.count_contribute, UInt64.add_zero, List.map_cons, List.sum_cons, hpaid,
        hcount, Call.paid_of_not_settled f c hbefore]
    · rw [List.foldl_append]
      show (c.plain f (order.foldl (Call.plain f) t)).isSet = _
      rw [Call.plain_of_contributes hc]
      exact isSet_contribute h.isSet _ _ _
    · rw [List.foldl_append]
      show (c.plain f (order.foldl (Call.plain f) t)).value = _
      rw [Call.plain_of_contributes hc]
      refine value_contribute h.isSet (fun hnot => h.value ?_) _ _ _
      have hp : p.isStoring = false := Bool.eq_false_iff.mpr fun hp => hnot (hfirst.mp hp)
      exact List.forall_mem_cons.mpr ⟨hp, (List.forall_mem_cons.mp hstores).2⟩
  | count hc =>
    refine ⟨order, hall, hlock, htaken, ?_, h.isSet, fun hstores => h.value ?_⟩
    · have hpaid : c.paid f (.returned none) = c.weight.toNat := if_pos hc
      rw [List.map_cons, List.sum_cons, hpaid, UInt64.ofNat_add, UInt64.ofNat_toNat,
        UInt64.add_comm c.weight, ← UInt64.add_assoc, hcount]
      exact congrArg (fun n => t.count + UInt64.ofNat n + c.weight) (Nat.zero_add _)
    · exact List.forall_mem_cons.mpr ⟨rfl, (List.forall_mem_cons.mp hstores).2⟩

end Turn

/-! ## From the start to the end -/

/-- A call that has taken effect before its first step changes neither value nor flag. -/
theorem plain_of_isSettled_start {c : Call} (hc : (c.start f).isSettled = true) (s : Tally) :
    (c.plain f s).value = s.value ∧ (c.plain f s).isSet = s.isSet := by
  have hstarts := c.starts f
  generalize c.start f = p at hstarts hc
  cases hstarts with
  | skip hnone | read hnone =>
    rw [Call.plain_of_not_contributes hnone]
    exact ⟨rfl, rfl⟩
  | count hsome hk =>
    rw [Call.plain_of_contributes hsome, AggregateFunction.contribute_of_count hk]
    exact ⟨rfl, rfl⟩
  | integers | floats | extremum => cases hc

theorem foldl_plain_of_isSettled_start {order : List Call}
    (h : ∀ c ∈ order, (c.start f).isSettled = true) (s : Tally) :
    (order.foldl (Call.plain f) s).value = s.value ∧
      (order.foldl (Call.plain f) s).isSet = s.isSet := by
  induction order generalizing s with
  | nil => exact ⟨rfl, rfl⟩
  | cons c order ih =>
    obtain ⟨hvalue, hset⟩ := ih (fun c' hc' => h c' (List.mem_cons_of_mem c hc')) (c.plain f s)
    obtain ⟨hvalue', hset'⟩ := plain_of_isSettled_start (h c List.mem_cons_self) s
    exact ⟨hvalue.trans hvalue', hset.trans hset'⟩

/-- Every call brings its weight to the count. -/
theorem count_foldl_plain (order : List Call) (s : Tally) :
    (order.foldl (Call.plain f) s).count =
      s.count + UInt64.ofNat (order.map (Call.brought f)).sum := by
  induction order generalizing s with
  | nil => exact (UInt64.add_zero _).symm
  | cons c order ih =>
    rw [List.foldl_cons, ih, Call.count_plain, List.map_cons, List.sum_cons, UInt64.ofNat_add,
      UInt64.add_assoc]

/-- Before the first step. -/
theorem Holds.start (f : AggregateFunction) (t : Tally) (calls : List Call) :
    ∃ order, Holds f t order (Race.start f (ofTally t) calls).bucket
      (Race.start f (ofTally t) calls).calls := by
  have hsettled : ∀ c ∈ (calls.map fun c => (c, c.start f)).flatMap fun x => x.1.taken x.2,
      (c.start f).isSettled = true := by
    intro c hc
    obtain ⟨x, hx, hc⟩ := List.mem_flatMap.mp hc
    obtain ⟨c', -, rfl⟩ := List.mem_map.mp hx
    rw [Call.taken] at hc
    split at hc
    case isTrue hstart =>
      rw [List.mem_singleton.mp hc]
      exact hstart
    case isFalse => cases hc
  obtain ⟨hvalue, hset⟩ := foldl_plain_of_isSettled_start hsettled t
  refine ⟨_, ?_, ?_, .refl _, ?_, hset, fun _ => hvalue⟩
  · intro x hx
    obtain ⟨c, -, rfl⟩ := List.mem_map.mp hx
    exact (c.starts f).at_point t
  · refine List.countP_eq_zero.mpr fun x hx => ?_
    obtain ⟨c, -, rfl⟩ := List.mem_map.mp hx
    simpa using (c.starts f).fresh.1
  · have hnothing : ((calls.map fun c => (c, c.start f)).map fun x => x.1.paid f x.2).sum = 0 := by
      refine List.sum_eq_zero_iff_forall_eq_nat.mpr fun n hn => ?_
      obtain ⟨x, hx, rfl⟩ := List.mem_map.mp hn
      obtain ⟨c, -, rfl⟩ := List.mem_map.mp hx
      exact (c.starts f).fresh.2
    rw [Race.start, hnothing]
    exact (UInt64.add_zero _).symm

theorem Holds.step {r : Race} (h : Holds f t order r.bucket r.calls) (turn : Nat × Bool) :
    ∃ order', Holds f t order' (r.step f turn).bucket (r.step f turn).calls := by
  rw [Race.step]
  cases hi : r.calls[turn.1]? with
  | none => exact ⟨order, h⟩
  | some x =>
    obtain ⟨c, p⟩ := x
    obtain ⟨hlt, hget⟩ := List.getElem?_eq_some_iff.mp hi
    have hfront : r.calls.Perm ((c, p) :: r.calls.eraseIdx turn.1) := by
      rw [← hget]
      exact (List.getElem_cons_eraseIdx_perm hlt).symm
    have h' := h.perm hfront
    obtain ⟨hturn, hat⟩ := turn_step (h'.at_point _ List.mem_cons_self) turn.2
    obtain ⟨order', hnext⟩ := h'.turn hturn hat
    exact ⟨order', hnext.perm (List.set_perm_cons_eraseIdx hlt _).symm⟩

/-- **Every run** keeps what holds. -/
theorem Holds.run {r : Race} (h : Holds f t order r.bucket r.calls)
    (schedule : List (Nat × Bool)) :
    ∃ order', Holds f t order' (r.run f schedule).bucket (r.run f schedule).calls := by
  induction schedule generalizing r order with
  | nil => exact ⟨order, h⟩
  | cons turn schedule ih =>
    obtain ⟨order', h'⟩ := h.step turn
    exact ih h'

/-- A run leaves the calls what they are. -/
theorem map_fst_run (schedule : List (Nat × Bool)) (r : Race) :
    (r.run f schedule).calls.map Prod.fst = r.calls.map Prod.fst := by
  induction schedule generalizing r with
  | nil => rfl
  | cons turn schedule ih =>
    have hstep : (r.step f turn).calls.map Prod.fst = r.calls.map Prod.fst := by
      rw [Race.step]
      cases hi : r.calls[turn.1]? with
      | none => rfl
      | some x =>
        obtain ⟨hlt, hget⟩ := List.getElem?_eq_some_iff.mp hi
        have hlt' : turn.1 < (r.calls.map Prod.fst).length := by rwa [List.length_map]
        have hsame : x.1 = (r.calls.map Prod.fst)[turn.1] := by rw [List.getElem_map, hget]
        rw [List.map_set, hsame]
        exact List.set_getElem_self _
    exact (ih _).trans hstep

omit [FloatAddition] in
theorem eq_returned {p : Point} (h : hasReturned p = true) : ∃ result, p = .returned result := by
  cases p with
  | returned result => exact ⟨result, rfl⟩
  | _ => cases h

/-- When all calls have returned, nothing is missing any more. -/
theorem Holds.over (h : Holds f t order b calls)
    (hover : ∀ x ∈ calls, ∃ result, x.2 = .returned result) :
    order.Perm (calls.map Prod.fst) ∧ b = ofTally (order.foldl (Call.plain f) t) := by
  have hperm : order.Perm (calls.map Prod.fst) := by
    have htaken : calls.flatMap (fun x => x.1.taken x.2) = calls.flatMap fun x => [x.1] := by
      refine List.flatMap_congr fun x hx => ?_
      obtain ⟨result, hp⟩ := hover x hx
      rw [hp]
      rfl
    rw [List.map_eq_flatMap, ← htaken]
    exact h.taken
  refine ⟨hperm, ?_⟩
  have hlocked : b.locked.toNat = 0 := by
    rw [← h.lock]
    refine List.countP_eq_zero.mpr fun x hx => ?_
    obtain ⟨result, hp⟩ := hover x hx
    rw [hp]
    exact nofun
  have hvalue : b.tally.value = (order.foldl (Call.plain f) t).value := by
    refine (h.value fun x hx => ?_).symm
    obtain ⟨result, hp⟩ := hover x hx
    rw [hp]
    rfl
  have hcount : b.tally.count = (order.foldl (Call.plain f) t).count := by
    rw [h.count, count_foldl_plain, (hperm.map (Call.brought f)).sum_nat, List.map_map]
    refine congrArg (fun l => t.count + UInt64.ofNat (List.sum l))
      (List.map_congr_left fun x hx => ?_)
    obtain ⟨result, hp⟩ := hover x hx
    rw [hp]
    rfl
  have hset := h.isSet.symm
  generalize order.foldl (Call.plain f) t = s at hvalue hcount hset
  obtain ⟨⟨value, count, isSet⟩, locked⟩ := b
  cases locked with
  | true => cases hlocked
  | false =>
    cases hvalue
    cases hcount
    cases hset
    rfl

/-- **Calls that have all returned** have the effect of the plain operations in some order. -/
theorem exists_order {t : Tally} {calls : List Call} {schedule : List (Nat × Bool)}
    (hover : ((Race.start f (ofTally t) calls).run f schedule).isOver = true) :
    ∃ order : List Call, order.Perm calls ∧
      ((Race.start f (ofTally t) calls).run f schedule).bucket =
        ofTally (order.foldl (Call.plain f) t) := by
  obtain ⟨start, hstart⟩ := Holds.start f t calls
  obtain ⟨order, h⟩ := hstart.run schedule
  obtain ⟨hperm, hbucket⟩ := h.over fun x hx => eq_returned (List.all_eq_true.mp hover x hx)
  have hcalls : (Race.start f (ofTally t) calls).calls.map Prod.fst = calls := by
    rw [Race.start, List.map_map]
    exact List.map_id calls
  rw [map_fst_run, hcalls] at hperm
  exact ⟨order, hperm, hbucket⟩

end Race
end Cohort
