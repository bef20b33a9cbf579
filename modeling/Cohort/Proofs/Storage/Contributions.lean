import Mathlib.Data.List.Forall2
import Cohort.Proofs.Aggregate.Values
import Cohort.Proofs.Storage.Progress
/-
  NOTHING IS LOST on a shared bucket: whatever the calls on it and however their steps fall between
  one another, when all have returned, every one of them has contributed once.

  1. **In some order.**  The bucket holds what the plain operations give one after the other
     (`Race.exists_order`).  Everything else is said of that.

  2. **Calls and start.**  The count is the one at the start plus the weights; a sum is the one at the
     start plus the words; an extremum is the best of that at the start and the words (`Complete`).
     Where the order does not matter, it is not mentioned.

  3. **Inputs.**  A tally that is merged stands for inputs of its own, and so does the tally at the
     start.  The bucket has gathered all of them (`Call.Brings`).
-/

namespace Cohort

open Bucket

/-- The words that calls bring. -/
def Bucket.words (f : AggregateFunction) (calls : List Call) : List UInt64 :=
  (calls.filter (Call.contributes f)).map Call.word

/-- The inputs that a call stands for. -/
inductive Bucket.Call.Brings [FloatAddition] (f : AggregateFunction) : Call → List UInt64 → Prop
  | update (x : UInt64) : Brings f (.update x) [x]
  | merge {ys : List UInt64} {other : Tally} : f.Reached ys other → Brings f (.merge other) ys
  | read : Brings f .read []

/-- What a bucket holds that had the tally `t` before, and on which `calls` have returned; `inputs`
    are those of the tally and of the calls. -/
structure Race.Complete [FloatAddition] (f : AggregateFunction) (t : Tally) (calls : List Call)
    (inputs : List UInt64) (b : Bucket) : Prop where
  /-- It holds what the plain operations give in some order, in which floats are added. -/
  serial : ∃ order : List Call, order.Perm calls ∧
    b = ofTally (order.foldl (Call.plain f) t) ∧
    (f.AddsFloats → b.tally.value = (words f order).foldl FloatAddition.add t.value)
  /-- All weights are counted. -/
  count : b.tally.count.toNat = t.count.toNat + (calls.map fun c => c.weight.toNat).sum
  /-- All integers are added, modulo 2^64. -/
  integers : f.IsSum → f.numeric = .int64 →
    b.tally.value = (words f calls).foldl (· + ·) t.value
  /-- An extremum is the best of all words, that at the start included if it was set. -/
  extremum : f.IsExtremum →
    f.HoldsBest ((if t.isSet then [t.value] else []) ++ words f calls) b.tally
  /-- All inputs are counted, and unless floats are added, the bucket holds their fold. -/
  gathered : b.tally.count.toNat = inputs.length ∧ (f.IsOrderFree → b.tally = f.foldInputs inputs)

namespace Race

variable [FloatAddition] {f : AggregateFunction}

/-! ## Plain operations in a row -/

omit [FloatAddition] in
theorem words_cons (f : AggregateFunction) (c : Call) (calls : List Call) :
    words f (c :: calls) = (if c.contributes f then [c.word] else []) ++ words f calls := by
  rw [words, List.filter_cons]
  split <;> rfl

/-- A sum is the sum of the words, in their order. -/
theorem value_foldl_plain_of_sum (hk : f.IsSum) (order : List Call) (t : Tally) :
    (order.foldl (Call.plain f) t).value = (words f order).foldl f.numeric.add t.value := by
  induction order generalizing t with
  | nil => rfl
  | cons c order ih =>
    rw [List.foldl_cons, ih, words_cons]
    cases hc : c.contributes f with
    | false => rw [Call.plain_of_not_contributes hc]; rfl
    | true =>
      rw [Call.plain_of_contributes hc, AggregateFunction.contribute_of_sum hk]
      rfl

/-- An extremum is the best of what it was the best of and the words. -/
theorem holdsBest_foldl_plain (hk : f.IsExtremum) (order : List Call) {ws : List UInt64} {t : Tally}
    (h : f.HoldsBest ws t) : f.HoldsBest (ws ++ words f order) (order.foldl (Call.plain f) t) := by
  induction order generalizing ws t with
  | nil => rwa [words, List.filter_nil, List.map_nil, List.append_nil]
  | cons c order ih =>
    rw [List.foldl_cons, words_cons, ← List.append_assoc]
    refine ih ?_
    cases hc : c.contributes f with
    | false =>
      rw [Call.plain_of_not_contributes hc, if_neg nofun, List.append_nil]
      exact h
    | true =>
      rw [Call.plain_of_contributes hc, if_pos rfl]
      exact h.contribute hk _ _

omit [FloatAddition] in
/-- A tally holds the best of its value, if it is set. -/
theorem holdsBest_self (hk : f.IsExtremum) (t : Tally) :
    f.HoldsBest (if t.isSet then [t.value] else []) t := by
  cases hset : t.isSet with
  | false => exact ⟨hset, fun hne => absurd rfl hne⟩
  | true =>
    refine ⟨hset, fun _ => ⟨List.mem_singleton_self _, fun w hw => ?_⟩⟩
    rw [List.mem_singleton.mp hw]
    exact f.improves_self hk _

/-- Plain operations gather what the calls stand for. -/
theorem reached_foldl_plain {order : List Call} {parts : List (List UInt64)}
    (hparts : List.Forall₂ (Call.Brings f) order parts) {xs : List UInt64} {t : Tally}
    (ht : f.Reached xs t) : f.Reached (xs ++ parts.flatten) (order.foldl (Call.plain f) t) := by
  induction hparts generalizing xs t with
  | nil => rwa [List.flatten_nil, List.append_nil]
  | @cons c part order parts hc _ ih =>
    rw [List.flatten_cons, ← List.append_assoc]
    refine ih ?_
    cases hc with
    | update x => exact .update x ht
    | merge hother => exact .merge ht hother
    | read => rwa [List.append_nil]

/-! ## Counts -/

/-- The weights of calls count their inputs. -/
theorem sum_weights {calls : List Call} {parts : List (List UInt64)}
    (hparts : List.Forall₂ (Call.Brings f) calls parts) (hlen : parts.flatten.length < UInt64.size) :
    (calls.map fun c => c.weight.toNat).sum = parts.flatten.length := by
  induction hparts with
  | nil => rfl
  | @cons c part calls parts hc _ ih =>
    rw [List.flatten_cons, List.length_append] at hlen ⊢
    have hweight : c.weight.toNat = part.length := by
      cases hc with
      | update x => rfl
      | merge hother => exact hother.toNat_count (by omega)
      | read => rfl
    rw [List.map_cons, List.sum_cons, hweight, ih (by omega)]

end Race

/-- **No contribution to a shared bucket is lost**, under no interleaving.

    Let a bucket hold a tally that came about by updates and merges, let there be any calls on it,
    the tallies to be merged having come about in the same way, and let their inputs all together be
    fewer than 2^64.  With every schedule, and whichever compare-and-swaps fail for no reason, the
    calls can all return; and whenever they have, the bucket holds what the plain operations give in
    some order, every call has contributed its word and its weight, and all inputs are accounted
    for. -/
theorem race_loses_nothing [FloatAddition] {f : AggregateFunction} {xs : List UInt64} {t : Tally}
    {calls : List Call} {parts : List (List UInt64)} (ht : f.Reached xs t)
    (hparts : List.Forall₂ (Call.Brings f) calls parts)
    (hlen : (xs ++ parts.flatten).length < UInt64.size) (schedule : List (Nat × Bool)) :
    (∃ rest, ((Race.start f (ofTally t) calls).run f (schedule ++ rest)).isOver = true) ∧
    (((Race.start f (ofTally t) calls).run f schedule).isOver = true →
      Race.Complete f t calls (xs ++ parts.flatten)
        ((Race.start f (ofTally t) calls).run f schedule).bucket) := by
  refine ⟨Race.exists_isOver f t calls schedule, fun hover => ?_⟩
  obtain ⟨order, hperm, hbucket⟩ := Race.exists_order hover
  generalize ((Race.start f (ofTally t) calls).run f schedule).bucket = b at hbucket ⊢
  have htally : b.tally = order.foldl (Call.plain f) t := by rw [hbucket]; rfl
  have hwords : (words f order).Perm (words f calls) := (hperm.filter _).map _
  -- the parts in the order in which the calls took effect
  obtain ⟨parts', hparts', hpartsPerm⟩ := List.perm_comp_forall₂ hperm hparts
  have hinputs : (xs ++ parts'.flatten).Perm (xs ++ parts.flatten) :=
    hpartsPerm.flatten.append_left xs
  have hreached : f.Reached (xs ++ parts'.flatten) b.tally := by
    rw [htally]
    exact Race.reached_foldl_plain hparts' ht
  have hcount : b.tally.count.toNat = (xs ++ parts.flatten).length := by
    rw [← hinputs.length_eq]
    exact hreached.toNat_count (hinputs.length_eq ▸ hlen)
  rw [List.length_append] at hlen
  refine ⟨⟨order, hperm, hbucket, fun hf => ?_⟩, ?_, fun hk hn => ?_, fun hk => ?_, hcount,
    fun hf => ?_⟩
  · rw [htally, Race.value_foldl_plain_of_sum hf.1, hf.2]
    rfl
  · rw [hcount, ht.toNat_count (by omega), Race.sum_weights hparts (by omega),
      List.length_append]
  · rw [htally, Race.value_foldl_plain_of_sum hk, hn]
    exact hwords.foldl_eq' (fun x _ y _ z => AggregateFunction.word_add_right_comm z x y) t.value
  · rw [htally]
    exact (Race.holdsBest_foldl_plain hk order (Race.holdsBest_self hk t)).perm
      (hwords.append_left _)
  · rw [hreached.eq_foldInputs hf fun _ => by rw [hinputs.length_eq, List.length_append]; exact hlen]
    exact AggregateFunction.foldInputs_perm hf hinputs

/-- Two updates that both find no maximum yet, the better one coming second and failing once for no
    reason, while a tally of two inputs is merged, one of none, and somebody reads. -/
theorem race_loses_nothing_sample :
    let f : AggregateFunction := ⟨.max, .int64⟩
    let calls : List Call :=
      [.update 5, .update 9, .merge (f.foldInputs [7, 2]), .merge .empty, .read]
    let schedule : List (Nat × Bool) :=
      ([0, 1, 2, 0, 1, 0, 0, 0, 0, 0, 1, 1, 1, 1].map fun i => (i, false)) ++ (1, true) ::
        ([2, 2, 2, 2, 1, 1, 2, 2, 4, 4, 4].map fun i => (i, false))
    let race := (Race.start f (ofTally .empty) calls).run f schedule
    f.Reached [] .empty ∧ List.Forall₂ (Call.Brings f) calls [[5], [9], [7, 2], [], []] ∧
      race.isOver = true ∧ Race.Complete f .empty calls [5, 9, 7, 2] race.bucket := by
  intro f calls schedule race
  have hparts : List.Forall₂ (Call.Brings f) calls [[5], [9], [7, 2], [], []] :=
    .cons (.update 5) <| .cons (.update 9) <| .cons (.merge (f.reached_foldInputs [7, 2])) <|
      .cons (.merge .empty) <| .cons .read .nil
  have hover : race.isOver = true := by decide
  exact ⟨.empty, hparts, hover, (race_loses_nothing .empty hparts (by decide) schedule).2 hover⟩

end Cohort
