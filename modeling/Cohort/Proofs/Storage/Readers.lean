import Cohort.Proofs.Storage.Contributions
/-
  What a READER of a shared minimum or maximum sees while other calls are under way.

  1. **Offers.**  A call offers its word as soon as it has had a turn, if it brings anything
     (`Race.offered`).

  2. **One turn** leaves alone an extremum that is set, or replaces it by a better one
     (`Tally.Advances`).  An extremum that has just been set or replaced is the word of the call
     whose turn it was.

  3. **A reader** takes three turns, for flag, value and count, and other calls may go on between
     them.  Once it has seen the flag, the bucket holds an offered word until the end
     (`Race.Genuine`), so the value it reads afterwards is one, be it the one the flag was raised
     for or a better one.
-/

namespace Cohort

open Bucket

/-! ## How an extremum advances -/

/-- Between two moments an extremum that is set stays set, and if its value is another one
    afterwards, it is a better one. -/
def Tally.Advances (f : AggregateFunction) (t t' : Tally) : Prop :=
  t.isSet = true → t'.isSet = true ∧ (t'.value = t.value ∨ f.improves t'.value t.value = true)

/-- What is better than something better is better. -/
theorem AggregateFunction.improves_of_improves {f : AggregateFunction} (hk : f.IsExtremum)
    {a b c : UInt64} (hab : f.improves a b = true) (hbc : f.improves b c = true) :
    f.improves a c = true := by
  rcases hk with hk | hk
  · simp only [improves_min hk, decide_eq_true_eq] at hab hbc ⊢
    exact Int.lt_trans hab hbc
  · simp only [improves_max hk, decide_eq_true_eq] at hab hbc ⊢
    exact Int.lt_trans hbc hab

theorem Tally.Advances.refl (f : AggregateFunction) (t : Tally) : t.Advances f t :=
  fun hset => ⟨hset, .inl rfl⟩

theorem Tally.Advances.trans {f : AggregateFunction} (hk : f.IsExtremum) {t t' t'' : Tally}
    (h : t.Advances f t') (h' : t'.Advances f t'') : t.Advances f t'' := by
  intro hset
  obtain ⟨hset', hvalue⟩ := h hset
  obtain ⟨hset'', hvalue'⟩ := h' hset'
  refine ⟨hset'', ?_⟩
  rcases hvalue with hsame | hbetter
  · rwa [hsame] at hvalue'
  · rcases hvalue' with hsame' | hbetter'
    · rw [hsame']
      exact .inr hbetter
    · exact .inr (f.improves_of_improves hk hbetter' hbetter)

section Turn

variable [FloatAddition] {f : AggregateFunction}

/-- **A turn advances the extremum.**  If it is set afterwards, it has been so before and is still
    the same, or it is the word of the call. -/
theorem Bucket.Turn.advances (hk : f.IsExtremum) {c : Call} {p p' : Point} {b b' : Bucket}
    (hat : c.At f b.tally p) (h : Turn f c p b p' b') :
    b.tally.Advances f b'.tally ∧
      (b'.tally.isSet = true → b.tally.isSet = true ∧ b'.tally.value = b.tally.value ∨
        c.contributes f = true ∧ b'.tally.value = c.word) := by
  cases h with
  | look | enter | leave => exact ⟨.refl f _, fun hset => .inl ⟨hset, rfl⟩⟩
  | store _ hunset =>
    -- the value that is stored does not count yet
    have hnot : b.tally.isSet ≠ true := Bool.eq_false_iff.mp hunset
    exact ⟨fun hset => absurd hset hnot, fun hset => absurd hset hnot⟩
  | settle hlock hbefore =>
    have hc := hat.contributes hbefore
    rw [contribute_zero_of_extremum hk, AggregateFunction.best]
    cases hset : b.tally.isSet with
    | false =>
      exact ⟨fun h => absurd (hset.symm.trans h) Bool.false_ne_true, fun _ => .inr ⟨hc, rfl⟩⟩
    | true =>
      rw [if_pos rfl]
      split
      case isTrue hbetter => exact ⟨fun _ => ⟨rfl, .inr hbetter⟩, fun _ => .inr ⟨hc, rfl⟩⟩
      case isFalse => exact ⟨fun _ => ⟨rfl, .inl rfl⟩, fun _ => .inl ⟨rfl, rfl⟩⟩
  | count => exact ⟨fun hset => ⟨hset, .inl rfl⟩, fun hset => .inl ⟨hset, rfl⟩⟩

end Turn

namespace Race

/-! ## Offers -/

/-- The words of the calls that have had a turn and bring anything. -/
def offered (f : AggregateFunction) (calls : List Call) (schedule : List (Nat × Bool)) :
    List UInt64 :=
  words f (schedule.filterMap fun turn => calls[turn.1]?)

theorem offered_concat (f : AggregateFunction) (calls : List Call) (schedule : List (Nat × Bool))
    (turn : Nat × Bool) :
    offered f calls (schedule ++ [turn]) =
      offered f calls schedule ++ words f calls[turn.1]?.toList := by
  have hone : ([turn].filterMap fun turn => calls[turn.1]?) = calls[turn.1]?.toList := by
    rw [List.filterMap_cons, List.filterMap_nil]
    cases calls[turn.1]? <;> rfl
  rw [offered, List.filterMap_append, hone, words, List.filter_append, List.map_append]
  rfl

/-- The word of a call that brings something is offered by it. -/
theorem word_mem_words {f : AggregateFunction} {c : Call} (hc : c.contributes f = true) :
    c.word ∈ words f [c] := by
  rw [words_cons, if_pos hc]
  exact List.mem_append_left _ (List.mem_singleton_self _)

/-! ## Readers under way -/

/-- What a reader at a point has seen: the flag only if it is raised, and a value that has been
    offered if it had seen the flag before. -/
def Sees (ws : List UInt64) (t : Tally) : Point → Prop
  | .readValue isSet => isSet = true → t.isSet = true
  | .readCount isSet value => isSet = true → value ∈ ws
  | .returned (some read) => read.isSet = true → read.value ∈ ws
  | _ => True

/-- What a reader has seen stays true: offers are not taken back, nor is the flag. -/
theorem Sees.mono {ws ws' : List UInt64} {t t' : Tally} {p : Point} (h : Sees ws t p)
    (hws : ws ⊆ ws') (hset : t.isSet = true → t'.isSet = true) : Sees ws' t' p := by
  cases p with
  | readValue isSet => exact fun hseen => hset (h hseen)
  | readCount isSet value => exact fun hseen => hws (h hseen)
  | returned result =>
    cases result with
    | none => trivial
    | some read => exact fun hseen => hws (h hseen)
  | _ => trivial

variable [FloatAddition] {f : AggregateFunction}

/-- **A turn of a reader.** -/
theorem Sees.step {ws : List UInt64} {b : Bucket} {p : Point} (hat : Call.read.At f b.tally p)
    (h : Sees ws b.tally p) (hvalue : b.tally.isSet = true → b.tally.value ∈ ws)
    (spurious : Bool) : Sees ws b.tally (Bucket.step f .read spurious p b).1 := by
  cases hat with
  | readFlag => exact fun hseen => hseen
  | readValue isSet => exact fun hseen => hvalue (h hseen)
  | readCount isSet value => exact h
  | returned result => exact h
  -- a reader brings nothing, so it is nowhere else
  | addValue hc | loadSum hc | swapSum _ hc | checkFlag hc | takeLock hc => cases hc
  | recheckFlag hc | storeValue hc | storeFlag hc | leaveLock _ hc => cases hc
  | loadBest hc | swapBest _ hc | addCount hc => cases hc

/-- What holds of a race for an extremum after the words `ws` have been offered. -/
structure Genuine (f : AggregateFunction) (ws : List UInt64) (r : Race) : Prop where
  holds : ∃ order, Holds f .empty order r.bucket r.calls
  value : r.bucket.tally.isSet = true → r.bucket.tally.value ∈ ws
  reader : ∀ p, (.read, p) ∈ r.calls → Sees ws r.bucket.tally p

/-- Before the first turn the flag is not raised, and no reader has seen anything. -/
theorem Genuine.start (f : AggregateFunction) (calls : List Call) :
    Genuine f [] (Race.start f .empty calls) := by
  refine ⟨Holds.start f .empty calls, nofun, fun p hp => ?_⟩
  obtain ⟨c, -, hc⟩ := List.mem_map.mp hp
  cases hc
  trivial

/-- **A turn** of a call that offers its word. -/
theorem Genuine.step (hk : f.IsExtremum) {ws : List UInt64} {r : Race} (h : Genuine f ws r)
    (turn : Nat × Bool) :
    r.bucket.tally.Advances f (r.step f turn).bucket.tally ∧
      Genuine f (ws ++ words f (r.calls.map Prod.fst)[turn.1]?.toList) (r.step f turn) := by
  obtain ⟨order, hholds⟩ := h.holds
  have hholds' := hholds.step turn
  rw [List.getElem?_map]
  rw [Race.step] at hholds' ⊢
  cases hi : r.calls[turn.1]? with
  | none =>
    refine ⟨.refl f _, ?_⟩
    rw [Option.map_none]
    show Genuine f (ws ++ []) r
    rwa [List.append_nil]
  | some x =>
    obtain ⟨c, p⟩ := x
    rw [hi] at hholds'
    have hat := hholds.at_point _ (List.mem_of_getElem? hi)
    obtain ⟨hadvances, hvalue⟩ := (turn_step hat turn.2).1.advances hk hat
    have hws : ws ⊆ ws ++ words f [c] := List.subset_append_left _ _
    have hset := fun hset => (hadvances hset).1
    refine ⟨hadvances, hholds', fun hset => ?_, fun q hq => ?_⟩
    · rcases hvalue hset with ⟨hset', hsame⟩ | ⟨hc, hword⟩
      · exact hsame ▸ hws (h.value hset')
      · exact hword ▸ List.mem_append_right ws (word_mem_words hc)
    · rcases List.mem_or_eq_of_mem_set hq with hother | hself
      · exact (h.reader q hother).mono hws hset
      · cases hself
        have hseen := h.reader p (List.mem_of_getElem? hi)
        exact (hseen.step hat h.value turn.2).mono hws hset

/-- **Every run** on an empty bucket. -/
theorem Genuine.run (hk : f.IsExtremum) (calls : List Call) (schedule : List (Nat × Bool)) :
    Genuine f (offered f calls schedule) ((Race.start f .empty calls).run f schedule) := by
  induction schedule using List.reverseRecOn with
  | nil => exact .start f calls
  | append_singleton schedule turn ih =>
    have hcalls : ((Race.start f .empty calls).run f schedule).calls.map Prod.fst = calls := by
      rw [map_fst_run, Race.start, List.map_map]
      exact List.map_id calls
    have hnext := (ih.step hk turn).2
    rw [hcalls, ← offered_concat] at hnext
    rw [Race.run, List.foldl_concat]
    exact hnext

/-- The extremum advances from turn to turn, hence from any moment to any later one. -/
theorem Genuine.advances (hk : f.IsExtremum) {ws : List UInt64} {r : Race} (h : Genuine f ws r)
    (later : List (Nat × Bool)) : r.bucket.tally.Advances f (r.run f later).bucket.tally := by
  induction later generalizing ws r with
  | nil => exact .refl f _
  | cons turn later ih =>
    obtain ⟨hadvances, hnext⟩ := h.step hk turn
    exact hadvances.trans hk (ih hnext)

end Race

/-- **A minimum or maximum that is seen to be set is a word that has been offered**, at every moment
    of every interleaving of updates, merges and readers on a bucket that was empty, and whichever
    compare-and-swaps fail for no reason.

    After any turns: if the flag is raised, the value is the word of a call that has had a turn;
    then, whatever turns come next, a single one or many, the flag stays raised and the value stays
    the same or becomes a better one; and a reader that has returned with the flag has returned with
    a word that had been offered. -/
theorem race_extremum_is_offered [FloatAddition] {f : AggregateFunction} (hk : f.IsExtremum)
    (calls : List Call) (schedule next : List (Nat × Bool)) :
    let now := (Race.start f .empty calls).run f schedule
    let later := (Race.start f .empty calls).run f (schedule ++ next)
    (now.bucket.tally.isSet = true →
      now.bucket.tally.value ∈ Race.offered f calls schedule ∧
      later.bucket.tally.isSet = true ∧
      (later.bucket.tally.value = now.bucket.tally.value ∨
        f.improves later.bucket.tally.value now.bucket.tally.value = true)) ∧
    ∀ read, (.read, .returned (some read)) ∈ now.calls → read.isSet = true →
      read.value ∈ Race.offered f calls schedule := by
  intro now later
  have hgenuine : Race.Genuine f (Race.offered f calls schedule) now := .run hk calls schedule
  have hlater : later = now.run f next := List.foldl_append
  have hadvances : now.bucket.tally.Advances f later.bucket.tally := by
    rw [hlater]
    exact hgenuine.advances hk next
  exact ⟨fun hset => ⟨hgenuine.value hset, hadvances hset⟩,
    fun read hread => hgenuine.reader _ hread⟩

/-- One reader loads the flag when the first value is stored and the flag not raised yet.  Another
    loads it afterwards, and a better word comes in before it has loaded the value. -/
theorem race_extremum_is_offered_sample :
    let f : AggregateFunction := ⟨.max, .int64⟩
    let calls : List Call := [.update 5, .read, .update 9, .read]
    let schedule := [0, 0, 0, 0, 1, 0, 3, 0, 2, 2, 1, 1].map fun i => (i, false)
    let next := [2, 3, 3].map fun i => (i, false)
    let now := (Race.start f .empty calls).run f schedule
    let later := (Race.start f .empty calls).run f (schedule ++ next)
    f.IsExtremum ∧ now.bucket.tally = ⟨5, 0, true⟩ ∧ 5 ∈ Race.offered f calls schedule ∧
      later.bucket.tally = ⟨9, 0, true⟩ ∧ f.improves 9 5 = true ∧
      (.read, .returned (some ⟨5, 0, false⟩)) ∈ now.calls ∧
      (.read, .returned (some ⟨9, 0, true⟩)) ∈ later.calls ∧
      9 ∈ Race.offered f calls (schedule ++ next) := by
  intro f calls schedule next
  have hk : f.IsExtremum := .inr rfl
  have hnow : ((Race.start f .empty calls).run f schedule).bucket.tally = ⟨5, 0, true⟩ := by decide
  have hlater : ((Race.start f .empty calls).run f (schedule ++ next)).bucket.tally =
      ⟨9, 0, true⟩ := by decide
  have hread : (.read, .returned (some ⟨9, 0, true⟩)) ∈
      ((Race.start f .empty calls).run f (schedule ++ next)).calls := by decide
  obtain ⟨hmoment, -⟩ := race_extremum_is_offered hk calls schedule next
  obtain ⟨-, hreads⟩ := race_extremum_is_offered hk calls (schedule ++ next) []
  rw [hnow, hlater] at hmoment
  obtain ⟨hvalue, -, hchange⟩ := hmoment rfl
  exact ⟨hk, hnow, hvalue, hlater, hchange.resolve_left (by decide), by decide, hread,
    hreads _ hread rfl⟩

end Cohort
