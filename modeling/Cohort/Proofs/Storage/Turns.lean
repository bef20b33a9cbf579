import Cohort.Proofs.Aggregate.Combination
import Cohort.Storage.Race
/-
  What ONE STEP of a call on a shared bucket does, while other calls are under way.

  1. **Taking effect.**  The steps of a call have one among them at which it takes effect: its word
     is in the bucket from then on, or it has been seen not to be needed.  Its weight comes later, in
     a step of its own.

  2. **What a call relies on** at a point (`Call.At`) is little: that an extremum is set which it has
     seen set, and, if it holds the lock, that nobody but itself brings the first value.

  3. **Steps** are of six sorts (`Turn`), which is all that is said about them later
     (`turn_step`).  What other calls rely on stays true, as long as at most one call holds the lock
     (`Call.At.stable`).
-/

namespace Cohort.Bucket

/-! ## Calls -/

section Calls

variable (f : AggregateFunction)

/-- Whether a call brings something. -/
def Call.contributes : Call → Bool
  | .update _ => true
  | .merge other => !f.ignores other
  | .read => false

/-- What a call does to a tally of the caller's own. -/
def Call.plain [FloatAddition] (t : Tally) : Call → Tally
  | .update input => f.update t input
  | .merge other => f.merge t other
  | .read => t

variable {f}

variable [FloatAddition]

/-- A call that brings something contributes its word and its weight ... -/
theorem Call.plain_of_contributes {c : Call} (hc : c.contributes f = true) (t : Tally) :
    c.plain f t = f.contribute t c.word c.weight := by
  cases c with
  | update input => rfl
  | merge other => exact f.merge_of_not_ignores (by simpa [contributes] using hc) t
  | read => cases hc

/-- ... and any other one changes nothing. -/
theorem Call.plain_of_not_contributes {c : Call} (hc : c.contributes f = false) (t : Tally) :
    c.plain f t = t := by
  cases c with
  | update input => cases hc
  | merge other => exact f.merge_of_ignores (by simpa [contributes] using hc) t
  | read => rfl

end Calls

section Start

variable {f : AggregateFunction}

/-- A count is done in one addition. -/
theorem Call.contributing_of_count (hk : f.kind = .count) :
    Call.start.contributing f = .addCount := by
  simp only [Call.start.contributing, hk]

/-- Integers are added in one step, as words. -/
theorem Call.contributing_of_int64 (hk : f.IsSum) (hn : f.numeric = .int64) :
    Call.start.contributing f = .addValue := by
  rcases hk with hk | hk <;> simp only [Call.start.contributing, hk, hn]

/-- Floats are added to a sum that was looked at before. -/
theorem Call.contributing_of_float64 (hk : f.IsSum) (hn : f.numeric = .float64) :
    Call.start.contributing f = .loadSum := by
  rcases hk with hk | hk <;> simp only [Call.start.contributing, hk, hn]

/-- An extremum is looked for before anything else. -/
theorem Call.contributing_of_extremum (hk : f.IsExtremum) :
    Call.start.contributing f = .checkFlag := by
  rcases hk with hk | hk <;> simp only [Call.start.contributing, hk]

/-- Where a call begins. -/
inductive Call.Starts (f : AggregateFunction) (c : Call) : Point → Prop
  | skip : c.contributes f = false → Starts f c (.returned none)
  | read : c.contributes f = false → Starts f c .readFlag
  | count : c.contributes f = true → f.kind = .count → Starts f c .addCount
  | integers : c.contributes f = true → f.IsSum → f.numeric = .int64 → Starts f c .addValue
  | floats : c.contributes f = true → f.IsSum → f.numeric = .float64 → Starts f c .loadSum
  | extremum : c.contributes f = true → f.IsExtremum → Starts f c .checkFlag

theorem Call.starts_contributing {c : Call} (hc : c.contributes f = true) :
    c.Starts f (start.contributing f) := by
  rcases f.kind_cases with hk | hk | hk
  · rw [contributing_of_count hk]
    exact .count hc hk
  · cases hn : f.numeric with
    | int64 =>
      rw [contributing_of_int64 hk hn]
      exact .integers hc hk hn
    | float64 =>
      rw [contributing_of_float64 hk hn]
      exact .floats hc hk hn
  · rw [contributing_of_extremum hk]
    exact .extremum hc hk

/-- **Every call starts** at one of these points. -/
theorem Call.starts (f : AggregateFunction) (c : Call) : c.Starts f (c.start f) := by
  cases c with
  | update input => exact starts_contributing rfl
  | merge other =>
    cases hskips : f.ignores other with
    | true =>
      rw [start, if_pos hskips]
      exact .skip (by rw [contributes, hskips]; rfl)
    | false =>
      rw [start, hskips]
      exact starts_contributing (by rw [contributes, hskips]; rfl)
  | read => exact .read rfl

end Start

/-! ## Points -/

/-- Whether a call at this point has taken effect.  A reader has none, and so has it from the
    start. -/
def Point.isSettled : Point → Bool
  | .addCount | .leaveLock true | .readFlag | .readValue _ | .readCount _ _ | .returned _ => true
  | _ => false

/-- Whether a call at this point holds the lock. -/
def Point.holdsLock : Point → Bool
  | .recheckFlag | .storeValue | .storeFlag | .leaveLock _ => true
  | _ => false

/-- Whether a call at this point has stored the first value and not raised the flag yet. -/
def Point.isStoring : Point → Bool
  | .storeFlag => true
  | _ => false

/-- The first value is stored under the lock. -/
theorem Point.holdsLock_of_isStoring {p : Point} (hp : p.isStoring = true) :
    p.holdsLock = true := by
  cases p with
  | storeFlag => rfl
  | _ => cases hp

/-- The call, if it has taken effect at this point. -/
def Call.taken (c : Call) (p : Point) : List Call := if p.isSettled then [c] else []

/-- How much a call brings to the count. -/
def Call.brought (f : AggregateFunction) (c : Call) : Nat :=
  if c.contributes f then c.weight.toNat else 0

/-- Every call brings what it counts to the count, as a word. -/
theorem Call.count_plain [FloatAddition] (f : AggregateFunction) (c : Call) (t : Tally) :
    (c.plain f t).count = t.count + UInt64.ofNat (c.brought f) := by
  cases hcontributes : c.contributes f with
  | false =>
    rw [plain_of_not_contributes hcontributes, brought, hcontributes]
    exact (UInt64.add_zero _).symm
  | true =>
    rw [plain_of_contributes hcontributes, AggregateFunction.count_contribute, brought,
      if_pos hcontributes, UInt64.ofNat_toNat]

/-- How much of it is there when the call is at this point. -/
def Call.paid (f : AggregateFunction) (c : Call) (p : Point) : Nat :=
  if Race.hasReturned p then c.brought f else 0

/-- Nothing is paid before a call takes effect. -/
theorem Call.paid_of_not_settled (f : AggregateFunction) (c : Call) {p : Point}
    (hp : p.isSettled = false) : c.paid f p = 0 := by
  cases p with
  | returned => cases hp
  | _ => rfl

/-- What there is to know when a call is at a point, `t` being the tally in the bucket. -/
inductive Call.At (f : AggregateFunction) (t : Tally) (c : Call) : Point → Prop
  | addValue : c.contributes f = true → f.IsSum → f.numeric = .int64 → At f t c .addValue
  | loadSum : c.contributes f = true → f.IsSum → f.numeric = .float64 → At f t c .loadSum
  | swapSum (seen : UInt64) :
      c.contributes f = true → f.IsSum → f.numeric = .float64 → At f t c (.swapSum seen)
  | checkFlag : c.contributes f = true → f.IsExtremum → At f t c .checkFlag
  | takeLock : c.contributes f = true → f.IsExtremum → At f t c .takeLock
  | recheckFlag : c.contributes f = true → f.IsExtremum → At f t c .recheckFlag
  | storeValue : c.contributes f = true → f.IsExtremum → t.isSet = false → At f t c .storeValue
  | storeFlag :
      c.contributes f = true → f.IsExtremum → t.isSet = false → t.value = c.word →
        At f t c .storeFlag
  | leaveLock (stored : Bool) :
      c.contributes f = true → f.IsExtremum → t.isSet = true → At f t c (.leaveLock stored)
  | loadBest : c.contributes f = true → f.IsExtremum → t.isSet = true → At f t c .loadBest
  | swapBest (seen : UInt64) :
      c.contributes f = true → f.IsExtremum → t.isSet = true → f.improves c.word seen = true →
        At f t c (.swapBest seen)
  | addCount : c.contributes f = true → At f t c .addCount
  | readFlag : c.contributes f = false → At f t c .readFlag
  | readValue (isSet : Bool) : c.contributes f = false → At f t c (.readValue isSet)
  | readCount (isSet : Bool) (value : UInt64) :
      c.contributes f = false → At f t c (.readCount isSet value)
  | returned (result : Option Tally) : At f t c (.returned result)

section At

variable {f : AggregateFunction} {c : Call} {t t' : Tally} {p : Point}

/-- What a call relies on stays true while others take steps: a flag that is raised stays raised,
    and if none is raised yet, nobody else touches the tally while the call holds the lock. -/
theorem Call.At.stable (h : c.At f t p) (hset : t.isSet = true → t'.isSet = true)
    (hguard : f.IsExtremum → t.isSet = false → p.holdsLock = true →
      t'.isSet = false ∧ t'.value = t.value) : c.At f t' p := by
  cases h with
  | addValue hc hk hn => exact .addValue hc hk hn
  | loadSum hc hk hn => exact .loadSum hc hk hn
  | swapSum seen hc hk hn => exact .swapSum seen hc hk hn
  | checkFlag hc hk => exact .checkFlag hc hk
  | takeLock hc hk => exact .takeLock hc hk
  | recheckFlag hc hk => exact .recheckFlag hc hk
  | storeValue hc hk hunset => exact .storeValue hc hk (hguard hk hunset rfl).1
  | storeFlag hc hk hunset hvalue =>
    obtain ⟨hunset', hvalue'⟩ := hguard hk hunset rfl
    exact .storeFlag hc hk hunset' (hvalue'.trans hvalue)
  | leaveLock stored hc hk hraised => exact .leaveLock stored hc hk (hset hraised)
  | loadBest hc hk hraised => exact .loadBest hc hk (hset hraised)
  | swapBest seen hc hk hraised himp => exact .swapBest seen hc hk (hset hraised) himp
  | addCount hc => exact .addCount hc
  | readFlag hc => exact .readFlag hc
  | readValue isSet hc => exact .readValue isSet hc
  | readCount isSet value hc => exact .readCount isSet value hc
  | returned result => exact .returned result

/-- A call that has not taken effect yet brings something. -/
theorem Call.At.contributes (h : c.At f t p) (hp : p.isSettled = false) :
    c.contributes f = true := by
  cases h with
  | addValue hc | loadSum hc | swapSum _ hc | checkFlag hc | takeLock hc | recheckFlag hc => exact hc
  | storeValue hc | storeFlag hc | leaveLock _ hc | loadBest hc | swapBest _ hc => exact hc
  | addCount | readFlag | readValue | readCount | returned => cases hp

/-- A call may be where it begins. -/
theorem Call.Starts.at_point (h : c.Starts f p) (t : Tally) : c.At f t p := by
  cases h with
  | skip => exact .returned none
  | read hc => exact .readFlag hc
  | count hc => exact .addCount hc
  | integers hc hk hn => exact .addValue hc hk hn
  | floats hc hk hn => exact .loadSum hc hk hn
  | extremum hc hk => exact .checkFlag hc hk

/-- Where it begins, a call neither holds the lock nor has paid anything. -/
theorem Call.Starts.fresh (h : c.Starts f p) : p.holdsLock = false ∧ c.paid f p = 0 := by
  cases h with
  | skip hc =>
    have hbrought : c.brought f = 0 := by rw [brought, hc]; rfl
    exact ⟨rfl, hbrought⟩
  | read | count | integers | floats | extremum => exact ⟨rfl, rfl⟩

end At

/-! ## Steps -/

/-- What a step of a call can do.  A word without a weight is a contribution of weight zero. -/
inductive Turn [FloatAddition] (f : AggregateFunction) (c : Call) :
    Point → Bucket → Point → Bucket → Prop
  /-- It looks, or waits, or is a reader that returns. -/
  | look {p p' : Point} {b : Bucket} (hlock : p'.holdsLock = p.holdsLock)
      (hsettled : p'.isSettled = p.isSettled) (hpaid : c.paid f p' = c.paid f p)
      (hstore : p.isStoring = false) : Turn f c p b p' b
  /-- It takes the lock. -/
  | enter {b : Bucket} (hfree : b.locked = false) :
      Turn f c .takeLock b .recheckFlag { b with locked := true }
  /-- It leaves the lock. -/
  | leave {p' : Point} {stored : Bool} {b : Bucket} (hlock : p'.holdsLock = false)
      (hsettled : p'.isSettled = stored) (hpaid : c.paid f p' = 0) :
      Turn f c (.leaveLock stored) b p' { b with locked := false }
  /-- It stores the first value, which does not count as there yet. -/
  | store {b : Bucket} (hk : f.IsExtremum) (hunset : b.tally.isSet = false) :
      Turn f c .storeValue b .storeFlag { b with tally := { b.tally with value := c.word } }
  /-- It takes effect; if there is no extremum yet, by raising the flag. -/
  | settle {p p' : Point} {b : Bucket} (hlock : p'.holdsLock = p.holdsLock)
      (hbefore : p.isSettled = false) (hafter : p'.isSettled = true) (hpaid : c.paid f p' = 0)
      (hfirst : p.isStoring = true ↔ f.IsExtremum ∧ b.tally.isSet = false) :
      Turn f c p b p' { b with tally := f.contribute b.tally c.word 0 }
  /-- It adds its weight and returns. -/
  | count {b : Bucket} (hc : c.contributes f = true) :
      Turn f c .addCount b (.returned none)
        { b with tally := { b.tally with count := b.tally.count + c.weight } }

section Step

variable [FloatAddition] {f : AggregateFunction} {c : Call} {b : Bucket}

/-- A word that is added without a weight. -/
theorem contribute_zero_of_sum (hk : f.IsSum) (t : Tally) (w : UInt64) :
    f.contribute t w 0 = { t with value := f.numeric.add t.value w } := by
  rw [AggregateFunction.contribute_of_sum hk, UInt64.add_zero]

/-- A first or better word without a weight. -/
theorem contribute_zero_of_extremum (hk : f.IsExtremum) (t : Tally) (w : UInt64) :
    f.contribute t w 0 = ⟨if t.isSet then f.best t.value w else w, t.count, true⟩ := by
  rw [AggregateFunction.contribute_of_extremum hk, UInt64.add_zero]

/-- An addition takes effect. -/
theorem Turn.add {p : Point} (hc : c.contributes f = true) (hk : f.IsSum)
    (hlock : p.holdsLock = false) (hbefore : p.isSettled = false) (hstore : p.isStoring = false) :
    Turn f c p b .addCount
        { b with tally := { b.tally with value := f.numeric.add b.tally.value c.word } } ∧
      c.At f { b.tally with value := f.numeric.add b.tally.value c.word } .addCount := by
  have hfirst : p.isStoring = true ↔ f.IsExtremum ∧ b.tally.isSet = false :=
    iff_of_false (Bool.not_eq_true _ ▸ hstore) fun hext => hext.1.not_isSum hk
  rw [← contribute_zero_of_sum hk]
  exact ⟨.settle hlock.symm hbefore rfl rfl hfirst, .addCount hc⟩

/-- A word that has been compared with the extremum is dropped, and has taken effect with that, or
    goes on to replace it. -/
theorem Turn.compare {p : Point} (hc : c.contributes f = true) (hk : f.IsExtremum)
    (hraised : b.tally.isSet = true) (hlock : p.holdsLock = false) (hbefore : p.isSettled = false)
    (hreturned : Race.hasReturned p = false) (hstore : p.isStoring = false) :
    Turn f c p b (c.compare f b.tally.value) b ∧
      c.At f b.tally (c.compare f b.tally.value) := by
  rw [Call.compare]
  by_cases himp : f.improves c.word b.tally.value = true
  · rw [if_pos himp]
    refine ⟨.look hlock.symm hbefore.symm ?_ hstore, .swapBest _ hc hk hraised himp⟩
    rw [Call.paid, Call.paid, hreturned]
    rfl
  · rw [if_neg himp]
    have hsame : b = { b with tally := f.contribute b.tally c.word 0 } := by
      rw [contribute_zero_of_extremum hk, hraised, if_pos rfl, AggregateFunction.best, if_neg himp,
        ← hraised]
    have hfirst : p.isStoring = true ↔ f.IsExtremum ∧ b.tally.isSet = false :=
      iff_of_false (Bool.not_eq_true _ ▸ hstore) fun hunset => by simp [hraised] at hunset
    have hturn : Turn f c p b .addCount { b with tally := f.contribute b.tally c.word 0 } :=
      .settle hlock.symm hbefore rfl rfl hfirst
    rw [← hsame] at hturn
    exact ⟨hturn, .addCount hc⟩

/-- **Every step** is a turn, and leaves the call where it can go on. -/
theorem turn_step {p : Point} (hat : c.At f b.tally p) (spurious : Bool) :
    Turn f c p b (step f c spurious p b).1 (step f c spurious p b).2 ∧
      c.At f (step f c spurious p b).2.tally (step f c spurious p b).1 := by
  cases hat with
  | addValue hc hk hn =>
    have hadd := Turn.add (b := b) (p := .addValue) hc hk rfl rfl rfl
    rw [hn] at hadd
    exact hadd
  | loadSum hc hk hn => exact ⟨.look rfl rfl rfl rfl, .swapSum _ hc hk hn⟩
  | swapSum seen hc hk hn =>
    rw [step]
    split
    case isTrue hseen =>
      rw [← hseen.1]
      exact Turn.add hc hk rfl rfl rfl
    case isFalse => exact ⟨.look rfl rfl rfl rfl, .swapSum _ hc hk hn⟩
  | checkFlag hc hk =>
    rw [step]
    cases hset : b.tally.isSet with
    | true => exact ⟨.look rfl rfl rfl rfl, .loadBest hc hk hset⟩
    | false => exact ⟨.look rfl rfl rfl rfl, .takeLock hc hk⟩
  | takeLock hc hk =>
    rw [step]
    cases hlocked : b.locked with
    | true => exact ⟨.look rfl rfl rfl rfl, .takeLock hc hk⟩
    | false => exact ⟨.enter hlocked, .recheckFlag hc hk⟩
  | recheckFlag hc hk =>
    rw [step]
    cases hset : b.tally.isSet with
    | true => exact ⟨.look rfl rfl rfl rfl, .leaveLock false hc hk hset⟩
    | false => exact ⟨.look rfl rfl rfl rfl, .storeValue hc hk hset⟩
  | storeValue hc hk hunset => exact ⟨.store hk hunset, .storeFlag hc hk hunset rfl⟩
  | storeFlag hc hk hunset hvalue =>
    have hsame : ({ b.tally with isSet := true } : Tally) = f.contribute b.tally c.word 0 := by
      rw [contribute_zero_of_extremum hk, hunset, ← hvalue]
      rfl
    have hturn : Turn f c .storeFlag b (.leaveLock true)
        { b with tally := f.contribute b.tally c.word 0 } :=
      .settle rfl rfl rfl rfl (iff_of_true rfl ⟨hk, hunset⟩)
    rw [← hsame] at hturn
    exact ⟨hturn, .leaveLock true hc hk rfl⟩
  | leaveLock stored hc hk hraised =>
    cases stored with
    | true => exact ⟨.leave rfl rfl rfl, .addCount hc⟩
    | false => exact ⟨.leave rfl rfl rfl, .loadBest hc hk hraised⟩
  | loadBest hc hk hraised => exact Turn.compare hc hk hraised rfl rfl rfl rfl
  | swapBest seen hc hk hraised himp =>
    rw [step]
    split
    case isTrue hseen =>
      have hsame : ({ b.tally with value := c.word } : Tally) = f.contribute b.tally c.word 0 := by
        rw [contribute_zero_of_extremum hk, hraised, if_pos rfl, AggregateFunction.best, hseen.1,
          if_pos himp, ← hraised]
      have hfirst : (Point.swapBest seen).isStoring = true ↔
          f.IsExtremum ∧ b.tally.isSet = false :=
        iff_of_false Bool.false_ne_true fun hunset => by simp [hraised] at hunset
      have hturn : Turn f c (.swapBest seen) b .addCount
          { b with tally := f.contribute b.tally c.word 0 } := .settle rfl rfl rfl rfl hfirst
      rw [← hsame] at hturn
      exact ⟨hturn, .addCount hc⟩
    case isFalse => exact Turn.compare hc hk hraised rfl rfl rfl rfl
  | addCount hc => exact ⟨.count hc, .returned none⟩
  | readFlag hc => exact ⟨.look rfl rfl rfl rfl, .readValue _ hc⟩
  | readValue isSet hc => exact ⟨.look rfl rfl rfl rfl, .readCount isSet _ hc⟩
  | readCount isSet value hc =>
    refine ⟨.look rfl rfl ?_ rfl, .returned _⟩
    -- a reader brings nothing, so it owes nothing either
    simp only [Call.paid, Call.brought, hc, Bool.false_eq_true, if_false, ite_self]
  | returned result => exact ⟨.look rfl rfl rfl rfl, .returned result⟩

end Step
end Cohort.Bucket
