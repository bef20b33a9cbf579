import Cohort.Proofs.States.Layouts
import Cohort.Proofs.States.Simulation
import Cohort.Proofs.Storage.Undisturbed
/-
  Layouts are INTERCHANGEABLE: whatever a caller does in order, all of them give the same answers.

  1. **Step.**  Each operation that is in order asks both of two machines that are peers for the
     same counts, and keeps them peers if it gets these (`MachinesPeer.step_eq`).  So it succeeds on
     both, or a count that no word can hold stops both of them.

  2. **Run.**  So it goes through every program, by induction from its end (`run_peers`), and peers
     agree.

  3. **Counts that do not fit.**  Such a count is all that ever stops a machine, and it does get that
     far: two groups that are merged into each other in turn have Fibonacci numbers for counts, so
     the 93rd merge stops the machines of all layouts.
-/

namespace Cohort

section

variable [FloatAddition] {aggregates : List Aggregate}

/-! ## Shared buckets -/

variable (aggregates) in
/-- Two arrays of buckets that hold peers. -/
def BucketsPeer (ks : Counts) (bs bs' : List Bucket) : Prop :=
  ∃ ts us, bs = ts.map .ofTally ∧ bs' = us.map .ofTally ∧ GroupsPeer aggregates ks ts us

/-- Merging a group into shared buckets is folding its tallies into theirs. -/
theorem mergeInto_eq {σ : Type} [LocalStates σ] {s : σ} {o : Nat} {ts : List Tally}
    (h : LocalStates.tallies s o = .ok ts) (us : List Tally) :
    LocalStates.mergeInto aggregates o s (us.map .ofTally) =
      .ok ((foldTallies aggregates ts us).map .ofTally) := by
  have hmerge : ∀ (p : Aggregate × Tally) (u : Tally), Bucket.ofTally (p.1.function.merge u p.2) =
      (Bucket.ofTally u).mergeShared p.1.function p.2 :=
    fun p u => (Bucket.perform_merge p.1.function u p.2).symm
  rw [LocalStates.mergeInto, h]
  exact congrArg Except.ok (map_alongside hmerge (aggregates.zip ts) us).symm

theorem BucketsPeer.agree {ks : Counts} {bs bs' : List Bucket}
    (h : BucketsPeer aggregates ks bs bs') : BucketsAgree aggregates ks bs bs' := by
  obtain ⟨ts, us, rfl, rfl, hpeers⟩ := h
  refine ⟨by rw [List.length_map, hpeers.left], by rw [List.length_map, hpeers.right],
    fun i k hk => ?_⟩
  obtain ⟨x, y, hx, hy, hat⟩ := hpeers.each i k hk
  exact ⟨.ofTally x, .ofTally y, by rw [List.getElem?_map, hx]; rfl,
    by rw [List.getElem?_map, hy]; rfl, x, y, rfl, rfl, hat.agree⟩

/-! ## Machines -/

variable {σ σ' : Type} [LocalStates σ] [LocalStates σ'] [LawfulStates σ] [LawfulStates σ']

variable (aggregates) in
/-- Two machines whose registers and buckets hold peers. -/
structure MachinesPeer (b : Books) (m : Machine σ) (m' : Machine σ') : Prop where
  appended : m.appended = m'.appended
  registers : Threefold (fun _ => StatesPeer aggregates) b.registers m.registers m'.registers
  shared : Threefold (fun _ => BucketsPeer aggregates) b.shared m.shared m'.shared

namespace MachinesPeer

variable {b b' : Books} {m : Machine σ} {m' : Machine σ'}

theorem start : MachinesPeer aggregates {} ({} : Machine σ) ({} : Machine σ') := ⟨rfl, .nil, .nil⟩

/-- **One operation** that is in order asks both machines for the counts that it leads to, and goes
    through on both once these are granted. -/
theorem step_eq (hieee : ∀ a ∈ aggregates, a.function.AddsFloats → FloatAddition.IsIEEE)
    (h : MachinesPeer aggregates b m m') (hfit : b.Below UInt64.size) {op : Operation}
    (hop : b.step aggregates op = some b') :
    ∃ m₁ m₁', m.step aggregates op = ((b.folded aggregates op).demand >>= fun _ => .ok m₁) ∧
      m'.step aggregates op = ((b.folded aggregates op).demand >>= fun _ => .ok m₁') ∧
      MachinesPeer aggregates b' m₁ m₁' := by
  cases op with
  | create n maxGroups =>
    cases hop
    exact ⟨_, _, rfl, rfl, h.appended, h.registers.concat (.create n maxGroups), h.shared⟩
  | push r =>
    obtain ⟨book, hbook, rfl⟩ := Books.step_push.mp hop
    obtain ⟨s, s', hs, hs', hpeer⟩ := h.registers.each r book hbook
    exact ⟨_, _, Machine.step_push hs, Machine.step_push hs', h.appended,
      h.registers.set hpeer.push, h.shared⟩
  | update r t row o =>
    obtain ⟨book, hbook, ks, hlive, rfl⟩ := Books.step_update.mp hop
    obtain ⟨s, s', hs, hs', hpeer⟩ := h.registers.each r book hbook
    obtain ⟨hchecked, hchecked'⟩ := hpeer.updateChecked hlive (hfit.live hbook hlive) t row
    obtain ⟨s₁, s₁', hs₁, hs₁', hpeer'⟩ := hpeer.update hieee hlive t row
    rw [Books.folded, Books.live_eq hbook hlive, Machine.step_update hs, Machine.step_update hs',
      hchecked, hchecked', hs₁, hs₁']
    refine ⟨m.put r s₁, m'.put r s₁', ?_, ?_, h.appended, h.registers.set hpeer', h.shared⟩ <;>
      cases (ks.update aggregates t row).demand <;> rfl
  | merge r o r' o' =>
    obtain ⟨book, hbook, other, hother, ks, hlive, ls, hlive', ⟨-, hcount⟩, rfl⟩ :=
      Books.step_merge.mp hop
    obtain ⟨s, s', hs, hs', hpeer⟩ := h.registers.each r book hbook
    obtain ⟨u, u', hu, hu', hsource⟩ := h.registers.each r' other hother
    obtain ⟨hchecked, hchecked'⟩ := hpeer.mergeChecked hlive hsource hlive' hcount
      (hfit.live hbook hlive) (hfit.live hother hlive')
    obtain ⟨s₁, s₁', hs₁, hs₁', hpeer'⟩ := hpeer.merge hieee hlive hsource hlive' hcount
    rw [Books.folded, Books.live_eq hbook hlive, Books.live_eq hother hlive',
      Machine.step_merge hs hu, Machine.step_merge hs' hu', hchecked, hchecked', hs₁, hs₁']
    refine ⟨m.put r s₁, m'.put r s₁', ?_, ?_, h.appended, h.registers.set hpeer', h.shared⟩ <;>
      cases (ks.fold aggregates ls).demand <;> rfl
  | append r r' o' =>
    obtain ⟨book, hbook, other, hother, ls, hlive, ⟨-, hcount⟩, rfl⟩ := Books.step_append.mp hop
    obtain ⟨s, s', hs, hs', hpeer⟩ := h.registers.each r book hbook
    obtain ⟨u, u', hu, hu', hsource⟩ := h.registers.each r' other hother
    -- one side may rebuild what the other hands over, and the counts must not make it forget any
    obtain ⟨s₁, u₁, s₁', u₁', hs₁, hs₁', hpeer', hsource'⟩ :=
      hpeer.append hieee hsource hlive hcount (hfit.live hother hlive)
    exact ⟨_, _, Machine.step_append hs hu hs₁, Machine.step_append hs' hu' hs₁',
      congrArg (· ++ [book.groups.length]) h.appended, (h.registers.set hpeer').set hsource',
      h.shared⟩
  | reserve r additional =>
    obtain ⟨book, hbook, rfl⟩ := Books.step_reserve.mp hop
    obtain ⟨s, s', hs, hs', hpeer⟩ := h.registers.each r book hbook
    -- the books stay as they are
    have hregisters := h.registers.set (i := r) (hpeer.reserve additional)
    obtain ⟨hlt, rfl⟩ := List.getElem?_eq_some_iff.mp hbook
    rw [List.set_getElem_self] at hregisters
    exact ⟨_, _, Machine.step_reserve hs additional, Machine.step_reserve hs' additional,
      h.appended, hregisters, h.shared⟩
  | take r o =>
    obtain ⟨book, hbook, ks, hlive, rfl⟩ := Books.step_take.mp hop
    obtain ⟨s, s', hs, hs', hpeer⟩ := h.registers.each r book hbook
    obtain ⟨ts, us, s₁, s₁', hs₁, hs₁', htaken, hpeer'⟩ := hpeer.take hlive
    exact ⟨_, _, Machine.step_take hs hs₁, Machine.step_take hs' hs₁', h.appended,
      h.registers.set hpeer', h.shared.concat ⟨ts, us, rfl, rfl, htaken⟩⟩
  | mergeInto r o array =>
    obtain ⟨book, hbook, ks, hlive, ls, hls, hlength, rfl⟩ := Books.step_mergeInto.mp hop
    obtain ⟨s, s', hs, hs', hpeer⟩ := h.registers.each r book hbook
    obtain ⟨bs, bs', hbs, hbs', ts', us', rfl, rfl, hpeers⟩ := h.shared.each array ls hls
    obtain ⟨ts, us, hts, hus, hgroup, -⟩ := hpeer.live hlive
    exact ⟨_, _, Machine.step_mergeInto hs hbs (mergeInto_eq hts ts'),
      Machine.step_mergeInto hs' hbs' (mergeInto_eq hus us'), h.appended, h.registers,
      h.shared.set ⟨_, _, rfl, rfl, hpeers.fold hieee hgroup hlength⟩⟩

/-- If the counts that it leads to are words, the operation goes through. -/
theorem step (hieee : ∀ a ∈ aggregates, a.function.AddsFloats → FloatAddition.IsIEEE)
    (h : MachinesPeer aggregates b m m') (hfit : b.Below UInt64.size) {op : Operation}
    (hop : b.step aggregates op = some b')
    (hfolded : (b.folded aggregates op).Below UInt64.size) :
    ∃ m₁ m₁', m.step aggregates op = .ok m₁ ∧ m'.step aggregates op = .ok m₁' ∧
      MachinesPeer aggregates b' m₁ m₁' := by
  obtain ⟨m₁, m₁', hstep, hstep', hpeers⟩ := h.step_eq hieee hfit hop
  rw [Counts.demand_of_below hfolded] at hstep hstep'
  exact ⟨m₁, m₁', hstep, hstep', hpeers⟩

/-- If one of them is not, the same count stops both machines. -/
theorem step_stops (hieee : ∀ a ∈ aggregates, a.function.AddsFloats → FloatAddition.IsIEEE)
    (h : MachinesPeer aggregates b m m') (hfit : b.Below UInt64.size) {op : Operation}
    (hop : b.step aggregates op = some b')
    (hfolded : ¬(b.folded aggregates op).Below UInt64.size) :
    ∃ n, UInt64.size ≤ n ∧ m.step aggregates op = .error (.outOfRange n UInt64.size) ∧
      m'.step aggregates op = .error (.outOfRange n UInt64.size) := by
  obtain ⟨m₁, m₁', hstep, hstep', -⟩ := h.step_eq hieee hfit hop
  obtain ⟨n, hn, hdemand⟩ := Counts.exists_demand_eq_error hfolded
  rw [hdemand] at hstep hstep'
  exact ⟨n, hn, hstep, hstep'⟩

/-- **Peers agree.** -/
theorem agree (h : MachinesPeer aggregates b m m') : MachinesAgree aggregates b m m' :=
  ⟨h.appended, h.registers.imp fun _ _ _ _ hpeer => hpeer.agree,
    h.shared.imp fun _ _ _ _ hpeer => hpeer.agree⟩

end MachinesPeer

/-! ## Programs -/

omit [LawfulStates σ] in
/-- A machine goes on where the program so far has brought it. -/
theorem Machine.run_concat (program : List Operation) (op : Operation) :
    (Machine.run aggregates (program ++ [op]) : Except Error (Machine σ)) =
      (Machine.run aggregates program).bind fun m => m.step aggregates op := by
  rw [run, List.foldlM_append]
  simp only [List.foldlM_cons, List.foldlM_nil, bind_pure]
  rfl

variable {program : List Operation}

/-- **A program that is in order** gets two machines to where they are peers, or to where the same
    count stops both. -/
theorem run_peers (hieee : ∀ a ∈ aggregates, a.function.AddsFloats → FloatAddition.IsIEEE)
    {b : Books} (hb : Books.run aggregates program = some b) :
    (CountsFit aggregates program → ∃ (m : Machine σ) (m' : Machine σ'),
      Machine.run aggregates program = .ok m ∧ Machine.run aggregates program = .ok m' ∧
      MachinesPeer aggregates b m m') ∧
    (¬CountsFit aggregates program → ∃ n, UInt64.size ≤ n ∧
      (Machine.run aggregates program : Except Error (Machine σ)) =
        .error (.outOfRange n UInt64.size) ∧
      (Machine.run aggregates program : Except Error (Machine σ')) =
        .error (.outOfRange n UInt64.size)) := by
  induction program using List.reverseRecOn generalizing b with
  | nil =>
    cases hb
    exact ⟨fun _ => ⟨{}, {}, rfl, rfl, .start⟩, fun h => absurd countsFit_nil h⟩
  | append_singleton program op ih =>
    have hrun := hb
    rw [Books.run_concat] at hb
    obtain ⟨b₀, hb₀, hop⟩ := Option.bind_eq_some_iff.mp hb
    rw [Machine.run_concat, Machine.run_concat]
    by_cases hpart : CountsFit aggregates program
    · obtain ⟨m, m', hm, hm', hpeers⟩ := (ih hb₀).1 hpart
      have hfit : b₀.Below UInt64.size := hpart program b₀ (List.prefix_refl _) hb₀
      have hfolded := hfit.step_iff (by decide) hop
      rw [hm, hm']
      refine ⟨fun hcounts => ?_, fun hcounts => ?_⟩
      · exact hpeers.step hieee hfit hop
          (hfolded.mp (hcounts _ b (List.prefix_refl _) hrun))
      · exact hpeers.step_stops hieee hfit hop fun h => hcounts (hpart.concat hrun (hfolded.mpr h))
    · obtain ⟨n, hn, hm, hm'⟩ := (ih hb₀).2 hpart
      rw [hm, hm']
      exact ⟨fun hcounts => absurd (hcounts.part (List.prefix_append program [op])) hpart,
        fun _ => ⟨n, hn, rfl, rfl⟩⟩

/-- **Layouts are interchangeable** as long as counts are words.  In a program that is in order, the
    machines of all layouts get to every step at which the counts so far fit, and agree there, on
    how many groups there are, on the ordinals of appended groups, on the tallies of all groups that
    were not moved out and on those of all shared buckets.  At the first count that does not fit all
    of them stop, with the same error.  Where floats are added, addition is to treat zeros and NaNs
    as IEEE addition does. -/
theorem layouts_interchangeable
    (hieee : ∀ a ∈ aggregates, a.function.AddsFloats → FloatAddition.IsIEEE)
    (horder : InOrder aggregates program) (part : List Operation) (hpart : part <+: program) :
    (CountsFit aggregates part → AgreeAfter aggregates part) ∧
      (¬CountsFit aggregates part → StopAlike aggregates part) := by
  obtain ⟨b, hb⟩ := horder.exists_run hpart
  refine ⟨fun hcounts => ⟨b, hb, fun mode mode' => ?_⟩, fun hcounts => ?_⟩
  · obtain ⟨m, m', hm, hm', hpeers⟩ : ∃ (m : Machine mode.Layout) (m' : Machine mode'.Layout),
        Machine.run aggregates part = .ok m ∧ Machine.run aggregates part = .ok m' ∧
        MachinesPeer aggregates b m m' := (run_peers hieee hb).1 hcounts
    exact ⟨m, m', hm, hm', hpeers.agree⟩
  · -- what stops one layout stops every other one
    have hstops (mode : StorageMode) : ∃ n, UInt64.size ≤ n ∧
        (Machine.run aggregates part : Except Error (Machine BucketStates)) =
          .error (.outOfRange n UInt64.size) ∧
        (Machine.run aggregates part : Except Error (Machine mode.Layout)) =
          .error (.outOfRange n UInt64.size) := (run_peers hieee hb).2 hcounts
    obtain ⟨n, hn, hbucket, -⟩ := hstops .bucket
    refine ⟨n, hn, fun mode => ?_⟩
    obtain ⟨n', -, hbucket', hmode⟩ := hstops mode
    cases hbucket.symm.trans hbucket'
    exact hmode

end

/-- An addition that treats zeros and NaNs as IEEE addition does, and takes all other sums to be
    infinite. -/
@[reducible]
def FloatAddition.ofZeros : FloatAddition where
  add a b :=
    if (Binary64.mk a).isNaN || (Binary64.mk b).isNaN then 0x7FF8000000000000
    else if a = negativeZero then b
    else if b = negativeZero then a
    else if a = 0 then b
    else if b = 0 then a
    else UInt64.ofNat Binary64.infinityBits

theorem FloatAddition.isIEEE_ofZeros : @FloatAddition.IsIEEE FloatAddition.ofZeros := by
  have hnan : ∀ {a b : UInt64}, IsNaN a ∨ IsNaN b →
      @FloatAddition.add FloatAddition.ofZeros a b = 0x7FF8000000000000 :=
    fun h => if_pos (Bool.or_eq_true_iff.mpr h)
  refine @FloatAddition.IsIEEE.mk FloatAddition.ofZeros ?_ ?_ ?_
  · intro v hv
    by_cases hvnan : IsNaN v
    · rw [hnan (.inr hvnan)]
      exact .inr ⟨by decide, hvnan⟩
    · have hnone : ¬((Binary64.mk 0).isNaN || (Binary64.mk v).isNaN) = true := fun h =>
        hvnan ((Bool.or_eq_true_iff.mp h).resolve_left (by decide))
      simp only [add]
      rw [if_neg hnone, if_neg (by decide), if_neg hv, if_pos trivial]
      exact .refl v
  · intro a b hab
    have hpayload : (0x7FF8000000000000 : UInt64) ≠ negativeZero := by decide
    have hinfinite : UInt64.ofNat Binary64.infinityBits ≠ negativeZero := by decide
    simp only [add] at hab
    by_cases ha : a = negativeZero <;> by_cases hb : b = negativeZero
    · exact ⟨ha, hb⟩
    · simp only [ha, hb, if_true] at hab
      split at hab
      · exact absurd hab hpayload
      · exact absurd hab hb
    · simp only [ha, hb, if_false, if_true] at hab
      split at hab
      · exact absurd hab hpayload
      · exact absurd hab ha
    · simp only [ha, hb, if_false] at hab
      repeat' split at hab
      · exact absurd hab hpayload
      · exact absurd hab hb
      · exact absurd hab ha
      · exact absurd hab hinfinite
  · rintro a a' b b' (rfl | ⟨ha, ha'⟩) (rfl | ⟨hb, hb'⟩)
    · exact .refl _
    · rw [hnan (.inr hb), hnan (.inr hb')]
      exact .refl _
    · rw [hnan (.inl ha), hnan (.inl ha')]
      exact .refl _
    · rw [hnan (.inl ha), hnan (.inl ha')]
      exact .refl _

/-- A sum of floats and a count of rows, with groups that are appended, merged, moved out and folded
    into what was moved out.  One of the rows holds the negative zero. -/
theorem layouts_interchangeable_sample :
    let _ : FloatAddition := .ofZeros
    let aggregates : List Aggregate :=
      [⟨⟨.sum, .float64⟩, some (.column 0 .float64 none)⟩, .countRows]
    let t : Table := ⟨1, #[#[.float ⟨negativeZero⟩], #[.float ⟨0x3FF0000000000000⟩],
      #[.float ⟨0x7FF0000000000000⟩]], by decide⟩
    let program : List Operation :=
      [.create 2 0, .create 2 4, .push 0, .update 0 t 0 0, .push 0, .update 0 t 1 1, .append 1 0 1,
        .update 1 t 2 0, .merge 1 0 0 0, .push 1, .reserve 1 5, .take 1 0, .update 1 t 1 1,
        .mergeInto 1 1 0, .append 0 1 1]
    FloatAddition.IsIEEE ∧ InOrder aggregates program ∧ CountsFit aggregates program ∧
      Interchangeable aggregates program := by
  intro _ aggregates t program
  have hieee : FloatAddition.IsIEEE := FloatAddition.isIEEE_ofZeros
  have horder : InOrder aggregates program := by decide
  have hcounts : CountsFit aggregates program := countsFit_of_length_le (by decide)
  exact ⟨hieee, horder, hcounts, fun part hpart =>
    (layouts_interchangeable (fun _ _ _ => hieee) horder part hpart).1 (hcounts.part hpart)⟩

/-! ## Counts that do not fit -/

/-- A group of one row and an empty group, merged into each other in turn. -/
def exchanges (merges : Nat) : List Operation :=
  [.create 1 1, .create 1 1, .push 0, .push 1, .update 0 ⟨1, #[#[.int 1]], by decide⟩ 0 0] ++
    (List.range merges).map fun i => .merge ((i + 1) % 2) 0 (i % 2) 0

set_option maxRecDepth 10000 in
/-- **Not without an end to counting**: the count of the last of these merges is the Fibonacci
    number 19740274219868223167, the first one above `2 ^ 64`. -/
theorem not_interchangeable_of_overflow :
    InOrder [.countRows] (exchanges 93) ∧ ¬Interchangeable [.countRows] (exchanges 93) := by
  refine ⟨by decide +kernel, fun h => ?_⟩
  obtain ⟨b, -, hmodes⟩ := h (exchanges 93) (List.prefix_refl _)
  obtain ⟨m, -, hm, -⟩ := hmodes .bucket .bucket
  have hstops : (Machine.run [.countRows] (exchanges 93) :
      Except Error (Machine BucketStates)).isOk = false := by decide +kernel
  cases (congrArg Except.isOk hm).symm.trans hstops

end Cohort
