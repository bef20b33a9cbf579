import Cohort.Proofs.States.Program
/-
  A SIMULATION between any two layouts, operation by operation.

  1. **Three lists.**  What the caller knows, what one side has and what the other side has are
     lists of one length, of registers, of groups or of tallies (`Threefold`).

  2. **Groups.**  Two groups are peers if their tallies are, aggregate by aggregate
     (`GroupsPeer`).  Rows, folds and moves keep them so; a move is where the layouts differ, since
     one of them may rebuild what another one hands over (`GroupsPeer.moved`).

  3. **Counts.**  What a checked operation asks for is what the caller's counts come to, so it is
     the same on both sides (`GroupsPeer.updateChecked`, `GroupsPeer.mergeChecked`).

  4. **States.**  Two states are peers if they hold accounts of peers.  What the operations do to
     accounts is all that is known of a layout (`LawfulStates`), and all that is needed.
-/

namespace Cohort

/-! ## Three lists -/

/-- Two lists side by side end with the first one, if not before. -/
theorem getElem?_zip_of_none {α β : Type} {as : List α} {i : Nat} (ha : as[i]? = none)
    (bs : List β) : (as.zip bs)[i]? = none := by
  rw [List.getElem?_eq_none_iff] at ha ⊢
  rw [List.length_zip]
  omega

namespace Threefold

variable {α β γ : Type} {R R' : Nat → α → β → γ → Prop} {as : List α} {bs : List β} {cs : List γ}

theorem nil : Threefold R [] [] [] := ⟨rfl, rfl, nofun⟩

/-- A weaker relation of the same lists. -/
theorem imp (h : Threefold R as bs cs)
    (hR : ∀ i a b c, R i a b c → R' i a b c) : Threefold R' as bs cs := by
  refine ⟨h.left, h.right, fun i a ha => ?_⟩
  obtain ⟨b, c, hb, hc, hrel⟩ := h.each i a ha
  exact ⟨b, c, hb, hc, hR i a b c hrel⟩

/-- One place more in all three lists. -/
theorem concat (h : Threefold R as bs cs) {a : α} {b : β} {c : γ} (hR : R as.length a b c) :
    Threefold R (as ++ [a]) (bs ++ [b]) (cs ++ [c]) := by
  refine ⟨by simp only [List.length_append, h.left, List.length_singleton],
    by simp only [List.length_append, h.right, List.length_singleton], fun i a' ha' => ?_⟩
  rcases Nat.lt_or_ge i as.length with hlt | hge
  · rw [List.getElem?_append_left hlt] at ha'
    obtain ⟨b', c', hb, hc, hrel⟩ := h.each i a' ha'
    refine ⟨b', c', ?_, ?_, hrel⟩
    · rw [List.getElem?_append_left (h.left ▸ hlt), hb]
    · rw [List.getElem?_append_left (h.right ▸ hlt), hc]
  · obtain ⟨hlt, -⟩ := List.getElem?_eq_some_iff.mp ha'
    rw [List.length_append, List.length_singleton] at hlt
    obtain rfl : i = as.length := by omega
    rw [List.getElem?_concat_length] at ha'
    cases ha'
    refine ⟨b, c, ?_, ?_, hR⟩
    · rw [← h.left, List.getElem?_concat_length]
    · rw [← h.right, List.getElem?_concat_length]

/-- The same place changed in all three lists. -/
theorem set (h : Threefold R as bs cs) {i : Nat} {a : α} {b : β} {c : γ} (hR : R i a b c) :
    Threefold R (as.set i a) (bs.set i b) (cs.set i c) := by
  refine ⟨by simp only [List.length_set, h.left], by simp only [List.length_set, h.right],
    fun j a' ha' => ?_⟩
  by_cases hij : i = j
  · subst hij
    obtain ⟨hlt, -⟩ := List.getElem?_eq_some_iff.mp ha'
    rw [List.length_set] at hlt
    rw [List.getElem?_set_self hlt] at ha'
    cases ha'
    exact ⟨b, c, List.getElem?_set_self (h.left ▸ hlt), List.getElem?_set_self (h.right ▸ hlt), hR⟩
  · rw [List.getElem?_set_ne hij] at ha'
    obtain ⟨b', c', hb, hc, hrel⟩ := h.each j a' ha'
    exact ⟨b', c', by rw [List.getElem?_set_ne hij, hb], by rw [List.getElem?_set_ne hij, hc], hrel⟩

/-- The lists without their first members. -/
theorem tail {a : α} {b : β} {c : γ} (h : Threefold R (a :: as) (b :: bs) (c :: cs)) :
    R 0 a b c ∧ Threefold (fun i => R (i + 1)) as bs cs := by
  refine ⟨?_, Nat.succ.inj h.left, Nat.succ.inj h.right, fun i a' ha' => h.each (i + 1) a' ha'⟩
  obtain ⟨b', c', hb, hc, hrel⟩ := h.each 0 a rfl
  cases hb
  cases hc
  exact hrel

/-- Three walks, each along a list of its own.  At every place all of them make a change, or none
    does. -/
theorem alongside {δ₁ δ₂ δ₃ : Type} {ds₁ : List δ₁} {ds₂ : List δ₂} {ds₃ : List δ₃}
    {change₁ : δ₁ → α → α} {change₂ : δ₂ → β → β} {change₃ : δ₃ → γ → γ}
    (h : Threefold R as bs cs)
    (hR : ∀ i a b c, as[i]? = some a → R i a b c →
      (∃ d₁ d₂ d₃, ds₁[i]? = some d₁ ∧ ds₂[i]? = some d₂ ∧ ds₃[i]? = some d₃ ∧
        R i (change₁ d₁ a) (change₂ d₂ b) (change₃ d₃ c)) ∨
      (ds₁[i]? = none ∧ ds₂[i]? = none ∧ ds₃[i]? = none)) :
    Threefold R (Cohort.alongside change₁ ds₁ as) (Cohort.alongside change₂ ds₂ bs)
      (Cohort.alongside change₃ ds₃ cs) := by
  refine ⟨by simp only [length_alongside, h.left], by simp only [length_alongside, h.right],
    fun i a' ha' => ?_⟩
  have hlt : i < as.length := by
    obtain ⟨hlt, -⟩ := List.getElem?_eq_some_iff.mp ha'
    rwa [length_alongside] at hlt
  have ha := List.getElem?_eq_getElem hlt
  obtain ⟨b, c, hb, hc, hrel⟩ := h.each i as[i] ha
  rcases hR i as[i] b c ha hrel with ⟨d₁, d₂, d₃, h₁, h₂, h₃, hrel'⟩ | ⟨h₁, h₂, h₃⟩
  · rw [getElem?_alongside h₁ ha] at ha'
    cases ha'
    exact ⟨_, _, getElem?_alongside h₂ hb, getElem?_alongside h₃ hc, hrel'⟩
  · rw [getElem?_alongside_of_none h₁, ha] at ha'
    cases ha'
    exact ⟨b, c, by rw [getElem?_alongside_of_none h₂, hb],
      by rw [getElem?_alongside_of_none h₃, hc], hrel⟩

/-- A walk that checks counts asks for what the caller's counts come to, and then makes the changes.
    Where it has come to an end, so has the walk along the caller's counts. -/
theorem tryAlongside {R : Nat → Nat → β → γ → Prop} {ks : Counts} {δ₁ δ₂ : Type} {ds₁ : List δ₁}
    {ds₂ : List δ₂} {count : δ₁ → Nat → Nat} {change : δ₂ → β → β}
    {checked : δ₂ → β → Except Error β} (h : Threefold R ks bs cs) (hfit : ks.Below UInt64.size)
    (hR : ∀ i k b c, ks[i]? = some k → R i k b c →
      (∃ d₁ d₂, ds₁[i]? = some d₁ ∧ ds₂[i]? = some d₂ ∧ checked d₂ b =
        (Tally.demandCount (count d₁ k) >>= fun _ => .ok (change d₂ b))) ∨
      (ds₁[i]? = none ∧ ds₂[i]? = none)) :
    Cohort.tryAlongside checked ds₂ bs =
      (Counts.demand (Cohort.alongside count ds₁ ks) >>= fun _ =>
        .ok (Cohort.alongside change ds₂ bs)) := by
  induction ks generalizing R bs cs ds₁ ds₂ with
  | nil =>
    cases List.eq_nil_of_length_eq_zero h.left
    cases ds₁ <;> cases ds₂ <;> rfl
  | cons k ks ih =>
    obtain ⟨b, bs, rfl⟩ := List.exists_cons_of_length_eq_add_one h.left
    obtain ⟨c, cs, rfl⟩ := List.exists_cons_of_length_eq_add_one h.right
    obtain ⟨hhead, htail⟩ := h.tail
    rcases hR 0 k b c rfl hhead with ⟨d₁, d₂, h₁, h₂, hchecked⟩ | ⟨h₁, h₂⟩
    · obtain ⟨ds₁, rfl⟩ : ∃ ds, ds₁ = d₁ :: ds := by
        cases ds₁ with
        | nil => cases h₁
        | cons d ds => cases h₁; exact ⟨ds, rfl⟩
      obtain ⟨ds₂, rfl⟩ : ∃ ds, ds₂ = d₂ :: ds := by
        cases ds₂ with
        | nil => cases h₂
        | cons d ds => cases h₂; exact ⟨ds, rfl⟩
      have hrest := ih htail (fun k' hk' => hfit k' (List.mem_cons_of_mem k hk'))
        fun i k' b' c' hk' hrel => hR (i + 1) k' b' c' hk' hrel
      rw [Cohort.tryAlongside, Cohort.alongside, Cohort.alongside, Counts.demand_cons, hchecked,
        hrest]
      cases Tally.demandCount (count d₁ k) with
      | error e => rfl
      | ok _ => cases Counts.demand (Cohort.alongside count ds₁ ks) <;> rfl
    · cases ds₁ with
      | cons d ds => cases h₁
      | nil =>
        cases ds₂ with
        | cons d ds => cases h₂
        | nil =>
          have hdemand := Counts.demand_of_below hfit
          rw [Cohort.tryAlongside.eq_def, Cohort.alongside.eq_def, hdemand]
          rfl

end Threefold

/-! ## Groups -/

variable [FloatAddition] (aggregates : List Aggregate)

/-- Peers at aggregate number `i`; where there is no such aggregate, nothing ever happened. -/
structure PeersAt (i k : Nat) (x y : Tally) : Prop where
  known : ∀ a, aggregates[i]? = some a → a.function.Peers k x y
  unknown : aggregates[i]? = none → k = 0 ∧ x = .empty ∧ y = .empty

/-- Two groups whose tallies are peers, with the counts that the caller has of both. -/
abbrev GroupsPeer (ks : Counts) (ts us : List Tally) : Prop :=
  Threefold (PeersAt aggregates) ks ts us

variable {aggregates}

/-- Peers agree, and what nothing ever happened to is the same. -/
theorem PeersAt.agree {i k : Nat} {x y : Tally} (h : PeersAt aggregates i k x y) :
    TalliesAgree aggregates i x y := by
  cases ha : aggregates[i]? with
  | some a => exact Or.inr ⟨a, ha, (h.known a ha).agree⟩
  | none =>
    obtain ⟨-, rfl, rfl⟩ := h.unknown ha
    exact Or.inl rfl

namespace GroupsPeer

variable {ks ls : Counts} {ts us ts' us' : List Tally}

/-- Neither of the two sides is special. -/
theorem symm (h : GroupsPeer aggregates ks ts us) : GroupsPeer aggregates ks us ts := by
  refine ⟨h.right, h.left, fun i k hk => ?_⟩
  obtain ⟨x, y, hx, hy, hpeers⟩ := h.each i k hk
  refine ⟨y, x, hy, hx, fun a ha => (hpeers.known a ha).symm, fun hnone => ?_⟩
  obtain ⟨hk, hx, hy⟩ := hpeers.unknown hnone
  exact ⟨hk, hy, hx⟩

/-- Empty groups. -/
theorem empty (aggregates : List Aggregate) (n : Nat) :
    GroupsPeer aggregates (List.replicate n 0) (List.replicate n .empty)
      (List.replicate n .empty) := by
  refine ⟨by simp only [List.length_replicate], by simp only [List.length_replicate],
    fun i k hk => ?_⟩
  obtain ⟨hlt, hk⟩ := List.getElem?_eq_some_iff.mp hk
  rw [List.length_replicate] at hlt
  rw [List.getElem_replicate] at hk
  subst hk
  have hget : (List.replicate n Tally.empty)[i]? = some .empty := by
    rw [List.getElem?_replicate, if_pos hlt]
  exact ⟨.empty, .empty, hget, hget, fun a _ => .empty a.function, fun _ => ⟨rfl, rfl, rfl⟩⟩

/-- **A move**, in which a layout hands the tallies over or rebuilds them from empty ones.  Either
    way they come to the same. -/
theorem rebuilt (hieee : ∀ a ∈ aggregates, a.function.AddsFloats → FloatAddition.IsIEEE)
    (h : GroupsPeer aggregates ks ts us) (hfit : ks.Below UInt64.size) :
    GroupsPeer aggregates ks ts (foldTallies aggregates us (List.replicate ks.length .empty)) := by
  refine ⟨h.left, by rw [length_foldTallies, List.length_replicate], fun i k hk => ?_⟩
  obtain ⟨x, y, hx, hy, hpeers⟩ := h.each i k hk
  have hempty : (List.replicate ks.length Tally.empty)[i]? = some .empty := by
    rw [List.getElem?_replicate, if_pos (List.getElem?_eq_some_iff.mp hk).1]
  cases ha : aggregates[i]? with
  | some a =>
    refine ⟨x, _, hx, getElem?_foldTallies ha hy hempty, fun a' ha' => ?_, fun hnone => ?_⟩
    · cases ha.symm.trans ha'
      exact (hpeers.known a ha).rebuilt (hieee a (List.mem_of_getElem? ha)) fun _ =>
        AggregateFunction.eq_zero_of_ofNat_eq_zero (hfit k (List.mem_of_getElem? hk))
    · cases ha.symm.trans hnone
  | none =>
    obtain ⟨rfl, rfl, rfl⟩ := hpeers.unknown ha
    refine ⟨.empty, .empty, hx, ?_, hpeers⟩
    rw [foldTallies, getElem?_alongside_of_none (getElem?_zip_of_none ha us), hempty]

/-- So it does not matter on which sides the tallies are rebuilt. -/
theorem moved (hieee : ∀ a ∈ aggregates, a.function.AddsFloats → FloatAddition.IsIEEE)
    (h : GroupsPeer aggregates ks ts us) (hfit : ks.Below UInt64.size) {n : Nat}
    (hn : ks.length = n)
    (hts : ts' = ts ∨ ts' = foldTallies aggregates ts (List.replicate n .empty))
    (hus : us' = us ∨ us' = foldTallies aggregates us (List.replicate n .empty)) :
    GroupsPeer aggregates ks ts' us' := by
  subst hn
  have hleft : GroupsPeer aggregates ks ts' us := by
    rcases hts with rfl | rfl
    · exact h
    · exact (h.symm.rebuilt hieee hfit).symm
  rcases hus with rfl | rfl
  · exact hleft
  · exact hleft.rebuilt hieee hfit

/-- **A row** on both sides. -/
theorem update (hieee : ∀ a ∈ aggregates, a.function.AddsFloats → FloatAddition.IsIEEE)
    (h : GroupsPeer aggregates ks ts us) (t : Table) (row : Nat) :
    GroupsPeer aggregates (ks.update aggregates t row) (updateTallies aggregates t row ts)
      (updateTallies aggregates t row us) := by
  refine Threefold.alongside h fun i k x y _ hpeers => ?_
  cases ha : aggregates[i]? with
  | none => exact Or.inr ⟨rfl, rfl, rfl⟩
  | some a =>
    refine Or.inl ⟨a, a, a, rfl, rfl, rfl, fun a' ha' => ?_, fun hnone => ?_⟩
    · cases ha.symm.trans ha'
      rw [Aggregate.updateTally, Aggregate.updateTally]
      cases a.input? t row with
      | none => exact hpeers.known a ha
      | some word =>
        exact (hpeers.known a ha).update (hieee a (List.mem_of_getElem? ha)) word
    · cases ha.symm.trans hnone

/-- **A fold** on both sides. -/
theorem fold (hieee : ∀ a ∈ aggregates, a.function.AddsFloats → FloatAddition.IsIEEE)
    (h : GroupsPeer aggregates ks ts us) (h' : GroupsPeer aggregates ls ts' us')
    (hlength : ks.length = ls.length) :
    GroupsPeer aggregates (ks.fold aggregates ls) (foldTallies aggregates ts' ts)
      (foldTallies aggregates us' us) := by
  refine Threefold.alongside h fun i k x y hk hpeers => ?_
  have hlt : i < ls.length := hlength ▸ (List.getElem?_eq_some_iff.mp hk).1
  have hl := List.getElem?_eq_getElem hlt
  obtain ⟨u, v, hu, hv, hpeers'⟩ := h'.each i ls[i] hl
  cases ha : aggregates[i]? with
  | none =>
    exact Or.inr ⟨getElem?_zip_of_none ha ls, getElem?_zip_of_none ha ts',
      getElem?_zip_of_none ha us'⟩
  | some a =>
    refine Or.inl ⟨(a, ls[i]), (a, u), (a, v), List.getElem?_zip_eq_some.mpr ⟨ha, hl⟩,
      List.getElem?_zip_eq_some.mpr ⟨ha, hu⟩, List.getElem?_zip_eq_some.mpr ⟨ha, hv⟩,
      fun a' ha' => ?_, fun hnone => ?_⟩
    · cases ha.symm.trans ha'
      exact (hpeers.known a ha).merge (hieee a (List.mem_of_getElem? ha)) (hpeers'.known a ha)
    · cases ha.symm.trans hnone

/-! What checked operations ask for. -/

/-- **A checked row** asks for the counts that the caller has after it. -/
theorem updateChecked (h : GroupsPeer aggregates ks ts us) (hfit : ks.Below UInt64.size) (t : Table)
    (row : Nat) :
    tryAlongside (fun a => a.updateTallyChecked t row) aggregates ts =
      ((ks.update aggregates t row).demand >>= fun _ =>
        .ok (updateTallies aggregates t row ts)) := by
  refine h.tryAlongside hfit fun i k x y hk hpeers => ?_
  cases ha : aggregates[i]? with
  | none => exact Or.inr ⟨rfl, rfl⟩
  | some a =>
    refine Or.inl ⟨a, a, rfl, rfl, ?_⟩
    obtain ⟨xs, rfl, hx, -⟩ := (hpeers.known a ha).inputs
    have hxs := hfit xs.length (List.mem_of_getElem? hk)
    rw [Aggregate.updateTallyChecked, Aggregate.updateTally]
    cases a.input? t row with
    | none =>
      rw [Option.toList_none, List.length_nil, Nat.add_zero, Tally.demandCount_of_lt hxs]
      rfl
    | some word => exact hx.updateChecked hxs word

/-- **A checked fold** asks for the counts that the caller has after it. -/
theorem mergeChecked (h : GroupsPeer aggregates ks ts us) (h' : GroupsPeer aggregates ls ts' us')
    (hlength : ks.length = ls.length) (hfit : ks.Below UInt64.size)
    (hfit' : ls.Below UInt64.size) :
    tryAlongside (fun p t => p.1.function.mergeChecked t p.2) (aggregates.zip ts') ts =
      ((ks.fold aggregates ls).demand >>= fun _ => .ok (foldTallies aggregates ts' ts)) := by
  refine h.tryAlongside hfit fun i k x y hk hpeers => ?_
  have hlt : i < ls.length := hlength ▸ (List.getElem?_eq_some_iff.mp hk).1
  have hl := List.getElem?_eq_getElem hlt
  obtain ⟨u, v, hu, hv, hpeers'⟩ := h'.each i ls[i] hl
  cases ha : aggregates[i]? with
  | none =>
    exact Or.inr ⟨getElem?_zip_of_none ha ls, getElem?_zip_of_none ha ts'⟩
  | some a =>
    refine Or.inl ⟨(a, ls[i]), (a, u), List.getElem?_zip_eq_some.mpr ⟨ha, hl⟩,
      List.getElem?_zip_eq_some.mpr ⟨ha, hu⟩, ?_⟩
    obtain ⟨xs, rfl, hx, -⟩ := (hpeers.known a ha).inputs
    obtain ⟨ys, hys, hy, -⟩ := (hpeers'.known a ha).inputs
    rw [← hys]
    exact hx.mergeChecked hy (hfit xs.length (List.mem_of_getElem? hk))
      (hys ▸ hfit' ls[i] (List.mem_of_getElem? hl))

end GroupsPeer

/-! ## States -/

section States

/-! What checked operations come to, on one side. -/

section Checked

variable {σ : Type} [LocalStates σ] {s source : σ} {o o' : Nat} {ks ls : Counts}
  {ts us ts' us' : List Tally}

/-- A checked row is a row that has asked for the counts after it. -/
theorem updateChecked_eq (hts : LocalStates.tallies s o = .ok ts)
    (h : GroupsPeer aggregates ks ts us) (hfit : ks.Below UInt64.size) (t : Table) (row : Nat) :
    LocalStates.updateChecked aggregates t row o s =
      ((ks.update aggregates t row).demand >>= fun _ =>
        LocalStates.update aggregates t row o s) := by
  rw [LocalStates.updateChecked, hts]
  show (tryAlongside _ aggregates ts >>= _) = _
  rw [h.updateChecked hfit]
  cases (ks.update aggregates t row).demand <;> rfl

/-- A checked fold is a fold that has asked for the counts after it. -/
theorem mergeChecked_eq (hts : LocalStates.tallies s o = .ok ts)
    (hts' : LocalStates.tallies source o' = .ok ts') (h : GroupsPeer aggregates ks ts us)
    (h' : GroupsPeer aggregates ls ts' us') (hlength : ks.length = ls.length)
    (hfit : ks.Below UInt64.size) (hfit' : ls.Below UInt64.size) :
    LocalStates.mergeChecked aggregates o source o' s =
      ((ks.fold aggregates ls).demand >>= fun _ =>
        LocalStates.merge aggregates o source o' s) := by
  rw [LocalStates.mergeChecked, hts, hts']
  show (tryAlongside _ (aggregates.zip ts') ts >>= _) = _
  rw [h.mergeChecked h' hlength hfit hfit']
  cases (ks.fold aggregates ls).demand <;> rfl

/-- A move asks for nothing: the group it goes to is empty. -/
theorem appendChecked_eq [LawfulStates σ] {n : Nat} {gs : Account}
    (hs : LawfulStates.Holds n s gs) (hus : LocalStates.tallies source o' = .ok us) :
    LocalStates.appendChecked aggregates source o' s =
      LocalStates.append aggregates source o' s := by
  have hempty : LocalStates.tallies (LocalStates.push s) (LocalStates.size s) =
      .ok (List.replicate n .empty) := by
    refine LawfulStates.tallies_eq (LawfulStates.holds_push hs) ?_
    rw [LawfulStates.size_eq hs, List.getElem?_concat_length]
  have hmerge : ∀ p : Aggregate × Tally, ∀ t ∈ List.replicate n Tally.empty,
      ∃ t', p.1.function.mergeChecked t p.2 = .ok t' := by
    intro p t ht
    rw [List.eq_of_mem_replicate ht]
    exact ⟨_, p.1.function.mergeChecked_empty p.2⟩
  obtain ⟨ts, hts⟩ := exists_tryAlongside_eq_ok (aggregates.zip us) _ hmerge
  rw [LocalStates.appendChecked, hempty, hus]
  show (tryAlongside _ (aggregates.zip us) (List.replicate n Tally.empty) >>= _) = _
  rw [hts]
  rfl

end Checked

variable {σ σ' : Type} [LocalStates σ] [LocalStates σ'] [LawfulStates σ] [LawfulStates σ']

variable (aggregates) in
/-- Two accounts of peers, group by group, as far as the caller may come back to them. -/
abbrev AccountsPeer (book : Book) (gs gs' : Account) : Prop :=
  Threefold (fun _ g a a' => ∀ ks, g = some ks → ∃ ts us, a = some ts ∧ a' = some us ∧
    GroupsPeer aggregates ks ts us) book.groups gs gs'

/-- Two accounts both have the tallies of a group that is live in the book. -/
theorem AccountsPeer.live {book : Book} {gs gs' : Account} (h : AccountsPeer aggregates book gs gs')
    {o : Nat} {ks : Counts} (hlive : book.live o = some ks) :
    ∃ ts us, gs[o]? = some (some ts) ∧ gs'[o]? = some (some us) ∧ GroupsPeer aggregates ks ts us := by
  obtain ⟨a, a', ha, ha', hpeers⟩ := h.each o _ (Book.live_eq_some.mp hlive)
  obtain ⟨ts, us, hts, hus, hgroup⟩ := hpeers ks rfl
  exact ⟨ts, us, hts ▸ ha, hus ▸ ha', hgroup⟩

variable (aggregates) in
/-- Two states that hold accounts of peers. -/
def StatesPeer (book : Book) (s : σ) (s' : σ') : Prop :=
  ∃ gs gs', LawfulStates.Holds book.aggregateCount s gs ∧
    LawfulStates.Holds book.aggregateCount s' gs' ∧ AccountsPeer aggregates book gs gs'

namespace StatesPeer

variable {book other : Book} {s u : σ} {s' u' : σ'} {o o' : Nat} {ks ls : Counts}

/-- New registers have no groups to disagree on. -/
theorem create (n maxGroups : Nat) :
    StatesPeer aggregates ⟨n, []⟩ (LocalStates.create n maxGroups : σ)
      (LocalStates.create n maxGroups : σ') :=
  ⟨[], [], LawfulStates.holds_create n maxGroups, LawfulStates.holds_create n maxGroups, .nil⟩

/-- **A further group** on both sides, empty. -/
theorem push (h : StatesPeer aggregates book s s') :
    StatesPeer aggregates (book.concat (List.replicate book.aggregateCount 0)) (LocalStates.push s)
      (LocalStates.push s') := by
  obtain ⟨gs, gs', hs, hs', hgroups⟩ := h
  refine ⟨_, _, LawfulStates.holds_push hs, LawfulStates.holds_push hs', hgroups.concat ?_⟩
  rintro _ ⟨⟩
  exact ⟨_, _, rfl, rfl, .empty aggregates _⟩

/-- Room that is made on either side changes no group. -/
theorem reserve (h : StatesPeer aggregates book s s') (additional : Nat) :
    StatesPeer aggregates book (LocalStates.reserve additional s)
      (LocalStates.reserve additional s') := by
  obtain ⟨gs, gs', hs, hs', hgroups⟩ := h
  exact ⟨gs, gs', LawfulStates.holds_reserve additional hs,
    LawfulStates.holds_reserve additional hs', hgroups⟩

/-- What two states hold of a group that is live. -/
theorem live (h : StatesPeer aggregates book s s') (hlive : book.live o = some ks) :
    ∃ ts us, LocalStates.tallies s o = .ok ts ∧ LocalStates.tallies s' o = .ok us ∧
      GroupsPeer aggregates ks ts us ∧ ks.length = book.aggregateCount := by
  obtain ⟨gs, gs', hs, hs', hgroups⟩ := h
  obtain ⟨ts, us, ha, ha', hpeers⟩ := hgroups.live hlive
  exact ⟨ts, us, LawfulStates.tallies_eq hs ha, LawfulStates.tallies_eq hs' ha', hpeers,
    hpeers.left.symm.trans (LawfulStates.length_eq hs ha)⟩

/-- A checked row asks the same of both sides. -/
theorem updateChecked (h : StatesPeer aggregates book s s') (hlive : book.live o = some ks)
    (hfit : ks.Below UInt64.size) (t : Table) (row : Nat) :
    LocalStates.updateChecked aggregates t row o s = ((ks.update aggregates t row).demand >>=
        fun _ => LocalStates.update aggregates t row o s) ∧
      LocalStates.updateChecked aggregates t row o s' = ((ks.update aggregates t row).demand >>=
        fun _ => LocalStates.update aggregates t row o s') := by
  obtain ⟨ts, us, hts, hus, hpeers, -⟩ := h.live hlive
  exact ⟨updateChecked_eq hts hpeers hfit t row, updateChecked_eq hus hpeers.symm hfit t row⟩

/-- A checked fold asks the same of both sides. -/
theorem mergeChecked (h : StatesPeer aggregates book s s') (hlive : book.live o = some ks)
    (h' : StatesPeer aggregates other u u') (hlive' : other.live o' = some ls)
    (hcount : book.aggregateCount = other.aggregateCount) (hfit : ks.Below UInt64.size)
    (hfit' : ls.Below UInt64.size) :
    LocalStates.mergeChecked aggregates o u o' s = ((ks.fold aggregates ls).demand >>=
        fun _ => LocalStates.merge aggregates o u o' s) ∧
      LocalStates.mergeChecked aggregates o u' o' s' = ((ks.fold aggregates ls).demand >>=
        fun _ => LocalStates.merge aggregates o u' o' s') := by
  obtain ⟨ts, us, hts, hus, hpeers, hks⟩ := h.live hlive
  obtain ⟨ts', us', hts', hus', hpeers', hls⟩ := h'.live hlive'
  have hlength : ks.length = ls.length := hks.trans (hcount.trans hls.symm)
  exact ⟨mergeChecked_eq hts hts' hpeers hpeers' hlength hfit hfit',
    mergeChecked_eq hus hus' hpeers.symm hpeers'.symm hlength hfit hfit'⟩

variable (hieee : ∀ a ∈ aggregates, a.function.AddsFloats → FloatAddition.IsIEEE)

include hieee in
/-- **A row** goes through on both sides. -/
theorem update (h : StatesPeer aggregates book s s') (hlive : book.live o = some ks) (t : Table)
    (row : Nat) :
    ∃ s₁ s₁', LocalStates.update aggregates t row o s = .ok s₁ ∧
      LocalStates.update aggregates t row o s' = .ok s₁' ∧
      StatesPeer aggregates (book.put o (some (ks.update aggregates t row))) s₁ s₁' := by
  obtain ⟨gs, gs', hs, hs', hgroups⟩ := h
  obtain ⟨ts, us, ha, ha', hpeers⟩ := hgroups.live hlive
  obtain ⟨s₁, hs₁, hholds⟩ := LawfulStates.holds_update aggregates t row hs ha
  obtain ⟨s₁', hs₁', hholds'⟩ := LawfulStates.holds_update aggregates t row hs' ha'
  refine ⟨s₁, s₁', hs₁, hs₁', _, _, hholds, hholds', hgroups.set ?_⟩
  rintro _ ⟨⟩
  exact ⟨_, _, rfl, rfl, hpeers.update hieee t row⟩

include hieee in
/-- **A fold** goes through on both sides. -/
theorem merge (h : StatesPeer aggregates book s s') (hlive : book.live o = some ks)
    (h' : StatesPeer aggregates other u u') (hlive' : other.live o' = some ls)
    (hcount : book.aggregateCount = other.aggregateCount) :
    ∃ s₁ s₁', LocalStates.merge aggregates o u o' s = .ok s₁ ∧
      LocalStates.merge aggregates o u' o' s' = .ok s₁' ∧
      StatesPeer aggregates (book.put o (some (ks.fold aggregates ls))) s₁ s₁' := by
  obtain ⟨-, -, -, -, -, hks⟩ := h.live hlive
  obtain ⟨-, -, -, -, -, hls⟩ := h'.live hlive'
  obtain ⟨gs, gs', hs, hs', hgroups⟩ := h
  obtain ⟨ts, us, ha, ha', hpeers⟩ := hgroups.live hlive
  obtain ⟨fs, fs', hu, hu', hsources⟩ := h'
  obtain ⟨ts', us', hb, hb', hpeers'⟩ := hsources.live hlive'
  rw [← hcount] at hu hu'
  obtain ⟨s₁, hs₁, hholds⟩ := LawfulStates.holds_merge aggregates hs ha hu hb
  obtain ⟨s₁', hs₁', hholds'⟩ := LawfulStates.holds_merge aggregates hs' ha' hu' hb'
  refine ⟨s₁, s₁', hs₁, hs₁', _, _, hholds, hholds', hgroups.set ?_⟩
  rintro _ ⟨⟩
  exact ⟨_, _, rfl, rfl, hpeers.fold hieee hpeers' (hks.trans (hcount.trans hls.symm))⟩

include hieee in
/-- **A move** goes through on both sides, and gets the same ordinal. -/
theorem append (h : StatesPeer aggregates book s s') (h' : StatesPeer aggregates other u u')
    (hlive : other.live o = some ls) (hcount : book.aggregateCount = other.aggregateCount)
    (hfit : ls.Below UInt64.size) :
    ∃ s₁ u₁ s₁' u₁',
      LocalStates.appendChecked aggregates u o s = .ok (book.groups.length, s₁, u₁) ∧
      LocalStates.appendChecked aggregates u' o s' = .ok (book.groups.length, s₁', u₁') ∧
      StatesPeer aggregates (book.concat ls) s₁ s₁' ∧
      StatesPeer aggregates (other.put o none) u₁ u₁' := by
  obtain ⟨_, _, hmoved, hmoved', -, hls⟩ := h'.live hlive
  obtain ⟨gs, gs', hs, hs', hgroups⟩ := h
  rw [appendChecked_eq hs hmoved, appendChecked_eq hs' hmoved']
  obtain ⟨fs, fs', hu, hu', hsources⟩ := h'
  obtain ⟨ts, us, hb, hb', hpeers⟩ := hsources.live hlive
  rw [← hcount] at hu hu' hls
  obtain ⟨s₁, u₁, ts', hs₁, hholds, hsource, hts⟩ := LawfulStates.holds_append aggregates hs hu hb
  obtain ⟨s₁', u₁', us', hs₁', hholds', hsource', hus⟩ :=
    LawfulStates.holds_append aggregates hs' hu' hb'
  rw [hgroups.left] at hs₁
  rw [hgroups.right] at hs₁'
  refine ⟨s₁, u₁, s₁', u₁', hs₁, hs₁', ⟨_, _, hholds, hholds', hgroups.concat ?_⟩,
    ⟨_, _, hcount ▸ hsource, hcount ▸ hsource', hsources.set nofun⟩⟩
  rintro _ ⟨⟩
  exact ⟨_, _, rfl, rfl, hpeers.moved hieee hfit hls hts hus⟩

/-- **Moving a group out** goes through on both sides, and hands over peers. -/
theorem take (h : StatesPeer aggregates book s s') (hlive : book.live o = some ks) :
    ∃ ts us s₁ s₁', LocalStates.take o s = .ok (ts.map .ofTally, s₁) ∧
      LocalStates.take o s' = .ok (us.map .ofTally, s₁') ∧ GroupsPeer aggregates ks ts us ∧
      StatesPeer aggregates (book.put o none) s₁ s₁' := by
  obtain ⟨gs, gs', hs, hs', hgroups⟩ := h
  obtain ⟨ts, us, ha, ha', hpeers⟩ := hgroups.live hlive
  obtain ⟨s₁, hs₁, hholds⟩ := LawfulStates.holds_take hs ha
  obtain ⟨s₁', hs₁', hholds'⟩ := LawfulStates.holds_take hs' ha'
  exact ⟨ts, us, s₁, s₁', hs₁, hs₁', hpeers, _, _, hholds, hholds', hgroups.set nofun⟩

/-- **Peers agree.** -/
theorem agree (h : StatesPeer aggregates book s s') : StatesAgree aggregates book s s' := by
  refine ⟨?_, ?_, fun o ks hlive i hi => ?_⟩
  · obtain ⟨gs, gs', hs, -, hgroups⟩ := h
    exact (LawfulStates.size_eq hs).trans hgroups.left
  · obtain ⟨gs, gs', -, hs', hgroups⟩ := h
    exact (LawfulStates.size_eq hs').trans hgroups.right
  · obtain ⟨ts, us, hts, hus, hpeers, hlength⟩ := h.live hlive
    have hlt : i < ks.length := hlength ▸ hi
    obtain ⟨x, y, hx, hy, hat⟩ := hpeers.each i ks[i] (List.getElem?_eq_getElem hlt)
    refine ⟨x, y, ?_, ?_, hat.agree⟩
    · simp only [LocalStates.load, hts, bind, Except.bind, hx]
    · simp only [LocalStates.load, hus, bind, Except.bind, hy]

end StatesPeer

end States
end Cohort
