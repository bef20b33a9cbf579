import Cohort.States.Layout
/-
  What a layout of states HOLDS, and that all three layouts agree on it.

  1. **Reference.**  An `Account` lists the groups by ordinal: the tallies of a group, or `none`
     once the group was moved out.  It promises nothing about groups that were moved out, so whoever
     relies on an account never comes back to one.

  2. **Laws.**  `LawfulStates` says for every operation of a layout what becomes of the account, and
     that the operation succeeds.  Later proofs use these laws alone and open no layout.

  3. **Instances.**  A layout is described by how it reads one group by its ordinal (`Reads`), so an
     operation is described by the one ordinal at which it reads differently afterwards.
-/

namespace Cohort

/-! ## Walking over two lists side by side -/

section Alongside

variable {α β γ : Type}

/-- A view of the second list that each change respects sees the same walk. -/
theorem map_alongside {change : α → β → β} {change' : α → γ → γ} {view : β → γ}
    (h : ∀ a b, view (change a b) = change' a (view b)) :
    ∀ (as : List α) (bs : List β), (alongside change as bs).map view =
      alongside change' as (bs.map view)
  | [], _ => rfl
  | _ :: _, [] => rfl
  | a :: as, b :: bs => by
    simp only [alongside, List.map_cons, h, map_alongside h as bs]

theorem alongside_id : ∀ (as : List α) (bs : List β), alongside (fun _ b => b) as bs = bs
  | [], _ => rfl
  | _ :: _, [] => rfl
  | _ :: as, b :: bs => congrArg (b :: ·) (alongside_id as bs)

theorem alongside_map_left (change : γ → β → β) (view : α → γ) :
    ∀ (as : List α) (bs : List β),
      alongside change (as.map view) bs = alongside (fun a b => change (view a) b) as bs
  | [], _ => rfl
  | _ :: _, [] => rfl
  | a :: as, b :: bs => congrArg (change (view a) b :: ·) (alongside_map_left change view as bs)

/-- A walk over what a list shows changes each member by itself. -/
theorem alongside_map_self (change : α → β → β) (view : α → β) :
    ∀ as : List α, alongside change as (as.map view) = as.map fun a => change a (view a)
  | [] => rfl
  | a :: as => congrArg (change a (view a) :: ·) (alongside_map_self change view as)

/-- A walk changes each member by the one at its place. -/
theorem getElem?_alongside {change : α → β → β} {as : List α} {bs : List β} {i : Nat} {a : α}
    {b : β} (ha : as[i]? = some a) (hb : bs[i]? = some b) :
    (alongside change as bs)[i]? = some (change a b) := by
  induction as generalizing bs i with
  | nil => cases ha
  | cons a' as ih =>
    cases bs with
    | nil => cases hb
    | cons b' bs =>
      cases i with
      | zero =>
        cases ha
        cases hb
        rfl
      | succ i => exact ih ha hb

/-- A walk leaves what it does not come to. -/
theorem getElem?_alongside_of_none {change : α → β → β} {as : List α} {bs : List β} {i : Nat}
    (ha : as[i]? = none) : (alongside change as bs)[i]? = bs[i]? := by
  induction as generalizing bs i with
  | nil => rfl
  | cons a as ih =>
    cases bs with
    | nil => rfl
    | cons b bs =>
      cases i with
      | zero => cases ha
      | succ i => exact ih ha

/-- A member after a walk was there before, or was changed by the one at its place. -/
theorem mem_alongside {change : α → β → β} {as : List α} {bs : List β} {c : β}
    (h : c ∈ alongside change as bs) : c ∈ bs ∨ ∃ a ∈ as, ∃ b ∈ bs, c = change a b := by
  induction as generalizing bs with
  | nil => exact Or.inl h
  | cons a as ih =>
    cases bs with
    | nil => exact Or.inl h
    | cons b bs =>
      rcases List.mem_cons.mp h with rfl | h
      · exact Or.inr ⟨a, List.mem_cons_self, b, List.mem_cons_self, rfl⟩
      · rcases ih h with hc | ⟨a', ha', b', hb', rfl⟩
        · exact Or.inl (List.mem_cons_of_mem b hc)
        · exact Or.inr ⟨a', List.mem_cons_of_mem a ha', b', List.mem_cons_of_mem b hb', rfl⟩

/-- A walk whose every change succeeds succeeds. -/
theorem exists_tryAlongside_eq_ok {change : α → β → Except Error β} :
    ∀ (as : List α) (bs : List β), (∀ a, ∀ b ∈ bs, ∃ b', change a b = .ok b') →
      ∃ bs', tryAlongside change as bs = .ok bs'
  | [], bs, _ => ⟨bs, rfl⟩
  | _ :: _, [], _ => ⟨[], rfl⟩
  | a :: as, b :: bs, h => by
    obtain ⟨b', hb⟩ := h a b List.mem_cons_self
    obtain ⟨bs', hbs⟩ := exists_tryAlongside_eq_ok as bs fun a c hc =>
      h a c (List.mem_cons_of_mem b hc)
    exact ⟨b' :: bs', by rw [tryAlongside, hb, hbs]; rfl⟩

/-- A walk that succeeded did, as far as a view sees, what the changes do. -/
theorem map_of_tryAlongside {change : α → β → Except Error β} {change' : α → γ → γ} {view : β → γ}
    (h : ∀ a b b', change a b = .ok b' → view b' = change' a (view b)) :
    ∀ {as : List α} {bs bs' : List β}, tryAlongside change as bs = .ok bs' →
      bs'.map view = alongside change' as (bs.map view)
  | [], _, _, hbs => by cases hbs; rfl
  | _ :: _, [], _, hbs => by cases hbs; rfl
  | a :: as, b :: bs, bs', hbs => by
    rw [tryAlongside] at hbs
    cases hb : change a b with
    | error e => rw [hb] at hbs; cases hbs
    | ok b' =>
      cases htail : tryAlongside change as bs with
      | error e => rw [hb, htail] at hbs; cases hbs
      | ok tail =>
        rw [hb, htail] at hbs
        cases hbs
        simp only [alongside, List.map_cons, h a b b' hb, map_of_tryAlongside h htail]

end Alongside

/-! ## Accounts -/

/-- The tallies of every group, `none` for a group that was moved out. -/
abbrev Account := List (Option (List Tally))

section Tallies

variable [FloatAddition]

/-- The tallies of a group after a row. -/
def updateTallies (aggregates : List Aggregate) (t : Table) (row : Nat) (tallies : List Tally) :
    List Tally :=
  alongside (fun a => a.updateTally t row) aggregates tallies

/-- The tallies of a group after those of another one were folded in. -/
def foldTallies (aggregates : List Aggregate) (others tallies : List Tally) : List Tally :=
  alongside (fun p t => p.1.function.merge t p.2) (aggregates.zip others) tallies

/-- A row updates the tally of every aggregate. -/
theorem updateTallies_map (aggregates : List Aggregate) (t : Table) (row : Nat)
    (tally : Aggregate → Tally) :
    updateTallies aggregates t row (aggregates.map tally) =
      aggregates.map fun a => a.updateTally t row (tally a) :=
  alongside_map_self _ tally aggregates

/-- A fold merges the tallies of every aggregate. -/
theorem foldTallies_map (aggregates : List Aggregate) (other tally : Aggregate → Tally) :
    foldTallies aggregates (aggregates.map other) (aggregates.map tally) =
      aggregates.map fun a => a.function.merge (tally a) (other a) := by
  rw [foldTallies, List.zip_map_right, alongside_map_left]
  induction aggregates with
  | nil => rfl
  | cons a as ih => exact congrArg (a.function.merge (tally a) (other a) :: ·) ih

/-- A fold merges tallies at the same place. -/
theorem getElem?_foldTallies {aggregates : List Aggregate} {others tallies : List Tally} {i : Nat}
    {a : Aggregate} {t u : Tally} (ha : aggregates[i]? = some a) (hu : others[i]? = some u)
    (ht : tallies[i]? = some t) :
    (foldTallies aggregates others tallies)[i]? = some (a.function.merge t u) := by
  have hpair : (aggregates.zip others)[i]? = some (a, u) :=
    List.getElem?_zip_eq_some.mpr ⟨ha, hu⟩
  exact getElem?_alongside hpair ht

theorem length_updateTallies (aggregates : List Aggregate) (t : Table) (row : Nat)
    (tallies : List Tally) :
    (updateTallies aggregates t row tallies).length = tallies.length :=
  length_alongside _ _ _

theorem length_foldTallies (aggregates : List Aggregate) (others tallies : List Tally) :
    (foldTallies aggregates others tallies).length = tallies.length :=
  length_alongside _ _ _

end Tallies

/-- The laws of a layout, for states of `n` aggregates. -/
class LawfulStates (σ : Type) [FloatAddition] [LocalStates σ] where
  /-- Whether states hold the groups of an account. -/
  Holds : (n : Nat) → σ → Account → Prop
  holds_create (n maxGroups : Nat) : Holds n (LocalStates.create n maxGroups) []
  size_eq {n : Nat} {s : σ} {gs : Account} : Holds n s gs → LocalStates.size s = gs.length
  tallies_eq {n : Nat} {s : σ} {gs : Account} {o : Nat} {ts : List Tally} :
    Holds n s gs → gs[o]? = some (some ts) → LocalStates.tallies s o = .ok ts
  length_eq {n : Nat} {s : σ} {gs : Account} {o : Nat} {ts : List Tally} :
    Holds n s gs → gs[o]? = some (some ts) → ts.length = n
  holds_push {n : Nat} {s : σ} {gs : Account} :
    Holds n s gs → Holds n (LocalStates.push s) (gs ++ [some (List.replicate n .empty)])
  holds_reserve {n : Nat} {s : σ} {gs : Account} (additional : Nat) :
    Holds n s gs → Holds n (LocalStates.reserve additional s) gs
  holds_update {n : Nat} {s : σ} {gs : Account} {o : Nat} {ts : List Tally}
    (aggregates : List Aggregate) (t : Table) (row : Nat) :
    Holds n s gs → gs[o]? = some (some ts) →
      ∃ s', LocalStates.update aggregates t row o s = .ok s' ∧
        Holds n s' (gs.set o (some (updateTallies aggregates t row ts)))
  holds_merge {n : Nat} {s source : σ} {gs gs' : Account} {o o' : Nat} {ts us : List Tally}
    (aggregates : List Aggregate) :
    Holds n s gs → gs[o]? = some (some ts) → Holds n source gs' → gs'[o']? = some (some us) →
      ∃ s', LocalStates.merge aggregates o source o' s = .ok s' ∧
        Holds n s' (gs.set o (some (foldTallies aggregates us ts)))
  /-- A group is moved as it is, or folded into an empty one. -/
  holds_append {n : Nat} {s source : σ} {gs gs' : Account} {o' : Nat} {us : List Tally}
    (aggregates : List Aggregate) :
    Holds n s gs → Holds n source gs' → gs'[o']? = some (some us) →
      ∃ s' source' us', LocalStates.append aggregates source o' s = .ok (gs.length, s', source') ∧
        Holds n s' (gs ++ [some us']) ∧ Holds n source' (gs'.set o' none) ∧
        (us' = us ∨ us' = foldTallies aggregates us (List.replicate n .empty))
  holds_take {n : Nat} {s : σ} {gs : Account} {o : Nat} {ts : List Tally} :
    Holds n s gs → gs[o]? = some (some ts) →
      ∃ s', LocalStates.take o s = .ok (ts.map .ofTally, s') ∧ Holds n s' (gs.set o none)

/-! ## Accounts by a function from ordinals -/

/-- What an account says of `groups` groups, of which `read` reads one by its ordinal and sees the
    tallies `ts` as `seen ts`. -/
structure Reads {γ : Type} (seen : List Tally → γ) (n groups : Nat) (read : Nat → γ)
    (gs : Account) : Prop where
  size : groups = gs.length
  shown : ∀ o ts, gs[o]? = some (some ts) → read o = seen ts ∧ ts.length = n

namespace Reads

variable {γ : Type} {seen : List Tally → γ} {n groups : Nat} {read read' : Nat → γ} {gs : Account}

/-- An account is of groups that are there. -/
theorem lt_size {o : Nat} {g : Option (List Tally)} (h : Reads seen n groups read gs)
    (ho : gs[o]? = some g) : o < groups :=
  h.size ▸ (List.getElem?_eq_some_iff.mp ho).1

/-- A group is added. -/
theorem concat (h : Reads seen n groups read gs) {ts : List Tally} (hlen : ts.length = n)
    (hself : read' groups = seen ts) (hother : ∀ o, o < groups → read' o = read o) :
    Reads seen n (groups + 1) read' (gs ++ [some ts]) := by
  refine ⟨by rw [h.size, List.length_append]; rfl, fun o ts' ho => ?_⟩
  rcases Nat.lt_trichotomy o gs.length with hlt | heq | hgt
  · rw [List.getElem?_append_left hlt] at ho
    rw [hother o (h.size ▸ hlt)]
    exact h.shown o ts' ho
  · subst heq
    rw [List.getElem?_concat_length] at ho
    cases ho
    exact ⟨h.size ▸ hself, hlen⟩
  · rw [List.getElem?_eq_none (by rw [List.length_append]; exact hgt)] at ho
    cases ho

/-- One group changes. -/
theorem change (h : Reads seen n groups read gs) {o : Nat} {ts : List Tally}
    (hlen : ts.length = n) (hself : read' o = seen ts)
    (hother : ∀ o', o ≠ o' → read' o' = read o') :
    Reads seen n groups read' (gs.set o (some ts)) := by
  refine ⟨by rw [h.size, List.length_set], fun o' ts' ho' => ?_⟩
  by_cases heq : o = o'
  · subst heq
    rw [List.getElem?_set, if_pos rfl] at ho'
    split at ho'
    · cases ho'; exact ⟨hself, hlen⟩
    · cases ho'
  · rw [List.getElem?_set_ne heq] at ho'
    rw [hother o' heq]
    exact h.shown o' ts' ho'

/-- One group is moved out. -/
theorem forget (h : Reads seen n groups read gs) {o : Nat}
    (hother : ∀ o', o ≠ o' → read' o' = read o') :
    Reads seen n groups read' (gs.set o none) := by
  refine ⟨by rw [h.size, List.length_set], fun o' ts' ho' => ?_⟩
  by_cases heq : o = o'
  · subst heq
    rw [List.getElem?_set, if_pos rfl] at ho'
    split at ho' <;> cases ho'
  · rw [List.getElem?_set_ne heq] at ho'
    rw [hother o' heq]
    exact h.shown o' ts' ho'

end Reads

end Cohort
