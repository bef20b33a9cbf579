import Mathlib.Algebra.Group.Nat.Defs
import Cohort.Proofs.Aggregate.Checked
import Cohort.Proofs.Aggregate.Peers
import Cohort.Proofs.States.Lawful
/-
  PROGRAMS of operations on states, and what it means that layouts are INTERCHANGEABLE in them.

  1. **Machines.**  A `Machine` has registers with states of one layout and arrays of buckets that
     groups were moved out into.  It carries out any operation on what the operation names, with
     checked counts, and fails only where the layout or a count does.

  2. **Books.**  Which operations are in order is up to the caller, and does not depend on the
     layout: the caller keeps `Books` on how many inputs every group has taken in, and on which
     groups were moved out.  A program is in order if its books can be kept.

  3. **Counts.**  A count is a word in a tally and a number in the books.  The counts of a program
     FIT if all the numbers in its books are words.  An operation doubles them at most, so those of
     a short program do (`countsFit_of_length_le`).

  4. **Agreement.**  Machines agree after a program if they have got through it and answer alike to
     everything that the caller can ask for, and layouts are `Interchangeable` in a program if all
     machines agree after every part of it.  Machines stop alike if the same count stops all of them.
-/

namespace Cohort

/-- An operation on states in registers and on arrays of shared buckets, all of them by number. -/
inductive Operation
  /-- A further register, with states without groups. -/
  | create (aggregateCount maxGroups : Nat)
  /-- A further group, empty. -/
  | push (register : Nat)
  /-- Fold a row into a group. -/
  | update (register : Nat) (t : Table) (row ordinal : Nat)
  /-- Fold a group of another register into a group. -/
  | merge (register ordinal source sourceOrdinal : Nat)
  /-- Move a group of another register into a further group. -/
  | append (register source sourceOrdinal : Nat)
  /-- Make room for further groups. -/
  | reserve (register additional : Nat)
  /-- Move a group out into a further array of shared buckets. -/
  | take (register ordinal : Nat)
  /-- Fold a group into an array of shared buckets. -/
  | mergeInto (register ordinal array : Nat)

/-! ## Machines -/

/-- What operations work on, in one layout. -/
structure Machine (σ : Type) where
  registers : List σ := []
  shared : List (List Bucket) := []
  /-- The ordinals that appended groups have got, in the order of the appends. -/
  appended : List Nat := []

namespace Machine

variable {σ : Type}

/-- The states in a register. -/
def states (m : Machine σ) (register : Nat) : Except Error σ :=
  match m.registers[register]? with
  | some s => .ok s
  | none => .error (.outOfRange register m.registers.length)

/-- The buckets of an array. -/
def buckets (m : Machine σ) (array : Nat) : Except Error (List Bucket) :=
  match m.shared[array]? with
  | some bs => .ok bs
  | none => .error (.outOfRange array m.shared.length)

/-- Other states for a register. -/
def put (m : Machine σ) (register : Nat) (s : σ) : Machine σ :=
  { m with registers := m.registers.set register s }

variable [LocalStates σ] [FloatAddition] (aggregates : List Aggregate)

/-- Carry out one operation. -/
def step (m : Machine σ) : Operation → Except Error (Machine σ)
  | .create n maxGroups =>
    .ok { m with registers := m.registers ++ [LocalStates.create n maxGroups] }
  | .push r => do
    let s ← m.states r
    return m.put r (LocalStates.push s)
  | .update r t row o => do
    let s ← m.states r
    let s ← LocalStates.updateChecked aggregates t row o s
    return m.put r s
  | .merge r o r' o' => do
    let s ← m.states r
    let source ← m.states r'
    let s ← LocalStates.mergeChecked aggregates o source o' s
    return m.put r s
  | .append r r' o' => do
    let s ← m.states r
    let source ← m.states r'
    let (o, s, source) ← LocalStates.appendChecked aggregates source o' s
    return { (m.put r s).put r' source with appended := m.appended ++ [o] }
  | .reserve r additional => do
    let s ← m.states r
    return m.put r (LocalStates.reserve additional s)
  | .take r o => do
    let s ← m.states r
    let (bs, s) ← LocalStates.take o s
    return { m.put r s with shared := m.shared ++ [bs] }
  | .mergeInto r o array => do
    let s ← m.states r
    let bs ← m.buckets array
    let bs ← LocalStates.mergeInto aggregates o s bs
    return { m with shared := m.shared.set array bs }

/-- Carry out a program, from the start. -/
def run (program : List Operation) : Except Error (Machine σ) :=
  program.foldlM (step aggregates) {}

/-! What an operation does where the layout does not fail, and where a count does. -/

section Steps

variable {aggregates} {m : Machine σ} {r r' o o' array : Nat} {s s₁ source source₁ : σ}

omit [LocalStates σ] [FloatAddition] in
theorem states_eq (h : m.registers[r]? = some s) : m.states r = .ok s := by
  rw [states, h]

omit [LocalStates σ] [FloatAddition] in
theorem buckets_eq {bs : List Bucket} (h : m.shared[array]? = some bs) :
    m.buckets array = .ok bs := by
  rw [buckets, h]

/-- A further group. -/
theorem step_push (hs : m.registers[r]? = some s) :
    m.step aggregates (.push r) = .ok (m.put r (LocalStates.push s)) := by
  rw [step, states_eq hs]
  rfl

/-- A row folded into a group, or a count that no word can hold. -/
theorem step_update {t : Table} {row : Nat} (hs : m.registers[r]? = some s) :
    m.step aggregates (.update r t row o) =
      (LocalStates.updateChecked aggregates t row o s).map (m.put r) := by
  rw [step, states_eq hs]
  dsimp only [bind, Except.bind]
  cases LocalStates.updateChecked aggregates t row o s <;> rfl

/-- A group folded into a group, or a count that no word can hold. -/
theorem step_merge (hs : m.registers[r]? = some s) (hsource : m.registers[r']? = some source) :
    m.step aggregates (.merge r o r' o') =
      (LocalStates.mergeChecked aggregates o source o' s).map (m.put r) := by
  rw [step, states_eq hs, states_eq hsource]
  dsimp only [bind, Except.bind]
  cases LocalStates.mergeChecked aggregates o source o' s <;> rfl

/-- A group moved into a further group of another register. -/
theorem step_append (hs : m.registers[r]? = some s) (hsource : m.registers[r']? = some source)
    (h : LocalStates.appendChecked aggregates source o' s = .ok (o, s₁, source₁)) :
    m.step aggregates (.append r r' o') =
      .ok { (m.put r s₁).put r' source₁ with appended := m.appended ++ [o] } := by
  rw [step, states_eq hs, states_eq hsource]
  dsimp only [bind, Except.bind]
  rw [h]
  rfl

/-- Room for further groups. -/
theorem step_reserve (hs : m.registers[r]? = some s) (additional : Nat) :
    m.step aggregates (.reserve r additional) =
      .ok (m.put r (LocalStates.reserve additional s)) := by
  rw [step, states_eq hs]
  rfl

/-- A group moved out into a further array. -/
theorem step_take {bs : List Bucket} (hs : m.registers[r]? = some s)
    (h : LocalStates.take o s = .ok (bs, s₁)) :
    m.step aggregates (.take r o) = .ok { m.put r s₁ with shared := m.shared ++ [bs] } := by
  rw [step, states_eq hs]
  dsimp only [bind, Except.bind]
  rw [h]
  rfl

/-- A group folded into an array. -/
theorem step_mergeInto {bs bs₁ : List Bucket} (hs : m.registers[r]? = some s)
    (hbs : m.shared[array]? = some bs) (h : LocalStates.mergeInto aggregates o s bs = .ok bs₁) :
    m.step aggregates (.mergeInto r o array) =
      .ok { m with shared := m.shared.set array bs₁ } := by
  rw [step, states_eq hs, buckets_eq hbs]
  dsimp only [bind, Except.bind]
  rw [h]
  rfl

end Steps

end Machine

/-! ## Books -/

/-- How many inputs each aggregate of a group has taken in. -/
abbrev Counts := List Nat

/-- The counts of a group after a row. -/
def Counts.update (aggregates : List Aggregate) (t : Table) (row : Nat) (ks : Counts) : Counts :=
  alongside (fun a k => k + (a.input? t row).toList.length) aggregates ks

/-- The counts of a group after another one was folded in. -/
def Counts.fold (aggregates : List Aggregate) (ks ls : Counts) : Counts :=
  alongside (fun p k => k + p.2) (aggregates.zip ls) ks

/-- What a caller knows of the states in a register. -/
structure Book where
  aggregateCount : Nat
  /-- The counts of every group, `none` for a group that was moved out. -/
  groups : List (Option Counts)

namespace Book

/-- The counts of a group that was not moved out. -/
def live (book : Book) (ordinal : Nat) : Option Counts := (book.groups[ordinal]?).join

/-- A further group. -/
def concat (book : Book) (ks : Counts) : Book := { book with groups := book.groups ++ [some ks] }

/-- Other counts for a group, or none any more. -/
def put (book : Book) (ordinal : Nat) (g : Option Counts) : Book :=
  { book with groups := book.groups.set ordinal g }

end Book

/-- What a caller knows of a machine. -/
structure Books where
  registers : List Book := []
  /-- The counts of every array of shared buckets. -/
  shared : List Counts := []

namespace Books

/-- Another book for a register. -/
def put (b : Books) (register : Nat) (book : Book) : Books :=
  { b with registers := b.registers.set register book }

variable (aggregates : List Aggregate)

/-- Keep the books on one operation, if it is in order: what it names is there and was not moved
    out, and where two sides take part they are different registers with as many aggregates. -/
def step (b : Books) : Operation → Option Books
  | .create n _ => some { b with registers := b.registers ++ [⟨n, []⟩] }
  | .push r => do
    let book ← b.registers[r]?
    return b.put r (book.concat (List.replicate book.aggregateCount 0))
  | .update r t row o => do
    let book ← b.registers[r]?
    let ks ← book.live o
    return b.put r (book.put o (some (ks.update aggregates t row)))
  | .merge r o r' o' => do
    let book ← b.registers[r]?
    let source ← b.registers[r']?
    let ks ← book.live o
    let ls ← source.live o'
    if r ≠ r' ∧ book.aggregateCount = source.aggregateCount then
      return b.put r (book.put o (some (ks.fold aggregates ls)))
    else none
  | .append r r' o' => do
    let book ← b.registers[r]?
    let source ← b.registers[r']?
    let ls ← source.live o'
    if r ≠ r' ∧ book.aggregateCount = source.aggregateCount then
      return (b.put r (book.concat ls)).put r' (source.put o' none)
    else none
  | .reserve r _ => do
    let _ ← b.registers[r]?
    return b
  | .take r o => do
    let book ← b.registers[r]?
    let ks ← book.live o
    return { b.put r (book.put o none) with shared := b.shared ++ [ks] }
  | .mergeInto r o array => do
    let book ← b.registers[r]?
    let ks ← book.live o
    let ls ← b.shared[array]?
    if ls.length = ks.length then
      return { b with shared := b.shared.set array (ls.fold aggregates ks) }
    else none

/-- Keep the books on a program, from the start. -/
def run (program : List Operation) : Option Books := program.foldlM (step aggregates) {}

/-! What an operation that is in order finds, and what becomes of the books. -/

section Orders

variable {aggregates} {b b' : Books} {r r' o o' : Nat}

/-- A push finds a register. -/
theorem step_push : b.step aggregates (.push r) = some b' ↔
    ∃ book, b.registers[r]? = some book ∧
      b.put r (book.concat (List.replicate book.aggregateCount 0)) = b' := by
  simp only [step, Option.bind_eq_bind, Option.bind_eq_some_iff, Option.pure_def,
    Option.some.injEq]

/-- An update finds a group that was not moved out. -/
theorem step_update {t : Table} {row : Nat} : b.step aggregates (.update r t row o) = some b' ↔
    ∃ book, b.registers[r]? = some book ∧ ∃ ks, book.live o = some ks ∧
      b.put r (book.put o (some (ks.update aggregates t row))) = b' := by
  simp only [step, Option.bind_eq_bind, Option.bind_eq_some_iff, Option.pure_def,
    Option.some.injEq]

/-- A merge finds two such groups, in different registers with as many aggregates. -/
theorem step_merge : b.step aggregates (.merge r o r' o') = some b' ↔
    ∃ book, b.registers[r]? = some book ∧ ∃ source, b.registers[r']? = some source ∧
      ∃ ks, book.live o = some ks ∧ ∃ ls, source.live o' = some ls ∧
        (r ≠ r' ∧ book.aggregateCount = source.aggregateCount) ∧
        b.put r (book.put o (some (ks.fold aggregates ls))) = b' := by
  simp only [step, Option.bind_eq_bind, Option.bind_eq_some_iff, Option.pure_def,
    Option.ite_none_right_eq_some, Option.some.injEq]

/-- An append finds a group to move, and another register with as many aggregates. -/
theorem step_append : b.step aggregates (.append r r' o') = some b' ↔
    ∃ book, b.registers[r]? = some book ∧ ∃ source, b.registers[r']? = some source ∧
      ∃ ls, source.live o' = some ls ∧
        (r ≠ r' ∧ book.aggregateCount = source.aggregateCount) ∧
        (b.put r (book.concat ls)).put r' (source.put o' none) = b' := by
  simp only [step, Option.bind_eq_bind, Option.bind_eq_some_iff, Option.pure_def,
    Option.ite_none_right_eq_some, Option.some.injEq]

theorem step_reserve {additional : Nat} : b.step aggregates (.reserve r additional) = some b' ↔
    ∃ book, b.registers[r]? = some book ∧ b = b' := by
  simp only [step, Option.bind_eq_bind, Option.bind_eq_some_iff, Option.pure_def,
    Option.some.injEq]

/-- A group that is taken was not moved out before. -/
theorem step_take : b.step aggregates (.take r o) = some b' ↔
    ∃ book, b.registers[r]? = some book ∧ ∃ ks, book.live o = some ks ∧
      { b.put r (book.put o none) with shared := b.shared ++ [ks] } = b' := by
  simp only [step, Option.bind_eq_bind, Option.bind_eq_some_iff, Option.pure_def,
    Option.some.injEq]

/-- A merge into an array finds as many buckets there as the group has tallies. -/
theorem step_mergeInto {array : Nat} : b.step aggregates (.mergeInto r o array) = some b' ↔
    ∃ book, b.registers[r]? = some book ∧ ∃ ks, book.live o = some ks ∧
      ∃ ls, b.shared[array]? = some ls ∧ ls.length = ks.length ∧
        { b with shared := b.shared.set array (ls.fold aggregates ks) } = b' := by
  simp only [step, Option.bind_eq_bind, Option.bind_eq_some_iff, Option.pure_def,
    Option.ite_none_right_eq_some, Option.some.injEq]

end Orders

end Books

/-- Whether a program is in order. -/
def InOrder (aggregates : List Aggregate) (program : List Operation) : Prop :=
  (Books.run aggregates program).isSome = true

instance (aggregates : List Aggregate) (program : List Operation) :
    Decidable (InOrder aggregates program) := inferInstanceAs (Decidable (_ = true))

/-! ## Counts that fit -/

/-- Counts of less than `n`. -/
def Counts.Below (n : Nat) (ks : Counts) : Prop := ∀ k ∈ ks, k < n

/-- A book with counts of less than `n`, as far as its groups were not moved out. -/
def Book.Below (n : Nat) (book : Book) : Prop := ∀ ks, some ks ∈ book.groups → ks.Below n

/-- Books of registers with counts of less than `n`. -/
def Books.Below (n : Nat) (b : Books) : Prop := ∀ book ∈ b.registers, book.Below n

/-- Whether all counts in the registers are words throughout a program. -/
def CountsFit (aggregates : List Aggregate) (program : List Operation) : Prop :=
  ∀ part b, part <+: program → Books.run aggregates part = some b → b.Below UInt64.size

/-- Ask that words can hold these counts. -/
def Counts.demand (ks : Counts) : Except Error Unit := ks.forM Tally.demandCount

namespace Counts

variable {k : Nat} {ks : Counts}

theorem demand_cons : demand (k :: ks) = (Tally.demandCount k >>= fun _ => demand ks) :=
  List.forM_cons

/-- Counts that fit are granted. -/
theorem demand_of_below (h : ks.Below UInt64.size) : ks.demand = .ok () := by
  induction ks with
  | nil => rfl
  | cons k ks ih =>
    rw [demand_cons, Tally.demandCount_of_lt (h k List.mem_cons_self)]
    exact ih fun k' hk' => h k' (List.mem_cons_of_mem k hk')

/-- Of counts that do not fit the first one is refused. -/
theorem exists_demand_eq_error (h : ¬ks.Below UInt64.size) :
    ∃ n, UInt64.size ≤ n ∧ ks.demand = .error (.outOfRange n UInt64.size) := by
  induction ks with
  | nil => exact absurd nofun h
  | cons k ks ih =>
    rw [demand_cons]
    rcases Nat.lt_or_ge k UInt64.size with hlt | hge
    · rw [Tally.demandCount_of_lt hlt]
      refine ih fun hks => h fun k' hk' => ?_
      rcases List.mem_cons.mp hk' with rfl | hk'
      · exact hlt
      · exact hks k' hk'
    · rw [Tally.demandCount_of_le hge]
      exact ⟨k, hge, rfl⟩

end Counts

namespace Book

/-- A group that is live is in the book, with its counts. -/
theorem live_eq_some {book : Book} {o : Nat} {ks : Counts} :
    book.live o = some ks ↔ book.groups[o]? = some (some ks) := by
  rw [live, Option.join_eq_some_iff]

theorem mem_of_live {book : Book} {o : Nat} {ks : Counts} (h : book.live o = some ks) :
    some ks ∈ book.groups := List.mem_of_getElem? (live_eq_some.mp h)

end Book

section Parts

variable {aggregates : List Aggregate} {program beginning : List Operation}

theorem Books.run_append (program rest : List Operation) :
    Books.run aggregates (program ++ rest) =
      (Books.run aggregates program).bind fun b => rest.foldlM (step aggregates) b :=
  List.foldlM_append

/-- The books go on where the program so far has brought them. -/
theorem Books.run_concat (program : List Operation) (op : Operation) :
    Books.run aggregates (program ++ [op]) =
      (Books.run aggregates program).bind fun b => b.step aggregates op := by
  rw [run_append]
  simp only [List.foldlM_cons, List.foldlM_nil, bind_pure]

/-- Every part of a program that is in order is in order. -/
theorem InOrder.exists_run (h : InOrder aggregates program) (hpart : beginning <+: program) :
    ∃ b, Books.run aggregates beginning = some b := by
  obtain ⟨rest, rfl⟩ := hpart
  rw [InOrder, Books.run_append] at h
  cases hb : Books.run aggregates beginning with
  | some b => exact ⟨b, rfl⟩
  | none =>
    rw [hb] at h
    cases h

/-- The counts of every part of a program fit if those of the program do. -/
theorem CountsFit.part (h : CountsFit aggregates program) (hpart : beginning <+: program) :
    CountsFit aggregates beginning := fun part b hpart' => h part b (hpart'.trans hpart)

/-- **One operation more**: the counts still fit if those in the books do. -/
theorem CountsFit.concat (h : CountsFit aggregates program) {op : Operation} {b : Books}
    (hb : Books.run aggregates (program ++ [op]) = some b) (hfit : b.Below UInt64.size) :
    CountsFit aggregates (program ++ [op]) := by
  intro part b' hpart hb'
  rcases List.prefix_concat_iff.mp hpart with rfl | hpart
  · cases hb.symm.trans hb'
    exact hfit
  · exact h part b' hpart hb'

/-- Nothing has been counted before the first operation. -/
theorem countsFit_nil : CountsFit aggregates [] := by
  intro part b hpart hb
  cases List.prefix_nil.mp hpart
  cases hb
  exact nofun

end Parts

/-! ## How counts grow -/

section Growth

variable {aggregates : List Aggregate} {n : Nat} {ks ls : Counts} {book : Book} {b b' : Books}

theorem Counts.Below.mono {n' : Nat} (h : ks.Below n) (hn : n ≤ n') : ks.Below n' :=
  fun k hk => Nat.lt_of_lt_of_le (h k hk) hn

/-- A row adds one input at most. -/
theorem Counts.Below.update (h : ks.Below n) (t : Table) (row : Nat) :
    (ks.update aggregates t row).Below (n + 1) := by
  intro k hk
  rcases mem_alongside hk with hk | ⟨a, -, k', hk', rfl⟩
  · exact Nat.lt_succ_of_lt (h k hk)
  · have hone : (a.input? t row).toList.length ≤ 1 := by
      cases a.input? t row with
      | none => exact Nat.zero_le 1
      | some _ => exact Nat.le_refl 1
    exact Nat.add_lt_add_of_lt_of_le (h k' hk') hone

/-- A fold adds the counts of another group. -/
theorem Counts.Below.fold (h : ks.Below n) (h' : ls.Below n) :
    (ks.fold aggregates ls).Below (n + n) := by
  intro k hk
  rcases mem_alongside hk with hk | ⟨p, hp, k', hk', rfl⟩
  · exact Nat.lt_add_right n (h k hk)
  · exact Nat.add_lt_add (h k' hk') (h' p.2 (List.of_mem_zip hp).2)

theorem Book.Below.concat (h : book.Below n) (hks : ks.Below n) : (book.concat ks).Below n := by
  intro ks' hks'
  rcases List.mem_append.mp hks' with hold | hnew
  · exact h ks' hold
  · cases List.mem_singleton.mp hnew
    exact hks

theorem Book.Below.put {o : Nat} {g : Option Counts} (h : book.Below n)
    (hg : ∀ ks, g = some ks → ks.Below n) : (book.put o g).Below n := by
  intro ks hks
  rcases List.mem_or_eq_of_mem_set hks with hold | hnew
  · exact h ks hold
  · exact hg ks hnew.symm

theorem Books.Below.mono {n' : Nat} (h : b.Below n) (hn : n ≤ n') : b.Below n' :=
  fun book hbook ks hks => (h book hbook ks hks).mono hn

theorem Books.Below.put {r : Nat} (h : b.Below n) (hbook : book.Below n) :
    (b.put r book).Below n := by
  intro book' hbook'
  rcases List.mem_or_eq_of_mem_set hbook' with hold | rfl
  · exact h book' hold
  · exact hbook

/-- The counts of a group that is live are among those of the books. -/
theorem Books.Below.live (h : b.Below n) {r o : Nat} (hbook : b.registers[r]? = some book)
    (hlive : book.live o = some ks) : ks.Below n :=
  h book (List.mem_of_getElem? hbook) ks (Book.mem_of_live hlive)

/-- Other counts for one group make the difference. -/
theorem Books.Below.put_iff (h : b.Below n) {r o : Nat} (hbook : b.registers[r]? = some book)
    (hlive : book.live o = some ks) : (b.put r (book.put o (some ls))).Below n ↔ ls.Below n := by
  obtain ⟨hr, -⟩ := List.getElem?_eq_some_iff.mp hbook
  obtain ⟨ho, -⟩ := List.getElem?_eq_some_iff.mp (Book.live_eq_some.mp hlive)
  constructor
  · exact fun hput => hput (book.put o (some ls)) (List.mem_set hr _) ls (List.mem_set ho _)
  · refine fun hls => h.put ((h book (List.mem_of_getElem? hbook)).put ?_)
    rintro _ ⟨⟩
    exact hls

namespace Books

/-- The counts of a group in a register. -/
def live (b : Books) (r o : Nat) : Counts := ((b.registers[r]?).bind (·.live o)).getD []

/-- The counts that a group has after an operation has folded something into it. -/
def folded (aggregates : List Aggregate) (b : Books) : Operation → Counts
  | .update r t row o => (b.live r o).update aggregates t row
  | .merge r o r' o' => (b.live r o).fold aggregates (b.live r' o')
  | _ => []

theorem live_eq {r o : Nat} (hbook : b.registers[r]? = some book)
    (hlive : book.live o = some ks) : b.live r o = ks := by
  rw [live, hbook, Option.bind_some, hlive, Option.getD_some]

/-- **An operation brings no other counts** than those of the group that it folds into. -/
theorem Below.step_iff (h : b.Below n) (hpos : 0 < n) {op : Operation}
    (hop : b.step aggregates op = some b') : b'.Below n ↔ (b.folded aggregates op).Below n := by
  cases op with
  | create m maxGroups =>
    cases hop
    refine iff_of_true (fun book hbook => ?_) nofun
    rcases List.mem_append.mp hbook with hold | hnew
    · exact h book hold
    · cases List.mem_singleton.mp hnew
      exact fun ks hks => absurd hks List.not_mem_nil
  | push r =>
    obtain ⟨book, hbook, rfl⟩ := step_push.mp hop
    refine iff_of_true (h.put ((h book (List.mem_of_getElem? hbook)).concat fun k hk => ?_)) nofun
    rw [(List.mem_replicate.mp hk).2]
    exact hpos
  | update r t row o =>
    obtain ⟨book, hbook, ks, hlive, rfl⟩ := step_update.mp hop
    rw [folded, live_eq hbook hlive]
    exact h.put_iff hbook hlive
  | merge r o r' o' =>
    obtain ⟨book, hbook, other, hother, ks, hlive, ls, hlive', -, rfl⟩ := step_merge.mp hop
    rw [folded, live_eq hbook hlive, live_eq hother hlive']
    exact h.put_iff hbook hlive
  | append r r' o' =>
    obtain ⟨book, hbook, other, hother, ls, hlive, -, rfl⟩ := step_append.mp hop
    refine iff_of_true (.put (.put h ?_) ?_) nofun
    · exact (h book (List.mem_of_getElem? hbook)).concat (h.live hother hlive)
    · exact (h other (List.mem_of_getElem? hother)).put nofun
  | reserve r additional =>
    obtain ⟨_, -, rfl⟩ := step_reserve.mp hop
    exact iff_of_true h nofun
  | take r o =>
    obtain ⟨book, hbook, ks, -, rfl⟩ := step_take.mp hop
    exact iff_of_true (h.put ((h book (List.mem_of_getElem? hbook)).put nofun)) nofun
  | mergeInto r o array =>
    obtain ⟨book, -, ks, -, ls, -, -, rfl⟩ := step_mergeInto.mp hop
    exact iff_of_true h nofun

/-- **An operation doubles counts at most.** -/
theorem Below.step (h : b.Below n) (hpos : 0 < n) {op : Operation}
    (hop : b.step aggregates op = some b') : b'.Below (n + n) := by
  have hdouble : b.Below (n + n) := h.mono (Nat.le_add_right n n)
  refine (hdouble.step_iff (Nat.add_pos_left hpos n) hop).mpr ?_
  cases op with
  | update r t row o =>
    obtain ⟨book, hbook, ks, hlive, -⟩ := step_update.mp hop
    rw [folded, live_eq hbook hlive]
    exact ((h.live hbook hlive).update t row).mono (by omega)
  | merge r o r' o' =>
    obtain ⟨book, hbook, other, hother, ks, hlive, ls, hlive', -⟩ := step_merge.mp hop
    rw [folded, live_eq hbook hlive, live_eq hother hlive']
    exact (h.live hbook hlive).fold (h.live hother hlive')
  | _ => exact nofun

/-- So after a number of operations counts are less than that power of two. -/
theorem below_of_run {program : List Operation} (h : run aggregates program = some b) :
    b.Below (2 ^ program.length) := by
  induction program using List.reverseRecOn generalizing b with
  | nil =>
    cases h
    exact nofun
  | append_singleton program op ih =>
    rw [run_concat] at h
    obtain ⟨b₀, hb₀, hop⟩ := Option.bind_eq_some_iff.mp h
    rw [List.length_append, List.length_singleton, Nat.pow_succ, Nat.mul_two]
    exact (ih hb₀).step (Nat.two_pow_pos _) hop

end Books

/-- **The counts of a short program fit**: not to fit takes more operations than a word has bits. -/
theorem countsFit_of_length_le {program : List Operation} (h : program.length ≤ 64) :
    CountsFit aggregates program := by
  intro part b hpart hb
  have hshort : part.length ≤ 64 := Nat.le_trans hpart.length_le h
  exact (Books.below_of_run hb).mono (Nat.pow_le_pow_right Nat.two_pos hshort)

end Growth

/-! ## Agreement -/

/-- Three lists of one length, the members at one place being related. -/
structure Threefold {α β γ : Type} (R : Nat → α → β → γ → Prop) (as : List α) (bs : List β)
    (cs : List γ) : Prop where
  left : bs.length = as.length
  right : cs.length = as.length
  each : ∀ i a, as[i]? = some a → ∃ b c, bs[i]? = some b ∧ cs[i]? = some c ∧ R i a b c

variable [FloatAddition] (aggregates : List Aggregate)

/-- Two tallies of aggregate number `i` that agree: they are the same, but for the payload of a NaN
    where floats are added. -/
def TalliesAgree (i : Nat) (x y : Tally) : Prop :=
  x = y ∨ ∃ a, aggregates[i]? = some a ∧ a.function.Agree x y

/-- Two registers that agree on how many groups they have, and on the tallies of those that were
    not moved out. -/
structure StatesAgree {σ σ' : Type} [LocalStates σ] [LocalStates σ'] (book : Book) (s : σ)
    (s' : σ') : Prop where
  size : LocalStates.size s = book.groups.length
  size' : LocalStates.size s' = book.groups.length
  load : ∀ o ks, book.live o = some ks → ∀ i, i < book.aggregateCount →
    ∃ x y, LocalStates.load s i o = .ok x ∧ LocalStates.load s' i o = .ok y ∧
      TalliesAgree aggregates i x y

/-- Two arrays of shared buckets that agree on their tallies. -/
def BucketsAgree (ks : Counts) (bs bs' : List Bucket) : Prop :=
  Threefold (fun i _ c c' => ∃ x y, c = .ofTally x ∧ c' = .ofTally y ∧ TalliesAgree aggregates i x y)
    ks bs bs'

/-- Two machines that agree on all that the caller can ask for. -/
structure MachinesAgree {σ σ' : Type} [LocalStates σ] [LocalStates σ'] (b : Books)
    (m : Machine σ) (m' : Machine σ') : Prop where
  appended : m.appended = m'.appended
  registers : Threefold (fun _ => StatesAgree aggregates) b.registers m.registers m'.registers
  shared : Threefold (fun _ => BucketsAgree aggregates) b.shared m.shared m'.shared

/-- The machines of any two layouts get through a program without an error, and agree then. -/
def AgreeAfter (program : List Operation) : Prop :=
  ∃ b, Books.run aggregates program = some b ∧
    ∀ mode mode' : StorageMode, ∃ (m : Machine mode.Layout) (m' : Machine mode'.Layout),
      Machine.run aggregates program = .ok m ∧ Machine.run aggregates program = .ok m' ∧
      MachinesAgree aggregates b m m'

/-- Layouts that one can take for one another in a program: their machines agree after every part
    of it. -/
def Interchangeable (program : List Operation) : Prop :=
  ∀ part, part <+: program → AgreeAfter aggregates part

/-- A count that no word can hold, the same in all layouts, stops the machines of all of them. -/
def StopAlike (program : List Operation) : Prop :=
  ∃ n, UInt64.size ≤ n ∧ ∀ mode : StorageMode,
    (Machine.run aggregates program : Except Error (Machine mode.Layout)) =
      .error (.outOfRange n UInt64.size)

end Cohort
