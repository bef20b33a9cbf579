import Mathlib.Data.List.DropRight
import Mathlib.Data.List.Forall2
import Mathlib.Data.List.Induction
import Cohort.Proofs.Key.Discovery
import Cohort.Proofs.Scalar.Order
/-
  MEMORY: what an evaluator answers, as a function of what it was asked before.

  1. **Requests.**  An evaluator is asked for rows of tables and remembers the last row by its NUMBER
     alone.  So the table that ANSWERS a request need not be the one it names: it is that of the
     first among the latest requests in a row that all ask for this row number (`answering`).

  2. **The crux (`isCoherent_foldl_ask`)** is an induction on the requests, the latest one last.  A
     request for another row than before reads its own table; a request for the same row changes
     nothing, and then the table that answered before answers again.

  3. **Pools.**  A clone starts with the history of its original, and each goes on alone.  A pool of
     evaluators is what its histories say (`pool_eq_map`), and so every evaluator of a pool answers
     for the latest requests of its own history (`pool_remembers`).
-/

namespace Cohort

namespace KeyEvaluator

/-! ## Requests -/

/-- What an evaluator is asked for. -/
structure Request where
  table : Table
  row : Nat

/-- The evaluator after a request. -/
def ask (ev : KeyEvaluator) (q : Request) : KeyEvaluator := ev.visit q.table q.row

/-- The table that answers the last of some requests: the first that was named in the longest run of
    latest requests for its row. -/
def answering (before : List Request) (q : Request) : Table :=
  (((before ++ [q]).rtakeWhile fun p => p.row = q.row).headD q).table

theorem answering_nil (q : Request) : answering [] q = q.table := by
  rw [answering, List.rtakeWhile_concat, if_pos (decide_eq_true rfl), List.rtakeWhile_nil]
  rfl

/-- A request for another row than the one before is answered by its own table. -/
theorem answering_concat_of_ne {before : List Request} {p q : Request} (h : p.row ≠ q.row) :
    answering (before ++ [p]) q = q.table := by
  have hother : ¬ decide (p.row = q.row) = true := fun hp => h (of_decide_eq_true hp)
  rw [answering, List.rtakeWhile_concat, if_pos (decide_eq_true rfl), List.rtakeWhile_concat,
    if_neg hother]
  rfl

/-- A request for the row of the one before is answered as that one was. -/
theorem answering_concat_of_eq {before : List Request} {p q : Request} (h : p.row = q.row) :
    answering (before ++ [p]) q = answering before p := by
  rw [answering, answering, ← h, List.rtakeWhile_concat, if_pos (decide_eq_true h.symm),
    List.rtakeWhile_concat, if_pos (decide_eq_true rfl)]
  cases before.rtakeWhile fun r => decide (r.row = p.row) <;> rfl

/-- If all requests name one table, that one answers. -/
theorem answering_of_forall {before : List Request} {q : Request}
    (h : ∀ p ∈ before, p.table = q.table) : answering before q = q.table := by
  induction before using List.reverseRecOn generalizing q with
  | nil => exact answering_nil q
  | append_singleton before p ih =>
    have hp : p.table = q.table := h p (List.mem_append_right _ List.mem_cons_self)
    by_cases hrow : p.row = q.row
    · rw [answering_concat_of_eq hrow, ← hp]
      exact ih fun r hr => (h r (List.mem_append_left _ hr)).trans hp.symm
    · exact answering_concat_of_ne hrow

/-! ## One evaluator -/

variable {spec : GroupingSpec} {t : Table} {ev : KeyEvaluator}

/-- Asked for the row it remembers, an evaluator stays as it is. -/
theorem visit_of_row_eq {row : Nat} (h : ev.row = some row) (t : Table) : ev.visit t row = ev :=
  if_pos h

/-- Asked for another row than it remembers, an evaluator forgets the table it saw. -/
theorem IsCoherent.visit_of_row_ne (h : ev.IsCoherent spec t) {row : Nat} (hrow : ev.row ≠ some row)
    (u : Table) : (ev.visit u row).IsCoherent spec u := by
  rw [KeyEvaluator.visit, if_neg hrow]
  refine ⟨h.exprs, h.hashValue, fun row' hrow' => ?_⟩
  cases hrow'
  show (⟨Hash.ofValues ev.hashValue (Key.evaluate ev.exprs u row), row, _⟩ : Key) = _
  rw [h.exprs, h.hashValue]
  rfl

/-- **After some requests an evaluator remembers a row of the table that answers the last one.** -/
theorem isCoherent_foldl_ask (spec : GroupingSpec) (before : List Request) (q : Request) :
    ((before ++ [q]).foldl ask (create spec.keys spec.hashValue)).IsCoherent spec
      (answering before q) := by
  induction before using List.reverseRecOn generalizing q with
  | nil =>
    rw [answering_nil]
    exact (isCoherent_create spec q.table).visit q.row
  | append_singleton before p ih =>
    have hrow : ((before ++ [p]).foldl ask (create spec.keys spec.hashValue)).row = some p.row := by
      rw [List.foldl_append]
      exact row_visit _ p.table p.row
    rw [List.foldl_append]
    show (KeyEvaluator.visit _ q.table q.row).IsCoherent spec _
    by_cases h : p.row = q.row
    · rw [visit_of_row_eq (h ▸ hrow), answering_concat_of_eq h]
      exact ih p
    · have hne : ((before ++ [p]).foldl ask (create spec.keys spec.hashValue)).row ≠ some q.row := by
        rw [hrow]
        exact fun heq => h (Option.some.inj heq)
      rw [answering_concat_of_ne h]
      exact (ih p).visit_of_row_ne hne q.table

/-- An evaluator of a specification that was asked for rows of one table only. -/
def UsedOn (spec : GroupingSpec) (t : Table) (ev : KeyEvaluator) : Prop :=
  ∃ rows : List Nat, ev = (rows.map (Request.mk t)).foldl ask (create spec.keys spec.hashValue)

theorem usedOn_create (spec : GroupingSpec) (t : Table) :
    (create spec.keys spec.hashValue).UsedOn spec t := ⟨[], rfl⟩

theorem UsedOn.visit (h : ev.UsedOn spec t) (row : Nat) : (ev.visit t row).UsedOn spec t := by
  obtain ⟨rows, rfl⟩ := h
  refine ⟨rows ++ [row], ?_⟩
  rw [List.map_append, List.foldl_append]
  rfl

theorem UsedOn.isCoherent (h : ev.UsedOn spec t) : ev.IsCoherent spec t := by
  obtain ⟨rows, rfl⟩ := h
  induction rows using List.reverseRecOn with
  | nil => exact isCoherent_create spec t
  | append_singleton rows row ih =>
    rw [List.map_append, List.foldl_append]
    exact ih.visit row

/-! ## What is answered -/

/-- What an evaluator answers after some requests, whatever it is asked next. -/
structure Remembers (exprs : List Expr) (hashValue : Scalar → UInt64) (before : List Request)
    (ev : KeyEvaluator) : Prop where
  /-- Asked for a hash, it answers with that of the values in the table that answers. -/
  hash : ∀ q : Request, (ev.visit q.table q.row).hash =
    Hash.ofValues hashValue (Key.evaluate exprs (answering before q) q.row)
  /-- Asked for a key, it answers with that of the row in the table that answers. -/
  key : ∀ q : Request, (ev.key q.table q.row).1 =
    Key.ofRow exprs hashValue (answering before q) q.row
  /-- Asked for either, it matches the keys of the same hash and the same values afterwards. -/
  isMatch : ∀ (q : Request) (k : Key) (next : KeyEvaluator),
    next = ev.visit q.table q.row ∨ next = (ev.key q.table q.row).2 →
    (next.isMatch k = true ↔
      k.hash = Hash.ofValues hashValue (Key.evaluate exprs (answering before q) q.row) ∧
      Scalar.sameGroups k.values (Key.evaluate exprs (answering before q) q.row) = true)
  /-- As long as all requests name one table, nothing shows that anything is remembered. -/
  one_table : ∀ q : Request, (∀ p ∈ before, p.table = q.table) →
    (ev.visit q.table q.row).hash = Hash.ofValues hashValue (Key.evaluate exprs q.table q.row) ∧
    (ev.key q.table q.row).1 = Key.ofRow exprs hashValue q.table q.row

/-- An evaluator answers for the latest requests of its history. -/
theorem remembers_foldl_ask (exprs : List Expr) (hashValue : Scalar → UInt64)
    (before : List Request) :
    Remembers exprs hashValue before (before.foldl ask (create exprs hashValue)) := by
  -- everything is read off the key that is remembered after the next request
  have hkey : ∀ q : Request, ((before.foldl ask (create exprs hashValue)).visit q.table
      q.row).keyAt q.row = Key.ofRow exprs hashValue (answering before q) q.row := by
    intro q
    have hcoherent := isCoherent_foldl_ask ⟨exprs, [], hashValue⟩ before q
    rw [List.foldl_append] at hcoherent
    exact hcoherent.memory q.row (row_visit _ q.table q.row)
  constructor
  · intro q
    exact congrArg Key.hash (hkey q)
  · intro q
    exact hkey q
  · intro q k next hnext
    have hvisit : next = (before.foldl ask (create exprs hashValue)).visit q.table q.row := by
      rcases hnext with h | h <;> exact h
    rw [hvisit, isMatch_eq_same _ k q.row, hkey q, Key.same_iff, Scalar.sameGroups_iff]
    rfl
  · intro q hq
    have hfresh := hkey q
    rw [answering_of_forall hq] at hfresh
    exact ⟨congrArg Key.hash hfresh, hfresh⟩

/-! ## Pools -/

/-- What may be done with a pool of evaluators, each known by its number. -/
inductive Call
  /-- Ask for the hash of a row. -/
  | hash (evaluator : Nat) (request : Request)
  /-- Ask for the key of a row. -/
  | key (evaluator : Nat) (request : Request)
  /-- Add a clone. -/
  | clone (evaluator : Nat)

/-- The pool after a call. -/
def Call.perform (pool : List KeyEvaluator) : Call → List KeyEvaluator
  | .hash i q => pool.modify i fun ev => ev.visit q.table q.row
  | .key i q => pool.modify i fun ev => (ev.key q.table q.row).2
  | .clone i => pool ++ pool[i]?.toList

/-- The histories of the evaluators after a call: a clone starts with that of its original. -/
def Call.record (histories : List (List Request)) : Call → List (List Request)
  | .hash i q => histories.modify i (· ++ [q])
  | .key i q => histories.modify i (· ++ [q])
  | .clone i => histories ++ histories[i]?.toList

variable {exprs : List Expr} {hashValue : Scalar → UInt64}

/-- One more request in a history is one more request to its evaluator. -/
theorem modify_ask_map (histories : List (List Request)) (i : Nat) (q : Request) :
    (histories.map fun h => h.foldl ask (create exprs hashValue)).modify i (ask · q) =
      (histories.modify i (· ++ [q])).map fun h => h.foldl ask (create exprs hashValue) := by
  induction histories generalizing i with
  | nil => cases i <;> rfl
  | cons h histories ih =>
    cases i with
    | zero =>
      show _ = (h ++ [q]).foldl ask _ :: _
      rw [List.foldl_append]
      rfl
    | succ i => exact congrArg (List.cons _) (ih i)

/-- **A pool is what its histories say.** -/
theorem pool_eq_map (calls : List Call) :
    calls.foldl Call.perform [create exprs hashValue] =
      (calls.foldl Call.record [[]]).map fun h => h.foldl ask (create exprs hashValue) := by
  induction calls using List.reverseRecOn with
  | nil => rfl
  | append_singleton calls c ih =>
    rw [List.foldl_append, List.foldl_append]
    show Call.perform (calls.foldl Call.perform _) c = _
    rw [ih]
    cases c with
    | hash i q => exact modify_ask_map _ i q
    | key i q => exact modify_ask_map _ i q
    | clone i =>
      show _ ++ _ = List.map _ (_ ++ _)
      rw [List.map_append, List.getElem?_map]
      cases (calls.foldl Call.record [[]])[i]? <;> rfl

/-- **The memory of evaluators is coherent.**  However an evaluator and its clones are asked, for
    hashes or for keys, of one table or of several, every one of them answers for the table that the
    latest requests for the row began with, in its own history and no other. -/
theorem pool_remembers (exprs : List Expr) (hashValue : Scalar → UInt64) (calls : List Call) :
    List.Forall₂ (Remembers exprs hashValue) (calls.foldl Call.record [[]])
      (calls.foldl Call.perform [create exprs hashValue]) := by
  rw [pool_eq_map, List.forall₂_map_right_iff, List.forall₂_same]
  intro history _
  exact remembers_foldl_ask exprs hashValue history

-- a table without rows, asked right after another one, is not looked at
example :
    let ev := create [.column 0 .int64 none] Hash.ofScalar
    ((ev.key .sample 0).2.key (.empty 2) 0).1.values = [.int 7] := by decide

end KeyEvaluator
end Cohort
