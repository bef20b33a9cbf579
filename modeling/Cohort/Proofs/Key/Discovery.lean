import Mathlib.Data.List.Induction
import Mathlib.Data.List.Pairwise
import Cohort.Grouping.Engine
/-
  DISCOVERY: which keys a list of rows brings, in which order, and how a dictionary finds them.

  1. **Specification.**  `firsts f l` are the members of `l` that are the first with their value
     under `f`, in order.  The keys that rows bring are the keys of `firstRows`: the rows with no
     earlier row of the same key values.  Reading on appends what is new
     (`firsts_append`), which is also what taking over another dictionary does.

  2. **Dictionary.**  `IsIndex` says that all keys carry the hash of their values and that no two
     have equal values.  Then lookup is decided by the VALUES alone (`find_eq_some_iff`,
     `find_eq_none_iff`), whatever the hash function is, and `insert` keeps it so.

  3. **Evaluator.**  On one table an evaluator answers for every row with the key of that row
     (`IsCoherent.keyAt_visit`), whatever it was asked before.
-/

namespace Cohort

/-! ## First members -/

section Firsts

variable {α β : Type} [DecidableEq β]

/-- The members of a list that are the first with their value under `f`, in order. -/
def firsts (f : α → β) : List α → List α
  | [] => []
  | a :: l => a :: (firsts f l).filter fun b => f b ≠ f a

variable {f : α → β}

/-- First members stand in the order of the list. -/
theorem firsts_sublist : ∀ l : List α, (firsts f l).Sublist l
  | [] => List.Sublist.slnil
  | _ :: l => (List.filter_sublist.trans (firsts_sublist l)).cons_cons _

theorem mem_of_mem_firsts {l : List α} {a : α} (h : a ∈ firsts f l) : a ∈ l :=
  (firsts_sublist l).subset h

/-- Every value is there. -/
theorem exists_mem_firsts {l : List α} {a : α} (h : a ∈ l) : ∃ b ∈ firsts f l, f b = f a := by
  induction l with
  | nil => exact absurd h List.not_mem_nil
  | cons c l ih =>
    by_cases hc : f c = f a
    · exact ⟨c, List.mem_cons_self, hc⟩
    · rcases List.mem_cons.mp h with rfl | h
      · exact absurd rfl hc
      · obtain ⟨b, hb, hba⟩ := ih h
        refine ⟨b, List.mem_cons_of_mem c (List.mem_filter.mpr ⟨hb, ?_⟩), hba⟩
        exact decide_eq_true (fun hbc => hc (hbc.symm.trans hba))

/-- Every value is there once. -/
theorem pairwise_firsts (l : List α) : (firsts f l).Pairwise fun a b => f a ≠ f b := by
  induction l with
  | nil => exact List.Pairwise.nil
  | cons c l ih =>
    refine List.Pairwise.cons (fun b hb => ?_) (ih.filter _)
    exact Ne.symm (of_decide_eq_true (List.mem_filter.mp hb).2)

/-- In an ascending list a first member has no smaller one with its value. -/
theorem ne_of_lt_of_mem_firsts {f : Nat → β} {l : List Nat} (hl : l.Pairwise (· < ·)) {a b : Nat}
    (ha : a ∈ firsts f l) (hb : b ∈ l) (hba : b < a) : f b ≠ f a := by
  induction l with
  | nil => exact absurd hb List.not_mem_nil
  | cons c l ih =>
    obtain ⟨hc, hl⟩ := List.pairwise_cons.mp hl
    rcases List.mem_cons.mp ha with rfl | ha
    · rcases List.mem_cons.mp hb with rfl | hb
      · omega
      · have := hc b hb; omega
    · obtain ⟨ha, hac⟩ := List.mem_filter.mp ha
      rcases List.mem_cons.mp hb with rfl | hb
      · exact Ne.symm (of_decide_eq_true hac)
      · exact ih hl ha hb

/-- Reading on appends the first members whose value has not been seen. -/
theorem firsts_append (l m : List α) :
    firsts f (l ++ m) = firsts f l ++ (firsts f m).filter fun b => ∀ a ∈ l, f b ≠ f a := by
  induction l with
  | nil =>
    refine (List.filter_eq_self.mpr fun b _ => ?_).symm
    exact decide_eq_true fun _ h => absurd h List.not_mem_nil
  | cons c l ih =>
    rw [List.cons_append, firsts, firsts, ih, List.filter_append, List.filter_filter,
      List.cons_append]
    congr 3
    funext b
    simp only [List.forall_mem_cons, Bool.decide_and]

/-- A value that has not been seen brings a first member. -/
theorem firsts_concat_of_not_mem {l : List α} {a : α} (h : ∀ b ∈ l, f b ≠ f a) :
    firsts f (l ++ [a]) = firsts f l ++ [a] := by
  rw [firsts_append]
  have hnew : ∀ c ∈ l, f a ≠ f c := fun c hc => Ne.symm (h c hc)
  simp only [firsts, List.filter_nil, List.filter_cons, decide_eq_true hnew, if_true]

/-- A value that has been seen brings no first member. -/
theorem firsts_concat_of_mem {l : List α} {a : α} (h : ∃ b ∈ l, f b = f a) :
    firsts f (l ++ [a]) = firsts f l := by
  obtain ⟨b, hb, hab⟩ := h
  have hold : ¬ ∀ c ∈ l, f a ≠ f c := fun hne => hne b hb hab.symm
  rw [firsts_append]
  simp only [firsts, List.filter_nil, List.filter_cons, decide_eq_false hold,
    Bool.false_eq_true, if_false, List.append_nil]

/-- The first member that satisfies a condition on values is a first member. -/
theorem find?_firsts {p : α → Bool} (hp : ∀ a b, f a = f b → p a = p b) (l : List α) :
    (firsts f l).find? p = l.find? p := by
  induction l with
  | nil => rfl
  | cons a l ih =>
    rw [firsts, List.find?_cons, List.find?_cons]
    cases ha : p a with
    | true => rfl
    | false =>
      -- what is filtered out has the value of `a`, so it does not satisfy the condition either
      have hkept : ∀ b, p b = true → f b ≠ f a := by
        intro b hb heq
        rw [hp b a heq, ha] at hb
        cases hb
      have hfilter : (fun b => decide (decide (f b ≠ f a) = true ∧ p b = true)) = p := by
        funext b
        cases hb : p b with
        | false => simp
        | true => simp [hkept b hb]
      show List.find? p (List.filter _ _) = List.find? p l
      rw [List.find?_filter, hfilter, ih]

end Firsts

/-! ## Keys of rows -/

namespace Key

/-- The keys among `more` whose values no key of `ks` has. -/
def unseen (ks more : List Key) : List Key :=
  more.filter fun k => ∀ k' ∈ ks, k'.values ≠ k.values

theorem unseen_nil (ks : List Key) : unseen ks [] = [] := rfl

/-- Taking over a key leaves other keys as known or unknown as they were. -/
theorem unseen_cons {ks ls : List Key} {l : Key} (hls : ∀ l' ∈ ls, l.values ≠ l'.values) :
    ks ++ unseen ks (l :: ls) = (ks ++ unseen ks [l]) ++ unseen (ks ++ unseen ks [l]) ls := by
  have hsplit : unseen ks (l :: ls) = unseen ks [l] ++ unseen ks ls :=
    List.filter_append [l] ls
  have hrest : unseen (ks ++ unseen ks [l]) ls = unseen ks ls := by
    refine List.filter_congr fun l' hl' => ?_
    rw [decide_eq_decide]
    constructor
    · exact fun h k hk => h k (List.mem_append_left _ hk)
    · intro h k hk
      rcases List.mem_append.mp hk with hk | hk
      · exact h k hk
      · rw [List.mem_singleton.mp (List.mem_filter.mp hk).1]
        exact hls l' hl'
  rw [hsplit, hrest, List.append_assoc]

/-- A key whose values are known is not taken over ... -/
theorem unseen_of_known {ks : List Key} {l : Key} (h : ∃ k ∈ ks, k.values = l.values) :
    unseen ks [l] = [] := by
  obtain ⟨k, hk, hv⟩ := h
  refine List.filter_eq_nil_iff.mpr fun l' hl' => ?_
  rw [List.mem_singleton.mp hl', decide_eq_true_eq]
  exact fun hnew => hnew k hk hv

/-- ... and any other key is. -/
theorem unseen_of_unknown {ks : List Key} {l : Key} (h : ∀ k ∈ ks, k.values ≠ l.values) :
    unseen ks [l] = [l] := by
  refine List.filter_eq_self.mpr fun l' hl' => ?_
  rw [List.mem_singleton.mp hl', decide_eq_true_eq]
  exact h

end Key

namespace GroupingSpec

/-- The key values of a row. -/
def valuesAt (spec : GroupingSpec) (t : Table) (row : Nat) : List Scalar :=
  Key.evaluate spec.keys t row

/-- The key of a row. -/
def keyAt (spec : GroupingSpec) (t : Table) (row : Nat) : Key :=
  Key.ofRow spec.keys spec.hashValue t row

/-- The rows with no earlier row of the same key values. -/
def firstRows (spec : GroupingSpec) (t : Table) (rows : List Nat) : List Nat :=
  firsts (spec.valuesAt t) rows

/-- The keys that rows bring, in the order of discovery. -/
def discovered (spec : GroupingSpec) (t : Table) (rows : List Nat) : List Key :=
  (spec.firstRows t rows).map (spec.keyAt t)

/-- The rows with given key values. -/
def members (spec : GroupingSpec) (t : Table) (rows : List Nat) (values : List Scalar) : List Nat :=
  rows.filter fun row => spec.valuesAt t row = values

/-- Whether a key carries the hash of its values. -/
def IsHashed (spec : GroupingSpec) (k : Key) : Prop :=
  k.hash = Hash.ofValues spec.hashValue k.values

variable (spec : GroupingSpec) (t : Table)

theorem isHashed_keyAt (row : Nat) : spec.IsHashed (spec.keyAt t row) := rfl

theorem row_keyAt (row : Nat) : (spec.keyAt t row).row = row := rfl

/-- Members come in the order of the rows. -/
theorem members_append (l m : List Nat) (values : List Scalar) :
    spec.members t (l ++ m) values = spec.members t l values ++ spec.members t m values :=
  List.filter_append l m

/-- Rows none of which has the key values have no members. -/
theorem members_eq_nil {rows : List Nat} {values : List Scalar}
    (h : ¬ ∃ row ∈ rows, spec.valuesAt t row = values) : spec.members t rows values = [] := by
  refine List.filter_eq_nil_iff.mpr fun row hrow => ?_
  rw [decide_eq_true_eq]
  exact fun hv => h ⟨row, hrow, hv⟩

theorem members_cons (row : Nat) (l : List Nat) (values : List Scalar) :
    spec.members t (row :: l) values =
      if spec.valuesAt t row = values then row :: spec.members t l values
      else spec.members t l values := by
  rw [members, List.filter_cons]
  simp only [decide_eq_true_eq]
  rfl

theorem members_flatMap {α : Type} (l : List α) (rows : α → List Nat) (values : List Scalar) :
    spec.members t (l.flatMap rows) values = l.flatMap fun i => spec.members t (rows i) values :=
  List.filter_flatMap ..

/-- The last row is the last member of its tuple. -/
theorem members_concat (l : List Nat) (row : Nat) (values : List Scalar) :
    spec.members t (l ++ [row]) values =
      if spec.valuesAt t row = values then spec.members t l values ++ [row]
      else spec.members t l values := by
  rw [members_append]
  by_cases h : spec.valuesAt t row = values
  · simp [members, h]
  · simp [members, h]

/-- Every key that rows bring has members among them, and every member brings its key. -/
theorem exists_mem_discovered_iff {rows : List Nat} {values : List Scalar} :
    (∃ k ∈ spec.discovered t rows, k.values = values) ↔
      ∃ row ∈ rows, spec.valuesAt t row = values := by
  constructor
  · rintro ⟨k, hk, hv⟩
    obtain ⟨row, hrow, rfl⟩ := List.mem_map.mp hk
    exact ⟨row, mem_of_mem_firsts hrow, hv⟩
  · rintro ⟨row, hrow, hv⟩
    obtain ⟨first, hfirst, heq⟩ := exists_mem_firsts (f := spec.valuesAt t) hrow
    exact ⟨spec.keyAt t first, List.mem_map_of_mem hfirst, heq.trans hv⟩

/-- No two keys that rows bring have the same values. -/
theorem pairwise_discovered (rows : List Nat) :
    (spec.discovered t rows).Pairwise fun a b => a.values ≠ b.values :=
  List.pairwise_map.mpr (pairwise_firsts rows)

/-- Rows bring one key with given values. -/
theorem eq_of_mem_discovered {rows : List Nat} {a b : Key} (ha : a ∈ spec.discovered t rows)
    (hb : b ∈ spec.discovered t rows) (hv : a.values = b.values) : a = b := by
  have hsymm : Std.Symm fun a b : Key => a.values ≠ b.values := ⟨fun _ _ h => h.symm⟩
  by_contra hne
  exact (spec.pairwise_discovered t rows).forall ha hb hne hv

/-- All keys that rows bring carry the hashes of their values. -/
theorem isHashed_of_mem_discovered {rows : List Nat} {k : Key} (h : k ∈ spec.discovered t rows) :
    spec.IsHashed k := by
  obtain ⟨row, -, rfl⟩ := List.mem_map.mp h
  exact spec.isHashed_keyAt t row

/-- Reading on discovers the keys whose values were not seen. -/
theorem discovered_append (l m : List Nat) :
    spec.discovered t (l ++ m) =
      spec.discovered t l ++ Key.unseen (spec.discovered t l) (spec.discovered t m) := by
  rw [discovered, firstRows, firsts_append, List.map_append, Key.unseen, discovered, discovered,
    List.filter_map]
  congr 2
  refine List.filter_congr fun row _ => ?_
  rw [Function.comp_apply, decide_eq_decide]
  constructor
  · intro h k' hk' heq
    obtain ⟨first, hfirst, hv⟩ := (spec.exists_mem_discovered_iff t).mp ⟨k', hk', rfl⟩
    exact h first hfirst (hv.trans heq).symm
  · intro h first hfirst heq
    obtain ⟨k', hk', hv⟩ := (spec.exists_mem_discovered_iff t).mpr ⟨first, hfirst, rfl⟩
    exact h k' hk' (hv.trans heq.symm)

/-- The keys of one row more. -/
theorem discovered_concat (rows : List Nat) (row : Nat) :
    spec.discovered t (rows ++ [row]) =
      spec.discovered t rows ++ Key.unseen (spec.discovered t rows) [spec.keyAt t row] :=
  spec.discovered_append t rows [row]

end GroupingSpec

/-! ## Dictionaries of hashed keys -/

/-- A dictionary whose keys carry the hash of their values and are pairwise different in them. -/
structure Dictionary.IsIndex (spec : GroupingSpec) (d : Dictionary) : Prop where
  hashed : ∀ k ∈ d.keys.toList, spec.IsHashed k
  distinct : d.keys.toList.Pairwise fun a b => a.values ≠ b.values

namespace Dictionary

variable {spec : GroupingSpec} {d : Dictionary}

/-- A dictionary starts out without keys, so it starts out as an index. -/
theorem isIndex_empty (spec : GroupingSpec) : Dictionary.empty.IsIndex spec :=
  ⟨fun _ h => absurd h List.not_mem_nil, List.Pairwise.nil⟩

/-- Two ordinals whose keys have equal values are one. -/
theorem IsIndex.ordinal_unique (hd : d.IsIndex spec) {o o' : Nat} {k k' : Key}
    (h : d.keys.toList[o]? = some k) (h' : d.keys.toList[o']? = some k')
    (hv : k.values = k'.values) : o = o' := by
  obtain ⟨ho, hk⟩ := List.getElem?_eq_some_iff.mp h
  obtain ⟨ho', hk'⟩ := List.getElem?_eq_some_iff.mp h'
  have hpair := List.pairwise_iff_getElem.mp hd.distinct
  rcases Nat.lt_trichotomy o o' with hlt | heq | hlt
  · exact absurd (by rw [hk, hk', hv]) (hpair o o' ho ho' hlt)
  · exact heq
  · exact absurd (by rw [hk, hk', hv]) (hpair o' o ho' ho hlt)

/-- **A key is found exactly at the ordinal of the key with its values.** -/
theorem IsIndex.find_eq_some_iff (hd : d.IsIndex spec) {k : Key} (hk : spec.IsHashed k) {o : Nat} :
    d.find k = some o ↔ ∃ k', d.keys.toList[o]? = some k' ∧ k'.values = k.values := by
  constructor
  · intro h
    obtain ⟨k', hk', -, hsame⟩ := findWhere_eq_some h
    exact ⟨k', by rwa [Array.getElem?_toList], (Key.same_iff.mp hsame).2⟩
  · rintro ⟨k', hk', hv⟩
    -- the lookup goes by the hash first, and keys of equal values have equal hashes
    have hhash : k'.hash = k.hash := by
      rw [hd.hashed k' (List.mem_of_getElem? hk'), hk, hv]
    cases hf : d.find k with
    | none =>
      have hnot := findWhere_eq_none hf (by rwa [Array.getElem?_toList] at hk') hhash
      rw [Key.same_iff.mpr ⟨hhash, hv⟩] at hnot
      cases hnot
    | some o' =>
      obtain ⟨k'', hk'', -, hsame⟩ := findWhere_eq_some hf
      rw [← Array.getElem?_toList] at hk''
      have hv'' := (Key.same_iff.mp hsame).2
      rw [hd.ordinal_unique hk'' hk' (hv''.trans hv.symm)]

/-- **A key is not found exactly if no key has its values.** -/
theorem IsIndex.find_eq_none_iff (hd : d.IsIndex spec) {k : Key} (hk : spec.IsHashed k) :
    d.find k = none ↔ ∀ k' ∈ d.keys.toList, k'.values ≠ k.values := by
  constructor
  · intro h k' hk' hv
    obtain ⟨o, ho⟩ := List.mem_iff_getElem?.mp hk'
    rw [(hd.find_eq_some_iff hk).mpr ⟨k', ho, hv⟩] at h
    cases h
  · intro h
    cases hf : d.find k with
    | none => rfl
    | some o =>
      obtain ⟨k', hk', hv⟩ := (hd.find_eq_some_iff hk).mp hf
      exact absurd hv (h k' (List.mem_of_getElem? hk'))

/-- A key that is inserted gets the next ordinal. -/
theorem keys_toList_insert (d : Dictionary) (k : Key) :
    (d.insert k).keys.toList = d.keys.toList ++ [k] := Array.toList_push

/-- The dictionary of some keys, inserted in order. -/
def ofKeys (ks : List Key) : Dictionary := ks.foldl insert .empty

theorem ofKeys_concat (ks : List Key) (k : Key) : ofKeys (ks ++ [k]) = (ofKeys ks).insert k :=
  List.foldl_append

/-- A dictionary keeps its keys in the order in which they were inserted. -/
theorem keys_ofKeys (ks : List Key) : (ofKeys ks).keys.toList = ks := by
  induction ks using List.reverseRecOn with
  | nil => rfl
  | append_singleton ks k ih => rw [ofKeys_concat, keys_toList_insert, ih]

/-- Inserting a key that was not found keeps the keys different. -/
theorem IsIndex.insert (hd : d.IsIndex spec) {k : Key} (hk : spec.IsHashed k)
    (hnew : d.find k = none) : (d.insert k).IsIndex spec := by
  have hdiffer := (hd.find_eq_none_iff hk).mp hnew
  constructor
  · intro k' hk'
    rw [keys_toList_insert, List.mem_append, List.mem_singleton] at hk'
    rcases hk' with hk' | rfl
    · exact hd.hashed k' hk'
    · exact hk
  · rw [keys_toList_insert, List.pairwise_append]
    refine ⟨hd.distinct, List.pairwise_singleton _ _, fun a ha b hb => ?_⟩
    rw [List.mem_singleton.mp hb]
    exact hdiffer a ha

/-- What was found before a key is inserted is found at the same ordinal afterwards. -/
theorem IsIndex.find_insert_of_some (hd : d.IsIndex spec) {k k' : Key} (hk : spec.IsHashed k)
    (hk' : spec.IsHashed k') (hnew : d.find k = none) {o : Nat} (h : d.find k' = some o) :
    (d.insert k).find k' = some o := by
  obtain ⟨found, hfound, hv⟩ := (hd.find_eq_some_iff hk').mp h
  refine ((hd.insert hk hnew).find_eq_some_iff hk').mpr ⟨found, ?_, hv⟩
  rw [keys_toList_insert]
  exact List.getElem?_append_left (List.getElem?_eq_some_iff.mp hfound).1 ▸ hfound

/-- An inserted key is found at the end. -/
theorem IsIndex.find_insert_self (hd : d.IsIndex spec) {k : Key} (hk : spec.IsHashed k)
    (hnew : d.find k = none) : (d.insert k).find k = some d.size := by
  refine ((hd.insert hk hnew).find_eq_some_iff hk).mpr ⟨k, ?_, rfl⟩
  rw [keys_toList_insert]
  exact List.getElem?_concat_length

end Dictionary

/-! ## Evaluators on one table -/

/-- An evaluator of a specification whose memory, if it has one, is of this table. -/
structure KeyEvaluator.IsCoherent (spec : GroupingSpec) (t : Table) (ev : KeyEvaluator) : Prop where
  exprs : ev.exprs = spec.keys
  hashValue : ev.hashValue = spec.hashValue
  memory : ∀ row, ev.row = some row → ev.keyAt row = spec.keyAt t row

namespace KeyEvaluator

variable {spec : GroupingSpec} {t : Table} {ev : KeyEvaluator}

/-- A new evaluator remembers no row, and so no row of another table. -/
theorem isCoherent_create (spec : GroupingSpec) (t : Table) :
    (KeyEvaluator.create spec.keys spec.hashValue).IsCoherent spec t :=
  ⟨rfl, rfl, fun _ h => nomatch h⟩

/-- An evaluator remembers the row it was last asked for. -/
theorem row_visit (ev : KeyEvaluator) (t : Table) (row : Nat) :
    (ev.visit t row).row = some row := by
  unfold visit
  split
  · assumption
  · rfl

/-- **Asked for a row, a coherent evaluator remembers the key of that row.** -/
theorem IsCoherent.keyAt_visit (h : ev.IsCoherent spec t) (row : Nat) :
    (ev.visit t row).keyAt row = spec.keyAt t row := by
  unfold visit
  split
  case isTrue hrow => exact h.memory row hrow
  case isFalse =>
    simp only [keyAt, GroupingSpec.keyAt, Key.ofRow, h.exprs, h.hashValue]

/-- Rows of the same table leave an evaluator coherent. -/
theorem IsCoherent.visit (h : ev.IsCoherent spec t) (row : Nat) :
    (ev.visit t row).IsCoherent spec t := by
  have hsame : (ev.visit t row).exprs = ev.exprs ∧ (ev.visit t row).hashValue = ev.hashValue := by
    unfold KeyEvaluator.visit
    split <;> exact ⟨rfl, rfl⟩
  refine ⟨hsame.1.trans h.exprs, hsame.2.trans h.hashValue, fun row' hrow' => ?_⟩
  rw [row_visit] at hrow'
  cases hrow'
  exact h.keyAt_visit row

end KeyEvaluator

/-! ## A table to look at -/

/-- Three rows in two groups, one of them with NULL as its key. -/
def Table.sample : Table :=
  ⟨2, #[#[.int 7, .int 1], #[.null, .int 2], #[.int 7, .null]], by decide⟩

/-- How many rows of every key, and the sum of their second column. -/
def GroupingSpec.sample : GroupingSpec where
  keys := [.column 0 .int64 none]
  aggregates := [.countRows, ⟨⟨.sum, .int64⟩, some (.column 1 .int64 none)⟩]

example : GroupingSpec.sample.firstRows .sample [0, 1, 2] = [0, 1] := by decide
example : GroupingSpec.sample.members .sample [0, 1, 2] [.int 7] = [0, 2] := by decide

end Cohort
