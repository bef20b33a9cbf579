import Mathlib.Data.List.Infix
import Cohort.Proofs.Dictionary.HashTable
import Cohort.Proofs.Key.Memory
/-
  A dictionary is an EXACT index with stable ordinals, whatever table it keeps its ordinals in.

  1. **Keys.**  Keys may come with any hash, so what tells them apart is `Key.same`: hash and values.
     Among keys that are pairwise different (`Key.Distinct`) an ordinal is decided by its key.

  2. **Lookup.**  Whatever finds only ordinals of the key asked for, and finds one if there is one,
     finds exactly the ordinal of that key (`Key.Distinct.found_iff`).  The index by hash does that
     (`find_iff`), and so does a hash table that lists the ordinals, although it returns ordinals of
     other hashes too: the keys beside it are compared hash and all (`TableDictionary.find_iff`).

  3. **Calls.**  Keys are inserted only if they are absent, by `findOrInsert` because it looked and by
     `insert` because the caller did (`InOrder`).  So keys stay different from call to call, table
     and keys stay in step (`TableDictionary.InStep`), and no call touches an earlier key.
-/

namespace Cohort

/-! ## Different keys -/

namespace Key

theorem same_symm {a b : Key} (h : a.same b = true) : b.same a = true := by
  rw [same_iff] at h ⊢
  exact ⟨h.1.symm, h.2.symm⟩

theorem same_trans {a b c : Key} (h : a.same b = true) (h' : b.same c = true) :
    a.same c = true := by
  rw [same_iff] at h h' ⊢
  exact ⟨h.1.trans h'.1, h.2.trans h'.2⟩

/-- No two of these keys name one group. -/
def Distinct (ks : List Key) : Prop := ks.Pairwise fun a b => a.same b = false

variable {ks : List Key}

/-- Two ordinals with keys of one group are one ordinal. -/
theorem Distinct.ordinal_unique (h : Distinct ks) {o o' : Nat} {a b : Key} (ha : ks[o]? = some a)
    (hb : ks[o']? = some b) (hab : a.same b = true) : o = o' := by
  obtain ⟨ho, rfl⟩ := List.getElem?_eq_some_iff.mp ha
  obtain ⟨ho', rfl⟩ := List.getElem?_eq_some_iff.mp hb
  have hpair := List.pairwise_iff_getElem.mp h
  rcases Nat.lt_trichotomy o o' with hlt | heq | hlt
  · have hnot := hpair o o' ho ho' hlt
    rw [hab] at hnot
    cases hnot
  · exact heq
  · have hnot := hpair o' o ho' ho hlt
    rw [same_symm hab] at hnot
    cases hnot

/-- A key that is not among them may be appended. -/
theorem Distinct.concat (h : Distinct ks) {k : Key} (hk : ∀ k' ∈ ks, k'.same k = false) :
    Distinct (ks ++ [k]) := by
  refine List.pairwise_append.mpr ⟨h, List.pairwise_singleton _ _, fun a ha b hb => ?_⟩
  rw [List.mem_singleton.mp hb]
  exact hk a ha

/-- **What finds only the key asked for, and finds it if it is there, finds its ordinal.** -/
theorem Distinct.found_iff (h : Distinct ks) {k : Key} {found : Option Nat}
    (honly : ∀ o, found = some o → ∃ k', ks[o]? = some k' ∧ k'.same k = true)
    (hfinds : ∀ (o : Nat) (k' : Key), ks[o]? = some k' → k'.same k = true → found.isSome = true)
    (o : Nat) :
    found = some o ↔ ∃ k', ks[o]? = some k' ∧ k'.same k = true := by
  constructor
  · exact honly o
  · rintro ⟨k', hk', hsame⟩
    cases hfound : found with
    | none =>
      have hsome := hfinds o k' hk' hsame
      rw [hfound] at hsome
      cases hsome
    | some o' =>
      obtain ⟨k'', hk'', hsame'⟩ := honly o' hfound
      rw [h.ordinal_unique hk'' hk' (same_trans hsame' (same_symm hsame))]

end Key

/-! ## The index by hash -/

namespace Dictionary

variable {spec : GroupingSpec} {t : Table} {d : Dictionary}

/-- A key is found exactly at the ordinal of the key of its group. -/
theorem find_iff (h : Key.Distinct d.keys.toList) (k : Key) (o : Nat) :
    d.find k = some o ↔ ∃ k', d.keys.toList[o]? = some k' ∧ k'.same k = true := by
  refine h.found_iff (fun o' hfind => ?_) (fun o' k' hk' hsame => ?_) o
  · obtain ⟨k', hk', -, hsame⟩ := findWhere_eq_some hfind
    exact ⟨k', by rwa [Array.getElem?_toList], hsame⟩
  · rw [Array.getElem?_toList] at hk'
    cases hfind : d.find k with
    | some _ => rfl
    | none =>
      have hnot := findWhere_eq_none hfind hk' (Key.same_iff.mp hsame).1
      rw [hsame] at hnot
      cases hnot

/-- A key is not found exactly if no key names its group. -/
theorem find_eq_none (h : Key.Distinct d.keys.toList) (k : Key) :
    d.find k = none ↔ ∀ k' ∈ d.keys.toList, k'.same k = false := by
  constructor
  · intro hnone k' hk'
    obtain ⟨o, ho⟩ := List.mem_iff_getElem?.mp hk'
    by_contra hsame
    rw [(find_iff h k o).mpr ⟨k', ho, eq_true_of_ne_false hsame⟩] at hnone
    cases hnone
  · intro hall
    cases hfind : d.find k with
    | none => rfl
    | some o =>
      obtain ⟨k', hk', hsame⟩ := (find_iff h k o).mp hfind
      rw [hall k' (List.mem_of_getElem? hk')] at hsame
      cases hsame

/-- **A row is looked up as its key would be**, by any evaluator that was used on its table only. -/
theorem findOrInsert_eq {ev : KeyEvaluator} (hev : ev.UsedOn spec t) (row : Nat) :
    d.findOrInsert ev t row =
      match d.find (spec.keyAt t row) with
      | some o => ((o, false), d, ev.visit t row)
      | none => ((d.size, true), d.insert (spec.keyAt t row), ev.visit t row) := by
  have hkey := hev.isCoherent.keyAt_visit row
  have hfind : d.findRemembered (ev.visit t row) = d.find (spec.keyAt t row) := by
    rw [findRemembered_eq_find _ _ row, hkey]
  rw [← hfind, ← hkey]
  rfl

/-- An exact index: what a dictionary answers, said of its keys alone. -/
structure IsExact (spec : GroupingSpec) (t : Table) (d : Dictionary) : Prop where
  /-- No two keys name one group. -/
  distinct : Key.Distinct d.keys.toList
  /-- A key is found exactly at the ordinal of the key of its group. -/
  find : ∀ (k : Key) (o : Nat), d.find k = some o ↔ ∃ k', d.keys[o]? = some k' ∧ k'.same k = true
  /-- A row whose key is there is answered with the ordinal of that key, and nothing changes. -/
  known : ∀ (ev : KeyEvaluator) (row o : Nat) (k' : Key), ev.UsedOn spec t →
    d.keys[o]? = some k' → k'.same (spec.keyAt t row) = true →
    d.findOrInsert ev t row = ((o, false), d, ev.visit t row)
  /-- The key of another row is appended, and its ordinal is the old size. -/
  unknown : ∀ (ev : KeyEvaluator) (row : Nat), ev.UsedOn spec t →
    (∀ k' ∈ d.keys.toList, k'.same (spec.keyAt t row) = false) →
    (d.findOrInsert ev t row).1 = (d.size, true) ∧
    (d.findOrInsert ev t row).2.1.keys = d.keys.push (spec.keyAt t row) ∧
    (d.findOrInsert ev t row).2.2 = ev.visit t row

/-- A dictionary of different keys is an exact index. -/
theorem isExact_of_distinct (h : Key.Distinct d.keys.toList) : d.IsExact spec t where
  distinct := h
  find k o := by
    rw [find_iff h, Array.getElem?_toList]
  known ev row o k' hev hk' hsame := by
    rw [← Array.getElem?_toList] at hk'
    rw [findOrInsert_eq hev, (find_iff h _ o).mpr ⟨k', hk', hsame⟩]
  unknown ev row hev hall := by
    rw [findOrInsert_eq hev, (find_eq_none h _).mpr hall]
    exact ⟨rfl, keys_insert d _, rfl⟩

end Dictionary

/-! ## Ordinals in a hash table -/

/-- Keys by ordinal, beside a hash table that lists the ordinals. -/
structure TableDictionary (T : HashTable Nat) where
  table : T.State
  keys : Array Key

namespace TableDictionary

variable {T : HashTable Nat} {spec : GroupingSpec} {t : Table}

/-- A dictionary without keys. -/
def empty (T : HashTable Nat) : TableDictionary T := ⟨T.empty, #[]⟩

/-- An ordinal of this hash whose key satisfies `p`. -/
def findWhere (d : TableDictionary T) (hash : UInt64) (p : Key → Bool) : Option Nat :=
  T.get d.table hash fun o => (d.keys[o]?).any p

/-- The ordinal of a key. -/
def find (d : TableDictionary T) (k : Key) : Option Nat :=
  d.findWhere k.hash fun other => other.same k

/-- Append a key: first to the keys, so that the table can hash its ordinal. -/
def insert (d : TableDictionary T) (k : Key) : TableDictionary T :=
  let keys := d.keys.push k
  ⟨T.insert d.table k.hash d.keys.size fun o => ((keys[o]?).map (·.hash)).getD 0, keys⟩

/-- The group of a row, as `Dictionary.findOrInsert` has it. -/
def findOrInsert (d : TableDictionary T) (ev : KeyEvaluator) (t : Table) (row : Nat) :
    (Nat × Bool) × TableDictionary T × KeyEvaluator :=
  let ev := ev.visit t row
  match d.findWhere ev.hash ev.isMatch with
  | some o => ((o, false), d, ev)
  | none => ((d.keys.size, true), d.insert (ev.keyAt row), ev)

/-- Table and keys are in step: the table holds every ordinal under the hash of its key. -/
def InStep (d : TableDictionary T) : Prop :=
  ∃ members, T.Holds d.table members ∧
    ∀ h o, (h, o) ∈ members ↔ ∃ k, d.keys[o]? = some k ∧ k.hash = h

theorem inStep_empty (T : HashTable Nat) : (empty T).InStep :=
  ⟨[], T.holds_empty, fun h o => by simp [empty]⟩

variable {d : TableDictionary T}

/-- Table and keys stay in step, and whenever the table asks for a hash it gets the right one. -/
theorem InStep.insert (h : d.InStep) (k : Key) : (d.insert k).InStep := by
  obtain ⟨members, hholds, hmembers⟩ := h
  have hall : ∀ h o, (h, o) ∈ (k.hash, d.keys.size) :: members ↔
      ∃ k', (d.keys.push k)[o]? = some k' ∧ k'.hash = h := by
    intro h o
    rw [List.mem_cons, Array.getElem?_push, hmembers]
    by_cases ho : o = d.keys.size
    · subst ho
      simp [eq_comm]
    · simp [ho]
  refine ⟨(k.hash, d.keys.size) :: members, T.holds_insert hholds fun m hm => ?_, hall⟩
  obtain ⟨k', hk', hhash⟩ := (hall m.1 m.2).mp hm
  rw [hk']
  exact hhash

/-- In step, a key is found exactly at the ordinal of the key of its group. -/
theorem find_iff (hstep : d.InStep) (h : Key.Distinct d.keys.toList) (k : Key) (o : Nat) :
    d.find k = some o ↔ ∃ k', d.keys.toList[o]? = some k' ∧ k'.same k = true := by
  obtain ⟨members, hholds, hmembers⟩ := hstep
  refine h.found_iff (fun o' hfind => ?_) (fun o' k' hk' hsame => ?_) o
  · -- the hash under which `o'` was put in does not matter: its key was compared
    have hany := (T.mem_of_get hholds hfind).1
    rw [Array.getElem?_toList]
    cases hk' : d.keys[o']? with
    | none =>
      rw [hk'] at hany
      cases hany
    | some k' =>
      rw [hk'] at hany
      exact ⟨k', rfl, hany⟩
  · rw [Array.getElem?_toList] at hk'
    refine T.isSome_get hholds ((hmembers k.hash o').mpr ⟨k', hk', (Key.same_iff.mp hsame).1⟩) ?_
    rw [hk']
    exact hsame

/-- **With the same keys, a hash table finds what the index by hash finds.** -/
theorem find_eq (hstep : d.InStep) {d' : Dictionary} (hkeys : d.keys = d'.keys)
    (h : Key.Distinct d'.keys.toList) (k : Key) : d.find k = d'.find k := by
  refine Option.ext fun o => ?_
  rw [find_iff hstep (hkeys ▸ h) k o, Dictionary.find_iff h k o, hkeys]

/-- A row is looked up as its key would be, also in a hash table. -/
theorem findOrInsert_eq {ev : KeyEvaluator} (hev : ev.UsedOn spec t) (row : Nat) :
    d.findOrInsert ev t row =
      match d.find (spec.keyAt t row) with
      | some o => ((o, false), d, ev.visit t row)
      | none => ((d.keys.size, true), d.insert (spec.keyAt t row), ev.visit t row) := by
  have hkey := hev.isCoherent.keyAt_visit row
  rw [← hkey]
  rfl

end TableDictionary

/-! ## Calls -/

namespace Dictionary

/-- A call of a dictionary. -/
inductive Call
  /-- Find the group of a row, or open it. -/
  | findOrInsert (ev : KeyEvaluator) (row : Nat)
  /-- Find a key. -/
  | find (k : Key)
  /-- Append a key that is absent. -/
  | insert (k : Key)

/-- The ordinal that a call answers, if any, whether it is new, and the dictionary afterwards. -/
def Call.perform (t : Table) (d : Dictionary) : Call → (Option Nat × Bool) × Dictionary
  | .findOrInsert ev row =>
    let (answer, d', _) := d.findOrInsert ev t row
    ((some answer.1, answer.2), d')
  | .find k => ((d.find k, false), d)
  | .insert k => ((some d.size, true), d.insert k)

/-- The same call of a dictionary that keeps its ordinals in a hash table. -/
def Call.performOver {T : HashTable Nat} (t : Table) (d : TableDictionary T) :
    Call → (Option Nat × Bool) × TableDictionary T
  | .findOrInsert ev row =>
    let (answer, d', _) := d.findOrInsert ev t row
    ((some answer.1, answer.2), d')
  | .find k => ((d.find k, false), d)
  | .insert k => ((some d.keys.size, true), d.insert k)

/-- The dictionary after some calls. -/
def after (t : Table) (calls : List Call) (d : Dictionary) : Dictionary :=
  calls.foldl (fun d c => (c.perform t d).2) d

/-- The dictionary over a hash table after the same calls. -/
def afterOver {T : HashTable Nat} (t : Table) (calls : List Call) (d : TableDictionary T) :
    TableDictionary T :=
  calls.foldl (fun d c => (c.performOver t d).2) d

/-- What callers promise: evaluators of one specification, used on one table only, and no second
    insertion of a key. -/
def Call.IsAllowed (spec : GroupingSpec) (t : Table) (d : Dictionary) : Call → Prop
  | .findOrInsert ev _ => ev.UsedOn spec t
  | .find _ => True
  | .insert k => ∀ k' ∈ d.keys.toList, k'.same k = false

/-- Whether every call is allowed when its turn comes. -/
def InOrder (spec : GroupingSpec) (t : Table) : Dictionary → List Call → Prop
  | _, [] => True
  | d, c :: calls => c.IsAllowed spec t d ∧ InOrder spec t (c.perform t d).2 calls

variable {spec : GroupingSpec} {t : Table} {d : Dictionary} {c : Call}

/-- A call leaves the keys as they are or appends one that was absent. -/
theorem keys_perform (h : Key.Distinct d.keys.toList) (hc : c.IsAllowed spec t d) :
    (c.perform t d).2 = d ∨
      ∃ k, (c.perform t d).2 = d.insert k ∧ ∀ k' ∈ d.keys.toList, k'.same k = false := by
  cases c with
  | findOrInsert ev row =>
    have heq := findOrInsert_eq (d := d) hc row
    cases hfind : d.find (spec.keyAt t row) with
    | some o =>
      rw [hfind] at heq
      left
      simp only [Call.perform, heq]
    | none =>
      rw [hfind] at heq
      right
      refine ⟨spec.keyAt t row, ?_, (find_eq_none h _).mp hfind⟩
      simp only [Call.perform, heq]
  | find k => exact .inl rfl
  | insert k => exact .inr ⟨k, rfl, hc⟩

/-- A call keeps the keys different. -/
theorem distinct_perform (h : Key.Distinct d.keys.toList) (hc : c.IsAllowed spec t d) :
    Key.Distinct (c.perform t d).2.keys.toList := by
  rcases keys_perform h hc with heq | ⟨k, heq, hk⟩
  · rwa [heq]
  · rw [heq, keys_toList_insert]
    exact h.concat hk

/-- A call keeps every key at its ordinal. -/
theorem prefix_perform (h : Key.Distinct d.keys.toList) (hc : c.IsAllowed spec t d) :
    d.keys.toList <+: (c.perform t d).2.keys.toList := by
  rcases keys_perform h hc with heq | ⟨k, heq, -⟩
  · rw [heq]
  · rw [heq, keys_toList_insert]
    exact List.prefix_append _ _

/-- **A hash table gives the same answer**, and stays in step. -/
theorem performOver_eq {T : HashTable Nat} {d' : TableDictionary T} (h : Key.Distinct d.keys.toList)
    (hc : c.IsAllowed spec t d) (hkeys : d'.keys = d.keys) (hstep : d'.InStep) :
    (c.performOver t d').1 = (c.perform t d).1 ∧
      (c.performOver t d').2.keys = (c.perform t d).2.keys ∧ (c.performOver t d').2.InStep := by
  cases c with
  | findOrInsert ev row =>
    have heq := findOrInsert_eq (d := d) hc row
    have hover := TableDictionary.findOrInsert_eq (d := d') hc row
    rw [TableDictionary.find_eq hstep hkeys h] at hover
    cases hfind : d.find (spec.keyAt t row) with
    | some o =>
      rw [hfind] at heq hover
      simp only [Call.perform, Call.performOver, heq, hover]
      exact ⟨trivial, hkeys, hstep⟩
    | none =>
      rw [hfind] at heq hover
      simp only [Call.perform, Call.performOver, heq, hover, hkeys]
      exact ⟨rfl, congrArg (·.push (spec.keyAt t row)) hkeys, hstep.insert _⟩
  | find k =>
    refine ⟨?_, hkeys, hstep⟩
    show (d'.find k, false) = (d.find k, false)
    rw [TableDictionary.find_eq hstep hkeys h k]
  | insert k =>
    refine ⟨?_, congrArg (·.push k) hkeys, hstep.insert k⟩
    show (some d'.keys.size, true) = (some d.keys.size, true)
    rw [hkeys]

/-- Calls in order keep the keys different. -/
theorem distinct_after {calls : List Call} (h : Key.Distinct d.keys.toList)
    (hcalls : InOrder spec t d calls) : Key.Distinct (after t calls d).keys.toList := by
  induction calls generalizing d with
  | nil => exact h
  | cons c calls ih => exact ih (distinct_perform h hcalls.1) hcalls.2

/-- Calls in order keep every key at its ordinal. -/
theorem prefix_after {calls : List Call} (h : Key.Distinct d.keys.toList)
    (hcalls : InOrder spec t d calls) : d.keys.toList <+: (after t calls d).keys.toList := by
  induction calls generalizing d with
  | nil => exact List.prefix_refl _
  | cons c calls ih =>
    exact (prefix_perform h hcalls.1).trans (ih (distinct_perform h hcalls.1) hcalls.2)

theorem inOrder_append {calls more : List Call} :
    InOrder spec t d (calls ++ more) ↔
      InOrder spec t d calls ∧ InOrder spec t (after t calls d) more := by
  induction calls generalizing d with
  | nil => simp [InOrder, after]
  | cons c calls ih =>
    rw [List.cons_append, InOrder, InOrder, ih, and_assoc]
    rfl

theorem after_append {calls more : List Call} :
    after t (calls ++ more) d = after t more (after t calls d) := List.foldl_append

/-- Calls in order get the same answers from a hash table. -/
theorem afterOver_eq {T : HashTable Nat} {calls : List Call} {d' : TableDictionary T}
    (h : Key.Distinct d.keys.toList) (hcalls : InOrder spec t d calls) (hkeys : d'.keys = d.keys)
    (hstep : d'.InStep) :
    (afterOver t calls d').keys = (after t calls d).keys ∧ (afterOver t calls d').InStep := by
  induction calls generalizing d d' with
  | nil => exact ⟨hkeys, hstep⟩
  | cons c calls ih =>
    obtain ⟨-, hkeys', hstep'⟩ := performOver_eq h hcalls.1 hkeys hstep
    exact ih (distinct_perform h hcalls.1) hcalls.2 hkeys' hstep'

end Dictionary

/-- **A dictionary is an exact index with stable dense ordinals.**  After any calls in order it has
    one key for each group it was shown, finds a key exactly at its ordinal, answers a row with the
    ordinal of its key, which it appends if it is new, and all keys of any earlier moment are still
    where they were.  A dictionary that keeps its ordinals in a hash table, whatever the table and
    the hash function are, has the same keys and gives the same answers. -/
theorem dictionary_exact (T : HashTable Nat) {spec : GroupingSpec} {t : Table}
    {calls : List Dictionary.Call} (hcalls : Dictionary.InOrder spec t .empty calls) :
    (Dictionary.after t calls .empty).IsExact spec t ∧
    (∀ before more, calls = before ++ more →
      (Dictionary.after t before .empty).keys.toList <+:
        (Dictionary.after t calls .empty).keys.toList) ∧
    (Dictionary.afterOver t calls (.empty T)).keys = (Dictionary.after t calls .empty).keys ∧
    ∀ c : Dictionary.Call, c.IsAllowed spec t (Dictionary.after t calls .empty) →
      (c.performOver t (Dictionary.afterOver t calls (.empty T))).1 =
        (c.perform t (Dictionary.after t calls .empty)).1 := by
  have hempty : Key.Distinct Dictionary.empty.keys.toList := List.Pairwise.nil
  have hdistinct := Dictionary.distinct_after hempty hcalls
  obtain ⟨hkeys, hstep⟩ :
      (Dictionary.afterOver t calls (.empty T)).keys = (Dictionary.after t calls .empty).keys ∧
        (Dictionary.afterOver t calls (.empty T)).InStep :=
    Dictionary.afterOver_eq hempty hcalls rfl (TableDictionary.inStep_empty T)
  refine ⟨Dictionary.isExact_of_distinct hdistinct, ?_, hkeys, fun c hc => ?_⟩
  · rintro before more rfl
    obtain ⟨hbefore, hmore⟩ := Dictionary.inOrder_append.mp hcalls
    rw [Dictionary.after_append]
    exact Dictionary.prefix_after (Dictionary.distinct_after hempty hbefore) hmore
  · exact (Dictionary.performOver_eq hdistinct hc hkeys hstep).1

/-- Three keys of one hash, one of them brought by hand, in a table that looks at seven bits. -/
theorem dictionary_exact_sample :
    let spec : GroupingSpec := { GroupingSpec.sample with hashValue := fun _ => 7 }
    let ev := KeyEvaluator.create spec.keys spec.hashValue
    let calls : List Dictionary.Call :=
      [.findOrInsert ev 0, .insert ⟨7, 9, [.text "x"]⟩, .findOrInsert (ev.visit .sample 0) 1]
    let d := Dictionary.after .sample calls .empty
    Dictionary.InOrder spec .sample .empty calls ∧ d.IsExact spec .sample ∧
    (Dictionary.afterOver .sample calls (.empty (HashTable.tagged Nat))).keys = d.keys ∧
    d.keys.toList.map (·.values) = [[.int 7], [.text "x"], [.null]] := by
  intro spec ev calls d
  have hev : ev.UsedOn spec .sample := KeyEvaluator.usedOn_create spec .sample
  have hnew : (Dictionary.Call.insert ⟨7, 9, [.text "x"]⟩).IsAllowed spec .sample
      ((Dictionary.Call.findOrInsert ev 0).perform .sample .empty).2 := by
    unfold Dictionary.Call.IsAllowed
    decide
  have hcalls : Dictionary.InOrder spec .sample .empty calls := ⟨hev, hnew, hev.visit 0, trivial⟩
  obtain ⟨hexact, -, hkeys, -⟩ := dictionary_exact (HashTable.tagged Nat) hcalls
  exact ⟨hcalls, hexact, hkeys, by decide⟩

end Cohort
