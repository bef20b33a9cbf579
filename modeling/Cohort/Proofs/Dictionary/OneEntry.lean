import Mathlib.Data.Finset.Card
import Mathlib.Data.List.Induction
import Cohort.Dictionary.Shared
import Cohort.Proofs.Dictionary.Exact
/-
  ONE ENTRY per key, whichever way a shared dictionary is asked.

  1. **Specification.**  Of the calls made so far, the first to meet a key made its entry.  So the
     entries are those of the first calls for each key (`entriesOf`), and a call is answered by the
     list of entries: with the entry of its key if there is one, and else with its own
     (`Call.answerBy`).  Entries may be anything, such as the number of the call that made them; then
     equal entries are one and the same.

  2. **Two ways to ask.**  The row that an evaluator remembers and the key of that row have the same
     hash, also when they are handed to a hash table through a hasher, and they match the same keys.
     So a row is looked up as its key would be (`getOrInsertRow_eq`).

  3. **Two dictionaries.**  The dictionary with an index by hash answers as its list of groups does
     (`perform_eq`).  So does a hash table of keys with entries (`performOver_eq`): a key and a row
     are consistent in hash and equality, which is all that it asks for.
-/

namespace Cohort

/-! ## First members, counted -/

/-- There are as many first members as values. -/
theorem length_firsts {α β : Type} [DecidableEq β] (f : α → β) (l : List α) :
    (firsts f l).length = (l.map f).toFinset.card := by
  have hnodup : ((firsts f l).map f).Nodup := List.pairwise_map.mpr (pairwise_firsts l)
  have hsame : ((firsts f l).map f).toFinset = (l.map f).toFinset := by
    ext b
    rw [List.mem_toFinset, List.mem_toFinset, List.mem_map, List.mem_map]
    constructor
    · rintro ⟨a, ha, rfl⟩
      exact ⟨a, mem_of_mem_firsts ha, rfl⟩
    · rintro ⟨a, ha, rfl⟩
      exact exists_mem_firsts ha
  rw [← hsame, List.toFinset_card_of_nodup hnodup, List.length_map]

/-! ## Keys -/

namespace Key

/-- What tells the groups of keys apart. -/
def identity (k : Key) : UInt64 × List Scalar := (k.hash, k.values)

theorem same_iff_identity {a b : Key} : a.same b = true ↔ a.identity = b.identity := by
  rw [same_iff, identity, identity, Prod.mk.injEq]

theorem same_eq_false_iff {a b : Key} : a.same b = false ↔ a.identity ≠ b.identity := by
  rw [← Bool.not_eq_true, same_iff_identity]

variable {β : Type} {es : List (Key × β)}

/-- Among entries of different keys, the entry of a key is found. -/
theorem Distinct.find?_eq (h : Distinct (es.map Prod.fst)) {e : Key × β} (he : e ∈ es) {k : Key}
    (hsame : e.1.same k = true) : es.find? (fun e => e.1.same k) = some e := by
  induction es with
  | nil => cases he
  | cons e' es ih =>
    obtain ⟨hfirst, hrest⟩ := List.pairwise_cons.mp h
    rcases List.mem_cons.mp he with rfl | he
    · rw [List.find?_cons, hsame]
    · have hnot : e'.1.same k = false := by
        have hne := hfirst e.1 (List.mem_map_of_mem he)
        by_contra hsame'
        rw [same_trans (eq_true_of_ne_false hsame') (same_symm hsame)] at hne
        cases hne
      rw [List.find?_cons, hnot]
      exact ih hrest he

end Key

namespace SharedDictionary

variable {β : Type} {spec : GroupingSpec} {t : Table}

/-! ## Calls -/

/-- A call of a shared dictionary, with what makes an entry if there is none. -/
inductive Call (β : Type)
  /-- Get the entry of a row. -/
  | getRow (ev : KeyEvaluator) (row : Nat) (init : Unit → β)
  /-- Get the entry of a key. -/
  | getKey (k : Key) (init : Unit → β)
  /-- Donate an entry for a key. -/
  | donate (k : Key) (init : Unit → β)

namespace Call

/-- The key that a call is about. -/
def keyAt (spec : GroupingSpec) (t : Table) : Call β → Key
  | .getRow _ row _ => spec.keyAt t row
  | .getKey k _ => k
  | .donate k _ => k

/-- What tells the group of a call from those of others. -/
def identity (spec : GroupingSpec) (t : Table) (c : Call β) : UInt64 × List Scalar :=
  (c.keyAt spec t).identity

/-- The entry that a call makes. -/
def entry : Call β → β
  | .getRow _ _ init => init ()
  | .getKey _ init => init ()
  | .donate _ init => init ()

/-- What a call is answered with if it has made an entry: a donor gets nothing back. -/
def handed : Call β → Option β
  | .getRow _ _ init => some (init ())
  | .getKey _ init => some (init ())
  | .donate _ _ => none

/-- The key of a call with the entry that it makes. -/
def entered (spec : GroupingSpec) (t : Table) (c : Call β) : Key × β := (c.keyAt spec t, c.entry)

/-- What callers promise: evaluators of one specification, used on one table only. -/
def IsAllowed (spec : GroupingSpec) (t : Table) : Call β → Prop
  | .getRow ev _ _ => ev.UsedOn spec t
  | .getKey _ _ => True
  | .donate _ _ => True

/-- The entry that a call is answered with, if any, whether it made it, and the dictionary
    afterwards. -/
def perform (t : Table) (d : SharedDictionary β) : Call β → (Option β × Bool) × SharedDictionary β
  | .getRow ev row init =>
    let r := (d.getOrInsertRow ev t row init).1
    ((r.2.get? r.1.1, r.1.2), r.2)
  | .getKey k init =>
    let r := d.getOrInsertWith k init
    ((r.2.get? r.1.1, r.1.2), r.2)
  | .donate k init =>
    let r := d.tryInsertWith k init
    ((r.1.bind r.2.get?, r.2.size != d.size), r.2)

/-- What a list of entries answers to a call for a key, and the list afterwards. -/
def answerBy (es : List (Key × β)) (k : Key) (c : Call β) : (Option β × Bool) × List (Key × β) :=
  match es.find? fun e => e.1.same k with
  | some e => ((some e.2, false), es)
  | none => ((c.handed, true), es ++ [(k, c.entry)])

end Call

/-- The dictionary after some calls. -/
def after (t : Table) (calls : List (Call β)) (d : SharedDictionary β) : SharedDictionary β :=
  calls.foldl (fun d c => (c.perform t d).2) d

/-- The entries that some calls have made: those of the first calls for each key. -/
def entriesOf (spec : GroupingSpec) (t : Table) (calls : List (Call β)) : List (Key × β) :=
  (firsts (Call.identity spec t) calls).map (Call.entered spec t)

theorem distinct_entriesOf (calls : List (Call β)) :
    Key.Distinct ((entriesOf spec t calls).map Prod.fst) := by
  rw [entriesOf, List.map_map, Key.Distinct, List.pairwise_map]
  refine (pairwise_firsts calls).imp fun {a b} h => ?_
  exact Key.same_eq_false_iff.mpr h

/-- The entry of a key is that of the first call for it. -/
theorem find?_entriesOf (calls : List (Call β)) (k : Key) :
    (entriesOf spec t calls).find? (fun e => e.1.same k) =
      (calls.find? fun c => (c.keyAt spec t).same k).map (Call.entered spec t) := by
  rw [entriesOf, List.find?_map]
  refine congrArg (Option.map _) (find?_firsts (fun a b hab => ?_) calls)
  have hidentity : (a.keyAt spec t).identity = (b.keyAt spec t).identity := hab
  rw [Bool.eq_iff_iff]
  show (a.keyAt spec t).same k = true ↔ (b.keyAt spec t).same k = true
  rw [Key.same_iff_identity, Key.same_iff_identity, hidentity]

/-- One call more makes an entry if it is the first for its key. -/
theorem answerBy_entriesOf (calls : List (Call β)) (c : Call β) :
    (c.answerBy (entriesOf spec t calls) (c.keyAt spec t)).2 = entriesOf spec t (calls ++ [c]) := by
  rw [Call.answerBy, find?_entriesOf]
  cases hfind : calls.find? fun b => (b.keyAt spec t).same (c.keyAt spec t) with
  | some b =>
    have hsame := List.find?_some hfind
    have hmet : ∃ b ∈ calls, Call.identity spec t b = Call.identity spec t c :=
      ⟨b, List.mem_of_find?_eq_some hfind, Key.same_iff_identity.mp hsame⟩
    rw [entriesOf, entriesOf, firsts_concat_of_mem hmet]
    rfl
  | none =>
    have hnew : ∀ b ∈ calls, Call.identity spec t b ≠ Call.identity spec t c := by
      intro b hb heq
      exact List.find?_eq_none.mp hfind b hb (Key.same_iff_identity.mpr heq)
    have hentries : entriesOf spec t (calls ++ [c]) =
        entriesOf spec t calls ++ [(c.keyAt spec t, c.entry)] := by
      rw [entriesOf, entriesOf, firsts_concat_of_not_mem hnew, List.map_append]
      rfl
    rw [hentries]
    rfl

/-! ## The index by hash -/

variable {d : SharedDictionary β} {c : Call β}

/-- **A row is looked up as its key would be.** -/
theorem getOrInsertRow_eq (d : SharedDictionary β) {ev : KeyEvaluator} (hev : ev.UsedOn spec t)
    (row : Nat) (init : Unit → β) :
    (d.getOrInsertRow ev t row init).1 = d.getOrInsertWith (spec.keyAt t row) init := by
  have hkey := hev.isCoherent.keyAt_visit row
  have hfind : d.findRemembered (ev.visit t row) = d.find (spec.keyAt t row) := by
    rw [← hkey]
    rfl
  rw [getOrInsertRow, hfind, hkey, getOrInsertWith]
  cases d.find (spec.keyAt t row) <;> rfl

theorem map_fst_groups (d : SharedDictionary β) :
    d.groups.map Prod.fst = d.dictionary.keys.toList := by
  rw [groups, List.map_fst_zip]
  rw [Array.length_toList, Array.length_toList, d.entries_size]

theorem length_groups (d : SharedDictionary β) : d.groups.length = d.size := by
  rw [groups, List.length_zip, Array.length_toList, Array.length_toList, ← d.entries_size,
    Nat.min_self]
  rfl

theorem groups_insert (d : SharedDictionary β) (k : Key) (entry : β) :
    (d.insert k entry).groups = d.groups ++ [(k, entry)] := by
  have hlengths : d.dictionary.keys.toList.length = d.entries.toList.length := by
    rw [Array.length_toList, Array.length_toList, d.entries_size]
  show ((d.dictionary.keys.push k).toList).zip (d.entries.push entry).toList = _
  rw [Array.toList_push, Array.toList_push, List.zip_append hlengths]
  rfl

/-- A key without a slot is no key of the groups. -/
theorem find?_groups_of_none (h : Key.Distinct (d.groups.map Prod.fst)) {k : Key}
    (hfind : d.find k = none) : d.groups.find? (fun e => e.1.same k) = none := by
  rw [map_fst_groups] at h
  refine List.find?_eq_none.mpr fun e he => ?_
  have hmem : e.1 ∈ d.dictionary.keys.toList := by
    rw [← map_fst_groups]
    exact List.mem_map_of_mem he
  exact ne_true_of_eq_false ((Dictionary.find_eq_none h k).mp hfind e.1 hmem)

/-- What is found at the slot of a key is its entry in the groups. -/
theorem find?_groups_of_some (h : Key.Distinct (d.groups.map Prod.fst)) {k : Key} {slot : Nat}
    (hfind : d.find k = some slot) :
    ∃ e, d.groups.find? (fun e => e.1.same k) = some e ∧ d.get? slot = some e.2 := by
  have hkeys := h
  rw [map_fst_groups] at hkeys
  obtain ⟨k', hk', hsame⟩ := (Dictionary.find_iff hkeys k slot).mp hfind
  have hlt : slot < d.entries.toList.length := by
    have hkeysize := (List.getElem?_eq_some_iff.mp hk').1
    rw [Array.length_toList] at hkeysize ⊢
    rw [d.entries_size]
    exact hkeysize
  have hentry := List.getElem?_eq_getElem hlt
  have hmem : (k', d.entries.toList[slot]) ∈ d.groups :=
    List.mem_of_getElem? (List.getElem?_zip_eq_some.mpr ⟨hk', hentry⟩)
  refine ⟨_, h.find?_eq hmem hsame, ?_⟩
  show d.entries[slot]? = _
  rw [← Array.getElem?_toList, hentry]

/-- The entry of a key is got as the list of groups has it. -/
theorem perform_getKey (h : Key.Distinct (d.groups.map Prod.fst)) (k : Key) (init : Unit → β) :
    ((Call.getKey k init).perform t d).1 = ((Call.getKey k init).answerBy d.groups k).1 ∧
      ((Call.getKey k init).perform t d).2.groups =
        ((Call.getKey k init).answerBy d.groups k).2 := by
  simp only [Call.perform, Call.answerBy, getOrInsertWith]
  cases hfind : d.find k with
  | some slot =>
    obtain ⟨e, hgroups, hget⟩ := find?_groups_of_some h hfind
    rw [hgroups]
    show (d.get? slot, false) = (some e.2, false) ∧ _
    rw [hget]
    exact ⟨rfl, rfl⟩
  | none =>
    rw [find?_groups_of_none h hfind]
    show ((d.insert k (init ())).get? d.size, true) = (some (init ()), true) ∧ _
    rw [get?_insert, if_pos rfl]
    exact ⟨rfl, groups_insert d k (init ())⟩

/-- An entry is donated as the list of groups has it. -/
theorem perform_donate (h : Key.Distinct (d.groups.map Prod.fst)) (k : Key) (init : Unit → β) :
    ((Call.donate k init).perform t d).1 = ((Call.donate k init).answerBy d.groups k).1 ∧
      ((Call.donate k init).perform t d).2.groups =
        ((Call.donate k init).answerBy d.groups k).2 := by
  simp only [Call.perform, Call.answerBy, tryInsertWith]
  cases hfind : d.find k with
  | some slot =>
    obtain ⟨e, hgroups, hget⟩ := find?_groups_of_some h hfind
    rw [hgroups]
    show (d.get? slot, d.size != d.size) = (some e.2, false) ∧ _
    rw [hget, bne_self_eq_false]
    exact ⟨rfl, rfl⟩
  | none =>
    rw [find?_groups_of_none h hfind]
    show (none, (d.insert k (init ())).size != d.size) = (none, true) ∧ _
    rw [size_insert]
    exact ⟨by simp, groups_insert d k (init ())⟩

/-- **The dictionary answers as its list of groups does.** -/
theorem perform_eq (h : Key.Distinct (d.groups.map Prod.fst)) (hc : c.IsAllowed spec t) :
    (c.perform t d).1 = (c.answerBy d.groups (c.keyAt spec t)).1 ∧
      (c.perform t d).2.groups = (c.answerBy d.groups (c.keyAt spec t)).2 := by
  cases c with
  | getRow ev row init =>
    have hrow : (Call.getRow ev row init).perform t d =
        (Call.getKey (spec.keyAt t row) init).perform t d := by
      simp only [Call.perform, getOrInsertRow_eq d hc row init]
    rw [hrow]
    exact perform_getKey h (spec.keyAt t row) init
  | getKey k init => exact perform_getKey h k init
  | donate k init => exact perform_donate h k init

end SharedDictionary

/-! ## Entries in a hash table -/

/-- What a hash table is told about a key: the hash it carries, through a hasher that passes whole
    words through. -/
def Key.tableHash (k : Key) : UInt64 := Hash.passThrough [.word k.hash]

namespace EntryTable

variable {β : Type} {T : HashTable (Key × β)} {spec : GroupingSpec} {t : Table}

/-- The entry of a view of a key: what it is hashed as, and which keys it matches. -/
def lookup (s : T.State) (hash : UInt64) (p : Key → Bool) : Option β :=
  (T.get s (Hash.passThrough [.word hash]) fun e => p e.1).map Prod.snd

/-- Add an entry for a key. -/
def insert (s : T.State) (k : Key) (entry : β) : T.State :=
  T.insert s k.tableHash (k, entry) fun e => e.1.tableHash

/-- The entry of a key, whether it was added by this call, and the table afterwards. -/
def getOrInsertWith (s : T.State) (k : Key) (init : Unit → β) : (β × Bool) × T.State :=
  match lookup s k.hash fun other => other.same k with
  | some entry => ((entry, false), s)
  | none =>
    let entry := init ()
    ((entry, true), insert s k entry)

/-- The entry of the group of a row: looked up by what the evaluator remembers, and by its key if
    that finds nothing. -/
def getOrInsertRow (s : T.State) (ev : KeyEvaluator) (t : Table) (row : Nat) (init : Unit → β) :
    ((β × Bool) × T.State) × KeyEvaluator :=
  let ev := ev.visit t row
  match lookup s ev.hash ev.isMatch with
  | some entry => (((entry, false), s), ev)
  | none => (getOrInsertWith s (ev.keyAt row) init, ev)

/-- Donate an entry: what is there already, if anything, whether the entry was taken, and the table
    afterwards. -/
def tryInsertWith (s : T.State) (k : Key) (init : Unit → β) : (Option β × Bool) × T.State :=
  match lookup s k.hash fun other => other.same k with
  | some entry => ((some entry, false), s)
  | none => ((none, true), insert s k (init ()))

end EntryTable

namespace SharedDictionary

variable {β : Type} {T : HashTable (Key × β)} {spec : GroupingSpec} {t : Table}

/-- The same call of a hash table of entries. -/
def Call.performOver (t : Table) (s : T.State) : Call β → (Option β × Bool) × T.State
  | .getRow ev row init =>
    let r := (EntryTable.getOrInsertRow s ev t row init).1
    ((some r.1.1, r.1.2), r.2)
  | .getKey k init =>
    let r := EntryTable.getOrInsertWith s k init
    ((some r.1.1, r.1.2), r.2)
  | .donate k init => EntryTable.tryInsertWith s k init

/-- The hash table after some calls. -/
def afterOver (t : Table) (calls : List (Call β)) (s : T.State) : T.State :=
  calls.foldl (fun s c => (c.performOver t s).2) s

end SharedDictionary

namespace EntryTable

variable {β : Type} {T : HashTable (Key × β)} {spec : GroupingSpec} {t : Table} {s : T.State}
  {es : List (Key × β)}

/-- A hash table that holds these entries, each under the hash of its key. -/
def Keeps (T : HashTable (Key × β)) (s : T.State) (es : List (Key × β)) : Prop :=
  ∃ members, T.Holds s members ∧ (members.map Prod.snd).Perm es ∧
    ∀ m ∈ members, m.1 = m.2.1.tableHash

theorem keeps_empty (T : HashTable (Key × β)) : Keeps T T.empty [] :=
  ⟨[], T.holds_empty, .refl _, nofun⟩

/-- Adding an entry adds it, and entries that have to move are hashed as they were put in. -/
theorem Keeps.insert (h : Keeps T s es) (k : Key) (entry : β) :
    Keeps T (insert s k entry) (es ++ [(k, entry)]) := by
  obtain ⟨members, hholds, hperm, hhash⟩ := h
  have hall : ∀ m ∈ (k.tableHash, (k, entry)) :: members, m.2.1.tableHash = m.1 := by
    intro m hm
    rcases List.mem_cons.mp hm with rfl | hm
    · rfl
    · exact (hhash m hm).symm
  refine ⟨(k.tableHash, (k, entry)) :: members, T.holds_insert hholds hall, ?_, ?_⟩
  · exact (hperm.cons (k, entry)).trans (List.perm_append_singleton (k, entry) es).symm
  · exact fun m hm => (hall m hm).symm

/-- **A key finds its entry in a hash table**: keys that are the same are hashed alike. -/
theorem Keeps.lookup_eq (h : Keeps T s es) (hdistinct : Key.Distinct (es.map Prod.fst)) (k : Key) :
    lookup s k.hash (fun other => other.same k) =
      (es.find? fun e => e.1.same k).map Prod.snd := by
  obtain ⟨members, hholds, hperm, hhash⟩ := h
  have hmem : ∀ m ∈ members, m.2 ∈ es := fun m hm => hperm.mem_iff.mp (List.mem_map_of_mem hm)
  refine congrArg (Option.map Prod.snd) ?_
  cases hfind : es.find? fun e => e.1.same k with
  | none =>
    refine HashTable.get_eq_none hholds fun m hm => ?_
    exact eq_false_of_ne_true (List.find?_eq_none.mp hfind m.2 (hmem m hm))
  | some e =>
    have hsame := List.find?_some hfind
    obtain ⟨m, hm, rfl⟩ := List.mem_map.mp
      (hperm.mem_iff.mpr (List.mem_of_find?_eq_some hfind))
    have hunder : (Hash.passThrough [.word k.hash], m.2) ∈ members := by
      have hword : m.1 = Hash.passThrough [.word k.hash] := by
        rw [hhash m hm, Key.tableHash, (Key.same_iff.mp hsame).1]
      rw [← hword]
      exact hm
    refine HashTable.get_eq_some hholds hunder hsame fun m' hm' hsame' => ?_
    have hfind' := hdistinct.find?_eq (hmem m' hm') hsame'
    rw [hfind] at hfind'
    exact (Option.some.inj hfind').symm

theorem getOrInsertRow_eq {ev : KeyEvaluator} (hev : ev.UsedOn spec t) (row : Nat)
    (init : Unit → β) :
    (getOrInsertRow s ev t row init).1 = getOrInsertWith s (spec.keyAt t row) init := by
  have hkey := hev.isCoherent.keyAt_visit row
  have hlookup : lookup s (ev.visit t row).hash (ev.visit t row).isMatch =
      lookup s (spec.keyAt t row).hash fun other => other.same (spec.keyAt t row) := by
    rw [← hkey]
    rfl
  rw [getOrInsertRow, hlookup, hkey, getOrInsertWith]
  cases lookup s (spec.keyAt t row).hash fun other => other.same (spec.keyAt t row) <;> rfl

/-- The entry of a key is got as the list of entries has it. -/
theorem Keeps.performOver_getKey (h : Keeps T s es) (hdistinct : Key.Distinct (es.map Prod.fst))
    (k : Key) (init : Unit → β) :
    ((SharedDictionary.Call.getKey k init).performOver t s).1 =
        ((SharedDictionary.Call.getKey k init).answerBy es k).1 ∧
      Keeps T ((SharedDictionary.Call.getKey k init).performOver t s).2
        ((SharedDictionary.Call.getKey k init).answerBy es k).2 := by
  simp only [SharedDictionary.Call.performOver, SharedDictionary.Call.answerBy, getOrInsertWith,
    h.lookup_eq hdistinct]
  cases es.find? fun e => e.1.same k with
  | some e => exact ⟨rfl, h⟩
  | none => exact ⟨rfl, h.insert k (init ())⟩

/-- **A hash table answers as the list of its entries does.** -/
theorem Keeps.performOver_eq (h : Keeps T s es) (hdistinct : Key.Distinct (es.map Prod.fst))
    {c : SharedDictionary.Call β} (hc : c.IsAllowed spec t) :
    (c.performOver t s).1 = (c.answerBy es (c.keyAt spec t)).1 ∧
      Keeps T (c.performOver t s).2 (c.answerBy es (c.keyAt spec t)).2 := by
  cases c with
  | getRow ev row init =>
    have hrow : (SharedDictionary.Call.getRow ev row init).performOver t s =
        (SharedDictionary.Call.getKey (spec.keyAt t row) init).performOver t s := by
      simp only [SharedDictionary.Call.performOver, getOrInsertRow_eq hc row init]
    rw [hrow]
    exact h.performOver_getKey hdistinct (spec.keyAt t row) init
  | getKey k init => exact h.performOver_getKey hdistinct k init
  | donate k init =>
    simp only [SharedDictionary.Call.performOver, SharedDictionary.Call.answerBy, tryInsertWith,
      SharedDictionary.Call.keyAt, h.lookup_eq hdistinct]
    cases es.find? fun e => e.1.same k with
    | some e => exact ⟨rfl, h⟩
    | none => exact ⟨rfl, h.insert k (init ())⟩

end EntryTable

/-! ## After any calls -/

namespace SharedDictionary

variable {β : Type} {T : HashTable (Key × β)} {spec : GroupingSpec} {t : Table}

/-- What a shared dictionary answers after some calls, whoever keeps its entries. -/
structure OneEntryPerKey (spec : GroupingSpec) (t : Table) (before : List (Call β))
    (answer : Call β → Option β × Bool) (size : Nat) (groups : List (Key × β)) : Prop where
  /-- A key that was met is answered with the entry of the first call that met it, and no other
      entry is made. -/
  met : ∀ c c' : Call β, c.IsAllowed spec t →
    before.find? (fun b => (b.keyAt spec t).same (c.keyAt spec t)) = some c' →
    answer c = (some c'.entry, false)
  /-- For a key that was not met an entry is made.  It is the answer, except to a donor. -/
  unmet : ∀ c : Call β, c.IsAllowed spec t →
    (∀ b ∈ before, (b.keyAt spec t).same (c.keyAt spec t) = false) → answer c = (c.handed, true)
  /-- There are as many entries as different keys. -/
  size : size = (before.map (Call.identity spec t)).toFinset.card
  /-- The groups are the keys of the calls that met a key first, each with the entry it made. -/
  groups : groups.Perm ((firsts (Call.identity spec t) before).map fun c =>
    (c.keyAt spec t, c.entry))

/-- Who answers as the entries of the calls do has one entry per key. -/
theorem oneEntryPerKey_of_answerBy {calls : List (Call β)} {answer : Call β → Option β × Bool}
    {groups : List (Key × β)}
    (hanswer : ∀ c, c.IsAllowed spec t →
      answer c = (c.answerBy (entriesOf spec t calls) (c.keyAt spec t)).1)
    (hgroups : groups.Perm (entriesOf spec t calls)) :
    OneEntryPerKey spec t calls answer groups.length groups where
  met c c' hc hfind := by
    rw [hanswer c hc, Call.answerBy, find?_entriesOf, hfind]
    rfl
  unmet c hc hnew := by
    have hfind : calls.find? (fun b => (b.keyAt spec t).same (c.keyAt spec t)) = none :=
      List.find?_eq_none.mpr fun b hb => ne_true_of_eq_false (hnew b hb)
    rw [hanswer c hc, Call.answerBy, find?_entriesOf, hfind]
    rfl
  size := by
    rw [hgroups.length_eq, entriesOf, List.length_map, length_firsts]
  groups := hgroups

/-- The groups of the dictionary are the entries of the calls. -/
theorem groups_after {calls : List (Call β)} (hcalls : ∀ c ∈ calls, c.IsAllowed spec t) :
    (after t calls empty).groups = entriesOf spec t calls := by
  induction calls using List.reverseRecOn with
  | nil => rfl
  | append_singleton calls c ih =>
    have hgroups := ih fun b hb => hcalls b (List.mem_append_left _ hb)
    have hdistinct : Key.Distinct ((after t calls empty).groups.map Prod.fst) := by
      rw [hgroups]
      exact distinct_entriesOf calls
    have hc := hcalls c (List.mem_append_right _ List.mem_cons_self)
    rw [← answerBy_entriesOf, ← hgroups, ← (perform_eq hdistinct hc).2, after, List.foldl_append]
    rfl

/-- The hash table keeps the entries of the calls. -/
theorem keeps_afterOver {calls : List (Call β)} (hcalls : ∀ c ∈ calls, c.IsAllowed spec t) :
    EntryTable.Keeps T (afterOver t calls T.empty) (entriesOf spec t calls) := by
  induction calls using List.reverseRecOn with
  | nil => exact EntryTable.keeps_empty T
  | append_singleton calls c ih =>
    have hkeeps := ih fun b hb => hcalls b (List.mem_append_left _ hb)
    have hc := hcalls c (List.mem_append_right _ List.mem_cons_self)
    rw [← answerBy_entriesOf, afterOver, List.foldl_append]
    exact (hkeeps.performOver_eq (distinct_entriesOf calls) hc).2

end SharedDictionary

/-- **A shared dictionary has exactly one entry per key, whichever way it is asked.**  After any
    calls, for rows or for keys, the first call to meet a key makes its entry, and every later one is
    answered with that same entry; a donor is told nothing exactly if its entry was taken.  There are
    as many entries as different keys, and the groups are these keys with the rows and the entries
    that the first calls brought.  A row is asked for exactly as its key would be.  All that holds
    of the dictionary with an index by hash and of any hash table. -/
theorem one_entry_per_key {β : Type} (T : HashTable (Key × β)) {spec : GroupingSpec} {t : Table}
    {calls : List (SharedDictionary.Call β)} (hcalls : ∀ c ∈ calls, c.IsAllowed spec t) :
    let d := SharedDictionary.after t calls .empty
    let s := SharedDictionary.afterOver t calls T.empty
    SharedDictionary.OneEntryPerKey spec t calls (fun c => (c.perform t d).1) d.size d.groups ∧
    SharedDictionary.OneEntryPerKey spec t calls (fun c => (c.performOver t s).1)
      (T.toList s).length (T.toList s) ∧
    ∀ (ev : KeyEvaluator) (row : Nat) (init : Unit → β), ev.UsedOn spec t →
      (d.getOrInsertRow ev t row init).1 = d.getOrInsertWith (spec.keyAt t row) init ∧
      (EntryTable.getOrInsertRow s ev t row init).1 =
        EntryTable.getOrInsertWith s (spec.keyAt t row) init := by
  intro d s
  have hgroups : d.groups = SharedDictionary.entriesOf spec t calls :=
    SharedDictionary.groups_after hcalls
  have hkeeps : EntryTable.Keeps T s (SharedDictionary.entriesOf spec t calls) :=
    SharedDictionary.keeps_afterOver hcalls
  have hdistinct : Key.Distinct ((SharedDictionary.entriesOf spec t calls).map Prod.fst) :=
    SharedDictionary.distinct_entriesOf calls
  refine ⟨?_, ?_, fun ev row init hev =>
    ⟨d.getOrInsertRow_eq hev row init, EntryTable.getOrInsertRow_eq hev row init⟩⟩
  · rw [← d.length_groups]
    refine SharedDictionary.oneEntryPerKey_of_answerBy (fun c hc => ?_) (.of_eq hgroups)
    rw [← hgroups] at hdistinct ⊢
    exact (SharedDictionary.perform_eq hdistinct hc).1
  · obtain ⟨members, hholds, hperm, -⟩ := id hkeeps
    exact SharedDictionary.oneEntryPerKey_of_answerBy
      (fun c hc => (hkeeps.performOver_eq hdistinct hc).1) ((T.toList_perm hholds).trans hperm)

/-- Two rows, a donor who comes too late with the key of the first, and another with a key of the
    same hash. -/
theorem one_entry_per_key_sample :
    let spec : GroupingSpec := { GroupingSpec.sample with hashValue := fun _ => 7 }
    let ev := KeyEvaluator.create spec.keys spec.hashValue
    let calls : List (SharedDictionary.Call Nat) :=
      [.getRow ev 0 fun _ => 0, .donate (spec.keyAt .sample 0) fun _ => 1,
        .donate ⟨7, 9, [.text "x"]⟩ fun _ => 2, .getRow (ev.visit .sample 0) 1 fun _ => 3,
        .getKey ⟨7, 5, [.null]⟩ fun _ => 4]
    let d := SharedDictionary.after .sample calls .empty
    let s := SharedDictionary.afterOver .sample calls (HashTable.tagged (Key × Nat)).empty
    (∀ c ∈ calls, c.IsAllowed spec .sample) ∧
    SharedDictionary.OneEntryPerKey spec .sample calls (fun c => (c.perform .sample d).1) d.size
      d.groups ∧
    SharedDictionary.OneEntryPerKey spec .sample calls (fun c => (c.performOver .sample s).1)
      ((HashTable.tagged (Key × Nat)).toList s).length ((HashTable.tagged (Key × Nat)).toList s) ∧
    d.groups.map Prod.snd = [0, 2, 3] := by
  intro spec ev calls d s
  have hev : ev.UsedOn spec .sample := KeyEvaluator.usedOn_create spec .sample
  have hcalls : ∀ c ∈ calls, c.IsAllowed spec .sample := by
    simp only [calls, List.forall_mem_cons, SharedDictionary.Call.IsAllowed, List.not_mem_nil,
      IsEmpty.forall_iff, implies_true, and_true, true_and]
    exact ⟨hev, hev.visit 0⟩
  obtain ⟨hindex, htable, -⟩ := one_entry_per_key (HashTable.tagged (Key × Nat)) hcalls
  exact ⟨hcalls, hindex, htable, by decide⟩

end Cohort
