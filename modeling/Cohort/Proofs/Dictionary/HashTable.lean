import Mathlib.Data.List.Perm.Basic
/-
  HASH TABLES, as far as a dictionary relies on one.

  A table is asked with a hash and a condition on its members.  It promises LESS than a search among
  the members of that hash: it looks at a part of the hash only before it tries the condition, so
  what it returns satisfies the condition but may have been put in under another hash, and only a
  member that was put in under the hash asked for is sure to be found.  A table that grows asks for
  the hash of every member again; what it is told then has to be the hash under which the member was
  put in.

  From these promises: a condition that holds of one member only, under its own hash, finds that
  member (`get_eq_some`), and one that holds of no member finds nothing (`get_eq_none`).
-/

namespace Cohort

/-- A hash table with what it promises. -/
structure HashTable (α : Type) where
  State : Type
  empty : State
  /-- A member that satisfies a condition, asked for by its hash. -/
  get : State → (hash : UInt64) → (α → Bool) → Option α
  /-- Add a member under a hash, and say how to hash members that have to move. -/
  insert : State → (hash : UInt64) → α → (rehash : α → UInt64) → State
  /-- All members, in no particular order. -/
  toList : State → List α
  /-- The members of a table, each with the hash under which it was put in. -/
  Holds : State → List (UInt64 × α) → Prop
  holds_empty : Holds empty []
  /-- Adding keeps the members, provided that every one is hashed as it was put in. -/
  holds_insert : ∀ {s members hash a rehash}, Holds s members →
    (∀ m ∈ (hash, a) :: members, rehash m.2 = m.1) →
    Holds (insert s hash a rehash) ((hash, a) :: members)
  /-- What is found satisfies the condition, under whatever hash it was put in. -/
  mem_of_get : ∀ {s members hash p a}, Holds s members → get s hash p = some a →
    p a = true ∧ ∃ hash', (hash', a) ∈ members
  /-- Something is found if a member of the hash satisfies the condition. -/
  isSome_get : ∀ {s members hash p a}, Holds s members → (hash, a) ∈ members → p a = true →
    (get s hash p).isSome = true
  toList_perm : ∀ {s members}, Holds s members → (toList s).Perm (members.map Prod.snd)

namespace HashTable

variable {α : Type} {T : HashTable α} {s : T.State} {members : List (UInt64 × α)} {hash : UInt64}
  {p : α → Bool} {a : α}

/-- The only member that satisfies a condition is found under its hash. -/
theorem get_eq_some (h : T.Holds s members) (hmem : (hash, a) ∈ members) (hp : p a = true)
    (honly : ∀ m ∈ members, p m.2 = true → m.2 = a) : T.get s hash p = some a := by
  have hsome := T.isSome_get h hmem hp
  cases hget : T.get s hash p with
  | none =>
    rw [hget] at hsome
    cases hsome
  | some b =>
    obtain ⟨hpb, hash', hb⟩ := T.mem_of_get h hget
    have hba : b = a := honly (hash', b) hb hpb
    rw [hba]

/-- Where no member satisfies a condition, nothing is found. -/
theorem get_eq_none (h : T.Holds s members) (hp : ∀ m ∈ members, p m.2 = false) :
    T.get s hash p = none := by
  cases hget : T.get s hash p with
  | none => rfl
  | some b =>
    obtain ⟨hpb, hash', hb⟩ := T.mem_of_get h hget
    have hnot : p b = false := hp (hash', b) hb
    rw [hnot] at hpb
    cases hpb

/-- The part of a hash that is looked at before a condition is tried: the seven highest bits. -/
def tag (hash : UInt64) : UInt64 := hash >>> 57

/-- A table that tells members apart by their tags only. -/
def tagged (α : Type) : HashTable α where
  State := List (UInt64 × α)
  empty := []
  get s hash p := (s.find? fun m => m.1 == tag hash && p m.2).map Prod.snd
  insert s hash a _ := (tag hash, a) :: s
  toList s := s.map Prod.snd
  Holds s members := s = members.map fun m => (tag m.1, m.2)
  holds_empty := rfl
  holds_insert h _ := congrArg (List.cons _) h
  mem_of_get := by
    rintro s members hash p a rfl hget
    obtain ⟨m, hfind, rfl⟩ := Option.map_eq_some_iff.mp hget
    obtain ⟨m', hm', rfl⟩ := List.mem_map.mp (List.mem_of_find?_eq_some hfind)
    have hboth := List.find?_some hfind
    simp only [Bool.and_eq_true] at hboth
    exact ⟨hboth.2, m'.1, hm'⟩
  isSome_get := by
    rintro s members hash p a rfl hmem hp
    rw [Option.isSome_map, List.find?_isSome]
    exact ⟨(tag hash, a), List.mem_map.mpr ⟨(hash, a), hmem, rfl⟩, by simp [hp]⟩
  toList_perm := by
    rintro s members rfl
    rw [List.map_map]
    rfl

end HashTable
end Cohort
