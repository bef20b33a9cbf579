import Cohort.Proofs.Lockstep
import Cohort.Proofs.States.Layouts
/-
  Arrays have ROOM for their groups.

  Changing a place past the end of an array is an error, and all arrays must grow together.  But it
  is only looked at the first array, and only whether it is full, before a group is pushed.

  1. **Sound arrays.**  All arrays have one capacity, which is at least the number of groups
     (`Sound`).  Every operation on a group that is there succeeds and keeps this, so every program
     of such operations does (`Sound.run`).

  2. **Further groups.**  `HasRoom k` says that `k` more groups can be pushed before the arrays are
     full.  To make room is what `reserve` does, on whatever states; a push uses up one place, and
     nothing else does.  Steps that each use up one place at most (`TakesOne`) never run out of it
     if there is room for all of them at first.

  3. **Without growth.**  `unstretched` is the layout of arrays, but for pushes, which make no room.
     Where there is room it does the same, and where there is none it refuses the next change of the
     new group (`update_unstretched_of_full`).  So if a run in it succeeds like the run in arrays,
     then no push of the run has found the arrays full.
-/

namespace Cohort

namespace ArrayStates

/-! ## Capacities -/

/-- The capacities of all arrays. -/
def sizes (s : ArrayStates) : List Nat := s.arrays.map (·.capacity)

variable {s s' source source' : ArrayStates} {n k : Nat}

theorem sizes_eq_nil_iff : s.sizes = [] ↔ s.arrays = [] := List.map_eq_nil_iff

/-- It is the first array that is asked for the capacity. -/
theorem capacity_eq (s : ArrayStates) : s.capacity = s.sizes.headD 0 := by
  obtain ⟨arrays, groups⟩ := s
  cases arrays <;> rfl

theorem capacity_of_sizes (h : s'.sizes = s.sizes) : s'.capacity = s.capacity := by
  rw [capacity_eq, capacity_eq, h]

/-- All arrays grow by as much as the first one needs. -/
theorem sizes_ensure (needed : Nat) (s : ArrayStates) :
    (s.ensure needed).sizes = s.sizes.map (· + (needed - s.capacity)) := by
  rw [sizes, ensure, sizes, List.map_map, List.map_map]
  rfl

/-- Whatever the arrays, the first of them gets the capacity asked for. -/
theorem capacity_ensure (h : s.arrays ≠ []) (needed : Nat) :
    (s.ensure needed).capacity = max s.capacity needed := by
  obtain ⟨arrays, groups⟩ := s
  cases arrays with
  | nil => exact absurd rfl h
  | cons a as =>
    show a.capacity + (needed - a.capacity) = max a.capacity needed
    omega

/-- **Growing changes no tally.** -/
theorem group_ensure (needed : Nat) (s : ArrayStates) (o : Nat) :
    (s.ensure needed).group o = s.group o := by
  rw [ensure, group, List.map_map]
  exact List.map_congr_left fun a _ => TallyArray.get_grow a _ o

/-- A push changes no tally either, whether or not it makes room. -/
theorem group_pushGroup (s : ArrayStates) (o : Nat) : s.pushGroup.group o = s.group o := by
  rw [pushGroup]
  split
  · exact group_ensure _ s o
  · rfl

/-- Changes of places keep all capacities. -/
theorem sizes_of_tryAlongside {α : Type} {change : α → TallyArray → Except Error TallyArray}
    {as : List α} {arrays : List TallyArray}
    (h : ∀ a x x', change a x = .ok x' → x'.capacity = x.capacity)
    (htry : tryAlongside change as s.arrays = .ok arrays) :
    arrays.map (·.capacity) = s.sizes := by
  rw [← alongside_id as s.sizes]
  exact map_of_tryAlongside h htry

section

variable [FloatAddition] {aggregates : List Aggregate}

/-- States after a change of places: as many groups, and no array has grown. -/
structure SameRoom (s s' : ArrayStates) : Prop where
  groups : s'.groups = s.groups
  sizes : s'.sizes = s.sizes

/-- A row that is folded in changes places only ... -/
theorem sameRoom_of_update {t : Table} {row o : Nat}
    (h : LocalStates.update aggregates t row o s = .ok s') : s.SameRoom s' := by
  obtain ⟨arrays, htry, hs'⟩ := bind_eq_ok_iff.mp h
  cases hs'
  exact ⟨rfl, sizes_of_tryAlongside (fun _ _ _ hx => TallyArray.capacity_of_modify hx) htry⟩

/-- ... and so does a group. -/
theorem sameRoom_of_mergeGroup {o o' : Nat} (h : mergeGroup aggregates o source o' s = .ok s') :
    s.SameRoom s' := by
  obtain ⟨arrays, htry, hs'⟩ := bind_eq_ok_iff.mp h
  cases hs'
  exact ⟨rfl, sizes_of_tryAlongside (fun _ _ _ hx => TallyArray.capacity_of_modify hx) htry⟩

/-- To append a group is to push one and to change its places. -/
theorem sameRoom_of_append {o o' : Nat}
    (h : LocalStates.append aggregates source o' s = .ok (o, s', source')) :
    s.pushGroup.SameRoom s' := by
  obtain ⟨target, hmerge, htarget⟩ := bind_eq_ok_iff.mp h
  cases htarget
  exact sameRoom_of_mergeGroup hmerge

end

/-! ## Sound arrays -/

/-- States of `n` arrays of one capacity that is at least the number of groups. -/
structure Sound (n : Nat) (s : ArrayStates) : Prop where
  sizes : s.sizes = List.replicate n s.capacity
  room : 0 < n → s.groups ≤ s.capacity

/-- Arrays are sound if they have one capacity with room for the groups, read off any of them. -/
theorem sound_of_sizes {c : Nat} (h : s.sizes = List.replicate n c) (hroom : 0 < n → s.groups ≤ c) :
    s.Sound n := by
  cases n with
  | zero => exact ⟨h, fun hpos => absurd hpos (Nat.lt_irrefl 0)⟩
  | succ n =>
    have hcapacity : s.capacity = c := by
      rw [capacity_eq, h]
      rfl
    exact ⟨hcapacity ▸ h, fun hpos => hcapacity ▸ hroom hpos⟩

namespace Sound

/-- **The places of a group are there**, in all arrays. -/
theorem lt_capacity (h : s.Sound n) {o : Nat} (ho : o < s.groups) {a : TallyArray}
    (ha : a ∈ s.arrays) : o < a.capacity := by
  have hmem : a.capacity ∈ s.sizes := List.mem_map_of_mem ha
  rw [h.sizes] at hmem
  obtain ⟨hn, hcapacity⟩ := List.mem_replicate.mp hmem
  rw [hcapacity]
  exact Nat.lt_of_lt_of_le ho (h.room (Nat.pos_of_ne_zero hn))

/-- A change of places keeps arrays sound. -/
theorem sameRoom (h : s.Sound n) (hsame : s.SameRoom s') : s'.Sound n := by
  refine sound_of_sizes (hsame.sizes.trans h.sizes) fun hpos => ?_
  rw [hsame.groups]
  exact h.room hpos

/-- Sound arrays grow to one capacity again. -/
theorem sizes_ensure (h : s.Sound n) (needed : Nat) :
    (s.ensure needed).sizes = List.replicate n (s.capacity + (needed - s.capacity)) := by
  rw [ArrayStates.sizes_ensure, h.sizes, List.map_replicate]

/-- Growing keeps arrays sound. -/
theorem ensure (h : s.Sound n) (needed : Nat) : (s.ensure needed).Sound n :=
  sound_of_sizes (h.sizes_ensure needed) fun hpos => Nat.le_add_right_of_le (h.room hpos)

/-- A push past the capacity is the only one that needs room to be made, and it gets it. -/
theorem pushGroup (h : s.Sound n) : s.pushGroup.Sound n := by
  rw [ArrayStates.pushGroup]
  by_cases hfull : s.groups = s.capacity
  · rw [if_pos hfull]
    refine sound_of_sizes (h.sizes_ensure _) fun _ => ?_
    show s.groups + 1 ≤ s.capacity + (max (s.groups * 2) 1 - s.capacity)
    omega
  · rw [if_neg hfull]
    refine sound_of_sizes h.sizes fun hpos => ?_
    have hroom := h.room hpos
    show s.groups + 1 ≤ s.capacity
    omega

end Sound

/-! ## Programs -/

/-- An operation on states of arrays.  What it takes from other states may be anything. -/
inductive Op
  | push
  | reserve (additional : Nat)
  | update (aggregates : List Aggregate) (t : Table) (row ordinal : Nat)
  | merge (aggregates : List Aggregate) (ordinal : Nat) (source : ArrayStates)
      (sourceOrdinal : Nat)
  | append (aggregates : List Aggregate) (source : ArrayStates) (sourceOrdinal : Nat)

namespace Op

/-- Whether an operation changes a group that is there, if there are as many groups. -/
def InRange (groups : Nat) : Op → Prop
  | .update _ _ _ ordinal => ordinal < groups
  | .merge _ ordinal _ _ => ordinal < groups
  | .push | .reserve _ | .append _ _ _ => True

/-- How many groups there are after an operation. -/
def after (groups : Nat) : Op → Nat
  | .push | .append _ _ _ => groups + 1
  | .reserve _ | .update _ _ _ _ | .merge _ _ _ _ => groups

/-- Whether every operation of a program changes a group that is there by then. -/
def AllInRange : (groups : Nat) → List Op → Prop
  | _, [] => True
  | groups, op :: ops => op.InRange groups ∧ AllInRange (op.after groups) ops

instance (groups : Nat) : (op : Op) → Decidable (op.InRange groups)
  | .update _ _ _ ordinal => inferInstanceAs (Decidable (ordinal < groups))
  | .merge _ ordinal _ _ => inferInstanceAs (Decidable (ordinal < groups))
  | .push | .reserve _ | .append _ _ _ => inferInstanceAs (Decidable True)

instance decidableAllInRange : (groups : Nat) → (ops : List Op) → Decidable (AllInRange groups ops)
  | _, [] => inferInstanceAs (Decidable True)
  | groups, op :: ops =>
    have := decidableAllInRange (op.after groups) ops
    inferInstanceAs (Decidable (op.InRange groups ∧ AllInRange (op.after groups) ops))

variable [FloatAddition]

/-- Carry out an operation. -/
def perform (s : ArrayStates) : Op → Except Error ArrayStates
  | .push => .ok (LocalStates.push s)
  | .reserve additional => .ok (LocalStates.reserve additional s)
  | .update aggregates t row ordinal => LocalStates.update aggregates t row ordinal s
  | .merge aggregates ordinal source sourceOrdinal =>
    LocalStates.merge aggregates ordinal source sourceOrdinal s
  | .append aggregates source sourceOrdinal => do
    let (_, s, _) ← LocalStates.append aggregates source sourceOrdinal s
    return s

end Op

/-- Carry out a program, from states without groups. -/
def run [FloatAddition] (aggregateCount maxGroups : Nat) (program : List Op) :
    Except Error ArrayStates :=
  program.foldlM Op.perform (LocalStates.create aggregateCount maxGroups)

namespace Sound

/-- **Changing a group that is there succeeds** in all arrays. -/
theorem exists_tryAlongside {α : Type} (h : s.Sound n) {o : Nat} (ho : o < s.groups)
    (change : α → Tally → Tally) (as : List α) :
    ∃ arrays, tryAlongside (fun a x => x.modify o (change a)) as s.arrays = .ok arrays :=
  exists_tryAlongside_eq_ok as s.arrays fun a _ hx =>
    TallyArray.exists_modify (h.lt_capacity ho hx) (change a)

variable [FloatAddition] (aggregates : List Aggregate)

/-- New arrays are sound, whatever was asked for. -/
theorem create (n maxGroups : Nat) : (LocalStates.create n maxGroups : ArrayStates).Sound n :=
  sound_of_sizes List.map_replicate fun _ => Nat.zero_le maxGroups

/-- A row goes into every group that is there. -/
theorem exists_update (h : s.Sound n) (t : Table) (row : Nat) {o : Nat} (ho : o < s.groups) :
    ∃ s', LocalStates.update aggregates t row o s = .ok s' := by
  obtain ⟨arrays, htry⟩ := h.exists_tryAlongside ho
    (fun (a : Aggregate) tally => a.updateTally t row tally) aggregates
  exact ⟨{ s with arrays := arrays }, bind_eq_ok_iff.mpr ⟨arrays, htry, rfl⟩⟩

/-- So does a group of other states, whatever they are. -/
theorem exists_mergeGroup (h : s.Sound n) (source : ArrayStates) (o' : Nat) {o : Nat}
    (ho : o < s.groups) : ∃ s', mergeGroup aggregates o source o' s = .ok s' := by
  obtain ⟨arrays, htry⟩ := h.exists_tryAlongside ho
    (fun (p : Aggregate × TallyArray) t => p.1.function.merge t (p.2.get o'))
    (aggregates.zip source.arrays)
  exact ⟨{ s with arrays := arrays }, bind_eq_ok_iff.mpr ⟨arrays, htry, rfl⟩⟩

/-- **One operation** on a group that is there. -/
theorem perform (h : s.Sound n) {op : Op} (hop : op.InRange s.groups) :
    ∃ s', op.perform s = .ok s' ∧ s'.Sound n ∧ s'.groups = op.after s.groups := by
  cases op with
  | push => exact ⟨s.pushGroup, rfl, h.pushGroup, rfl⟩
  | reserve additional => exact ⟨s.ensure (s.groups + additional), rfl, h.ensure _, rfl⟩
  | update aggregates t row o =>
    obtain ⟨s', hs'⟩ := h.exists_update aggregates t row hop
    have hsame := sameRoom_of_update hs'
    exact ⟨s', hs', h.sameRoom hsame, hsame.groups⟩
  | merge aggregates o source o' =>
    obtain ⟨s', hs'⟩ := h.exists_mergeGroup aggregates source o' hop
    have hsame := sameRoom_of_mergeGroup hs'
    exact ⟨s', hs', h.sameRoom hsame, hsame.groups⟩
  | append aggregates source o' =>
    -- the new group is one that is there once it was pushed
    obtain ⟨s', hs'⟩ := h.pushGroup.exists_mergeGroup aggregates source o' (Nat.lt_succ_self s.groups)
    have hsame := sameRoom_of_mergeGroup hs'
    have happend : LocalStates.append aggregates source o' s = .ok (s.groups, s', source) :=
      bind_eq_ok_iff.mpr ⟨s', hs', rfl⟩
    exact ⟨s', bind_eq_ok_iff.mpr ⟨_, happend, rfl⟩, h.pushGroup.sameRoom hsame, hsame.groups⟩

/-- So operations that are in range succeed one after the other. -/
theorem foldlM_perform (h : s.Sound n) {program : List Op}
    (hprogram : Op.AllInRange s.groups program) :
    ∃ s', program.foldlM Op.perform s = .ok s' ∧ s'.Sound n := by
  induction program generalizing s with
  | nil => exact ⟨s, rfl, h⟩
  | cons op program ih =>
    obtain ⟨hop, hrest⟩ := hprogram
    obtain ⟨next, hnext, hsound, hgroups⟩ := h.perform hop
    rw [← hgroups] at hrest
    obtain ⟨last, hlast, hsound'⟩ := ih hsound hrest
    refine ⟨last, ?_, hsound'⟩
    rw [List.foldlM_cons, hnext]
    exact hlast

/-- **Every program whose operations are in range** succeeds, and its arrays are sound. -/
theorem run (n maxGroups : Nat) {program : List Op} (h : Op.AllInRange 0 program) :
    ∃ s, ArrayStates.run n maxGroups program = .ok s ∧ s.Sound n :=
  (create n maxGroups).foldlM_perform h

end Sound

/-! ## Further groups -/

/-- Whether `k` further groups find room.  Without arrays they need none. -/
def HasRoom (k : Nat) (s : ArrayStates) : Prop := s.arrays = [] ∨ s.groups + k ≤ s.capacity

namespace HasRoom

theorem mono (h : s.HasRoom k) {l : Nat} (hle : l ≤ k) : s.HasRoom l :=
  h.imp id fun hroom => Nat.le_trans (Nat.add_le_add_left hle s.groups) hroom

/-- Where there is room for a group, pushing it makes none. -/
theorem pushGroup_eq (h : s.HasRoom (k + 1)) : s.pushGroup = { s with groups := s.groups + 1 } := by
  obtain ⟨arrays, groups⟩ := s
  rcases h with hnone | hroom
  · have hnone : arrays = [] := hnone
    subst hnone
    rw [pushGroup]
    split <;> rfl
  · rw [pushGroup, if_neg (by omega)]

/-- A change of places uses up no room. -/
theorem sameRoom (h : s.HasRoom k) (hsame : s.SameRoom s') : s'.HasRoom k := by
  rw [HasRoom, ← sizes_eq_nil_iff, capacity_of_sizes hsame.sizes, hsame.sizes, hsame.groups,
    sizes_eq_nil_iff]
  exact h

/-- A push uses up room for one group, and no array grows. -/
theorem pushGroup (h : s.HasRoom (k + 1)) :
    s.pushGroup.HasRoom k ∧ s.pushGroup.sizes = s.sizes := by
  rw [h.pushGroup_eq]
  refine ⟨h.imp id fun hroom => ?_, rfl⟩
  show s.groups + 1 + k ≤ s.capacity
  omega

end HasRoom

/-- New arrays have room for the groups that they were made for. -/
theorem hasRoom_create [FloatAddition] (n maxGroups : Nat) :
    (LocalStates.create n maxGroups : ArrayStates).HasRoom maxGroups := by
  cases n with
  | zero => exact .inl rfl
  | succ n => exact .inr (Nat.le_of_eq (Nat.zero_add maxGroups))

/-- **Making room makes it**, whatever the arrays. -/
theorem hasRoom_ensure (s : ArrayStates) (k : Nat) : (s.ensure (s.groups + k)).HasRoom k := by
  by_cases hnone : s.arrays = []
  · left
    rw [ensure, hnone]
    rfl
  · right
    rw [capacity_ensure hnone]
    exact Nat.le_max_right ..

/-- A step that uses up room for one group at most, and in which no array grows, `view` showing the
    states of arrays that it works on. -/
def TakesOne {γ α : Type} (view : γ → ArrayStates) (step : γ → α → Except Error γ) : Prop :=
  ∀ k g a g', (view g).HasRoom (k + 1) → step g a = .ok g' →
    (view g').HasRoom k ∧ (view g').sizes = (view g).sizes

namespace TakesOne

variable {γ α : Type} {view : γ → ArrayStates} {step step' : γ → α → Except Error γ} {g g' : γ}

/-- **Many steps** use up room for as many groups at most. -/
theorem foldlM (h : TakesOne view step) {as : List α} (hroom : (view g).HasRoom (as.length + k))
    (hrun : as.foldlM step g = .ok g') :
    (view g').HasRoom k ∧ (view g').sizes = (view g).sizes := by
  induction as generalizing g with
  | nil =>
    cases hrun
    rw [List.length_nil, Nat.zero_add] at hroom
    exact ⟨hroom, rfl⟩
  | cons a as ih =>
    rw [List.foldlM_cons] at hrun
    obtain ⟨next, hnext, hrest⟩ := bind_eq_ok_iff.mp hrun
    rw [List.length_cons, Nat.add_right_comm] at hroom
    obtain ⟨hroom', hsizes⟩ := h _ g a next hroom hnext
    obtain ⟨hroom'', hsizes'⟩ := ih hroom' hrest
    exact ⟨hroom'', hsizes'.trans hsizes⟩

/-- With room for all steps there is room before each of them. -/
theorem hasRoom_before (h : TakesOne view step) {before after : List α} {a : α}
    (hroom : (view g).HasRoom (before ++ a :: after).length) (hrun : before.foldlM step g = .ok g') :
    (view g').HasRoom 1 := by
  rw [List.length_append, List.length_cons] at hroom
  exact (h.foldlM hroom hrun).1.mono (Nat.le_add_left 1 after.length)

/-- With room for all steps it makes no difference what they do where there is none. -/
theorem foldlM_congr (h : TakesOne view step)
    (hsame : ∀ k g a, (view g).HasRoom (k + 1) → step' g a = step g a) {as : List α}
    (hroom : (view g).HasRoom as.length) : as.foldlM step' g = as.foldlM step g := by
  induction as generalizing g with
  | nil => rfl
  | cons a as ih =>
    rw [List.foldlM_cons, List.foldlM_cons, hsame _ g a hroom]
    cases hnext : step g a with
    | error e => rfl
    | ok next => exact ih (h _ g a next hroom hnext).1

end TakesOne

/-! ## Without growth -/

section

variable [FloatAddition]

/-- The layout of arrays, but for pushes, which make no room for the new group. -/
@[reducible]
def unstretched : LocalStates ArrayStates :=
  { (inferInstance : LocalStates ArrayStates) with
    push := fun s => { s with groups := s.groups + 1 }
    append := fun aggregates source sourceOrdinal s => do
      let target ← mergeGroup aggregates s.groups source sourceOrdinal
        { s with groups := s.groups + 1 }
      return (s.groups, target, source) }

/-- Where there is room for a group, nothing else is done when it is pushed... -/
theorem push_unstretched (h : s.HasRoom (k + 1)) :
    @LocalStates.push ArrayStates unstretched s = LocalStates.push s := h.pushGroup_eq.symm

/-- ... or appended. -/
theorem append_unstretched (h : s.HasRoom (k + 1)) (aggregates : List Aggregate)
    (source : ArrayStates) (o' : Nat) :
    @LocalStates.append ArrayStates unstretched aggregates source o' s =
      LocalStates.append aggregates source o' s := by
  show (mergeGroup aggregates s.groups source o' { s with groups := s.groups + 1 } >>= _) =
    (mergeGroup aggregates s.groups source o' s.pushGroup >>= _)
  rw [h.pushGroup_eq]

/-- **Where there is none**, the new group has no places, and its first row is refused. -/
theorem update_unstretched_of_full (hfull : s.groups = s.capacity) (harrays : s.arrays ≠ [])
    {aggregates : List Aggregate} (hne : aggregates ≠ []) (t : Table) (row : Nat) :
    @LocalStates.update ArrayStates unstretched aggregates t row s.groups
      (@LocalStates.push ArrayStates unstretched s) = .error (.outOfRange s.groups s.capacity) := by
  obtain ⟨arrays, groups⟩ := s
  cases arrays with
  | nil => exact absurd rfl harrays
  | cons x xs =>
    cases aggregates with
    | nil => exact absurd rfl hne
    | cons a as =>
      have hfull : groups = x.capacity := hfull
      have hrefused : x.apply a t row groups = .error (.outOfRange groups x.capacity) :=
        dif_neg (by omega)
      show (tryAlongside (fun (g : Aggregate) (y : TallyArray) => y.apply g t row groups) (a :: as)
        (x :: xs) >>= _) = _
      rw [tryAlongside, hrefused]
      rfl

end

end ArrayStates
end Cohort
