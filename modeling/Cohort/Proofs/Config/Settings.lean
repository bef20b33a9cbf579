import Cohort.Config.Settings
import Cohort.Proofs.Text.Reading
/-
  Named settings are read EXACTLY, and change all at once or not at all.

  1. **Writing.**  What a setting accepts is said by grammars: trimmed, a thread count is a numeral
     of a number within the bounds, and a strategy or a storage mode is one of the names.  A setting
     that was accepted is changed, and no other (`Setting.copy`).

  2. **Showing.**  A setting accepts the text that it shows of a configuration, and that is the same
     as copying it from there.  The one exception are thread counts out of bounds, which only a
     configuration can have that was not set (`Setting.write_text_eq_ok_iff`).

  3. **In place.**  `Config.Command.perform` carries out a command step by step on a configuration
     that stays as the steps left it.  No step that may fail comes after one that writes, so this is
     the same as `Config.run` (`run_perform`).

  4. **Sessions.**  One command keeps the thread count or puts it within the bounds
     (`threads_run`); so does any number of them.
-/

namespace Cohort

/-- Looking something up by its name, where all names differ. -/
theorem find?_name_eq_some_iff {α : Type} {all : List α} {name : α → String} (hall : ∀ a, a ∈ all)
    (hname : ∀ a b, name a = name b → a = b) {text : String} {a : α} :
    all.find? (fun a => name a == text) = some a ↔ name a = text := by
  constructor
  · intro h
    exact beq_iff_eq.mp (List.find?_some (p := fun a => name a == text) h)
  · intro h
    cases hfind : all.find? (fun a => name a == text) with
    | none => exact absurd (beq_iff_eq.mpr h) (List.find?_eq_none.mp hfind a (hall a))
    | some b =>
      have hb : name b = text := beq_iff_eq.mp (List.find?_some (p := fun a => name a == text) hfind)
      rw [hname b a (hb.trans h.symm)]

namespace Strategy

theorem mem_all (s : Strategy) : s ∈ all := by cases s <;> decide

theorem name_injective (s t : Strategy) (h : s.name = t.name) : s = t := by
  cases s <;> cases t <;> first | rfl | exact absurd h (by decide)

/-- A strategy is read from its name, spelled exactly. -/
theorem parse_eq_ok_iff {text : String} {s : Strategy} : parse text = .ok s ↔ s.name = text := by
  rw [← find?_name_eq_some_iff mem_all name_injective, parse]
  cases all.find? fun s => s.name == text <;> simp

/-- Names have no blanks to be cut off. -/
theorem trim_name (s : Strategy) : Text.trim s.name = s.name := by cases s <;> decide

end Strategy

namespace StorageMode

theorem mem_all (m : StorageMode) : m ∈ all := by cases m <;> decide

theorem name_injective (m n : StorageMode) (h : m.name = n.name) : m = n := by
  cases m <;> cases n <;> first | rfl | exact absurd h (by decide)

/-- A storage mode is read from its name, spelled exactly. -/
theorem parse_eq_ok_iff {text : String} {m : StorageMode} : parse text = .ok m ↔ m.name = text := by
  rw [← find?_name_eq_some_iff mem_all name_injective, parse]
  cases all.find? fun m => m.name == text <;> simp

theorem trim_name (m : StorageMode) : Text.trim m.name = m.name := by cases m <;> decide

end StorageMode

/-- A text that is trimmed to another one. -/
theorem Text.trims_toList_iff {value text : String} :
    Trims value.toList text.toList ↔ trim value = text := by
  rw [trims_iff, ← String.toList_inj, trim, String.toList_ofList]

namespace Setting

theorem mem_all (s : Setting) : s ∈ all := by cases s <;> decide

theorem name_injective (s t : Setting) (h : s.name = t.name) : s = t := by
  cases s <;> cases t <;> first | rfl | exact absurd h (by decide)

/-- A setting is found by its name. -/
theorem find_eq_ok_iff {name : String} {s : Setting} : find name = .ok s ↔ s.name = name := by
  rw [← find?_name_eq_some_iff mem_all name_injective, find]
  cases all.find? fun s => s.name == name <;> simp

theorem find_name (s : Setting) : find s.name = .ok s := find_eq_ok_iff.mpr rfl

/-- What is no name finds no setting. -/
theorem find_of_forall_ne {name : String} (h : ∀ s : Setting, s.name ≠ name) :
    find name = .error (.unknownSetting name) := by
  rw [find]
  cases hfind : all.find? fun s : Setting => s.name == name with
  | none => rfl
  | some s => exact absurd ((find?_name_eq_some_iff mem_all name_injective).mp hfind) (h s)

/-! ## Writing -/

/-- A configuration with this setting as another one has it. -/
def copy (s : Setting) (source c : Config) : Config :=
  match s with
  | .storage => { c with storage := source.storage }
  | .strategy => { c with strategy := source.strategy }
  | .threads => { c with threads := source.threads }

/-- To copy a setting from the configuration itself changes nothing. -/
theorem copy_self (s : Setting) (c : Config) : s.copy c c = c := by cases s <;> rfl

/-- A thread count that may be set. -/
def Allows (n : Nat) : Prop := 1 ≤ n ∧ n ≤ 512

instance (n : Nat) : Decidable (Allows n) := inferInstanceAs (Decidable (_ ∧ _))

/-- The check of a thread count lets through what is within the bounds, as it is. -/
theorem checkThreads_eq_ok_iff {n m : Nat} : checkThreads n = .ok m ↔ Allows m ∧ n = m := by
  have hleast : minThreads = 1 := rfl
  have hgreatest : maxThreads = 512 := rfl
  rw [checkThreads, hleast, hgreatest, Allows]
  split
  · refine iff_of_false nofun ?_
    omega
  · split
    · refine iff_of_false nofun ?_
      omega
    · rw [Except.ok.injEq]
      omega

/-- **What a thread count is read from**: blanks around a numeral of a number within the bounds. -/
theorem parseThreads_eq_ok_iff {value : String} {n : Nat} :
    parseThreads value = .ok n ↔
      Allows n ∧ ∃ core, Text.Trims value.toList core ∧ Text.Numeral.Denotes core n := by
  have hread : ∀ m, Text.Numeral.read Text.Numeral.maxWord (Text.trim value) = .ok m ↔
      (∃ core, Text.Trims value.toList core ∧ Text.Numeral.Denotes core m) ∧
        m ≤ Text.Numeral.maxWord := by
    intro m
    rw [Text.Numeral.read, Text.trim, String.toList_ofList, Text.Numeral.readList_eq_ok_iff]
    refine and_congr_left fun _ => ?_
    constructor
    · intro h
      exact ⟨_, Text.trims_trimList _, h⟩
    · rintro ⟨core, hcore, h⟩
      rwa [Text.trims_iff.mp hcore]
  rw [parseThreads]
  cases h : Text.Numeral.read Text.Numeral.maxWord (Text.trim value) with
  | error fault =>
    refine iff_of_false nofun ?_
    rintro ⟨hallows, hdenotes⟩
    -- a number within the bounds is far from the largest word
    have hword : n ≤ Text.Numeral.maxWord := Nat.le_trans hallows.2 (by decide)
    rw [(hread n).mpr ⟨hdenotes, hword⟩] at h
    cases h
  | ok m =>
    have hm := (hread m).mp h
    dsimp only
    rw [checkThreads_eq_ok_iff]
    constructor
    · rintro ⟨hallows, rfl⟩
      exact ⟨hallows, hm.1⟩
    · rintro ⟨hallows, hdenotes⟩
      have hword : n ≤ Text.Numeral.maxWord := Nat.le_trans hallows.2 (by decide)
      have hn := (hread n).mpr ⟨hdenotes, hword⟩
      rw [h] at hn
      exact ⟨hallows, Except.ok.inj hn⟩

section

variable {s : Setting} {value : String} {c after : Config}

/-- Threads are set to the number that the text is read as. -/
theorem write_threads_eq_ok_iff : Setting.threads.write value c = .ok after ↔
    ∃ n, parseThreads value = .ok n ∧ after = { c with threads := n } := by
  rw [write]
  cases parseThreads value <;> simp [Except.map, eq_comm]

/-- A strategy is set by its name, blanks around it cut off. -/
theorem write_strategy_eq_ok_iff : Setting.strategy.write value c = .ok after ↔
    ∃ t : Strategy, t.name = Text.trim value ∧ after = { c with strategy := t } := by
  simp only [← Strategy.parse_eq_ok_iff, write]
  cases Strategy.parse (Text.trim value) <;> simp [Except.map, eq_comm]

/-- A storage mode is set by its name, blanks around it cut off. -/
theorem write_storage_eq_ok_iff : Setting.storage.write value c = .ok after ↔
    ∃ m : StorageMode, m.name = Text.trim value ∧ after = { c with storage := m } := by
  simp only [← StorageMode.parse_eq_ok_iff, write]
  cases StorageMode.parse (Text.trim value) <;> simp [Except.map, eq_comm]

/-- **A setting changes itself only.** -/
theorem eq_copy_of_write (h : s.write value c = .ok after) : after = s.copy after c := by
  cases s with
  | storage =>
    obtain ⟨m, -, rfl⟩ := write_storage_eq_ok_iff.mp h
    rfl
  | strategy =>
    obtain ⟨t, -, rfl⟩ := write_strategy_eq_ok_iff.mp h
    rfl
  | threads =>
    obtain ⟨n, -, rfl⟩ := write_threads_eq_ok_iff.mp h
    rfl

/-- A thread count that was set is within the bounds, and no other setting touches it. -/
theorem threads_of_write (h : s.write value c = .ok after) :
    after.threads = c.threads ∨ Allows after.threads := by
  cases s with
  | storage =>
    obtain ⟨m, -, rfl⟩ := write_storage_eq_ok_iff.mp h
    exact Or.inl rfl
  | strategy =>
    obtain ⟨t, -, rfl⟩ := write_strategy_eq_ok_iff.mp h
    exact Or.inl rfl
  | threads =>
    obtain ⟨n, hn, rfl⟩ := write_threads_eq_ok_iff.mp h
    exact Or.inr (parseThreads_eq_ok_iff.mp hn).1

end

/-! ## Showing -/

/-- A printed number is read back if it is within the bounds. -/
theorem parseThreads_toString_iff {n m : Nat} :
    parseThreads (toString n) = .ok m ↔ Allows n ∧ m = n := by
  rw [parseThreads_eq_ok_iff]
  constructor
  · rintro ⟨hallows, core, hcore, hdenotes⟩
    have hsame : core = Nat.toDigits 10 n := by
      rw [← Text.trims_iff.mp hcore, Text.trims_iff.mp (Text.Numeral.trims_toDigits n)]
    subst hsame
    obtain rfl := hdenotes.unique (Text.Numeral.denotes_toDigits n)
    exact ⟨hallows, rfl⟩
  · rintro ⟨hallows, rfl⟩
    exact ⟨hallows, _, Text.Numeral.trims_toDigits m, Text.Numeral.denotes_toDigits m⟩

/-- **To write what another configuration shows is to copy it from there**, which fails for a thread
    count that is out of bounds and for nothing else. -/
theorem write_text_eq_ok_iff {s : Setting} {source c after : Config} :
    s.write (s.text source) c = .ok after ↔
      (s = .threads → Allows source.threads) ∧ after = s.copy source c := by
  cases s with
  | storage =>
    rw [write_storage_eq_ok_iff, text, StorageMode.trim_name]
    constructor
    · rintro ⟨m, hm, rfl⟩
      rw [StorageMode.name_injective m _ hm]
      exact ⟨nofun, rfl⟩
    · rintro ⟨-, rfl⟩
      exact ⟨source.storage, rfl, rfl⟩
  | strategy =>
    rw [write_strategy_eq_ok_iff, text, Strategy.trim_name]
    constructor
    · rintro ⟨t, ht, rfl⟩
      rw [Strategy.name_injective t _ ht]
      exact ⟨nofun, rfl⟩
    · rintro ⟨-, rfl⟩
      exact ⟨source.strategy, rfl, rfl⟩
  | threads =>
    rw [write_threads_eq_ok_iff, text]
    constructor
    · rintro ⟨n, hn, rfl⟩
      obtain ⟨hallows, rfl⟩ := parseThreads_toString_iff.mp hn
      exact ⟨fun _ => hallows, rfl⟩
    · rintro ⟨hallows, rfl⟩
      exact ⟨source.threads, parseThreads_toString_iff.mpr ⟨hallows rfl, rfl⟩, rfl⟩

end Setting

namespace Config

/-- To set by name is to write the setting of that name. -/
theorem set_name (s : Setting) (value : String) (c : Config) : c.set s.name value = s.write value c := by
  rw [set, Setting.find_name]
  rfl

theorem get_name (s : Setting) (c : Config) : c.get s.name = .ok (s.text c) := by
  rw [get, Setting.find_name]
  rfl

/-- To reset is to write what the default shows. -/
theorem reset_name (s : Setting) (cpus : Nat) (c : Config) :
    c.reset cpus s.name = s.write (s.text (default cpus)) c := by
  rw [reset, Setting.find_name]
  rfl

/-- Whether a setting accepts the text that it shows, and keeps its value by that. -/
def PrintsBack (c : Config) (s : Setting) : Prop :=
  ∃ text, c.get s.name = .ok text ∧ c.set s.name text = .ok c

/-- **Settings print back**, but for a thread count that is out of bounds. -/
theorem printsBack_iff {c : Config} {s : Setting} :
    c.PrintsBack s ↔ (s = .threads → Setting.Allows c.threads) := by
  have hwrite : s.write (s.text c) c = .ok c ↔ (s = .threads → Setting.Allows c.threads) := by
    rw [Setting.write_text_eq_ok_iff, Setting.copy_self]
    exact and_iff_left rfl
  rw [← hwrite]
  constructor
  · rintro ⟨text, hget, hset⟩
    rw [get_name] at hget
    cases hget
    rwa [set_name] at hset
  · intro h
    exact ⟨s.text c, get_name s c, by rwa [set_name]⟩

end Config

/-! ## In place -/

/-- Write this setting, in place: what is left of the configuration after every step. -/
def Setting.writeInPlace (s : Setting) (value : String) : EStateM Error Config Unit := do
  match s with
  | .storage =>
    let m ← MonadExcept.ofExcept (StorageMode.parse (Text.trim value))
    modify fun c => { c with storage := m }
  | .strategy =>
    let t ← MonadExcept.ofExcept (Strategy.parse (Text.trim value))
    modify fun c => { c with strategy := t }
  | .threads =>
    let n ← MonadExcept.ofExcept (Setting.parseThreads value)
    modify fun c => { c with threads := n }

/-- What writing in place leaves: the new configuration, or the old one after an error. -/
theorem Setting.run_writeInPlace (s : Setting) (value : String) (c : Config) :
    (s.writeInPlace value).run c =
      match s.write value c with
      | .ok after => .ok () after
      | .error e => .error e c := by
  cases s with
  | storage =>
    rw [writeInPlace, write]
    cases StorageMode.parse (Text.trim value) <;> rfl
  | strategy =>
    rw [writeInPlace, write]
    cases Strategy.parse (Text.trim value) <;> rfl
  | threads =>
    rw [writeInPlace, write]
    cases parseThreads value <;> rfl

namespace Config

/-- Carry out a command, in place. -/
def Command.perform (cpus : Nat) : Command → EStateM Error Config Reply
  | .set name value => do
    let s ← MonadExcept.ofExcept (Setting.find name)
    s.writeInPlace value
    return .done
  | .get name => do
    let s ← MonadExcept.ofExcept (Setting.find name)
    return .shown (s.text (← MonadState.get))
  | .reset name => do
    let s ← MonadExcept.ofExcept (Setting.find name)
    s.writeInPlace (s.text (default cpus))
    return .done
  | .validate => do
    MonadExcept.ofExcept (← MonadState.get).validate
    return .done

/-- Writing in place, and then an answer. -/
theorem run_writeInPlace_done (s : Setting) (value : String) (c : Config) :
    (s.writeInPlace value >>= fun _ => pure Reply.done).run c =
      match s.write value c with
      | .ok after => .ok .done after
      | .error e => .error e c := by
  have hwrite := s.run_writeInPlace value c
  rw [EStateM.run] at hwrite
  show EStateM.bind (s.writeInPlace value) _ c = _
  rw [EStateM.bind, hwrite]
  cases s.write value c <;> rfl

/-- **In place or not**, a command answers and leaves the same. -/
theorem run_perform (cpus : Nat) (command : Command) (c : Config) :
    (command.perform cpus).run c =
      match c.run cpus command with
      | (.ok reply, after) => .ok reply after
      | (.error e, after) => .error e after := by
  cases command with
  | set name value =>
    rw [Command.perform, Config.run, set]
    cases Setting.find name with
    | error e => rfl
    | ok s =>
      show (s.writeInPlace value >>= fun _ => pure Reply.done).run c = _
      rw [run_writeInPlace_done]
      dsimp only [bind, Except.bind]
      cases s.write value c <;> rfl
  | get name =>
    rw [Command.perform, Config.run, get]
    cases Setting.find name <;> rfl
  | reset name =>
    rw [Command.perform, Config.run, reset]
    cases Setting.find name with
    | error e => rfl
    | ok s =>
      show (s.writeInPlace (s.text (default cpus)) >>= fun _ => pure Reply.done).run c = _
      rw [run_writeInPlace_done]
      dsimp only [bind, Except.bind]
      cases s.write (s.text (default cpus)) c <;> rfl
  | validate =>
    show EStateM.bind (MonadExcept.ofExcept c.validate) _ c = _
    rw [Config.run]
    cases c.validate <;> rfl

/-- What setting by name leaves, carried out in place. -/
theorem run_perform_set (cpus : Nat) (name value : String) (c : Config) :
    ((Command.set name value).perform cpus).run c =
      match c.set name value with
      | .ok after => .ok .done after
      | .error e => .error e c := by
  rw [run_perform, Config.run]
  cases c.set name value <;> rfl

/-- What resetting by name leaves, carried out in place. -/
theorem run_perform_reset (cpus : Nat) (name : String) (c : Config) :
    ((Command.reset name).perform cpus).run c =
      match c.reset cpus name with
      | .ok after => .ok .done after
      | .error e => .error e c := by
  rw [run_perform, Config.run]
  cases c.reset cpus name <;> rfl

/-! ## Sessions -/

/-- The configuration after some commands, failed ones among them. -/
def after (cpus : Nat) (c : Config) (commands : List Command) : Config :=
  commands.foldl (fun c command => (c.run cpus command).2) c

/-- **One command** leaves the thread count or puts it within the bounds. -/
theorem threads_run (cpus : Nat) (c : Config) (command : Command) :
    (c.run cpus command).2.threads = c.threads ∨
      Setting.Allows (c.run cpus command).2.threads := by
  cases command with
  | set name value =>
    rw [Config.run, set]
    cases Setting.find name with
    | error e => exact Or.inl rfl
    | ok s =>
      dsimp only [bind, Except.bind]
      cases h : s.write value c with
      | error e => exact Or.inl rfl
      | ok after => exact Setting.threads_of_write h
  | get name => exact Or.inl rfl
  | reset name =>
    rw [Config.run, reset]
    cases Setting.find name with
    | error e => exact Or.inl rfl
    | ok s =>
      dsimp only [bind, Except.bind]
      cases h : s.write (s.text (default cpus)) c with
      | error e => exact Or.inl rfl
      | ok after => exact Setting.threads_of_write h
  | validate => exact Or.inl rfl

/-- **Any number of commands** leave the thread count or put it within the bounds. -/
theorem threads_after (cpus : Nat) (c : Config) (commands : List Command) :
    (c.after cpus commands).threads = c.threads ∨
      Setting.Allows (c.after cpus commands).threads := by
  induction commands generalizing c with
  | nil => exact Or.inl rfl
  | cons command commands ih =>
    rcases ih (c.run cpus command).2 with hsame | hallows
    · rw [after, List.foldl_cons]
      rw [after] at hsame
      rw [hsame]
      exact threads_run cpus c command
    · exact Or.inr hallows

/-! ## Exact and atomic -/

/-- What named settings accept: blanks around a numeral or a name, and nothing else. -/
structure ReadsExactly (cpus : Nat) (c : Config) : Prop where
  threads : ∀ value after, c.set "threads" value = .ok after ↔
    ∃ core n, Text.Trims value.toList core ∧ Text.Numeral.Denotes core n ∧ 1 ≤ n ∧ n ≤ 512 ∧
      after = { c with threads := n }
  strategy : ∀ value after, c.set "strategy" value = .ok after ↔
    ∃ t : Strategy, Text.Trims value.toList t.name.toList ∧ after = { c with strategy := t }
  storage : ∀ value after, c.set "storage" value = .ok after ↔
    ∃ m : StorageMode, Text.Trims value.toList m.name.toList ∧ after = { c with storage := m }
  other : ∀ name, name ∉ ["threads", "strategy", "storage"] →
    (∀ value, c.set name value = .error (.unknownSetting name)) ∧
      c.get name = .error (.unknownSetting name) ∧ c.reset cpus name = .error (.unknownSetting name)

/-- What commands leave, carried out in place: all as it was if they fail, and otherwise all but the
    setting that is named. -/
structure IsAtomic (cpus : Nat) (c : Config) : Prop where
  failed : ∀ command e after, (Command.perform cpus command).run c = .error e after → after = c
  set : ∀ name value after, ((Command.set name value).perform cpus).run c = .ok .done after ↔
    c.set name value = .ok after
  copied : ∀ name value after, c.set name value = .ok after →
    ∃ s : Setting, s.name = name ∧ after = s.copy after c
  reset : ∀ name after, ((Command.reset name).perform cpus).run c = .ok .done after ↔
    c.reset cpus name = .ok after
  restored : ∀ name after, c.reset cpus name = .ok after →
    ∃ s : Setting, s.name = name ∧ after = s.copy (default cpus) c
  get : ∀ name text after, ((Command.get name).perform cpus).run c = .ok (.shown text) after ↔
    c.get name = .ok text ∧ after = c

/-- **Every configuration** reads its settings exactly. -/
theorem readsExactly (cpus : Nat) (c : Config) : c.ReadsExactly cpus := by
  refine ⟨fun value after => ?_, fun value after => ?_, fun value after => ?_, fun name hname => ?_⟩
  · show c.set Setting.threads.name value = _ ↔ _
    rw [set_name, Setting.write_threads_eq_ok_iff]
    constructor
    · rintro ⟨n, hn, rfl⟩
      obtain ⟨⟨hleast, hgreatest⟩, core, hcore, hdenotes⟩ := Setting.parseThreads_eq_ok_iff.mp hn
      exact ⟨core, n, hcore, hdenotes, hleast, hgreatest, rfl⟩
    · rintro ⟨core, n, hcore, hdenotes, hleast, hgreatest, rfl⟩
      have hn := Setting.parseThreads_eq_ok_iff.mpr ⟨⟨hleast, hgreatest⟩, core, hcore, hdenotes⟩
      exact ⟨n, hn, rfl⟩
  · show c.set Setting.strategy.name value = _ ↔ _
    rw [set_name, Setting.write_strategy_eq_ok_iff]
    simp only [Text.trims_toList_iff, eq_comm]
  · show c.set Setting.storage.name value = _ ↔ _
    rw [set_name, Setting.write_storage_eq_ok_iff]
    simp only [Text.trims_toList_iff, eq_comm]
  · have hnone : Setting.find name = .error (.unknownSetting name) := by
      refine Setting.find_of_forall_ne fun s hs => hname ?_
      rw [← hs]
      cases s <;> decide
    refine ⟨fun value => ?_, ?_, ?_⟩
    · rw [set, hnone]
      rfl
    · rw [get, hnone]
      rfl
    · rw [reset, hnone]
      rfl

/-- A command that fails leaves all as it was. -/
theorem eq_of_run_error {cpus : Nat} {c after : Config} {command : Command} {e : Error}
    (h : c.run cpus command = (.error e, after)) : after = c := by
  cases command with
  | set name value =>
    rw [Config.run] at h
    cases hset : c.set name value with
    | error e => rw [hset] at h; cases h; rfl
    | ok _ => rw [hset] at h; cases h
  | get name => exact (congrArg Prod.snd h).symm
  | reset name =>
    rw [Config.run] at h
    cases hreset : c.reset cpus name with
    | error e => rw [hreset] at h; cases h; rfl
    | ok _ => rw [hreset] at h; cases h
  | validate => exact (congrArg Prod.snd h).symm

/-- **No command** stops half way. -/
theorem isAtomic (cpus : Nat) (c : Config) : c.IsAtomic cpus := by
  refine ⟨fun command e after h => ?_, fun name value after => ?_, fun name value after h => ?_,
    fun name after => ?_, fun name after h => ?_, fun name text after => ?_⟩
  · rw [run_perform] at h
    cases hrun : c.run cpus command with
    | mk reply left =>
      rw [hrun] at h
      cases reply with
      | error e' =>
        cases h
        exact eq_of_run_error hrun
      | ok reply => cases h
  · rw [run_perform_set]
    cases c.set name value <;> simp
  · rw [Config.set] at h
    cases hfind : Setting.find name with
    | error e => rw [hfind] at h; cases h
    | ok s =>
      rw [hfind] at h
      exact ⟨s, Setting.find_eq_ok_iff.mp hfind, Setting.eq_copy_of_write h⟩
  · rw [run_perform_reset]
    cases c.reset cpus name <;> simp
  · rw [Config.reset] at h
    cases hfind : Setting.find name with
    | error e => rw [hfind] at h; cases h
    | ok s =>
      rw [hfind] at h
      exact ⟨s, Setting.find_eq_ok_iff.mp hfind, (Setting.write_text_eq_ok_iff.mp h).2⟩
  · rw [run_perform, Config.run]
    cases c.get name <;> simp [Except.map, eq_comm]

end Config

/-- **Named settings are read exactly, and change all at once or not at all.**

    From a text, blanks cut off, a thread count takes the numerals of the numbers from 1 to 512, and
    a strategy or a storage mode takes its names, spelled exactly; no other setting has a name.
    Carried out step by step, a command that fails leaves the whole configuration as it was, and one
    that succeeds changes the setting it names and nothing else.

    If the thread count is from 1 to 512, it still is after any commands, and every setting then
    accepts the text that it shows, without a change. -/
theorem settings_exact_and_atomic (cpus : Nat) (c : Config) :
    c.ReadsExactly cpus ∧ c.IsAtomic cpus ∧
    (1 ≤ c.threads → c.threads ≤ 512 → ∀ commands, let later := c.after cpus commands
      1 ≤ later.threads ∧ later.threads ≤ 512 ∧ ∀ s : Setting, later.PrintsBack s) := by
  refine ⟨c.readsExactly cpus, c.isAtomic cpus, fun hleast hgreatest commands => ?_⟩
  have hallows : Setting.Allows (c.after cpus commands).threads := by
    rcases Config.threads_after cpus c commands with hsame | hallows
    · rw [hsame]
      exact ⟨hleast, hgreatest⟩
    · exact hallows
  exact ⟨hallows.1, hallows.2, fun s => Config.printsBack_iff.mpr fun _ => hallows⟩

/-- A thread count with a sign, leading zeros and blanks around it, and a session in which some
    commands fail. -/
theorem settings_exact_and_atomic_sample :
    let c : Config := ⟨2, .globalMerge, .array⟩
    let commands : List Config.Command :=
      [.set "threads" "512", .set "threads" "513", .set "Storage" "list", .reset "strategy"]
    1 ≤ c.threads ∧ c.threads ≤ 512 ∧ c.set "threads" " +007\u3000" = .ok { c with threads := 7 } ∧
      c.after 8 commands = ⟨512, .localMerge, .array⟩ ∧
      ∀ s : Setting, (c.after 8 commands).PrintsBack s := by
  intro c commands
  obtain ⟨hexact, -, hsession⟩ := settings_exact_and_atomic 8 c
  have hleast : 1 ≤ c.threads := by decide
  have hgreatest : c.threads ≤ 512 := by decide
  have hset : c.set "threads" " +007\u3000" = .ok { c with threads := 7 } := by
    refine (hexact.threads _ _).mpr ⟨['+', '0', '0', '7'], 7, ?_, ?_, by decide, by decide, rfl⟩
    · exact Text.trims_iff.mpr (by decide)
    · exact ⟨['0', '0', '7'], by decide, List.all_eq_true.mp rfl, Or.inr rfl, by decide⟩
  have hafter : c.after 8 commands = ⟨512, .localMerge, .array⟩ := by decide
  exact ⟨hleast, hgreatest, hset, hafter, (hsession hleast hgreatest commands).2.2⟩

end Cohort
