import Cohort.Proofs.Config.Settings
/-
  Which DEFAULTS can be restored.

  The default thread count is the number of processors, whatever it is, but a thread count is set
  only within its bounds.  So everything depends on whether the machine has more processors than
  threads may be set:

  * if not, every setting can be reset and prints back, in every session;
  * if it has, the thread count can never be reset, and it prints back only once it was set.

  Both cases come out of one description of what resetting does (`reset_default_eq_ok_iff`) and of
  what thread counts a session can have (`threads_of_default`).
-/

namespace Cohort.Config

variable {cpus : Nat}

/-- Resetting takes the setting of the default configuration, if the setting accepts it. -/
theorem reset_default_eq_ok_iff {s : Setting} {c after : Config} :
    c.reset cpus s.name = .ok after ↔
      (s = .threads → Setting.Allows cpus) ∧ after = s.copy (default cpus) c := by
  rw [reset_name]
  exact Setting.write_text_eq_ok_iff

/-- The thread count of a session that began with the default configuration. -/
theorem threads_of_default (cpus : Nat) (commands : List Command) :
    ((default cpus).after cpus commands).threads = cpus ∨
      Setting.Allows ((default cpus).after cpus commands).threads :=
  threads_after cpus (default cpus) commands

/-- More processors than threads may be set are refused for their number, if it is a word. -/
theorem reset_threads_eq_error (hword : cpus < UInt64.size) (hmany : 512 < cpus) (c : Config) :
    c.reset cpus Setting.threads.name = .error (.tooManyThreads 512) := by
  have hread : Text.Numeral.read Text.Numeral.maxWord (Text.trim (toString cpus)) = .ok cpus := by
    rw [Text.Numeral.read, Text.trim, String.toList_ofList,
      Text.trims_iff.mp (Text.Numeral.trims_toDigits cpus), Text.Numeral.readList_eq_ok_iff]
    exact ⟨Text.Numeral.denotes_toDigits cpus, Nat.le_of_lt_succ hword⟩
  have hcheck : Setting.checkThreads cpus = .error (.tooManyThreads 512) := by
    rw [Setting.checkThreads, if_neg (Nat.not_lt.mpr (Nat.le_of_lt (Nat.lt_trans (by decide) hmany)))]
    exact if_pos hmany
  have hparse : Setting.parseThreads (toString cpus) = .error (.tooManyThreads 512) := by
    rw [Setting.parseThreads, hread]
    exact hcheck
  rw [reset_name, Setting.write, Setting.text, default, hparse]
  rfl

/-- **Which defaults can be restored.**

    Let a machine have `cpus` processors, one at least, and let a session have begun with the default
    configuration.  If as many threads as processors may be set, every setting can be reset, which
    changes it to its default and nothing else, and every setting accepts the text that it shows,
    without a change.

    With more processors this holds of the strategy and the storage mode still.  But the thread count
    cannot be reset, which leaves the configuration as it is; and it accepts the text that it shows
    only once it was set, that is, as long as it is not the number of processors. -/
theorem defaults_restorable (hcpus : 1 ≤ cpus) (commands : List Command) :
    let c := (default cpus).after cpus commands
    (cpus ≤ 512 → ∀ s : Setting,
      c.reset cpus s.name = .ok (s.copy (default cpus) c) ∧ c.PrintsBack s) ∧
    (512 < cpus →
      (∀ s : Setting, s ≠ .threads →
        c.reset cpus s.name = .ok (s.copy (default cpus) c) ∧ c.PrintsBack s) ∧
      (∃ e, ((Command.reset "threads").perform cpus).run c = .error e c ∧
        (cpus < UInt64.size → e = .tooManyThreads 512)) ∧
      (c.PrintsBack .threads ↔ c.threads ≠ cpus)) := by
  intro c
  have hthreads := threads_of_default cpus commands
  refine ⟨fun hfew s => ?_, fun hmany => ⟨fun s hs => ?_, ?_, ?_⟩⟩
  · have hallows : Setting.Allows cpus := ⟨hcpus, hfew⟩
    refine ⟨reset_default_eq_ok_iff.mpr ⟨fun _ => hallows, rfl⟩, printsBack_iff.mpr fun _ => ?_⟩
    rcases hthreads with hsame | hset
    · rw [show c.threads = cpus from hsame]
      exact hallows
    · exact hset
  · exact ⟨reset_default_eq_ok_iff.mpr ⟨fun heq => absurd heq hs, rfl⟩,
      printsBack_iff.mpr fun heq => absurd heq hs⟩
  · cases hreset : c.reset cpus Setting.threads.name with
    | ok after =>
      have hallows := (reset_default_eq_ok_iff.mp hreset).1 rfl
      exact absurd hallows.2 (Nat.not_le.mpr hmany)
    | error e =>
      refine ⟨e, ?_, fun hword => ?_⟩
      · rw [run_perform_reset]
        rw [Setting.name] at hreset
        rw [hreset]
      · have hword := reset_threads_eq_error hword hmany c
        rw [hreset] at hword
        exact Except.error.inj hword
  · rw [printsBack_iff]
    constructor
    · intro hallows hsame
      have hset := hallows rfl
      rw [hsame] at hset
      exact absurd hset.2 (Nat.not_le.mpr hmany)
    · exact fun hdiffers _ => hthreads.resolve_left hdiffers

/-- On a machine with 513 processors, after other settings were changed: the thread count is still
    the default, cannot be reset, and does not print back. -/
theorem defaults_restorable_sample :
    let c := (default 513).after 513 [.set "strategy" "global_merge", .set "threads" "0"]
    ((∃ e, ((Command.reset "threads").perform 513).run c = .error e c ∧
        (513 < UInt64.size → e = .tooManyThreads 512)) ∧
      (c.PrintsBack .threads ↔ c.threads ≠ 513)) ∧
    c = { threads := 513, strategy := .globalMerge, storage := .list } :=
  ⟨((defaults_restorable (by decide) [.set "strategy" "global_merge", .set "threads" "0"]).2
    (by decide)).2, by decide⟩

/-- So defaults cannot be restored, nor printed settings set back, on every machine. -/
theorem not_restorable_on_every_machine :
    ¬∀ cpus, 1 ≤ cpus → ∀ (commands : List Command) (s : Setting),
      let c := (default cpus).after cpus commands
      c.reset cpus s.name = .ok (s.copy (default cpus) c) ∧ c.PrintsBack s := by
  intro h
  have hreset := (h 513 (by decide) [] .threads).1
  exact absurd hreset (by decide)

end Cohort.Config
