import Cohort.Config.Basic
import Cohort.Text.Blank
/-
  The configuration by named settings.

  Three settings can be read and written as texts: `threads`, `strategy` and `storage`.  A value is
  trimmed of blanks before it is read, and what is read is checked before anything is written: a
  setting that fails leaves no trace, because a failure is not a configuration.  `reset` writes back
  what the default configuration shows, through the same checks as any other value.
-/

namespace Cohort

/-- The settings that have names. -/
inductive Setting
  | storage
  | strategy
  | threads
deriving DecidableEq

namespace Setting

/-- All settings, sorted by name. -/
def all : List Setting := [.storage, .strategy, .threads]

/-- The name of a setting. -/
def name : Setting → String
  | .storage => "storage"
  | .strategy => "strategy"
  | .threads => "threads"

/-- What a setting is for. -/
def description : Setting → String
  | .storage => "Aggregate state storage for local grouping (bucket, list, array)"
  | .strategy => "Grouping strategy (local_merge, local_global_merge, global_merge)"
  | .threads => "Number of worker threads to group with"

/-- The setting of a name, spelled exactly. -/
def find (name : String) : Except Error Setting :=
  match all.find? fun s => s.name == name with
  | some s => .ok s
  | none => .error (.unknownSetting name)

/-- The least thread count that can be set. -/
def minThreads : Nat := 1

/-- The greatest thread count that can be set. -/
def maxThreads : Nat := 512

/-- Refuse thread counts out of bounds. -/
def checkThreads (n : Nat) : Except Error Nat :=
  if n < minThreads then .error (.tooFewThreads minThreads)
  else if maxThreads < n then .error (.tooManyThreads maxThreads)
  else .ok n

/-- Read a thread count. -/
def parseThreads (value : String) : Except Error Nat :=
  match Text.Numeral.read Text.Numeral.maxWord (Text.trim value) with
  | .error fault => .error (.unreadableThreads value fault)
  | .ok n => checkThreads n

/-- The configuration with this setting written. -/
def write (s : Setting) (value : String) (c : Config) : Except Error Config :=
  match s with
  | .storage => (StorageMode.parse (Text.trim value)).map fun m => { c with storage := m }
  | .strategy => (Strategy.parse (Text.trim value)).map fun t => { c with strategy := t }
  | .threads => (parseThreads value).map fun n => { c with threads := n }

/-- The setting as the configuration has it. -/
def text (s : Setting) (c : Config) : String :=
  match s with
  | .storage => c.storage.name
  | .strategy => c.strategy.name
  | .threads => toString c.threads

end Setting

namespace Config

/-- Set a named setting from its text. -/
def set (name value : String) (c : Config) : Except Error Config := do
  let s ← Setting.find name
  s.write value c

/-- The text of a named setting. -/
def get (name : String) (c : Config) : Except Error String := do
  let s ← Setting.find name
  return s.text c

/-- Set a named setting to what the default configuration of the machine shows. -/
def reset (cpus : Nat) (name : String) (c : Config) : Except Error Config := do
  let s ← Setting.find name
  s.write (s.text (default cpus)) c

/-- Names and descriptions of all settings, sorted by name. -/
def settings : List (String × String) := Setting.all.map fun s => (s.name, s.description)

/-! ## Sessions -/

/-- What can be asked of a configuration. -/
inductive Command
  | set (name value : String)
  | get (name : String)
  | reset (name : String)
  | validate
deriving DecidableEq

/-- What a command answers. -/
inductive Reply
  /-- It was done. -/
  | done
  /-- The text asked for. -/
  | shown (text : String)
deriving DecidableEq

/-- Carry out a command: its answer, and the configuration afterwards, which is the old one if the
    command fails. -/
def run (cpus : Nat) (c : Config) (command : Command) : Except Error Reply × Config :=
  let written : Except Error Config → Except Error Reply × Config
    | .ok after => (.ok .done, after)
    | .error e => (.error e, c)
  match command with
  | .set name value => written (c.set name value)
  | .reset name => written (c.reset cpus name)
  | .get name => ((c.get name).map .shown, c)
  | .validate => (c.validate.map fun _ => .done, c)

end Config
end Cohort
