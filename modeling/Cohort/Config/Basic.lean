import Cohort.Error
/-
  How a grouping run is carried out: on how many threads, by which strategy, with which storage.
-/

namespace Cohort

/-- How the work of grouping is shared and its parts are brought together. -/
inductive Strategy
  /-- Private dictionaries, merged pairwise up a binary tree. -/
  | localMerge
  /-- Private dictionaries, each then poured into a shared one. -/
  | localGlobalMerge
  /-- One shared dictionary from the start. -/
  | globalMerge
deriving DecidableEq

/-- How the tallies of a private dictionary are laid out. -/
inductive StorageMode
  /-- One bucket per group and aggregate. -/
  | bucket
  /-- One growing list per aggregate. -/
  | list
  /-- One array of fixed capacity per aggregate. -/
  | array
deriving DecidableEq

namespace Strategy

/-- All strategies. -/
def all : List Strategy := [.localMerge, .localGlobalMerge, .globalMerge]

/-- The name a strategy is written by. -/
def name : Strategy → String
  | .localMerge => "local_merge"
  | .localGlobalMerge => "local_global_merge"
  | .globalMerge => "global_merge"

/-- The strategy of a name, spelled exactly. -/
def parse (text : String) : Except Error Strategy :=
  match all.find? fun s => s.name == text with
  | some s => .ok s
  | none => .error (.unknownStrategy text)

theorem parse_name (s : Strategy) : parse s.name = .ok s := by cases s <;> rfl

end Strategy

namespace StorageMode

/-- All storage modes. -/
def all : List StorageMode := [.bucket, .list, .array]

/-- The name a storage mode is written by. -/
def name : StorageMode → String
  | .bucket => "bucket"
  | .list => "list"
  | .array => "array"

/-- The storage mode of a name, spelled exactly. -/
def parse (text : String) : Except Error StorageMode :=
  match all.find? fun m => m.name == text with
  | some m => .ok m
  | none => .error (.unknownStorage text)

theorem parse_name (m : StorageMode) : parse m.name = .ok m := by cases m <;> rfl

end StorageMode

/-- The configuration of one grouping run. -/
structure Config where
  /-- Number of workers; each takes a contiguous share of the rows. -/
  threads : Nat
  strategy : Strategy
  /-- Not looked at by `Strategy.globalMerge`, which always keeps its tallies in buckets. -/
  storage : StorageMode
deriving DecidableEq

namespace Config

/-- The configuration of a machine with `cpus` processors before anything is set. -/
def default (cpus : Nat) : Config := ⟨cpus, .localMerge, .list⟩

/-- A run needs a worker. -/
def validate (c : Config) : Except Error Unit :=
  if c.threads = 0 then .error .noThreads else .ok ()

end Config
end Cohort
