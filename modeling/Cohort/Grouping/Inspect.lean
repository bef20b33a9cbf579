import Cohort.Grouping.Engine
import Cohort.Scalar.Text
/-
  Short descriptions for diagnostics.

  A description names the kind of thing and its telling fields; two dots stand for what is left out.
  Lists are in brackets and texts in quotes.
-/

namespace Cohort

namespace Inspect

/-- A thing with its fields.  `complete` tells that no field is left out. -/
def record (name : String) (complete : Bool) (fields : List (String × String)) : String :=
  let named := fields.map fun f => f.1 ++ ": " ++ f.2
  let shown := if complete then named else named ++ [".."]
  name ++ " \x7b " ++ ", ".intercalate shown ++ " \x7d"

/-- A list of described things. -/
def list (items : List String) : String := "[" ++ ", ".intercalate items ++ "]"

/-- A list of texts. -/
def texts (items : List String) : String := list (items.map Text.quote)

end Inspect

/-- The description of a storage mode. -/
def StorageMode.inspect : StorageMode → String
  | .bucket => "Bucket"
  | .list => "List"
  | .array => "Array"

/-- The description of an engine: its strategy and what matters to it. -/
def Engine.inspect (e : Engine) : String :=
  let threads := ("threads", toString e.config.threads)
  let storage := ("storage", e.config.storage.inspect)
  let grouper := match e.config.strategy with
    | .localMerge => Inspect.record "LocalMergeGrouper" false [threads, storage]
    | .localGlobalMerge => Inspect.record "LocalGlobalMergeGrouper" false [threads, storage]
    | .globalMerge => Inspect.record "GlobalMergeGrouper" false [threads]
  Inspect.record "GroupingEngine" true [("grouper", grouper)]

/-- The description of results: how many groups, and the names. -/
def Results.inspect (r : Results) : String :=
  Inspect.record "GroupResults" false
    [("num_groups", toString r.size), ("group_names", Inspect.texts r.groupNames),
      ("aggregate_names", Inspect.texts r.aggregateNames)]

/-- The description of a group: its row, its key and its aggregates. -/
def Group.inspect (g : Group) : Except Error String := do
  let values ← g.aggregates
  return Inspect.record "GroupRow" true
    [("row_index", toString g.rowIndex),
      ("key_values", Inspect.list (g.keyValues.map Scalar.inspect)),
      ("aggregates", Inspect.list (values.map Scalar.inspect))]

/-- The description of a private dictionary. -/
def Dictionary.inspect (d : Dictionary) : String :=
  Inspect.record "LocalDictionary" false [("num_groups", toString d.size)]

/-- The description of a shared dictionary. -/
def SharedDictionary.inspect {β : Type} (d : SharedDictionary β) : String :=
  Inspect.record "GlobalDictionary" false [("num_groups", toString d.size)]

end Cohort
