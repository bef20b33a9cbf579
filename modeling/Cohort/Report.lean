/-
  Error reports.

  A REPORT is what a reader is told about a failure: a message, named fields in the order in which
  they were attached, and possibly the report of what caused it.  `display` writes all of it on
  one line,

      message (key: value, key: value): display of the source

  where the parenthesis is left out without fields and the last part without a source.  A failure
  that comes from elsewhere and brings only a text is a report with that message and nothing else,
  so the chain of causes is a chain of reports.
-/

namespace Cohort

/-- A message with its fields, alone or on top of the report that caused it. -/
inductive Report
  | plain (message : String) (fields : List (String × String))
  | caused (message : String) (fields : List (String × String)) (source : Report)
deriving DecidableEq

namespace Report

/-! ## Building -/

/-- A report with a message only. -/
def ofMessage (message : String) : Report := .plain message []

/-- Attach a field after those already there. -/
def withField (key value : String) : Report → Report
  | .plain m fs => .plain m (fs ++ [(key, value)])
  | .caused m fs s => .caused m (fs ++ [(key, value)]) s

/-- A new report on top of the one that caused it. -/
def context (message : String) (source : Report) : Report := .caused message [] source

/-- Formatting a value failed. -/
def formatFailure : Report := ofMessage "an error occurred when formatting an argument"

/-- A formatting failure, as this library reports it. -/
def ofFormatFailure : Report := formatFailure.context "Format error"

/-- An input or output failure that described itself by `text`. -/
def ofIoFailure (text : String) : Report := (ofMessage text).context "IO error"

/-- The value, or a report that it is missing. -/
def required {α : Type} (message : String) : Option α → Except Report α
  | some a => .ok a
  | none => .error (ofMessage message)

/-! ## Reading -/

/-- The message, without fields and source. -/
def message : Report → String
  | .plain m _ => m
  | .caused m _ _ => m

/-- The fields, oldest first. -/
def fields : Report → List (String × String)
  | .plain _ fs => fs
  | .caused _ fs _ => fs

/-- The value of the FIRST field with this key. -/
def field? (key : String) (r : Report) : Option String :=
  (r.fields.find? fun f => f.1 == key).map (·.2)

/-- The report that caused this one. -/
def source? : Report → Option Report
  | .plain _ _ => none
  | .caused _ _ s => some s

/-- All causes, nearest first. -/
def sources : Report → List Report
  | .plain _ _ => []
  | .caused _ _ s => s :: s.sources

/-! ## Writing -/

/-- The fields in parentheses, nothing at all without fields. -/
def fieldText : List (String × String) → String
  | [] => ""
  | fs => " (" ++ ", ".intercalate (fs.map fun f => f.1 ++ ": " ++ f.2) ++ ")"

/-- The whole report on one line. -/
def display : Report → String
  | .plain m fs => m ++ fieldText fs
  | .caused m fs s => m ++ fieldText fs ++ ": " ++ s.display

theorem display_caused (m : String) (fs : List (String × String)) (s : Report) :
    (Report.caused m fs s).display = (Report.plain m fs).display ++ ": " ++ s.display := rfl

theorem sources_context (m : String) (s : Report) : (s.context m).sources = s :: s.sources := rfl

/-- A later field never hides an earlier one. -/
theorem field?_withField_of_some {r : Report} {key k v w : String} (h : r.field? key = some w) :
    (r.withField k v).field? key = some w := by
  cases r <;>
  · simp only [field?, fields, withField, List.find?_append, Option.map_eq_some_iff] at h ⊢
    obtain ⟨f, hf, rfl⟩ := h
    exact ⟨f, by simp [hf], rfl⟩

end Report
end Cohort
