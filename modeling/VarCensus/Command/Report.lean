import VarCensus.Command.Task
import VarCensus.Json.Record
import VarCensus.Workers

/-!
# Reports

What came of each file of an extraction: its variables, or why there are none. A failure concerns its own
file only. A report is written with the path of its file, and as JSON it cannot be if that path is no text.
-/

namespace VarCensus

/-- What came of one file. -/
structure Report where
  task : Task
  result : Except Error (List Record)

namespace Report

/-- The report on one task. -/
def ofTask (files : Files) (limit : Nat) (task : Task) : Report :=
  ⟨task, files.extract limit (some task.language) task.path⟩

/-- The reports on tasks in their order, made by so many workers. -/
def ofTasks (files : Files) (limit workers : Nat) (tasks : List Task) : List Report :=
  gather workers (ofTask files limit) tasks

def isFailed (report : Report) : Bool :=
  match report.result with
  | .ok _ => false
  | .error _ => true

/-- How many reports are failures. -/
def failures (reports : List Report) : Nat :=
  reports.countP isFailed

/-- How many variables all reports have together. -/
def variableCount (reports : List Report) : Nat :=
  reports.foldl (fun n report => match report.result with
    | .ok records => n + records.length
    | .error _ => n) 0

/-- A report as JSON, in which a path has to be a text. -/
def toJson? (report : Report) : Option Json :=
  report.task.path.text?.map fun path =>
    .object [("path", .string path), ("language", .string report.task.language.tag),
      match report.result with
      | .ok records => ("variables", .array (records.map Record.toJson))
      | .error e => ("error", .string e.message)]

end Report
end VarCensus
