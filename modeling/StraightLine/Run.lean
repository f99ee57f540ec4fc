import StraightLine.Evaluation.Evaluate
import StraightLine.Report.Basic

/-!
Runs of programs. The first error stops a run and becomes an issue; whatever the outcome, the declared
variables are compared with what they hold.
-/

namespace StraightLine

/-- The word for the kind of a value. -/
def Value.kindWord (value : Value) : String :=
  match value.kind? with
  | some kind => kind.keyword
  | none => "unit"

namespace Report

/-- The message about a variable that holds a value of another kind than declared. -/
def mismatch (v : Variable) : String :=
  "Variable " ++ Cause.marked v.name ++ " is declared " ++ v.type.keyword ++ " but holds a " ++
    v.value.kindWord ++ " value."

/-- The messages about the variables of a scope, in the order of their declaration. -/
def mismatches (report : Report) (scope : Scope) : String :=
  String.join ((scope.toList.filter fun v => v.value.kind? ≠ some v.type).map
    fun v => report.note [mismatch v])

end Report

/-- What a run leaves behind; `output` is what the program wrote and `messages` what the report
passed on. -/
structure RunOutcome where
  result : Except Fault Value
  scope : Scope
  report : Report
  output : String
  messages : String

/-- What a run makes of the result of its program: an error yields the unit value and an issue. -/
def settle (report : Report) (index : Index) : Except Failure Value → Except Fault Value × Report
  | .ok value => (.ok value, report)
  | .error (.fault fault) => (.error fault, report)
  | .error (.error e) =>
    let (result, report) := report.recordError index e
    (result.map fun _ => .unit, report)

/-- An error puts its issue on the report, unless the issue cannot be made. -/
theorem settle_of_error (report : Report) (index : Index) (e : Error) :
    settle report index (.error (.error e)) = match Report.issueOfError index e with
      | .error fault => (.error fault, report)
      | .ok issue =>
        (if (report.issues.length + 1 : Int) = report.maxIssues then .error .tooManyIssues
          else .ok .unit,
          { report with issues := report.issues ++ [issue] }) := by
  rw [settle, Report.recordError]
  cases Report.issueOfError index e with
  | error fault => rfl
  | ok issue =>
      have hlength : ((report.issues ++ [issue]).length : Int) = report.issues.length + 1 := by
        rw [List.length_append, List.length_singleton]
        rfl
      simp only [Report.record, hlength]
      split <;> rfl

/-- Runs a program in a scope. -/
def run (program : Tree) (report : Report) (index : Index) (scope : Scope) : RunOutcome :=
  match program with
  | .program statements =>
    let outcome := evaluate program scope
    let (result, settled) := settle report index outcome.result
    let opening := "Running " ++ statements.length.repr ++ " statement(s)."
    ⟨result, outcome.scope, settled, outcome.output,
      report.note [opening] ++ settled.mismatches outcome.scope⟩
  | other => ⟨.error (.notProgram other.treeClass), scope, report, "", ""⟩

end StraightLine
