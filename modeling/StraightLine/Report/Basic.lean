import StraightLine.Report.Issue
import StraightLine.Report.Outburst

/-!
Reports: the issues of a run, and what is told on the console. A report speaks up when the number of
its issues reaches a limit, and it passes on messages only if it is verbose.
-/

namespace StraightLine

structure Report where
  verbose : Bool
  maxIssues : Int
  issues : List Issue

namespace Report

/-- A report without issues. -/
def empty (verbosity maxIssues : Int) : Report :=
  ⟨verbosity ≠ 0, maxIssues, []⟩

/-- A report without issues; it is quiet if no verbosity is given. -/
def ofVerbosity (verbosity : Option Int) (maxIssues : Int) : Report :=
  empty (verbosity.getD 0) maxIssues

/-- A quiet report that speaks up at the third issue. -/
def initial : Report :=
  empty 0 3

instance : Inhabited Report := ⟨initial⟩

def hasIssues (report : Report) : Bool :=
  !report.issues.isEmpty

def isClear (report : Report) : Bool :=
  !report.hasIssues

/-- Adds an issue, and fails if that makes as many issues as the limit; the issue stays in any
case. -/
def record (report : Report) (issue : Issue) : Except Fault Unit × Report :=
  let issues := report.issues ++ [issue]
  (if (issues.length : Int) = report.maxIssues then .error .tooManyIssues else .ok (),
    { report with issues })

/-- An issue is added behind the others whether the limit is reached or not. -/
@[simp]
theorem issues_record (report : Report) (issue : Issue) :
    (report.record issue).2.issues = report.issues ++ [issue] := rfl

def clear (report : Report) : Report :=
  { report with issues := [] }

/-- What the console shows of a message, whose parts are put on one line. -/
def note (report : Report) (parts : List String) : String :=
  if report.verbose then " ".intercalate parts ++ "\n" else ""

/-- The issue at a place; negative places count from the end. -/
def issueAt (report : Report) (place : Int) : Except Fault Issue :=
  let place := if place < 0 then report.issues.length + place else place
  if place < 0 then .error .noIssue
  else match report.issues[place.toNat]? with
    | some issue => .ok issue
    | none => .error .noIssue

/-- What the report of an error ends with. -/
def stopNote : String :=
  "The program stopped here. Output it wrote before this point stands."

/-- The issue of an error: its kind and message, and the place of the tree to blame. -/
def issueOfError (index : Index) (e : Error) : Except Fault Issue :=
  match e.cause.kind? with
  | none => .error .unclassified
  | some kind => do
    let marks ← match e.guilty with
      | none => pure []
      | some tree => pure [← Mark.ofTree index tree "Here"]
    return ⟨kind.title ++ ": " ++ e.cause.message, marks, [stopNote]⟩

/-- Adds the issue of an error. -/
def recordError (report : Report) (index : Index) (e : Error) : Except Fault Unit × Report :=
  match issueOfError index e with
  | .ok issue => report.record issue
  | .error fault => (.error fault, report)

/-- A complaint: what the console shows of it, up to the issue that cannot be shown if there is
one. -/
structure Complaint where
  result : Except Fault Unit
  shown : String
  library : Library

def ruler : String :=
  String.ofList (List.replicate 60 '*')

def separator : String :=
  String.join (List.replicate 20 "  -")

/-- Issue after issue, each below a separator. -/
def complaintOf (tools : Illustrator) (library : Library) : List Issue → Complaint
  | [] => ⟨.ok (), "", library⟩
  | issue :: issues =>
    let head := separator ++ "\n"
    match issue.text tools library with
    | (.error fault, library) => ⟨.error fault, head, library⟩
    | (.ok text, library) =>
      let rest := complaintOf tools library issues
      { rest with shown := head ++ text ++ "\n" ++ rest.shown }

/-- All issues on the console below an outburst; nothing if there are none. -/
def complaint (report : Report) (tools : Illustrator) (library : Library) (pick : Pick) : Complaint :=
  if report.isClear then ⟨.ok (), "", library⟩
  else
    let rest := complaintOf tools library report.issues
    { rest with shown := ruler ++ "\n" ++ Outburst.text pick ++ "\n" ++ rest.shown }

/-- Complains and fails, unless there are no issues. -/
def failIfIssues (report : Report) (tools : Illustrator) (library : Library) (pick : Pick)
    (message : String) : Complaint :=
  let complaint := report.complaint tools library pick
  if report.isClear then complaint
  else { complaint with
    result := complaint.result.bind fun _ => .error (.issuesRemain (Outburst.text pick) message) }

end Report

end StraightLine
