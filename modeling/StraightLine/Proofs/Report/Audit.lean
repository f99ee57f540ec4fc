import StraightLine.Proofs.Evaluation.Assignment
import StraightLine.Run

/-!
The messages of a run. However a run ends, its report tells of each variable in the scope that is
left whether it holds a value of another kind than it was declared as; to tell so changes nothing.
-/

namespace StraightLine

/-! ### What a report passes on -/

namespace Report

/-- What the console shows of messages that are passed on one after another. -/
def notes (report : Report) (messages : List String) : String :=
  String.join (messages.map fun message => report.note [message])

theorem notes_of_quiet {report : Report} (h : report.verbose = false) (messages : List String) :
    report.notes messages = "" := by
  induction messages with
  | nil => rfl
  | cons message messages ih =>
      rw [notes] at ih
      rw [notes, List.map_cons, String.join_cons, ih, note, h]
      rfl

theorem notes_of_verbose {report : Report} (h : report.verbose = true) (messages : List String) :
    report.notes messages = String.join (messages.map (· ++ "\n")) := by
  have hnote : ∀ message, report.note [message] = message ++ "\n" := fun message => by
    rw [note, h, if_pos rfl, String.intercalate_singleton]
  simp only [notes, hnote]

theorem notes_congr {report other : Report} (h : report.verbose = other.verbose) :
    report.notes = other.notes := by
  funext messages
  simp only [notes, note, h]

end Report

/-! ### What a run passes on -/

/-- What becomes of the result of a program leaves the report as verbose as it was. -/
theorem verbose_settle (report : Report) (index : Index) (result : Except Failure Value) :
    (settle report index result).2.verbose = report.verbose := by
  unfold settle
  split
  · rfl
  · rfl
  · simp only [Report.recordError]
    split <;> rfl

/-- The variables of a scope that hold a value of another kind than declared. -/
def Scope.mismatched (scope : Scope) : List Variable :=
  scope.toList.filter fun v => v.value.kind? ≠ some v.type

theorem Scope.mem_mismatched {scope : Scope} {v : Variable} :
    v ∈ scope.mismatched ↔ v ∈ scope.toList ∧ v.value.kind? ≠ some v.type := by
  rw [mismatched, List.mem_filter, decide_eq_true_eq]

theorem Report.mismatches_eq_notes (report : Report) (scope : Scope) :
    report.mismatches scope = report.notes (scope.mismatched.map mismatch) := by
  rw [mismatches, notes, List.map_map]
  rfl

/-- What a run passes on: how many statements there are, and then each mismatch in the scope that is
left. -/
theorem messages_run (statements : List Tree) (report : Report) (index : Index) (scope : Scope) :
    let done := run (.program statements) report index scope
    done.messages = report.notes (("Running " ++ statements.length.repr ++ " statement(s).") ::
      done.scope.mismatched.map Report.mismatch) := by
  intro done
  let outcome := evaluate (.program statements) scope
  have hverbose := verbose_settle report index outcome.result
  have hmessages : done.messages =
      report.note ["Running " ++ statements.length.repr ++ " statement(s)."] ++
        (settle report index outcome.result).2.mismatches done.scope := rfl
  rw [hmessages, Report.mismatches_eq_notes, Report.notes_congr hverbose, Report.notes,
    Report.notes, List.map_cons, String.join_cons]

/-- **The audit of declarations is complete, and only tells.** A report with a verbosity other than
zero passes on how many statements a run has, and then one line for each variable of the scope that
is left whose value is of another kind than declared, in the order of their declaration; other
reports pass on nothing. The scope holds the variables there were and those of the declarations
that completed, however the run ended. Scope, report and result are what the evaluation and the
recording of its error, if there is one, make of them. -/
theorem declarations_audited (statements : List Tree) (verbosity : Option Int) (maxIssues : Int)
    (issues : List Issue) (index : Index) (scope : Scope) :
    let report := { Report.ofVerbosity verbosity maxIssues with issues }
    let outcome := evaluate (.program statements) scope
    let done := run (.program statements) report index scope
    (verbosity = none ∨ verbosity = some 0 → done.messages = "") ∧
      (∀ n, verbosity = some n → n ≠ 0 → ∃ told : List Variable,
        told.Sublist done.scope.toList ∧
          (∀ v ∈ done.scope.toList, v ∈ told ↔ v.value.kind? ≠ some v.type) ∧
            done.messages = String.join
              ((("Running " ++ statements.length.repr ++ " statement(s).") ::
                told.map Report.mismatch).map (· ++ "\n"))) ∧
      (∃ added, done.scope.toList = scope.toList ++ added ∧ List.Forall₂ Visit.Declares
        ((visits (.program statements) scope).filter Visit.completes) added) ∧
      done.scope = outcome.scope ∧ done.output = outcome.output ∧
        match outcome.result with
        | .ok value => done.result = .ok value ∧ done.report = report
        | .error (.fault f) => done.result = .error f ∧ done.report = report
        | .error (.error e) => match Report.issueOfError index e with
          | .error f => done.result = .error f ∧ done.report = report
          | .ok issue => done.report = { report with issues := issues ++ [issue] } ∧
            done.result = if (issues.length + 1 : Int) = maxIssues then .error .tooManyIssues
              else .ok .unit := by
  intro report outcome done
  have hmessages := messages_run statements report index scope
  refine ⟨fun hquiet => ?_, fun n hn hne => ⟨done.scope.mismatched, List.filter_sublist, ?_, ?_⟩,
    ?_, rfl, rfl, ?_⟩
  · have hverbose : report.verbose = false := by
      rcases hquiet with rfl | rfl <;> rfl
    exact hmessages.trans (Report.notes_of_quiet hverbose _)
  · intro v hv
    rw [Scope.mem_mismatched]
    exact and_iff_right hv
  · have hverbose : report.verbose = true := by
      subst hn
      exact decide_eq_true hne
    exact hmessages.trans (Report.notes_of_verbose hverbose _)
  · obtain ⟨added, hadded⟩ := additions_evaluate (.program statements) scope
    exact ⟨added, hadded.toList_eq, hadded.declared⟩
  · have hresult : done.result = (settle report index outcome.result).1 := rfl
    have hreport : done.report = (settle report index outcome.result).2 := rfl
    rw [hresult, hreport]
    split
    · rename_i value hvalue
      rw [hvalue]
      exact ⟨rfl, rfl⟩
    · rename_i f hf
      rw [hf]
      exact ⟨rfl, rfl⟩
    · rename_i e he
      rw [he, settle_of_error]
      cases Report.issueOfError index e with
      | error f => exact ⟨rfl, rfl⟩
      | ok issue => exact ⟨rfl, rfl⟩

-- A message as it is shown.
example :
    let statement := Tree.declaration ⟨"dec", 0⟩ ⟨"x", 0⟩ (.literal .integer "1" 0)
    (run (.program [statement]) (.ofVerbosity (some 1) 3) .initial .empty).messages =
      "Running 1 statement(s).\nVariable `x` is declared dec but holds a int value.\n" := by
  decide +kernel

/-- A run that stops at its third statement tells of the variable that the first one declared, and
not of that of the second one. -/
theorem declarations_audited_stopped :
    let statements : List Tree :=
      [.declaration ⟨"dec", 0⟩ ⟨"x", 0⟩ (.literal .integer "1" 0),
        .declaration ⟨"int", 0⟩ ⟨"y", 0⟩ (.literal .integer "2" 0), .identifier ⟨"z", 0⟩]
    let done := run (.program statements) (.ofVerbosity (some 1) 1) .initial .empty
    (1 : Int) ≠ 0 ∧ (evaluate (.program statements) .empty).result =
        .error (.error ⟨.undefined "z", some (.identifier ⟨"z", 0⟩)⟩) ∧
      ∃ told : List Variable,
        ⟨"x", .decimal, .integer 1⟩ ∈ told ∧ ⟨"y", .integer, .integer 2⟩ ∉ told ∧
        done.messages = String.join (("Running 3 statement(s)." :: told.map Report.mismatch).map
          (· ++ "\n")) := by
  intro statements done
  have hone : (1 : Int) ≠ 0 := by decide
  have hscope : done.scope.toList =
      [⟨"x", .decimal, .integer 1⟩, ⟨"y", .integer, .integer 2⟩] := by decide +kernel
  obtain ⟨told, -, hiff, hmessages⟩ :=
    (declarations_audited statements (some 1) 1 [] .initial .empty).2.1 1 rfl hone
  have hiff : ∀ v ∈ done.scope.toList, v ∈ told ↔ v.value.kind? ≠ some v.type := hiff
  have hopening : "Running " ++ statements.length.repr ++ " statement(s)." =
      "Running 3 statement(s)." := by decide +kernel
  rw [hopening] at hmessages
  rw [hscope] at hiff
  refine ⟨hone, rfl, told, (hiff _ (by simp)).mpr (by decide), ?_, hmessages⟩
  exact fun hmem => (hiff _ (by simp)).mp hmem rfl

end StraightLine
