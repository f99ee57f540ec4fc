import StraightLine.Proofs.Evaluation.Culprit
import StraightLine.Proofs.Source.History
import StraightLine.Run

/-!
What a run leaves on its report: nothing where its program succeeds or meets a fault, and one issue
where it meets an error, with a mark at the tree to blame. The spots of the program have to be numbers
of tokens; then the mark can always be made.
-/

namespace StraightLine

/-- The mark of an issue can be made at every part of the program that has a span. -/
theorem exists_span_of_isPartOf {index : Index} (hindex : index.Reachable) {g t : Tree}
    (hspots : ∀ spot ∈ t.spots, index.HasSpot spot) (hpart : g.IsPartOf t) (hspan : g.HasSpan) :
    ∃ first last span, g.span = .ok (first, last) ∧ index.span first last = .ok span := by
  obtain ⟨first, last, hends, hfirst, hlast⟩ := hspan.exists_span
  have hspot : ∀ spot, spot = 0 ∨ spot ∈ g.spots → index.HasSpot spot := by
    rintro spot (rfl | hspot)
    · exact Index.hasSpot_zero hindex
    · exact hspots spot (hpart.spots_subset hspot)
  obtain ⟨span, hspan⟩ := Index.exists_span (hspot first (Tree.mem_spots_of_firstSpot hfirst))
    (hspot last (Tree.mem_spots_of_lastSpot hlast))
  exact ⟨first, last, span, hends, hspan⟩

namespace Report

/-- The issue of an error of a kind with one mark. -/
def errorIssue (kind : ErrorKind) (message : String) (span : Span) : Issue :=
  ⟨kind.title ++ ": " ++ message, [⟨span, "Here"⟩], [stopNote]⟩

theorem issueOfError_eq {index : Index} {e : Error} {kind : ErrorKind} {g : Tree} {first last : Int}
    {span : Span} (hkind : e.cause.kind? = some kind) (hguilty : e.guilty = some g)
    (hends : g.span = .ok (first, last)) (hspan : index.span first last = .ok span) :
    issueOfError index e = .ok (errorIssue kind e.cause.message span) := by
  have hmark : Mark.ofTree index g "Here" = .ok ⟨span, "Here"⟩ := by
    rw [Mark.ofTree, hends]
    simp only [bind, Except.bind, hspan]
    rfl
  rw [issueOfError, hkind, hguilty]
  simp only [hmark, bind, Except.bind]
  rfl

end Report

theorem settle_error {index : Index} {e : Error} {kind : ErrorKind} {g : Tree} {first last : Int}
    {span : Span} (report : Report) (hkind : e.cause.kind? = some kind)
    (hguilty : e.guilty = some g) (hends : g.span = .ok (first, last))
    (hspan : index.span first last = .ok span) :
    settle report index (.error (.error e)) =
      (if (report.issues.length + 1 : Int) = report.maxIssues then .error .tooManyIssues
        else .ok .unit,
        { report with
          issues := report.issues ++ [Report.errorIssue kind e.cause.message span] }) := by
  rw [settle_of_error, Report.issueOfError_eq hkind hguilty hends hspan]

/-- **A run accounts for every outcome.** What the program writes and the scope it leaves are those of
its evaluation. A value and a fault are passed on and leave the report as it was. An error adds one
issue behind those there are, with its kind and message and with a mark at the tree to blame, and the
run yields the unit value, unless that makes as many issues as the limit. -/
theorem run_accounts {statements : List Tree} {index : Index} (hindex : index.Reachable)
    (hspots : ∀ spot ∈ (Tree.program statements).spots, index.HasSpot spot) (report : Report)
    (scope : Scope) :
    let outcome := evaluate (.program statements) scope
    let done := run (.program statements) report index scope
    done.output = outcome.output ∧ done.scope = outcome.scope ∧
      match outcome.result with
      | .ok value => done.result = .ok value ∧ done.report = report
      | .error (.fault f) => done.result = .error f ∧ done.report = report
      | .error (.error e) => ∃ kind g first last span,
          e.cause.kind? = some kind ∧ e.guilty = some g ∧ g.span = .ok (first, last) ∧
            index.span first last = .ok span ∧
            done.report = { report with
              issues := report.issues ++ [Report.errorIssue kind e.cause.message span] } ∧
            done.result = if (report.issues.length + 1 : Int) = report.maxIssues then
              .error .tooManyIssues else .ok .unit := by
  intro outcome done
  refine ⟨rfl, rfl, ?_⟩
  have hresult : done.result = (settle report index outcome.result).1 := rfl
  have hreport : done.report = (settle report index outcome.result).2 := rfl
  rw [hresult, hreport]
  split
  · rename_i value hvalue
    rw [hvalue]
    exact ⟨rfl, rfl⟩
  · rename_i f hf
    rw [hf]
    exact ⟨rfl, rfl⟩
  · rename_i e he
    obtain ⟨_, g, -, -, hculprit, hguilty, hpart⟩ := exists_culprit he
    obtain ⟨kind, hkind⟩ := hculprit.exists_kind
    obtain ⟨first, last, span, hends, hspan⟩ :=
      exists_span_of_isPartOf hindex hspots hpart hculprit.hasSpan
    refine ⟨kind, g, first, last, span, hkind, hguilty, hends, hspan, ?_⟩
    rw [he, settle_error report hkind hguilty hends hspan]
    exact ⟨rfl, rfl⟩

/-- An index whose only source is one name, as token one. -/
def Index.oneName : Index :=
  initial.afterAll [.openSegment (some ⟨.here, ["main"]⟩) (some "y"), .insert 0 1]

/-- The issue that reaches the limit is on the report although the run fails. -/
theorem run_accounts_limit :
    Index.oneName.Reachable ∧
      (∀ spot ∈ (Tree.program [.identifier ⟨"y", 1⟩]).spots, Index.oneName.HasSpot spot) ∧
      ∃ span, Index.oneName.span 1 1 = .ok span ∧
        (run (.program [.identifier ⟨"y", 1⟩]) (.empty 0 1) Index.oneName .empty).report.issues =
          [Report.errorIssue .undefinedIdentifier "Unknown identifier `y`" span] ∧
        (run (.program [.identifier ⟨"y", 1⟩]) (.empty 0 1) Index.oneName .empty).result =
          .error .tooManyIssues := by
  have hindex : Index.oneName.Reachable := ⟨_, rfl⟩
  have hspots : ∀ spot ∈ (Tree.program [.identifier ⟨"y", 1⟩]).spots,
      Index.oneName.HasSpot spot := by
    intro spot hspot
    rw [List.mem_singleton.mp hspot]
    exact ⟨by decide, by decide⟩
  have houtcome : (evaluate (.program [.identifier ⟨"y", 1⟩]) .empty).result =
      .error (.error ⟨.undefined "y", some (.identifier ⟨"y", 1⟩)⟩) := rfl
  obtain ⟨-, -, h⟩ := run_accounts hindex hspots (.empty 0 1) .empty
  rw [houtcome] at h
  obtain ⟨kind, g, first, last, span, hkind, hguilty, hends, hspan, hreport, hresult⟩ := h
  cases hkind
  cases hguilty
  cases hends
  refine ⟨hindex, hspots, span, hspan, ?_, ?_⟩
  · rw [hreport]
    rfl
  · rw [hresult]
    rfl

end StraightLine
