import Mathlib.Data.List.Induction
import StraightLine.Proofs.Evaluation.Faults
import StraightLine.Proofs.Report.Account

/-!
The limit of a report in the course of a session. A report speaks up at the issue that makes as many
issues as the limit, and at no other: if it is used further without being cleared, more issues are
recorded in silence. So the limit is kept exactly in the sessions that record nothing in between.
-/

namespace StraightLine

/-! ### Issues that cannot be made -/

theorem Mark.fault_of_ofTree {index : Index} {tree : Tree} {caption : String} {f : Fault}
    (h : Mark.ofTree index tree caption = .error f) : (∃ c, f = .withoutSpan c) ∨ f = .noToken := by
  unfold ofTree at h
  rcases Fault.of_bind h with hends | ⟨ends, -, h⟩
  · exact Or.inl (Tree.fault_of_span hends)
  · rcases Fault.of_bind h with hspan | ⟨span, -, h⟩
    · exact Or.inr (Index.eq_noToken_of_span hspan)
    · cases h

namespace Report

theorem fault_of_issueOfError {index : Index} {e : Error} {f : Fault}
    (h : issueOfError index e = .error f) :
    f = .unclassified ∨ (∃ c, f = .withoutSpan c) ∨ f = .noToken := by
  unfold issueOfError at h
  cases hkind : e.cause.kind? with
  | none =>
      rw [hkind] at h
      cases h
      exact Or.inl rfl
  | some kind =>
      rw [hkind] at h
      cases hguilty : e.guilty with
      | none =>
          rw [hguilty] at h
          cases h
      | some tree =>
          rw [hguilty] at h
          rcases Fault.of_bind h with hmark | ⟨mark, -, h⟩
          · exact Or.inr (Mark.fault_of_ofTree hmark)
          · cases h

/-- An error whose issue cannot be made leaves no trace, and the limit is not what it fails for. -/
theorem recordError_cases (report : Report) (index : Index) (e : Error) :
    (∃ issue, report.recordError index e = report.record issue) ∨
      ∃ f, f ≠ .tooManyIssues ∧ report.recordError index e = (.error f, report) := by
  unfold recordError
  cases hissue : issueOfError index e with
  | ok issue => exact Or.inl ⟨issue, rfl⟩
  | error f =>
      refine Or.inr ⟨f, ?_, rfl⟩
      rcases fault_of_issueOfError hissue with rfl | ⟨c, rfl⟩ | rfl <;> nofun

/-! ### Calls -/

/-- What may be asked of a report that can change its issues. -/
inductive Call where
  | record (issue : Issue)
  | recordError (index : Index) (e : Error)
  | run (program : Tree) (index : Index) (scope : Scope)
  | clear

/-- How a call ends, the value of a run apart, and the report that it leaves. -/
def perform (report : Report) : Call → Except Fault Unit × Report
  | .record issue => report.record issue
  | .recordError index e => report.recordError index e
  | .run program index scope =>
    let done := StraightLine.run program report index scope
    (done.result.map fun _ => (), done.report)
  | .clear => (.ok (), report.clear)

def after (report : Report) (call : Call) : Report :=
  (report.perform call).2

def afterAll (report : Report) (calls : List Call) : Report :=
  calls.foldl after report

theorem afterAll_concat (report : Report) (calls : List Call) (call : Call) :
    report.afterAll (calls ++ [call]) = (report.afterAll calls).after call :=
  List.foldl_append

/-- That a call fails because there are as many issues as the limit. -/
def SpeaksUp (report : Report) (call : Call) : Prop :=
  (report.perform call).1 = .error .tooManyIssues

/-- That a call puts one more issue on the report, whether it fails or not. -/
def Records (report : Report) (call : Call) : Prop :=
  ∃ issue, (report.after call).issues = report.issues ++ [issue]

/-- That there are as many issues as the limit, or more. -/
def IsFull (report : Report) : Prop :=
  report.maxIssues ≤ report.issues.length

/-- A run does with the error of its program what is done with an error that is reported. -/
theorem perform_run (report : Report) (statements : List Tree) (index : Index) (scope : Scope) :
    report.perform (.run (.program statements) index scope) =
      match (evaluate (.program statements) scope).result with
      | .ok _ => (.ok (), report)
      | .error (.error e) => report.recordError index e
      | .error (.fault f) => (.error f, report) := by
  rw [perform, run]
  cases (evaluate (.program statements) scope).result with
  | ok value => rfl
  | error failure =>
      cases failure with
      | error e =>
          dsimp only [settle]
          rcases report.recordError index e with ⟨_ | _, later⟩ <;> rfl
      | fault f => rfl

/-- A run without an error changes nothing, and no program fails as a full report does. -/
theorem perform_run_cases (report : Report) (program : Tree) (index : Index) (scope : Scope) :
    (∃ e, report.perform (.run program index scope) = report.recordError index e) ∨
      report.after (.run program index scope) = report ∧
        ¬report.SpeaksUp (.run program index scope) := by
  cases program with
  | program statements =>
      rw [after, SpeaksUp, perform_run]
      split
      · exact Or.inr ⟨rfl, nofun⟩
      · rename_i e _
        exact Or.inl ⟨e, rfl⟩
      · rename_i f hresult
        refine Or.inr ⟨rfl, fun hfull => ?_⟩
        cases hfull
        obtain ⟨visit, -, hfault⟩ := fault_iff_visited.mp hresult
        exact visit.tree.fault?_ne_tooManyIssues hfault
  | _ => exact Or.inr ⟨rfl, nofun⟩

/-- **What a call can do.** It clears the report, or it records an issue, or it leaves the report as
it was and does not speak up. -/
theorem perform_cases (report : Report) (call : Call) :
    call = .clear ∨ call ≠ .clear ∧ ((∃ issue, report.perform call = report.record issue) ∨
      report.after call = report ∧ ¬report.SpeaksUp call) := by
  have herror : ∀ call index e, report.perform call = report.recordError index e →
      (∃ issue, report.perform call = report.record issue) ∨
        report.after call = report ∧ ¬report.SpeaksUp call := by
    intro call index e hcall
    rw [after, SpeaksUp, hcall]
    rcases report.recordError_cases index e with hissue | ⟨f, hf, hfails⟩
    · exact Or.inl hissue
    · rw [hfails]
      exact Or.inr ⟨rfl, fun hfull => hf (Except.error.inj hfull)⟩
  cases call with
  | clear => exact Or.inl rfl
  | record issue => exact Or.inr ⟨nofun, Or.inl ⟨issue, rfl⟩⟩
  | recordError index e => exact Or.inr ⟨nofun, herror _ index e rfl⟩
  | run program index scope =>
      refine Or.inr ⟨nofun, ?_⟩
      rcases report.perform_run_cases program index scope with ⟨e, hcall⟩ | hcall
      · exact herror _ index e hcall
      · exact Or.inr hcall

variable {report : Report} {call : Call}

theorem records_of_perform {issue : Issue} (h : report.perform call = report.record issue) :
    report.Records call :=
  ⟨issue, by rw [after, h, issues_record]⟩

theorem Records.length_after (h : report.Records call) :
    (report.after call).issues.length = report.issues.length + 1 := by
  obtain ⟨issue, hissues⟩ := h
  rw [hissues, List.length_append, List.length_singleton]

theorem Records.ne_clear (h : report.Records call) : call ≠ .clear := by
  rintro rfl
  exact absurd h.length_after (Nat.succ_ne_zero _).symm

theorem not_speaksUp_clear (report : Report) : ¬report.SpeaksUp .clear := by
  intro hok
  cases hok

theorem maxIssues_after (report : Report) (call : Call) :
    (report.after call).maxIssues = report.maxIssues := by
  rcases report.perform_cases call with rfl | ⟨-, ⟨issue, hissue⟩ | ⟨hsame, -⟩⟩
  · rfl
  · rw [after, hissue]
    rfl
  · rw [hsame]

theorem maxIssues_afterAll (report : Report) (calls : List Call) :
    (report.afterAll calls).maxIssues = report.maxIssues := by
  induction calls using List.reverseRecOn with
  | nil => rfl
  | append_singleton calls call ih => rw [afterAll_concat, maxIssues_after, ih]

/-- **A report speaks up at one number of issues only.** -/
theorem speaksUp_iff : report.SpeaksUp call ↔
    report.Records call ∧ (report.issues.length + 1 : Int) = report.maxIssues := by
  rcases report.perform_cases call with rfl | ⟨-, ⟨issue, hissue⟩ | ⟨hsame, hsilent⟩⟩
  · exact iff_of_false report.not_speaksUp_clear fun h => h.1.ne_clear rfl
  · have hlength : ((report.issues ++ [issue]).length : Int) = report.issues.length + 1 := by
      rw [List.length_append, List.length_singleton]
      rfl
    rw [SpeaksUp, hissue, record, hlength, and_iff_right (records_of_perform hissue)]
    split
    · rename_i heq
      exact iff_of_true rfl heq
    · rename_i hne
      refine iff_of_false (fun hok => ?_) hne
      cases hok
  · refine iff_of_false hsilent fun h => ?_
    have hlength := h.1.length_after
    rw [hsame] at hlength
    exact Nat.succ_ne_self _ hlength.symm

/-- A report is full if it was full before or speaks up, and is not cleared. -/
theorem isFull_after_iff (hmax : 1 ≤ report.maxIssues) :
    (report.after call).IsFull ↔ call ≠ .clear ∧ (report.IsFull ∨ report.SpeaksUp call) := by
  rw [IsFull, maxIssues_after]
  rcases report.perform_cases call with rfl | ⟨hcall, ⟨issue, hissue⟩ | ⟨hsame, hsilent⟩⟩
  · have hempty : (report.after .clear).issues.length = 0 := rfl
    rw [hempty]
    exact iff_of_false (by omega) fun h => h.1 rfl
  · have hrecords := records_of_perform hissue
    rw [hrecords.length_after, and_iff_right hcall, speaksUp_iff, and_iff_right hrecords, IsFull]
    omega
  · rw [hsame, and_iff_right hcall, or_iff_left hsilent, IsFull]

/-! ### Sessions -/

/-- That the limit was reached before or in the course of the calls, and that the report was not
cleared since. -/
def HasReachedLimit (report : Report) (calls : List Call) : Prop :=
  report.IsFull ∧ .clear ∉ calls ∨
    ∃ earlier call later, calls = earlier ++ call :: later ∧
      (report.afterAll earlier).SpeaksUp call ∧ .clear ∉ later

theorem hasReachedLimit_concat {calls : List Call} :
    report.HasReachedLimit (calls ++ [call]) ↔
      call ≠ .clear ∧ (report.HasReachedLimit calls ∨ (report.afterAll calls).SpeaksUp call) := by
  constructor
  · rintro (⟨hfull, hclear⟩ | ⟨earlier, first, later, hcalls, hfirst, hclear⟩)
    · rw [List.mem_append, List.mem_singleton, not_or] at hclear
      exact ⟨Ne.symm hclear.2, Or.inl (Or.inl ⟨hfull, hclear.1⟩)⟩
    · rcases List.eq_nil_or_concat later with rfl | ⟨between, last, rfl⟩
      · obtain ⟨rfl, hlast⟩ := List.append_inj' hcalls rfl
        cases hlast
        exact ⟨(speaksUp_iff.mp hfirst).1.ne_clear, Or.inr hfirst⟩
      · rw [List.concat_eq_append, ← List.cons_append, ← List.append_assoc] at hcalls
        obtain ⟨rfl, hlast⟩ := List.append_inj' hcalls rfl
        cases hlast
        rw [List.concat_eq_append, List.mem_append, List.mem_singleton, not_or] at hclear
        exact ⟨Ne.symm hclear.2, Or.inl (Or.inr ⟨earlier, first, between, rfl, hfirst, hclear.1⟩)⟩
  · rintro ⟨hcall, (⟨hfull, hclear⟩ | ⟨earlier, first, later, rfl, hfirst, hclear⟩) | hspeaks⟩
    · refine Or.inl ⟨hfull, ?_⟩
      rw [List.mem_append, List.mem_singleton, not_or]
      exact ⟨hclear, hcall.symm⟩
    · refine Or.inr ⟨earlier, first, later ++ [call], List.append_assoc .., hfirst, ?_⟩
      rw [List.mem_append, List.mem_singleton, not_or]
      exact ⟨hclear, hcall.symm⟩
    · exact Or.inr ⟨calls, call, [], rfl, hspeaks, List.not_mem_nil⟩

/-- **Once the limit is reached a report stays full until it is cleared**, and it is full at no other
time. -/
theorem isFull_afterAll_iff (hmax : 1 ≤ report.maxIssues) (calls : List Call) :
    (report.afterAll calls).IsFull ↔ report.HasReachedLimit calls := by
  induction calls using List.reverseRecOn with
  | nil =>
      refine ⟨fun hfull => Or.inl ⟨hfull, List.not_mem_nil⟩, ?_⟩
      rintro (⟨hfull, -⟩ | ⟨earlier, call, later, hcalls, -⟩)
      · exact hfull
      · exact absurd hcalls.symm (List.append_ne_nil_of_right_ne_nil _ (List.cons_ne_nil _ _))
  | append_singleton calls call ih =>
      have hlater : 1 ≤ (report.afterAll calls).maxIssues := by rwa [maxIssues_afterAll]
      rw [afterAll_concat, isFull_after_iff hlater, ih, hasReachedLimit_concat]

/-- That in the course of the calls no issue is recorded without speaking up unless the number of
issues stays below the limit. -/
def KeepsLimit (report : Report) (calls : List Call) : Prop :=
  ∀ earlier call, earlier ++ [call] <+: calls →
    let before := report.afterAll earlier
    before.Records call → ¬before.SpeaksUp call →
      ((before.after call).issues.length : Int) < report.maxIssues

/-- **When the limit is kept.** In a session of any calls a report keeps its limit if and only if no
issue is recorded between the reaching of the limit and the next clearing. The limit is reached while
there are as many issues or more, and the report speaks up at the issue that reaches it and at no
issue behind that one. -/
theorem limit_kept_iff (report : Report) (hmax : 1 ≤ report.maxIssues) (calls : List Call) :
    (report.KeepsLimit calls ↔ ∀ earlier call, earlier ++ [call] <+: calls →
      (report.afterAll earlier).Records call → ¬report.HasReachedLimit earlier) ∧
      ∀ earlier call,
        let before := report.afterAll earlier
        (report.HasReachedLimit earlier ↔ report.maxIssues ≤ before.issues.length) ∧
          (before.SpeaksUp call ↔
            before.Records call ∧ (before.issues.length + 1 : Int) = report.maxIssues) := by
  have hreached : ∀ earlier, report.HasReachedLimit earlier ↔
      report.maxIssues ≤ (report.afterAll earlier).issues.length := by
    intro earlier
    rw [← isFull_afterAll_iff hmax, IsFull, maxIssues_afterAll]
  have hspeaks : ∀ earlier call, (report.afterAll earlier).SpeaksUp call ↔
      (report.afterAll earlier).Records call ∧
        ((report.afterAll earlier).issues.length + 1 : Int) = report.maxIssues := by
    intro earlier call
    rw [speaksUp_iff, maxIssues_afterAll]
  refine ⟨?_, fun earlier call => ⟨hreached earlier, hspeaks earlier call⟩⟩
  refine forall_congr' fun earlier => forall_congr' fun call => imp_congr_right fun _ =>
    imp_congr_right fun hrecords => ?_
  -- Of the three ways to compare with the limit only equality speaks up.
  rw [hspeaks, hreached, and_iff_right hrecords, hrecords.length_after]
  omega

/-- A run of a program that fails at once. -/
def Call.failingRun : Call :=
  .run (.program [.identifier ⟨"y", 0⟩]) .initial .empty

/-- A report that is cleared when it has spoken up takes the next issue within its limit. -/
theorem limit_kept_iff_cleared :
    let report := empty 0 1
    1 ≤ report.maxIssues ∧ report.KeepsLimit [.failingRun, .clear, .failingRun] := by
  intro report
  have hmax : 1 ≤ report.maxIssues := Int.le_refl 1
  obtain ⟨hkept, hall⟩ := limit_kept_iff report hmax [.failingRun, .clear, .failingRun]
  refine ⟨hmax, hkept.mpr ?_⟩
  rintro earlier call ⟨later, hcalls⟩ hrecords hreached
  have hfull := (hall earlier call).1.mp hreached
  rcases earlier with _ | ⟨first, _ | ⟨second, _ | ⟨third, others⟩⟩⟩
  · exact absurd hfull (by decide)
  · cases hcalls
    exact hrecords.ne_clear rfl
  · cases hcalls
    exact absurd hfull (by decide)
  · have hlength := congrArg List.length hcalls
    simp only [List.length_append, List.length_cons, List.length_nil] at hlength
    omega

theorem records_failingRun (report : Report) : report.Records .failingRun := by
  let e : Error := ⟨.undefined "y", some (.identifier ⟨"y", 0⟩)⟩
  have hzero : Index.initial.HasSpot 0 := ⟨Int.le_refl 0, Int.zero_lt_one⟩
  obtain ⟨span, hspan⟩ := Index.exists_span hzero hzero
  have hissue : issueOfError .initial e = .ok (errorIssue _ _ span) :=
    issueOfError_eq rfl rfl rfl hspan
  have herror : report.perform .failingRun = report.recordError .initial e :=
    report.perform_run [.identifier ⟨"y", 0⟩] .initial .empty
  rw [recordError, hissue] at herror
  exact records_of_perform herror

/-- The limit is not kept if the report is used further: it speaks up at the first issue, and the
second one, which is too many, is recorded in silence. -/
theorem limit_exceeded_in_silence :
    let report := empty 0 1
    1 ≤ report.maxIssues ∧ report.SpeaksUp .failingRun ∧
      ¬(report.after .failingRun).SpeaksUp .failingRun ∧
      (report.afterAll [.failingRun, .failingRun]).issues.length = 2 ∧
      ¬report.KeepsLimit [.failingRun, .failingRun] := by
  intro report
  have hfirst := report.records_failingRun
  have hsecond := (report.after .failingRun).records_failingRun
  have htwo : (report.afterAll [.failingRun, .failingRun]).issues.length = 2 :=
    hsecond.length_after.trans (congrArg (· + 1) hfirst.length_after)
  have hsilent : ¬(report.after .failingRun).SpeaksUp .failingRun := by
    intro hspeaks
    have hlimit := (speaksUp_iff.mp hspeaks).2
    rw [hfirst.length_after, maxIssues_after] at hlimit
    exact absurd hlimit (by decide)
  refine ⟨Int.le_refl 1, speaksUp_iff.mpr ⟨hfirst, rfl⟩, hsilent, htwo, fun hkept => ?_⟩
  have hbelow : ((report.afterAll [.failingRun, .failingRun]).issues.length : Int) < 1 :=
    hkept [.failingRun] .failingRun List.prefix_rfl hsecond hsilent
  rw [htwo] at hbelow
  exact absurd hbelow (by decide)

end Report

end StraightLine
