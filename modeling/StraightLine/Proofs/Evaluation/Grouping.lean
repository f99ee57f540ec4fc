import StraightLine.Proofs.Evaluation.Comparison
import StraightLine.Proofs.Evaluation.Culprit
import StraightLine.Proofs.Tree.Grouping
import StraightLine.Report.Basic

/-!
Parentheses and spots carry no meaning: a run looks at neither, and both have their effect only on
where an error points.
-/

namespace StraightLine

/-! ### Failures of stripped trees -/

/-- The fault of another tree in place of one that cannot be evaluated. -/
def Fault.mapTree (onTree : Tree → Tree) : Fault → Fault
  | .notEvaluable t => .notEvaluable (onTree t)
  | f => f

def Failure.message? : Failure → Option String
  | .error e => some e.cause.message
  | .fault f => f.message?

/-- The failure with each of its trees stripped. -/
def Failure.stripped (move : Int → Int) (failure : Failure) : Failure :=
  failure.map (Tree.stripped move) (Fault.mapTree (Tree.stripped move))

theorem Failure.message?_blame (failure : Failure) (t : Tree) :
    (failure.blame t).message? = failure.message? := by
  cases failure <;> rfl

/-- A run of a tree beside one of the stripped tree. -/
def Comparison.stripping (move : Int → Int) : Comparison where
  scopes := Eq
  values := Eq
  failures failure failure' :=
    failure' = failure.stripped move ∧ failure'.message? = failure.message?

namespace Comparison

variable {move : Int → Int}

theorem stripping_blame {failure failure' : Failure} (t : Tree)
    (h : (stripping move).failures failure failure') :
    (stripping move).failures (failure.blame t) (failure'.blame (t.stripped move)) := by
  obtain ⟨rfl, hmessage⟩ := h
  refine ⟨(Failure.map_blame _ _ failure t).symm, ?_⟩
  rw [Failure.message?_blame, hmessage, Failure.message?_blame]

theorem stripping_cause (cause : Cause) :
    (stripping move).failures (.ofCause cause) (.ofCause cause) :=
  ⟨rfl, rfl⟩

theorem stripping_literal (kind : LiteralKind) (text : String) :
    (stripping move).Results Eq (Literal.value kind text) (Literal.value kind text) := by
  cases hvalue : Literal.value kind text with
  | ok value => exact .ok rfl
  | error failure =>
      rcases Literal.failure_of_value hvalue with ⟨f, rfl, hf⟩ | ⟨cause, rfl, -⟩
      · rcases Literal.exists_of_fault? hf with ⟨label, -, rfl⟩ | ⟨-, -, -, rfl⟩
        · exact .error ⟨rfl, rfl⟩
        · exact .error ⟨rfl, rfl⟩
      · exact .error (stripping_cause cause)

theorem stripping_operate (op : Operator) (a b : Value) :
    (stripping move).Results Eq (operate op.name a b) (operate (op.moved move).name a b) := by
  have hglyph : Glyph.ofText? op.name.text = some op.glyph := Glyph.ofText?_text op.glyph
  have hmoved : Glyph.ofText? (op.moved move).name.text = some op.glyph := Glyph.ofText?_text op.glyph
  unfold operate
  rw [hglyph, hmoved]
  cases Operands.of a b with
  | texts a b =>
      cases op.glyph with
      | plus => exact .ok rfl
      | _ => exact .error ⟨rfl, rfl⟩
  | unrelated => exact .error ⟨rfl, rfl⟩
  | integers m n =>
      cases hn : op.glyph.onIntegers? m n with
      | none =>
          simp only [hn]
          exact .error (stripping_cause .divisionByZero)
      | some k =>
          simp only [hn]
          exact .ok rfl
  | decimals x y => exact .ok rfl

theorem stripping_find? {scope scope' : Scope} (h : (stripping move).scopes scope scope')
    (name : String) :
    Option.Rel (fun v v' : Variable => v.value = v'.value) (scope.find? name)
      (scope'.find? name) := by
  cases h
  cases scope.find? name with
  | none => exact .none
  | some v => exact .some rfl

theorem stripping_declare? (move : Int → Int) {scope scope' : Scope}
    (h : (stripping move).scopes scope scope') (v : Variable) :
    Option.Rel (stripping move).scopes (scope.declare? v) (scope'.declare? v) := by
  cases h
  cases scope.declare? v with
  | none => exact .none
  | some later => exact .some rfl

/-- Conclusions look at names, operators and literals, and at no spots. -/
theorem stripping_conclude {t : Tree} (ht : ∀ inner, t ≠ .parentheses inner)
    {values values' : List Value} (hvalues : List.Forall₂ Eq values values') :
    (stripping move).Steps Eq (conclude t values) (conclude (t.stripped move) values') := by
  rw [List.forall₂_eq_eq_eq] at hvalues
  subst hvalues
  cases t with
  | parentheses inner => exact absurd rfl (ht inner)
  | name n | phrase | expression => exact steps_fail ⟨rfl, rfl⟩
  | literal kind text spot => exact steps_ofExcept (Or.inr (Or.inr (stripping_literal kind text)))
  | identifier n =>
      exact steps_valueNamed stripping_cause fun _ _ hscope => stripping_find? hscope n.text
  | binary lhs op rhs => exact steps_ofExcept (Or.inr (Or.inr (stripping_operate op _ _)))
  | program statements => exact steps_yield rfl
  | call callee args =>
      have hcalled : (stripping move).Results Eq (Procedure.called callee)
          (Procedure.called (callee.moved move)) := by
        have htext : (callee.moved move).text = callee.text := rfl
        rw [Procedure.called, Procedure.called, htext]
        cases Procedure.named? callee.text with
        | some procedure => exact .ok rfl
        | none => exact .error ⟨rfl, rfl⟩
      refine steps_andThen (steps_ofExcept (Or.inr (Or.inr hcalled))) ?_
      rintro procedure _ rfl
      exact steps_andThen (steps_write fun _ => rfl) fun _ _ _ => steps_yield rfl
  | declaration keyword n initial =>
      cases htype : Kind.ofKeyword? keyword.text with
      | none =>
          have hmoved : Kind.ofKeyword? (keyword.moved move).text = none := htype
          rw [Tree.stripped, conclude_declaration_of_none htype, conclude_declaration_of_none hmoved]
          exact steps_fail ⟨rfl, rfl⟩
      | some type =>
          have hmoved : Kind.ofKeyword? (keyword.moved move).text = some type := htype
          rw [Tree.stripped, conclude_declaration_of_some htype, conclude_declaration_of_some hmoved]
          have hdeclared := steps_declare stripping_cause rfl fun _ _ hscope =>
            stripping_declare? move hscope ⟨n.text, type, values.getLastD .unit⟩
          refine steps_andThen (steps_blaming hdeclared ?_) fun _ _ _ => steps_yield rfl
          exact fun _ _ h => stripping_blame (.name n) h

/-- **Stripping a tree changes nothing** but the trees that its failures refer to. -/
theorem stripping_evaluate (move : Int → Int) (t : Tree) :
    (stripping move).Steps Eq (evaluate t) (evaluate (t.stripped move)) := by
  induction t using Tree.operands_induction with
  | h t ih =>
      by_cases ht : ∃ inner, t = .parentheses inner
      · obtain ⟨inner, rfl⟩ := ht
        -- What is inside the parentheses has blamed itself, so that they find nobody to blame.
        rw [evaluate, Tree.stripped, ← blaming_evaluate (inner.stripped move) (inner.stripped move)]
        refine steps_blaming (ih inner List.mem_cons_self) ?_
        exact fun _ _ h => stripping_blame (.parentheses inner) h
      · have hnot : ∀ inner, t ≠ .parentheses inner := fun inner h => ht ⟨inner, h⟩
        refine steps_evaluate ?_ (fun _ _ => stripping_conclude hnot)
          fun _ _ h => stripping_blame t h
        rw [Tree.operands_stripped move hnot, List.forall₂_map_right_iff, List.forall₂_same]
        exact ih

end Comparison

/-! ### Trees that are equal when stripped -/

theorem evaluate_of_stripped_eq {move : Int → Int} {s t : Tree}
    (h : s.stripped move = t.stripped move) (scope : Scope) :
    (evaluate s scope).scope = (evaluate t scope).scope ∧
      (evaluate s scope).output = (evaluate t scope).output ∧
        ((∃ value, (evaluate s scope).result = .ok value ∧ (evaluate t scope).result = .ok value) ∨
          ∃ failure failure', (evaluate s scope).result = .error failure ∧
            (evaluate t scope).result = .error failure' ∧
              failure.stripped move = failure'.stripped move ∧
                failure.message? = failure'.message?) := by
  obtain ⟨hs, hscope, houtput⟩ := (Comparison.stripping_evaluate move s scope scope rfl).of_not_exempt
    fun _ hexempt => hexempt
  obtain ⟨ht, hscope', houtput'⟩ :=
    (Comparison.stripping_evaluate move t scope scope rfl).of_not_exempt fun _ hexempt => hexempt
  rw [h] at hs hscope houtput
  refine ⟨hscope.trans hscope'.symm, (houtput trivial).trans (houtput' trivial).symm, ?_⟩
  generalize (evaluate (t.stripped move) scope).result = bare at hs ht
  generalize (evaluate s scope).result = first at hs ⊢
  generalize (evaluate t scope).result = second at ht ⊢
  cases hs with
  | @ok value _ hvalue =>
      cases ht with
      | @ok value' _ hvalue' => exact Or.inl ⟨value, rfl, by rw [hvalue, ← hvalue']⟩
  | @error failure _ hfailure =>
      cases ht with
      | @error failure' _ hfailure' =>
          refine Or.inr ⟨failure, failure', rfl, rfl, ?_, ?_⟩
          · rw [← hfailure.1, ← hfailure'.1]
          · rw [← hfailure.2, ← hfailure'.2]

/-- Trees that are equal when stripped fail for one cause and blame trees that are equal when
stripped. -/
theorem guilty_of_stripped_eq {move : Int → Int} {s t : Tree}
    (h : s.stripped move = t.stripped move) {scope : Scope} {e e' : Error} {g g' : Tree}
    (hs : (evaluate s scope).result = .error (.error e))
    (ht : (evaluate t scope).result = .error (.error e'))
    (hg : e.guilty = some g) (hg' : e'.guilty = some g') :
    e.cause = e'.cause ∧ g.stripped move = g'.stripped move := by
  obtain ⟨-, -, ⟨value, hok, -⟩ | ⟨failure, failure', hfailure, hfailure', hsame, -⟩⟩ :=
    evaluate_of_stripped_eq h scope
  · rw [hs] at hok
    cases hok
  · rw [hs] at hfailure
    rw [ht] at hfailure'
    cases hfailure
    cases hfailure'
    simp only [Failure.stripped, Failure.map, hg, hg', Option.map_some, Failure.error.injEq,
      Error.mk.injEq, Option.some.injEq] at hsame
    exact hsame

/-- The issue of an error depends on the cause and on the span of the tree to blame. -/
theorem issueOfError_congr {e e' : Error} {g g' : Tree} (hcause : e.cause = e'.cause)
    (hg : e.guilty = some g) (hg' : e'.guilty = some g') (hfirst : g.firstSpot = g'.firstSpot)
    (hlast : g.lastSpot = g'.lastSpot) (index : Index) :
    Report.issueOfError index e = Report.issueOfError index e' := by
  have hmark : Mark.ofTree index g "Here" = Mark.ofTree index g' "Here" := by
    rw [Mark.ofTree, Mark.ofTree, Tree.span, Tree.span, hfirst, hlast]
  rw [Report.issueOfError, Report.issueOfError, hcause, hg, hg']
  simp only [hmark]

/-- **Parentheses and spots carry no meaning.** Trees that are equal without them yield the same value,
output and scope, or fail with the same message and blame trees that are equal without them. If the
trees differ in parentheses alone, the trees to blame have the same ends, and the issues are the
same. -/
theorem evaluate_of_bare_eq {s t : Tree} (h : s.bare = t.bare) (scope : Scope) :
    let first := evaluate s scope
    let second := evaluate t scope
    first.scope = second.scope ∧ first.output = second.output ∧
      match first.result, second.result with
      | .ok value, .ok value' => value = value'
      | .error (.fault f), .error (.fault f') =>
        f.mapTree Tree.bare = f'.mapTree Tree.bare ∧ f.message? = f'.message?
      | .error (.error e), .error (.error e') => e.cause = e'.cause ∧
        ∃ g g', e.guilty = some g ∧ e'.guilty = some g' ∧ g.bare = g'.bare ∧
          (s.ungrouped = t.ungrouped → g.ungrouped = g'.ungrouped ∧
            g.firstSpot = g'.firstSpot ∧ g.lastSpot = g'.lastSpot ∧
              ∀ index, Report.issueOfError index e = Report.issueOfError index e')
      | _, _ => False := by
  intro first second
  obtain ⟨hscope, houtput, ⟨value, hs, ht⟩ | ⟨failure, failure', hs, ht, hbare, hmessage⟩⟩ :=
    evaluate_of_stripped_eq h scope
  · refine ⟨hscope, houtput, ?_⟩
    rw [show first.result = .ok value from hs, show second.result = .ok value from ht]
  · refine ⟨hscope, houtput, ?_⟩
    rw [show first.result = .error failure from hs, show second.result = .error failure' from ht]
    rcases failure with e | f
    · rcases failure' with e' | f'
      · obtain ⟨_, g, -, -, -, hg, -⟩ := exists_culprit hs
        obtain ⟨_, g', -, -, -, hg', -⟩ := exists_culprit ht
        obtain ⟨hcause, hguilty⟩ := guilty_of_stripped_eq h hs ht hg hg'
        refine ⟨hcause, g, g', hg, hg', hguilty, fun hungrouped => ?_⟩
        have hsame : g.ungrouped = g'.ungrouped := (guilty_of_stripped_eq hungrouped hs ht hg hg').2
        obtain ⟨hfirst, hlast⟩ := Tree.spots_eq_of_ungrouped_eq hsame
        exact ⟨hsame, hfirst, hlast, issueOfError_congr hcause hg hg' hfirst hlast⟩
      · cases hbare
    · rcases failure' with e' | f'
      · cases hbare
      · exact ⟨Failure.fault.inj hbare, hmessage⟩

/-- A quotient by zero with parentheses where they may stand. -/
def Tree.grouped : Tree :=
  .program [.declaration ⟨"int", 1⟩ ⟨"x", 2⟩ (.parentheses (.parentheses (.literal .integer "1" 3))),
    .parentheses (.binary (.identifier ⟨"x", 4⟩) ⟨.over, 5⟩
      (.parentheses (.literal .integer "0" 6)))]

/-- The quotient in parentheses is blamed from the same first token to the same last one. -/
theorem evaluate_of_bare_eq_grouped :
    Tree.grouped.bare = Tree.grouped.ungrouped.bare ∧
      Tree.grouped.ungrouped = Tree.grouped.ungrouped.ungrouped ∧
      (evaluate Tree.grouped .empty).scope = (evaluate Tree.grouped.ungrouped .empty).scope ∧
      ∃ e e' g g', (evaluate Tree.grouped .empty).result = .error (.error e) ∧
        (evaluate Tree.grouped.ungrouped .empty).result = .error (.error e') ∧
          e.guilty = some g ∧ e'.guilty = some g' ∧ g.firstSpot = .ok 4 ∧ g'.firstSpot = .ok 4 ∧
            g.lastSpot = g'.lastSpot := by
  have hbare : Tree.grouped.bare = Tree.grouped.ungrouped.bare := rfl
  have hungrouped : Tree.grouped.ungrouped = Tree.grouped.ungrouped.ungrouped := rfl
  have hfirst : (evaluate Tree.grouped .empty).result = .error (.error ⟨.divisionByZero,
      some (.binary (.identifier ⟨"x", 4⟩) ⟨.over, 5⟩ (.parentheses (.literal .integer "0" 6)))⟩) :=
    rfl
  have hsecond : (evaluate Tree.grouped.ungrouped .empty).result = .error (.error
      ⟨.divisionByZero, some (.binary (.identifier ⟨"x", 4⟩) ⟨.over, 5⟩ (.literal .integer "0" 6))⟩) :=
    rfl
  obtain ⟨hscope, -, h⟩ := evaluate_of_bare_eq hbare .empty
  rw [hfirst, hsecond] at h
  obtain ⟨-, g, g', hg, hg', -, hends⟩ := h
  obtain ⟨-, -, hlast, -⟩ := hends hungrouped
  refine ⟨hbare, hungrouped, hscope, _, _, g, g', hfirst, hsecond, hg, hg', ?_, ?_, hlast⟩
  · cases hg
    rfl
  · cases hg'
    rfl

end StraightLine
