import StraightLine.Proofs.Evaluation.Leaves
import StraightLine.Proofs.Evaluation.Visits

/-!
How runs fail. A run stops in one visit, whose tree concludes nothing from the values of its operands.
Either there is something wrong with the tree by itself, which is a fault; or it is the values, or the
scope, that stand in the way, and then there is an error with one tree to blame.
-/

namespace StraightLine

/-- What is wrong with a tree by itself, whatever its operands and the scope are. -/
def Tree.fault? : Tree → Option Fault
  | .literal kind written _ => Literal.fault? kind written
  | .declaration keyword _ _ =>
    if (Kind.ofKeyword? keyword.text).isSome then none else some (.unknownType keyword.text)
  | .name n => some (.notEvaluable (.name n))
  | .phrase => some (.notEvaluable .phrase)
  | .expression => some (.notEvaluable .expression)
  | .identifier _ | .parentheses _ | .binary .. | .call .. | .program _ => none

/-- That `g` is the tree to blame for the error of a visit, of this cause. All operands have values by
then, and an error depends on them or on the scope that they leave. -/
inductive Culprit : Visit → Cause → Tree → Prop where
  | literal {kind : LiteralKind} {written : String} {spot : Int} {scope : Scope} {cause : Cause}
      (hkind : cause.kind? = some .malformedLiteral)
      (h : Literal.value kind written = .error (.ofCause cause)) :
      Culprit ⟨.literal kind written spot, scope⟩ cause (.literal kind written spot)
  | identifier {n : Name} {scope : Scope} (h : n.text ∉ scope.names) :
      Culprit ⟨.identifier n, scope⟩ (.undefined n.text) (.identifier n)
  | callee {callee : Name} {args : List Tree} {scope : Scope} {values : List Value}
      (hvalues : (evaluateAll args scope).result = .ok values)
      (h : Procedure.named? callee.text = none) :
      Culprit ⟨.call callee args, scope⟩ (.unknownFunction callee.text) (.name callee)
  | onText {lhs rhs : Tree} {op : Operator} {scope : Scope} {a b : Value}
      (hvalues : (evaluateAll [lhs, rhs] scope).result = .ok [a, b]) (hop : op.glyph ≠ .plus)
      (h : a.kind? = some .text ∨ b.kind? = some .text) :
      Culprit ⟨.binary lhs op rhs, scope⟩ (.notOnText op.glyph.text) (.name op.name)
  | onKinds {lhs rhs : Tree} {op : Operator} {scope : Scope} {a b : Value}
      (hvalues : (evaluateAll [lhs, rhs] scope).result = .ok [a, b])
      (ha : a.kind? ≠ some .text) (hb : b.kind? ≠ some .text) (h : a.kind? = none ∨ b.kind? = none) :
      Culprit ⟨.binary lhs op rhs, scope⟩ (.notOnKinds op.glyph.text) (.name op.name)
  | quotient {lhs rhs : Tree} {op : Operator} {scope : Scope} {n : Int}
      (hvalues : (evaluateAll [lhs, rhs] scope).result = .ok [.integer n, .integer 0])
      (hop : op.glyph = .over) :
      Culprit ⟨.binary lhs op rhs, scope⟩ .divisionByZero (.binary lhs op rhs)
  | duplicate {keyword n : Name} {initial : Tree} {scope : Scope} {value : Value}
      (hkeyword : Kind.ofKeyword? keyword.text ≠ none)
      (hvalue : (evaluate initial scope).result = .ok value)
      (h : n.text ∈ (evaluate initial scope).scope.names) :
      Culprit ⟨.declaration keyword n initial, scope⟩ (.duplicate n.text) (.name n)

/-- That a visit fails with the fault of its tree, or with an error that blames the culprit. -/
inductive Visit.Explains (visit : Visit) : Failure → Prop where
  | fault {f : Fault} (h : visit.tree.fault? = some f) : Explains visit (.fault f)
  | error {cause : Cause} {g : Tree} (h : Culprit visit cause g) :
      Explains visit (.error ⟨cause, some g⟩)

theorem exists_pair_of_evaluateAll {lhs rhs : Tree} {scope : Scope} {values : List Value}
    (h : (evaluateAll [lhs, rhs] scope).result = .ok values) : ∃ a b, values = [a, b] := by
  have hlength : List.Forall₂ (fun _ _ => True) [lhs, rhs] values :=
    forall₂_of_evaluateAll (fun _ _ _ _ _ => trivial) h
  obtain _ | ⟨-, _ | ⟨-, ⟨⟩⟩⟩ := hlength
  exact ⟨_, _, rfl⟩

open Outcome Step

/-- **How a conclusion can fail.** There is one case for each kind of tree, and only an operation has
more than one way. -/
theorem explains_conclude {t : Tree} {scope : Scope} {values : List Value}
    (hvalues : (evaluateAll t.operands scope).result = .ok values) :
    (conclude t values (evaluateAll t.operands scope).scope).Meets (fun _ _ => True)
      fun failure _ => Visit.Explains ⟨t, scope⟩ (failure.blame t) := by
  cases t with
  | name | phrase | expression =>
      rw [conclude, meets_fail]
      exact .fault rfl
  | literal kind written spot =>
      rw [conclude, meets_ofExcept]
      refine ⟨fun _ _ => trivial, fun failure hfailure => ?_⟩
      rcases Literal.failure_of_value hfailure with ⟨f, rfl, hf⟩ | ⟨cause, rfl, hkind⟩
      · exact .fault hf
      · exact .error (.literal hkind hfailure)
  | identifier n =>
      rw [conclude, Tree.operands, evaluateAll_nil, meets_valueNamed]
      refine ⟨fun _ _ => trivial, fun hnone => .error (.identifier ?_)⟩
      rw [← Scope.find?_isSome_iff, show scope.find? n.text = none from hnone]
      exact Bool.false_ne_true
  | parentheses | program =>
      rw [conclude, meets_yield]
      trivial
  | binary lhs op rhs =>
      obtain ⟨a, b, rfl⟩ := exists_pair_of_evaluateAll hvalues
      rw [conclude, meets_ofExcept]
      refine ⟨fun _ _ => trivial, fun failure hfailure => ?_⟩
      rcases failure_of_operate hfailure with
        ⟨hop, htext, rfl⟩ | ⟨⟨ha, hb, hnone⟩, rfl⟩ | ⟨hop, ⟨n, hn⟩, hzero, rfl⟩
      · exact .error (.onText hvalues hop htext)
      · exact .error (.onKinds hvalues ha hb hnone)
      · -- Nobody is blamed yet, so the tree of the operation is.
        cases hn
        cases hzero
        exact .error (.quotient hvalues hop)
  | call callee args =>
      simp only [conclude, bind_eq, pure_eq, meets_andThen, meets_ofExcept, meets_write,
        meets_yield, Procedure.called]
      refine ⟨fun _ _ => trivial, fun failure hfailure => ?_⟩
      split at hfailure <;> cases hfailure
      rename_i hnone
      exact .error (.callee hvalues hnone)
  | declaration keyword n initial =>
      cases htype : Kind.ofKeyword? keyword.text with
      | none =>
          rw [conclude_declaration_of_none htype, meets_fail]
          refine .fault ?_
          rw [Tree.fault?, htype]
          rfl
      | some type =>
          rw [Tree.operands_declaration htype] at hvalues ⊢
          obtain ⟨hvalue, hscope⟩ := evaluateAll_singleton_of_ok hvalues
          rw [conclude_declaration_of_some htype, hscope]
          simp only [meets_andThen, meets_blaming, meets_declare, meets_yield]
          refine ⟨fun _ _ => trivial, fun htaken => .error (.duplicate ?_ hvalue ?_)⟩
          · rw [htype]
            exact Option.some_ne_none type
          · exact Scope.declare?_eq_none_iff.mp htaken

/-- **A run that fails has one visit that explains why,** the one that it stops in. -/
theorem exists_explains {t : Tree} {scope : Scope} {failure : Failure}
    (h : (evaluate t scope).result = .error failure) :
    ∃ visit : Visit, visit.Stops (visits t scope) failure ∧
      visit.outcome.scope = (evaluate t scope).scope ∧ visit.Explains failure := by
  obtain ⟨visit, hstops, hscope⟩ := exists_stops h
  obtain ⟨values, failure', hvalues, hfails, rfl⟩ := hstops.concludes
  exact ⟨visit, hstops, hscope, (explains_conclude hvalues).of_error hfails⟩

end StraightLine
