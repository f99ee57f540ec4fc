import Mathlib.Data.List.Forall2
import StraightLine.Proofs.Evaluation.Postcondition

/-!
Evaluation in two stages, the same for every tree: its operands from left to right, and then a
conclusion from their values, which evaluates no further tree.
-/

namespace StraightLine

/-- The trees that the evaluation of a tree goes on to, in this order. A declaration of an unknown
kind goes on to none. -/
def Tree.operands : Tree → List Tree
  | .parentheses inner => [inner]
  | .binary lhs _ rhs => [lhs, rhs]
  | .call _ args => args
  | .declaration keyword _ initial =>
    if (Kind.ofKeyword? keyword.text).isSome then [initial] else []
  | .program statements => statements
  | .name _ | .literal .. | .identifier _ | .phrase | .expression => []

/-- That a tree is a declaration, whatever stands in it. -/
def Tree.IsDeclaration (t : Tree) : Prop :=
  ∃ keyword n initial, t = .declaration keyword n initial

/-- What a tree makes of the values of its operands. -/
def conclude (t : Tree) (values : List Value) : Step Value :=
  match t with
  | .literal kind written _ => Step.ofExcept (Literal.value kind written)
  | .identifier n => Step.valueNamed n.text
  | .parentheses _ | .program _ => Step.yield (values.getLastD .unit)
  | .binary _ op _ =>
    Step.ofExcept (operate op.name (values.headD .unit) (values.getLastD .unit))
  | .call callee _ => do
    let procedure ← Step.ofExcept (Procedure.called callee)
    Step.write (procedure.output values)
    return .unit
  | .declaration keyword n _ => do
    let type ← Step.ofExcept ((Kind.ofKeyword keyword.text).mapError .fault)
    let v : Variable := ⟨n.text, type, values.getLastD .unit⟩
    Step.blaming (.name n) (Step.declare v)
    return v.asValue
  | .name _ | .phrase | .expression => Step.fail (.fault (.notEvaluable t))

/-- The operands of a declaration are its initial tree, if any. -/
theorem Tree.mem_operands_declaration {a : Tree} {keyword n : Name} {initial : Tree}
    (h : a ∈ (Tree.declaration keyword n initial).operands) : a = initial := by
  rw [operands] at h
  split at h
  · exact List.mem_singleton.mp h
  · cases h

theorem Tree.operands_declaration {keyword n : Name} {initial : Tree} {type : Kind}
    (h : Kind.ofKeyword? keyword.text = some type) :
    (Tree.declaration keyword n initial).operands = [initial] := by
  rw [operands, h]
  rfl

theorem Tree.mem_children_of_mem_operands {a t : Tree} (h : a ∈ t.operands) : a ∈ t.children := by
  cases t with
  | parentheses inner => exact h
  | binary lhs op rhs =>
      simp only [operands, List.mem_cons, List.not_mem_nil, or_false] at h
      rcases h with rfl | rfl <;> simp
  | call callee args => exact List.mem_cons_of_mem _ h
  | declaration keyword n initial =>
      rw [mem_operands_declaration h]
      simp
  | program statements => exact h
  | name | literal | identifier | phrase | expression => cases h

/-- Induction along the trees that an evaluation goes on to. -/
theorem Tree.operands_induction {motive : Tree → Prop}
    (h : ∀ t, (∀ a ∈ t.operands, motive a) → motive t) (t : Tree) : motive t := by
  induction t with
  | name n | literal kind text spot | identifier n | phrase | expression =>
      exact h _ fun a ha => absurd ha List.not_mem_nil
  | parentheses inner ih =>
      refine h _ fun a ha => ?_
      rwa [List.mem_singleton.mp ha]
  | binary lhs op rhs ihl ihr =>
      refine h _ fun a ha => ?_
      simp only [operands, List.mem_cons, List.not_mem_nil, or_false] at ha
      rcases ha with rfl | rfl
      · exact ihl
      · exact ihr
  | call callee args ih => exact h _ ih
  | declaration keyword n initial ih =>
      refine h _ fun a ha => ?_
      rwa [mem_operands_declaration ha]
  | program statements ih => exact h _ ih

open Step

theorem Step.andThen_map {α β : Type} (s : Step α) (f : α → β) (scope : Scope) :
    andThen s (fun a => yield (f a)) scope =
      ⟨(s scope).result.map f, (s scope).scope, (s scope).output⟩ := by
  rcases h : (s scope).result with failure | a
  · rw [andThen_of_error h]
    rfl
  · rw [andThen_of_ok h]
    simp [yield, Except.map]

namespace Step

variable {α β : Type} {s : Step α} {next : α → Step β} {t : Tree} {scope : Scope} {a : α} {b : β}

theorem andThen_eq_yield (hs : s scope = yield a scope) (hnext : next a scope = yield b scope) :
    andThen s next scope = yield b scope := by
  have hresult : (s scope).result = .ok a := congrArg Outcome.result hs
  rw [andThen_of_ok hresult, hs]
  change (⟨(next a scope).result, (next a scope).scope, "" ++ (next a scope).output⟩ : Outcome β) = _
  rw [hnext]
  rfl

theorem blaming_eq_yield (h : s scope = yield a scope) : blaming t s scope = yield a scope := by
  rw [blaming, h]
  rfl

theorem valueNamed_eq_yield {name : String} {v : Variable} (h : scope.find? name = some v) :
    valueNamed name scope = yield v.value scope := by
  have hfound : variableNamed name scope = yield v scope := by rw [variableNamed, h]
  exact andThen_eq_yield hfound rfl

theorem ok_of_andThen (h : (andThen s next scope).result = .ok b) :
    ∃ a, (s scope).result = .ok a ∧ (next a (s scope).scope).result = .ok b := by
  rcases hs : (s scope).result with failure | a
  · rw [andThen_of_error hs] at h
    cases h
  · rw [andThen_of_ok hs] at h
    exact ⟨a, rfl, h⟩

/-- Only the values that a step can have matter to what follows it. -/
theorem andThen_congr {next' : α → Step β}
    (h : ∀ scope a, (s scope).result = .ok a → next a = next' a) :
    andThen s next = andThen s next' := by
  funext scope
  cases hresult : (s scope).result with
  | error failure => rw [andThen_of_error hresult, andThen_of_error hresult]
  | ok a => rw [andThen_of_ok hresult, andThen_of_ok hresult, h scope a hresult]

theorem ok_of_blaming (h : (blaming t s scope).result = .ok a) : (s scope).result = .ok a := by
  rw [blaming] at h
  dsimp only at h
  rcases hs : (s scope).result with failure | a'
  · rw [hs] at h
    cases h
  · rw [hs] at h
    exact h

theorem ok_of_ofExcept {result : Except Failure α} (h : (ofExcept result scope).result = .ok a) :
    result = .ok a := by
  cases result with
  | ok a' => exact h
  | error failure => cases h

end Step

theorem blaming_blaming {α : Type} (t u : Tree) (s : Step α) :
    blaming u (blaming t s) = blaming t s := by
  funext scope
  simp only [blaming]
  rcases (s scope).result with (e | f) | a
  · change (⟨.error (.error ((e.blame t).blame u)), _, _⟩ : Outcome α) = _
    rw [Error.blame_blame]
    rfl
  · rfl
  · rfl

theorem blaming_andThen {α β : Type} (t : Tree) (s : Step α) (next : α → Step β) :
    blaming t (andThen s next) = andThen (blaming t s) fun a => blaming t (next a) := by
  funext scope
  cases h : (s scope).result with
  | ok a =>
      have hblamed : (blaming t s scope).result = .ok a := by rw [blaming, h]; rfl
      rw [andThen_of_ok hblamed, blaming, andThen_of_ok h]
      rfl
  | error failure =>
      have hblamed : (blaming t s scope).result = .error (failure.blame t) := by rw [blaming, h]; rfl
      rw [andThen_of_error hblamed, blaming, andThen_of_error h]
      rfl

/-! ### The two stages -/

theorem evaluateAll_nil : evaluateAll [] = yield [] := by
  rw [evaluateAll, pure_eq]

theorem evaluateAll_cons (t : Tree) (ts : List Tree) :
    evaluateAll (t :: ts) =
      andThen (evaluate t) fun value => andThen (evaluateAll ts) fun values =>
        yield (value :: values) := by
  rw [evaluateAll]
  rfl

theorem evaluateAll_append (ts us : List Tree) :
    evaluateAll (ts ++ us) = andThen (evaluateAll ts) fun values =>
      andThen (evaluateAll us) fun more => yield (values ++ more) := by
  induction ts with
  | nil =>
      rw [evaluateAll_nil, yield_andThen]
      exact (andThen_yield _).symm
  | cons t ts ih =>
      rw [List.cons_append, evaluateAll_cons, evaluateAll_cons, ih]
      simp only [andThen_assoc, yield_andThen, List.cons_append]

theorem evaluateAll_singleton_of_ok {t : Tree} {scope : Scope} {values : List Value}
    (h : (evaluateAll [t] scope).result = .ok values) :
    (evaluate t scope).result = .ok (values.getLastD .unit) ∧
      (evaluateAll [t] scope).scope = (evaluate t scope).scope := by
  rw [evaluateAll_cons, evaluateAll_nil] at h ⊢
  simp only [yield_andThen] at h ⊢
  rw [andThen_map] at h ⊢
  cases hresult : (evaluate t scope).result with
  | error failure =>
      rw [hresult] at h
      cases h
  | ok value =>
      rw [hresult] at h
      cases h
      exact ⟨rfl, rfl⟩

/-- What holds of each value that a tree has holds of the values of a list of trees. -/
theorem forall₂_of_evaluateAll {post : Tree → Value → Prop} {ts : List Tree} {values : List Value}
    {scope : Scope}
    (h : ∀ t ∈ ts, ∀ scope value, (evaluate t scope).result = .ok value → post t value)
    (hvalues : (evaluateAll ts scope).result = .ok values) : List.Forall₂ post ts values := by
  induction ts generalizing scope values with
  | nil =>
      rw [evaluateAll_nil] at hvalues
      cases hvalues
      exact .nil
  | cons t ts ih =>
      rw [evaluateAll_cons] at hvalues
      obtain ⟨value, hvalue, hrest⟩ := ok_of_andThen hvalues
      obtain ⟨others, hothers, hlist⟩ := ok_of_andThen hrest
      cases hlist
      exact .cons (h t List.mem_cons_self _ value hvalue)
        (ih (fun u hu => h u (List.mem_cons_of_mem t hu)) hothers)

theorem evaluateLast_eq (value : Value) (ts : List Tree) :
    evaluateLast value ts = andThen (evaluateAll ts) fun values => yield (values.getLastD value) := by
  induction ts generalizing value with
  | nil =>
      rw [evaluateLast, evaluateAll_nil, yield_andThen]
      rfl
  | cons t ts ih =>
      rw [evaluateLast, evaluateAll_cons]
      simp only [bind_eq, andThen_assoc, yield_andThen, ih]
      congr 1
      funext next
      congr 1
      funext values
      rw [List.getLastD_cons]

theorem conclude_declaration_of_none {keyword n : Name} {initial : Tree}
    (h : Kind.ofKeyword? keyword.text = none) (values : List Value) :
    conclude (.declaration keyword n initial) values = fail (.fault (.unknownType keyword.text)) := by
  simp only [conclude, Kind.ofKeyword, h]
  rfl

theorem conclude_declaration_of_some {keyword n : Name} {initial : Tree} {type : Kind}
    (h : Kind.ofKeyword? keyword.text = some type) (values : List Value) :
    conclude (.declaration keyword n initial) values =
      andThen (blaming (.name n) (declare ⟨n.text, type, values.getLastD .unit⟩)) fun _ =>
        yield (.declared n.text type (values.getLastD .unit)) := by
  simp only [conclude, Kind.ofKeyword, h]
  rfl

theorem evaluate_declaration (keyword n : Name) (initial : Tree) :
    evaluate (.declaration keyword n initial) = blaming (.declaration keyword n initial)
      (andThen (evaluateAll (Tree.declaration keyword n initial).operands)
        (conclude (.declaration keyword n initial))) := by
  rw [evaluate, Tree.operands]
  -- A known keyword is looked up without effect, and an unknown one fails before the initial tree.
  cases h : Kind.ofKeyword? keyword.text with
  | none =>
      have hfails : conclude (.declaration keyword n initial) [] = _ :=
        conclude_declaration_of_none h []
      simp only [Option.isSome_none, Bool.false_eq_true, if_false, evaluateAll_nil, yield_andThen,
        hfails]
      simp only [Kind.ofKeyword, h]
      rfl
  | some type =>
      simp only [Option.isSome_some, if_true, evaluateAll_cons, evaluateAll_nil, andThen_assoc,
        yield_andThen, conclude_declaration_of_some h]
      simp only [Kind.ofKeyword, h]
      rfl

/-- **Every evaluation has the same two stages.** The operands are evaluated from left to right, and
from their values the tree draws its conclusion. -/
theorem evaluate_eq (t : Tree) :
    evaluate t = blaming t (andThen (evaluateAll t.operands) (conclude t)) := by
  cases t with
  | name n | phrase | expression | literal kind text spot | identifier n =>
      rw [evaluate, Tree.operands, evaluateAll_nil, yield_andThen, conclude]
  | parentheses inner =>
      rw [evaluate, Tree.operands]
      simp only [evaluateAll_cons, evaluateAll_nil, andThen_assoc, yield_andThen, conclude]
      exact congrArg _ (andThen_yield _).symm
  | binary lhs op rhs =>
      rw [evaluate, Tree.operands]
      simp only [evaluateAll_cons, evaluateAll_nil, andThen_assoc, yield_andThen, conclude]
      rfl
  | call callee args =>
      rw [evaluate]
      rfl
  | declaration keyword n initial => exact evaluate_declaration keyword n initial
  | program statements =>
      rw [evaluate, evaluateLast_eq]
      rfl

/-- A tree fails where an operand fails, and then concludes nothing. -/
theorem evaluate_of_error {t : Tree} {scope : Scope} {failure : Failure}
    (h : (evaluateAll t.operands scope).result = .error failure) :
    evaluate t scope = ⟨.error (failure.blame t), (evaluateAll t.operands scope).scope,
      (evaluateAll t.operands scope).output⟩ := by
  rw [evaluate_eq, blaming, andThen_of_error h]
  rfl

theorem evaluate_of_ok {t : Tree} {scope : Scope} {values : List Value}
    (h : (evaluateAll t.operands scope).result = .ok values) :
    let concluded := conclude t values (evaluateAll t.operands scope).scope
    evaluate t scope = ⟨concluded.result.mapError (·.blame t), concluded.scope,
      (evaluateAll t.operands scope).output ++ concluded.output⟩ := by
  rw [evaluate_eq, blaming, andThen_of_ok h]

/-- **What a conclusion can do to the scope.** Nothing, unless it is that of a declaration and
succeeds; then it adds the declared variable. -/
theorem meets_conclude (t : Tree) (values : List Value) (scope : Scope) :
    (conclude t values scope).Meets
      (fun value later => (¬t.IsDeclaration ∧ later = scope) ∨
        ∃ keyword n initial type, t = .declaration keyword n initial ∧
          Kind.ofKeyword? keyword.text = some type ∧
            scope.declare? ⟨n.text, type, values.getLastD .unit⟩ = some later ∧
              value = .declared n.text type (values.getLastD .unit))
      fun _ later => later = scope := by
  cases t with
  | declaration keyword n initial =>
      cases htype : Kind.ofKeyword? keyword.text with
      | none =>
          rw [conclude_declaration_of_none htype, meets_fail]
      | some type =>
          rw [conclude_declaration_of_some htype]
          simp only [meets_andThen, meets_blaming, meets_declare, meets_yield]
          refine ⟨fun later hlater => Or.inr ?_, fun _ => trivial⟩
          exact ⟨keyword, n, initial, type, rfl, htype, hlater, rfl⟩
  | _ => simp [conclude, Tree.IsDeclaration, bind_eq, pure_eq]

/-- Of a failed tree somebody is blamed already, whatever is around it. -/
theorem blaming_evaluate (t u : Tree) : blaming u (evaluate t) = evaluate t := by
  rw [evaluate_eq, blaming_blaming]

theorem blaming_evaluateAll (u : Tree) (ts : List Tree) :
    blaming u (evaluateAll ts) = evaluateAll ts := by
  induction ts with
  | nil => rw [evaluateAll_nil]; rfl
  | cons t ts ih =>
      rw [evaluateAll_cons]
      simp only [blaming_andThen, blaming_evaluate, ih]
      rfl

end StraightLine
