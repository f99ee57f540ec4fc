import StraightLine.Evaluation.Evaluate
import StraightLine.Proofs.Tree.Parts

/-!
Postconditions of runs: one of the value and the scope where a run succeeds, one of the failure and
the scope where it fails. Each way to build a step, and so each kind of tree, has one equation that
turns its postconditions into those of its parts.
-/

namespace StraightLine

namespace Outcome

variable {α β : Type}

/-- The outcome is a success with `ok` or a failure with `failed`. -/
def Meets (o : Outcome α) (ok : α → Scope → Prop) (failed : Failure → Scope → Prop) : Prop :=
  match o.result with
  | .ok a => ok a o.scope
  | .error failure => failed failure o.scope

variable {o : Outcome α} {ok ok' : α → Scope → Prop} {failed failed' : Failure → Scope → Prop}

theorem meets_self (o : Outcome α) :
    o.Meets (fun a scope => o.result = .ok a ∧ o.scope = scope)
      fun failure scope => o.result = .error failure ∧ o.scope = scope := by
  unfold Meets
  split
  · rename_i a ha
    exact ⟨ha, rfl⟩
  · rename_i failure hf
    exact ⟨hf, rfl⟩

theorem Meets.of_ok (h : o.Meets ok failed) {a : α} (ha : o.result = .ok a) : ok a o.scope := by
  rwa [Meets, ha] at h

theorem Meets.of_error (h : o.Meets ok failed) {failure : Failure}
    (hf : o.result = .error failure) : failed failure o.scope := by
  rwa [Meets, hf] at h

/-- What is known of an outcome may be used for its postconditions. -/
theorem Meets.mono_of_result (h : o.Meets ok failed)
    (hok : ∀ a scope, o.result = .ok a → ok a scope → ok' a scope)
    (hfailed : ∀ failure scope, o.result = .error failure → failed failure scope →
      failed' failure scope) : o.Meets ok' failed' := by
  unfold Meets at h ⊢
  split
  · rename_i a ha
    rw [ha] at h
    exact hok a o.scope ha h
  · rename_i failure hf
    rw [hf] at h
    exact hfailed failure o.scope hf h

theorem Meets.mono (h : o.Meets ok failed) (hok : ∀ a scope, ok a scope → ok' a scope)
    (hfailed : ∀ failure scope, failed failure scope → failed' failure scope) :
    o.Meets ok' failed' :=
  h.mono_of_result (fun a scope _ => hok a scope) fun failure scope _ => hfailed failure scope

end Outcome

namespace Step

open Outcome

variable {α β : Type} {ok : α → Scope → Prop} {failed : Failure → Scope → Prop} {scope : Scope}

@[simp]
theorem meets_yield {a : α} : (yield a scope).Meets ok failed ↔ ok a scope := Iff.rfl

@[simp]
theorem meets_fail {failure : Failure} :
    (fail failure scope : Outcome α).Meets ok failed ↔ failed failure scope := Iff.rfl

/-- The second step starts from whatever scope the first one leaves. -/
@[simp]
theorem meets_andThen {s : Step β} {next : β → Step α} :
    (andThen s next scope).Meets ok failed ↔
      (s scope).Meets (fun b later => (next b later).Meets ok failed) failed := by
  rcases h : (s scope).result with failure | b
  · rw [andThen_of_error h, Meets, Meets, h]
  · rw [andThen_of_ok h, Meets, Meets, h]
    rfl

@[simp]
theorem meets_blaming {t : Tree} {s : Step α} :
    (blaming t s scope).Meets ok failed ↔
      (s scope).Meets ok fun failure later => failed (failure.blame t) later := by
  unfold blaming Meets
  dsimp only
  rcases (s scope).result with failure | a
  · exact Iff.rfl
  · exact Iff.rfl

@[simp]
theorem meets_ofExcept {result : Except Failure α} :
    (ofExcept result scope).Meets ok failed ↔
      (∀ a, result = .ok a → ok a scope) ∧ ∀ failure, result = .error failure → failed failure scope := by
  cases result <;> simp [ofExcept]

@[simp]
theorem meets_write {ok : Unit → Scope → Prop} {text : String} :
    (write text scope).Meets ok failed ↔ ok () scope := Iff.rfl

@[simp]
theorem meets_valueNamed {ok : Value → Scope → Prop} {name : String} :
    (valueNamed name scope).Meets ok failed ↔
      (∀ v, scope.find? name = some v → ok v.value scope) ∧
        (scope.find? name = none → failed (.ofCause (.undefined name)) scope) := by
  simp only [valueNamed, bind_eq, pure_eq, meets_andThen, meets_yield, variableNamed]
  cases scope.find? name <;> simp

@[simp]
theorem meets_declare {ok : Unit → Scope → Prop} {v : Variable} :
    (declare v scope).Meets ok failed ↔
      (∀ later, scope.declare? v = some later → ok () later) ∧
        (scope.declare? v = none → failed (.ofCause (.duplicate v.name)) scope) := by
  simp only [declare]
  cases scope.declare? v <;> simp

end Step

/-! ### Trees -/

section Trees

open Outcome Step

-- The equations of the evaluation are derived here, once for all proofs that follow.
attribute [local simp] evaluate evaluateAll evaluateLast

variable {ok : Value → Scope → Prop} {failed : Failure → Scope → Prop} {scope : Scope}

theorem meets_literal {kind : LiteralKind} {text : String} {spot : Int} :
    (evaluate (.literal kind text spot) scope).Meets ok failed ↔
      (∀ v, Literal.value kind text = .ok v → ok v scope) ∧
        ∀ failure, Literal.value kind text = .error failure →
          failed (failure.blame (.literal kind text spot)) scope := by
  rw [evaluate, meets_blaming, meets_ofExcept]

theorem meets_identifier {n : Name} :
    (evaluate (.identifier n) scope).Meets ok failed ↔
      (∀ v, scope.find? n.text = some v → ok v.value scope) ∧
        (scope.find? n.text = none →
          failed (.error ⟨.undefined n.text, some (.identifier n)⟩) scope) := by
  rw [evaluate, meets_blaming, meets_valueNamed]
  rfl

theorem meets_parentheses {inner : Tree} :
    (evaluate (.parentheses inner) scope).Meets ok failed ↔
      (evaluate inner scope).Meets ok fun failure later =>
        failed (failure.blame (.parentheses inner)) later := by
  rw [evaluate, meets_blaming]

/-- Both operands are evaluated before the operation is tried. -/
theorem meets_binary {lhs rhs : Tree} {op : Operator} :
    (evaluate (.binary lhs op rhs) scope).Meets ok failed ↔
      (evaluate lhs scope).Meets
        (fun a middle => (evaluate rhs middle).Meets
          (fun b later => (∀ v, operate op.name a b = .ok v → ok v later) ∧
            ∀ failure, operate op.name a b = .error failure →
              failed (failure.blame (.binary lhs op rhs)) later)
          fun failure later => failed (failure.blame (.binary lhs op rhs)) later)
        fun failure later => failed (failure.blame (.binary lhs op rhs)) later := by
  rw [evaluate]
  simp only [bind_eq, meets_blaming, meets_andThen, meets_ofExcept]

/-- The callee is looked up behind the arguments. -/
theorem meets_call {callee : Name} {args : List Tree} :
    (evaluate (.call callee args) scope).Meets ok failed ↔
      (evaluateAll args scope).Meets
        (fun _ later => (Procedure.named? callee.text ≠ none → ok .unit later) ∧
          (Procedure.named? callee.text = none →
            failed (.error ⟨.unknownFunction callee.text, some (.name callee)⟩) later))
        fun failure later => failed (failure.blame (.call callee args)) later := by
  rw [evaluate]
  simp only [bind_eq, pure_eq, meets_blaming, meets_andThen, meets_ofExcept, meets_write,
    meets_yield, Procedure.called]
  cases Procedure.named? callee.text <;> simp [Failure.blame, Error.blame]

theorem mapError_ofKeyword (keyword : String) :
    (Kind.ofKeyword keyword).mapError Failure.fault =
      match Kind.ofKeyword? keyword with
      | some type => .ok type
      | none => .error (.fault (.unknownType keyword)) := by
  unfold Kind.ofKeyword
  cases Kind.ofKeyword? keyword <;> rfl

/-- The keyword is looked up before the initial value, and the name declared behind it. -/
theorem meets_declaration {keyword n : Name} {initial : Tree} :
    (evaluate (.declaration keyword n initial) scope).Meets ok failed ↔
      (Kind.ofKeyword? keyword.text = none → failed (.fault (.unknownType keyword.text)) scope) ∧
        ∀ type, Kind.ofKeyword? keyword.text = some type →
          (evaluate initial scope).Meets
            (fun value middle =>
              (∀ later, middle.declare? ⟨n.text, type, value⟩ = some later →
                ok (.declared n.text type value) later) ∧
              (middle.declare? ⟨n.text, type, value⟩ = none →
                failed (.error ⟨.duplicate n.text, some (.name n)⟩) middle))
            fun failure later => failed (failure.blame (.declaration keyword n initial)) later := by
  rw [evaluate]
  simp only [bind_eq, pure_eq, meets_blaming, meets_andThen, meets_ofExcept, meets_yield,
    meets_declare, mapError_ofKeyword]
  cases Kind.ofKeyword? keyword.text <;>
    simp [Failure.blame, Error.blame, Failure.ofCause, Variable.asValue]

theorem meets_program {statements : List Tree} :
    (evaluate (.program statements) scope).Meets ok failed ↔
      (evaluateLast .unit statements scope).Meets ok fun failure later =>
        failed (failure.blame (.program statements)) later := by
  rw [evaluate, meets_blaming]

/-! ### Lists of trees

`known` holds of the scope at the start and is kept by every tree of the list; `post` is what a tree
of the list guarantees of its value. -/

variable (known : Scope → Prop) (post : Tree → Value → Scope → Prop) {ts : List Tree}

theorem meets_evaluateAll
    (h : ∀ t ∈ ts, ∀ scope, known scope → (evaluate t scope).Meets (post t) failed)
    (hpost : ∀ t value scope, post t value scope → known scope) (scope : Scope)
    (hscope : known scope) :
    (evaluateAll ts scope).Meets
      (fun _ later => known later ∧ ∀ t ∈ ts, ∃ value after, post t value after) failed := by
  induction ts generalizing scope with
  | nil =>
      rw [evaluateAll, pure_eq, meets_yield]
      exact ⟨hscope, fun t ht => absurd ht List.not_mem_nil⟩
  | cons t ts ih =>
      rw [evaluateAll]
      simp only [bind_eq, pure_eq, meets_andThen, meets_yield]
      refine (h t List.mem_cons_self scope hscope).mono ?_ fun _ _ hf => hf
      intro value middle hvalue
      have hrest := ih (fun u hu => h u (List.mem_cons_of_mem t hu)) middle
        (hpost t value middle hvalue)
      refine hrest.mono ?_ fun _ _ hf => hf
      rintro _ later ⟨hknown, hall⟩
      refine ⟨hknown, fun u hu => ?_⟩
      rcases List.mem_cons.mp hu with rfl | hu
      · exact ⟨value, middle, hvalue⟩
      · exact hall u hu

/-- The last tree of the list has the last word on the value and the scope. -/
theorem meets_evaluateLast
    (h : ∀ t ∈ ts, ∀ scope, known scope → (evaluate t scope).Meets (post t) failed)
    (hpost : ∀ t value scope, post t value scope → known scope) (value : Value) (scope : Scope)
    (hscope : known scope) :
    (evaluateLast value ts scope).Meets
      (fun result later => (∀ t ∈ ts, ∃ value after, post t value after) ∧
        match ts.getLast? with
        | none => result = value ∧ later = scope
        | some t => post t result later) failed := by
  induction ts generalizing scope value with
  | nil =>
      rw [evaluateLast, pure_eq, meets_yield]
      exact ⟨fun t ht => absurd ht List.not_mem_nil, rfl, rfl⟩
  | cons t ts ih =>
      rw [evaluateLast]
      simp only [bind_eq, meets_andThen]
      refine (h t List.mem_cons_self scope hscope).mono ?_ fun _ _ hf => hf
      intro next middle hnext
      have hrest := ih (fun u hu => h u (List.mem_cons_of_mem t hu)) next middle
        (hpost t next middle hnext)
      refine hrest.mono ?_ fun _ _ hf => hf
      rintro result later ⟨hall, hlast⟩
      constructor
      · intro u hu
        rcases List.mem_cons.mp hu with rfl | hu
        · exact ⟨next, middle, hnext⟩
        · exact hall u hu
      · cases ts with
        | nil =>
            obtain ⟨rfl, rfl⟩ := hlast
            exact hnext
        | cons u us => rwa [List.getLast?_cons_cons]

end Trees

end StraightLine
