import StraightLine.Scope
import StraightLine.Fault

/-!
Steps of a run. A step starts in a scope; whether it succeeds or fails, it leaves a scope and the
output that it wrote.
-/

namespace StraightLine

@[ext]
structure Outcome (α : Type) where
  result : Except Failure α
  scope : Scope
  output : String

/-- Runs from a scope to an outcome. -/
def Step (α : Type) : Type :=
  Scope → Outcome α

namespace Step

variable {α β γ : Type}

def yield (a : α) : Step α :=
  fun scope => ⟨.ok a, scope, ""⟩

def fail (failure : Failure) : Step α :=
  fun scope => ⟨.error failure, scope, ""⟩

/-- One step and then another, which starts where the first ends, unless the first fails. -/
def andThen (s : Step α) (next : α → Step β) : Step β := fun scope =>
  let first := s scope
  match first.result with
  | .error failure => ⟨.error failure, first.scope, first.output⟩
  | .ok a =>
    let second := next a first.scope
    ⟨second.result, second.scope, first.output ++ second.output⟩

theorem andThen_of_ok {s : Step α} {scope : Scope} {a : α} (h : (s scope).result = .ok a)
    (next : α → Step β) : andThen s next scope =
      ⟨(next a (s scope).scope).result, (next a (s scope).scope).scope,
        (s scope).output ++ (next a (s scope).scope).output⟩ := by
  simp only [andThen, h]

theorem andThen_of_error {s : Step α} {scope : Scope} {failure : Failure}
    (h : (s scope).result = .error failure) (next : α → Step β) :
    andThen s next scope = ⟨.error failure, (s scope).scope, (s scope).output⟩ := by
  simp only [andThen, h]

theorem yield_andThen (a : α) (next : α → Step β) : andThen (yield a) next = next a := by
  funext scope
  simp [andThen, yield]

theorem andThen_yield (s : Step α) : andThen s yield = s := by
  funext scope
  rcases h : (s scope).result with failure | a
  · rw [andThen_of_error h, ← h]
  · rw [andThen_of_ok h]
    simp [yield, ← h]

theorem andThen_assoc (s : Step α) (f : α → Step β) (g : β → Step γ) :
    andThen (andThen s f) g = andThen s fun a => andThen (f a) g := by
  funext scope
  rcases h : (s scope).result with failure | a
  · simp only [andThen, h]
  · rcases h' : (f a (s scope).scope).result with failure | b <;>
      simp only [andThen, h, h', String.append_assoc]

instance : Monad Step where
  pure := yield
  bind := andThen

theorem pure_eq (a : α) : (pure a : Step α) = yield a := rfl

theorem bind_eq (s : Step α) (next : α → Step β) : s >>= next = andThen s next := rfl

instance : LawfulMonad Step :=
  LawfulMonad.mk' Step andThen_yield yield_andThen andThen_assoc

/-- The outcome of a computation that neither reads the scope nor writes. -/
def ofExcept : Except Failure α → Step α
  | .ok a => yield a
  | .error failure => fail failure

def write (text : String) : Step Unit :=
  fun scope => ⟨.ok (), scope, text⟩

/-- The variable of a name, which must be declared. -/
def variableNamed (name : String) : Step Variable := fun scope =>
  match scope.find? name with
  | some v => yield v scope
  | none => fail (.ofCause (.undefined name)) scope

/-- The value of a name, which must be declared. -/
def valueNamed (name : String) : Step Value := do
  let v ← variableNamed name
  return v.value

/-- Declares a variable, whose name must be new. -/
def declare (v : Variable) : Step Unit := fun scope =>
  match scope.declare? v with
  | some later => yield () later
  | none => fail (.ofCause (.duplicate v.name)) scope

/-- Blames a tree for the error of a step. -/
def blaming (t : Tree) (s : Step α) : Step α := fun scope =>
  let outcome := s scope
  ⟨outcome.result.mapError (·.blame t), outcome.scope, outcome.output⟩

end Step

end StraightLine
