import StraightLine.Evaluation.Step
import StraightLine.Literal
import StraightLine.Operation
import StraightLine.Procedure

/-!
The evaluation of trees: operands and arguments from left to right, each tree once, and no further
than the first failure. Of an error the deepest tree that may be blamed for it is blamed. Two limits of
the machine are left out: a tree may be of any depth, and a text that is written always reaches the
output, whatever characters it has.
-/

namespace StraightLine

/-- The value of a literal of one of the three kinds. The text of an integer is not read if it has more
digits than the limit; that is a fault, whatever integer it is. -/
def Literal.value (kind : LiteralKind) (written : String) : Except Failure Value :=
  match kind with
  | .text => match text? written with
    | some chars => .ok (.text chars)
    | none => .error (.ofCause (.undelimited written))
  | .integer => match integer? written with
    | some n =>
      if digitLimit < digitCount written then .error (.fault (.tooManyDigits (digitCount written)))
      else if Word.InRange n then .ok (.integer n)
      else .error (.ofCause (.integerOutOfRange written))
    | none => .error (.ofCause (.notInteger written))
  | .decimal => match decimal? written with
    | some x => .ok (.decimal x)
    | none => .error (.ofCause (.notDecimal written))
  | .other label => .error (.fault (.unknownLiteral label))

/-- The kind that a keyword names. -/
def Kind.ofKeyword (keyword : String) : Except Fault Kind :=
  match ofKeyword? keyword with
  | some kind => .ok kind
  | none => .error (.unknownType keyword)

/-- The procedure that a tree calls, and the callee to blame if there is none. -/
def Procedure.called (callee : Name) : Except Failure Procedure :=
  match named? callee.text with
  | some p => .ok p
  | none => .error (.error ⟨.unknownFunction callee.text, some (.name callee)⟩)

mutual

/-- The value of a tree. A declaration looks at its keyword first and declares its name last. -/
def evaluate (t : Tree) : Step Value :=
  Step.blaming t <| match t with
    | .literal kind written _ => Step.ofExcept (Literal.value kind written)
    | .identifier n => Step.valueNamed n.text
    | .parentheses inner => evaluate inner
    | .binary lhs op rhs => do
      let a ← evaluate lhs
      let b ← evaluate rhs
      Step.ofExcept (operate op.name a b)
    | .call callee args => do
      let values ← evaluateAll args
      let procedure ← Step.ofExcept (Procedure.called callee)
      Step.write (procedure.output values)
      return .unit
    | .declaration keyword n initial => do
      let type ← Step.ofExcept ((Kind.ofKeyword keyword.text).mapError .fault)
      let value ← evaluate initial
      let v : Variable := ⟨n.text, type, value⟩
      Step.blaming (.name n) (Step.declare v)
      return v.asValue
    | .program statements => evaluateLast .unit statements
    | .name n => Step.fail (.fault (.notEvaluable (.name n)))
    | .phrase => Step.fail (.fault (.notEvaluable .phrase))
    | .expression => Step.fail (.fault (.notEvaluable .expression))

/-- The values of all trees. -/
def evaluateAll : List Tree → Step (List Value)
  | [] => return []
  | t :: ts => do
    let value ← evaluate t
    let values ← evaluateAll ts
    return value :: values

/-- The value of the last tree, and of no trees the given value. -/
def evaluateLast (value : Value) : List Tree → Step Value
  | [] => return value
  | t :: ts => do
    let next ← evaluate t
    evaluateLast next ts

end

end StraightLine
