import StraightLine.Error
import StraightLine.Source.Disk
import StraightLine.Tree.Text

/-!
Faults: what stops an operation without being an error of the program that runs. They show a tree
that is not a program, a number too long to be read, a request for what is not there, a source that
cannot be read, or a report that is full.
-/

namespace StraightLine

inductive Fault where
  | unknownType (keyword : String)
  | unknownLiteral (label : String)
  | tooManyDigits (count : Nat)
  | notEvaluable (tree : Tree)
  | withoutSpan (treeClass : TreeClass)
  | wrongGlyph (treeClass : TreeClass) (glyph : String)
  | notProgram (treeClass : TreeClass)
  | unnamedText
  | registeredTwice (name : String)
  | issuesRemain (outburst message : String)
  | unknownGlyph (glyph : String)
  | unknownProcedure (name : String)
  | noToken
  | noIssue
  | unclassified
  | unreadable (cause : ReadError)
  | tooManyIssues

namespace Fault

/-- The message of a fault, for those that have one. -/
def message? : Fault → Option String
  | .unknownType keyword => some ("Variable type " ++ keyword ++ " not implemented.")
  | .unknownLiteral label => some ("Unexpected literal kind " ++ Text.quoted label ++ ".")
  | .tooManyDigits count =>
    some ("Exceeds the limit (4300 digits) for integer string conversion: value has " ++
      count.repr ++ " digits; use sys.set_int_max_str_digits() to increase the limit")
  | .notEvaluable tree =>
    tree.record?.map fun record => "(" ++ tree.treeClass.text ++ ", " ++ record ++ ")"
  | .withoutSpan treeClass => some treeClass.text
  | .wrongGlyph treeClass glyph =>
    some ("(" ++ treeClass.text ++ ", " ++ Text.quoted glyph ++ ")")
  | .notProgram treeClass => some treeClass.text
  | .unnamedText => some "In-memory text needs a name."
  | .registeredTwice name => some ("Function " ++ name ++ " registered twice.")
  | .issuesRemain outburst message => some (outburst ++ " " ++ message)
  | .unknownGlyph glyph => some (Text.quoted glyph)
  | .unknownProcedure name => some (Text.quoted name)
  | .noToken => some "list index out of range"
  | .noIssue => some "tuple index out of range"
  | .unclassified => some "'BlizzardError' object has no attribute 'kind'"
  | .unreadable cause => some cause.message
  | .tooManyIssues => none

/-- A fault of two operations in a row is one of the first, or one of the second behind a result. -/
theorem of_bind {α β : Type} {first : Except Fault α} {second : α → Except Fault β} {f : Fault}
    (h : first >>= second = .error f) :
    first = .error f ∨ ∃ a, first = .ok a ∧ second a = .error f := by
  cases first with
  | error f' =>
      cases h
      exact Or.inl rfl
  | ok a => exact Or.inr ⟨a, rfl, h⟩

end Fault

/-- How an operation may fail: by an error of the program, or by a fault. -/
inductive Failure where
  | error (e : Error)
  | fault (f : Fault)

namespace Failure

/-- Blames a tree for an error; nobody is to blame for a fault. -/
def blame (failure : Failure) (t : Tree) : Failure :=
  match failure with
  | .error e => .error (e.blame t)
  | .fault f => .fault f

/-- The failure of an error that blames nobody yet. -/
def ofCause (cause : Cause) : Failure :=
  .error ⟨cause, none⟩

end Failure

end StraightLine
