import StraightLine.Text.Quoted
import StraightLine.Tree.Basic

/-!
The errors of the language: each stops the program that meets it, and names the tree to blame.
-/

namespace StraightLine

inductive ErrorKind where
  | malformedLiteral
  | duplicateDeclaration
  | undefinedIdentifier
  | unknownFunction
  | unsupportedOperation
  | divisionByZero
  deriving DecidableEq, Repr

def ErrorKind.title : ErrorKind → String
  | .malformedLiteral => "Malformed literal"
  | .duplicateDeclaration => "Duplicate declaration"
  | .undefinedIdentifier => "Undefined identifier"
  | .unknownFunction => "Unknown function"
  | .unsupportedOperation => "Unsupported operation"
  | .divisionByZero => "Division by zero"

/-- What went wrong. `reported` is an error made outside an evaluation, of any kind or of none. -/
inductive Cause where
  | undelimited (written : String)
  | notInteger (written : String)
  | integerOutOfRange (written : String)
  | notDecimal (written : String)
  | duplicate (name : String)
  | undefined (name : String)
  | unknownFunction (name : String)
  | notOnText (glyph : String)
  | notOnKinds (glyph : String)
  | divisionByZero
  | reported (kind : Option ErrorKind) (message : String)
  deriving DecidableEq, Repr

namespace Cause

/-- The kind of an error; only a reported error may have none. -/
def kind? : Cause → Option ErrorKind
  | .undelimited _ | .notInteger _ | .integerOutOfRange _ | .notDecimal _ => some .malformedLiteral
  | .duplicate _ => some .duplicateDeclaration
  | .undefined _ => some .undefinedIdentifier
  | .unknownFunction _ => some .unknownFunction
  | .notOnText _ | .notOnKinds _ => some .unsupportedOperation
  | .divisionByZero => some .divisionByZero
  | .reported kind _ => kind

/-- A name in the marks that messages put around names. -/
def marked (name : String) : String :=
  "`" ++ name ++ "`"

def message : Cause → String
  | .undelimited written => "Text literal " ++ Text.quoted written ++ " lacks its delimiters."
  | .notInteger written => Text.quoted written ++ " is not an integer."
  | .integerOutOfRange written => "Integer " ++ written ++ " is out of range."
  | .notDecimal written => Text.quoted written ++ " is not a decimal number."
  | .duplicate name => "Variable " ++ marked name ++ " is already declared."
  | .undefined name => "Unknown identifier " ++ marked name
  | .unknownFunction name => "Unknown function " ++ marked name
  | .notOnText glyph =>
    "Operation " ++ marked glyph ++ " doesn't exist on type " ++ marked "str"
  | .notOnKinds glyph => "Cannot determine types for operation " ++ marked glyph
  | .divisionByZero => "Attempted to divide by zero."
  | .reported _ message => message

end Cause

/-- An error and the tree to blame for it, once there is one. -/
structure Error where
  cause : Cause
  guilty : Option Tree

namespace Error

/-- Blames a tree, unless one is blamed already: the first to be blamed lies deepest. -/
def blame (e : Error) (t : Tree) : Error :=
  { e with guilty := e.guilty.or (some t) }

@[simp]
theorem blame_blame (e : Error) (s t : Tree) : (e.blame s).blame t = e.blame s := by
  cases e with
  | mk cause guilty => cases guilty <;> rfl

end Error

end StraightLine
