/-!
The trees of programs. Any tree may stand wherever a tree is expected; spots are the numbers of the
tokens that names and literals were read from, and zero is the token of whatever was not read.
-/

namespace StraightLine

/-- An occurrence of a name, an operator or a keyword. -/
structure Name where
  text : String
  spot : Int
  deriving DecidableEq, Repr

inductive Glyph where
  | times
  | over
  | plus
  | minus
  deriving DecidableEq, Repr

namespace Glyph

def text : Glyph → String
  | .times => "*"
  | .over => "/"
  | .plus => "+"
  | .minus => "-"

def ofText? (written : String) : Option Glyph :=
  if written = times.text then some .times
  else if written = over.text then some .over
  else if written = plus.text then some .plus
  else if written = minus.text then some .minus
  else none

@[simp]
theorem ofText?_text (g : Glyph) : ofText? g.text = some g := by
  cases g <;> decide

end Glyph

/-- An occurrence of an operator. -/
structure Operator where
  glyph : Glyph
  spot : Int
  deriving DecidableEq, Repr

/-- The operator as a name. -/
def Operator.name (op : Operator) : Name :=
  ⟨op.glyph.text, op.spot⟩

/-- What a literal claims to be; only the first three kinds have values. -/
inductive LiteralKind where
  | text
  | integer
  | decimal
  | other (label : String)
  deriving DecidableEq, Repr

namespace LiteralKind

def label : LiteralKind → String
  | .text => "string"
  | .integer => "integer"
  | .decimal => "decimal"
  | .other label => label

def ofLabel (label : String) : LiteralKind :=
  if label = text.label then .text
  else if label = integer.label then .integer
  else if label = decimal.label then .decimal
  else .other label

end LiteralKind

inductive Tree where
  | name (name : Name)
  | literal (kind : LiteralKind) (text : String) (spot : Int)
  | identifier (name : Name)
  | parentheses (inner : Tree)
  | binary (lhs : Tree) (op : Operator) (rhs : Tree)
  | call (callee : Name) (args : List Tree)
  | declaration (keyword name : Name) (initial : Tree)
  | program (statements : List Tree)
  | phrase
  | expression
  deriving Repr

instance : Inhabited Tree := ⟨.expression⟩

/-- The classes of trees, as messages name them. `plainBinary` has no operators and no trees. -/
inductive TreeClass where
  | name
  | literal
  | identifier
  | parentheses
  | product
  | sum
  | plainBinary
  | call
  | declaration
  | program
  | phrase
  | expression
  deriving DecidableEq, Repr

namespace TreeClass

def label : TreeClass → String
  | .name => "Nom"
  | .literal => "Literal"
  | .identifier => "IdentifierExpression"
  | .parentheses => "ParenthesesExpression"
  | .product => "MulDivExpression"
  | .sum => "AddSubExpression"
  | .plainBinary => "Binary"
  | .call => "FunctionCall"
  | .declaration => "VariableDeclaration"
  | .program => "Program"
  | .phrase => "Phrase"
  | .expression => "Expression"

/-- The class with the family it belongs to, between brackets. -/
def text (c : TreeClass) : String :=
  let family := match c with
    | .name | .phrase | .expression => "ontology"
    | _ => "syntax"
  "<class 'blizzard." ++ family ++ "." ++ c.label ++ "'>"

/-- The operators that trees of the class are built with. -/
def glyphs : TreeClass → List Glyph
  | .product => [.times, .over]
  | .sum => [.plus, .minus]
  | _ => []

end TreeClass

namespace Tree

/-- The class of a binary tree is that of its operator. -/
def treeClass : Tree → TreeClass
  | .name _ => .name
  | .literal .. => .literal
  | .identifier _ => .identifier
  | .parentheses _ => .parentheses
  | .binary _ op _ => match op.glyph with
    | .times | .over => .product
    | .plus | .minus => .sum
  | .call .. => .call
  | .declaration .. => .declaration
  | .program _ => .program
  | .phrase => .phrase
  | .expression => .expression

/-- Two trees joined by an operator, if trees of the class are built with it. -/
def join? (c : TreeClass) (lhs : Tree) (op : Name) (rhs : Tree) : Option Tree :=
  match Glyph.ofText? op.text with
  | some glyph => if glyph ∈ c.glyphs then some (.binary lhs ⟨glyph, op.spot⟩ rhs) else none
  | none => none

end Tree

end StraightLine
