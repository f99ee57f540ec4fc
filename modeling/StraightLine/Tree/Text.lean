import StraightLine.Text.Quoted
import StraightLine.Tree.Basic

/-!
The texts of trees: programs as one would write them, with the spaces and parentheses that the tree
has and no others.
-/

namespace StraightLine.Tree

/-- A name between brackets, which is also its text where a whole tree is a name. -/
def nameText (n : Name) : String :=
  "<Name " ++ Text.quoted n.text ++ ">"

mutual

/-- A tree as one would write it. Programs and the two empty trees have no text of their own. -/
def text : Tree → String
  | .name n => nameText n
  | .literal _ written _ => written
  | .identifier n => n.text
  | .parentheses inner => "(" ++ inner.text ++ ")"
  | .binary lhs op rhs => lhs.text ++ " " ++ op.glyph.text ++ " " ++ rhs.text
  | .call callee args => callee.text ++ "(" ++ ", ".intercalate (texts args) ++ ")"
  | .declaration keyword n initial => keyword.text ++ " " ++ n.text ++ " = " ++ initial.text
  | .program _ => TreeClass.program.text
  | .phrase => TreeClass.phrase.text
  | .expression => TreeClass.expression.text

def texts : List Tree → List String
  | [] => []
  | t :: ts => t.text :: texts ts

end

/-- The form of names and literals that tells them from other trees. -/
def record? : Tree → Option String
  | .name n => some (nameText n)
  | .literal kind written _ => some ("<Literal " ++ kind.label ++ " " ++ written ++ ">")
  | _ => none

end StraightLine.Tree
