import StraightLine.Proofs.Tree.Names

/-!
A tree in place of an identifier, wherever the identifier occurs. Nothing else of the tree changes.
-/

namespace StraightLine.Tree

mutual

/-- The tree with another one in place of each identifier of a name. -/
def substitute (name : String) (e : Tree) : Tree → Tree
  | .identifier n => if n.text = name then e else .identifier n
  | .parentheses inner => .parentheses (substitute name e inner)
  | .binary lhs op rhs => .binary (substitute name e lhs) op (substitute name e rhs)
  | .call callee args => .call callee (substituteAll name e args)
  | .declaration keyword n initial => .declaration keyword n (substitute name e initial)
  | .program statements => .program (substituteAll name e statements)
  | .name n => .name n
  | .literal kind text spot => .literal kind text spot
  | .phrase => .phrase
  | .expression => .expression

def substituteAll (name : String) (e : Tree) : List Tree → List Tree
  | [] => []
  | t :: ts => substitute name e t :: substituteAll name e ts

end

/-- Trees that neither declare nor write: literals and identifiers, joined by operators, with
parentheses where one likes. -/
inductive IsPure : Tree → Prop where
  | literal (kind : LiteralKind) (text : String) (spot : Int) : IsPure (.literal kind text spot)
  | identifier (n : Name) : IsPure (.identifier n)
  | parentheses {inner : Tree} (hinner : IsPure inner) : IsPure (.parentheses inner)
  | binary {lhs rhs : Tree} (op : Operator) (hlhs : IsPure lhs) (hrhs : IsPure rhs) :
      IsPure (.binary lhs op rhs)

variable {name : String} {e : Tree}

theorem substituteAll_eq_map (ts : List Tree) :
    substituteAll name e ts = ts.map (substitute name e) := by
  induction ts with
  | nil => rfl
  | cons t ts ih => rw [substituteAll, ih, List.map_cons]

theorem substitute_identifier_of_ne {n : Name} (h : n.text ≠ name) :
    substitute name e (.identifier n) = .identifier n := by
  rw [substitute, if_neg h]

theorem operands_substitute {t : Tree} (h : ∀ n, t = .identifier n → n.text ≠ name) :
    (substitute name e t).operands = t.operands.map (substitute name e) := by
  cases t with
  | identifier n =>
      rw [substitute_identifier_of_ne (h n rfl)]
      rfl
  | call callee args | program statements => exact substituteAll_eq_map _
  | declaration keyword n initial =>
      rw [substitute, operands, operands]
      split <;> rfl
  | _ => rfl

/-- A tree draws the same conclusion whatever its operands are. -/
theorem conclude_substitute {t : Tree} (h : ∀ n, t = .identifier n → n.text ≠ name)
    (values : List Value) : conclude (substitute name e t) values = conclude t values := by
  cases t with
  | identifier n => rw [substitute_identifier_of_ne (h n rfl)]
  | _ => rfl

end StraightLine.Tree
