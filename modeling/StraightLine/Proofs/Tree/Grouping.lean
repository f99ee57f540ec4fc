import StraightLine.Proofs.Evaluation.Operands

/-!
Trees without their parentheses. Taking the parentheses away leaves the spans of trees as they are,
and with the spots changed as well there remains what an evaluation looks at.
-/

namespace StraightLine

def Name.moved (move : Int → Int) (n : Name) : Name :=
  ⟨n.text, move n.spot⟩

def Operator.moved (move : Int → Int) (op : Operator) : Operator :=
  ⟨op.glyph, move op.spot⟩

namespace Tree

mutual

/-- The tree without its parentheses, and with every spot moved. -/
def stripped (move : Int → Int) : Tree → Tree
  | .name n => .name (n.moved move)
  | .literal kind text spot => .literal kind text (move spot)
  | .identifier n => .identifier (n.moved move)
  | .parentheses inner => inner.stripped move
  | .binary lhs op rhs => .binary (lhs.stripped move) (op.moved move) (rhs.stripped move)
  | .call callee args => .call (callee.moved move) (strippedAll move args)
  | .declaration keyword n initial =>
    .declaration (keyword.moved move) (n.moved move) (initial.stripped move)
  | .program statements => .program (strippedAll move statements)
  | .phrase => .phrase
  | .expression => .expression

def strippedAll (move : Int → Int) : List Tree → List Tree
  | [] => []
  | t :: ts => t.stripped move :: strippedAll move ts

end

/-- The tree without its parentheses. -/
def ungrouped (t : Tree) : Tree :=
  t.stripped id

/-- The tree without its parentheses and without its spots. -/
def bare (t : Tree) : Tree :=
  t.stripped fun _ => 0

theorem strippedAll_eq_map (move : Int → Int) (ts : List Tree) :
    strippedAll move ts = ts.map (stripped move) := by
  induction ts with
  | nil => rfl
  | cons t ts ih => rw [strippedAll, ih, List.map_cons]

theorem operands_stripped (move : Int → Int) {t : Tree} (h : ∀ inner, t ≠ .parentheses inner) :
    (t.stripped move).operands = t.operands.map (stripped move) := by
  cases t with
  | parentheses inner => exact absurd rfl (h inner)
  | call callee args | program statements => exact strippedAll_eq_map move _
  | declaration keyword n initial =>
      rw [stripped, operands, operands, Name.moved]
      split <;> rfl
  | _ => rfl

/-! ### Spans -/

theorem firstSpot_ungrouped (t : Tree) : t.ungrouped.firstSpot = t.firstSpot := by
  unfold ungrouped
  induction t with
  | name n | literal kind text spot | identifier n | call callee args _ => rfl
  | declaration keyword n initial _ | phrase | expression => rfl
  | parentheses inner ih => rw [stripped, ih, firstSpot]
  | binary lhs op rhs ihl _ => rw [stripped, firstSpot, ihl, firstSpot]
  | program statements ih =>
      cases statements with
      | nil => rfl
      | cons first rest =>
          rw [stripped, strippedAll, firstSpot, ih first List.mem_cons_self, firstSpot]

theorem lastSpotOfLast_strippedAll {ts : List Tree}
    (h : ∀ t ∈ ts, (t.stripped id).lastSpot = t.lastSpot) (spot : Int) :
    lastSpotOfLast spot (strippedAll id ts) = lastSpotOfLast spot ts := by
  rw [lastSpotOfLast_eq, lastSpotOfLast_eq, strippedAll_eq_map, List.getLast?_map]
  cases hlast : ts.getLast? with
  | none => rfl
  | some t => exact h t (List.mem_of_getLast? hlast)

theorem lastSpot_ungrouped (t : Tree) : t.ungrouped.lastSpot = t.lastSpot := by
  unfold ungrouped
  induction t with
  | name n | literal kind text spot | identifier n | phrase | expression => rfl
  | parentheses inner ih => rw [stripped, ih, lastSpot]
  | binary lhs op rhs _ ihr => rw [stripped, lastSpot, ihr, lastSpot]
  | call callee args ih =>
      rw [stripped, lastSpot, lastSpotOfLast_strippedAll ih, lastSpot]
      rfl
  | declaration keyword n initial ih => rw [stripped, lastSpot, ih, lastSpot]
  | program statements ih => rw [stripped, lastSpot, lastSpotOfLast_strippedAll ih, lastSpot]

theorem spots_eq_of_ungrouped_eq {s t : Tree} (h : s.ungrouped = t.ungrouped) :
    s.firstSpot = t.firstSpot ∧ s.lastSpot = t.lastSpot := by
  constructor
  · rw [← s.firstSpot_ungrouped, h, t.firstSpot_ungrouped]
  · rw [← s.lastSpot_ungrouped, h, t.lastSpot_ungrouped]

end Tree

end StraightLine
