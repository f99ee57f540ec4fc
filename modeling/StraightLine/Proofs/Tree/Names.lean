import StraightLine.Proofs.Evaluation.Operands

/-!
The names that a tree declares, in the order in which a run without failures declares them, and the
names that it mentions at all.
-/

namespace StraightLine.Tree

mutual

/-- The names of the declarations in a tree, one inside the initial tree of another before it. -/
def declaredNames : Tree → List String
  | .parentheses inner => inner.declaredNames
  | .binary lhs _ rhs => lhs.declaredNames ++ rhs.declaredNames
  | .call _ args => declaredNamesOfAll args
  | .declaration _ n initial => initial.declaredNames ++ [n.text]
  | .program statements => declaredNamesOfAll statements
  | .name _ | .literal .. | .identifier _ | .phrase | .expression => []

def declaredNamesOfAll : List Tree → List String
  | [] => []
  | t :: ts => t.declaredNames ++ declaredNamesOfAll ts

end

theorem declaredNames_of_not_isDeclaration {t : Tree} (h : ¬t.IsDeclaration) :
    t.declaredNames = declaredNamesOfAll t.operands := by
  cases t with
  | declaration keyword n initial => exact absurd ⟨keyword, n, initial, rfl⟩ h
  | _ => simp [declaredNames, declaredNamesOfAll, operands]

/-- A declaration of a known kind declares its own name behind those of its initial tree. -/
theorem declaredNames_declaration {keyword n : Name} {initial : Tree}
    (h : Kind.ofKeyword? keyword.text ≠ none) :
    (Tree.declaration keyword n initial).declaredNames =
      declaredNamesOfAll (Tree.declaration keyword n initial).operands ++ [n.text] := by
  rw [declaredNames, operands, if_pos (Option.isSome_iff_ne_none.mpr h)]
  simp [declaredNamesOfAll]

theorem declaredNamesOfAll_operands_prefix (t : Tree) :
    declaredNamesOfAll t.operands <+: t.declaredNames := by
  cases t with
  | declaration keyword n initial =>
      rw [operands]
      split
      · simp [declaredNames, declaredNamesOfAll]
      · exact List.nil_prefix
  | _ => simp [declaredNames, declaredNamesOfAll, operands]

theorem mem_declaredNamesOfAll {a : Tree} {ts : List Tree} (ha : a ∈ ts) {name : String}
    (h : name ∈ a.declaredNames) : name ∈ declaredNamesOfAll ts := by
  induction ts with
  | nil => cases ha
  | cons t ts ih =>
      rw [declaredNamesOfAll, List.mem_append]
      rcases List.mem_cons.mp ha with rfl | ha
      · exact Or.inl h
      · exact Or.inr (ih ha)

theorem mem_declaredNames_of_operand {a t : Tree} (ha : a ∈ t.operands) {name : String}
    (h : name ∈ a.declaredNames) : name ∈ t.declaredNames :=
  t.declaredNamesOfAll_operands_prefix.subset (mem_declaredNamesOfAll ha h)

/-! ### Mentioned names -/

mutual

/-- The names of the identifiers and of the declarations in a tree. -/
def mentionedNames : Tree → List String
  | .identifier n => [n.text]
  | .parentheses inner => inner.mentionedNames
  | .binary lhs _ rhs => lhs.mentionedNames ++ rhs.mentionedNames
  | .call _ args => mentionedNamesOfAll args
  | .declaration _ n initial => n.text :: initial.mentionedNames
  | .program statements => mentionedNamesOfAll statements
  | .name _ | .literal .. | .phrase | .expression => []

def mentionedNamesOfAll : List Tree → List String
  | [] => []
  | t :: ts => t.mentionedNames ++ mentionedNamesOfAll ts

end

theorem mem_mentionedNamesOfAll {ts : List Tree} {name : String} :
    name ∈ mentionedNamesOfAll ts ↔ ∃ t ∈ ts, name ∈ t.mentionedNames := by
  induction ts with
  | nil => simp [mentionedNamesOfAll]
  | cons t ts ih => simp [mentionedNamesOfAll, ih]

theorem mentionedNames_subset_of_operand {a t : Tree} (ha : a ∈ t.operands) :
    a.mentionedNames ⊆ t.mentionedNames := by
  intro name h
  cases t with
  | parentheses inner =>
      rw [List.mem_singleton.mp ha] at h
      exact h
  | binary lhs op rhs =>
      simp only [operands, List.mem_cons, List.not_mem_nil, or_false] at ha
      rw [mentionedNames, List.mem_append]
      rcases ha with rfl | rfl
      · exact Or.inl h
      · exact Or.inr h
  | call callee args => exact mem_mentionedNamesOfAll.mpr ⟨a, ha, h⟩
  | declaration keyword n initial =>
      rw [mem_operands_declaration ha] at h
      exact List.mem_cons_of_mem _ h
  | program statements => exact mem_mentionedNamesOfAll.mpr ⟨a, ha, h⟩
  | name | literal | identifier | phrase | expression => cases ha

end StraightLine.Tree
