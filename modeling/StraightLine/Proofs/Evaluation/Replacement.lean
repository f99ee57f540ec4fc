import StraightLine.Proofs.Evaluation.Comparison

/-!
Trees that evaluate alike may take each other's place, at any depth. What is around them evaluates as
before; only where it is to blame itself, it is blamed with the other tree inside.
-/

namespace StraightLine

open Step

/-! ### Contexts -/

/-- A tree but for one of the trees below it that it may evaluate. -/
inductive Frame where
  | parentheses
  | left (op : Operator) (rhs : Tree)
  | right (lhs : Tree) (op : Operator)
  | argument (callee : Name) (before after : List Tree)
  | initial (keyword name : Name)
  | statement (before after : List Tree)

namespace Frame

def fill : Frame → Tree → Tree
  | .parentheses, t => .parentheses t
  | .left op rhs, t => .binary t op rhs
  | .right lhs op, t => .binary lhs op t
  | .argument callee before after, t => .call callee (before ++ t :: after)
  | .initial keyword name, t => .declaration keyword name t
  | .statement before after, t => .program (before ++ t :: after)

/-- A tree inside frames, the outermost first. -/
def fillAll (context : List Frame) (t : Tree) : Tree :=
  context.foldr fill t

/-- That the tree that is left out is a statement of a program. -/
def IsStatement (f : Frame) : Prop :=
  ∃ before after, f = .statement before after

/-- The operands of a frame are its own, and what it is filled with. -/
theorem forall₂_operands_fill {R : Tree → Tree → Prop} (hrefl : ∀ t, R t t) {t u : Tree}
    (h : R t u) (f : Frame) : List.Forall₂ R (f.fill t).operands (f.fill u).operands := by
  have hself : ∀ ts, List.Forall₂ R ts ts := fun ts => List.forall₂_same.mpr fun t _ => hrefl t
  cases f with
  | parentheses => exact .cons h .nil
  | left op rhs => exact .cons h (hself [rhs])
  | right lhs op => exact .cons (hrefl lhs) (.cons h .nil)
  | argument callee before after => exact List.rel_append (hself before) (.cons h (hself after))
  | initial keyword name =>
      rw [fill, fill, Tree.operands, Tree.operands]
      split
      · exact .cons h .nil
      · exact .nil
  | statement before after => exact List.rel_append (hself before) (.cons h (hself after))

/-- A frame draws the same conclusion whatever it is filled with. -/
theorem conclude_fill (f : Frame) (t u : Tree) : conclude (f.fill t) = conclude (f.fill u) := by
  cases f <;> rfl

end Frame

/-! ### Replacement -/

/-- That two failures are the same, or that they differ only in blaming one tree of the context, the
one with `t` inside it and the other with `u`. -/
def Failure.DiffersAt (context : List Frame) (t u : Tree) (failure failure' : Failure) : Prop :=
  failure = failure' ∨ ∃ cause f inside, f :: inside <:+ context ∧
    failure = .error ⟨cause, some (Frame.fillAll (f :: inside) t)⟩ ∧
      failure' = .error ⟨cause, some (Frame.fillAll (f :: inside) u)⟩

theorem Failure.DiffersAt.blame {context inside : List Frame} {f : Frame} {t u : Tree}
    {failure failure' : Failure} (h : failure.DiffersAt context t u failure')
    (hinside : f :: inside <:+ context) :
    (failure.blame (Frame.fillAll (f :: inside) t)).DiffersAt context t u
      (failure'.blame (Frame.fillAll (f :: inside) u)) := by
  rcases h with rfl | ⟨cause, g, within, hwithin, rfl, rfl⟩
  · rcases failure with ⟨cause, guilty⟩ | fault
    · cases guilty with
      | none => exact Or.inr ⟨cause, f, inside, hinside, rfl, rfl⟩
      | some g => exact Or.inl rfl
    · exact Or.inl rfl
  · exact Or.inr ⟨cause, g, within, hwithin, rfl, rfl⟩

/-- Two runs from one scope, of trees that have different parts in one place. -/
def Comparison.replacing (context : List Frame) (t u : Tree) : Comparison where
  scopes := Eq
  values := Eq
  failures := Failure.DiffersAt context t u

namespace Comparison

variable {context : List Frame} {t u : Tree}

theorem replacing_self {α : Type} (s : Step α) : (replacing context t u).Steps Eq s s := by
  rintro scope _ rfl
  refine Or.inr (Or.inr ⟨?_, rfl, fun _ => rfl⟩)
  cases (s scope).result with
  | ok a => exact .ok rfl
  | error failure => exact .error (Or.inl rfl)

/-- **Evaluation is a congruence.** A tree in place of another that evaluates alike makes no
difference but in the trees to blame. -/
theorem replacing_evaluate (h : evaluate t = evaluate u) {inside : List Frame}
    (hinside : inside <:+ context) :
    (replacing context t u).Steps Eq (evaluate (Frame.fillAll inside t))
      (evaluate (Frame.fillAll inside u)) := by
  induction inside with
  | nil =>
      show (replacing context t u).Steps Eq (evaluate t) (evaluate u)
      rw [h]
      exact replacing_self _
  | cons f inside ih =>
      have hparts := ih ((List.suffix_cons f inside).trans hinside)
      refine steps_evaluate ?_ (fun values values' hvalues => ?_)
        fun _ _ hfailure => hfailure.blame hinside
      · exact Frame.forall₂_operands_fill (fun a => replacing_self (evaluate a)) hparts f
      · have hequal : List.Forall₂ Eq values values' := hvalues
        rw [List.forall₂_eq_eq_eq] at hequal
        have hsame := f.conclude_fill (Frame.fillAll inside t) (Frame.fillAll inside u)
        show (replacing context t u).Steps Eq (conclude (f.fill (Frame.fillAll inside t)) values)
          (conclude (f.fill (Frame.fillAll inside u)) values')
        rw [hequal, hsame]
        exact replacing_self _

end Comparison

end StraightLine
