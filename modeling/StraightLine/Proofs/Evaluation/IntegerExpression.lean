import Mathlib.Data.Int.ModEq
import StraightLine.Proofs.Evaluation.Operands

/-!
Integer expressions are computed modulo 2^64. Each sum, difference and product is wrapped, and that is
as good as computing with the integers themselves and wrapping once.
-/

namespace StraightLine

/-! ### Words as residues -/

namespace Word

/-- Wrapping picks the one word of each residue class. -/
theorem eq_wrap_iff {k n : Int} : k = wrap n ↔ InRange k ∧ k ≡ n [ZMOD 2 ^ 64] := by
  constructor
  · rintro rfl
    refine ⟨inRange_wrap n, ?_⟩
    rw [wrap_eq_bmod]
    exact Int.bmod_emod
  · rintro ⟨hrange, hcongr⟩
    have hshifted : (k - least) % 2 ^ 64 = (n - least) % 2 ^ 64 := hcongr.sub_right least
    calc k = wrap k := (wrap_of_inRange hrange).symm
      _ = wrap n := congrArg (· + least) hshifted

end Word

/-- The operation on integers of any size; the quotient is cut off toward zero. -/
def Glyph.exact (a b : Int) : Glyph → Int
  | .times => a * b
  | .over => a.tdiv b
  | .plus => a + b
  | .minus => a - b

/-- All operations but the quotient take residues to residues. -/
theorem Glyph.wrap_exact {g : Glyph} (h : g ≠ .over) (a b : Int) :
    Word.wrap (g.exact (Word.wrap a) (Word.wrap b)) = Word.wrap (g.exact a b) := by
  simp only [Word.wrap_eq_bmod]
  cases g with
  | times => exact (Int.mul_bmod a b _).symm
  | plus => exact (Int.add_bmod a b _).symm
  | minus => exact (Int.sub_bmod a b _).symm
  | _ => exact absurd rfl h

-- Half of what overflows is not half of the exact value.
example : Word.wrap (Glyph.over.exact (Word.wrap (Word.greatest + 1)) 2) = -2 ^ 62 ∧
    Word.wrap (Glyph.over.exact (Word.greatest + 1) 2) = 2 ^ 62 := by
  decide

theorem operate_integers {op : Operator} (h : op.glyph ≠ .over) (a b : Int) :
    operate op.name (.integer a) (.integer b) = .ok (.integer (Word.wrap (op.glyph.exact a b))) := by
  have hglyph : Glyph.ofText? op.name.text = some op.glyph := Glyph.ofText?_text op.glyph
  simp only [operate, Operands.of, hglyph]
  cases hg : op.glyph with
  | times | plus | minus => rfl
  | _ => exact absurd hg h

/-! ### Expressions -/

/-- The trees that stand for integers in a scope: literals that are read as words, variables that are
words, and what parentheses, sums, differences and products make of them. -/
inductive Tree.IsIntegral (scope : Scope) : Tree → Prop where
  | literal {text : String} {spot n : Int} (h : Literal.integer? text = some n)
      (hdigits : Literal.digitCount text ≤ Literal.digitLimit) (hn : Word.InRange n) :
      IsIntegral scope (.literal .integer text spot)
  | identifier {name : Name} {v : Variable} {n : Int} (h : scope.find? name.text = some v)
      (hv : v.value = .integer n) (hn : Word.InRange n) : IsIntegral scope (.identifier name)
  | parentheses {inner : Tree} (h : inner.IsIntegral scope) : IsIntegral scope (.parentheses inner)
  | binary {lhs rhs : Tree} {op : Operator} (hl : lhs.IsIntegral scope) (hop : op.glyph ≠ .over)
      (hr : rhs.IsIntegral scope) : IsIntegral scope (.binary lhs op rhs)

/-- The integer that a tree stands for, of any size; of trees that do not stand for integers, zero. -/
def Tree.exactValue (scope : Scope) : Tree → Int
  | .literal _ text _ => (Literal.integer? text).getD 0
  | .identifier n => match (scope.find? n.text).map Variable.value with
    | some (.integer k) => k
    | _ => 0
  | .parentheses inner => inner.exactValue scope
  | .binary lhs op rhs => op.glyph.exact (lhs.exactValue scope) (rhs.exactValue scope)
  | .name _ | .call .. | .declaration .. | .program _ | .phrase | .expression => 0

open Step

/-- **One wrap is enough.** By induction on the tree, each value on the way is the wrapped one of the
exact value. -/
theorem Tree.IsIntegral.evaluate_eq_yield {t : Tree} {scope : Scope} (h : t.IsIntegral scope) :
    evaluate t scope = yield (.integer (Word.wrap (t.exactValue scope))) scope := by
  induction h with
  | @literal text spot n h hdigits hn =>
      rw [evaluate, exactValue, h, Option.getD_some, Word.wrap_of_inRange hn]
      refine blaming_eq_yield ?_
      simp only [Literal.value, h, if_neg (Nat.not_lt.mpr hdigits), if_pos hn]
      rfl
  | @identifier name v n h hv hn =>
      have hexact : (Tree.identifier name).exactValue scope = n := by
        simp only [exactValue, h, Option.map_some, hv]
      rw [evaluate, hexact, Word.wrap_of_inRange hn, ← hv]
      exact blaming_eq_yield (valueNamed_eq_yield h)
  | parentheses _ ih =>
      rw [evaluate, exactValue]
      exact blaming_eq_yield ih
  | @binary lhs rhs op _ hop _ ihl ihr =>
      rw [evaluate, exactValue, ← Glyph.wrap_exact hop]
      refine blaming_eq_yield (andThen_eq_yield ihl (andThen_eq_yield ihr ?_))
      rw [operate_integers hop]
      rfl

/-- **Integers are computed modulo 2^64.** An expression of literals and variables that are words, with
parentheses, sums, differences and products, always has a value and no effect. The value is the one
word that is congruent modulo 2^64 to the exact integer, wherever operations overflow on the way. -/
theorem integers_computed_modulo {t : Tree} {scope : Scope} (h : t.IsIntegral scope) :
    ∃ k, evaluate t scope = ⟨.ok (.integer k), scope, ""⟩ ∧ Word.InRange k ∧
      k ≡ t.exactValue scope [ZMOD 2 ^ 64] ∧
        ∀ k', Word.InRange k' → k' ≡ t.exactValue scope [ZMOD 2 ^ 64] → k' = k := by
  obtain ⟨hrange, hcongr⟩ := Word.eq_wrap_iff.mp (Eq.refl (Word.wrap (t.exactValue scope)))
  refine ⟨_, h.evaluate_eq_yield, hrange, hcongr, fun k' hrange' hcongr' => ?_⟩
  exact Word.eq_wrap_iff.mpr ⟨hrange', hcongr'⟩

/-- The square of a variable, from which a difference is subtracted. -/
def Tree.wound : Tree :=
  .binary (.binary (.identifier ⟨"x", 1⟩) ⟨.times, 2⟩ (.identifier ⟨"x", 3⟩)) ⟨.minus, 4⟩
    (.parentheses (.binary (.literal .integer "3" 5) ⟨.minus, 6⟩ (.identifier ⟨"x", 7⟩)))

/-- The square of the greatest word overflows, and the value is that of the exact integers wrapped. -/
theorem integers_computed_modulo_wound :
    let scope : Scope := ⟨[⟨"x", .integer, .integer Word.greatest⟩], List.pairwise_singleton _ "x"⟩
    Tree.wound.IsIntegral scope ∧
      evaluate Tree.wound scope = ⟨.ok (.integer 9223372036854775805), scope, ""⟩ := by
  intro scope
  have hx (spot : Int) : (Tree.identifier ⟨"x", spot⟩).IsIntegral scope :=
    .identifier rfl rfl (by decide)
  have hthree : (Tree.literal .integer "3" 5).IsIntegral scope := .literal rfl (by decide) (by decide)
  have hwound : Tree.wound.IsIntegral scope :=
    .binary (.binary (hx 1) (by decide) (hx 3)) (by decide)
      (.parentheses (.binary hthree (by decide) (hx 7)))
  obtain ⟨k, hk, -, -, hunique⟩ := integers_computed_modulo hwound
  refine ⟨hwound, ?_⟩
  rw [hunique 9223372036854775805 (by decide) (by decide), hk]

end StraightLine
