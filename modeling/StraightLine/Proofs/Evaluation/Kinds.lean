import StraightLine.Proofs.Evaluation.Comparison

/-!
Control by kinds. What a run does depends on the kinds of the values it meets, never on the values
themselves, but for the divisor of a quotient of integers.
-/

namespace StraightLine

/-- The declared names with the kinds of their values, in the order of their declaration. -/
def Scope.shape (scope : Scope) : List (String × Option Kind) :=
  scope.toList.map fun v => (v.name, v.value.kind?)

/-- Two runs whose scopes and values are of the same kinds, up to a division by zero in one of them.
What they write is not compared. -/
def Comparison.byKind : Comparison where
  scopes scope scope' := scope.shape = scope'.shape
  values v v' := v.kind? = v'.kind?
  failures := Eq
  sameOutput := False
  exempt cause := cause = .divisionByZero

namespace Comparison

theorem byKind_exempt {result : Except Failure Value}
    (h : result = .error (.ofCause .divisionByZero)) : byKind.Exempt result :=
  ⟨_, h, rfl⟩

end Comparison

/-! ### Operations -/

/-- The kind that two operands are brought to. -/
def Kind.common? : Option Kind → Option Kind → Option Kind
  | some .text, _ | _, some .text => some .text
  | some .integer, some .integer => some .integer
  | some _, some _ => some .decimal
  | _, _ => none

def Operands.kind? : Operands → Option Kind
  | .texts .. => some .text
  | .integers .. => some .integer
  | .decimals .. => some .decimal
  | .unrelated => none

theorem Operands.kind?_of (a b : Value) :
    (Operands.of a b).kind? = Kind.common? a.kind? b.kind? := by
  cases a <;> cases b <;> rfl

open Comparison in
/-- The kind of an operation's value, or its failure, follows from the common kind of its operands,
unless it divides by zero. -/
theorem operate_alike (op : Operator) {a a' b b' : Value}
    (h : (Operands.of a b).kind? = (Operands.of a' b').kind?) :
    byKind.Exempt (operate op.name a b) ∨ byKind.Exempt (operate op.name a' b') ∨
      byKind.Results byKind.values (operate op.name a b) (operate op.name a' b') := by
  have hglyph : Glyph.ofText? op.name.text = some op.glyph := Glyph.ofText?_text op.glyph
  unfold operate
  rw [hglyph]
  generalize Operands.of a b = operands at h ⊢
  generalize Operands.of a' b' = operands' at h ⊢
  cases operands with
  | texts a b =>
      cases operands' with
      | texts a' b' =>
          refine Or.inr (Or.inr ?_)
          cases op.glyph with
          | plus => exact .ok rfl
          | _ => exact .error rfl
      | _ => cases h
  | integers m n =>
      cases operands' with
      | integers m' n' =>
          cases hn : op.glyph.onIntegers? m n with
          | none => exact Or.inl (byKind_exempt (by simp only [hn]))
          | some k =>
              cases hn' : op.glyph.onIntegers? m' n' with
              | none => exact Or.inr (Or.inl (byKind_exempt (by simp only [hn'])))
              | some k' =>
                  simp only [hn, hn']
                  exact Or.inr (Or.inr (.ok rfl))
      | _ => cases h
  | decimals x y =>
      cases operands' with
      | decimals x' y' => exact Or.inr (Or.inr (.ok rfl))
      | _ => cases h
  | unrelated =>
      cases operands' with
      | unrelated => exact Or.inr (Or.inr (.error rfl))
      | _ => cases h

/-! ### Runs -/

namespace Comparison

theorem byKind_lawful : byKind.Lawful where
  values_refl _ := rfl
  values_declared _ _ _ := rfl
  values_eq hsame := hsame.elim
  failures_refl _ _ := rfl
  failures_blame n h := congrArg (Failure.blame · (.name n)) h
  operate op a a' b b' ha hb := by
    refine operate_alike op ?_
    rw [Operands.kind?_of, Operands.kind?_of, ha, hb]

theorem byKind_evaluate (t : Tree) : byKind.Steps byKind.values (evaluate t) (evaluate t) := by
  induction t using Tree.operands_induction with
  | h t ih =>
      refine steps_evaluate (List.forall₂_same.mpr ih) (fun values values' hvalues => ?_) ?_
      · exact steps_conclude byKind_lawful (fun n _ _ _ hscope => rel_find?_of_view hscope n.text)
          (fun _ n _ _ type _ _ hv _ _ hscope => rel_declare?_of_view hscope n.text type type hv)
          hvalues
      · rintro failure _ rfl
        rfl

end Comparison

/-- **Kinds alone decide.** Two runs of a tree from scopes with the same names and kinds both succeed,
with values of one kind, or both fail in the same way, and leave scopes with the same names and kinds
again, unless one of them divides by zero. -/
theorem evaluate_of_shape_eq {scope scope' : Scope} (h : scope.shape = scope'.shape) (t : Tree) :
    let first := evaluate t scope
    let second := evaluate t scope'
    (∃ guilty, first.result = .error (.error ⟨.divisionByZero, guilty⟩)) ∨
      (∃ guilty, second.result = .error (.error ⟨.divisionByZero, guilty⟩)) ∨
        (first.scope.shape = second.scope.shape ∧
          match first.result, second.result with
          | .ok value, .ok value' => value.kind? = value'.kind?
          | .error failure, .error failure' => failure = failure'
          | _, _ => False) := by
  intro first second
  rcases Comparison.byKind_evaluate t scope scope' h with
    ⟨⟨_, guilty⟩, he, rfl⟩ | ⟨⟨_, guilty⟩, he, rfl⟩ | ⟨hresults, hshape, -⟩
  · exact Or.inl ⟨guilty, he⟩
  · exact Or.inr (Or.inl ⟨guilty, he⟩)
  · refine Or.inr (Or.inr ⟨hshape, ?_⟩)
    change Comparison.byKind.Results _ first.result second.result at hresults
    generalize first.result = result at hresults ⊢
    generalize second.result = result' at hresults ⊢
    cases hresults with
    | ok hkind => exact hkind
    | error hfailure => exact hfailure

/-- A scope whose only variable is an integer. -/
def Scope.ofInteger (name : String) (type : Kind) (n : Int) : Scope :=
  ⟨[⟨name, type, .integer n⟩], List.pairwise_singleton _ name⟩

/-- The double of a variable, from which a text is subtracted. -/
def Tree.doubled : Tree :=
  .program [.declaration ⟨"int", 1⟩ ⟨"y", 2⟩
      (.binary (.identifier ⟨"x", 3⟩) ⟨.times, 4⟩ (.literal .integer "2" 5)),
    .binary (.identifier ⟨"y", 6⟩) ⟨.minus, 7⟩ (.literal .text "'a'" 8)]

/-- Three and zero end alike, declared as whatever kind. -/
theorem evaluate_of_shape_eq_doubled :
    (Scope.ofInteger "x" .integer 3).shape = (Scope.ofInteger "x" .text 0).shape ∧
      (evaluate Tree.doubled (.ofInteger "x" .integer 3)).result =
        .error (.error ⟨.notOnText "-", some (.name ⟨"-", 7⟩)⟩) ∧
      (evaluate Tree.doubled (.ofInteger "x" .text 0)).result =
        .error (.error ⟨.notOnText "-", some (.name ⟨"-", 7⟩)⟩) ∧
      (evaluate Tree.doubled (.ofInteger "x" .integer 3)).scope.shape =
        (evaluate Tree.doubled (.ofInteger "x" .text 0)).scope.shape := by
  have hshape : (Scope.ofInteger "x" .integer 3).shape = (Scope.ofInteger "x" .text 0).shape := rfl
  have hfirst : (evaluate Tree.doubled (.ofInteger "x" .integer 3)).result =
      .error (.error ⟨.notOnText "-", some (.name ⟨"-", 7⟩)⟩) := rfl
  have hsecond : (evaluate Tree.doubled (.ofInteger "x" .text 0)).result =
      .error (.error ⟨.notOnText "-", some (.name ⟨"-", 7⟩)⟩) := rfl
  refine ⟨hshape, hfirst, hsecond, ?_⟩
  rcases evaluate_of_shape_eq hshape Tree.doubled with ⟨_, h⟩ | ⟨_, h⟩ | ⟨h, -⟩
  · rw [hfirst] at h
    cases h
  · rw [hsecond] at h
    cases h
  · exact h

end StraightLine
