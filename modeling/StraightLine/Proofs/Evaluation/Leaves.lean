import StraightLine.Evaluation.Evaluate

/-!
What literals and operations yield, and how they fail. They are where the values of a run come from:
integers that are words, texts and decimals, but never a variable.
-/

namespace StraightLine

/-- The values that a program may store and compute with: all but variables and the integers that
are no words. -/
def Value.IsPlain : Value → Prop
  | .unit | .text _ | .decimal _ => True
  | .integer n => Word.InRange n
  | .declared .. => False

/-- A failure that is an error of the language, of one of its kinds. -/
def Failure.IsError : Failure → Prop
  | .error e => ∃ kind, e.cause.kind? = some kind
  | .fault _ => False

theorem Failure.IsError.blame {failure : Failure} (h : failure.IsError) (t : Tree) :
    (failure.blame t).IsError := by
  cases failure with
  | error e => exact h
  | fault f => exact h

/-! ### Literals -/

theorem Literal.isPlain_of_value {kind : LiteralKind} {text : String} {v : Value}
    (h : Literal.value kind text = .ok v) : v.IsPlain := by
  cases kind with
  | text =>
      simp only [Literal.value] at h
      split at h <;> cases h
      trivial
  | integer =>
      simp only [Literal.value] at h
      split at h
      · split at h
        · cases h
        · split at h <;> cases h
          assumption
      · cases h
  | decimal =>
      simp only [Literal.value] at h
      split at h <;> cases h
      trivial
  | other label => cases h

/-- What is wrong with a literal that is not for the language to tell: it is of a fourth kind, or it is
an integer of too many digits. -/
def Literal.fault? (kind : LiteralKind) (written : String) : Option Fault :=
  match kind with
  | .other label => some (.unknownLiteral label)
  | .integer =>
    if (integer? written).isSome ∧ digitLimit < digitCount written then
      some (.tooManyDigits (digitCount written))
    else none
  | .text | .decimal => none

theorem Literal.exists_of_fault? {kind : LiteralKind} {written : String} {f : Fault}
    (h : fault? kind written = some f) :
    (∃ label, kind = .other label ∧ f = .unknownLiteral label) ∨
      kind = .integer ∧ (integer? written).isSome ∧ digitLimit < digitCount written ∧
        f = .tooManyDigits (digitCount written) := by
  cases kind with
  | text | decimal => cases h
  | other label =>
      cases h
      exact Or.inl ⟨label, rfl, rfl⟩
  | integer =>
      rw [fault?] at h
      split at h
      · rename_i hlimit
        cases h
        exact Or.inr ⟨rfl, hlimit.1, hlimit.2, rfl⟩
      · cases h

/-- A literal without a value is at fault, or it is malformed, and nobody is blamed for that yet. -/
theorem Literal.failure_of_value {kind : LiteralKind} {text : String} {failure : Failure}
    (h : Literal.value kind text = .error failure) :
    (∃ f, failure = .fault f ∧ fault? kind text = some f) ∨
      ∃ cause, failure = .ofCause cause ∧ cause.kind? = some .malformedLiteral := by
  cases kind with
  | text =>
      simp only [Literal.value] at h
      split at h <;> cases h
      exact Or.inr ⟨_, rfl, rfl⟩
  | integer =>
      simp only [Literal.value] at h
      split at h
      · rename_i n hn
        split at h
        · rename_i hlimit
          cases h
          refine Or.inl ⟨_, rfl, ?_⟩
          rw [fault?, hn, if_pos ⟨rfl, hlimit⟩]
        · split at h <;> cases h
          exact Or.inr ⟨_, rfl, rfl⟩
      · cases h
        exact Or.inr ⟨_, rfl, rfl⟩
  | decimal =>
      simp only [Literal.value] at h
      split at h <;> cases h
      exact Or.inr ⟨_, rfl, rfl⟩
  | other label =>
      cases h
      exact Or.inl ⟨_, rfl, rfl⟩

/-- A literal that has a value has it in every scope, and without effects. -/
theorem evaluate_literal_of_ok {kind : LiteralKind} {written : String} {v : Value}
    (h : Literal.value kind written = .ok v) (spot : Int) (scope : Scope) :
    evaluate (.literal kind written spot) scope = ⟨.ok v, scope, ""⟩ := by
  rw [evaluate, h]
  rfl

/-- Nobody is to blame for a literal that cannot be read. -/
theorem evaluate_literal_of_fault {kind : LiteralKind} {written : String} {f : Fault}
    (h : Literal.value kind written = .error (.fault f)) (spot : Int) (scope : Scope) :
    evaluate (.literal kind written spot) scope = ⟨.error (.fault f), scope, ""⟩ := by
  rw [evaluate, h]
  rfl

/-- A literal without a value is to blame for that itself. -/
theorem evaluate_literal_of_cause {kind : LiteralKind} {written : String} {cause : Cause}
    (h : Literal.value kind written = .error (.ofCause cause)) (spot : Int) (scope : Scope) :
    evaluate (.literal kind written spot) scope =
      ⟨.error (.error ⟨cause, some (.literal kind written spot)⟩), scope, ""⟩ := by
  rw [evaluate, h]
  rfl

/-! ### Operations -/

theorem inRange_of_onIntegers? {g : Glyph} {a b n : Int} (h : g.onIntegers? a b = some n) :
    Word.InRange n := by
  cases g with
  | times | plus | minus =>
      cases h
      exact Word.inRange_wrap _
  | _ =>
      rw [Glyph.onIntegers?] at h
      split at h <;> cases h
      exact Word.inRange_wrap _

/-- Only a quotient by zero is missing. -/
theorem eq_over_of_onIntegers? {g : Glyph} {a b : Int} (h : g.onIntegers? a b = none) :
    g = .over ∧ b = 0 := by
  cases g with
  | times | plus | minus => cases h
  | _ =>
      rw [Glyph.onIntegers?] at h
      split at h
      · exact ⟨rfl, by assumption⟩
      · cases h

theorem isPlain_of_operate {op : Name} {a b v : Value} (h : operate op a b = .ok v) :
    v.IsPlain := by
  unfold operate at h
  split at h
  · cases h
    trivial
  · cases h
  · cases h
  · split at h <;> cases h
    rename_i hn
    exact inRange_of_onIntegers? hn
  · cases h
    trivial
  · cases h
  · cases h

theorem Operands.of_eq_texts {a b : Value} {s t : String} (h : Operands.of a b = .texts s t) :
    a.kind? = some .text ∨ b.kind? = some .text := by
  cases a <;> cases b <;> simp [Operands.of, Value.kind?] at h ⊢

theorem Operands.of_eq_unrelated {a b : Value} (h : Operands.of a b = .unrelated) :
    a.kind? ≠ some .text ∧ b.kind? ≠ some .text ∧ (a.kind? = none ∨ b.kind? = none) := by
  cases a <;> cases b <;> simp [Operands.of, Value.kind?] at h ⊢

theorem Operands.of_eq_integers {a b : Value} {m n : Int} (h : Operands.of a b = .integers m n) :
    a = .integer m ∧ b = .integer n := by
  cases a <;> cases b <;> simp [Operands.of] at h ⊢
  exact h

/-- An operator is always found. What fails is the joining of texts by another operator than a plus
sign or an operation of values of no kind, and the operator is to blame for either; or it is a quotient
by zero, for which nobody is as yet. -/
theorem failure_of_operate {op : Operator} {a b : Value} {failure : Failure}
    (h : operate op.name a b = .error failure) :
    (op.glyph ≠ .plus ∧ (a.kind? = some .text ∨ b.kind? = some .text) ∧
        failure = .error ⟨.notOnText op.glyph.text, some (.name op.name)⟩) ∨
      ((a.kind? ≠ some .text ∧ b.kind? ≠ some .text ∧ (a.kind? = none ∨ b.kind? = none)) ∧
        failure = .error ⟨.notOnKinds op.glyph.text, some (.name op.name)⟩) ∨
        (op.glyph = .over ∧ (∃ n, a = .integer n) ∧ b = .integer 0 ∧
          failure = .ofCause .divisionByZero) := by
  have hfound : Glyph.ofText? op.name.text = some op.glyph := Glyph.ofText?_text op.glyph
  unfold operate at h
  split at h
  · cases h
  · rename_i hoperands hplus
    cases h
    refine Or.inl ⟨fun heq => ?_, Operands.of_eq_texts hoperands, rfl⟩
    exact hplus (hfound.trans (congrArg some heq))
  · rename_i hoperands
    cases h
    exact Or.inr (Or.inl ⟨Operands.of_eq_unrelated hoperands, rfl⟩)
  · rename_i glyph hoperands hglyph
    split at h <;> cases h
    rename_i hn
    rw [hfound] at hglyph
    cases hglyph
    obtain ⟨hover, rfl⟩ := eq_over_of_onIntegers? hn
    obtain ⟨rfl, rfl⟩ := Operands.of_eq_integers hoperands
    exact Or.inr (Or.inr ⟨hover, ⟨_, rfl⟩, rfl, rfl⟩)
  · cases h
  · rename_i hnone
    rw [hfound] at hnone
    cases hnone
  · rename_i hnone
    rw [hfound] at hnone
    cases hnone

end StraightLine
