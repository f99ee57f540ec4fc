import Mathlib.Algebra.Group.Int.Defs
import StraightLine.Proofs.Evaluation.Culprit
import StraightLine.Proofs.Evaluation.Faults
import StraightLine.Proofs.Evaluation.IntegerLiteral

/-!
Soundness of well-formed programs: in a scope of plain values they end with a value or with an error
of the language, and either way leave a scope of plain values. The one fault that they can meet is a
literal of too many digits.
-/

namespace StraightLine

/-! ### Scopes of plain values -/

/-- A scope that holds no integers but words, and no variable as the value of another. -/
def Scope.IsPlain (scope : Scope) : Prop :=
  ∀ v ∈ scope.toList, v.value.IsPlain

theorem Scope.IsPlain.find? {scope : Scope} (h : scope.IsPlain) {name : String} {v : Variable}
    (hv : scope.find? name = some v) : v.value.IsPlain :=
  h v (List.mem_of_find?_eq_some hv)

theorem Scope.IsPlain.declare? {scope later : Scope} (h : scope.IsPlain) {v : Variable}
    (hv : v.value.IsPlain) (hlater : scope.declare? v = some later) : later.IsPlain := by
  intro w hw
  rw [toList_of_declare? hlater, List.mem_append, List.mem_singleton] at hw
  rcases hw with hw | rfl
  · exact h w hw
  · exact hv

/-! ### Well-formed programs -/

namespace Tree

/-- Trees that stand for values: built from literals of the three kinds, whatever their text, and
from identifiers, by parentheses, operators and calls. -/
inductive IsExpression : Tree → Prop where
  | literal {kind : LiteralKind} (hkind : ∀ label, kind ≠ .other label) (text : String)
      (spot : Int) : IsExpression (.literal kind text spot)
  | identifier (n : Name) : IsExpression (.identifier n)
  | parentheses {inner : Tree} (hinner : IsExpression inner) : IsExpression (.parentheses inner)
  | binary {lhs rhs : Tree} (op : Operator) (hlhs : IsExpression lhs) (hrhs : IsExpression rhs) :
      IsExpression (.binary lhs op rhs)
  | call (callee : Name) {args : List Tree} (hargs : ∀ a ∈ args, IsExpression a) :
      IsExpression (.call callee args)

/-- Expressions, and declarations of a known kind whose initial value is an expression. -/
inductive IsStatement : Tree → Prop where
  | expression {t : Tree} (h : IsExpression t) : IsStatement t
  | declaration {keyword : Name} {kind : Kind} (hkeyword : keyword.text = kind.keyword) (n : Name)
      {initial : Tree} (hinitial : IsExpression initial) :
      IsStatement (.declaration keyword n initial)

end Tree

/-- What a statement yields: a plain value, or the variable it declared, which is then the last one of
the scope. -/
def Yields (t : Tree) (value : Value) (scope : Scope) : Prop :=
  value.IsPlain ∨ ∃ keyword n initial v, t = .declaration keyword n initial ∧
    scope.toList.getLast? = some v ∧ v.name = n.text ∧ v.type.keyword = keyword.text ∧
      value = v.asValue

open Outcome

/-- Expressions keep the scope plain on either exit; the induction is on how they are built. -/
theorem meets_of_isExpression {t : Tree} (ht : t.IsExpression) {scope : Scope}
    (hscope : scope.IsPlain) :
    (evaluate t scope).Meets (fun value later => value.IsPlain ∧ later.IsPlain)
      fun _ later => later.IsPlain := by
  induction ht generalizing scope with
  | literal hkind text spot =>
      rw [meets_literal]
      exact ⟨fun value hvalue => ⟨Literal.isPlain_of_value hvalue, hscope⟩, fun _ _ => hscope⟩
  | identifier n =>
      rw [meets_identifier]
      exact ⟨fun v hv => ⟨hscope.find? hv, hscope⟩, fun _ => hscope⟩
  | parentheses _ ih =>
      rw [meets_parentheses]
      exact ih hscope
  | binary op _ _ ihl ihr =>
      rw [meets_binary]
      refine (ihl hscope).mono ?_ fun _ _ hlater => hlater
      rintro a middle ⟨-, hmiddle⟩
      refine (ihr hmiddle).mono ?_ fun _ _ hlater => hlater
      rintro b later ⟨-, hlater⟩
      exact ⟨fun value hvalue => ⟨isPlain_of_operate hvalue, hlater⟩, fun _ _ => hlater⟩
  | call callee _ ih =>
      rw [meets_call]
      have hargs := meets_evaluateAll Scope.IsPlain
        (fun _ value later => value.IsPlain ∧ later.IsPlain)
        (fun a ha _ hknown => ih a ha hknown) (fun _ _ _ hpost => hpost.2) scope hscope
      refine hargs.mono ?_ fun _ _ hlater => hlater
      rintro _ later ⟨hlater, -⟩
      exact ⟨fun _ => ⟨trivial, hlater⟩, fun _ => hlater⟩

theorem meets_of_isStatement {t : Tree} (ht : t.IsStatement) {scope : Scope}
    (hscope : scope.IsPlain) :
    (evaluate t scope).Meets (fun value later => Yields t value later ∧ later.IsPlain)
      fun _ later => later.IsPlain := by
  cases ht with
  | expression ht =>
      exact (meets_of_isExpression ht hscope).mono (fun _ _ h => ⟨Or.inl h.1, h.2⟩) fun _ _ h => h
  | @declaration keyword kind hkeyword n initial hinitial =>
      have hkind : Kind.ofKeyword? keyword.text = some kind := Kind.ofKeyword?_eq_some_iff.mpr hkeyword
      rw [meets_declaration, hkind]
      constructor
      · intro hnone
        cases hnone
      · rintro type ⟨⟩
        refine (meets_of_isExpression hinitial hscope).mono ?_ fun _ _ hlater => hlater
        rintro value middle ⟨hvalue, hmiddle⟩
        constructor
        · intro later hlater
          refine ⟨Or.inr ⟨keyword, n, initial, ⟨n.text, kind, value⟩, rfl, ?_, rfl, hkeyword.symm,
            rfl⟩, hmiddle.declare? hvalue hlater⟩
          rw [Scope.toList_of_declare? hlater, List.getLast?_append, List.getLast?_singleton]
          rfl
        · exact fun _ => hmiddle

/-! ### Faults of well-formed programs -/

namespace Tree

/-- A numeral of more digits than are read. -/
def IsOverlong (t : Tree) (count : Nat) : Prop :=
  ∃ written spot, t = .literal .integer written spot ∧ ∃ i : Literal.Integer,
    i.Spells written.toList ∧ i.digits.length = count ∧ Literal.digitLimit < count

theorem fault?_of_isOverlong {t : Tree} {count : Nat} (h : t.IsOverlong count) :
    t.fault? = some (.tooManyDigits count) := by
  obtain ⟨written, spot, rfl, i, hi, rfl, hlong⟩ := h
  have hread : Literal.integer? written = some i.value := hi.readInteger
  rw [fault?, Literal.fault?, hread, Literal.digitCount_of_spells hi, if_pos ⟨rfl, hlong⟩]

theorem IsExpression.operands {t : Tree} (ht : t.IsExpression) : ∀ a ∈ t.operands, a.IsExpression := by
  cases ht with
  | literal | identifier => exact fun _ ha => absurd ha List.not_mem_nil
  | parentheses hinner => exact List.forall_mem_singleton.mpr hinner
  | binary op hlhs hrhs => exact List.forall_mem_cons.mpr ⟨hlhs, List.forall_mem_singleton.mpr hrhs⟩
  | call callee hargs => exact hargs

theorem IsStatement.operands {t : Tree} (ht : t.IsStatement) : ∀ a ∈ t.operands, a.IsStatement := by
  cases ht with
  | expression ht => exact fun a ha => .expression (ht.operands a ha)
  | declaration _ n hinitial =>
      intro a ha
      rw [mem_operands_declaration ha]
      exact .expression hinitial

/-- Of expressions and declarations of a known kind only a numeral may be at fault. -/
theorem IsStatement.isOverlong {t : Tree} (ht : t.IsStatement) {f : Fault} (h : t.fault? = some f) :
    ∃ count, t.IsOverlong count ∧ f = .tooManyDigits count := by
  cases ht with
  | expression ht =>
      cases ht with
      | literal hkind written spot =>
          rcases Literal.exists_of_fault? h with ⟨label, rfl, -⟩ | ⟨rfl, hinteger, hlong, rfl⟩
          · exact absurd rfl (hkind label)
          · obtain ⟨n, hn⟩ := Option.isSome_iff_exists.mp hinteger
            obtain ⟨i, hi, -⟩ := Literal.Integer.readInteger_eq_some_iff.mp hn
            exact ⟨_, ⟨written, spot, rfl, i, hi, (Literal.digitCount_of_spells hi).symm, hlong⟩, rfl⟩
      | _ => cases h
  | declaration hkeyword n _ =>
      rw [fault?, Kind.ofKeyword?_eq_some_iff.mpr hkeyword] at h
      cases h

end Tree

/-- What a run of statements visits is statements, apart from the program itself. -/
theorem isOverlong_of_mem_visits {statements : List Tree}
    (hstatements : ∀ s ∈ statements, s.IsStatement) {scope : Scope} {visit : Visit}
    (hvisit : visit ∈ visits (.program statements) scope) {f : Fault}
    (hf : visit.tree.fault? = some f) :
    ∃ count, visit.tree.IsOverlong count ∧ f = .tooManyDigits count := by
  rcases mem_visits.mp hvisit with hbefore | rfl
  · have hstatement : visit.tree.IsStatement := by
      refine forall_mem_visitsAll (p := fun visit => visit.tree.IsStatement) ?_ scope visit hbefore
      exact fun s hs => forall_mem_visits (fun _ => Tree.IsStatement.operands) (hstatements s hs)
    exact hstatement.isOverlong hf
  · cases hf

/-- **Soundness.** A program of declarations and expressions, run in a scope of plain values, succeeds
with what its last statement yields or fails with an error of one of the six kinds, unless it comes to a
numeral of too many digits, which is the only fault there is. The scope it leaves holds plain values in
every case. -/
theorem evaluate_program_sound {statements : List Tree}
    (hstatements : ∀ s ∈ statements, s.IsStatement) {scope : Scope} (hscope : scope.IsPlain) :
    ((evaluate (.program statements) scope).Meets
      (fun value later => later.IsPlain ∧
        match statements.getLast? with
        | none => value = .unit
        | some s => Yields s value later)
      fun failure later => later.IsPlain ∧
        (failure.IsError ∨ ∃ count, failure = .fault (.tooManyDigits count))) ∧
      ∀ f, (evaluate (.program statements) scope).result = .error (.fault f) ↔
        ∃ count, (∃ visit ∈ visits (.program statements) scope, visit.tree.IsOverlong count) ∧
          f = .tooManyDigits count := by
  have hfault : ∀ f, (evaluate (.program statements) scope).result = .error (.fault f) ↔
      ∃ count, (∃ visit ∈ visits (.program statements) scope, visit.tree.IsOverlong count) ∧
        f = .tooManyDigits count := by
    intro f
    rw [fault_iff_visited]
    constructor
    · rintro ⟨visit, hvisit, hf⟩
      obtain ⟨count, hcount, rfl⟩ := isOverlong_of_mem_visits hstatements hvisit hf
      exact ⟨count, ⟨visit, hvisit, hcount⟩, rfl⟩
    · rintro ⟨count, ⟨visit, hvisit, hcount⟩, rfl⟩
      exact ⟨visit, hvisit, Tree.fault?_of_isOverlong hcount⟩
  refine ⟨?_, hfault⟩
  have hlast := meets_evaluateLast Scope.IsPlain
    (fun t value later => Yields t value later ∧ later.IsPlain)
    (fun s hs _ hknown => meets_of_isStatement (hstatements s hs) hknown)
    (fun _ _ _ hpost => hpost.2) .unit scope hscope
  have hplain : (evaluate (.program statements) scope).Meets _ fun _ later => later.IsPlain :=
    meets_program.mpr hlast
  refine hplain.mono_of_result ?_ ?_
  · rintro value later - ⟨-, hvalue⟩
    cases hs : statements.getLast? with
    | none =>
        rw [hs] at hvalue
        exact ⟨hvalue.2 ▸ hscope, hvalue.1⟩
    | some s =>
        rw [hs] at hvalue
        exact ⟨hvalue.2, hvalue.1⟩
  · intro failure later hresult hlater
    refine ⟨hlater, ?_⟩
    cases failure with
    | error e =>
        obtain ⟨_, _, -, -, hculprit, -⟩ := exists_culprit hresult
        exact Or.inl hculprit.exists_kind
    | fault f =>
        obtain ⟨count, -, rfl⟩ := (hfault f).mp hresult
        exact Or.inr ⟨count, rfl⟩

/-- A variable that holds the greatest word, and its sum with one. -/
def Tree.overflow : List Tree :=
  [.declaration ⟨"int", 1⟩ ⟨"x", 2⟩ (.literal .integer "9223372036854775807" 3),
    .binary (.identifier ⟨"x", 4⟩) ⟨.plus, 5⟩ (.literal .integer "1" 6)]

theorem Tree.isStatement_overflow : ∀ s ∈ overflow, s.IsStatement := by
  have hliteral : ∀ text spot, (Tree.literal .integer text spot).IsExpression :=
    .literal fun _ hkind => by cases hkind
  intro s hs
  simp only [overflow, List.mem_cons, List.not_mem_nil, or_false] at hs
  rcases hs with rfl | rfl
  · have hkeyword : "int" = Kind.integer.keyword := rfl
    exact .declaration hkeyword _ (hliteral _ _)
  · exact .expression (.binary _ (.identifier _) (hliteral _ _))

/-- The sum wraps around and is again a word. -/
theorem evaluate_program_sound_overflow :
    (∀ s ∈ Tree.overflow, s.IsStatement) ∧ Scope.empty.IsPlain ∧
      (evaluate (.program Tree.overflow) .empty).result = .ok (.integer (-2 ^ 63)) ∧
      (evaluate (.program Tree.overflow) .empty).Meets
        (fun value later => later.IsPlain ∧ ∃ s, Tree.overflow.getLast? = some s ∧ Yields s value later)
        fun failure later => later.IsPlain ∧
          (failure.IsError ∨ ∃ count, failure = .fault (.tooManyDigits count)) := by
  have hscope : Scope.empty.IsPlain := fun v hv => absurd hv List.not_mem_nil
  have hvalue : (evaluate (.program Tree.overflow) .empty).result.toOption =
      some (.integer (-2 ^ 63)) := by decide
  have hresult : (evaluate (.program Tree.overflow) .empty).result = .ok (.integer (-2 ^ 63)) := by
    cases h : (evaluate (.program Tree.overflow) .empty).result with
    | ok value =>
        rw [h] at hvalue
        exact congrArg Except.ok (Option.some.inj hvalue)
    | error failure =>
        rw [h] at hvalue
        cases hvalue
  obtain ⟨hmeets, -⟩ := evaluate_program_sound Tree.isStatement_overflow hscope
  refine ⟨Tree.isStatement_overflow, hscope, hresult, hmeets.mono ?_ fun _ _ hf => hf⟩
  rintro value later ⟨hlater, hvalue⟩
  exact ⟨hlater, _, rfl, hvalue⟩

/-- **A program may meet a fault.** Its only statement is the numeral of one behind too many zeros, and
the run neither succeeds nor fails with an error of the language. -/
theorem evaluate_program_faulty :
    let statements := [Tree.literal .integer Literal.overlongText 1]
    let outcome := evaluate (.program statements) .empty
    (∀ s ∈ statements, s.IsStatement) ∧ Scope.empty.IsPlain ∧
      (¬∃ value, outcome.result = .ok value) ∧ ¬∃ e, outcome.result = .error (.error e) := by
  intro statements outcome
  have hscope : Scope.empty.IsPlain := fun v hv => absurd hv List.not_mem_nil
  have hstatements : ∀ s ∈ statements, s.IsStatement := by
    refine List.forall_mem_singleton.mpr (.expression (.literal (fun _ hkind => ?_) _ 1))
    cases hkind
  obtain ⟨f, hliteral⟩ : ∃ f, (evaluate (.literal .integer Literal.overlongText 1) .empty).result =
      .error (.fault f) := ⟨_, congrArg Outcome.result (evaluate_overlong 1 .empty)⟩
  have hoperand : (evaluateAll statements .empty).result = .error (.fault f) := by
    rw [evaluateAll_cons, Step.andThen_of_error hliteral]
  have hfault : outcome.result = .error (.fault f) :=
    result_of_operands_error (t := .program statements) hoperand
  refine ⟨hstatements, hscope, ?_, ?_⟩
  · rintro ⟨value, hvalue⟩
    cases hfault.symm.trans hvalue
  · rintro ⟨e, he⟩
    cases hfault.symm.trans he

end StraightLine
