import Mathlib.Data.List.Chain
import StraightLine.Proofs.Evaluation.Leaves
import StraightLine.Proofs.Evaluation.Operands

/-!
Writing several values and writing their concatenation. Where a space stands between neighbours every
addition has a text among its operands, however the additions are grouped; so a sum of trees with spaces
between them evaluates the trees in their order, and comes to their texts joined by spaces.
-/

namespace StraightLine

open Step

namespace Tree

/-- That a tree is the sum of trees in their order, grouped in some way, with parentheses or without. -/
inductive IsSumOf : List Tree → Tree → Prop where
  | single (t : Tree) : IsSumOf [t] t
  | plus {ts us : List Tree} {a b : Tree} (spot : Int) (ha : IsSumOf ts a) (hb : IsSumOf us b) :
      IsSumOf (ts ++ us) (.binary a ⟨.plus, spot⟩ b)
  | parentheses {ts : List Tree} {a : Tree} (ha : IsSumOf ts a) : IsSumOf ts (.parentheses a)

/-- A text literal of one space. -/
def IsSpace (t : Tree) : Prop :=
  ∃ written spot, t = .literal .text written spot ∧ Literal.text? written = some " "

/-- That a list is the given trees with a space between neighbours. -/
inductive Spaced : List Tree → List Tree → Prop where
  | single (t : Tree) : Spaced [t] [t]
  | cons (t : Tree) {u space : Tree} {ts us : List Tree} (hspace : space.IsSpace)
      (h : Spaced (u :: ts) us) : Spaced (t :: u :: ts) (t :: space :: us)

theorem IsSumOf.ne_nil {ts : List Tree} {t : Tree} (h : t.IsSumOf ts) : ts ≠ [] := by
  induction h with
  | single t => exact List.cons_ne_nil t []
  | plus spot _ _ iha _ => exact fun hnil => iha (List.append_eq_nil_iff.mp hnil).1
  | parentheses _ ih => exact ih

/-- Of two neighbours one is a space. -/
theorem Spaced.isChain {args leaves : List Tree} (h : Spaced args leaves) :
    leaves.IsChain fun t u => t.IsSpace ∨ u.IsSpace := by
  induction h with
  | single t => exact List.isChain_singleton t
  | @cons t u space ts us hspace hrest ih =>
      refine List.isChain_cons_cons.mpr ⟨Or.inr hspace, ?_⟩
      exact List.isChain_cons.mpr ⟨fun _ _ => Or.inl hspace, ih⟩

theorem IsSpace.evaluate {space : Tree} (h : space.IsSpace) :
    evaluate space = yield (.text " ") := by
  obtain ⟨written, spot, rfl, htext⟩ := h
  funext scope
  exact evaluate_literal_of_ok (by rw [Literal.value, htext]) spot scope

end Tree

/-! ### Sums of values -/

namespace Value

def IsText (v : Value) : Prop :=
  ∃ chars, v = .text chars

/-- What a sum of values comes to: a single value to itself, and several to their texts joined. -/
def joined : List Value → Value
  | [v] => v
  | values => .text (String.join (values.map written))

theorem joined_of_length_ne_one {values : List Value} (h : values.length ≠ 1) :
    joined values = .text (String.join (values.map written)) := by
  unfold joined
  split
  · exact absurd rfl h
  · rfl

theorem written_joined (values : List Value) :
    (joined values).written = String.join (values.map written) := by
  unfold joined
  split
  · simp
  · rfl

end Value

theorem Operands.of_isText {a b : Value} (h : a.IsText ∨ b.IsText) :
    Operands.of a b = .texts a.written b.written := by
  rcases h with ⟨chars, rfl⟩ | ⟨chars, rfl⟩
  · rfl
  · cases a <;> rfl

/-- One text among the operands is enough to join them. -/
theorem operate_plus {a b : Value} (h : a.IsText ∨ b.IsText) (spot : Int) :
    operate (⟨.plus, spot⟩ : Operator).name a b = .ok (.text (a.written ++ b.written)) := by
  rw [operate, Operands.of_isText h]
  rfl

/-- Two sums are joined by an addition if one of them is a text. -/
theorem operate_joined {vs ws : List Value} (hvs : vs ≠ []) (hws : ws ≠ [])
    (h : (Value.joined vs).IsText ∨ (Value.joined ws).IsText) (spot : Int) :
    operate (⟨.plus, spot⟩ : Operator).name (.joined vs) (.joined ws) = .ok (.joined (vs ++ ws)) := by
  have hlength : (vs ++ ws).length ≠ 1 := by
    have hpos := List.length_pos_iff.mpr hvs
    have hpos' := List.length_pos_iff.mpr hws
    rw [List.length_append]
    omega
  rw [operate_plus h, Value.written_joined, Value.written_joined,
    Value.joined_of_length_ne_one hlength, List.map_append, String.join_append]

/-- Where of two neighbours one is a space, one of two sums that meet there is a text: either a sum of
several values, or a space. -/
theorem isText_joined {ts us : List Tree} {vs ws : List Value}
    (hchain : (ts ++ us).IsChain fun t u => t.IsSpace ∨ u.IsSpace)
    (hvs : List.Forall₂ (fun t v => t.IsSpace → v = .text " ") ts vs)
    (hws : List.Forall₂ (fun t v => t.IsSpace → v = .text " ") us ws) :
    (Value.joined vs).IsText ∨ (Value.joined ws).IsText := by
  by_cases hv : vs.length = 1
  · by_cases hw : ws.length = 1
    · obtain ⟨v, rfl⟩ := List.length_eq_one_iff.mp hv
      obtain ⟨w, rfl⟩ := List.length_eq_one_iff.mp hw
      obtain ⟨t, _, htv, hnil, rfl⟩ := List.forall₂_cons_right_iff.mp hvs
      obtain ⟨u, _, huw, hnil', rfl⟩ := List.forall₂_cons_right_iff.mp hws
      cases hnil
      cases hnil'
      rcases (List.isChain_cons_cons.mp hchain).1 with ht | hu
      · exact Or.inl ⟨_, htv ht⟩
      · exact Or.inr ⟨_, huw hu⟩
    · exact Or.inr ⟨_, Value.joined_of_length_ne_one hw⟩
  · exact Or.inl ⟨_, Value.joined_of_length_ne_one hv⟩

theorem eq_space_of_evaluate {t : Tree} {scope : Scope} {value : Value}
    (hvalue : (evaluate t scope).result = .ok value) (h : t.IsSpace) : value = .text " " := by
  rw [h.evaluate] at hvalue
  cases hvalue
  rfl

/-- A sum with a space between neighbours evaluates its trees in their order and joins their values,
whatever the grouping. -/
theorem evaluate_sum {ts : List Tree} {t : Tree} (h : t.IsSumOf ts)
    (hchain : ts.IsChain fun t u => t.IsSpace ∨ u.IsSpace) :
    evaluate t = andThen (evaluateAll ts) fun values => yield (.joined values) := by
  -- Along the grouping: every operand is the sum of a stretch of the list, and so has a space at its end
  -- or next to it.
  induction h with
  | single t =>
      rw [evaluateAll_cons, evaluateAll_nil]
      simp only [andThen_assoc, yield_andThen, Value.joined]
      exact (andThen_yield _).symm
  | @plus ts us a b spot ha hb iha ihb =>
      obtain ⟨hts, hus, -⟩ := List.isChain_append.mp hchain
      have hspace : ∀ t : Tree, ∀ scope value, (evaluate t scope).result = .ok value →
          t.IsSpace → value = .text " " := fun _ _ _ => eq_space_of_evaluate
      rw [evaluate, evaluateAll_append]
      simp only [bind_eq, blaming_andThen, blaming_evaluate, andThen_assoc, yield_andThen]
      rw [iha hts, ihb hus]
      simp only [andThen_assoc, yield_andThen]
      refine andThen_congr fun scope vs hvs => andThen_congr fun scope' ws hws => ?_
      have hvs := forall₂_of_evaluateAll (fun t _ => hspace t) hvs
      have hws := forall₂_of_evaluateAll (fun t _ => hspace t) hws
      have hne : vs ≠ [] := fun hnil => ha.ne_nil (List.forall₂_nil_right_iff.mp (hnil ▸ hvs))
      have hne' : ws ≠ [] := fun hnil => hb.ne_nil (List.forall₂_nil_right_iff.mp (hnil ▸ hws))
      rw [operate_joined hne hne' (isText_joined hchain hvs hws)]
      rfl
  | parentheses _ ih => rw [evaluate, blaming_evaluate, ih hchain]

/-- The spaces add nothing but themselves to the values. -/
theorem Tree.Spaced.evaluateAll {args leaves : List Tree} (h : Spaced args leaves) :
    evaluateAll leaves =
      andThen (evaluateAll args) fun values => yield (values.intersperse (.text " ")) := by
  induction h with
  | single t =>
      rw [evaluateAll_cons, evaluateAll_nil]
      simp only [andThen_assoc, yield_andThen, List.intersperse_singleton]
  | @cons t u space ts us hspace _ ih =>
      rw [evaluateAll_cons t (space :: us), evaluateAll_cons space, hspace.evaluate, ih,
        evaluateAll_cons t (u :: ts), evaluateAll_cons u]
      simp only [andThen_assoc, yield_andThen, List.intersperse_cons_cons]

theorem written_joined_intersperse (values : List Value) :
    (Value.joined (values.intersperse (.text " "))).written = Procedure.spaced values := by
  rw [Value.written_joined, Procedure.spaced]
  induction values with
  | nil => rfl
  | cons v values ih =>
      cases values with
      | nil => simp
      | cons w values =>
          rw [List.intersperse_cons_cons, List.map_cons, List.map_cons, String.join_cons,
            String.join_cons, ih, List.map_cons, List.map_cons, List.map_cons,
            String.intercalate_cons_cons, String.append_assoc]
          rfl

/-! ### Calls -/

/-- The arguments of a procedure are evaluated, and then their texts are written. -/
theorem evaluate_call {callee : Name} {p : Procedure}
    (hcallee : Procedure.named? callee.text = some p) (args : List Tree) :
    evaluate (.call callee args) = andThen (evaluateAll args) fun values =>
      andThen (write (p.output values)) fun _ => yield .unit := by
  rw [evaluate_eq, blaming_andThen]
  simp only [conclude, Procedure.called, hcallee]
  exact congrArg (andThen · _) (blaming_evaluateAll _ args)

/-- Either procedure writes the spaced texts of its arguments, and a line break or not. -/
theorem output_joined {name : String} {p : Procedure} (h : Procedure.named? name = some p)
    (values : List Value) :
    p.output [.joined (values.intersperse (.text " "))] = p.output values := by
  have hspaced : Procedure.spaced [.joined (values.intersperse (.text " "))] =
      Procedure.spaced values :=
    (String.intercalate_singleton ..).trans (written_joined_intersperse values)
  have hmem : p ∈ Procedure.standard := List.mem_of_find?_eq_some h
  simp only [Procedure.standard, List.mem_cons, List.not_mem_nil, or_false] at hmem
  rcases hmem with rfl | rfl
  · exact hspaced
  · exact congrArg (· ++ "\n") hspaced

/-- **Writing several values is writing their concatenation.** The arguments of either procedure may be
replaced by one argument that is their sum with a space between neighbours, in any grouping: the same is
written and declared, and the outcome is the unit value or the same error with the same tree to blame.
It does not matter which values the arguments have, or whether they have one. -/
theorem procedures_write_concatenation {name : String} (hname : name = "WRITE" ∨ name = "WRITELN")
    {args leaves : List Tree} {sum : Tree} (hspaced : Tree.Spaced args leaves)
    (hsum : sum.IsSumOf leaves) (spot spot' : Int) :
    evaluate (.call ⟨name, spot⟩ args) = evaluate (.call ⟨name, spot'⟩ [sum]) ∧
      ∀ scope value, (evaluate (.call ⟨name, spot⟩ args) scope).result = .ok value →
        value = .unit := by
  obtain ⟨p, hp⟩ : ∃ p, Procedure.named? name = some p := by
    rcases hname with rfl | rfl
    · exact ⟨.write, rfl⟩
    · exact ⟨.writeLine, rfl⟩
  have hcall (spot : Int) (args : List Tree) : evaluate (.call ⟨name, spot⟩ args) =
      andThen (evaluateAll args) fun values => andThen (write (p.output values)) fun _ =>
        yield .unit := evaluate_call hp args
  refine ⟨?_, fun scope value hvalue => ?_⟩
  · rw [hcall, hcall, evaluateAll_cons, evaluateAll_nil, evaluate_sum hsum hspaced.isChain,
      hspaced.evaluateAll]
    simp only [andThen_assoc, yield_andThen, output_joined hp]
  · rw [hcall] at hvalue
    obtain ⟨values, -, hrest⟩ := ok_of_andThen hvalue
    obtain ⟨_, -, hunit⟩ := ok_of_andThen hrest
    cases hunit
    rfl

/-- A declaration, a call and a variable: a value of each unusual kind, and one that needs the first's
scope. -/
def Tree.unusual : List Tree :=
  [.declaration ⟨"int", 2⟩ ⟨"x", 3⟩ (.literal .integer "7" 4),
    .call ⟨"WRITE", 5⟩ [.literal .text "'a'" 6], .identifier ⟨"x", 7⟩]

/-- The declaration, a space, the call, a space and the variable, joined from the right. -/
def Tree.unusualSum : Tree :=
  let space := Tree.literal .text "' '" 8
  let sum (a b : Tree) : Tree := .binary a ⟨.plus, 9⟩ b
  sum (unusual[0]) (.parentheses (sum space (sum (unusual[1]) (sum space (unusual[2])))))

theorem procedures_write_concatenation_unusual :
    ("WRITE" = "WRITE" ∨ "WRITE" = "WRITELN") ∧
      (∃ leaves, Tree.Spaced Tree.unusual leaves ∧ Tree.unusualSum.IsSumOf leaves) ∧
      let outcome := evaluate (.call ⟨"WRITE", 10⟩ [Tree.unusualSum]) .empty
      outcome.result = .ok .unit ∧ outcome.scope.toList = [⟨"x", .integer, .integer 7⟩] ∧
        outcome.output =
          "aVariable(name='x', declared_type=<VariableType.INT: 'int'>, value=7)  7" := by
  have hspace : (Tree.literal .text "' '" 8).IsSpace := ⟨_, _, rfl, by decide +kernel⟩
  have hspaced : Tree.Spaced Tree.unusual _ := .cons _ hspace (.cons _ hspace (.single _))
  have hsum : Tree.unusualSum.IsSumOf _ :=
    .plus 9 (.single _) (.parentheses (.plus 9 (.single _) (.plus 9 (.single _)
      (.plus 9 (.single _) (.single _)))))
  have hwrites := procedures_write_concatenation (Or.inl rfl) hspaced hsum 1 10
  refine ⟨Or.inl rfl, ⟨_, hspaced, hsum⟩, ?_⟩
  rw [← hwrites.1]
  exact ⟨rfl, by decide +kernel, by decide +kernel⟩

end StraightLine
