import StraightLine.Proofs.Evaluation.Operands

/-!
Trees that write nothing. Output comes from calls alone, so that a tree without calls is silent in every
scope, whether it succeeds or fails.
-/

namespace StraightLine

open Step

def Tree.IsCall (t : Tree) : Prop :=
  ∃ callee args, t = .call callee args

/-- That a step writes nothing, whatever scope it starts in. -/
def Step.IsSilent {α : Type} (s : Step α) : Prop :=
  ∀ scope, (s scope).output = ""

namespace Step

variable {α β : Type} {s : Step α} {next : α → Step β}

theorem IsSilent.andThen (hs : s.IsSilent) (hnext : ∀ a, (next a).IsSilent) :
    (andThen s next).IsSilent := by
  intro scope
  rcases h : (s scope).result with failure | a
  · rw [andThen_of_error h]
    exact hs scope
  · rw [andThen_of_ok h]
    show (s scope).output ++ (next a (s scope).scope).output = ""
    rw [hs, hnext]
    rfl

theorem IsSilent.blaming (hs : s.IsSilent) (t : Tree) : (blaming t s).IsSilent :=
  hs

theorem isSilent_yield (a : α) : (yield a).IsSilent :=
  fun _ => rfl

theorem isSilent_ofExcept (result : Except Failure α) : (ofExcept result).IsSilent := by
  intro scope
  cases result <;> rfl

theorem isSilent_valueNamed (name : String) : (valueNamed name).IsSilent := by
  refine IsSilent.andThen (fun scope => ?_) fun v => isSilent_yield v.value
  rw [variableNamed]
  cases scope.find? name <;> rfl

theorem isSilent_declare (v : Variable) : (declare v).IsSilent := by
  intro scope
  rw [declare]
  cases scope.declare? v <;> rfl

end Step

theorem isSilent_evaluateAll {ts : List Tree} (h : ∀ t ∈ ts, (evaluate t).IsSilent) :
    (evaluateAll ts).IsSilent := by
  induction ts with
  | nil =>
      rw [evaluateAll_nil]
      exact isSilent_yield []
  | cons t ts ih =>
      rw [evaluateAll_cons]
      refine (h t List.mem_cons_self).andThen fun value => ?_
      refine (ih fun u hu => h u (List.mem_cons_of_mem t hu)).andThen fun values => ?_
      exact isSilent_yield (value :: values)

theorem isSilent_conclude {t : Tree} (h : ¬t.IsCall) (values : List Value) :
    (conclude t values).IsSilent := by
  cases t with
  | name n | phrase | expression => exact fun _ => rfl
  | literal kind text spot => exact isSilent_ofExcept _
  | identifier n => exact isSilent_valueNamed n.text
  | parentheses inner | program statements => exact isSilent_yield _
  | binary lhs op rhs => exact isSilent_ofExcept _
  | call callee args => exact absurd ⟨callee, args, rfl⟩ h
  | declaration keyword n initial =>
      refine (isSilent_ofExcept _).andThen fun type => ?_
      refine ((isSilent_declare _).blaming (.name n)).andThen fun _ => ?_
      exact isSilent_yield _

/-- **Only calls write.** -/
theorem isSilent_evaluate {t : Tree} (h : t.Lacks Tree.IsCall) : (evaluate t).IsSilent := by
  induction t using Tree.operands_induction with
  | h t ih =>
      rw [evaluate_eq]
      refine IsSilent.blaming (IsSilent.andThen ?_ fun values => isSilent_conclude h.whole values) t
      exact isSilent_evaluateAll fun a ha => ih a ha (h.child (Tree.mem_children_of_mem_operands ha))

end StraightLine
