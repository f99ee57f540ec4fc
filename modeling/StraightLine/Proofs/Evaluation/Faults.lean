import StraightLine.Proofs.Evaluation.Failures

/-!
The faults of evaluations. A run meets a fault at a tree that no scope could give a value to: a literal of
a fourth kind or of too many digits, a declaration with an unknown keyword, or a tree that is not to be
evaluated at all. A run ends in a fault just where it comes to such a tree.
-/

namespace StraightLine

/-- A tree at fault fails with its fault, wherever it is evaluated. -/
theorem evaluate_of_fault? {t : Tree} {f : Fault} (h : t.fault? = some f) (scope : Scope) :
    (evaluate t scope).result = .error (.fault f) := by
  cases t with
  | literal kind written spot =>
      have hvalue : Literal.value kind written = .error (.fault f) := by
        rcases Literal.exists_of_fault? h with ⟨label, rfl, rfl⟩ | ⟨rfl, hinteger, hdigits, rfl⟩
        · rfl
        · obtain ⟨n, hn⟩ := Option.isSome_iff_exists.mp hinteger
          rw [Literal.value, hn]
          exact if_pos hdigits
      rw [evaluate_literal_of_fault hvalue]
  | declaration keyword n initial =>
      rw [Tree.fault?] at h
      split at h
      · cases h
      · rename_i hunknown
        cases h
        rw [evaluate, Kind.ofKeyword, Option.not_isSome_iff_eq_none.mp hunknown]
        rfl
  | name | phrase | expression =>
      cases h
      rw [evaluate]
      rfl
  | identifier | parentheses | binary | call | program => cases h

/-- **A run ends in a fault just where it visits a tree at fault.** It stops there, since a tree at
fault has no value in any scope. -/
theorem fault_iff_visited {t : Tree} {scope : Scope} {f : Fault} :
    (evaluate t scope).result = .error (.fault f) ↔
      ∃ visit ∈ visits t scope, visit.tree.fault? = some f := by
  constructor
  · intro h
    obtain ⟨visit, hstops, -, hexplains⟩ := exists_explains h
    cases hexplains with
    | fault hf => exact ⟨visit, hstops.mem, hf⟩
  · rintro ⟨visit, hvisit, hfault⟩
    exact result_of_mem_visits hvisit (evaluate_of_fault? hfault visit.scope)

/-- A tree shows nothing about a report. -/
theorem Tree.fault?_ne_tooManyIssues (t : Tree) : t.fault? ≠ some .tooManyIssues := by
  intro h
  cases t with
  | literal kind written spot =>
      rcases Literal.exists_of_fault? h with ⟨label, -, hf⟩ | ⟨-, -, -, hf⟩ <;> cases hf
  | declaration keyword n initial =>
      rw [fault?] at h
      split at h <;> cases h
  | _ => cases h

end StraightLine
