import StraightLine.Proofs.Evaluation.Failures

/-!
Who is blamed for an error. A run meets an error in the visit that it stops in, and what keeps that visit
from its conclusion determines the tree to blame. No tree around replaces it, and it has a span.
-/

namespace StraightLine

theorem Culprit.exists_kind {visit : Visit} {cause : Cause} {g : Tree}
    (h : Culprit visit cause g) : ∃ kind, cause.kind? = some kind := by
  cases h with
  | literal hkind _ => exact ⟨_, hkind⟩
  | _ => exact ⟨_, rfl⟩

/-- The culprit is the tree of the visit itself, or a name that the tree is written with. -/
theorem Culprit.isPartOf {visit : Visit} {cause : Cause} {g : Tree} (h : Culprit visit cause g) :
    g.IsPartOf visit.tree := by
  cases h with
  | literal | identifier | quotient => exact .whole
  | callee | onText | onKinds | duplicate => exact .inChild (by simp) .whole

/-! ### Spans -/

theorem hasSpan_of_evaluateAll {ts : List Tree}
    (h : ∀ t ∈ ts, ∀ scope value, (evaluate t scope).result = .ok value → t.HasSpan)
    {scope : Scope} {values : List Value} (hvalues : (evaluateAll ts scope).result = .ok values) :
    ∀ t ∈ ts, t.HasSpan := by
  induction ts generalizing scope values with
  | nil => exact fun _ ht => absurd ht List.not_mem_nil
  | cons t ts ih =>
      rw [evaluateAll_cons] at hvalues
      obtain ⟨value, hvalue, hrest⟩ := Step.ok_of_andThen hvalues
      obtain ⟨others, hothers, -⟩ := Step.ok_of_andThen hrest
      refine List.forall_mem_cons.mpr ⟨h t List.mem_cons_self scope value hvalue, ?_⟩
      exact ih (fun u hu => h u (List.mem_cons_of_mem t hu)) hothers

/-- A tree that has a value has a span. The trees without one have no values, and may still be parts of
a tree that is blamed for an error. -/
theorem hasSpan_of_ok {t : Tree} {scope : Scope} {value : Value}
    (h : (evaluate t scope).result = .ok value) : t.HasSpan := by
  induction t using Tree.operands_induction generalizing scope value with
  | h t ih =>
      obtain ⟨values, hvalues⟩ := exists_values_of_ok h
      have hoperands : ∀ a ∈ t.operands, a.HasSpan :=
        hasSpan_of_evaluateAll (fun a ha _ _ => ih a ha) hvalues
      cases t with
      | name | phrase | expression =>
          rw [evaluate] at h
          cases h
      | literal kind written spot => exact ⟨⟨spot, rfl⟩, spot, rfl⟩
      | identifier n => exact ⟨⟨n.spot, rfl⟩, n.spot, rfl⟩
      | parentheses inner => exact hoperands inner List.mem_cons_self
      | binary lhs op rhs =>
          exact ⟨(hoperands lhs List.mem_cons_self).1,
            (hoperands rhs (List.mem_cons_of_mem _ List.mem_cons_self)).2⟩
      | call callee args => exact Tree.hasSpan_call hoperands
      | declaration keyword n initial =>
          cases htype : Kind.ofKeyword? keyword.text with
          | none =>
              rw [evaluate_of_ok hvalues, conclude_declaration_of_none htype] at h
              cases h
          | some type =>
              rw [Tree.operands_declaration htype] at hoperands
              exact ⟨⟨keyword.spot, rfl⟩, (hoperands initial List.mem_cons_self).2⟩
      | program statements => exact Tree.hasSpan_program hoperands

theorem hasSpan_name (n : Name) : (Tree.name n).HasSpan :=
  ⟨⟨n.spot, rfl⟩, n.spot, rfl⟩

theorem Culprit.hasSpan {visit : Visit} {cause : Cause} {g : Tree} (h : Culprit visit cause g) :
    g.HasSpan := by
  cases h with
  | @literal _ _ spot => exact ⟨⟨spot, rfl⟩, spot, rfl⟩
  | @identifier n => exact ⟨⟨n.spot, rfl⟩, n.spot, rfl⟩
  | callee | onText | onKinds | duplicate => exact hasSpan_name _
  | quotient hvalues _ =>
      have hoperands := hasSpan_of_evaluateAll (fun _ _ _ _ => hasSpan_of_ok) hvalues
      exact ⟨(hoperands _ List.mem_cons_self).1,
        (hoperands _ (List.mem_cons_of_mem _ List.mem_cons_self)).2⟩

/-! ### Blame -/

/-- An error is met in the visit that the run stops in, and blames a part of the tree. -/
theorem exists_culprit {t : Tree} {scope : Scope} {e : Error}
    (h : (evaluate t scope).result = .error (.error e)) :
    ∃ visit g, visit.Stops (visits t scope) (.error e) ∧
      visit.outcome.scope = (evaluate t scope).scope ∧ Culprit visit e.cause g ∧
        e.guilty = some g ∧ g.IsPartOf t := by
  obtain ⟨visit, hstops, hscope, hexplains⟩ := exists_explains h
  cases hexplains with
  | error hculprit =>
      have hpart := isPartOf_of_mem_visits hstops.mem
      exact ⟨visit, _, hstops, hscope, hculprit, rfl, hculprit.isPartOf.trans hpart⟩

/-- **Every error points at its culprit.** A run fails with an error because it stops in one visit: all
that was evaluated before has values, the operands among them, and from these the visit concludes
nothing. The tree blamed is the one that this visit calls for, a part of the tree that was evaluated,
with a first and a last token. Whatever is around the visit fails with the same error, which blames the
same tree. -/
theorem culprit_of_evaluate {t : Tree} {scope : Scope} {e : Error}
    (h : (evaluate t scope).result = .error (.error e)) :
    ∃ visit g, visit.Stops (visits t scope) (.error e) ∧
      visit.outcome.scope = (evaluate t scope).scope ∧ Culprit visit e.cause g ∧
        e.guilty = some g ∧ g.IsPartOf t ∧ ∃ first last, g.span = .ok (first, last) := by
  obtain ⟨visit, g, hstops, hscope, hculprit, hguilty, hpart⟩ := exists_culprit h
  obtain ⟨first, last, hends, -⟩ := hculprit.hasSpan.exists_span
  exact ⟨visit, g, hstops, hscope, hculprit, hguilty, hpart, first, last, hends⟩

/-- A quotient of a variable by zero. -/
def Tree.quotient : Tree :=
  .binary (.identifier ⟨"x", 5⟩) ⟨.over, 6⟩ (.literal .integer "0" 7)

/-- The quotient in parentheses, divided once more, as an argument, in front of a statement without a
span. -/
def Tree.buried : Tree :=
  .program [.declaration ⟨"int", 1⟩ ⟨"x", 2⟩ (.literal .integer "2" 3),
    .call ⟨"WRITELN", 4⟩ [.binary (.parentheses quotient) ⟨.over, 8⟩ (.literal .integer "0" 9)],
    .phrase]

/-- The inner quotient is blamed, and none of the trees around it, though one is a quotient too. -/
theorem culprit_of_evaluate_buried :
    (evaluate Tree.buried .empty).result =
        .error (.error ⟨.divisionByZero, some Tree.quotient⟩) ∧
      ∃ visit : Visit,
        visit.Stops (visits Tree.buried .empty) (.error ⟨.divisionByZero, some Tree.quotient⟩) ∧
          Culprit visit .divisionByZero Tree.quotient ∧ Tree.quotient.IsPartOf Tree.buried ∧
            ∃ first last, Tree.quotient.span = .ok (first, last) := by
  have h : (evaluate Tree.buried .empty).result =
      .error (.error ⟨.divisionByZero, some Tree.quotient⟩) := rfl
  obtain ⟨visit, g, hstops, -, hculprit, hguilty, hpart, hspan⟩ := culprit_of_evaluate h
  cases hguilty
  exact ⟨h, visit, hstops, hculprit, hpart, hspan⟩

end StraightLine
