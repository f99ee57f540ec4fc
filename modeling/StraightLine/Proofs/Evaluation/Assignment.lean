import Mathlib.Data.List.Forall2
import StraightLine.Proofs.Evaluation.Visits
import StraightLine.Proofs.Tree.Names

/-!
The scope over a whole run. A run only adds variables behind those there are, one for each declaration
that completed, and nothing that happens later takes a variable back.
-/

namespace StraightLine

/-! ### Declarations that complete -/

namespace Visit

/-- Whether the visit is that of a declaration and succeeds. -/
def completes (visit : Visit) : Bool :=
  match visit.tree, visit.outcome.result with
  | .declaration .., .ok _ => true
  | _, _ => false

/-- That a visit succeeds in declaring a variable: under the name and the kind that the declaration is
written with, and with the value that its initial tree had. -/
def Declares (visit : Visit) (v : Variable) : Prop :=
  ∃ keyword n initial, visit.tree = .declaration keyword n initial ∧
    visit.outcome.result = .ok v.asValue ∧ v.name = n.text ∧ v.type.keyword = keyword.text ∧
      (evaluate initial visit.scope).result = .ok v.value

end Visit

/-! ### The scope grows by what completes -/

/-- What a run from a scope adds to it, beside the visits of the run and the names of the declarations
that it could complete at most. -/
structure Additions {α : Type} (scope : Scope) (outcome : Outcome α) (seen : List Visit)
    (names : List String) (added : List Variable) : Prop where
  toList_eq : outcome.scope.toList = scope.toList ++ added
  declared : List.Forall₂ Visit.Declares (seen.filter Visit.completes) added
  names_prefix : added.map Variable.name <+: names
  names_eq : ∀ a, outcome.result = .ok a → added.map Variable.name = names

theorem additions_evaluateAll {ts : List Tree}
    (h : ∀ t ∈ ts, ∀ scope, ∃ added,
      Additions scope (evaluate t scope) (visits t scope) t.declaredNames added) (scope : Scope) :
    ∃ added, Additions scope (evaluateAll ts scope) (visitsAll ts scope)
      (Tree.declaredNamesOfAll ts) added := by
  induction ts generalizing scope with
  | nil => exact ⟨[], (List.append_nil _).symm, .nil, List.nil_prefix, fun _ _ => rfl⟩
  | cons t ts ih =>
      obtain ⟨first, hfirst⟩ := h t List.mem_cons_self scope
      rw [evaluateAll_cons, visitsAll, Tree.declaredNamesOfAll, Outcome.onward]
      cases hresult : (evaluate t scope).result with
      | error failure =>
          rw [Step.andThen_of_error hresult]
          refine ⟨first, hfirst.toList_eq, ?_, ?_, fun _ hok => by cases hok⟩
          · rw [List.append_nil]
            exact hfirst.declared
          · exact hfirst.names_prefix.trans (List.prefix_append _ _)
      | ok value =>
          obtain ⟨rest, hrest⟩ := ih (fun u hu => h u (List.mem_cons_of_mem t hu))
            (evaluate t scope).scope
          rw [Step.andThen_of_ok hresult, Step.andThen_map]
          refine ⟨first ++ rest, ?_, ?_, ?_, ?_⟩
          · rw [hrest.toList_eq, hfirst.toList_eq, List.append_assoc]
          · rw [List.filter_append]
            exact List.rel_append hfirst.declared hrest.declared
          · rw [List.map_append, hfirst.names_eq value hresult]
            exact (List.prefix_append_right_inj _).mpr hrest.names_prefix
          · intro values hvalues
            rw [List.map_append, hfirst.names_eq value hresult]
            cases hall : (evaluateAll ts (evaluate t scope).scope).result with
            | error failure =>
                rw [hall] at hvalues
                cases hvalues
            | ok others => rw [hrest.names_eq others hall]

theorem Visit.completes_of_error {visit : Visit} {failure : Failure}
    (h : visit.outcome.result = .error failure) : visit.completes = false := by
  unfold completes
  rw [h]
  split
  · rename_i hok
    cases hok
  · rfl

theorem Visit.completes_of_not_isDeclaration {visit : Visit} (h : ¬visit.tree.IsDeclaration) :
    visit.completes = false := by
  unfold completes
  split
  · rename_i htree _
    exact absurd ⟨_, _, _, htree⟩ h
  · rfl

/-- A tree that completes no declaration itself adds what its operands add. -/
theorem Additions.of_operands {t : Tree} {scope : Scope} {added : List Variable}
    (h : Additions scope (evaluateAll t.operands scope) (visitsAll t.operands scope)
      (Tree.declaredNamesOfAll t.operands) added)
    (hscope : (evaluate t scope).scope = (evaluateAll t.operands scope).scope)
    (hcompletes : (Visit.mk t scope).completes = false)
    (hnames : ∀ value, (evaluate t scope).result = .ok value →
      added.map Variable.name = t.declaredNames) :
    Additions scope (evaluate t scope) (visits t scope) t.declaredNames added := by
  refine ⟨?_, ?_, ?_, hnames⟩
  · rw [hscope, h.toList_eq]
  · rw [visits_eq, List.filter_append, List.filter_cons_of_neg (by simp [hcompletes]),
      List.filter_nil, List.append_nil]
    exact h.declared
  · exact h.names_prefix.trans (Tree.declaredNamesOfAll_operands_prefix t)

/-- A declaration that succeeds adds its own variable behind those of its initial tree. -/
theorem Additions.of_declaration {keyword n : Name} {initial : Tree} {type : Kind} {scope : Scope}
    {added : List Variable} {values : List Value}
    (htype : Kind.ofKeyword? keyword.text = some type)
    (h : Additions scope (evaluateAll [initial] scope) (visitsAll [initial] scope)
      (Tree.declaredNamesOfAll [initial]) added)
    (hall : (evaluateAll [initial] scope).result = .ok values)
    (hdeclare : (evaluateAll [initial] scope).scope.declare?
        ⟨n.text, type, values.getLastD .unit⟩ =
      some (evaluate (.declaration keyword n initial) scope).scope)
    (hresult : (evaluate (.declaration keyword n initial) scope).result =
      .ok (.declared n.text type (values.getLastD .unit))) :
    Additions scope (evaluate (.declaration keyword n initial) scope)
      (visits (.declaration keyword n initial) scope)
      (Tree.declaration keyword n initial).declaredNames
      (added ++ [⟨n.text, type, values.getLastD .unit⟩]) := by
  have hoperands : (Tree.declaration keyword n initial).operands = [initial] :=
    Tree.operands_declaration htype
  have hcompletes : (Visit.mk (.declaration keyword n initial) scope).completes = true := by
    rw [Visit.completes, Visit.outcome, hresult]
  have hdeclares : Visit.Declares ⟨.declaration keyword n initial, scope⟩
      ⟨n.text, type, values.getLastD .unit⟩ :=
    ⟨keyword, n, initial, rfl, hresult, rfl, (Kind.ofKeyword?_eq_some_iff.mp htype).symm,
      (evaluateAll_singleton_of_ok hall).1⟩
  have hnames : (added ++ [(⟨n.text, type, values.getLastD .unit⟩ : Variable)]).map Variable.name =
      (Tree.declaration keyword n initial).declaredNames := by
    have hknown : Kind.ofKeyword? keyword.text ≠ none := by simp [htype]
    rw [Tree.declaredNames_declaration hknown, hoperands, List.map_append, h.names_eq values hall,
      List.map_singleton]
  refine ⟨?_, ?_, ?_, fun _ _ => hnames⟩
  · rw [Scope.toList_of_declare? hdeclare, h.toList_eq, List.append_assoc]
  · rw [visits_eq, hoperands, List.filter_append, List.filter_cons_of_pos hcompletes,
      List.filter_nil]
    exact List.rel_append h.declared (List.Forall₂.cons hdeclares .nil)
  · exact hnames ▸ List.prefix_rfl

/-- Behind its operands a tree adds one more variable if it is a declaration and succeeds. -/
theorem additions_evaluate (t : Tree) (scope : Scope) :
    ∃ added, Additions scope (evaluate t scope) (visits t scope) t.declaredNames added := by
  induction t using Tree.operands_induction generalizing scope with
  | h t ih =>
      obtain ⟨added, hadded⟩ := additions_evaluateAll ih scope
      have hfails : ∀ failure, (evaluate t scope).result = .error failure →
          (evaluate t scope).scope = (evaluateAll t.operands scope).scope →
            ∃ added, Additions scope (evaluate t scope) (visits t scope) t.declaredNames added := by
        intro failure hresult hscope
        refine ⟨added, hadded.of_operands hscope (Visit.completes_of_error hresult) ?_⟩
        intro value hvalue
        rw [hresult] at hvalue
        cases hvalue
      cases hall : (evaluateAll t.operands scope).result with
      | error failure =>
          have heq := evaluate_of_error hall
          exact hfails (failure.blame t) (by rw [heq]) (by rw [heq])
      | ok values =>
          have hresult : (evaluate t scope).result =
              (conclude t values (evaluateAll t.operands scope).scope).result.mapError
                (·.blame t) := by
            rw [evaluate_of_ok hall]
          have hscope : (evaluate t scope).scope =
              (conclude t values (evaluateAll t.operands scope).scope).scope := by
            rw [evaluate_of_ok hall]
          have hconclude := meets_conclude t values (evaluateAll t.operands scope).scope
          cases hconcluded : (conclude t values (evaluateAll t.operands scope).scope).result with
          | error failure =>
              rw [hconcluded] at hresult
              exact hfails _ hresult (hscope.trans (hconclude.of_error hconcluded))
          | ok value =>
              rw [hconcluded] at hresult
              rcases hconclude.of_ok hconcluded with
                ⟨hnot, hkept⟩ | ⟨keyword, n, initial, type, rfl, htype, hdeclare, rfl⟩
              · refine ⟨added, hadded.of_operands (hscope.trans hkept)
                  (Visit.completes_of_not_isDeclaration hnot) fun _ _ => ?_⟩
                rw [Tree.declaredNames_of_not_isDeclaration hnot]
                exact hadded.names_eq values hall
              · rw [← hscope, Tree.operands_declaration htype] at hdeclare
                rw [Tree.operands_declaration htype] at hadded hall
                exact ⟨_, hadded.of_declaration htype hall hdeclare hresult⟩

/-- A declaration of a known kind completes if its initial tree succeeds and leaves its name free.
Otherwise it leaves the scope that the initial tree left. -/
theorem meets_declaration_of_some {keyword : Name} {type : Kind}
    (htype : Kind.ofKeyword? keyword.text = some type) (n : Name) (initial : Tree) (scope : Scope) :
    (evaluate (.declaration keyword n initial) scope).Meets
      (fun _ _ => (∃ value, (evaluate initial scope).result = .ok value) ∧
        n.text ∉ (evaluate initial scope).scope.names)
      fun _ later => ((∃ failure, (evaluate initial scope).result = .error failure) ∨
        n.text ∈ (evaluate initial scope).scope.names) ∧ later = (evaluate initial scope).scope := by
  rw [meets_declaration, htype]
  constructor
  · intro hnone
    cases hnone
  rintro type ⟨⟩
  refine (Outcome.meets_self (evaluate initial scope)).mono ?_ ?_
  · rintro value middle ⟨hvalue, rfl⟩
    constructor
    · intro later hlater
      refine ⟨⟨value, hvalue⟩, fun hmem => ?_⟩
      rw [Scope.declare?_eq_none_iff.mpr hmem] at hlater
      cases hlater
    · intro hnone
      exact ⟨Or.inr (Scope.declare?_eq_none_iff.mp hnone), rfl⟩
  · rintro failure later ⟨hfailure, rfl⟩
    exact ⟨Or.inl ⟨failure, hfailure⟩, rfl⟩

/-- When the visit of a declaration of a known kind completes, and which scope it leaves otherwise. -/
theorem Visit.completes_declaration {keyword : Name} (hknown : Kind.ofKeyword? keyword.text ≠ none)
    (n : Name) (initial : Tree) (scope : Scope) :
    let visit : Visit := ⟨.declaration keyword n initial, scope⟩
    let inner := evaluate initial scope
    (visit.completes = true ↔
        (∃ value, inner.result = .ok value) ∧ n.text ∉ inner.scope.names) ∧
      (visit.completes = false → visit.outcome.scope = inner.scope) := by
  intro visit inner
  obtain ⟨type, htype⟩ := Option.ne_none_iff_exists'.mp hknown
  have hmeets := meets_declaration_of_some htype n initial scope
  cases hresult : (evaluate (.declaration keyword n initial) scope).result with
  | ok value =>
      have hcompletes : visit.completes = true := by
        rw [completes, outcome, hresult]
      refine ⟨iff_of_true hcompletes (hmeets.of_ok hresult), fun hnot => ?_⟩
      rw [hcompletes] at hnot
      cases hnot
  | error failure =>
      have hcompletes : visit.completes = false := completes_of_error hresult
      obtain ⟨hwhy, hscope⟩ := hmeets.of_error hresult
      refine ⟨?_, fun _ => hscope⟩
      rw [hcompletes]
      refine iff_of_false Bool.false_ne_true ?_
      rintro ⟨⟨value, hvalue⟩, hfree⟩
      rcases hwhy with ⟨failure, hfailure⟩ | hmem
      · rw [hvalue] at hfailure
        cases hfailure
      · exact hfree hmem

/-- **Single assignment.** However a run ends, it keeps the variables there were and adds others
behind them, under names that stay distinct: one for each declaration that completed, in the order of
their completion, and for all of them if the run succeeds. A declaration completes if its initial tree
succeeds and leaves its name free; otherwise it adds nothing to what its initial tree added. -/
theorem single_assignment (t : Tree) (scope : Scope) :
    let later := (evaluate t scope).scope
    (∃ added, later.toList = scope.toList ++ added ∧
      List.Forall₂ Visit.Declares ((visits t scope).filter Visit.completes) added ∧
        added.map Variable.name <+: t.declaredNames ∧
          ∀ value, (evaluate t scope).result = .ok value →
            added.map Variable.name = t.declaredNames) ∧
      (∀ visit ∈ visits t scope, visit.tree.IsPartOf t) ∧
      (∀ name v, scope.find? name = some v → later.find? name = some v) ∧
      later.names.Nodup ∧ (∀ v ∈ later.toList, later.find? v.name = some v) ∧
      ∀ visit ∈ visits t scope, ∀ keyword n initial,
        visit.tree = .declaration keyword n initial → Kind.ofKeyword? keyword.text ≠ none →
          let inner := evaluate initial visit.scope
          (visit.completes = true ↔
              (∃ value, inner.result = .ok value) ∧ n.text ∉ inner.scope.names) ∧
            (visit.completes = false → visit.outcome.scope = inner.scope) := by
  intro later
  obtain ⟨added, hadded⟩ := additions_evaluate t scope
  refine ⟨⟨added, hadded.toList_eq, hadded.declared, hadded.names_prefix, hadded.names_eq⟩,
    fun _ hvisit => isPartOf_of_mem_visits hvisit, ?_, later.distinct,
    fun v hv => Scope.find?_of_mem hv, ?_⟩
  · intro name v hv
    exact Scope.find?_of_prefix ⟨added, hadded.toList_eq.symm⟩ hv
  · rintro ⟨_, before⟩ - keyword n initial rfl hknown
    exact Visit.completes_declaration hknown n initial before

-- A declaration may take the name that the one around it was to take.
example :
    let inner := Tree.declaration ⟨"int", 1⟩ ⟨"x", 2⟩ (.literal .integer "2" 3)
    let outer := Tree.declaration ⟨"dec", 4⟩ ⟨"x", 5⟩ inner
    (evaluate outer .empty).scope.toList = [⟨"x", .integer, .integer 2⟩] := by
  decide

end StraightLine
