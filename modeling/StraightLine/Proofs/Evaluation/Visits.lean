import StraightLine.Proofs.Evaluation.Operands

/-!
The visits of a run: every tree that it evaluates, with the scope that the tree is evaluated in. A run
that succeeds has visits that succeed. A run that fails stops in one visit, behind visits that succeed,
and all that still ends then are the trees around, which fail as that visit does.
-/

namespace StraightLine

/-- The evaluation of a tree in the course of a run, from the scope that it starts in. -/
structure Visit where
  tree : Tree
  scope : Scope

namespace Visit

def outcome (visit : Visit) : Outcome Value :=
  evaluate visit.tree visit.scope

def Succeeds (visit : Visit) : Prop :=
  ∃ value, visit.outcome.result = .ok value

theorem Succeeds.not_error {visit : Visit} (h : visit.Succeeds) {failure : Failure} :
    visit.outcome.result ≠ .error failure := by
  obtain ⟨value, hvalue⟩ := h
  rw [hvalue]
  intro hfails
  cases hfails

end Visit

/-- What is listed from the scope that an outcome leaves, if the outcome is a success. -/
def Outcome.onward {α β : Type} (outcome : Outcome α) (next : Scope → List β) : List β :=
  match outcome.result with
  | .ok _ => next outcome.scope
  | .error _ => []

theorem Outcome.onward_of_ok {α β : Type} {outcome : Outcome α} {a : α}
    (h : outcome.result = .ok a) (next : Scope → List β) :
    outcome.onward next = next outcome.scope := by
  rw [onward, h]

theorem Outcome.onward_of_error {α β : Type} {outcome : Outcome α} {failure : Failure}
    (h : outcome.result = .error failure) (next : Scope → List β) : outcome.onward next = [] := by
  rw [onward, h]

mutual

/-- The visits of a run in the order in which they end. That of the tree itself ends last, whether it
succeeds or fails. -/
def visits (t : Tree) (scope : Scope) : List Visit :=
  (match t with
    | .parentheses inner => visits inner scope
    | .binary lhs _ rhs => visits lhs scope ++ (evaluate lhs scope).onward (visits rhs)
    | .call _ args => visitsAll args scope
    | .declaration keyword _ initial =>
      if (Kind.ofKeyword? keyword.text).isSome then visits initial scope else []
    | .program statements => visitsAll statements scope
    | .name _ | .literal .. | .identifier _ | .phrase | .expression => []) ++ [⟨t, scope⟩]

def visitsAll : List Tree → Scope → List Visit
  | [], _ => []
  | t :: ts, scope => visits t scope ++ (evaluate t scope).onward (visitsAll ts)

end

theorem visitsAll_singleton (t : Tree) (scope : Scope) : visitsAll [t] scope = visits t scope := by
  rw [visitsAll, Outcome.onward]
  cases (evaluate t scope).result <;> exact List.append_nil _

/-- A tree is visited behind its operands. -/
theorem visits_eq (t : Tree) (scope : Scope) :
    visits t scope = visitsAll t.operands scope ++ [⟨t, scope⟩] := by
  cases t with
  | parentheses inner => rw [visits, Tree.operands, visitsAll_singleton]
  | binary lhs op rhs =>
      have hrhs : visitsAll [rhs] = visits rhs := funext (visitsAll_singleton rhs)
      rw [visits, Tree.operands, visitsAll, hrhs]
  | declaration keyword n initial =>
      rw [visits, Tree.operands]
      split
      · rw [visitsAll_singleton]
      · rfl
  | _ => rfl

theorem mem_visits {t : Tree} {scope : Scope} {visit : Visit} :
    visit ∈ visits t scope ↔ visit ∈ visitsAll t.operands scope ∨ visit = ⟨t, scope⟩ := by
  rw [visits_eq, List.mem_append, List.mem_singleton]

/-! ### Which trees are visited -/

theorem forall_mem_visitsAll {ts : List Tree} {p : Visit → Prop}
    (h : ∀ t ∈ ts, ∀ scope, ∀ visit ∈ visits t scope, p visit) (scope : Scope) :
    ∀ visit ∈ visitsAll ts scope, p visit := by
  intro visit hvisit
  induction ts generalizing scope with
  | nil => cases hvisit
  | cons t ts ih =>
      rw [visitsAll, List.mem_append, Outcome.onward] at hvisit
      rcases hvisit with hfirst | hrest
      · exact h t List.mem_cons_self scope visit hfirst
      · split at hrest
        · exact ih (fun u hu => h u (List.mem_cons_of_mem t hu)) _ hrest
        · cases hrest

/-- What passes from trees to their operands holds of every tree that is visited. -/
theorem forall_mem_visits {p : Tree → Prop} (hoperand : ∀ t, p t → ∀ a ∈ t.operands, p a)
    {t : Tree} (ht : p t) (scope : Scope) : ∀ visit ∈ visits t scope, p visit.tree := by
  induction t using Tree.operands_induction generalizing scope with
  | h t ih =>
      intro visit hvisit
      rcases mem_visits.mp hvisit with hbefore | rfl
      · exact forall_mem_visitsAll (fun a ha => ih a ha (hoperand t ht a ha)) scope visit hbefore
      · exact ht

/-- Nothing is visited but parts of the tree. -/
theorem isPartOf_of_mem_visits {t : Tree} {scope : Scope} {visit : Visit}
    (h : visit ∈ visits t scope) : visit.tree.IsPartOf t :=
  forall_mem_visits (p := fun a => a.IsPartOf t)
    (fun _ hpart _ ha => hpart.child (Tree.mem_children_of_mem_operands ha)) .whole scope visit h

/-! ### Where a run stops -/

/-- A tree that has a value has it from values of its operands. -/
theorem exists_values_of_ok {t : Tree} {scope : Scope} {value : Value}
    (h : (evaluate t scope).result = .ok value) :
    ∃ values, (evaluateAll t.operands scope).result = .ok values := by
  cases hvalues : (evaluateAll t.operands scope).result with
  | ok values => exact ⟨values, rfl⟩
  | error failure =>
      rw [evaluate_of_error hvalues] at h
      cases h

/-- Nobody else is blamed for what an operand fails with. -/
theorem result_of_operands_error {t : Tree} {scope : Scope} {failure : Failure}
    (h : (evaluateAll t.operands scope).result = .error failure) :
    (evaluate t scope).result = .error failure := by
  have hblamed : (Step.blaming t (evaluateAll t.operands) scope).result =
      .error (failure.blame t) := by
    rw [Step.blaming, h]
    rfl
  rw [blaming_evaluateAll, h] at hblamed
  rw [evaluate_of_error h, ← Except.error.inj hblamed]

theorem succeeds_of_mem_visitsAll {ts : List Tree}
    (h : ∀ t ∈ ts, ∀ scope value, (evaluate t scope).result = .ok value →
      ∀ visit ∈ visits t scope, visit.Succeeds)
    {scope : Scope} {values : List Value} (hvalues : (evaluateAll ts scope).result = .ok values) :
    ∀ visit ∈ visitsAll ts scope, visit.Succeeds := by
  induction ts generalizing scope values with
  | nil => exact fun _ hvisit => absurd hvisit List.not_mem_nil
  | cons t ts ih =>
      rw [evaluateAll_cons] at hvalues
      obtain ⟨value, hvalue, hrest⟩ := Step.ok_of_andThen hvalues
      obtain ⟨others, hothers, -⟩ := Step.ok_of_andThen hrest
      rw [visitsAll, Outcome.onward_of_ok hvalue, List.forall_mem_append]
      exact ⟨h t List.mem_cons_self scope value hvalue,
        ih (fun u hu => h u (List.mem_cons_of_mem t hu)) hothers⟩

/-- Where a run succeeds, all its visits do. -/
theorem succeeds_of_mem_visits {t : Tree} {scope : Scope} {value : Value}
    (h : (evaluate t scope).result = .ok value) : ∀ visit ∈ visits t scope, visit.Succeeds := by
  induction t using Tree.operands_induction generalizing scope value with
  | h t ih =>
      obtain ⟨values, hvalues⟩ := exists_values_of_ok h
      rw [visits_eq, List.forall_mem_append, List.forall_mem_singleton]
      exact ⟨succeeds_of_mem_visitsAll (fun a ha _ _ hvalue => ih a ha hvalue) hvalues, value, h⟩

/-- That a run with the visits `seen` stops in a visit. Those in front of it succeed, and so do its
operands, but it fails. Those behind it are of trees around its tree, and fail as it does. -/
structure Visit.Stops (visit : Visit) (seen : List Visit) (failure : Failure) : Prop where
  split : ∃ before around, seen = before ++ visit :: around ∧
    (∀ earlier ∈ before, earlier.Succeeds) ∧
      ∀ outer ∈ around, visit.tree.IsPartOf outer.tree ∧ outer.outcome.result = .error failure
  operands : ∃ values, (evaluateAll visit.tree.operands visit.scope).result = .ok values
  fails : visit.outcome.result = .error failure

namespace Visit.Stops

variable {visit : Visit} {seen : List Visit} {failure : Failure}

theorem mem (h : visit.Stops seen failure) : visit ∈ seen := by
  obtain ⟨before, around, rfl, -⟩ := h.split
  exact List.mem_append_right before List.mem_cons_self

theorem behind (h : visit.Stops seen failure) {earlier : List Visit}
    (hearlier : ∀ other ∈ earlier, other.Succeeds) : visit.Stops (earlier ++ seen) failure := by
  obtain ⟨before, around, rfl, hbefore, haround⟩ := h.split
  refine ⟨⟨earlier ++ before, around, (List.append_assoc ..).symm, ?_, haround⟩, h.operands, h.fails⟩
  exact List.forall_mem_append.mpr ⟨hearlier, hbefore⟩

theorem inside (h : visit.Stops seen failure) {outer : Visit}
    (hpart : visit.tree.IsPartOf outer.tree) (hfails : outer.outcome.result = .error failure) :
    visit.Stops (seen ++ [outer]) failure := by
  obtain ⟨before, around, rfl, hbefore, haround⟩ := h.split
  refine ⟨⟨before, around ++ [outer], List.append_assoc .., hbefore, ?_⟩, h.operands, h.fails⟩
  exact List.forall_mem_append.mpr ⟨haround, List.forall_mem_singleton.mpr ⟨hpart, hfails⟩⟩

/-- No visit of a run fails in another way than the one that it stops in. -/
theorem failure_eq (h : visit.Stops seen failure) {other : Visit} (hother : other ∈ seen)
    {failure' : Failure} (hfails : other.outcome.result = .error failure') : failure' = failure := by
  obtain ⟨before, around, rfl, hbefore, haround⟩ := h.split
  rcases List.mem_append.mp hother with hmem | hmem
  · exact absurd hfails (hbefore other hmem).not_error
  · rcases List.mem_cons.mp hmem with rfl | hmem
    · exact Except.error.inj (hfails.symm.trans h.fails)
    · exact Except.error.inj (hfails.symm.trans (haround other hmem).2)

end Visit.Stops

theorem exists_stops_of_evaluateAll {ts : List Tree} {failure : Failure}
    (h : ∀ t ∈ ts, ∀ scope, (evaluate t scope).result = .error failure →
      ∃ visit : Visit, visit.Stops (visits t scope) failure ∧
        visit.outcome.scope = (evaluate t scope).scope)
    {scope : Scope} (hfails : (evaluateAll ts scope).result = .error failure) :
    ∃ visit : Visit, visit.Stops (visitsAll ts scope) failure ∧
      visit.outcome.scope = (evaluateAll ts scope).scope := by
  induction ts generalizing scope with
  | nil =>
      rw [evaluateAll_nil] at hfails
      cases hfails
  | cons t ts ih =>
      rw [evaluateAll_cons] at hfails ⊢
      cases hresult : (evaluate t scope).result with
      | error failure' =>
          rw [Step.andThen_of_error hresult] at hfails ⊢
          cases hfails
          rw [visitsAll, Outcome.onward_of_error hresult, List.append_nil]
          exact h t List.mem_cons_self scope hresult
      | ok value =>
          rw [Step.andThen_of_ok hresult, Step.andThen_map] at hfails ⊢
          have hrest : (evaluateAll ts (evaluate t scope).scope).result = .error failure := by
            generalize (evaluateAll ts (evaluate t scope).scope).result = result at hfails
            cases result with
            | ok values => cases hfails
            | error failure' => exact hfails
          obtain ⟨visit, hstops, hscope⟩ :=
            ih (fun u hu => h u (List.mem_cons_of_mem t hu)) hrest
          rw [visitsAll, Outcome.onward_of_ok hresult]
          exact ⟨visit, hstops.behind (succeeds_of_mem_visits hresult), hscope⟩

/-- **A run that fails stops in one visit,** in the scope that it leaves. By induction on the tree: the
visit is in an operand that fails, or it is that of the tree itself. -/
theorem exists_stops {t : Tree} {scope : Scope} {failure : Failure}
    (h : (evaluate t scope).result = .error failure) :
    ∃ visit : Visit, visit.Stops (visits t scope) failure ∧
      visit.outcome.scope = (evaluate t scope).scope := by
  induction t using Tree.operands_induction generalizing scope with
  | h t ih =>
      rw [visits_eq]
      cases hall : (evaluateAll t.operands scope).result with
      | ok values =>
          have hbefore : ∀ visit ∈ visitsAll t.operands scope, visit.Succeeds :=
            succeeds_of_mem_visitsAll (fun _ _ _ _ => succeeds_of_mem_visits) hall
          exact ⟨⟨t, scope⟩, ⟨⟨_, [], rfl, hbefore, by simp⟩, ⟨values, hall⟩, h⟩, rfl⟩
      | error failure' =>
          cases h.symm.trans (result_of_operands_error hall)
          obtain ⟨visit, hstops, hscope⟩ := exists_stops_of_evaluateAll (fun a ha _ => ih a ha) hall
          have hpart : visit.tree.IsPartOf t :=
            isPartOf_of_mem_visits (mem_visits.mpr (Or.inl hstops.mem))
          rw [evaluate_of_error hall]
          exact ⟨visit, hstops.inside hpart h, hscope⟩

/-- A run fails as any of its visits does. -/
theorem result_of_mem_visits {t : Tree} {scope : Scope} {visit : Visit}
    (hvisit : visit ∈ visits t scope) {failure : Failure}
    (hfails : visit.outcome.result = .error failure) :
    (evaluate t scope).result = .error failure := by
  cases h : (evaluate t scope).result with
  | ok value => exact absurd hfails (succeeds_of_mem_visits h visit hvisit).not_error
  | error failure' =>
      obtain ⟨_, hstops, -⟩ := exists_stops h
      rw [hstops.failure_eq hvisit hfails]

/-- What a tree concludes where a run stops, with nobody blamed for it by the tree itself. -/
theorem Visit.Stops.concludes {visit : Visit} {seen : List Visit} {failure : Failure}
    (h : visit.Stops seen failure) : ∃ values failure',
      (evaluateAll visit.tree.operands visit.scope).result = .ok values ∧
        (conclude visit.tree values
          (evaluateAll visit.tree.operands visit.scope).scope).result = .error failure' ∧
          failure = failure'.blame visit.tree := by
  obtain ⟨values, hvalues⟩ := h.operands
  have hresult : (evaluate visit.tree visit.scope).result = .error failure := h.fails
  rw [evaluate_of_ok hvalues] at hresult
  dsimp only at hresult
  cases hconcluded : (conclude visit.tree values
      (evaluateAll visit.tree.operands visit.scope).scope).result with
  | ok value =>
      rw [hconcluded] at hresult
      cases hresult
  | error failure' =>
      rw [hconcluded] at hresult
      exact ⟨values, failure', hvalues, hconcluded, (Except.error.inj hresult).symm⟩

end StraightLine
