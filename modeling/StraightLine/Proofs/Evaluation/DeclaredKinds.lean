import StraightLine.Proofs.Evaluation.Composition
import StraightLine.Run

/-!
Declared kinds coerce nothing. An evaluation keeps the kind that a variable is declared as beside its
value and never looks at it again, so that where declarations are statements only, the program may
declare any other kinds and runs as it did.
-/

namespace StraightLine

open Step

/-- The tree with the keyword of another kind, if it is a declaration. -/
def Tree.retyped (type : Kind) : Tree → Tree
  | .declaration keyword n initial => .declaration ⟨type.keyword, keyword.spot⟩ n initial
  | t => t

/-- The value with another declared kind, if it is a variable. -/
def Value.retyped (type : Kind) : Value → Value
  | .declared name _ value => .declared name type value
  | value => value

theorem Value.exists_retyped_self (v : Value) : ∃ type, v = v.retyped type := by
  cases v with
  | declared name type value => exact ⟨type, rfl⟩
  | _ => exact ⟨.text, rfl⟩

/-- The statements of a program as it should be: a declaration of a known kind or a tree that is none,
with no further declaration inside. -/
inductive Tree.DeclaresOnlyItself : Tree → Prop where
  | declaration {keyword n : Name} {initial : Tree} {type : Kind}
      (htype : Kind.ofKeyword? keyword.text = some type) (h : initial.Lacks IsDeclaration) :
      DeclaresOnlyItself (.declaration keyword n initial)
  | expression {t : Tree} (h : t.Lacks IsDeclaration) : DeclaresOnlyItself t

/-- The declared names with their values, in the order of their declaration. -/
def Scope.bindings (scope : Scope) : List (String × Value) :=
  scope.toList.map fun v => (v.name, v.value)

/-! ### Runs beside runs with other kinds -/

/-- Two runs whose scopes bind the same names to the same values, declared as whatever kinds. -/
def Comparison.retyping : Comparison where
  scopes scope scope' := scope.bindings = scope'.bindings
  values := Eq
  failures := Eq

/-- A declaration is never to blame for an error itself. -/
theorem evaluate_declaration_of_some {keyword n : Name} {type : Kind}
    (h : Kind.ofKeyword? keyword.text = some type) (initial : Tree) :
    evaluate (.declaration keyword n initial) = andThen (evaluate initial) fun value =>
      andThen (blaming (.name n) (declare ⟨n.text, type, value⟩)) fun _ =>
        yield (.declared n.text type value) := by
  rw [evaluate_eq, Tree.operands, h, Option.isSome_some, if_pos rfl]
  simp only [evaluateAll_cons, evaluateAll_nil, andThen_assoc, yield_andThen, blaming_andThen,
    blaming_evaluate, conclude_declaration_of_some h, blaming_blaming]
  rfl

namespace Comparison

theorem retyping_blame {failure failure' : Failure} (t : Tree)
    (h : retyping.failures failure failure') :
    retyping.failures (failure.blame t) (failure'.blame t) :=
  congrArg (Failure.blame · t) h

theorem retyping_lawful : retyping.Lawful :=
  lawful_of_values_eq rfl (fun _ _ => rfl) fun n h => retyping_blame (.name n) h

/-- Expressions see the values in the scope only. -/
theorem retyping_evaluate {t : Tree} (h : t.Lacks Tree.IsDeclaration) :
    retyping.Steps Eq (evaluate t) (evaluate t) := by
  induction t using Tree.operands_induction with
  | h t ih =>
      refine steps_evaluate (List.forall₂_same.mpr fun a ha => ?_) (fun _ _ hvalues => ?_)
        fun _ _ => retyping_blame t
      · exact ih a ha (h.child (Tree.mem_children_of_mem_operands ha))
      · refine steps_conclude retyping_lawful ?_ ?_ hvalues
        · intro n _ scope scope' hscope
          have hview : scope.view id = scope'.view id := hscope
          exact rel_find?_of_view hview n.text
        · exact fun keyword n initial ht => absurd ⟨keyword, n, initial, ht⟩ h.whole

/-- A declaration stores and yields the value of its initial tree, beside either kind. -/
theorem retyping_evaluate_retyped {s : Tree} (h : s.DeclaresOnlyItself) (type : Kind) :
    retyping.Steps (fun v v' => ∃ type, v' = v.retyped type) (evaluate s)
      (evaluate (s.retyped type)) := by
  cases h with
  | @declaration keyword n initial former htype hinitial =>
      have hretyped : Kind.ofKeyword? type.keyword = some type := Kind.ofKeyword?_eq_some_iff.mpr rfl
      rw [Tree.retyped, evaluate_declaration_of_some htype, evaluate_declaration_of_some hretyped]
      refine steps_andThen (retyping_evaluate hinitial) ?_
      rintro value _ rfl
      have hdeclared : retyping.Steps (fun _ _ => True) (declare ⟨n.text, former, value⟩)
          (declare ⟨n.text, type, value⟩) := by
        refine steps_declare retyping_lawful.failures_ofCause rfl fun scope scope' hscope => ?_
        have hview : scope.view id = scope'.view id := hscope
        exact rel_declare?_of_view hview n.text former type rfl
      refine steps_andThen (steps_blaming hdeclared fun _ _ => retyping_blame _) fun _ _ _ => ?_
      exact steps_yield ⟨type, rfl⟩
  | expression h =>
      have hsame : s.retyped type = s := by
        cases s with
        | declaration keyword n initial => exact absurd ⟨keyword, n, initial, rfl⟩ h.whole
        | _ => rfl
      rw [hsame, ← andThen_yield (evaluate s)]
      refine steps_andThen (retyping_evaluate h) ?_
      rintro value _ rfl
      exact steps_yield value.exists_retyped_self

theorem retyping_evaluateLast {ss ss' : List Tree} (hss : ∀ s ∈ ss, s.DeclaresOnlyItself)
    (h : List.Forall₂ (fun s s' => ∃ type, s' = Tree.retyped type s) ss ss') {v v' : Value}
    (hv : ∃ type, v' = v.retyped type) :
    retyping.Steps (fun v v' => ∃ type, v' = v.retyped type) (evaluateLast v ss)
      (evaluateLast v' ss') := by
  induction h generalizing v v' with
  | nil => exact steps_yield hv
  | @cons s _ ss ss' hs _ ih =>
      obtain ⟨type, rfl⟩ := hs
      rw [evaluateLast, evaluateLast, bind_eq, bind_eq]
      refine steps_andThen (retyping_evaluate_retyped (hss s List.mem_cons_self) type) ?_
      exact fun _ _ hnext => ih (fun s hs => hss s (List.mem_cons_of_mem _ hs)) hnext

end Comparison

theorem settle_map_retyped (report : Report) (index : Index) (result : Except Failure Value)
    (type : Kind) :
    settle report index (result.map (Value.retyped type)) =
      ((settle report index result).1.map (Value.retyped type), (settle report index result).2) := by
  rcases result with (e | fault) | value
  · show settle report index (.error (.error e)) = _
    rw [settle]
    obtain ⟨fault | _, later⟩ := report.recordError index e
    · rfl
    · rfl
  · rfl
  · rfl

/-- **Declared kinds coerce nothing.** Where declarations are statements only, a program and one with
other kinds in its declarations write the same, bind the same names to the same values and fail in the
same way, with the same tree to blame, or yield the same value, up to the kind of a variable. Their runs
report the same; of the messages only those about variables of another kind than declared depend on
the kinds. -/
theorem declared_kinds_coerce_nothing {statements statements' : List Tree}
    (hwell : ∀ s ∈ statements, s.DeclaresOnlyItself)
    (h : List.Forall₂ (fun s s' => ∃ type, s' = Tree.retyped type s) statements statements')
    (scope : Scope) :
    let first := evaluate (.program statements) scope
    let second := evaluate (.program statements') scope
    first.output = second.output ∧ first.scope.bindings = second.scope.bindings ∧
      scope.toList <+: first.scope.toList ∧ scope.toList <+: second.scope.toList ∧
        ∃ type, second.result = first.result.map (Value.retyped type) ∧ ∀ report index,
          let done := run (.program statements) report index scope
          let done' := run (.program statements') report index scope
          done.output = done'.output ∧ done.scope = first.scope ∧ done'.scope = second.scope ∧
            done.report = done'.report ∧ done'.result = done.result.map (Value.retyped type) ∧
              ∃ opening, done.messages = opening ++ done.report.mismatches first.scope ∧
                done'.messages = opening ++ done.report.mismatches second.scope := by
  intro first second
  have hsteps : Comparison.retyping.Steps (fun v v' => ∃ type, v' = v.retyped type)
      (evaluate (.program statements)) (evaluate (.program statements')) := by
    rw [evaluate_program, evaluate_program]
    exact Comparison.retyping_evaluateLast hwell h Value.unit.exists_retyped_self
  obtain ⟨hresults, hbindings, houtput⟩ :=
    (hsteps scope scope rfl).of_not_exempt fun _ => not_false
  obtain ⟨added, hadded⟩ := additions_evaluate (.program statements) scope
  obtain ⟨added', hadded'⟩ := additions_evaluate (.program statements') scope
  have hresult : ∃ type, second.result = first.result.map (Value.retyped type) := by
    rcases hresults.inv with ⟨v, v', hv, hv', type, rfl⟩ | ⟨failure, _, hfails, hfails', rfl⟩
    · exact ⟨type, hv'.trans (congrArg (Except.map _) hv).symm⟩
    · exact ⟨.text, hfails'.trans (congrArg (Except.map _) hfails).symm⟩
  obtain ⟨type, htype⟩ := hresult
  refine ⟨houtput trivial, hbindings, ⟨added, hadded.toList_eq.symm⟩,
    ⟨added', hadded'.toList_eq.symm⟩, type, htype, fun report index => ?_⟩
  intro done done'
  have hsettled := settle_map_retyped report index first.result type
  rw [← htype] at hsettled
  have hreport : done.report = done'.report := (congrArg Prod.snd hsettled).symm
  refine ⟨houtput trivial, rfl, rfl, hreport, congrArg Prod.fst hsettled,
    report.note ["Running " ++ statements.length.repr ++ " statement(s)."], rfl, ?_⟩
  rw [hreport, h.length_eq]
  rfl

-- A declaration that is an argument is written with its kind.
example :
    let declared (type : Kind) := Tree.declaration ⟨type.keyword, 2⟩ ⟨"x", 3⟩ (.literal .integer "2" 4)
    let written (type : Kind) := (evaluate (.call ⟨"WRITE", 1⟩ [declared type]) .empty).output
    written .integer = "Variable(name='x', declared_type=<VariableType.INT: 'int'>, value=2)" ∧
      written .decimal = "Variable(name='x', declared_type=<VariableType.DEC: 'dec'>, value=2)" := by
  decide +kernel

/-- A number is written and copied; the kinds of both variables are left open. -/
def Tree.copies (type type' : Kind) : List Tree :=
  [.declaration ⟨type.keyword, 1⟩ ⟨"x", 2⟩ (.literal .integer "2" 3),
    .call ⟨"WRITE", 4⟩ [.identifier ⟨"x", 5⟩],
    .declaration ⟨type'.keyword, 6⟩ ⟨"y", 7⟩ (.identifier ⟨"x", 8⟩)]

theorem Tree.declaresOnlyItself_copies (type type' : Kind) :
    ∀ s ∈ copies type type', s.DeclaresOnlyItself := by
  have hknown : ∀ type : Kind, Kind.ofKeyword? type.keyword = some type := fun type =>
    Kind.ofKeyword?_eq_some_iff.mpr rfl
  simp only [copies, List.forall_mem_cons, List.not_mem_nil, false_imp_iff, implies_true, and_true]
  refine ⟨.declaration (hknown type) ?_, .expression ?_, .declaration (hknown type') ?_⟩
  · simp [@lacks_iff _ (.literal _ _ _), IsDeclaration]
  · simp [@lacks_iff _ (.call _ _), @lacks_iff _ (.identifier _), @lacks_iff _ (.name _),
      IsDeclaration]
  · simp [@lacks_iff _ (.identifier _), @lacks_iff _ (.name _), IsDeclaration]

/-- The copy of an integer may be declared a decimal: it is the integer that is bound. -/
theorem declared_kinds_coerce_nothing_copies :
    let first := evaluate (.program (Tree.copies .integer .integer)) .empty
    let second := evaluate (.program (Tree.copies .text .decimal)) .empty
    (∀ s ∈ Tree.copies .integer .integer, s.DeclaresOnlyItself) ∧
      List.Forall₂ (fun s s' => ∃ type, s' = Tree.retyped type s) (Tree.copies .integer .integer)
        (Tree.copies .text .decimal) ∧
      first.output = "2" ∧ second.output = "2" ∧
      second.scope.bindings = [("x", .integer 2), ("y", .integer 2)] ∧
      ∃ type, second.result = .ok (.declared "y" type (.integer 2)) := by
  intro first second
  have hwell := Tree.declaresOnlyItself_copies .integer .integer
  have hretyped : List.Forall₂ (fun s s' => ∃ type, s' = Tree.retyped type s)
      (Tree.copies .integer .integer) (Tree.copies .text .decimal) :=
    .cons ⟨.text, rfl⟩ (.cons ⟨.text, rfl⟩ (.cons ⟨.decimal, rfl⟩ .nil))
  have hwritten : first.output = "2" := by decide +kernel
  have hbound : first.scope.bindings = [("x", .integer 2), ("y", .integer 2)] := by decide +kernel
  have hyielded : first.result = .ok (.declared "y" .integer (.integer 2)) := rfl
  obtain ⟨houtput, hbindings, -, -, type, hresult, -⟩ :=
    declared_kinds_coerce_nothing hwell hretyped .empty
  exact ⟨hwell, hretyped, hwritten, houtput.symm.trans hwritten, hbindings.symm.trans hbound, type,
    hresult.trans (congrArg (Except.map _) hyielded)⟩

end StraightLine
