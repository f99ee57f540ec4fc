import StraightLine.Proofs.Evaluation.Comparison
import StraightLine.Proofs.Tree.Names

/-!
Evaluation is local: of the scope it starts in, a run sees the values of the names that its tree
mentions and whether they are declared, and nothing else. Two scopes that agree there grow in step.
-/

namespace StraightLine

/-- That two scopes declare the same of some names, with the same values. The kinds that they were
declared as and their order do not count. -/
def Scope.AgreesOn (scope : Scope) (names : List String) (scope' : Scope) : Prop :=
  ∀ name ∈ names, (scope.find? name).map Variable.value = (scope'.find? name).map Variable.value

theorem Scope.AgreesOn.mem_names_iff {scope scope' : Scope} {names : List String}
    (h : scope.AgreesOn names scope') {name : String} (hname : name ∈ names) :
    name ∈ scope.names ↔ name ∈ scope'.names := by
  have hsome := congrArg Option.isSome (h name hname)
  rw [Option.isSome_map, Option.isSome_map] at hsome
  rw [← find?_isSome_iff, hsome, find?_isSome_iff]

theorem Scope.find?_of_append {scope later : Scope} {added : List Variable}
    (h : later.toList = scope.toList ++ added) (name : String) :
    later.find? name = (scope.find? name).or (added.find? (·.name = name)) := by
  rw [find?, h, List.find?_append, find?]

/-- Scopes that agree go on to agree when the same variables are added to both. -/
theorem Scope.AgreesOn.append {scope scope' later later' : Scope} {names : List String}
    (h : scope.AgreesOn names scope') {added : List Variable}
    (hlater : later.toList = scope.toList ++ added)
    (hlater' : later'.toList = scope'.toList ++ added) : later.AgreesOn names later' := by
  intro name hname
  rw [find?_of_append hlater, find?_of_append hlater', Option.map_or, Option.map_or, h name hname]

/-- Two runs of one tree from two scopes that agree on some names, which both have added the same
variables since. -/
def Comparison.agreeing (names : List String) (base base' : Scope) : Comparison where
  scopes scope scope' := scope.AgreesOn names scope' ∧ ∃ added,
    scope.toList = base.toList ++ added ∧ scope'.toList = base'.toList ++ added
  values := Eq
  failures := Eq

namespace Comparison

variable {names : List String} {base base' : Scope}

theorem agreeing_lawful : (agreeing names base base').Lawful :=
  lawful_of_values_eq rfl (fun _ _ => rfl) fun n h => congrArg (Failure.blame · (.name n)) h

theorem agreeing_declare? {scope scope' : Scope}
    (h : (agreeing names base base').scopes scope scope') {v : Variable} (hv : v.name ∈ names) :
    Option.Rel (agreeing names base base').scopes (scope.declare? v) (scope'.declare? v) := by
  obtain ⟨hagree, added, hscope, hscope'⟩ := h
  refine rel_declare? (hagree.mem_names_iff hv) fun later later' hlater hlater' => ?_
  refine ⟨hagree.append hlater hlater', added ++ [v], ?_, ?_⟩
  · rw [hlater, hscope, List.append_assoc]
  · rw [hlater', hscope', List.append_assoc]

/-- **Runs go in step** from scopes that agree on all names that their tree mentions. -/
theorem agreeing_evaluate {t : Tree} (ht : t.mentionedNames ⊆ names) :
    (agreeing names base base').Steps Eq (evaluate t) (evaluate t) := by
  induction t using Tree.operands_induction with
  | h t ih =>
      refine steps_evaluate (List.forall₂_same.mpr fun a ha => ?_) (fun _ _ hvalues => ?_) ?_
      · exact ih a ha (List.Subset.trans (Tree.mentionedNames_subset_of_operand ha) ht)
      · refine steps_conclude agreeing_lawful ?_ ?_ hvalues
        · rintro n rfl scope scope' ⟨hagree, -⟩
          exact rel_of_map_eq (hagree n.text (ht List.mem_cons_self))
        · rintro keyword n initial rfl type v _ rfl scope scope' hscope
          exact agreeing_declare? hscope (ht List.mem_cons_self)
      · rintro failure _ rfl
        rfl

end Comparison

/-- **Evaluation is local to the names it mentions.** From scopes that agree on the names that a tree
mentions, its runs yield the same value or fail in the same way, write the same and add the same
variables, behind whichever each scope had. -/
theorem evaluate_of_agreesOn {t : Tree} {scope scope' : Scope}
    (h : scope.AgreesOn t.mentionedNames scope') :
    let first := evaluate t scope
    let second := evaluate t scope'
    first.result = second.result ∧ first.output = second.output ∧
      first.scope.AgreesOn t.mentionedNames second.scope ∧
        ∃ added, first.scope.toList = scope.toList ++ added ∧
          second.scope.toList = scope'.toList ++ added := by
  intro first second
  have hscopes : (Comparison.agreeing t.mentionedNames scope scope').scopes scope scope' :=
    ⟨h, [], (List.append_nil _).symm, (List.append_nil _).symm⟩
  obtain ⟨hresults, ⟨hagree, hadded⟩, houtput⟩ :=
    (Comparison.agreeing_evaluate (List.Subset.refl _) scope scope' hscopes).of_not_exempt
      fun _ => id
  exact ⟨hresults.eq rfl, houtput trivial, hagree, hadded⟩

/-- The square of a variable is declared and written, and then the variable is declared. -/
def Tree.redeclared : Tree :=
  .program [.declaration ⟨"int", 1⟩ ⟨"y", 2⟩
      (.binary (.identifier ⟨"x", 3⟩) ⟨.times, 4⟩ (.identifier ⟨"x", 5⟩)),
    .call ⟨"WRITE", 6⟩ [.identifier ⟨"y", 7⟩],
    .declaration ⟨"int", 8⟩ ⟨"x", 9⟩ (.literal .integer "0" 10)]

/-- Behind another variable, and declared as another kind, the variable stands in the way as before. -/
theorem evaluate_of_agreesOn_redeclared :
    let scope : Scope := ⟨[⟨"x", .integer, .integer 3⟩], List.pairwise_singleton _ "x"⟩
    let scope' : Scope := ⟨[⟨"z", .text, .unit⟩, ⟨"x", .decimal, .integer 3⟩], by decide⟩
    scope.AgreesOn Tree.redeclared.mentionedNames scope' ∧
      (evaluate Tree.redeclared scope').result =
        .error (.error ⟨.duplicate "x", some (.name ⟨"x", 9⟩)⟩) ∧
      (evaluate Tree.redeclared scope').output = "9" ∧
      (evaluate Tree.redeclared scope').scope.toList =
        scope'.toList ++ [⟨"y", .integer, .integer 9⟩] := by
  intro scope scope'
  have hagree : scope.AgreesOn Tree.redeclared.mentionedNames scope' := by
    unfold Scope.AgreesOn
    decide
  have hresult : (evaluate Tree.redeclared scope).result =
      .error (.error ⟨.duplicate "x", some (.name ⟨"x", 9⟩)⟩) := rfl
  have houtput : (evaluate Tree.redeclared scope).output = "9" := by decide +kernel
  have hscope : (evaluate Tree.redeclared scope).scope.toList =
      scope.toList ++ [⟨"y", .integer, .integer 9⟩] := by decide +kernel
  obtain ⟨hsame, hwritten, -, added, hadded, hadded'⟩ := evaluate_of_agreesOn hagree
  rw [hscope] at hadded
  rw [← List.append_cancel_left hadded] at hadded'
  exact ⟨hagree, hsame.symm.trans hresult, hwritten.symm.trans houtput, hadded'⟩

end StraightLine
