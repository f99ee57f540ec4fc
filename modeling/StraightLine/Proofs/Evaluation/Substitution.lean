import StraightLine.Proofs.Evaluation.Comparison
import StraightLine.Proofs.Evaluation.Culprit
import StraightLine.Proofs.Tree.Substitution

/-!
Names stand for the trees that computed their values. A pure tree keeps its value however the scope
grows; so it may take the place of a variable of this value.
-/

namespace StraightLine

open Step

/-! ### Steps that succeed -/

namespace Step

variable {α β : Type} {s : Step α} {next : α → Step β} {t : Tree} {scope : Scope} {a : α} {b : β}

theorem find?_of_valueNamed {name : String} {value : Value}
    (h : (valueNamed name scope).result = .ok value) :
    ∃ v, scope.find? name = some v ∧ v.value = value := by
  obtain ⟨v, hv, hvalue⟩ := ok_of_andThen h
  rw [variableNamed] at hv
  cases hfound : scope.find? name with
  | none =>
      rw [hfound] at hv
      cases hv
  | some w =>
      rw [hfound] at hv
      cases hv
      exact ⟨v, rfl, Except.ok.inj hvalue⟩

end Step

/-- **Pure trees keep their values.** In every scope that continues one where it has a value, a pure
tree has this value, leaves the scope as it is and writes nothing. -/
theorem evaluate_of_isPure {e : Tree} (he : e.IsPure) {scope later : Scope} {value : Value}
    (hvalue : (evaluate e scope).result = .ok value) (h : scope.toList <+: later.toList) :
    evaluate e later = yield value later := by
  induction he generalizing scope later value with
  | literal kind text spot =>
      rw [evaluate] at hvalue ⊢
      have hliteral := ok_of_ofExcept (ok_of_blaming hvalue)
      refine blaming_eq_yield ?_
      rw [hliteral]
      rfl
  | identifier n =>
      rw [evaluate] at hvalue ⊢
      obtain ⟨v, hfound, rfl⟩ := find?_of_valueNamed (ok_of_blaming hvalue)
      exact blaming_eq_yield (valueNamed_eq_yield (Scope.find?_of_prefix h hfound))
  | @parentheses inner _ ih =>
      rw [evaluate] at hvalue ⊢
      exact blaming_eq_yield (ih (ok_of_blaming hvalue) h)
  | @binary lhs rhs op _ _ ihl ihr =>
      rw [evaluate] at hvalue ⊢
      obtain ⟨a, hlhs, hrest⟩ := ok_of_andThen (ok_of_blaming hvalue)
      -- The left operand leaves the scope to the right one as it was.
      rw [ihl hlhs List.prefix_rfl] at hrest
      obtain ⟨b, hrhs, hoperate⟩ := ok_of_andThen hrest
      refine blaming_eq_yield (andThen_eq_yield (ihl hlhs h) (andThen_eq_yield (ihr hrhs h) ?_))
      rw [ok_of_ofExcept hoperate]
      rfl

/-! ### Runs with a variable and with a tree in its place -/

/-- A run whose scope has a variable behind a base, beside one without the variable and with a tree
where its name is. -/
def Comparison.substituting (base : Scope) (v : Variable) (e : Tree) : Comparison where
  scopes scope scope' := ∃ added,
    scope.toList = base.toList ++ v :: added ∧ scope'.toList = base.toList ++ added
  values := Eq
  failures failure failure' := failure' = failure.map (Tree.substitute v.name e) id

namespace Comparison

variable {base : Scope} {v : Variable} {e : Tree}

theorem substituting_find? {scope scope' : Scope}
    (h : (substituting base v e).scopes scope scope') {name : String} (hname : name ≠ v.name) :
    Option.Rel (fun w w' : Variable => w.value = w'.value) (scope.find? name)
      (scope'.find? name) := by
  obtain ⟨added, hscope, hscope'⟩ := h
  have hfind : scope.find? name = scope'.find? name := by
    rw [Scope.find?, Scope.find?, hscope, hscope', List.find?_append, List.find?_append,
      List.find?_cons_of_neg (by simpa using hname.symm)]
  rw [hfind]
  cases scope'.find? name with
  | none => exact .none
  | some w => exact .some rfl

theorem substituting_declare? {scope scope' : Scope}
    (h : (substituting base v e).scopes scope scope') {w : Variable} (hname : w.name ≠ v.name) :
    Option.Rel (substituting base v e).scopes (scope.declare? w) (scope'.declare? w) := by
  obtain ⟨added, hscope, hscope'⟩ := h
  have hnames : w.name ∈ scope.names ↔ w.name ∈ scope'.names := by
    simp only [Scope.names, hscope, hscope', List.map_append, List.map_cons, List.mem_append,
      List.mem_cons, hname, false_or]
  refine rel_declare? hnames fun later later' hlater hlater' => ⟨added ++ [w], ?_, ?_⟩
  · rw [hlater, hscope, List.append_assoc, List.cons_append]
  · rw [hlater', hscope', List.append_assoc]

theorem substituting_refl {failure : Failure} (h : failure.PointsAtName) :
    (substituting base v e).failures failure failure := by
  rcases failure with ⟨cause, guilty⟩ | f
  · cases guilty with
    | none => rfl
    | some g =>
        obtain ⟨n, rfl⟩ := h _ g rfl rfl
        rfl
  · rfl

theorem substituting_blame {failure failure' : Failure} (t : Tree)
    (h : (substituting base v e).failures failure failure') :
    (substituting base v e).failures (failure.blame t)
      (failure'.blame (Tree.substitute v.name e t)) := by
  have hmap : failure' = failure.map (Tree.substitute v.name e) id := h
  rw [hmap]
  exact (Failure.map_blame _ _ failure t).symm

theorem substituting_lawful : (substituting base v e).Lawful :=
  lawful_of_values_eq rfl (fun _ => substituting_refl) fun n h => substituting_blame (.name n) h

/-- The tree in the place of the variable has the variable's value in every scope of the run. -/
theorem substituting_identifier (he : e.IsPure) (hvalue : (evaluate e base).result = .ok v.value)
    {n : Name} (hn : n.text = v.name) :
    (substituting base v e).Steps Eq (evaluate (.identifier n)) (evaluate e) := by
  rintro scope scope' ⟨added, hscope, hscope'⟩
  have hmem : v ∈ scope.toList := by
    rw [hscope]
    exact List.mem_append_right _ List.mem_cons_self
  have hidentifier : evaluate (.identifier n) scope = yield v.value scope := by
    rw [evaluate, hn]
    exact blaming_eq_yield (valueNamed_eq_yield (Scope.find?_of_mem hmem))
  rw [hidentifier, evaluate_of_isPure he hvalue (hscope' ▸ List.prefix_append base.toList added)]
  exact Or.inr (Or.inr ⟨.ok rfl, ⟨added, hscope, hscope'⟩, fun _ => rfl⟩)

/-- **Replacing a variable changes nothing** but the trees to blame. -/
theorem substituting_evaluate (he : e.IsPure) (hvalue : (evaluate e base).result = .ok v.value)
    {t : Tree} (ht : v.name ∉ t.declaredNames) :
    (substituting base v e).Steps Eq (evaluate t) (evaluate (Tree.substitute v.name e t)) := by
  induction t using Tree.operands_induction with
  | h t ih =>
      by_cases hn : ∃ n, t = .identifier n ∧ n.text = v.name
      · obtain ⟨n, rfl, hn⟩ := hn
        rw [Tree.substitute, if_pos hn]
        exact substituting_identifier he hvalue hn
      · have hother : ∀ n, t = .identifier n → n.text ≠ v.name := fun n h heq => hn ⟨n, h, heq⟩
        refine steps_evaluate ?_ (fun values values' hvalues => ?_)
          fun _ _ h => substituting_blame t h
        · rw [Tree.operands_substitute hother, List.forall₂_map_right_iff, List.forall₂_same]
          exact fun a ha => ih a ha fun hmem => ht (Tree.mem_declaredNames_of_operand ha hmem)
        · rw [Tree.conclude_substitute hother]
          refine steps_conclude substituting_lawful
            (fun n h _ _ hscope => substituting_find? hscope (hother n h)) ?_ hvalues
          rintro keyword n initial rfl type w _ rfl _ _ hscope
          refine substituting_declare? hscope fun heq => ht ?_
          rw [Tree.declaredNames, ← heq]
          exact List.mem_append_right _ List.mem_cons_self

end Comparison

/-- **Names are referentially transparent.** If a pure tree has the value of a variable in the scope
that the variable extends, a tree that does not declare its name runs as well without the variable
and with the pure tree wherever the name is. It writes the same, adds the same variables and yields
the same value or fails for the same cause, and blames the same place. -/
theorem evaluate_substitute {e : Tree} (he : e.IsPure) {base extended : Scope} {v : Variable}
    (hvalue : (evaluate e base).result = .ok v.value) (hextended : base.declare? v = some extended)
    {t : Tree} (ht : v.name ∉ t.declaredNames) :
    let given := evaluate t extended
    let replaced := evaluate (Tree.substitute v.name e t) base
    given.output = replaced.output ∧
      (∃ added, given.scope.toList = extended.toList ++ added ∧
        replaced.scope.toList = base.toList ++ added) ∧
      match given.result, replaced.result with
      | .ok value, .ok value' => value = value'
      | .error (.fault f), .error (.fault f') => f = f'
      | .error (.error first), .error (.error second) => first.cause = second.cause ∧
        ∃ guilty, first.guilty = some guilty ∧
          second.guilty = some (Tree.substitute v.name e guilty)
      | _, _ => False := by
  intro given replaced
  have hadded := Scope.toList_of_declare? hextended
  have hscopes : (Comparison.substituting base v e).scopes extended base :=
    ⟨[], hadded, (List.append_nil _).symm⟩
  obtain ⟨hresults, ⟨added, hscope, hscope'⟩, houtput⟩ :=
    (Comparison.substituting_evaluate he hvalue ht extended base hscopes).of_not_exempt fun _ => id
  refine ⟨houtput trivial, ⟨added, ?_, hscope'⟩, ?_⟩
  · rw [hadded, List.append_assoc]
    exact hscope
  · change Comparison.Results _ _ given.result replaced.result at hresults
    cases hgiven : given.result with
    | ok value =>
        rw [hgiven] at hresults
        generalize replaced.result = result at hresults ⊢
        cases hresults with
        | ok hsame => exact hsame
    | error failure =>
        rw [hgiven] at hresults
        generalize replaced.result = result at hresults ⊢
        cases hresults with
        | @error _ failure' hfailure =>
            have hmap : failure' = failure.map (Tree.substitute v.name e) id := hfailure
            rw [hmap]
            rcases failure with first | f
            · obtain ⟨_, guilty, -, -, -, hguilty, -⟩ := exists_culprit hgiven
              refine ⟨rfl, guilty, hguilty, ?_⟩
              rw [hguilty]
              rfl
            · rfl

namespace Tree

/-- One more than a variable. -/
def increment : Tree :=
  .parentheses (.binary (.identifier ⟨"y", 1⟩) ⟨.plus, 2⟩ (.literal .integer "1" 3))

/-- The increment of two, declared as a decimal. -/
def incremented : Tree :=
  .program [.declaration ⟨"int", 4⟩ ⟨"y", 5⟩ (.literal .integer "2" 6),
    .declaration ⟨"dec", 7⟩ ⟨"x", 8⟩ increment]

/-- The square of a variable, written, and then its quotient by zero. -/
def squared : Tree :=
  .program [.declaration ⟨"int", 9⟩ ⟨"z", 10⟩
      (.binary (.identifier ⟨"x", 11⟩) ⟨.times, 12⟩ (.identifier ⟨"x", 13⟩)),
    .call ⟨"WRITE", 14⟩ [.identifier ⟨"z", 15⟩],
    .binary (.identifier ⟨"x", 16⟩) ⟨.over, 17⟩ (.literal .integer "0" 18)]

end Tree

/-- With the sum in place of the variable the quotient fails too, and is blamed with the sum in it. -/
theorem evaluate_substitute_squared :
    let base : Scope := ⟨[⟨"y", .integer, .integer 2⟩], List.pairwise_singleton _ "y"⟩
    let extended := (evaluate Tree.incremented .empty).scope
    Tree.increment.IsPure ∧ (evaluate Tree.increment base).result = .ok (.integer 3) ∧
      base.declare? ⟨"x", .decimal, .integer 3⟩ = some extended ∧
      "x" ∉ Tree.squared.declaredNames ∧ (evaluate Tree.squared extended).output = "9" ∧
      (evaluate (Tree.substitute "x" Tree.increment Tree.squared) base).output = "9" ∧
      ∃ second, (evaluate (Tree.substitute "x" Tree.increment Tree.squared) base).result =
          .error (.error second) ∧ second.cause = .divisionByZero ∧
        second.guilty =
          some (.binary Tree.increment ⟨.over, 17⟩ (.literal .integer "0" 18)) := by
  intro base extended
  have hpure : Tree.increment.IsPure :=
    .parentheses (.binary _ (.identifier _) (.literal .integer "1" 3))
  have hvalue : (evaluate Tree.increment base).result = .ok (.integer 3) :=
    calc
      (evaluate Tree.increment base).result = .ok (.integer (Word.wrap 3)) := rfl
      _ = .ok (.integer 3) := by rw [Word.wrap_of_inRange (by decide)]
  have hextended : base.declare? ⟨"x", .decimal, .integer 3⟩ = some extended := by decide +kernel
  have hnames : "x" ∉ Tree.squared.declaredNames := by decide
  have hwritten : (evaluate Tree.squared extended).output = "9" := by decide +kernel
  have hgiven : (evaluate Tree.squared extended).result = .error (.error ⟨.divisionByZero,
      some (.binary (.identifier ⟨"x", 16⟩) ⟨.over, 17⟩ (.literal .integer "0" 18))⟩) := rfl
  obtain ⟨houtput, -, h⟩ := evaluate_substitute hpure hvalue hextended hnames
  dsimp only at h
  rw [hgiven] at h
  refine ⟨hpure, hvalue, hextended, hnames, hwritten, ?_, ?_⟩
  · rw [← hwritten]
    exact houtput.symm
  generalize (evaluate (Tree.substitute "x" Tree.increment Tree.squared) base).result = result at h ⊢
  rcases result with (second | f) | value
  · obtain ⟨hcause, guilty, hguilty, hreplaced⟩ := h
    cases hguilty
    exact ⟨second, rfl, hcause.symm, hreplaced⟩
  · exact h.elim
  · exact h.elim

end StraightLine
