import StraightLine.Proofs.Evaluation.Assignment
import StraightLine.Proofs.Evaluation.Replacement

/-!
Programs compose. A program that is two lists of statements is the program of the first and then, where
that succeeds, the program of the second; so a program among the statements of another is as good as
its own statements in its place.
-/

namespace StraightLine

open Step

/-! ### Programs as their statements -/

theorem blaming_evaluateLast (u : Tree) (value : Value) (ts : List Tree) :
    blaming u (evaluateLast value ts) = evaluateLast value ts := by
  induction ts generalizing value with
  | nil => rfl
  | cons t ts ih =>
      rw [evaluateLast, bind_eq, blaming_andThen, blaming_evaluate]
      simp only [ih]

/-- A program adds nothing to its statements: it is never to blame itself. -/
theorem evaluate_program (statements : List Tree) :
    evaluate (.program statements) = evaluateLast .unit statements := by
  rw [evaluate, blaming_evaluateLast]

/-- Statements that there are decide the value alone. -/
theorem evaluateLast_of_ne_nil {statements : List Tree} (h : statements ≠ []) (value value' : Value) :
    evaluateLast value statements = evaluateLast value' statements := by
  cases statements with
  | nil => exact absurd rfl h
  | cons t ts => rw [evaluateLast, evaluateLast]

theorem evaluateLast_append (value : Value) (ss ts : List Tree) :
    evaluateLast value (ss ++ ts) = andThen (evaluateLast value ss) fun v => evaluateLast v ts := by
  induction ss generalizing value with
  | nil =>
      rw [evaluateLast, pure_eq, yield_andThen]
      rfl
  | cons s ss ih =>
      rw [List.cons_append, evaluateLast, evaluateLast, bind_eq, bind_eq, andThen_assoc]
      simp only [ih]

theorem evaluate_program_append (ss ts : List Tree) (scope : Scope) :
    let first := evaluate (.program ss) scope
    let second := evaluate (.program ts) first.scope
    evaluate (.program (ss ++ ts)) scope =
      match first.result with
      | .error _ => first
      | .ok value => ⟨if ts = [] then .ok value else second.result, second.scope,
          first.output ++ second.output⟩ := by
  intro first second
  rw [evaluate_program, evaluateLast_append, ← evaluate_program]
  cases h : first.result with
  | error failure =>
      rw [andThen_of_error h]
      exact Outcome.ext h.symm rfl rfl
  | ok value =>
      rw [andThen_of_ok h]
      cases ts with
      | nil => rfl
      | cons t ts =>
          have hrest : evaluateLast value (t :: ts) first.scope = second := by
            rw [evaluateLast_of_ne_nil (List.cons_ne_nil t ts) value .unit, ← evaluate_program]
          dsimp only
          rw [if_neg (List.cons_ne_nil t ts), ← hrest]

theorem evaluate_program_append_of_error {ss : List Tree} {scope : Scope} {failure : Failure}
    (h : (evaluate (.program ss) scope).result = .error failure) (ts : List Tree) :
    evaluate (.program (ss ++ ts)) scope = evaluate (.program ss) scope := by
  have happend := evaluate_program_append ss ts scope
  dsimp only at happend
  rw [happend, h]

theorem evaluate_program_append_of_ok {ss : List Tree} {scope : Scope} {value : Value}
    (h : (evaluate (.program ss) scope).result = .ok value) (ts : List Tree) :
    let first := evaluate (.program ss) scope
    let second := evaluate (.program ts) first.scope
    evaluate (.program (ss ++ ts)) scope = ⟨if ts = [] then .ok value else second.result,
      second.scope, first.output ++ second.output⟩ := by
  intro first second
  have happend := evaluate_program_append ss ts scope
  dsimp only at happend
  rw [happend, h]

theorem visitsAll_append (value : Value) (ss ts : List Tree) (scope : Scope) :
    visitsAll (ss ++ ts) scope =
      visitsAll ss scope ++ (evaluateLast value ss scope).onward (visitsAll ts) := by
  induction ss generalizing value scope with
  | nil => rfl
  | cons s ss ih =>
      rw [List.cons_append, visitsAll, visitsAll, evaluateLast, bind_eq]
      cases h : (evaluate s scope).result with
      | error failure => simp only [Outcome.onward, andThen_of_error h, h, List.append_nil]
      | ok v =>
          simp only [Outcome.onward, andThen_of_ok h, h, List.append_assoc]
          rw [ih v]
          rfl

/-! ### Flattening -/

/-- A program among statements is its own statements, unless it is an empty one and gives the last
value. -/
theorem evaluate_program_flatten (before : List Tree) {inner after : List Tree}
    (h : inner ≠ [] ∨ after ≠ []) :
    evaluate (.program (before ++ .program inner :: after)) =
      evaluate (.program (before ++ inner ++ after)) := by
  have hrest : inner ++ after ≠ [] := by
    rw [ne_eq, List.append_eq_nil_iff, not_and_or]
    exact h
  rw [evaluate_program, evaluate_program, List.append_assoc, evaluateLast_append, evaluateLast_append]
  congr 1
  funext value
  rw [evaluateLast, bind_eq, evaluate_program, ← evaluateLast_append]
  exact evaluateLast_of_ne_nil hrest .unit value

/-- Among statements not even the trees to blame tell equal trees apart. -/
theorem evaluate_fillAll_of_isStatement {context : List Frame} (h : ∀ f ∈ context, f.IsStatement)
    {t u : Tree} (heq : evaluate t = evaluate u) :
    evaluate (Frame.fillAll context t) = evaluate (Frame.fillAll context u) := by
  induction context with
  | nil => exact heq
  | cons f context ih =>
      obtain ⟨before, after, rfl⟩ := h f List.mem_cons_self
      have hinside := ih fun g hg => h g (List.mem_cons_of_mem _ hg)
      show evaluate (.program (before ++ Frame.fillAll context t :: after)) =
        evaluate (.program (before ++ Frame.fillAll context u :: after))
      rw [evaluate_program, evaluate_program, evaluateLast_append, evaluateLast_append]
      simp only [evaluateLast, hinside]

/-! ### The theorem -/

/-- **Programs compose.** The program of two lists of statements does what the program of the first
does and then, if that succeeds, what the program of the second does in the scope that the first left.
So a program among the statements of another one may be replaced by its statements, unless it is empty
and the last of them. Wherever the other one stands, the same is written, declared and returned, and
the same error occurs; the tree to blame is the same one, or one of those around the replacement, and
among programs the outcomes are equal. -/
theorem programs_compose :
    (∀ ss ts scope,
      let first := evaluate (.program ss) scope
      let second := evaluate (.program ts) first.scope
      visitsAll (ss ++ ts) scope = visitsAll ss scope ++ first.onward (visitsAll ts) ∧
        evaluate (.program (ss ++ ts)) scope =
          match first.result with
          | .error _ => first
          | .ok value => ⟨if ts = [] then .ok value else second.result, second.scope,
              first.output ++ second.output⟩) ∧
      ∀ before inner after, inner ≠ [] ∨ after ≠ [] →
        let nested := Tree.program (before ++ .program inner :: after)
        let flat := Tree.program (before ++ inner ++ after)
        ∀ context,
          ((∀ f ∈ context, Frame.IsStatement f) →
            evaluate (Frame.fillAll context nested) = evaluate (Frame.fillAll context flat)) ∧
          ∀ scope,
            let outcome := evaluate (Frame.fillAll context nested) scope
            let outcome' := evaluate (Frame.fillAll context flat) scope
            outcome.scope = outcome'.scope ∧ outcome.output = outcome'.output ∧
              ((∃ value, outcome.result = .ok value ∧ outcome'.result = .ok value) ∨
                ∃ failure failure', outcome.result = .error failure ∧
                  outcome'.result = .error failure' ∧
                    failure.DiffersAt context nested flat failure') := by
  refine ⟨fun ss ts scope => ?_, fun before inner after h => ?_⟩
  · intro first second
    refine ⟨?_, evaluate_program_append ss ts scope⟩
    rw [show first = evaluateLast .unit ss scope by rw [← evaluate_program]]
    exact visitsAll_append .unit ss ts scope
  · intro nested flat context
    have hflat : evaluate nested = evaluate flat := evaluate_program_flatten before h
    refine ⟨fun hstatements => evaluate_fillAll_of_isStatement hstatements hflat, fun scope => ?_⟩
    intro outcome outcome'
    have houtcomes := Comparison.replacing_evaluate hflat
      (List.suffix_refl context) scope scope rfl
    obtain ⟨hresults, hscope, houtput⟩ := houtcomes.of_not_exempt fun _ => not_false
    refine ⟨hscope, houtput trivial, ?_⟩
    rcases hresults.inv with ⟨value, _, hok, hok', rfl⟩ | hfails
    · exact Or.inl ⟨value, hok, hok'⟩
    · exact Or.inr hfails

-- An empty program is not without effect where it is the last statement: it has a value too.
example :
    let seven := Tree.literal .integer "7" 1
    (evaluate (.program [seven]) .empty).result = .ok (.integer 7) ∧
      (evaluate (.program [seven, .program []]) .empty).result = .ok .unit :=
  ⟨rfl, rfl⟩

/-- A seven is written, and then it is the value. -/
def Tree.sevens : List Tree :=
  [.call ⟨"WRITE", 1⟩ [.literal .integer "7" 2], .literal .integer "7" 3]

/-- Behind a declaration the outcomes are equal; the quotient by zero of either program fails alike. -/
theorem programs_compose_sevens :
    let nested := Tree.program [.program Tree.sevens]
    let flat := Tree.program Tree.sevens
    let statement : Frame := .statement
      [.declaration ⟨"int", 4⟩ ⟨"x", 5⟩ (.literal .integer "2" 6)] []
    let quotient : Frame := .left ⟨.over, 7⟩ (.literal .integer "0" 8)
    let divided := evaluate (Frame.fillAll [statement, quotient] nested) .empty
    Tree.sevens ≠ [] ∧ (∀ f ∈ [statement], Frame.IsStatement f) ∧
      (evaluate (Frame.fillAll [statement] nested) .empty).result = .ok (.integer 7) ∧
      divided.output = "7" ∧ divided.scope.toList = [⟨"x", .integer, .integer 2⟩] ∧
      ∃ failure, divided.result = .error failure ∧
        failure.DiffersAt [statement, quotient] nested flat
          (.error ⟨.divisionByZero, some (quotient.fill flat)⟩) := by
  intro nested flat statement quotient divided
  have hne : Tree.sevens ≠ [] := List.cons_ne_nil _ _
  have hstatement : ∀ f ∈ [statement], Frame.IsStatement f := by
    intro f hf
    rw [List.mem_singleton.mp hf]
    exact ⟨_, _, rfl⟩
  have hwhole := (programs_compose.2 [] Tree.sevens [] (Or.inl hne) [statement]).1 hstatement
  have hvalue : (evaluate (Frame.fillAll [statement] flat) .empty).result = .ok (.integer 7) := rfl
  obtain ⟨hscope, houtput, hresult⟩ :=
    (programs_compose.2 [] Tree.sevens [] (Or.inl hne) [statement, quotient]).2 .empty
  have hfails : (evaluate (Frame.fillAll [statement, quotient] flat) .empty).result =
      .error (.error ⟨.divisionByZero, some (quotient.fill flat)⟩) := rfl
  refine ⟨hne, hstatement, ?_, houtput.trans (by decide +kernel), ?_, ?_⟩
  · rw [← hvalue]
    exact congrArg (fun step => (step Scope.empty).result) hwhole
  · exact (congrArg Scope.toList hscope).trans (by decide +kernel)
  · rcases hresult with ⟨value, -, hvalue'⟩ | ⟨failure, failure', hfailure, hfailure', hdiffers⟩
    · cases hfails.symm.trans hvalue'
    · cases hfails.symm.trans hfailure'
      exact ⟨failure, hfailure, hdiffers⟩

end StraightLine
