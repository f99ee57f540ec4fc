import Mathlib.Data.List.Forall2
import StraightLine.Proofs.Evaluation.Leaves
import StraightLine.Proofs.Evaluation.Operands

/-!
Two runs side by side. A comparison says which scopes, values and failures correspond; runs of
corresponding trees from corresponding scopes then end in corresponding ways, if the conclusions that
the trees draw do.
-/

namespace StraightLine

/-- What corresponds in two runs. -/
structure Comparison where
  scopes : Scope → Scope → Prop
  values : Value → Value → Prop
  failures : Failure → Failure → Prop
  /-- Whether both runs have to write the same. -/
  sameOutput : Prop := True
  /-- The errors that end a comparison, whichever run meets one. -/
  exempt : Cause → Prop := fun _ => False

/-- That a failure blames nobody yet, or a name. -/
def Failure.PointsAtName (failure : Failure) : Prop :=
  ∀ e g, failure = .error e → e.guilty = some g → ∃ n, g = .name n

theorem Failure.pointsAtName_fault (f : Fault) : (Failure.fault f).PointsAtName := by
  intro e g he
  cases he

theorem Failure.pointsAtName_ofCause (cause : Cause) : (Failure.ofCause cause).PointsAtName := by
  intro e g he hg
  cases he
  cases hg

theorem Failure.pointsAtName_name (cause : Cause) (n : Name) :
    (Failure.error ⟨cause, some (.name n)⟩).PointsAtName := by
  intro e g he hg
  cases he
  cases hg
  exact ⟨n, rfl⟩

theorem Literal.pointsAtName_of_value {kind : LiteralKind} {text : String} {failure : Failure}
    (h : Literal.value kind text = .error failure) : failure.PointsAtName := by
  rcases Literal.failure_of_value h with ⟨f, rfl, -⟩ | ⟨cause, rfl, -⟩
  · exact Failure.pointsAtName_fault _
  · exact Failure.pointsAtName_ofCause cause

theorem pointsAtName_of_operate {op : Operator} {a b : Value} {failure : Failure}
    (h : operate op.name a b = .error failure) : failure.PointsAtName := by
  rcases failure_of_operate h with ⟨-, -, rfl⟩ | ⟨-, rfl⟩ | ⟨-, -, -, rfl⟩
  · exact Failure.pointsAtName_name _ _
  · exact Failure.pointsAtName_name _ _
  · exact Failure.pointsAtName_ofCause _

/-- The failure with another tree to blame in place of each, and another fault in place of each. -/
def Failure.map (onTree : Tree → Tree) (onFault : Fault → Fault) : Failure → Failure
  | .error e => .error ⟨e.cause, e.guilty.map onTree⟩
  | .fault f => .fault (onFault f)

theorem Failure.map_blame (onTree : Tree → Tree) (onFault : Fault → Fault) (failure : Failure)
    (t : Tree) :
    (failure.blame t).map onTree onFault = (failure.map onTree onFault).blame (onTree t) := by
  rcases failure with ⟨cause, guilty⟩ | f
  · cases guilty <;> rfl
  · rfl

/-! ### Views of scopes -/

namespace Scope

variable {α : Type} {see : Value → α}

/-- The declared names with what is seen of their values, in the order of their declaration. -/
def view (see : Value → α) (scope : Scope) : List (String × α) :=
  scope.toList.map fun v => (v.name, see v.value)

theorem names_eq_of_view {scope scope' : Scope} (h : scope.view see = scope'.view see) :
    scope.names = scope'.names := by
  have hfst : (scope.view see).map Prod.fst = (scope'.view see).map Prod.fst := by rw [h]
  simpa [view, names, Function.comp_def] using hfst

theorem map_find?_eq_view (see : Value → α) (scope : Scope) (name : String) :
    (scope.find? name).map (fun v => see v.value) =
      ((scope.view see).find? (·.1 = name)).map Prod.snd := by
  rw [find?, view, List.find?_map, Option.map_map]
  rfl

theorem view_of_toList {scope later : Scope} {v : Variable}
    (h : later.toList = scope.toList ++ [v]) :
    later.view see = scope.view see ++ [(v.name, see v.value)] := by
  rw [view, h, List.map_append]
  rfl

end Scope

namespace Comparison

variable (c : Comparison) {α α' β β' : Type}

/-- Two successes with related values, or two failures that correspond. -/
inductive Results (related : α → α' → Prop) : Except Failure α → Except Failure α' → Prop where
  | ok {a : α} {a' : α'} (h : related a a') : Results related (.ok a) (.ok a')
  | error {failure failure' : Failure} (h : c.failures failure failure') :
      Results related (.error failure) (.error failure')

def Exempt (result : Except Failure α) : Prop :=
  ∃ e, result = .error (.error e) ∧ c.exempt e.cause

/-- Two outcomes that correspond, unless an exempt error ends the comparison. -/
def Outcomes (related : α → α' → Prop) (o : Outcome α) (o' : Outcome α') : Prop :=
  c.Exempt o.result ∨ c.Exempt o'.result ∨
    (c.Results related o.result o'.result ∧ c.scopes o.scope o'.scope ∧
      (c.sameOutput → o.output = o'.output))

/-- Two steps that lead from corresponding scopes to corresponding outcomes. -/
def Steps (related : α → α' → Prop) (s : Step α) (s' : Step α') : Prop :=
  ∀ scope scope', c.scopes scope scope' → c.Outcomes related (s scope) (s' scope')

variable {c} {related : α → α' → Prop} {next : β → β' → Prop}

theorem Results.inv {result : Except Failure α} {result' : Except Failure α'}
    (h : c.Results related result result') :
    (∃ a a', result = .ok a ∧ result' = .ok a' ∧ related a a') ∨
      ∃ failure failure', result = .error failure ∧ result' = .error failure' ∧
        c.failures failure failure' := by
  cases h with
  | ok h => exact Or.inl ⟨_, _, rfl, rfl, h⟩
  | error h => exact Or.inr ⟨_, _, rfl, rfl, h⟩

theorem steps_yield {a : α} {a' : α'} (h : related a a') :
    c.Steps related (Step.yield a) (Step.yield a') :=
  fun _ _ hscope => Or.inr (Or.inr ⟨.ok h, hscope, fun _ => rfl⟩)

theorem steps_fail {failure failure' : Failure} (h : c.failures failure failure') :
    c.Steps related (Step.fail failure) (Step.fail failure') :=
  fun _ _ hscope => Or.inr (Or.inr ⟨.error h, hscope, fun _ => rfl⟩)

theorem steps_write {text text' : String} (h : c.sameOutput → text = text') :
    c.Steps (fun _ _ => True) (Step.write text) (Step.write text') :=
  fun _ _ hscope => Or.inr (Or.inr ⟨.ok trivial, hscope, h⟩)

theorem steps_ofExcept {result : Except Failure α} {result' : Except Failure α'}
    (h : c.Exempt result ∨ c.Exempt result' ∨ c.Results related result result') :
    c.Steps related (Step.ofExcept result) (Step.ofExcept result') := by
  intro scope scope' hscope
  rcases h with ⟨e, rfl, he⟩ | ⟨e, rfl, he⟩ | hresults
  · exact Or.inl ⟨e, rfl, he⟩
  · exact Or.inr (Or.inl ⟨e, rfl, he⟩)
  · cases hresults with
    | ok h => exact steps_yield h scope scope' hscope
    | error h => exact steps_fail h scope scope' hscope

/-- An exempt error of the first steps ends the comparison; behind corresponding successes the second
steps decide. -/
theorem steps_andThen {s : Step α} {s' : Step α'} {f : α → Step β} {f' : α' → Step β'}
    (h : c.Steps related s s') (hnext : ∀ a a', related a a' → c.Steps next (f a) (f' a')) :
    c.Steps next (Step.andThen s f) (Step.andThen s' f') := by
  intro scope scope' hscope
  rcases h scope scope' hscope with ⟨e, he, hexempt⟩ | ⟨e, he, hexempt⟩ | ⟨hresults, hafter, houtput⟩
  · exact Or.inl ⟨e, by rw [Step.andThen_of_error he], hexempt⟩
  · exact Or.inr (Or.inl ⟨e, by rw [Step.andThen_of_error he], hexempt⟩)
  · rcases hresults.inv with ⟨a, a', hs, hs', hvalues⟩ | ⟨failure, failure', hs, hs', hfailures⟩
    · rw [Step.andThen_of_ok hs, Step.andThen_of_ok hs']
      refine (hnext _ _ hvalues _ _ hafter).imp_right (Or.imp_right ?_)
      rintro ⟨hresults, hlast, houtput'⟩
      refine ⟨hresults, hlast, fun hsame => ?_⟩
      rw [houtput hsame, houtput' hsame]
    · rw [Step.andThen_of_error hs, Step.andThen_of_error hs']
      exact Or.inr (Or.inr ⟨.error hfailures, hafter, houtput⟩)

theorem exempt_mapError_blame {result : Except Failure α} (t : Tree) (h : c.Exempt result) :
    c.Exempt (result.mapError (·.blame t)) := by
  obtain ⟨e, rfl, he⟩ := h
  exact ⟨e.blame t, rfl, he⟩

theorem steps_blaming {s : Step α} {s' : Step α'} {t t' : Tree}
    (h : c.Steps related s s')
    (hblame : ∀ failure failure', c.failures failure failure' →
      c.failures (failure.blame t) (failure'.blame t')) :
    c.Steps related (Step.blaming t s) (Step.blaming t' s') := by
  intro scope scope' hscope
  rcases h scope scope' hscope with hexempt | hexempt | ⟨hresults, hafter, houtput⟩
  · exact Or.inl (exempt_mapError_blame t hexempt)
  · exact Or.inr (Or.inl (exempt_mapError_blame t' hexempt))
  · refine Or.inr (Or.inr ⟨?_, hafter, houtput⟩)
    rw [Step.blaming, Step.blaming]
    dsimp only
    generalize (s scope).result = result at hresults ⊢
    generalize (s' scope').result = result' at hresults ⊢
    cases hresults with
    | ok hvalues => exact .ok hvalues
    | error hfailures => exact .error (hblame _ _ hfailures)

theorem rel_of_map_eq {γ : Type} {f : α → γ} {o o' : Option α} (h : o.map f = o'.map f) :
    Option.Rel (fun a a' => f a = f a') o o' := by
  cases o with
  | none =>
      cases o' with
      | none => exact .none
      | some a' => cases h
  | some a =>
      cases o' with
      | none => cases h
      | some a' => exact .some (Option.some.inj h)

/-- The variables of one name, both declared or both missing. -/
theorem steps_valueNamed (hcause : ∀ cause, c.failures (.ofCause cause) (.ofCause cause))
    {name : String}
    (h : ∀ scope scope', c.scopes scope scope' →
      Option.Rel (fun v v' => c.values v.value v'.value) (scope.find? name) (scope'.find? name)) :
    c.Steps c.values (Step.valueNamed name) (Step.valueNamed name) := by
  have hvariable : c.Steps (fun v v' => c.values v.value v'.value)
      (Step.variableNamed name) (Step.variableNamed name) := by
    intro scope scope' hscope
    have hfound := h scope scope' hscope
    rw [Step.variableNamed, Step.variableNamed]
    generalize scope.find? name = found at hfound ⊢
    generalize scope'.find? name = found' at hfound ⊢
    cases hfound with
    | @some v v' hvalue =>
        have hyield : c.Steps (fun v v' : Variable => c.values v.value v'.value) (Step.yield v)
            (Step.yield v') := steps_yield hvalue
        exact hyield scope scope' hscope
    | none => exact steps_fail (hcause (.undefined name)) scope scope' hscope
  exact steps_andThen hvariable fun _ _ hvalue => steps_yield hvalue

/-- Scopes that know the same names declare together. -/
theorem rel_declare? {later : Scope → Scope → Prop} {scope scope' : Scope} {v v' : Variable}
    (hnames : v.name ∈ scope.names ↔ v'.name ∈ scope'.names)
    (h : ∀ next next', next.toList = scope.toList ++ [v] → next'.toList = scope'.toList ++ [v'] →
      later next next') :
    Option.Rel later (scope.declare? v) (scope'.declare? v') := by
  cases hnext : scope.declare? v with
  | none =>
      rw [Scope.declare?_eq_none_iff, hnames, ← Scope.declare?_eq_none_iff] at hnext
      rw [hnext]
      exact .none
  | some next =>
      cases hnext' : scope'.declare? v' with
      | none =>
          rw [Scope.declare?_eq_none_iff, ← hnames, ← Scope.declare?_eq_none_iff, hnext] at hnext'
          cases hnext'
      | some next' =>
          exact .some (h next next' (Scope.toList_of_declare? hnext) (Scope.toList_of_declare? hnext'))

/-- Two variables of one name, both declared with corresponding scopes as the result, or both
refused. -/
theorem steps_declare (hcause : ∀ cause, c.failures (.ofCause cause) (.ofCause cause))
    {v v' : Variable} (hname : v.name = v'.name)
    (h : ∀ scope scope', c.scopes scope scope' →
      Option.Rel c.scopes (scope.declare? v) (scope'.declare? v')) :
    c.Steps (fun _ _ => True) (Step.declare v) (Step.declare v') := by
  intro scope scope' hscope
  have hdeclared := h scope scope' hscope
  rw [Step.declare, Step.declare]
  generalize scope.declare? v = later at hdeclared ⊢
  generalize scope'.declare? v' = later' at hdeclared ⊢
  cases hdeclared with
  | some hlater => exact steps_yield trivial _ _ hlater
  | none =>
      rw [← hname]
      exact steps_fail (hcause (.duplicate v.name)) scope scope' hscope

/-- Scopes that look alike know the same names, with values that look alike. -/
theorem rel_find?_of_view {see : Value → α} {scope scope' : Scope}
    (h : scope.view see = scope'.view see) (name : String) :
    Option.Rel (fun v v' => see v.value = see v'.value) (scope.find? name) (scope'.find? name) := by
  have hseen := scope.map_find?_eq_view see name
  rw [h, ← scope'.map_find?_eq_view see name] at hseen
  exact rel_of_map_eq hseen

/-- Scopes that look alike go on to look alike when values that look alike are declared. -/
theorem rel_declare?_of_view {see : Value → α} {scope scope' : Scope}
    (h : scope.view see = scope'.view see) (name : String) (type type' : Kind) {v v' : Value}
    (hv : see v = see v') :
    Option.Rel (fun later later' => later.view see = later'.view see)
      (scope.declare? ⟨name, type, v⟩) (scope'.declare? ⟨name, type', v'⟩) := by
  have hnames := Scope.names_eq_of_view h
  refine rel_declare? (by rw [hnames]) fun later later' hlater hlater' => ?_
  rw [Scope.view_of_toList hlater, Scope.view_of_toList hlater', h, hv]

theorem steps_evaluateAll {ts ts' : List Tree}
    (h : List.Forall₂ (fun t t' => c.Steps c.values (evaluate t) (evaluate t')) ts ts') :
    c.Steps (List.Forall₂ c.values) (evaluateAll ts) (evaluateAll ts') := by
  induction h with
  | nil =>
      rw [evaluateAll_nil]
      exact steps_yield .nil
  | cons ht _ ih =>
      rw [evaluateAll_cons, evaluateAll_cons]
      refine steps_andThen ht fun value value' hvalue => ?_
      refine steps_andThen ih fun values values' hvalues => ?_
      exact steps_yield (.cons hvalue hvalues)

/-- **Comparing evaluations.** Two trees correspond if their operands do, one by one, and they draw
corresponding conclusions from corresponding values. -/
theorem steps_evaluate {t t' : Tree}
    (hoperands : List.Forall₂ (fun a a' => c.Steps c.values (evaluate a) (evaluate a'))
      t.operands t'.operands)
    (hconclude : ∀ values values', List.Forall₂ c.values values values' →
      c.Steps c.values (conclude t values) (conclude t' values'))
    (hblame : ∀ failure failure', c.failures failure failure' →
      c.failures (failure.blame t) (failure'.blame t')) :
    c.Steps c.values (evaluate t) (evaluate t') := by
  rw [evaluate_eq t, evaluate_eq t']
  exact steps_blaming (steps_andThen (steps_evaluateAll hoperands) hconclude) hblame

theorem Outcomes.of_not_exempt {o : Outcome α} {o' : Outcome α'} (h : c.Outcomes related o o')
    (hexempt : ∀ cause, ¬c.exempt cause) :
    c.Results related o.result o'.result ∧ c.scopes o.scope o'.scope ∧
      (c.sameOutput → o.output = o'.output) := by
  rcases h with ⟨e, -, he⟩ | ⟨e, -, he⟩ | hrest
  · exact absurd he (hexempt e.cause)
  · exact absurd he (hexempt e.cause)
  · exact hrest

/-- Where values and failures correspond only if they are equal, so do results. -/
theorem Results.eq {result result' : Except Failure α} (h : c.Results Eq result result')
    (hfailures : c.failures = Eq) : result = result' := by
  cases h with
  | ok h => rw [h]
  | error h =>
      rw [hfailures] at h
      rw [h]

/-! ### Conclusions of the same tree -/

/-- What the leaves of a run must respect for one tree to draw corresponding conclusions from
corresponding values. -/
structure Lawful (c : Comparison) : Prop where
  values_refl : ∀ v, c.values v v
  values_declared : ∀ {v v' : Value} (name : String) (type : Kind), c.values v v' →
    c.values (.declared name type v) (.declared name type v')
  values_eq : c.sameOutput → ∀ {v v' : Value}, c.values v v' → v = v'
  failures_refl : ∀ failure : Failure, failure.PointsAtName → c.failures failure failure
  failures_blame : ∀ {failure failure' : Failure} (n : Name), c.failures failure failure' →
    c.failures (failure.blame (.name n)) (failure'.blame (.name n))
  operate : ∀ (op : Operator) {a a' b b' : Value}, c.values a a' → c.values b b' →
    c.Exempt (operate op.name a b) ∨ c.Exempt (operate op.name a' b') ∨
      c.Results c.values (operate op.name a b) (operate op.name a' b')

/-- Where only equal values correspond, nothing is asked of operations. -/
theorem lawful_of_values_eq (hvalues : c.values = Eq)
    (hrefl : ∀ failure : Failure, failure.PointsAtName → c.failures failure failure)
    (hblame : ∀ {failure failure' : Failure} (n : Name), c.failures failure failure' →
      c.failures (failure.blame (.name n)) (failure'.blame (.name n))) : c.Lawful where
  values_refl v := by rw [hvalues]
  values_declared name type h := by
    rw [hvalues] at h ⊢
    rw [h]
  values_eq _ _ _ h := by rwa [hvalues] at h
  failures_refl := hrefl
  failures_blame := hblame
  operate op a a' b b' ha hb := by
    rw [hvalues] at ha hb ⊢
    cases ha
    cases hb
    refine Or.inr (Or.inr ?_)
    cases hresult : operate op.name a b with
    | ok value => exact .ok rfl
    | error failure => exact .error (hrefl failure (pointsAtName_of_operate hresult))

theorem Lawful.failures_ofCause (hc : c.Lawful) (cause : Cause) :
    c.failures (.ofCause cause) (.ofCause cause) :=
  hc.failures_refl _ (Failure.pointsAtName_ofCause cause)

theorem results_refl (hc : c.Lawful) {result : Except Failure Value}
    (h : ∀ failure, result = .error failure → failure.PointsAtName) :
    c.Results c.values result result := by
  cases result with
  | ok v => exact .ok (hc.values_refl v)
  | error failure => exact .error (hc.failures_refl failure (h failure rfl))

theorem values_headD (hc : c.Lawful) {values values' : List Value}
    (h : List.Forall₂ c.values values values') :
    c.values (values.headD .unit) (values'.headD .unit) := by
  cases h with
  | nil => exact hc.values_refl .unit
  | cons hv _ => exact hv

theorem values_getLastD {v v' : Value} (hv : c.values v v') {values values' : List Value}
    (h : List.Forall₂ c.values values values') :
    c.values (values.getLastD v) (values'.getLastD v') := by
  induction h generalizing v v' with
  | nil => exact hv
  | cons hw _ ih =>
      rw [List.getLastD_cons, List.getLastD_cons]
      exact ih hw

/-- **Conclusions correspond** where look-ups and declarations do, the only ones that depend on the
scope. -/
theorem steps_conclude (hc : c.Lawful) {t : Tree}
    (hlookup : ∀ n, t = .identifier n → ∀ scope scope', c.scopes scope scope' →
      Option.Rel (fun v v' => c.values v.value v'.value) (scope.find? n.text) (scope'.find? n.text))
    (hdeclare : ∀ keyword n initial, t = .declaration keyword n initial →
      ∀ type v v', c.values v v' → ∀ scope scope', c.scopes scope scope' →
        Option.Rel c.scopes (scope.declare? ⟨n.text, type, v⟩) (scope'.declare? ⟨n.text, type, v'⟩))
    {values values' : List Value} (hvalues : List.Forall₂ c.values values values') :
    c.Steps c.values (conclude t values) (conclude t values') := by
  have hlast := values_getLastD (hc.values_refl .unit) hvalues
  cases t with
  | name n | phrase | expression =>
      refine steps_fail (hc.failures_refl _ ?_)
      exact Failure.pointsAtName_fault _
  | literal kind text spot =>
      refine steps_ofExcept (Or.inr (Or.inr (results_refl hc fun failure hfailure => ?_)))
      exact Literal.pointsAtName_of_value hfailure
  | identifier n => exact steps_valueNamed hc.failures_ofCause (hlookup n rfl)
  | parentheses inner => exact steps_yield hlast
  | program statements => exact steps_yield hlast
  | binary lhs op rhs => exact steps_ofExcept (hc.operate op (values_headD hc hvalues) hlast)
  | call callee args =>
      have hoperation : c.Results Eq (Procedure.called callee) (Procedure.called callee) := by
        rw [Procedure.called]
        split
        · exact .ok rfl
        · exact .error (hc.failures_refl _ (Failure.pointsAtName_name _ callee))
      refine steps_andThen (steps_ofExcept (Or.inr (Or.inr hoperation))) ?_
      rintro procedure _ rfl
      refine steps_andThen (steps_write fun hsame => ?_) fun _ _ _ =>
        steps_yield (hc.values_refl .unit)
      have hequal : List.Forall₂ Eq values values' := hvalues.imp fun _ _ => hc.values_eq hsame
      rw [List.forall₂_eq_eq_eq] at hequal
      rw [hequal]
  | declaration keyword n initial =>
      cases htype : Kind.ofKeyword? keyword.text with
      | none =>
          rw [conclude_declaration_of_none htype, conclude_declaration_of_none htype]
          exact steps_fail (hc.failures_refl _ (Failure.pointsAtName_fault _))
      | some type =>
          rw [conclude_declaration_of_some htype, conclude_declaration_of_some htype]
          have hdeclared : c.Steps (fun _ _ => True)
              (Step.declare ⟨n.text, type, values.getLastD .unit⟩)
              (Step.declare ⟨n.text, type, values'.getLastD .unit⟩) :=
            steps_declare hc.failures_ofCause rfl (hdeclare keyword n initial rfl type _ _ hlast)
          refine steps_andThen (steps_blaming hdeclared fun _ _ h => hc.failures_blame n h) ?_
          exact fun _ _ _ => steps_yield (hc.values_declared n.text type hlast)

end Comparison

end StraightLine
