import StraightLine.Proofs.Evaluation.Composition
import StraightLine.Proofs.Evaluation.Locality
import StraightLine.Proofs.Evaluation.Silence

/-!
Independent statements may change places. Neither sees what the other declares, so each of them fails
or succeeds by itself; and what runs behind them cannot tell in which order they declared it.
-/

namespace StraightLine

open Step

/-! ### Scopes that differ in what a tree does not see -/

theorem Scope.find?_eq_some_iff {scope : Scope} {name : String} {v : Variable} :
    scope.find? name = some v ↔ v ∈ scope.toList ∧ v.name = name := by
  constructor
  · intro h
    exact ⟨List.mem_of_find?_eq_some h, by simpa using List.find?_some h⟩
  · rintro ⟨hmem, rfl⟩
    exact find?_of_mem hmem

/-- The order of the variables does not count. -/
theorem Scope.find?_of_perm {scope scope' : Scope} (h : scope.toList.Perm scope'.toList)
    (name : String) : scope.find? name = scope'.find? name := by
  apply Option.ext
  intro v
  rw [find?_eq_some_iff, find?_eq_some_iff, h.mem_iff]

theorem Scope.agreesOn_of_append {scope later : Scope} {added : List Variable} {names : List String}
    (h : later.toList = scope.toList ++ added) (hnames : ∀ v ∈ added, v.name ∉ names) :
    scope.AgreesOn names later := by
  intro name hname
  have hnone : added.find? (·.name = name) = none := by
    rw [List.find?_eq_none]
    intro v hv
    simp only [decide_eq_true_eq]
    rintro rfl
    exact hnames v hv hname
  rw [find?_of_append h, hnone, Option.or_none]

/-- Scopes that agree on the names of a tree are the same to it. -/
theorem Scope.AgreesOn.evaluate {t : Tree} {scope scope' : Scope}
    (h : scope.AgreesOn t.mentionedNames scope') :
    (evaluate t scope).result = (evaluate t scope').result ∧
      (evaluate t scope).output = (evaluate t scope').output ∧
        ∃ added, (evaluate t scope).scope.toList = scope.toList ++ added ∧
          (evaluate t scope').scope.toList = scope'.toList ++ added := by
  have hsteps : (Comparison.agreeing t.mentionedNames scope scope').Steps Eq _ _ :=
    Comparison.agreeing_evaluate (List.Subset.refl t.mentionedNames)
  have hscopes : (Comparison.agreeing t.mentionedNames scope scope').scopes scope scope' :=
    ⟨h, [], (List.append_nil _).symm, (List.append_nil _).symm⟩
  obtain ⟨hresults, ⟨-, hadded⟩, houtput⟩ :=
    (hsteps scope scope' hscopes).of_not_exempt fun _ => id
  exact ⟨hresults.eq rfl, houtput trivial, hadded⟩

/-! ### Independent trees -/

/-- That neither tree declares a name that the other one mentions or declares. -/
structure Tree.Independent (a b : Tree) : Prop where
  left : ∀ name ∈ a.declaredNames, name ∉ b.mentionedNames
  right : ∀ name ∈ b.declaredNames, name ∉ a.mentionedNames

theorem Tree.Independent.symm {a b : Tree} (h : a.Independent b) : b.Independent a :=
  ⟨h.right, h.left⟩

/-- What the evaluation of a tree adds to its scope. -/
def Tree.Adds (t : Tree) (scope : Scope) (added : List Variable) : Prop :=
  (evaluate t scope).scope.toList = scope.toList ++ added

/-- What the evaluation of a tree adds where it declares all its names. -/
structure Tree.Declares (t : Tree) (scope : Scope) (added : List Variable) : Prop where
  adds : t.Adds scope added
  names_eq : added.map Variable.name = t.declaredNames

/-- Behind a tree that it is independent of, a tree does what it does in front of it. -/
theorem Tree.Independent.evaluate_behind {a b : Tree} (h : a.Independent b) {scope : Scope}
    {added added' : List Variable} (ha : a.Adds scope added) (hb : b.Adds scope added') :
    let middle := (evaluate a scope).scope
    (evaluate b middle).result = (evaluate b scope).result ∧
      (evaluate b middle).output = (evaluate b scope).output ∧
        (evaluate b middle).scope.toList = scope.toList ++ added ++ added' := by
  intro middle
  obtain ⟨declared, hdeclared⟩ := additions_evaluate a scope
  have hunseen : ∀ v ∈ declared, v.name ∉ b.mentionedNames := by
    intro v hv
    apply h.left
    exact hdeclared.names_prefix.subset (List.mem_map_of_mem hv)
  obtain ⟨hresult, houtput, more, hmore, hmore'⟩ :=
    (Scope.agreesOn_of_append hdeclared.toList_eq hunseen).evaluate
  have hsame : more = added' := List.append_cancel_left (hmore.symm.trans hb)
  refine ⟨hresult.symm, houtput.symm, ?_⟩
  calc (evaluate b middle).scope.toList = middle.toList ++ more := hmore'
    _ = scope.toList ++ added ++ added' := by rw [hsame, show middle.toList = _ from ha]

/-! ### Two statements in either order -/

/-- That a run does not end with a value. -/
def Outcome.Fails {α : Type} (o : Outcome α) : Prop :=
  ∃ failure, o.result = .error failure

/-- Two runs that write the same and add the same variables, but for two groups of them that stand
in either order. -/
structure Outcome.Exchanged {α : Type} (o o' : Outcome α) (scope : Scope)
    (added added' rest : List Variable) : Prop where
  output : o.output = o'.output
  toList : o.scope.toList = scope.toList ++ added ++ added' ++ rest
  toList' : o'.scope.toList = scope.toList ++ added' ++ added ++ rest

theorem Outcome.Exchanged.find? {α : Type} {o o' : Outcome α} {scope : Scope}
    {added added' rest : List Variable} (h : o.Exchanged o' scope added added' rest)
    (name : String) : o.scope.find? name = o'.scope.find? name := by
  apply Scope.find?_of_perm
  rw [h.toList, h.toList']
  apply List.Perm.append_right
  rw [List.append_assoc, List.append_assoc]
  exact List.perm_append_comm.append_left _

theorem evaluate_program_pair (a b : Tree) :
    evaluate (.program [a, b]) = andThen (evaluate a) fun _ => evaluate b := by
  rw [evaluate_program, evaluateLast, bind_eq]
  congr 1
  funext value
  rw [evaluateLast, bind_eq]
  exact andThen_yield (evaluate b)

/-- Where the first of two independent statements fails, or the second would by itself, both orders
fail. -/
theorem Tree.Independent.fails_pair {a b : Tree} (h : a.Independent b) {scope : Scope}
    (hfails : (evaluate a scope).Fails ∨ (evaluate b scope).Fails) :
    (evaluate (.program [a, b]) scope).Fails := by
  rw [evaluate_program_pair]
  cases hresult : (evaluate a scope).result with
  | error failure => exact ⟨failure, by rw [andThen_of_error hresult]⟩
  | ok value =>
      rcases hfails with ⟨failure, hfailure⟩ | ⟨failure, hfailure⟩
      · rw [hresult] at hfailure
        cases hfailure
      · obtain ⟨added, hadded⟩ := additions_evaluate a scope
        obtain ⟨added', hadded'⟩ := additions_evaluate b scope
        have hbehind := h.evaluate_behind hadded.toList_eq hadded'.toList_eq
        refine ⟨failure, ?_⟩
        rw [andThen_of_ok hresult]
        exact hbehind.1.trans hfailure

/-- Where both of them succeed, either order does what the two do by themselves. -/
theorem Tree.Independent.evaluate_pair {a b : Tree} (h : a.Independent b) {scope : Scope}
    {added added' : List Variable} (ha : a.Adds scope added) (hb : b.Adds scope added')
    {value value' : Value} (hvalue : (evaluate a scope).result = .ok value)
    (hvalue' : (evaluate b scope).result = .ok value') :
    let outcome := evaluate (.program [a, b]) scope
    outcome.result = .ok value' ∧
      outcome.output = (evaluate a scope).output ++ (evaluate b scope).output ∧
        outcome.scope.toList = scope.toList ++ added ++ added' := by
  intro outcome
  obtain ⟨hresult, houtput, hscope⟩ := h.evaluate_behind ha hb
  have houtcome : outcome = andThen (evaluate a) (fun _ => evaluate b) scope := by
    rw [← evaluate_program_pair]
  rw [houtcome, andThen_of_ok hvalue]
  refine ⟨hresult.trans hvalue', ?_, hscope⟩
  show (evaluate a scope).output ++ (evaluate b (evaluate a scope).scope).output = _
  rw [houtput]

/-- **Two independent statements,** of which one makes no call, may be evaluated in either order. -/
theorem Tree.Independent.exchange {a b : Tree} (h : a.Independent b)
    (hcalls : a.Lacks IsCall ∨ b.Lacks IsCall) (scope : Scope) :
    let first := evaluate (.program [a, b]) scope
    let second := evaluate (.program [b, a]) scope
    (first.Fails ∧ second.Fails) ∨
      ∃ value value' added added', first.result = .ok value ∧ second.result = .ok value' ∧
        first.Exchanged second scope added added' [] ∧ a.Declares scope added ∧
          b.Declares scope added' := by
  intro first second
  obtain ⟨added, hadded⟩ := additions_evaluate a scope
  obtain ⟨added', hadded'⟩ := additions_evaluate b scope
  cases ha : (evaluate a scope).result with
  | error failure =>
      have hfails : (evaluate a scope).Fails := ⟨failure, ha⟩
      exact Or.inl ⟨h.fails_pair (Or.inl hfails), h.symm.fails_pair (Or.inr hfails)⟩
  | ok value =>
      cases hb : (evaluate b scope).result with
      | error failure =>
          have hfails : (evaluate b scope).Fails := ⟨failure, hb⟩
          exact Or.inl ⟨h.fails_pair (Or.inr hfails), h.symm.fails_pair (Or.inl hfails)⟩
      | ok value' =>
          obtain ⟨hresult, houtput, hscope⟩ :=
            h.evaluate_pair hadded.toList_eq hadded'.toList_eq ha hb
          obtain ⟨hresult', houtput', hscope'⟩ :=
            h.symm.evaluate_pair hadded'.toList_eq hadded.toList_eq hb ha
          refine Or.inr ⟨value', value, added, added', hresult, hresult', ⟨?_, ?_, ?_⟩,
            ⟨hadded.toList_eq, hadded.names_eq value ha⟩,
            hadded'.toList_eq, hadded'.names_eq value' hb⟩
          · rw [houtput, houtput']
            rcases hcalls with hsilent | hsilent
            · rw [isSilent_evaluate hsilent, String.empty_append, String.append_empty]
            · rw [isSilent_evaluate hsilent, String.empty_append, String.append_empty]
          · rw [List.append_nil]
            exact hscope
          · rw [List.append_nil]
            exact hscope'

/-! ### Programs around them -/

/-- Statements in front change nothing about it. -/
theorem Tree.Independent.exchange_behind {a b : Tree} (h : a.Independent b)
    (hcalls : a.Lacks IsCall ∨ b.Lacks IsCall) (before : List Tree) (scope : Scope) :
    let first := evaluate (.program (before ++ [a, b])) scope
    let second := evaluate (.program (before ++ [b, a])) scope
    let middle := (evaluate (.program before) scope).scope
    (first.Fails ∧ second.Fails) ∨
      ∃ value value' added added', first.result = .ok value ∧ second.result = .ok value' ∧
        first.Exchanged second middle added added' [] ∧ a.Declares middle added ∧
          b.Declares middle added' := by
  intro first second middle
  cases hbefore : (evaluate (.program before) scope).result with
  | error failure =>
      have hfirst : first = _ := evaluate_program_append_of_error hbefore [a, b]
      have hsecond : second = _ := evaluate_program_append_of_error hbefore [b, a]
      rw [hfirst, hsecond]
      exact Or.inl ⟨⟨failure, hbefore⟩, failure, hbefore⟩
  | ok start =>
      have hfirst : first = _ := evaluate_program_append_of_ok hbefore [a, b]
      have hsecond : second = _ := evaluate_program_append_of_ok hbefore [b, a]
      rw [if_neg (List.cons_ne_nil _ _)] at hfirst hsecond
      rw [hfirst, hsecond]
      rcases h.exchange hcalls middle with hfails | ⟨value, value', added, added', hvalue, hvalue',
        hexchanged, hdeclares⟩
      · exact Or.inl hfails
      · refine Or.inr ⟨value, value', added, added', hvalue, hvalue', ?_, hdeclares⟩
        refine ⟨?_, hexchanged.toList, hexchanged.toList'⟩
        show _ ++ _ = _ ++ _
        rw [hexchanged.output]

/-- What follows two statements in exchanged order goes on alike. -/
theorem Outcome.Exchanged.append {ss ss' : List Tree} {start scope : Scope} {value value' : Value}
    {added added' : List Variable} (hvalue : (evaluate (.program ss) start).result = .ok value)
    (hvalue' : (evaluate (.program ss') start).result = .ok value')
    (h : (evaluate (.program ss) start).Exchanged (evaluate (.program ss') start) scope added
      added' []) (ts : List Tree) :
    let first := evaluate (.program (ss ++ ts)) start
    let second := evaluate (.program (ss' ++ ts)) start
    (first.Fails ∧ second.Fails) ∨
      ∃ last last' rest, first.result = .ok last ∧ second.result = .ok last' ∧
        (ts ≠ [] → last = last') ∧ first.Exchanged second scope added added' rest := by
  intro first second
  have hfirst : first = _ := evaluate_program_append_of_ok hvalue ts
  have hsecond : second = _ := evaluate_program_append_of_ok hvalue' ts
  have hagree : (evaluate (.program ss) start).scope.AgreesOn (Tree.program ts).mentionedNames
      (evaluate (.program ss') start).scope := by
    intro name _
    rw [h.find? name]
  obtain ⟨hresult, houtput, rest, hrest, hrest'⟩ := hagree.evaluate
  have hexchanged : first.Exchanged second scope added added' rest := by
    rw [hfirst, hsecond]
    refine ⟨?_, ?_, ?_⟩
    · show _ ++ _ = _ ++ _
      rw [h.output, houtput]
    · show _ = _ ++ rest
      rw [hrest, h.toList, List.append_nil]
    · show _ = _ ++ rest
      rw [hrest', h.toList', List.append_nil]
  by_cases hts : ts = []
  · refine Or.inr ⟨value, value', rest, ?_, ?_, fun hne => absurd hts hne, hexchanged⟩
    · rw [hfirst]
      exact if_pos hts
    · rw [hsecond]
      exact if_pos hts
  · have hlast : first.result = second.result := by
      rw [hfirst, hsecond]
      show (if ts = [] then _ else _) = if ts = [] then _ else _
      rw [if_neg hts, if_neg hts, hresult]
    cases hend : first.result with
    | error failure => exact Or.inl ⟨⟨failure, hend⟩, failure, hlast.symm.trans hend⟩
    | ok last =>
        exact Or.inr ⟨last, last, rest, rfl, hlast.symm.trans hend, fun _ => rfl, hexchanged⟩

/-- **Independent statements may be reordered.** Two neighbours in a program, of which neither declares
a name that the other one mentions and of which one at most makes calls, may be evaluated in either
order. Both programs fail, or both succeed and write the same, with the same value if a statement
follows. They declare the same variables, those of the two statements in exchanged places. -/
theorem independent_statements_commute {a b : Tree} (h : a.Independent b)
    (hcalls : a.Lacks Tree.IsCall ∨ b.Lacks Tree.IsCall) (before after : List Tree) (scope : Scope) :
    let first := evaluate (.program (before ++ a :: b :: after)) scope
    let second := evaluate (.program (before ++ b :: a :: after)) scope
    let middle := (evaluate (.program before) scope).scope
    (first.Fails ∧ second.Fails) ∨
      ∃ value value' added added' rest, first.result = .ok value ∧ second.result = .ok value' ∧
        (after ≠ [] → value = value') ∧ first.Exchanged second middle added added' rest ∧
          (∀ name, first.scope.find? name = second.scope.find? name) ∧ a.Declares middle added ∧
            b.Declares middle added' := by
  intro first second middle
  have hsplit : ∀ s t, before ++ s :: t :: after = before ++ [s, t] ++ after := fun s t => by simp
  have hfirst : first = evaluate (.program (before ++ [a, b] ++ after)) scope := by rw [← hsplit]
  have hsecond : second = evaluate (.program (before ++ [b, a] ++ after)) scope := by rw [← hsplit]
  rw [hfirst, hsecond]
  -- It is enough to compare the programs that end with the two statements.
  rcases h.exchange_behind hcalls before scope with
    ⟨⟨failure, hfails⟩, failure', hfails'⟩ | ⟨value, value', added, added', hvalue, hvalue',
      hexchanged, hdeclares⟩
  · rw [evaluate_program_append_of_error hfails, evaluate_program_append_of_error hfails']
    exact Or.inl ⟨⟨failure, hfails⟩, failure', hfails'⟩
  · rcases hexchanged.append hvalue hvalue' after with hfails | ⟨last, last', rest, hlast, hlast',
      hsame, hexchanged⟩
    · exact Or.inl hfails
    · exact Or.inr ⟨last, last', added, added', rest, hlast, hlast', hsame, hexchanged,
        hexchanged.find?, hdeclares⟩

-- Of two calls the order is seen in what they write.
example :
    let written (text : String) := Tree.call ⟨"WRITE", 1⟩ [.literal .text text 2]
    (evaluate (.program [written "'a'", written "'b'"]) .empty).output = "ab" ∧
      (evaluate (.program [written "'b'", written "'a'"]) .empty).output = "ba" := by
  decide +kernel

namespace Tree

/-- A variable and two statements that look at it, of which one writes it. -/
def two : Tree :=
  .declaration ⟨"int", 1⟩ ⟨"x", 2⟩ (.literal .integer "2" 3)

def noted : Tree :=
  .declaration ⟨"int", 4⟩ ⟨"y", 5⟩ (.call ⟨"WRITE", 6⟩ [.identifier ⟨"x", 7⟩])

def copied : Tree :=
  .declaration ⟨"dec", 8⟩ ⟨"z", 9⟩ (.identifier ⟨"x", 10⟩)

theorem copied_lacks_calls : copied.Lacks IsCall := by
  simp [copied, IsCall, @lacks_iff _ (.declaration _ _ _), @lacks_iff _ (.identifier _),
    @lacks_iff _ (.name _)]

end Tree

/-- The copy may come first. -/
theorem independent_statements_commute_copied :
    let first := evaluate (.program [Tree.two, Tree.noted, Tree.copied, .identifier ⟨"z", 11⟩]) .empty
    let second := evaluate (.program [Tree.two, Tree.copied, Tree.noted, .identifier ⟨"z", 11⟩]) .empty
    Tree.noted.Independent Tree.copied ∧ Tree.copied.Lacks Tree.IsCall ∧
      second.result = .ok (.integer 2) ∧ second.output = "2" ∧
      first.scope.find? "y" = some ⟨"y", .integer, .unit⟩ ∧
      second.scope.find? "y" = some ⟨"y", .integer, .unit⟩ := by
  intro first second
  have hindependent : Tree.noted.Independent Tree.copied := ⟨by decide, by decide⟩
  have hresult : first.result = .ok (.integer 2) := rfl
  have houtput : first.output = "2" := by decide +kernel
  have hfind : first.scope.find? "y" = some ⟨"y", .integer, .unit⟩ := by decide +kernel
  rcases independent_statements_commute hindependent (Or.inr Tree.copied_lacks_calls) [Tree.two]
    [.identifier ⟨"z", 11⟩] .empty with ⟨⟨failure, hfails⟩, -⟩ | ⟨value, value', added, added', rest,
      hvalue, hvalue', hsame, hexchanged, hfound, -, -⟩
  · cases hresult.symm.trans hfails
  · rw [hsame (List.cons_ne_nil _ _)] at hvalue
    exact ⟨hindependent, Tree.copied_lacks_calls, hvalue'.trans (hvalue.symm.trans hresult),
      hexchanged.output.symm.trans houtput, hfind, (hfound "y").symm.trans hfind⟩

end StraightLine
