import StraightLine.Proofs.Source.Attribution

/-!
Spans keep to one source. A ledger writes down the source of each token when the token is inserted.
The index writes down only where its segments begin, and still finds the same tokens; so the ends
of a span are told by what the ledger says of the two tokens.
-/

namespace StraightLine

/-- That a span is made of two tokens without mixing their sources. It reaches from the one to the
other if they are of one source; else it is a single one of them, the left one unless that is built
in. -/
structure Span.Joins (span left right : Span) : Prop where
  path_eq_none_iff : span.path = none ↔ left.path = none ∧ right.path = none
  start : ∃ token ∈ [left, right], token.path = span.path ∧ token.start = span.start
  stop : ∃ token ∈ [left, right], token.path = span.path ∧ token.stop = span.stop
  whole : left.path = right.path → span = ⟨left.path, left.start, right.stop⟩
  alone : left.path ≠ right.path → span = if left.path = none then right else left

theorem Span.joins_of_path_eq {left right : Span} (h : left.path = right.path) :
    Joins ⟨left.path, left.start, right.stop⟩ left right where
  path_eq_none_iff := ⟨fun hnone => ⟨hnone, h ▸ hnone⟩, And.left⟩
  start := ⟨left, List.mem_cons_self, rfl, rfl⟩
  stop := ⟨right, List.mem_cons_of_mem _ List.mem_cons_self, h.symm, rfl⟩
  whole _ := rfl
  alone hne := absurd h hne

theorem Span.joins_of_path_ne {left right : Span} (h : left.path ≠ right.path) :
    Joins (if left.path = none then right else left) left right := by
  by_cases hbuiltIn : left.path = none
  · rw [if_pos hbuiltIn]
    have hmem : right ∈ [left, right] := List.mem_cons_of_mem _ List.mem_cons_self
    exact ⟨⟨fun hnone => ⟨hbuiltIn, hnone⟩, And.right⟩, ⟨right, hmem, rfl, rfl⟩,
      ⟨right, hmem, rfl, rfl⟩, fun heq => absurd heq h, fun _ => (if_pos hbuiltIn).symm⟩
  · rw [if_neg hbuiltIn]
    have hmem : left ∈ [left, right] := List.mem_cons_self
    exact ⟨⟨fun hnone => absurd hnone hbuiltIn, And.left⟩, ⟨left, hmem, rfl, rfl⟩,
      ⟨left, hmem, rfl, rfl⟩, fun heq => absurd heq h, fun _ => (if_neg hbuiltIn).symm⟩

namespace Index

/-- The tokens inserted since the last reset, each in its source, and the source of the next one. -/
structure Ledger where
  tokens : List Span
  current : Option Path

namespace Ledger

/-- The ledger of the built-in token alone. -/
def initial : Ledger := ⟨[⟨none, 0, 0⟩], none⟩

def after (ledger : Ledger) : Call → Ledger
  | .reset => initial
  | .openSegment path _ => { ledger with current := path }
  | .insert start stop =>
    { ledger with tokens := ledger.tokens ++ [⟨ledger.current, start, stop⟩] }

/-- What a sequence of calls has written down. -/
def ofCalls (calls : List Call) : Ledger :=
  calls.foldl after initial

/-- That an index finds the tokens of a ledger at their spots, and no others. -/
structure Tells (ledger : Ledger) (index : Index) : Prop where
  current_eq : index.current = ledger.current
  size_eq : index.tokens.size = ledger.tokens.length
  token_eq : ∀ k (hk : k < ledger.tokens.length), index.token k = .ok ledger.tokens[k]

theorem tells_initial : Tells initial Index.initial where
  current_eq := rfl
  size_eq := rfl
  token_eq k hk := by
    obtain rfl : k = 0 := Nat.lt_one_iff.mp hk
    exact token_initial_zero

/-- **A call keeps the ledger true:** it changes no token there is, and an inserted one is of the
source that is open. -/
theorem Tells.after {ledger : Ledger} {index : Index} (h : ledger.Tells index) (call : Call) :
    (ledger.after call).Tells (index.after call) := by
  have hkept : call ≠ .reset → ∀ k (hk : k < ledger.tokens.length),
      (index.after call).token k = .ok ledger.tokens[k] := fun hcall k hk => by
    rw [token_after hcall (h.size_eq.symm ▸ hk), h.token_eq k hk]
  cases call with
  | reset => exact tells_initial
  | openSegment path text =>
      refine ⟨current_openSegment index path text, ?_, hkept (by simp)⟩
      rw [Index.after, tokens_openSegment, h.size_eq]
      rfl
  | insert start stop =>
      refine ⟨h.current_eq, ?_, fun k hk => ?_⟩
      · simp only [Index.after, Ledger.after, tokens_insert, Array.size_push, List.length_append,
          List.length_singleton, h.size_eq]
      · by_cases hlast : k < ledger.tokens.length
        · rw [hkept (by simp) k hlast]
          simp only [Ledger.after, List.getElem_append_left hlast]
        · simp only [Ledger.after, List.length_append, List.length_singleton] at hk
          obtain rfl : k = ledger.tokens.length := by omega
          have hinserted := index.token_insert_size start stop
          rw [h.size_eq, h.current_eq] at hinserted
          simp only [Index.after, Ledger.after, hinserted, List.getElem_concat_length]

theorem tells_ofCalls (calls : List Call) :
    (ofCalls calls).Tells (Index.initial.afterAll calls) := by
  have hall : ∀ ledger index, Tells ledger index →
      (calls.foldl Ledger.after ledger).Tells (index.afterAll calls) := by
    induction calls with
    | nil => exact fun _ _ h => h
    | cons call calls ih => exact fun _ _ h => ih _ _ (h.after call)
  exact hall _ _ tells_initial

end Ledger

/-- Tokens that can be looked up have a span, and it does not mix their sources. -/
theorem exists_span_joins {index : Index} {first last : Int} {left right : Span}
    (hfirst : index.token first = .ok left) (hlast : index.token last = .ok right) :
    ∃ span, index.span first last = .ok span ∧ span.Joins left right := by
  have hspan : index.span first last = .ok (if left.path = right.path
      then ⟨left.path, left.start, right.stop⟩ else if left.path = none then right else left) := by
    unfold span
    rw [hfirst, hlast]
    simp only [bind, Except.bind, pure, Except.pure]
    cases left.path <;> split <;> rfl
  refine ⟨_, hspan, ?_⟩
  split
  · exact Span.joins_of_path_eq ‹_›
  · exact Span.joins_of_path_ne ‹_›

/-- **A span never mixes sources.** Whatever calls led to an index, its tokens are those that the
calls wrote down, and any two of them have a span: from the one to the other if they are of one
source, and else a single one of them, which is built in only if both are. -/
theorem span_keeps_to_source (calls : List Call) :
    let index := initial.afterAll calls
    let tokens := (Ledger.ofCalls calls).tokens
    index.tokens.size = tokens.length ∧
      ∀ first last (hfirst : first < tokens.length) (hlast : last < tokens.length),
        ∃ span, index.span first last = .ok span ∧ span.Joins tokens[first] tokens[last] := by
  intro index tokens
  have htells := Ledger.tells_ofCalls calls
  refine ⟨htells.size_eq, fun first last hfirst hlast => ?_⟩
  exact exists_span_joins (htells.token_eq first hfirst) (htells.token_eq last hlast)

/-- Two segments of one source, with a segment of none between them: a span reaches over the segment
between, and none begins or ends there if the other end has a source. -/
theorem span_keeps_to_source_revisited :
    let path : Path := ⟨.here, ["main"]⟩
    let calls : List Call := [.openSegment (some path) none, .insert 0 3, .openSegment none none,
      .insert 7 9, .openSegment (some path) (some "y"), .insert 5 6]
    let index := initial.afterAll calls
    (Ledger.ofCalls calls).tokens =
        [⟨none, 0, 0⟩, ⟨some path, 0, 3⟩, ⟨none, 7, 9⟩, ⟨some path, 5, 6⟩] ∧
      index.span 1 3 = .ok ⟨some path, 0, 6⟩ ∧ index.span 2 1 = .ok ⟨some path, 0, 3⟩ ∧
        index.span 0 2 = .ok ⟨none, 0, 9⟩ := by
  intro path calls index
  obtain ⟨-, hspan⟩ := span_keeps_to_source calls
  obtain ⟨across, hacross, hjoinsAcross⟩ := hspan 1 3 (by decide) (by decide)
  obtain ⟨beside, hbeside, hjoinsBeside⟩ := hspan 2 1 (by decide) (by decide)
  obtain ⟨nowhere, hnowhere, hjoinsNowhere⟩ := hspan 0 2 (by decide) (by decide)
  rw [hjoinsAcross.whole rfl] at hacross
  rw [hjoinsBeside.alone (by decide)] at hbeside
  rw [hjoinsNowhere.whole rfl] at hnowhere
  exact ⟨rfl, hacross, hbeside, hnowhere⟩

end Index

end StraightLine
