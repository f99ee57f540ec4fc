import Mathlib.Data.List.Chain
import Mathlib.Order.Bounds.Basic
import StraightLine.Proofs.Source.Attribution
import StraightLine.Proofs.Tree.Parts

/-!
The spans of trees as hulls. Where the tokens of a tree stand in the source as they are read, its first
token begins before all others and its last one ends behind them; so the stretch from the one to the
other covers them all, and reaches no further.
-/

namespace StraightLine

namespace Tree

/-! ### Ends -/

/-- The trees that have no token where one is looked for. -/
def IsHollow (t : Tree) : Prop :=
  t = .phrase ∨ t = .expression ∨ t = .program []

theorem spotsOfAll_append (ts us : List Tree) :
    spotsOfAll (ts ++ us) = spotsOfAll ts ++ spotsOfAll us := by
  induction ts with
  | nil => rfl
  | cons t ts ih => rw [List.cons_append, spotsOfAll, ih, spotsOfAll, List.append_assoc]

/-- The last of some trees ends them all. -/
theorem getLast?_spotsOfAll {ts : List Tree} {t : Tree} {spot : Int} (ht : ts.getLast? = some t)
    (h : t.spots.getLast? = some spot) : (spotsOfAll ts).getLast? = some spot := by
  obtain ⟨front, rfl⟩ := List.getLast?_eq_some_iff.mp ht
  rw [spotsOfAll_append, spotsOfAll, spotsOfAll, List.append_nil, List.getLast?_append, h]
  rfl

/-- The first token is that of the first spot in reading order. -/
theorem exists_firstSpot {t : Tree} (h : t.Lacks IsHollow) :
    ∃ first, t.firstSpot = .ok first ∧ t.spots.head? = some first := by
  induction t with
  | name n | literal kind text spot | identifier n => exact ⟨_, rfl, rfl⟩
  | parentheses inner ih => exact ih (h.child List.mem_cons_self)
  | binary lhs op rhs ihl _ =>
      obtain ⟨first, hfirst, hhead⟩ := ihl (h.child List.mem_cons_self)
      refine ⟨first, hfirst, ?_⟩
      rw [spots, List.head?_append, hhead]
      rfl
  | call callee args _ => exact ⟨_, rfl, rfl⟩
  | declaration keyword n initial _ => exact ⟨_, rfl, rfl⟩
  | program statements ih =>
      cases statements with
      | nil => exact absurd (Or.inr (Or.inr rfl)) h.whole
      | cons s rest =>
          obtain ⟨first, hfirst, hhead⟩ := ih s List.mem_cons_self (h.child List.mem_cons_self)
          refine ⟨first, hfirst, ?_⟩
          rw [spots, spotsOfAll, List.head?_append, hhead]
          rfl
  | phrase => exact absurd (Or.inl rfl) h.whole
  | expression => exact absurd (Or.inr (Or.inl rfl)) h.whole

/-- The last token is that of the last spot in reading order. -/
theorem exists_lastSpot {t : Tree} (h : t.Lacks IsHollow) :
    ∃ last, t.lastSpot = .ok last ∧ t.spots.getLast? = some last := by
  induction t with
  | name n | literal kind text spot | identifier n => exact ⟨_, rfl, rfl⟩
  | parentheses inner ih => exact ih (h.child List.mem_cons_self)
  | binary lhs op rhs _ ihr =>
      obtain ⟨last, hlast, hspots⟩ := ihr (h.child (by simp))
      refine ⟨last, hlast, ?_⟩
      rw [spots, List.getLast?_append, List.getLast?_cons, hspots]
      rfl
  | call callee args ih =>
      rw [lastSpot, lastSpotOfLast_eq, spots]
      cases hargs : args.getLast? with
      | none =>
          rw [List.getLast?_eq_none_iff.mp hargs]
          exact ⟨callee.spot, rfl, rfl⟩
      | some a =>
          have hmem := List.mem_of_getLast? hargs
          obtain ⟨last, hlast, hspots⟩ := ih a hmem (h.child (List.mem_cons_of_mem _ hmem))
          refine ⟨last, hlast, ?_⟩
          rw [List.getLast?_cons, getLast?_spotsOfAll hargs hspots]
          rfl
  | declaration keyword n initial ih =>
      obtain ⟨last, hlast, hspots⟩ := ih (h.child (by simp))
      refine ⟨last, hlast, ?_⟩
      rw [spots, List.getLast?_cons, List.getLast?_cons, hspots]
      rfl
  | program statements ih =>
      rw [lastSpot, lastSpotOfLast_eq, spots]
      cases hstatements : statements.getLast? with
      | none =>
          rw [List.getLast?_eq_none_iff] at hstatements
          rw [hstatements] at h
          exact absurd (Or.inr (Or.inr rfl)) h.whole
      | some s =>
          have hmem := List.mem_of_getLast? hstatements
          obtain ⟨last, hlast, hspots⟩ := ih s hmem (h.child hmem)
          exact ⟨last, hlast, getLast?_spotsOfAll hstatements hspots⟩
  | phrase => exact absurd (Or.inl rfl) h.whole
  | expression => exact absurd (Or.inr (Or.inl rfl)) h.whole

end Tree

section Ends

variable {spots : List Int} {spot : Int} (h : spots.Pairwise (· ≤ ·))

include h

theorem isLeast_of_head? (hspot : spots.head? = some spot) :
    IsLeast {s | s ∈ spots} spot := by
  obtain ⟨rest, rfl⟩ := List.head?_eq_some_iff.mp hspot
  refine ⟨List.mem_cons_self, fun s hs => ?_⟩
  rcases List.mem_cons.mp hs with rfl | hs
  · exact Int.le_refl s
  · exact List.rel_of_pairwise_cons h hs

theorem isGreatest_of_getLast? (hspot : spots.getLast? = some spot) :
    IsGreatest {s | s ∈ spots} spot := by
  obtain ⟨front, rfl⟩ := List.getLast?_eq_some_iff.mp hspot
  refine ⟨List.mem_append_right _ (List.mem_singleton_self spot), fun s hs => ?_⟩
  rcases List.mem_append.mp hs with hs | hs
  · exact (List.pairwise_append.mp h).2.2 s hs spot (List.mem_singleton_self spot)
  · exact Int.le_of_eq (List.mem_singleton.mp hs)

end Ends

/-! ### Tokens in the order of their source -/

/-- That stretches follow each other in a source, and each runs forward. -/
structure Stretch.InOrder (stretches : List Stretch) : Prop where
  forward : ∀ s ∈ stretches, s.start ≤ s.stop
  following : stretches.IsChain fun s s' => s.stop ≤ s'.start

/-- That a stretch neither begins nor ends behind another. -/
def Stretch.Precedes (s s' : Stretch) : Prop :=
  s.start ≤ s'.start ∧ s.stop ≤ s'.stop

instance : Trans Stretch.Precedes Stretch.Precedes Stretch.Precedes where
  trans h h' := ⟨h.1.trans h'.1, h.2.trans h'.2⟩

theorem Stretch.InOrder.precedes {stretches : List Stretch} (h : InOrder stretches) {i j : Nat}
    (hij : i ≤ j) (hj : j < stretches.length) : stretches[i].Precedes stretches[j] := by
  have hpairwise : stretches.Pairwise Precedes := by
    refine (h.following.imp_of_mem_imp fun s s' hs hs' hnext => ?_).pairwise
    exact ⟨(h.forward s hs).trans hnext, hnext.trans (h.forward s' hs')⟩
  rcases Nat.lt_or_eq_of_le hij with hlt | rfl
  · exact List.pairwise_iff_getElem.mp hpairwise i j (by omega) hj hlt
  · exact ⟨Int.le_refl _, Int.le_refl _⟩

namespace Index

/-- The calls that insert stretches one after another. -/
def Call.inserts (stretches : List Stretch) : List Call :=
  stretches.map fun s => .insert s.start s.stop

theorem Call.reset_notMem_inserts (stretches : List Stretch) : Call.reset ∉ inserts stretches := by
  simp [inserts]

/-- Stretches that are inserted get the next spots, in the source of the segment that is open. -/
theorem token_of_inserts (index : Index) {stretches : List Stretch} {later : List Call}
    (hlater : Call.reset ∉ later) {k : Nat} (hk : k < stretches.length) :
    (index.afterAll (Call.inserts stretches ++ later)).token (index.tokens.size + k : Nat) =
      .ok ⟨index.current, stretches[k].start, stretches[k].stop⟩ := by
  generalize hs : stretches[k] = s
  have hsplit : stretches = stretches.take k ++ s :: stretches.drop (k + 1) := by
    rw [← hs, ← List.drop_eq_getElem_cons hk, List.take_append_drop]
  generalize hfront : stretches.take k = front at hsplit
  generalize stretches.drop (k + 1) = back at hsplit
  have hlength : front.length = k := by rw [← hfront, List.length_take_of_le (Nat.le_of_lt hk)]
  have hinserts := Call.reset_notMem_inserts front
  generalize hhere : index.afterAll (Call.inserts front) = here
  have hsize : here.tokens.size = index.tokens.size + k := by
    rw [← hhere, size_afterAll index hinserts, ← hlength]
    simp [Call.inserts, List.countP_map, Function.comp_def, Call.isInsert]
  have hcurrent : here.current = index.current := by
    rw [← hhere, current_afterAll index hinserts]
    simp [Call.inserts, List.filterMap_map, Function.comp_def, Call.opened?]
  have hrest : Call.reset ∉ Call.inserts back ++ later := by
    rw [List.mem_append, not_or]
    exact ⟨Call.reset_notMem_inserts back, hlater⟩
  have hcalls : Call.inserts stretches ++ later =
      Call.inserts front ++ .insert s.start s.stop :: (Call.inserts back ++ later) := by
    rw [hsplit]
    simp [Call.inserts]
  rw [hcalls, afterAll_append, hhere, afterAll_cons, ← hsize, token_afterAll hrest, after,
    token_insert_size, hcurrent]
  rw [after, tokens_insert, Array.size_push]
  exact Nat.lt_succ_self _

/-! ### Hulls -/

/-- Where the tokens at some spots begin in their sources. -/
def starts (index : Index) (spots : List Int) : Set Int :=
  {x | ∃ spot ∈ spots, ∃ token, index.token spot = .ok token ∧ token.start = x}

/-- Where the tokens at some spots end in their sources. -/
def stops (index : Index) (spots : List Int) : Set Int :=
  {x | ∃ spot ∈ spots, ∃ token, index.token spot = .ok token ∧ token.stop = x}

/-- That the span of a tree goes from the least of its spots to the greatest, and is the hull of its
tokens in their source. -/
structure IsHull (index : Index) (path : Option Path) (t : Tree) (first last : Int) (span : Span) :
    Prop where
  ends : t.span = .ok (first, last)
  least : IsLeast {spot | spot ∈ t.spots} first
  greatest : IsGreatest {spot | spot ∈ t.spots} last
  found : index.span first last = .ok span
  path_eq : span.path = path
  start : IsLeast (index.starts t.spots) span.start
  stop : IsGreatest (index.stops t.spots) span.stop

/-- That stretches are the tokens of one source from a spot on. -/
def Holds (index : Index) (path : Option Path) (spot : Nat) (stretches : List Stretch) : Prop :=
  ∀ k (hk : k < stretches.length),
    index.token (spot + k : Nat) = .ok ⟨path, stretches[k].start, stretches[k].stop⟩

theorem span_of_tokens {index : Index} {first last : Int} {path : Option Path} {s s' : Stretch}
    (hfirst : index.token first = .ok ⟨path, s.start, s.stop⟩)
    (hlast : index.token last = .ok ⟨path, s'.start, s'.stop⟩) :
    index.span first last = .ok ⟨path, s.start, s'.stop⟩ := by
  unfold span
  rw [hfirst, hlast]
  simp only [bind, Except.bind, if_true]
  rfl

/-- **The span of a tree is the hull of its tokens,** where they stand in their source in the order in
which they are read. -/
theorem Holds.exists_hull {index : Index} {path : Option Path} {base : Nat}
    {stretches : List Stretch} (h : index.Holds path base stretches)
    (horder : Stretch.InOrder stretches) {t : Tree} (hsolid : t.Lacks Tree.IsHollow)
    (hspots : ∀ spot ∈ t.spots, (base : Int) ≤ spot ∧ spot < base + stretches.length)
    (hreading : t.spots.Pairwise (· ≤ ·)) :
    ∃ first last span, index.IsHull path t first last span := by
  have hplace : ∀ spot ∈ t.spots, ∃ k, k < stretches.length ∧ spot = (base + k : Nat) := by
    intro spot hspot
    obtain ⟨hle, hlt⟩ := hspots spot hspot
    exact ⟨(spot - base).toNat, by omega, by omega⟩
  obtain ⟨first, hfirst, hhead⟩ := Tree.exists_firstSpot hsolid
  obtain ⟨last, hlast, hend⟩ := Tree.exists_lastSpot hsolid
  have hleast := isLeast_of_head? hreading hhead
  have hgreatest := isGreatest_of_getLast? hreading hend
  obtain ⟨i, hi, rfl⟩ := hplace first hleast.1
  obtain ⟨j, hj, rfl⟩ := hplace last hgreatest.1
  refine ⟨_, _, _, ⟨?_, hleast, hgreatest, span_of_tokens (h i hi) (h j hj), rfl, ?_, ?_⟩⟩
  · rw [Tree.span, hfirst, hlast]
    rfl
  · refine ⟨⟨_, hleast.1, _, h i hi, rfl⟩, ?_⟩
    rintro x ⟨spot, hspot, token, htoken, rfl⟩
    obtain ⟨k, hk, rfl⟩ := hplace spot hspot
    rw [h k hk] at htoken
    cases htoken
    have hik := hleast.2 hspot
    exact (horder.precedes (by omega) hk).1
  · refine ⟨⟨_, hgreatest.1, _, h j hj, rfl⟩, ?_⟩
    rintro x ⟨spot, hspot, token, htoken, rfl⟩
    obtain ⟨k, hk, rfl⟩ := hplace spot hspot
    rw [h k hk] at htoken
    cases htoken
    have hkj := hgreatest.2 hspot
    exact (horder.precedes (by omega) hj).2

/-- The hull of a part lies inside the hull of the whole. -/
theorem IsHull.within {index : Index} {path : Option Path} {t d : Tree} {first last first' last' : Int}
    {span span' : Span} (h : index.IsHull path t first last span)
    (h' : index.IsHull path d first' last' span') (hpart : d.IsPartOf t) :
    span.start ≤ span'.start ∧ span'.stop ≤ span.stop := by
  refine ⟨h.start.2 ?_, h.stop.2 ?_⟩
  · obtain ⟨spot, hspot, hstart⟩ := h'.start.1
    exact ⟨spot, hpart.spots_subset hspot, hstart⟩
  · obtain ⟨spot, hspot, hstop⟩ := h'.stop.1
    exact ⟨spot, hpart.spots_subset hspot, hstop⟩

/-- **The span of a tree is the hull of its tokens.** Let a segment be opened and tokens inserted in the
order of their source, and let a tree without empty programs and bare nodes be read off these tokens in
their order. Then the span of each part of the tree goes from the least of the part's spots to the
greatest, and is the stretch of that source from where the part's tokens begin to where they end. So it
lies inside the spans of all trees that the part belongs to. -/
theorem span_is_hull (before : Index) (path : Option Path) (text : Option String)
    {stretches : List Stretch} (horder : Stretch.InOrder stretches) {later : List Call}
    (hlater : Call.reset ∉ later) {t : Tree} (hsolid : t.Lacks Tree.IsHollow)
    (hspots : ∀ spot ∈ t.spots, (before.tokens.size : Int) ≤ spot ∧
      spot < before.tokens.size + stretches.length)
    (hreading : t.spots.Pairwise (· ≤ ·)) :
    let index := before.afterAll (.openSegment path text :: (Call.inserts stretches ++ later))
    ∀ n : Tree, n.IsPartOf t → ∃ first last span, index.IsHull path n first last span ∧
      ∀ d : Tree, d.IsPartOf n → ∃ first' last' span', index.IsHull path d first' last' span' ∧
        span.start ≤ span'.start ∧ span'.stop ≤ span.stop := by
  intro index
  have hholds : index.Holds path before.tokens.size stretches := by
    intro k hk
    have htoken := token_of_inserts (before.openSegment path text).2 hlater hk
    rw [tokens_openSegment, current_openSegment] at htoken
    exact htoken
  have hhull : ∀ n : Tree, n.IsPartOf t → ∃ first last span, index.IsHull path n first last span :=
    fun n hn => hholds.exists_hull horder (fun g hg => hsolid g (hg.trans hn))
      (fun spot hspot => hspots spot (hn.spots_subset hspot)) (hreading.sublist hn.spots_sublist)
  intro n hn
  obtain ⟨first, last, span, hspan⟩ := hhull n hn
  refine ⟨first, last, span, hspan, fun d hd => ?_⟩
  obtain ⟨first', last', span', hspan'⟩ := hhull d (hd.trans hn)
  exact ⟨first', last', span', hspan', hspan.within hspan' hd⟩

/-- `f(1, (2))` and `g()`, with no token for what encloses arguments. -/
def twoCalls : Tree :=
  .program [.call ⟨"f", 1⟩ [.literal .integer "1" 2, .parentheses (.literal .integer "2" 3)],
    .call ⟨"g", 4⟩ []]

/-- A call with arguments ends with the last of them, and one without with its callee. -/
theorem span_is_hull_calls :
    let stretches : List Stretch := [⟨0, 1⟩, ⟨2, 3⟩, ⟨6, 7⟩, ⟨9, 10⟩]
    let calls : List Call := .openSegment (some ⟨.here, ["main"]⟩) none ::
      (Call.inserts stretches ++ [.openSegment none none, .insert 0 5])
    let index := initial.afterAll calls
    Stretch.InOrder stretches ∧ Call.reset ∉ [Call.openSegment none none, .insert 0 5] ∧
      twoCalls.Lacks Tree.IsHollow ∧
      (∀ spot ∈ twoCalls.spots, (1 : Int) ≤ spot ∧ spot < 1 + stretches.length) ∧
      twoCalls.spots.Pairwise (· ≤ ·) ∧
      ∃ span, index.IsHull (some ⟨.here, ["main"]⟩) twoCalls 1 4 span ∧
        ∃ span', index.IsHull (some ⟨.here, ["main"]⟩)
            (.call ⟨"f", 1⟩ [.literal .integer "1" 2, .parentheses (.literal .integer "2" 3)])
            1 3 span' ∧ span.start ≤ span'.start ∧ span'.stop ≤ span.stop := by
  intro stretches calls index
  have horder : Stretch.InOrder stretches := ⟨by decide, by simp [stretches]⟩
  have hlater : Call.reset ∉ [Call.openSegment none none, .insert 0 5] := by simp
  have hsolid : twoCalls.Lacks Tree.IsHollow := by
    simp [twoCalls, Tree.IsHollow, @Tree.lacks_iff _ (.program _), @Tree.lacks_iff _ (.call _ _),
      @Tree.lacks_iff _ (.parentheses _), @Tree.lacks_iff _ (.literal _ _ _),
      @Tree.lacks_iff _ (.name _)]
  have hspots : ∀ spot ∈ twoCalls.spots, (1 : Int) ≤ spot ∧ spot < 1 + stretches.length := by decide
  have hreading : twoCalls.spots.Pairwise (· ≤ ·) := by decide
  obtain ⟨first, last, span, hwhole, hparts⟩ := span_is_hull initial (some ⟨.here, ["main"]⟩) none
    horder hlater hsolid hspots hreading twoCalls .whole
  obtain ⟨first', last', span', hpart, hwithin⟩ := hparts _ (.inChild List.mem_cons_self .whole)
  cases hwhole.ends
  cases hpart.ends
  exact ⟨horder, hlater, hsolid, hspots, hreading, span, hwhole, span', hpart, hwithin⟩

end Index

end StraightLine
