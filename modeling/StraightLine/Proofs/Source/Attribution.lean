import StraightLine.Proofs.Source.History

/-!
Tokens keep their stretches and their sources. A call other than a reset changes no token there is,
and a token that is inserted belongs to the segment opened last, whether or not tokens were inserted
in the segments before it.
-/

namespace StraightLine.Index

/-! ### Segments -/

/-- The source of the segment that is open. -/
def current (index : Index) : Option Path :=
  index.paths.back (by rw [index.size_paths]; exact index.bounds_pos)

@[simp]
theorem current_insert (index : Index) (start stop : Int) :
    (index.insert start stop).2.current = index.current := rfl

/-- The open segment is the one opened last, also where its opening failed. -/
@[simp]
theorem current_openSegment (index : Index) (path : Option Path) (text : Option String) :
    (index.openSegment path text).2.current = path := by
  simp only [current, Array.back, paths_openSegment, Array.size_push, Nat.add_sub_cancel,
    Array.getElem_push_eq]

/-- The segment of a spot begins there or before, and the next one, if any, behind it. -/
theorem segmentOf_eq {index : Index} {j k : Nat} (hj : j < index.bounds.size)
    (hbegins : index.bounds[j] ≤ k)
    (hnext : ∀ hlt : j + 1 < index.bounds.size, k < index.bounds[j + 1]) :
    index.segmentOf k = j := by
  refine Nat.le_antisymm (Nat.le_of_not_lt fun hbeyond => ?_)
    ((index.le_segmentOf_iff k hj).mpr hbegins)
  have hlt := index.segmentOf_lt k
  rw [index.size_paths] at hlt
  have hsucc : j + 1 < index.bounds.size := by omega
  have hreach := (index.le_segmentOf_iff k hsucc).mp hbeyond
  have := hnext hsucc
  omega

/-- Every segment begins at the number of tokens or before it. -/
theorem pathOf_of_size_le (index : Index) {k : Nat} (hk : index.tokens.size ≤ k) :
    index.pathOf k = index.current := by
  have hpos := index.bounds_pos
  have hlast : index.bounds.size - 1 < index.bounds.size := by omega
  have hsegment : index.segmentOf k = index.paths.size - 1 := by
    rw [index.size_paths]
    refine segmentOf_eq hlast ?_ fun hlt => by omega
    exact Nat.le_trans (index.bounds_le _ (Array.getElem_mem hlast)) hk
  simp only [pathOf, hsegment]
  rfl

/-- A segment without tokens as yet begins behind every token. -/
theorem segmentOf_openSegment {index : Index} {k : Nat} (hk : k < index.tokens.size)
    (path : Option Path) (text : Option String) :
    (index.openSegment path text).2.segmentOf k = index.segmentOf k := by
  have hlt := index.segmentOf_lt k
  rw [index.size_paths] at hlt
  refine segmentOf_eq (by rw [bounds_openSegment, Array.size_push]; omega) ?_ fun hsucc => ?_
  · simp only [bounds_openSegment, Array.getElem_push_lt hlt]
    exact (index.le_segmentOf_iff k hlt).mp (Nat.le_refl _)
  · simp only [bounds_openSegment] at hsucc ⊢
    by_cases hold : index.segmentOf k + 1 < index.bounds.size
    · rw [Array.getElem_push_lt hold]
      have hreach := index.le_segmentOf_iff k hold
      omega
    · rw [Array.size_push] at hsucc
      have hsize : index.segmentOf k + 1 = index.bounds.size := by omega
      simp only [hsize, Array.getElem_push_eq]
      exact hk

theorem pathOf_openSegment {index : Index} {k : Nat} (hk : k < index.tokens.size)
    (path : Option Path) (text : Option String) :
    (index.openSegment path text).2.pathOf k = index.pathOf k := by
  simp only [pathOf, segmentOf_openSegment hk, paths_openSegment]
  exact Array.getElem_push_lt (index.segmentOf_lt k)

/-! ### Tokens -/

theorem token_of_size_le {index : Index} {k : Nat} (hk : index.tokens.size ≤ k) :
    index.token k = .error .noToken := by
  rw [token_natCast, Array.getElem?_eq_none hk]

/-- A token that is inserted is the stretch given, of the segment that is open. -/
theorem token_insert_size (index : Index) (start stop : Int) :
    (index.insert start stop).2.token index.tokens.size = .ok ⟨index.current, start, stop⟩ := by
  have hpath : (index.insert start stop).2.pathOf index.tokens.size = index.current :=
    index.pathOf_of_size_le (Nat.le_refl _)
  rw [token_natCast, tokens_insert, Array.getElem?_push_size, hpath]

theorem token_initial_zero : initial.token (0 : Nat) = .ok ⟨none, 0, 0⟩ :=
  builtIn.token_insert_size 0 0

/-- **A call changes no token there is**, unless it is a reset. -/
theorem token_after {index : Index} {call : Call} (hcall : call ≠ .reset) {k : Nat}
    (hk : k < index.tokens.size) : (index.after call).token k = index.token k := by
  rw [token_natCast, token_natCast]
  cases call with
  | reset => exact absurd rfl hcall
  | openSegment path text => rw [after, tokens_openSegment, pathOf_openSegment hk]
  | insert start stop =>
      rw [after, tokens_insert, Array.getElem?_push_lt hk, Array.getElem?_eq_getElem hk]
      rfl

/-! ### Sequences of calls -/

def Call.isInsert : Call → Bool
  | .insert .. => true
  | .reset | .openSegment .. => false

/-- The source of a segment that a call opens, if it opens one. -/
def Call.opened? : Call → Option (Option Path)
  | .openSegment path _ => some path
  | .reset | .insert .. => none

/-- The source of the segment that calls open last, and the built-in one if they open none. -/
def Call.openedLast (calls : List Call) : Option Path :=
  (calls.filterMap Call.opened?).getLastD none

theorem afterAll_cons (index : Index) (call : Call) (calls : List Call) :
    index.afterAll (call :: calls) = (index.after call).afterAll calls := rfl

theorem afterAll_append (index : Index) (calls more : List Call) :
    index.afterAll (calls ++ more) = (index.afterAll calls).afterAll more :=
  List.foldl_append

theorem size_afterAll (index : Index) {calls : List Call} (h : Call.reset ∉ calls) :
    (index.afterAll calls).tokens.size = index.tokens.size + calls.countP Call.isInsert := by
  induction calls generalizing index with
  | nil => rfl
  | cons call calls ih =>
      rw [List.mem_cons, not_or] at h
      rw [afterAll_cons, ih _ h.2, List.countP_cons]
      cases call with
      | reset => exact absurd rfl h.1
      | openSegment path text => rw [after, tokens_openSegment]; rfl
      | insert start stop =>
          rw [after, tokens_insert, Array.size_push, Call.isInsert, if_pos rfl]
          omega

theorem current_afterAll (index : Index) {calls : List Call} (h : Call.reset ∉ calls) :
    (index.afterAll calls).current = (calls.filterMap Call.opened?).getLastD index.current := by
  induction calls generalizing index with
  | nil => rfl
  | cons call calls ih =>
      rw [List.mem_cons, not_or] at h
      rw [afterAll_cons, ih _ h.2]
      cases call with
      | reset => exact absurd rfl h.1
      | openSegment path text =>
          rw [after, current_openSegment, List.filterMap_cons_some (f := Call.opened?) rfl,
            List.getLastD_cons]
      | insert start stop =>
          rw [after, current_insert, List.filterMap_cons_none (f := Call.opened?) rfl]

/-- No sequence of calls changes a token there is, unless there is a reset among them. -/
theorem token_afterAll {index : Index} {calls : List Call} (h : Call.reset ∉ calls) {k : Nat}
    (hk : k < index.tokens.size) : (index.afterAll calls).token k = index.token k := by
  induction calls generalizing index with
  | nil => rfl
  | cons call calls ih =>
      rw [List.mem_cons, not_or] at h
      have hsize : (index.after call).tokens.size = _ :=
        index.size_afterAll (mt List.mem_singleton.mp h.1)
      rw [afterAll_cons, ih h.2, token_after (Ne.symm h.1) hk]
      exact Nat.lt_of_lt_of_le hk (Nat.le.intro hsize.symm)

/-- **Tokens are attributed to their sources.** Behind a reset, tokens get the spots from one on in
the order of their insertion. Each is found at its spot from then on, up to the next reset: the
stretch it was inserted with, in the source of the segment opened last before it, also where that
opening failed. The built-in token is found at spot zero, and none at or beyond their number. -/
theorem token_attribution (index : Index) (earlier before : List Call)
    (hbefore : Call.reset ∉ before) :
    let here := index.afterAll (earlier ++ .reset :: before)
    let count := 1 + before.countP Call.isInsert
    (∀ start stop, (here.insert start stop).1 = count) ∧
      (∀ start stop later, Call.reset ∉ later →
        (here.afterAll (.insert start stop :: later)).token count =
          .ok ⟨Call.openedLast before, start, stop⟩) ∧
      (∀ later, Call.reset ∉ later → (here.afterAll later).token 0 = .ok ⟨none, 0, 0⟩) ∧
      ∀ spot : Int, count ≤ spot → here.token spot = .error .noToken := by
  intro here count
  have hhere : here = initial.afterAll before := by
    simp only [here, afterAll_append, afterAll_cons, after]
  have hsize : here.tokens.size = count := by
    rw [hhere, size_afterAll _ hbefore]
    rfl
  have hcurrent : here.current = Call.openedLast before := by
    rw [hhere, current_afterAll _ hbefore]
    rfl
  refine ⟨fun start stop => hsize, fun start stop later hlater => ?_, fun later hlater => ?_,
    fun spot hspot => ?_⟩
  · have hfound := here.token_insert_size start stop
    rw [hsize, hcurrent] at hfound
    rw [afterAll_cons, token_afterAll hlater, after, hfound]
    rw [after, tokens_insert, Array.size_push, hsize]
    exact Nat.lt_succ_self count
  · have hpos : 0 < here.tokens.size := by omega
    have hzero : here.token (0 : Nat) = .ok ⟨none, 0, 0⟩ := by
      rw [hhere, token_afterAll hbefore Nat.zero_lt_one, token_initial_zero]
    exact (token_afterAll hlater hpos).trans hzero
  · obtain ⟨k, rfl⟩ := Int.eq_ofNat_of_zero_le (a := spot) (by omega)
    exact token_of_size_le (by rw [hsize]; exact Int.ofNat_le.mp hspot)

/-- A segment without tokens takes none from its neighbours, and one whose opening fails has the
tokens that follow. -/
theorem token_attribution_unnamed :
    let before : List Call := [.openSegment (some ⟨.here, ["first"]⟩) (some "y"), .insert 0 1,
      .openSegment (some ⟨.here, ["second"]⟩) none, .openSegment none (some "z")]
    let here := initial.afterAll ([.insert 7 8] ++ .reset :: before)
    Call.reset ∉ before ∧ (here.openSegment none (some "z")).1 = .error .unnamedText ∧
      (here.insert 5 6).1 = 2 ∧ (here.afterAll [.insert 5 6, .insert 6 9]).token 2 = .ok ⟨none, 5, 6⟩ ∧
        here.token 2 = .error .noToken := by
  intro before here
  have hbefore : Call.reset ∉ before := by simp [before]
  obtain ⟨hspot, hfound, -, hnone⟩ := token_attribution initial [.insert 7 8] before hbefore
  exact ⟨hbefore, rfl, hspot 5 6, hfound 5 6 [.insert 6 9] (by simp), hnone 2 (Int.le_refl 2)⟩

end StraightLine.Index
