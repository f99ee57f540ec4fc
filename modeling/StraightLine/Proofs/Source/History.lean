import StraightLine.Source.Index

/-!
The indexes that sequences of calls lead to. Whatever the calls, token zero is the built-in one, and a
spot that is the number of a token can be looked up.
-/

namespace StraightLine.Index

/-- What may be asked of an index. -/
inductive Call where
  | reset
  | openSegment (path : Option Path) (text : Option String)
  | insert (start stop : Int)

/-- The index after a call, which may have failed. -/
def after (index : Index) : Call → Index
  | .reset => initial
  | .openSegment path text => (index.openSegment path text).2
  | .insert start stop => (index.insert start stop).2

def afterAll (index : Index) (calls : List Call) : Index :=
  calls.foldl after index

/-- That calls lead from the index before any source to this one. -/
def Reachable (index : Index) : Prop :=
  ∃ calls, initial.afterAll calls = index

/-- What holds before any source and is kept by each call holds of every reachable index. -/
theorem Reachable.induction {P : Index → Prop} (hinitial : P initial)
    (hafter : ∀ index call, P index → P (index.after call)) {index : Index}
    (h : index.Reachable) : P index := by
  obtain ⟨calls, rfl⟩ := h
  have hall : ∀ start, P start → P (start.afterAll calls) := by
    induction calls with
    | nil => exact fun start hstart => hstart
    | cons call calls ih => exact fun start hstart => ih _ (hafter start call hstart)
  exact hall initial hinitial

/-- The built-in token is never taken away. -/
theorem tokens_pos_of_reachable {index : Index} (h : index.Reachable) : 0 < index.tokens.size := by
  refine h.induction (P := fun index => 0 < index.tokens.size) Nat.zero_lt_one ?_
  intro index call hpos
  cases call with
  | reset => exact Nat.zero_lt_one
  | openSegment path text =>
      rw [after, tokens_openSegment]
      exact hpos
  | insert start stop =>
      rw [after, tokens_insert, Array.size_push]
      exact Nat.succ_pos _

/-- The spots that are numbers of tokens. -/
def HasSpot (index : Index) (spot : Int) : Prop :=
  0 ≤ spot ∧ spot < index.tokens.size

theorem hasSpot_zero {index : Index} (h : index.Reachable) : index.HasSpot 0 :=
  ⟨Int.le_refl 0, Int.natCast_pos.mpr (tokens_pos_of_reachable h)⟩

theorem HasSpot.exists_token {index : Index} {spot : Int} (h : index.HasSpot spot) :
    ∃ t, index.token spot = .ok t := by
  obtain ⟨hzero, hsize⟩ := h
  obtain ⟨k, rfl⟩ := Int.eq_ofNat_of_zero_le hzero
  have hk : k < index.tokens.size := Int.ofNat_lt.mp hsize
  have htoken := index.token_natCast k
  rw [Array.getElem?_eq_getElem hk] at htoken
  exact ⟨_, htoken⟩

theorem exists_span {index : Index} {first last : Int} (hfirst : index.HasSpot first)
    (hlast : index.HasSpot last) : ∃ span, index.span first last = .ok span := by
  obtain ⟨left, hleft⟩ := hfirst.exists_token
  obtain ⟨right, hright⟩ := hlast.exists_token
  unfold span
  rw [hleft, hright]
  simp only [bind, Except.bind, pure, Except.pure]
  split
  · exact ⟨_, rfl⟩
  · split <;> exact ⟨_, rfl⟩

theorem eq_noToken_of_token {index : Index} {spot : Int} {f : Fault}
    (h : index.token spot = .error f) : f = .noToken := by
  unfold token at h
  split at h <;> cases h
  rfl

/-- A stretch that cannot be looked up lacks a token at one of its ends. -/
theorem eq_noToken_of_span {index : Index} {first last : Int} {f : Fault}
    (h : index.span first last = .error f) : f = .noToken := by
  unfold span at h
  rcases Fault.of_bind h with hleft | ⟨left, -, h⟩
  · exact eq_noToken_of_token hleft
  rcases Fault.of_bind h with hright | ⟨right, -, h⟩
  · exact eq_noToken_of_token hright
  split at h
  · cases h
  · split at h <;> cases h

end StraightLine.Index
