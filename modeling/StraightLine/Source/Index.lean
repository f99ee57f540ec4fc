import StraightLine.Fault
import StraightLine.Source.Bisection

/-!
Where tokens come from. Sources are read one segment after another; a token belongs to the segment
that was open when the token was inserted, and is a stretch of the source of that segment. Spots are
the numbers of tokens in the order of their insertion. A segment is kept as the number of the tokens
before it, and the segment of a token is found by bisection.
-/

namespace StraightLine

/-- From one offset of a source up to another. -/
structure Stretch where
  start : Int
  stop : Int
  deriving DecidableEq, Repr

/-- A stretch of a source; no path stands for what is built in. -/
structure Span where
  path : Option Path
  start : Int
  stop : Int
  deriving DecidableEq, Repr

structure Index where
  tokens : Array Stretch
  /-- The number of tokens before each segment. -/
  bounds : Array Nat
  /-- The source of each segment. -/
  paths : Array (Option Path)
  /-- Texts that stand for the files of their paths, the latest first. -/
  texts : List (Path × String)
  size_paths : paths.size = bounds.size
  bounds_zero : bounds[0]? = some 0
  ascending : Ascending bounds
  bounds_le : ∀ b ∈ bounds, b ≤ tokens.size

namespace Index

/-- Adds a token of the open segment; the result also holds its spot. -/
def insert (index : Index) (start stop : Int) : Nat × Index :=
  (index.tokens.size, { index with
    tokens := index.tokens.push ⟨start, stop⟩
    bounds_le := fun b hb => by
      rw [Array.size_push]
      exact Nat.le_succ_of_le (index.bounds_le b hb) })

/-- The index of the built-in segment alone, without tokens. -/
def builtIn : Index where
  tokens := #[]
  bounds := #[0]
  paths := #[none]
  texts := []
  size_paths := rfl
  bounds_zero := rfl
  ascending := ascending_singleton 0
  bounds_le b hb := by
    rw [Array.mem_singleton.mp hb]
    exact Nat.le_refl 0

/-- The index before any source: token zero is built in. -/
def initial : Index :=
  (builtIn.insert 0 0).2

instance : Inhabited Index := ⟨initial⟩

/-- The index with one more segment, which has no tokens as yet. -/
def beginSegment (index : Index) (path : Option Path) : Index :=
  { index with
    bounds := index.bounds.push index.tokens.size
    paths := index.paths.push path
    size_paths := by rw [Array.size_push, Array.size_push, index.size_paths]
    bounds_zero := by
      obtain ⟨hsize, -⟩ := Array.getElem?_eq_some_iff.mp index.bounds_zero
      rw [Array.getElem?_push_lt hsize, ← Array.getElem?_eq_getElem hsize, index.bounds_zero]
    ascending := index.ascending.push index.bounds_le
    bounds_le := fun b hb => by
      rcases Array.mem_push.mp hb with hb | rfl
      · exact index.bounds_le b hb
      · exact Nat.le_refl _ }

/-- Opens a segment. A text that comes with it needs a path; the segment is open in either case. -/
def openSegment (index : Index) (path : Option Path) (text : Option String) :
    Except Fault Unit × Index :=
  let opened := index.beginSegment path
  match path, text with
  | _, none => (.ok (), opened)
  | some p, some t => (.ok (), { opened with texts := (p, t) :: opened.texts })
  | none, some _ => (.error .unnamedText, opened)

/-- The latest text that stands for the file of a path. -/
def text? (index : Index) (path : Path) : Option String :=
  index.texts.lookup path

/-- The entry at a place; negative places count from the end. -/
def atPlace? {α : Type} (entries : Array α) (place : Int) : Option α :=
  let place := if place < 0 then entries.size + place else place
  if place < 0 then none else entries[place.toNat]?

/-- The token at a spot, of the last segment that begins at the spot or before it. Negative spots
count from the end; no segment begins before one, and the segment in front of all is the last. -/
def token (index : Index) (spot : Int) : Except Fault Span :=
  match atPlace? index.paths (bisect index.bounds spot - 1), atPlace? index.tokens spot with
  | some path, some stretch => .ok ⟨path, stretch.start, stretch.stop⟩
  | _, _ => .error .noToken

/-- The stretch from one token to another of the same source. Tokens of two sources make no stretch:
then the first token alone, unless it is built in. -/
def span (index : Index) (first last : Int) : Except Fault Span := do
  let left ← index.token first
  let right ← index.token last
  if left.path = right.path then return ⟨left.path, left.start, right.stop⟩
  else if left.path.isSome then return left
  else return right

@[simp]
theorem tokens_insert (index : Index) (start stop : Int) :
    (index.insert start stop).2.tokens = index.tokens.push ⟨start, stop⟩ := rfl

/-- Opening a segment moves no token. -/
@[simp]
theorem tokens_openSegment (index : Index) (path : Option Path) (text : Option String) :
    (index.openSegment path text).2.tokens = index.tokens := by
  unfold openSegment
  split <;> rfl

@[simp]
theorem bounds_openSegment (index : Index) (path : Option Path) (text : Option String) :
    (index.openSegment path text).2.bounds = index.bounds.push index.tokens.size := by
  unfold openSegment
  split <;> rfl

/-- The segment is there also where its opening failed. -/
@[simp]
theorem paths_openSegment (index : Index) (path : Option Path) (text : Option String) :
    (index.openSegment path text).2.paths = index.paths.push path := by
  unfold openSegment
  split <;> rfl

theorem atPlace?_natCast {α : Type} (entries : Array α) (k : Nat) : atPlace? entries k = entries[k]? := by
  have h : ¬(k : Int) < 0 := by omega
  simp only [atPlace?, h, if_false, Int.toNat_natCast]

/-! ### Segments of tokens -/

theorem bounds_pos (index : Index) : 0 < index.bounds.size :=
  (Array.getElem?_eq_some_iff.mp index.bounds_zero).1

/-- The number of the last segment that begins at the spot or before it. -/
def segmentOf (index : Index) (k : Nat) : Nat :=
  bisect index.bounds k - 1

/-- There is always a segment that begins at zero. -/
theorem bisect_pos (index : Index) (k : Nat) : 0 < bisect index.bounds k := by
  obtain ⟨hsize, hzero⟩ := Array.getElem?_eq_some_iff.mp index.bounds_zero
  refine (le_iff_lt_bisect index.ascending k hsize).mp ?_
  rw [hzero]
  exact Int.natCast_nonneg k

theorem segmentOf_lt (index : Index) (k : Nat) : index.segmentOf k < index.paths.size := by
  have hpos := index.bisect_pos k
  have hle := bisect_le_size index.ascending k
  rw [index.size_paths, segmentOf]
  omega

/-- The segments up to that of a spot are those that begin at the spot or before it. -/
theorem le_segmentOf_iff (index : Index) (k : Nat) {j : Nat} (hj : j < index.bounds.size) :
    j ≤ index.segmentOf k ↔ index.bounds[j] ≤ k := by
  have hpos := index.bisect_pos k
  have hentry := le_iff_lt_bisect index.ascending k hj
  rw [segmentOf]
  omega

/-- The source of the segment that a spot is in. -/
def pathOf (index : Index) (k : Nat) : Option Path :=
  have := index.segmentOf_lt k
  index.paths[index.segmentOf k]

/-- A spot that is the number of a token finds that token. -/
theorem token_natCast (index : Index) (k : Nat) :
    index.token k = match index.tokens[k]? with
      | some stretch => .ok ⟨index.pathOf k, stretch.start, stretch.stop⟩
      | none => .error .noToken := by
  have hsegment : (bisect index.bounds k : Int) - 1 = index.segmentOf k := by
    have hpos := index.bisect_pos k
    rw [segmentOf]
    omega
  rw [token, hsegment, atPlace?_natCast, atPlace?_natCast,
    Array.getElem?_eq_getElem (index.segmentOf_lt k)]
  cases index.tokens[k]? <;> rfl

end Index

end StraightLine
