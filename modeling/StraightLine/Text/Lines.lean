/-!
The lines of a text. A line break is a carriage return with the line feed behind it, or either of
them alone; each line keeps its break. Offsets count characters and rows count from one, and row
zero stands for an offset before the text.
-/

namespace StraightLine.Text

/-- Adds to `found` the offset behind each break of the rest of a text that starts at `offset`, and
puts them in ascending order. -/
def collectBreaks : List Char → Nat → List Nat → List Nat
  | [], _, found => found.reverse
  | '\r' :: '\n' :: rest, offset, found => collectBreaks rest (offset + 2) ((offset + 2) :: found)
  | '\r' :: rest, offset, found => collectBreaks rest (offset + 1) ((offset + 1) :: found)
  | '\n' :: rest, offset, found => collectBreaks rest (offset + 1) ((offset + 1) :: found)
  | _ :: rest, offset, found => collectBreaks rest (offset + 1) found

theorem collectBreaks_append (text : List Char) (offset : Nat) (later earlier : List Nat) :
    collectBreaks text offset (later ++ earlier) =
      earlier.reverse ++ collectBreaks text offset later := by
  fun_induction collectBreaks text offset later with
  | case1 => simp [collectBreaks]
  | case2 rest offset later ih => rw [← ih, collectBreaks, List.cons_append]
  | case3 rest offset later h ih => rw [← ih, collectBreaks.eq_3 _ _ _ h, List.cons_append]
  | case4 rest offset later ih => rw [← ih, collectBreaks, List.cons_append]
  | case5 c rest offset later h₁ h₂ h₃ ih => rw [← ih, collectBreaks.eq_5 _ _ _ _ h₁ h₂ h₃]

/-- The offsets behind the line breaks of a text. -/
def breakEnds (text : List Char) : List Nat :=
  collectBreaks text 0 []

/-- The offsets at which the lines of a text start; the last line may be empty. -/
def lineStarts (text : List Char) : List Nat :=
  0 :: breakEnds text

/-- Where lines start and, behind them, the end of the text: a line reaches from one bound to the
next. -/
def bounds (text : List Char) : List Nat :=
  lineStarts text ++ [text.length]

/-- The row of an offset: the number of lines that start at it or before it. -/
def rowOf (text : List Char) (offset : Int) : Nat :=
  (lineStarts text).countP fun start : Nat => decide ((start : Int) ≤ offset)

/-- Where the line of a row starts, and for row zero the end of the text. -/
def rowStart (text : List Char) (row : Nat) : Nat :=
  if row = 0 then text.length else (lineStarts text).getD (row - 1) text.length

/-- The distance of an offset from the start of its row. -/
def columnOf (text : List Char) (offset : Int) : Int :=
  offset - rowStart text (rowOf text offset)

/-- The line of a row with its break; row zero shows the first line. -/
def lineAt (text : List Char) (row : Nat) : List Char :=
  let starts := lineStarts text
  let start := starts.getD (row - 1) text.length
  let stop := starts.getD (row - 1 + 1) text.length
  (text.drop start).take (stop - start)

end StraightLine.Text
