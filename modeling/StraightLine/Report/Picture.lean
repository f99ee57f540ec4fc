import StraightLine.Report.Illustrator

/-!
Pictures: a line of a source behind its row number, and below it carets under a stretch of the line.
-/

namespace StraightLine

/-- The number of a row, in six places or more and never without a blank or a sign in front, and a
bar. -/
def Picture.margin (row : Int) : List Char :=
  let number := (if row < 0 then '-' else ' ') :: Nat.toDigits 10 row.natAbs
  List.replicate (6 - number.length) ' ' ++ number ++ [' ', '|']

/-- The picture of the stretch between two offsets of a text. Only the row that it starts in is
shown. -/
def Illustrator.picture (tools : Illustrator) (text : List Char) (start stop : Int)
    (caption : String) : String :=
  let (row, column) := tools.locate text start
  tools.underline (tools.line text row) column (stop - start) (Picture.margin row) caption

end StraightLine
