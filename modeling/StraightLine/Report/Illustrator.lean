import StraightLine.Text.Blank
import StraightLine.Text.Lines

/-!
Illustrators: what finds places in the text of a source and draws stretches of its lines. Illustrators
come from outside, and whatever is drawn may be drawn with any of them. What one is expected to do is
stated as a property, and one that has it is built from the lines of a text.
-/

namespace StraightLine

structure Illustrator where
  /-- The row and the column of an offset of a text. -/
  locate : List Char → Int → Int × Int
  /-- The line of a row of a text. -/
  line : List Char → Int → List Char
  /-- A line behind a margin, and below it, under so many of its characters from a column on, carets
  with a caption behind them. -/
  underline : (line : List Char) → (column width : Int) → (margin : List Char) → (caption : String) →
    String

namespace Illustrator

/-- The characters of a line in front of a column; a negative column counts from the end. -/
def before (line : List Char) (column : Int) : List Char :=
  line.take (if column < 0 then line.length + column else column).toNat

/-- A blank as wide as the character. -/
def blankFor (c : Char) : Char :=
  if c = '\t' then '\t' else ' '

/-- As many carets as characters of the stretch lie on the line, its break included, and at least
one. -/
def caretCount (line : List Char) (column width : Int) : Nat :=
  (max 1 (min width (line.length - column))).toNat

/-- What illustrators are expected to do. Rows count the bounds of a text, the last one apart, up to an
offset, and columns count from the bound of the row; in front of all bounds there is row zero, whose
columns count from the end. The line of a row reaches from its bound to the next, and that of row zero
is the first one. A line is shown without the blanks at its end, and as many blanks stand in front of
the carets as characters in front of the column, with a tab for each tab. -/
structure Conforms (tools : Illustrator) : Prop where
  row : ∀ text offset, (tools.locate text offset).1 =
    ((Text.bounds text).dropLast.countP fun bound : Nat => decide ((bound : Int) ≤ offset) : Nat)
  column : ∀ text offset (k bound : Nat), (tools.locate text offset).1 = k + 1 →
    (Text.bounds text)[k]? = some bound → (tools.locate text offset).2 = offset - bound
  column_of_row_zero : ∀ text offset (bound : Nat), (tools.locate text offset).1 = 0 →
    (Text.bounds text).getLast? = some bound → (tools.locate text offset).2 = offset - bound
  line : ∀ text (k first last : Nat), (Text.bounds text)[k]? = some first →
    (Text.bounds text)[k + 1]? = some last → tools.line text (k + 1) = (text.take last).drop first
  line_of_row_zero : ∀ text (first last : Nat), (Text.bounds text)[0]? = some first →
    (Text.bounds text)[1]? = some last → tools.line text 0 = (text.take last).drop first
  underline : ∀ line column width margin caption,
    tools.underline line column width margin caption =
      String.ofList (margin ++ Text.trimEnd line ++ '\n' :: ((margin ++ before line column).map blankFor ++
        List.replicate (caretCount line column width) '^')) ++ " " ++ caption

/-- The illustrator that finds places by the lines of a text. -/
def standard : Illustrator where
  locate text offset := (Text.rowOf text offset, Text.columnOf text offset)
  line text row := Text.lineAt text row.toNat
  underline line column width margin caption :=
    String.ofList (margin ++ Text.trimEnd line ++ '\n' :: ((margin ++ before line column).map blankFor ++
      List.replicate (caretCount line column width) '^')) ++ " " ++ caption

end Illustrator

end StraightLine
