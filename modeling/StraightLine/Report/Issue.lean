import StraightLine.Report.Picture
import StraightLine.Source.Library
import StraightLine.Tree.Span

/-!
Issues: what a report tells, with pictures of the places in question.
-/

namespace StraightLine

/-- A place with a caption. The place is looked up once, when the mark is made. -/
structure Mark where
  span : Span
  caption : String
  deriving DecidableEq, Repr

/-- The mark at the place of a tree. -/
def Mark.ofTree (index : Index) (tree : Tree) (caption : String) : Except Fault Mark := do
  let (first, last) ← tree.span
  return ⟨← index.span first last, caption⟩

structure Issue where
  intro : String
  marks : List Mark
  footer : List String
  deriving DecidableEq, Repr

namespace Issue

/-- What is shown of a mark without a path, which has no picture. -/
def builtInLines (caption : String) : List String :=
  if caption = "" then [] else ["(built-in) " ++ caption]

/-- The path of a picture, unless it is the path shown last. -/
def headingLines (shown : Option Path) (path : Path) : List String :=
  if shown = some path then [] else [path.text]

/-- The marks of an issue in order, each picture below the path that it is of; `shown` is the path
shown last. -/
def body (tools : Illustrator) (library : Library) (shown : Option Path) :
    List Mark → Except Fault (List String) × Library
  | [] => (.ok [], library)
  | mark :: marks => match mark.span.path with
    | none =>
      let (rest, library) := body tools library shown marks
      (rest.map (builtInLines mark.caption ++ ·), library)
    | some path => match library.fetch path with
      | (.error cause, library) => (.error (.unreadable cause), library)
      | (.ok text, library) =>
        let picture := tools.picture text mark.span.start mark.span.stop mark.caption
        let (rest, library) := body tools library (some path) marks
        (rest.map (headingLines shown path ++ picture :: ·), library)

/-- The whole text of an issue. -/
def text (issue : Issue) (tools : Illustrator) (library : Library) : Except Fault String × Library :=
  let (lines, library) := body tools library none issue.marks
  (lines.map fun lines => "\n".intercalate (issue.intro :: "" :: (lines ++ issue.footer)), library)

end Issue

end StraightLine
