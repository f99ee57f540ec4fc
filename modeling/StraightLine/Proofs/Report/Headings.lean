import Mathlib.Data.List.Destutter
import StraightLine.Proofs.Source.Requests
import StraightLine.Report.Issue

/-!
Pictures and the headings above them. The text of an issue is a list of blocks with headings put in
between; a heading is put in front of a picture where the picture is of another source than the one
before. Marks that are built in have no picture and so leave the heading as it is.
-/

namespace StraightLine

/-! ### Blocks -/

/-- What the text of an issue is made of. -/
inductive Block where
  | heading (path : Path)
  | picture (path : Path) (drawn : String)
  | builtIn (caption : String)

namespace Block

def text : Block → String
  | .heading path => path.text
  | .picture _ drawn => drawn
  | .builtIn caption => "(built-in) " ++ caption

def heading? : Block → Option Path
  | .heading path => some path
  | .picture .. | .builtIn _ => none

/-- The blocks below the headings that they need, if a heading was shown last. -/
def withHeadings (shown : Option Path) : List Block → List Block
  | [] => []
  | .picture path drawn :: blocks =>
    (if shown = some path then [] else [.heading path]) ++
      .picture path drawn :: withHeadings (some path) blocks
  | .heading path :: blocks => .heading path :: withHeadings (some path) blocks
  | .builtIn caption :: blocks => .builtIn caption :: withHeadings shown blocks

/-- That pictures stand below their own paths, if a heading was shown last. -/
def Placed (shown : Option Path) : List Block → Prop
  | [] => True
  | .picture path _ :: blocks => shown = some path ∧ Placed shown blocks
  | .heading path :: blocks => Placed (some path) blocks
  | .builtIn _ :: blocks => Placed shown blocks

/-- Without its headings a list is as it was. -/
theorem filter_withHeadings {blocks : List Block} (h : ∀ block ∈ blocks, block.heading? = none)
    (shown : Option Path) :
    (withHeadings shown blocks).filter (·.heading?.isNone) = blocks := by
  induction blocks generalizing shown with
  | nil => rfl
  | cons block blocks ih =>
      rw [List.forall_mem_cons] at h
      cases block with
      | heading path => cases h.1
      | builtIn caption => rw [withHeadings, List.filter_cons_of_pos rfl, ih h.2]
      | picture path drawn =>
          rw [withHeadings, List.filter_append, List.filter_cons_of_pos rfl, ih h.2]
          split <;> rfl

/-- The path of a picture. -/
def pictured? : Block → Option Path
  | .picture path _ => some path
  | .heading _ | .builtIn _ => none

theorem headings_withHeadings_picture (shown : Option Path) (path : Path) (drawn : String)
    (blocks : List Block) :
    (withHeadings shown (.picture path drawn :: blocks)).filterMap heading? =
      (if shown = some path then [] else [path]) ++
        (withHeadings (some path) blocks).filterMap heading? := by
  rw [withHeadings, List.filterMap_append, List.filterMap_cons_none (f := heading?) rfl]
  split <;> rfl

/-- A heading shown last counts as a neighbour of the first picture. -/
theorem headings_withHeadings {blocks : List Block}
    (h : ∀ block ∈ blocks, block.heading? = none) (shown : Option Path) :
    shown.toList ++ (withHeadings shown blocks).filterMap heading? =
      (shown.toList ++ blocks.filterMap pictured?).destutter (· ≠ ·) := by
  induction blocks generalizing shown with
  | nil => cases shown <;> rfl
  | cons block blocks ih =>
      rw [List.forall_mem_cons] at h
      cases block with
      | heading path => cases h.1
      | builtIn caption =>
          rw [withHeadings, List.filterMap_cons_none (f := heading?) rfl,
            List.filterMap_cons_none (f := pictured?) rfl, ih h.2]
      | picture path drawn =>
          have hrest := ih h.2 (some path)
          rw [headings_withHeadings_picture, List.filterMap_cons_some (f := pictured?) rfl]
          cases shown with
          | none => exact hrest
          | some other =>
              by_cases heq : other = path
              · subst heq
                rw [if_pos rfl]
                exact hrest.trans (List.destutter'_cons_neg _ (not_not.mpr rfl)).symm
              · rw [if_neg (mt Option.some.inj heq)]
                exact (congrArg (other :: ·) hrest).trans (List.destutter'_cons_pos _ heq).symm

theorem placed_withHeadings (blocks : List Block) (shown : Option Path) :
    Placed shown (withHeadings shown blocks) := by
  induction blocks generalizing shown with
  | nil => trivial
  | cons block blocks ih =>
      cases block with
      | heading path => exact ih (some path)
      | builtIn caption => exact ih shown
      | picture path drawn =>
          rw [withHeadings]
          split
          · rename_i hshown
            subst hshown
            exact ⟨rfl, ih (some path)⟩
          · exact ⟨rfl, ih (some path)⟩

/-- Where pictures stand below their own paths, the last heading in front of one is its path. -/
theorem Placed.getLast?_headings {front back : List Block} {path : Path} {drawn : String}
    {shown : Option Path} (h : Placed shown (front ++ .picture path drawn :: back)) :
    (front.filterMap heading?).getLast?.or shown = some path := by
  induction front generalizing shown with
  | nil => exact h.1
  | cons block front ih =>
      cases block with
      | builtIn caption => exact ih h
      | picture other drawn => exact ih h.2
      | heading other =>
          rw [List.filterMap_cons_some (f := heading?) rfl, List.getLast?_cons, Option.some_or,
            ← Option.or_some]
          exact ih h

end Block

/-! ### Texts of issues -/

/-- The blocks of marks whose sources are read one after another, and the library afterwards: the
picture of a mark that has a source, and the caption of one that is built in, if there is one. -/
inductive Library.Illustrates (tools : Illustrator) :
    Library → List Mark → List Block → Library → Prop
  | nil {library : Library} : Illustrates tools library [] [] library
  | picture {library next later : Library} {mark : Mark} {marks : List Mark} {blocks : List Block}
      {path : Path} {source : List Char} (hpath : mark.span.path = some path)
      (hfetch : library.fetch path = (.ok source, next))
      (h : Illustrates tools next marks blocks later) :
      Illustrates tools library (mark :: marks)
        (.picture path (tools.picture source mark.span.start mark.span.stop mark.caption) :: blocks)
        later
  | caption {library later : Library} {mark : Mark} {marks : List Mark} {blocks : List Block}
      (hpath : mark.span.path = none) (hcaption : mark.caption ≠ "")
      (h : Illustrates tools library marks blocks later) :
      Illustrates tools library (mark :: marks) (.builtIn mark.caption :: blocks) later
  | nothing {library later : Library} {mark : Mark} {marks : List Mark} {blocks : List Block}
      (hpath : mark.span.path = none) (hcaption : mark.caption = "")
      (h : Illustrates tools library marks blocks later) :
      Illustrates tools library (mark :: marks) blocks later

namespace Library

variable {tools : Illustrator} {library later : Library} {marks : List Mark} {blocks : List Block}

theorem Illustrates.heading?_eq_none (h : library.Illustrates tools marks blocks later) :
    ∀ block ∈ blocks, block.heading? = none := by
  induction h with
  | nil => exact fun _ hblock => nomatch hblock
  | picture _ _ _ ih | caption _ _ _ ih => exact List.forall_mem_cons.mpr ⟨rfl, ih⟩
  | nothing _ _ _ ih => exact ih

/-- There is a picture for each mark that has a source. -/
theorem Illustrates.pictured (h : library.Illustrates tools marks blocks later) :
    blocks.filterMap Block.pictured? = marks.filterMap (·.span.path) := by
  induction h with
  | nil => rfl
  | picture hpath _ _ ih | caption hpath _ _ ih | nothing hpath _ _ ih =>
      simp only [List.filterMap_cons, Block.pictured?, hpath, ih]

/-- The requests for the sources of marks, one after another. -/
def requestsFor (marks : List Mark) : List Event :=
  (marks.filterMap (·.span.path)).map .request

theorem requestsFor_cons_none {mark : Mark} (hpath : mark.span.path = none) (marks : List Mark) :
    requestsFor (mark :: marks) = requestsFor marks := by
  simp only [requestsFor, List.filterMap_cons, hpath]

theorem afterAll_requestsFor_cons {next : Library} {mark : Mark} {path : Path} {text : List Char}
    (hpath : mark.span.path = some path) (hfetch : library.fetch path = (.ok text, next))
    (marks : List Mark) :
    library.afterAll (requestsFor (mark :: marks)) = next.afterAll (requestsFor marks) := by
  simp only [requestsFor, List.filterMap_cons, hpath, List.map_cons, afterAll_cons, after, hfetch]

/-- Every source of marks is asked for, each in the library that the requests before it leave. -/
theorem Illustrates.later_eq (h : library.Illustrates tools marks blocks later) :
    later = library.afterAll (requestsFor marks) := by
  induction h with
  | nil => rfl
  | picture hpath hfetch _ ih => rw [afterAll_requestsFor_cons hpath hfetch, ih]
  | caption hpath _ _ ih | nothing hpath _ _ ih => rw [requestsFor_cons_none hpath, ih]

theorem Illustrates.canRead (h : library.Illustrates tools marks blocks later) {path : Path}
    (hpath : library.CanRead path) : later.CanRead path := by
  induction h with
  | nil => exact hpath
  | @picture library next _ _ _ _ other _ _ hfetch _ ih =>
      have hnext : (library.fetch other).2 = next := by rw [hfetch]
      exact ih (hnext ▸ hpath.after_fetch other)
  | caption _ _ _ ih | nothing _ _ _ ih => exact ih hpath

theorem Illustrates.exists_cons_none {mark : Mark} (hpath : mark.span.path = none)
    (h : library.Illustrates tools marks blocks later) :
    ∃ blocks', library.Illustrates tools (mark :: marks) blocks' later := by
  by_cases hcaption : mark.caption = ""
  · exact ⟨blocks, .nothing hpath hcaption h⟩
  · exact ⟨_, .caption hpath hcaption h⟩

/-- That marks are illustrated up to one whose source cannot be read. -/
structure StopsAt (library : Library) (tools : Illustrator) (marks : List Mark) (path : Path)
    (cause : ReadError) (reached : Library) : Prop where
  split : ∃ front mark back blocks, marks = front ++ mark :: back ∧ mark.span.path = some path ∧
    library.Illustrates tools front blocks reached
  unreadable : (reached.fetch path).1 = .error cause

/-- The marks are all illustrated, or the source of one of them cannot be read. -/
theorem illustrates_or_stopsAt (library : Library) (tools : Illustrator) (marks : List Mark) :
    (∃ blocks later, library.Illustrates tools marks blocks later) ∨
      ∃ path cause reached, library.StopsAt tools marks path cause reached := by
  induction marks generalizing library with
  | nil => exact Or.inl ⟨[], library, .nil⟩
  | cons mark marks ih =>
      cases hpath : mark.span.path with
      | none =>
          rcases ih library with
            ⟨blocks, later, hblocks⟩ | ⟨path, cause, reached, hstops⟩
          · obtain ⟨blocks', hblocks'⟩ := hblocks.exists_cons_none hpath
            exact Or.inl ⟨blocks', later, hblocks'⟩
          · obtain ⟨front, other, back, blocks, rfl, hother, hfront⟩ := hstops.split
            obtain ⟨blocks', hfront'⟩ := hfront.exists_cons_none hpath
            exact Or.inr ⟨path, cause, reached,
              ⟨mark :: front, other, back, blocks', rfl, hother, hfront'⟩, hstops.unreadable⟩
      | some path =>
          rcases hfetch : library.fetch path with ⟨cause | text, next⟩
          · refine Or.inr ⟨path, cause, library, ⟨[], mark, marks, [], rfl, hpath, .nil⟩, ?_⟩
            rw [hfetch]
          · rcases ih next with ⟨blocks, later, hblocks⟩ | ⟨other, cause, reached, hstops⟩
            · exact Or.inl ⟨_, later, .picture hpath hfetch hblocks⟩
            · obtain ⟨front, mark', back, blocks, rfl, hmark', hfront⟩ := hstops.split
              exact Or.inr ⟨other, cause, reached,
                ⟨mark :: front, mark', back, _, rfl, hmark', .picture hpath hfetch hfront⟩,
                hstops.unreadable⟩

/-- No source is asked for behind the one that cannot be read. -/
theorem StopsAt.reached_eq {path : Path} {cause : ReadError} {reached : Library}
    (h : library.StopsAt tools marks path cause reached) :
    ∃ front, front <+: marks ∧ reached = library.afterAll (requestsFor front) := by
  obtain ⟨front, mark, back, _, rfl, -, hfront⟩ := h.split
  exact ⟨front, List.prefix_append front _, hfront.later_eq⟩

/-- Where marks are illustrated up to one, the source of that one could not be read before either. -/
theorem StopsAt.not_canRead {path : Path} {cause : ReadError} {reached : Library}
    (h : library.StopsAt tools marks path cause reached) : ¬library.CanRead path := by
  intro hread
  obtain ⟨_, _, _, _, -, -, hfront⟩ := h.split
  obtain ⟨text, htext⟩ := (hfront.canRead hread).exists_fetch
  cases h.unreadable.symm.trans htext

/-- Marks whose sources can each be read can be read one after another. -/
theorem exists_illustrates
    (h : ∀ mark ∈ marks, ∀ path, mark.span.path = some path → library.CanRead path) :
    ∃ blocks later, library.Illustrates tools marks blocks later := by
  rcases library.illustrates_or_stopsAt tools marks with hall | ⟨path, cause, reached, hstops⟩
  · exact hall
  · obtain ⟨front, mark, back, _, hmarks, hpath, -⟩ := hstops.split
    have hmem : mark ∈ marks := hmarks ▸ List.mem_append_right front List.mem_cons_self
    exact absurd (h mark hmem path hpath) hstops.not_canRead

/-- The text of marks is that of their blocks below the headings that they need. -/
theorem Illustrates.body_eq (h : library.Illustrates tools marks blocks later)
    (shown : Option Path) : Issue.body tools library shown marks =
      (.ok ((Block.withHeadings shown blocks).map Block.text), later) := by
  induction h generalizing shown with
  | nil => rfl
  | picture hpath hfetch _ ih =>
      rw [Issue.body, hpath]
      simp only [hfetch, ih, Except.map, Block.withHeadings, Issue.headingLines]
      split <;> rfl
  | caption hpath hcaption _ ih =>
      rw [Issue.body, hpath]
      simp only [ih, Except.map, Issue.builtInLines, if_neg hcaption]
      rfl
  | nothing hpath hcaption _ ih =>
      rw [Issue.body, hpath]
      simp only [ih, Except.map, Issue.builtInLines, if_pos hcaption]
      rfl

/-- Where marks are illustrated up to one whose source cannot be read, they have no text, and nothing
behind that mark is asked for. -/
theorem StopsAt.body_eq {path : Path} {cause : ReadError} {reached : Library}
    (h : library.StopsAt tools marks path cause reached) (shown : Option Path) :
    Issue.body tools library shown marks = (.error (.unreadable cause), reached) := by
  obtain ⟨front, mark, back, blocks, rfl, hpath, hfront⟩ := h.split
  have hkept : reached.fetch path = (.error cause, reached) :=
    Prod.ext h.unreadable (fetch_of_error h.unreadable)
  clear h
  induction hfront generalizing shown with
  | nil =>
      rw [List.nil_append, Issue.body, hpath]
      simp only [hkept]
  | picture hother hfetch _ ih =>
      rw [List.cons_append, Issue.body, hother]
      simp only [hfetch, ih _ hkept]
      rfl
  | caption hother _ _ ih | nothing hother _ _ ih =>
      rw [List.cons_append, Issue.body, hother]
      simp only [ih _ hkept]
      rfl

end Library

/-- **Every picture stands below the path of its own source.** The text of an issue whose sources
can be read is its intro, an empty line, the blocks of its marks with headings in between, and its
footer. The headings are the paths of the marks that have one, without repetitions of neighbours,
and the last heading in front of a picture is the path that the picture is of. -/
theorem pictures_under_headings (tools : Illustrator) (issue : Issue) (library : Library) :
    (∀ blocks later, library.Illustrates tools issue.marks blocks later → ∃ shown : List Block,
      issue.text tools library = (.ok ("\n".intercalate
          (issue.intro :: "" :: (shown.map Block.text ++ issue.footer))), later) ∧
        shown.filter (·.heading?.isNone) = blocks ∧
          shown.filterMap Block.heading? =
              (issue.marks.filterMap (·.span.path)).destutter (· ≠ ·) ∧
            ∀ front path drawn back, shown = front ++ .picture path drawn :: back →
              (front.filterMap Block.heading?).getLast? = some path) ∧
      ((∀ mark ∈ issue.marks, ∀ path, mark.span.path = some path → library.CanRead path) →
        ∃ blocks later, library.Illustrates tools issue.marks blocks later) := by
  refine ⟨fun blocks later h => ⟨Block.withHeadings none blocks, ?_, ?_, ?_, ?_⟩,
    Library.exists_illustrates⟩
  · rw [Issue.text, h.body_eq]
    rfl
  · exact Block.filter_withHeadings h.heading?_eq_none none
  · rw [← h.pictured]
    exact Block.headings_withHeadings h.heading?_eq_none none
  · intro front path drawn back hshown
    have hplaced := Block.placed_withHeadings blocks none
    rw [hshown] at hplaced
    rw [← hplaced.getLast?_headings, Option.or_none]

/-- A mark that is built in stands between two pictures of one source, and both are below one
heading; behind a picture of another source the path is shown again. -/
theorem pictures_under_headings_alternating :
    let main : Path := ⟨.here, ["main"]⟩
    let other : Path := ⟨.here, ["other"]⟩
    let library : Library := { Library.initial with
      index := Index.initial.afterAll
        [.openSegment (some main) (some "x"), .openSegment (some other) (some "y")] }
    let issue : Issue := ⟨"Twice", [⟨⟨some main, 0, 1⟩, ""⟩, ⟨⟨none, 0, 0⟩, "Here"⟩,
      ⟨⟨some main, 0, 1⟩, ""⟩, ⟨⟨some other, 0, 1⟩, ""⟩, ⟨⟨some main, 0, 1⟩, ""⟩], []⟩
    (∀ mark ∈ issue.marks, ∀ path, mark.span.path = some path → library.CanRead path) ∧
      ∃ shown : List Block, (issue.text .standard library).1 = .ok ("\n".intercalate
          (issue.intro :: "" :: (shown.map Block.text ++ issue.footer))) ∧
        shown.filterMap Block.heading? = [main, other, main] := by
  intro main other library issue
  have hmain : library.CanRead main := Or.inl ⟨"x", by decide +kernel⟩
  have hother : library.CanRead other := Or.inl ⟨"y", by decide +kernel⟩
  have hread : ∀ mark ∈ issue.marks, ∀ path, mark.span.path = some path → library.CanRead path := by
    intro mark hmark path hpath
    simp only [issue, List.mem_cons, List.not_mem_nil, or_false] at hmark
    rcases hmark with rfl | rfl | rfl | rfl | rfl <;> cases hpath
    exacts [hmain, hmain, hother, hmain]
  obtain ⟨htext, hexists⟩ := pictures_under_headings .standard issue library
  obtain ⟨blocks, later, hblocks⟩ := hexists hread
  obtain ⟨shown, hshown, -, hheadings, -⟩ := htext blocks later hblocks
  exact ⟨hread, shown, by rw [hshown], hheadings.trans (by decide)⟩

end StraightLine
