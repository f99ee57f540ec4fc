import Mathlib.Data.List.TakeWhile
import Mathlib.Order.Interval.Finset.Nat
import StraightLine.Proofs.Text.Lines
import StraightLine.Proofs.Text.Numeral
import StraightLine.Report.Issue

/-!
The carets of a picture stand under the stretch that the picture is of, whichever illustrator draws it
as illustrators are expected to draw. Row, column and line are taken from the same two breaks; so a
caret has as many characters in front of it as the character that it points at, tabs among them where
the line has tabs.
-/

namespace StraightLine

namespace Text

/-- What trimming leaves does not end in a blank. -/
theorem not_isBlank_of_getLast?_trimEnd {text : List Char} {c : Char}
    (h : (trimEnd text).getLast? = some c) : isBlank c = false := by
  have hhead := List.head?_dropWhile_not isBlank text.reverse
  rw [trimEnd, List.getLast?_reverse] at h
  rw [h] at hhead
  exact hhead

/-- Trimming takes off nothing but blanks. -/
theorem exists_blanks_of_trimEnd (text : List Char) :
    ∃ cut, text = trimEnd text ++ cut ∧ ∀ c ∈ cut, isBlank c = true :=
  ⟨_, (trimEnd_append text).symm, fun _ hc => List.mem_takeWhile_imp (List.mem_reverse.mp hc)⟩

end Text

/-! ### Places and lines as illustrators tell them -/

namespace Illustrator

variable {tools : Illustrator}

theorem Conforms.row_eq (h : tools.Conforms) (text : List Char) (offset : Int) :
    (tools.locate text offset).1 = Text.rowOf text offset := by
  rw [h.row, Text.bounds, List.dropLast_concat]
  rfl

/-- The row of an offset has a bound, or it is row zero. -/
theorem Conforms.column_eq (h : tools.Conforms) (text : List Char) (offset : Int) :
    (tools.locate text offset).2 = Text.columnOf text offset := by
  have hrow := h.row_eq text offset
  cases hk : Text.rowOf text offset with
  | zero =>
      rw [hk] at hrow
      rw [Text.columnOf, Text.rowStart, hk, if_pos rfl]
      exact h.column_of_row_zero text offset text.length hrow (by simp [Text.bounds])
  | succ k =>
      have hlt : k < (Text.lineStarts text).length :=
        Nat.lt_of_succ_le (hk.symm.trans_le (Text.rowOf_le_length text offset))
      rw [hk] at hrow
      rw [Text.columnOf, Text.rowStart, hk, if_neg (Nat.succ_ne_zero k), Nat.add_sub_cancel]
      exact h.column text offset k _ hrow (Text.getElem?_bounds hlt.le)

theorem Conforms.line_eq (h : tools.Conforms) {text : List Char} {row : Nat}
    (hrow : row ≤ (Text.lineStarts text).length) : tools.line text row = Text.lineAt text row := by
  rw [Text.lineAt, ← List.drop_take]
  cases row with
  | zero =>
      have hone : 1 ≤ (Text.lineStarts text).length := Nat.succ_le_succ (Nat.zero_le _)
      exact h.line_of_row_zero text _ _ (Text.getElem?_bounds (Nat.zero_le _))
        (Text.getElem?_bounds hone)
  | succ k =>
      exact h.line text k _ _ (Text.getElem?_bounds (Nat.le_of_succ_le hrow))
        (Text.getElem?_bounds hrow)

/-- The illustrator that finds places by lines does what is expected of one. -/
theorem conforms_standard : standard.Conforms where
  row text offset := by
    rw [Text.bounds, List.dropLast_concat]
    rfl
  column text offset k bound hrow hbound := by
    have hrow : Text.rowOf text offset = k + 1 := Int.ofNat.inj hrow
    have hle : k ≤ (Text.lineStarts text).length :=
      Nat.le_of_succ_le (hrow.symm.trans_le (Text.rowOf_le_length text offset))
    rw [Text.getElem?_bounds hle, Option.some.injEq] at hbound
    change Text.columnOf text offset = offset - bound
    rw [Text.columnOf, Text.rowStart, hrow, if_neg (Nat.succ_ne_zero k), Nat.add_sub_cancel, hbound]
  column_of_row_zero text offset bound hrow hbound := by
    have hrow : Text.rowOf text offset = 0 := Int.ofNat.inj hrow
    have hlast : text.length = bound := by simpa [Text.bounds] using hbound
    change Text.columnOf text offset = offset - bound
    rw [Text.columnOf, Text.rowStart, hrow, if_pos rfl, hlast]
  line text k first last hfirst hlast := by
    change Text.lineAt text (k + 1) = _
    have hle : k + 1 ≤ (Text.lineStarts text).length := by
      have hlt := (List.getElem?_eq_some_iff.mp hlast).1
      rw [Text.bounds, List.length_append, List.length_singleton] at hlt
      omega
    rw [Text.getElem?_bounds (Nat.le_of_succ_le hle), Option.some.injEq] at hfirst
    rw [Text.getElem?_bounds hle, Option.some.injEq] at hlast
    rw [Text.lineAt, ← List.drop_take, Nat.add_sub_cancel, hfirst, hlast]
  line_of_row_zero text first last hfirst hlast := by
    change Text.lineAt text 0 = _
    have hone : 1 ≤ (Text.lineStarts text).length := Nat.succ_le_succ (Nat.zero_le _)
    rw [Text.getElem?_bounds (Nat.zero_le _), Option.some.injEq] at hfirst
    rw [Text.getElem?_bounds hone, Option.some.injEq] at hlast
    rw [Text.lineAt, ← List.drop_take, Nat.zero_sub, Nat.zero_add, hfirst, hlast]
  underline _ _ _ _ _ := rfl

end Illustrator

namespace Picture

open Illustrator

/-- The parts of a picture: a line behind its margin, and below it blanks and carets. -/
structure Parts where
  margin : List Char
  shown : List Char
  blanks : List Char
  carets : Nat

namespace Parts

/-- The picture that the parts make with a caption. -/
def text (parts : Parts) (caption : String) : String :=
  String.ofList (parts.margin ++ parts.shown ++ '\n' :: (parts.blanks ++
    List.replicate parts.carets '^')) ++ " " ++ caption

/-- That a picture points at a stretch of the line between `first` and `last`. The margin tells the
row; the line is shown without the blanks at its end. In front of the carets there are as many
characters as in front of the stretch, and they are spaces, or tabs below tabs. There is a caret for
each character of the stretch on the line, and one if there is none. -/
structure PointAt (parts : Parts) (text : List Char) (start stop first last : Nat) : Prop where
  margin : let number := Nat.toDigits 10 (1 + Nat.count (Text.BreakAt text) (start + 1))
    parts.margin = List.replicate (max 1 (6 - number.length)) ' ' ++ number ++ [' ', '|']
  shown : ∃ cut, (text.take last).drop first = parts.shown ++ cut ∧ ∀ c ∈ cut, Text.isBlank c = true
  not_blank : ∀ c, parts.shown.getLast? = some c → Text.isBlank c = false
  length_blanks : parts.blanks.length = parts.margin.length + (start - first)
  blanks : ∀ j (hj : j < parts.blanks.length), parts.blanks[j] =
    if parts.margin.length ≤ j ∧ text[first + (j - parts.margin.length)]? = some '\t' then '\t' else ' '
  carets : parts.carets = max 1 (Finset.Ico start stop ∩ Finset.Ico first last).card

end Parts

/-- The parts of the picture of a stretch. -/
def partsOf (text : List Char) (start stop : Int) : Parts :=
  let row := Text.rowOf text start
  let line := Text.lineAt text row
  let column := Text.columnOf text start
  ⟨margin row, Text.trimEnd line, (margin row ++ before line column).map blankFor,
    caretCount line column (stop - start)⟩

theorem picture_eq {tools : Illustrator} (htools : tools.Conforms) (text : List Char)
    (start stop : Int) (caption : String) :
    tools.picture text start stop caption = (partsOf text start stop).text caption := by
  have hrow := htools.row_eq text start
  have hline := htools.line_eq (Text.rowOf_le_length text start)
  simp only [picture, hrow, htools.column_eq, hline, htools.underline]
  simp only [Parts.text, partsOf]

/-- Rows behind the start of a text have no sign. -/
theorem margin_eq (row : Nat) :
    margin row = List.replicate (max 1 (6 - (Nat.toDigits 10 row).length)) ' ' ++
      Nat.toDigits 10 row ++ [' ', '|'] := by
  have hlength : max 1 (6 - (Nat.toDigits 10 row).length) =
      6 - (' ' :: Nat.toDigits 10 row).length + 1 := by
    rw [List.length_cons]
    omega
  rw [hlength, List.replicate_succ', margin, if_neg (Int.not_lt.mpr (Int.natCast_nonneg row))]
  simp only [Int.natAbs_natCast, List.append_assoc, List.cons_append, List.nil_append]

/-- Below a margin there are spaces only: it has no tabs. -/
theorem map_blankFor_margin (row : Nat) :
    (margin row).map blankFor = List.replicate (margin row).length ' ' := by
  refine List.map_eq_replicate_iff.mpr fun c hc => if_neg ?_
  rintro rfl
  rw [margin_eq, List.mem_append, List.mem_append] at hc
  rcases hc with (hspace | hdigit) | hbar
  · exact absurd (List.eq_of_mem_replicate hspace) (by decide)
  · exact absurd (Text.isDigit_of_mem_toDigits _ hdigit) (by decide)
  · exact absurd hbar (by decide)

theorem before_natCast (line : List Char) (column : Nat) :
    before line column = line.take column := by
  rw [before, if_neg (Int.not_lt.mpr (Int.natCast_nonneg column)), Int.toNat_natCast]

/-- Below the characters in front a tab stands where they have one, and a space elsewhere. -/
theorem getElem_blanks {width j : Nat} {front : List Char}
    (hj : j < (List.replicate width ' ' ++ front.map blankFor).length) :
    (List.replicate width ' ' ++ front.map blankFor)[j] =
      if width ≤ j ∧ front[j - width]? = some '\t' then '\t' else ' ' := by
  rw [List.getElem_append]
  split
  · rename_i hlt
    rw [List.length_replicate] at hlt
    rw [List.getElem_replicate, if_neg fun h => Nat.not_le_of_lt hlt h.1]
  · rename_i hge
    rw [List.length_replicate] at hge
    rw [List.length_append, List.length_replicate, List.length_map] at hj
    have hlt : j - width < front.length := by omega
    have hplace : front[j - width]? = some front[j - width] := List.getElem?_eq_getElem hlt
    simp only [List.getElem_map, List.length_replicate, blankFor, hplace, Option.some.injEq,
      Nat.le_of_not_lt hge, true_and]

/-- The picture of a stretch whose line is known points at it. -/
theorem partsOf_pointAt {text : List Char} {start stop first last : Nat}
    (hstop : start ≤ stop) (hline : Text.LineOf text start first last)
    (hcolumn : Text.columnOf text start = (start - first : Nat))
    (hlineAt : Text.lineAt text (Text.rowOf text start) = (text.take last).drop first) :
    (partsOf text start stop).PointAt text start stop first last := by
  have hfirst := hline.first_le
  have hlast := hline.le_last
  have hend := hline.last_le
  let front := ((text.take last).drop first).take (start - first)
  have hblanks : (partsOf text start stop).blanks =
      List.replicate (partsOf text start stop).margin.length ' ' ++ front.map blankFor := by
    dsimp only [partsOf, front]
    rw [List.map_append, map_blankFor_margin, hcolumn, hlineAt, before_natCast]
  have hfront : front.length = start - first := by
    simp only [front, List.length_take, List.length_drop]
    omega
  refine ⟨?_, ?_, ?_, ?_, ?_, ?_⟩
  · rw [← Text.rowOf_natCast]
    exact margin_eq _
  · rw [← hlineAt]
    exact Text.exists_blanks_of_trimEnd _
  · exact fun c => Text.not_isBlank_of_getLast?_trimEnd
  · rw [hblanks, List.length_append, List.length_replicate, List.length_map, hfront]
  · intro j hj
    rw [List.getElem_of_eq hblanks, getElem_blanks]
    rw [hblanks, List.length_append, List.length_replicate, List.length_map, hfront] at hj
    refine if_congr (and_congr_right fun hwidth => ?_) rfl rfl
    rw [List.getElem?_take_of_lt (by omega), List.getElem?_drop, List.getElem?_take_of_lt (by omega)]
  · dsimp only [partsOf]
    rw [hcolumn, hlineAt, caretCount, Finset.Ico_inter_Ico, Nat.card_Ico, List.length_drop,
      List.length_take]
    omega

/-- The picture of a mark of a source in memory, below the path unless that was shown last. -/
theorem body_mark {tools : Illustrator} (htools : tools.Conforms) {library : Library} {path : Path}
    {source : String} (hsource : library.index.text? path = some source) (shown : Option Path)
    (start stop : Int) (caption : String) :
    Issue.body tools library shown [⟨⟨some path, start, stop⟩, caption⟩] =
      (.ok (Issue.headingLines shown path ++
        [(partsOf source.toList start stop).text caption]), library) := by
  have hfetch : library.fetch path = (.ok source.toList, library) := by
    rw [Library.fetch, hsource]
  simp only [Issue.body, hfetch, picture_eq htools]
  rfl

/-- **Carets stand exactly under the stretch.** For each stretch of a source in memory the picture shows
the row and the line that the stretch starts in, and below it one caret for each character of the
stretch on that line, or one caret if there is none; in front of the carets there are blanks in place
of what stands in front of the stretch. For any other offsets there is still a picture, of a line of
the source with a caret behind blanks. -/
theorem carets_under_stretch {tools : Illustrator} (htools : tools.Conforms) {library : Library}
    {path : Path} {source : String} (hsource : library.index.text? path = some source)
    (shown : Option Path) (caption : String) :
    (∀ start stop : Nat, start ≤ stop → stop ≤ source.toList.length →
      ∃ first last, Text.LineOf source.toList start first last ∧
        ∃ parts : Parts, parts.PointAt source.toList start stop first last ∧
          Issue.body tools library shown [⟨⟨some path, start, stop⟩, caption⟩] =
            (.ok (Issue.headingLines shown path ++ [parts.text caption]), library)) ∧
      ∀ start stop : Int, ∃ offset first last, Text.LineOf source.toList offset first last ∧
        ∃ parts : Parts, parts.shown = Text.trimEnd ((source.toList.take last).drop first) ∧
          1 ≤ parts.carets ∧ (∀ c ∈ parts.blanks, c = ' ' ∨ c = '\t') ∧
            Issue.body tools library shown [⟨⟨some path, start, stop⟩, caption⟩] =
              (.ok (Issue.headingLines shown path ++ [parts.text caption]), library) := by
  refine ⟨fun start stop hstop hlength => ?_, fun start stop => ?_⟩
  · obtain ⟨first, last, hline, hcolumn, hlineAt⟩ := Text.exists_lineOf (hstop.trans hlength)
    exact ⟨first, last, hline, _, partsOf_pointAt hstop hline hcolumn hlineAt,
      body_mark htools hsource shown start stop caption⟩
  · obtain ⟨offset, first, last, hline, hlineAt⟩ := Text.exists_lineOf_rowOf source.toList start
    refine ⟨offset, first, last, hline, _, ?_, ?_, ?_,
      body_mark htools hsource shown start stop caption⟩
    · rw [← hlineAt]
      rfl
    · dsimp only [partsOf, caretCount]
      omega
    · intro c hc
      obtain ⟨d, -, rfl⟩ := List.mem_map.mp hc
      rw [blankFor]
      split
      · exact Or.inr rfl
      · exact Or.inl rfl

/-- A library with one text, of three lines with breaks of two kinds between them. -/
def tabbed : Library :=
  { Library.initial with
    index := (Index.initial.openSegment (some ⟨.here, ["main"]⟩) (some "a\r\n\tbc\td\re")).2 }

/-- The stretch from the third character of the second line to the end: a caret stands under the
carriage return too, and none for what follows it. -/
theorem carets_under_stretch_tabbed :
    let source := "a\r\n\tbc\td\re"
    standard.Conforms ∧ tabbed.index.text? ⟨.here, ["main"]⟩ = some source ∧ 5 ≤ 10 ∧
      10 ≤ source.toList.length ∧ ∃ first last, Text.LineOf source.toList 5 first last ∧
        ∃ parts : Parts, parts.PointAt source.toList 5 10 first last ∧
          parts.text "Here" = "     2 |\tbc\td\n        \t ^^^^ Here" := by
  intro source
  have hsource : tabbed.index.text? ⟨.here, ["main"]⟩ = some source := by decide +kernel
  have hlength : 10 ≤ source.toList.length := by decide +kernel
  obtain ⟨first, last, hline, parts, hpoint, hbody⟩ :=
    (carets_under_stretch conforms_standard hsource none "Here").1 5 10 (by decide) hlength
  refine ⟨conforms_standard, hsource, by decide, hlength, first, last, hline, parts, hpoint, ?_⟩
  have hpicture : (partsOf source.toList 5 10).text "Here" =
      "     2 |\tbc\td\n        \t ^^^^ Here" := by
    decide +kernel
  -- Both are the one picture of the mark.
  rw [body_mark conforms_standard hsource, Prod.mk.injEq, Except.ok.injEq, List.append_cancel_left_eq,
    List.singleton_inj] at hbody
  exact hbody.1.symm.trans hpicture

end Picture

end StraightLine
