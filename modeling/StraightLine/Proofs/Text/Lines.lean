import Mathlib.Data.List.GetD
import Mathlib.Data.List.Sort
import Mathlib.Data.Nat.Count
import StraightLine.Text.Lines

/-!
Lines and the breaks between them. Whether a break ends at an offset is seen from the two characters
around the offset alone; the offsets that are collected along a text are those, in ascending order. From
there on rows are counts of breaks, and a line reaches from one break to the next.
-/

namespace StraightLine.Text

/-- That a line break ends right before an offset: behind a line feed, or behind a carriage return
without a line feed after it. -/
def BreakAt (text : List Char) : Nat → Prop
  | 0 => False
  | k + 1 => text[k]? = some '\n' ∨ text[k]? = some '\r' ∧ text[k + 1]? ≠ some '\n'

instance (text : List Char) : DecidablePred (BreakAt text)
  | 0 => inferInstanceAs (Decidable False)
  | k + 1 => inferInstanceAs
      (Decidable (text[k]? = some '\n' ∨ text[k]? = some '\r' ∧ text[k + 1]? ≠ some '\n'))

theorem BreakAt.pos {text : List Char} {k : Nat} (h : BreakAt text k) : 0 < k := by
  cases k with
  | zero => exact absurd h not_false
  | succ k => exact Nat.succ_pos k

theorem BreakAt.le_length {text : List Char} {k : Nat} (h : BreakAt text k) : k ≤ text.length := by
  cases k with
  | zero => exact Nat.zero_le _
  | succ k =>
      rcases h with h | ⟨h, -⟩
      · exact (List.getElem?_eq_some_iff.mp h).1
      · exact (List.getElem?_eq_some_iff.mp h).1

/-- Breaks behind the second character are those of the rest. -/
theorem breakAt_cons {c : Char} {rest : List Char} {k : Nat} (hk : 0 < k) :
    BreakAt (c :: rest) (k + 1) ↔ BreakAt rest k := by
  obtain ⟨k, rfl⟩ := Nat.exists_eq_succ_of_ne_zero hk.ne'
  rfl

/-! ### The collected breaks -/

theorem collectBreaks_shift (text : List Char) (shift offset : Nat) (found : List Nat) :
    collectBreaks text (offset + shift) (found.map (· + shift)) =
      (collectBreaks text offset found).map (· + shift) := by
  have hnext (n m : Nat) : n + m + shift = n + shift + m := Nat.add_right_comm n m shift
  fun_induction collectBreaks text offset found with
  | case1 offset found => rw [collectBreaks, List.map_reverse]
  | case2 rest offset found ih => rw [← ih, collectBreaks, List.map_cons, hnext]
  | case3 rest offset found h ih => rw [← ih, collectBreaks.eq_3 _ _ _ h, List.map_cons, hnext]
  | case4 rest offset found ih => rw [← ih, collectBreaks, List.map_cons, hnext]
  | case5 c rest offset found h₁ h₂ h₃ ih => rw [← ih, collectBreaks.eq_5 _ _ _ _ h₁ h₂ h₃, hnext]

/-- The breaks of a text are the one that its first character may be and those of the rest. -/
theorem breakEnds_cons (c : Char) (rest : List Char) :
    breakEnds (c :: rest) =
      (if BreakAt (c :: rest) 1 then [1] else []) ++ (breakEnds rest).map (· + 1) := by
  have hrest : collectBreaks rest 1 [] = (breakEnds rest).map (· + 1) :=
    collectBreaks_shift rest 1 0 []
  have hfirst : collectBreaks rest 1 [1] = 1 :: (breakEnds rest).map (· + 1) := by
    rw [← hrest]
    exact collectBreaks_append rest 1 [] [1]
  by_cases hfeed : c = '\n'
  · subst hfeed
    have hbreak : BreakAt ('\n' :: rest) 1 := Or.inl rfl
    rw [if_pos hbreak, breakEnds, collectBreaks, hfirst]
    rfl
  · by_cases hreturn : c = '\r'
    · subst hreturn
      -- A pair is one break, which ends behind its line feed.
      by_cases hpair : ∃ others, rest = '\n' :: others
      · obtain ⟨others, rfl⟩ := hpair
        have hbreak : ¬BreakAt ('\r' :: '\n' :: others) 1 := by simp [BreakAt]
        rw [if_neg hbreak, breakEnds, collectBreaks, breakEnds, collectBreaks]
        exact collectBreaks_shift others 1 1 [1]
      · have hbreak : BreakAt ('\r' :: rest) 1 := by
          refine Or.inr ⟨rfl, fun hnext => hpair ?_⟩
          have hhead : rest.head? = some '\n' := (List.head?_eq_getElem? ..).trans hnext
          exact List.head?_eq_some_iff.mp hhead
        rw [if_pos hbreak, breakEnds, collectBreaks.eq_3 _ _ _ fun others h => hpair ⟨others, h⟩,
          hfirst]
        rfl
    · have hbreak : ¬BreakAt (c :: rest) 1 := by simp [BreakAt, hfeed, hreturn]
      rw [if_neg hbreak, breakEnds,
        collectBreaks.eq_5 _ _ _ _ (fun _ h _ => hreturn h) hreturn hfeed, hrest]
      rfl

theorem mem_breakEnds {text : List Char} {k : Nat} : k ∈ breakEnds text ↔ BreakAt text k := by
  induction text generalizing k with
  | nil =>
      refine ⟨fun h => absurd h List.not_mem_nil, fun h => ?_⟩
      exact absurd h.le_length (Nat.not_le_of_lt h.pos)
  | cons c rest ih =>
      rw [breakEnds_cons, List.mem_append, List.mem_map]
      match k with
      | 0 => simp [BreakAt]
      | 1 =>
          have hnone : 0 ∉ breakEnds rest := fun h => (ih.mp h).pos.ne rfl
          simp [hnone]
      | k + 2 =>
          rw [breakAt_cons (Nat.succ_pos k), ← ih]
          simp

theorem pairwise_breakEnds (text : List Char) : (breakEnds text).Pairwise (· < ·) := by
  induction text with
  | nil => exact List.Pairwise.nil
  | cons c rest ih =>
      have hrest := ih.map (· + 1) fun _ _ => Nat.succ_lt_succ
      rw [breakEnds_cons]
      split
      · rw [List.singleton_append]
        refine List.pairwise_cons.mpr ⟨fun k hk => ?_, hrest⟩
        obtain ⟨j, hj, rfl⟩ := List.mem_map.mp hk
        exact Nat.succ_lt_succ (mem_breakEnds.mp hj).pos
      · exact hrest

/-! ### Rows and lines -/

/-- The row of an offset is one more than the breaks that end at it or before it. -/
theorem rowOf_natCast (text : List Char) (offset : Nat) :
    rowOf text offset = 1 + Nat.count (BreakAt text) (offset + 1) := by
  have hnodup : (breakEnds text).Nodup := (pairwise_breakEnds text).imp Nat.ne_of_lt
  have hcount : (breakEnds text).countP (fun e : Nat => decide ((e : Int) ≤ offset)) =
      Nat.count (BreakAt text) (offset + 1) := by
    rw [List.countP_eq_length_filter, ← List.toFinset_card_of_nodup (hnodup.filter _),
      Nat.count_eq_card_filter_range]
    congr 1
    ext e
    simp only [List.mem_toFinset, List.mem_filter, mem_breakEnds, decide_eq_true_eq, Int.ofNat_le,
      Finset.mem_filter, Finset.mem_range, Nat.lt_succ_iff]
    exact and_comm
  rw [rowOf, lineStarts, List.countP_cons_of_pos (by simp), hcount, Nat.add_comm]

/-- In strictly ascending order the entries up to a bound are in front. -/
theorem getElem_le_iff_lt_countP {entries : List Nat} (h : entries.Pairwise (· < ·)) (bound : Int)
    {j : Nat} (hj : j < entries.length) :
    (entries[j] : Int) ≤ bound ↔ j < entries.countP fun e : Nat => decide ((e : Int) ≤ bound) := by
  induction entries generalizing j with
  | nil => exact absurd hj (Nat.not_lt_zero j)
  | cons e entries ih =>
      obtain ⟨hfirst, hrest⟩ := List.pairwise_cons.mp h
      by_cases he : (e : Int) ≤ bound
      · rw [List.countP_cons_of_pos (by simpa using he)]
        cases j with
        | zero => simpa using he
        | succ j =>
            rw [List.getElem_cons_succ, ih hrest, Nat.succ_lt_succ_iff]
      · have hnone : ∀ e' ∈ e :: entries, ¬(e' : Int) ≤ bound := by
          intro e' he'
          rcases List.mem_cons.mp he' with rfl | he'
          · exact he
          · have hlt := hfirst e' he'
            omega
        have hzero : (e :: entries).countP (fun e : Nat => decide ((e : Int) ≤ bound)) = 0 :=
          List.countP_eq_zero.mpr fun e' he' => by simpa using hnone e' he'
        rw [hzero]
        exact iff_of_false (hnone _ (List.getElem_mem hj)) (Nat.not_lt_zero j)

theorem sortedLT_lineStarts (text : List Char) : (lineStarts text).SortedLT := by
  refine List.Pairwise.sortedLT (List.pairwise_cons.mpr ⟨fun k hk => ?_, pairwise_breakEnds text⟩)
  exact (mem_breakEnds.mp hk).pos

theorem mem_lineStarts {text : List Char} {k : Nat} :
    k ∈ lineStarts text ↔ k = 0 ∨ BreakAt text k := by
  rw [lineStarts, List.mem_cons, mem_breakEnds]

/-- The lines that start at an offset or before it are those up to its row. -/
theorem getElem_lineStarts_le_iff {text : List Char} {offset j : Nat}
    (hj : j < (lineStarts text).length) :
    (lineStarts text)[j] ≤ offset ↔ j < rowOf text offset := by
  rw [← Int.ofNat_le]
  exact getElem_le_iff_lt_countP (sortedLT_lineStarts text).pairwise offset hj

/-- That the line of an offset reaches from `first` to `last`: from the last break up to the offset, or
the start of the text, to behind the next break, or the end of the text. -/
structure LineOf (text : List Char) (offset first last : Nat) : Prop where
  first_le : first ≤ offset
  starts : first = 0 ∨ BreakAt text first
  not_breakAt : ∀ k, first < k → k ≤ offset → ¬BreakAt text k
  le_last : offset ≤ last
  ends : last = text.length ∨ offset < last ∧ BreakAt text last
  not_breakAt_ahead : ∀ k, offset < k → k < last → ¬BreakAt text k

theorem LineOf.last_le {text : List Char} {offset first last : Nat}
    (h : LineOf text offset first last) : last ≤ text.length := by
  rcases h.ends with hlast | ⟨-, hbreak⟩
  · exact hlast.le
  · exact hbreak.le_length

/-- Where the line of an offset starts and ends are two neighbours among the starts of all lines. -/
theorem lineOf_of_rowOf {text : List Char} {offset row : Nat} (h : offset ≤ text.length)
    (hrow : rowOf text offset = row + 1) (hlt : row < (lineStarts text).length) :
    LineOf text offset (lineStarts text)[row]
      ((lineStarts text).getD (row + 1) text.length) := by
  have hsorted := sortedLT_lineStarts text
  have hupto {j : Nat} (hj : j < (lineStarts text).length) :
      (lineStarts text)[j] ≤ offset ↔ j ≤ row := by
    rw [getElem_lineStarts_le_iff hj, hrow, Nat.lt_succ_iff]
  have hplace {k : Nat} (hbreak : BreakAt text k) :
      ∃ j, ∃ hj : j < (lineStarts text).length, (lineStarts text)[j] = k :=
    List.mem_iff_getElem.mp (mem_lineStarts.mpr (Or.inr hbreak))
  have hbehind (k : Nat) (hk : (lineStarts text)[row] < k) (hle : k ≤ offset) :
      ¬BreakAt text k := by
    intro hbreak
    obtain ⟨j, hj, rfl⟩ := hplace hbreak
    exact absurd ((hupto hj).mp hle) (Nat.not_le_of_lt (hsorted.getElem_lt_getElem_iff.mp hk))
  have hstarts := mem_lineStarts.mp (List.getElem_mem hlt)
  by_cases hnext : row + 1 < (lineStarts text).length
  · rw [List.getD_eq_getElem _ _ hnext]
    have hafter : offset < (lineStarts text)[row + 1] := by
      rw [← Nat.not_le, hupto hnext]
      exact Nat.not_succ_le_self row
    refine ⟨(hupto hlt).mpr le_rfl, hstarts, hbehind, hafter.le, Or.inr ⟨hafter, ?_⟩, ?_⟩
    · exact (mem_lineStarts.mp (List.getElem_mem hnext)).resolve_left (Nat.ne_zero_of_lt hafter)
    · intro k hk hbefore hbreak
      obtain ⟨j, hj, rfl⟩ := hplace hbreak
      have hrow_lt : ¬j ≤ row := fun hle => Nat.not_lt_of_le ((hupto hj).mpr hle) hk
      exact hrow_lt (Nat.lt_succ_iff.mp (hsorted.getElem_lt_getElem_iff.mp hbefore))
  · rw [List.getD_eq_default _ _ (Nat.le_of_not_lt hnext)]
    refine ⟨(hupto hlt).mpr le_rfl, hstarts, hbehind, h, Or.inl rfl, ?_⟩
    intro k hk _ hbreak
    obtain ⟨j, hj, rfl⟩ := hplace hbreak
    exact Nat.not_lt_of_le ((hupto hj).mpr (by omega)) hk

theorem rowOf_le_length (text : List Char) (offset : Int) :
    rowOf text offset ≤ (lineStarts text).length :=
  List.countP_le_length

/-- The bounds of a text are the starts of its lines and its end. -/
theorem getElem?_bounds {text : List Char} {k : Nat} (h : k ≤ (lineStarts text).length) :
    (bounds text)[k]? = some ((lineStarts text).getD k text.length) := by
  rcases Nat.lt_or_eq_of_le h with hlt | rfl
  · rw [bounds, List.getElem?_append_left hlt, List.getD_eq_getElem?_getD,
      List.getElem?_eq_getElem hlt]
    rfl
  · rw [bounds, List.getElem?_concat_length, List.getD_eq_default _ _ le_rfl]

/-- **The row, the column and the line of an offset are those of one stretch**, which reaches from the
break before the offset to the break behind it. -/
theorem exists_lineOf {text : List Char} {offset : Nat} (h : offset ≤ text.length) :
    ∃ first last, LineOf text offset first last ∧ columnOf text offset = (offset - first : Nat) ∧
      lineAt text (rowOf text offset) = (text.take last).drop first := by
  obtain ⟨row, hrow⟩ : ∃ row, rowOf text offset = row + 1 :=
    ⟨_, (rowOf_natCast text offset).trans (Nat.add_comm ..)⟩
  have hlt : row < (lineStarts text).length :=
    Nat.lt_of_succ_le (hrow.symm.trans_le (rowOf_le_length text offset))
  have hline := lineOf_of_rowOf h hrow hlt
  have hfirst := hline.first_le
  have hstart : (lineStarts text).getD row text.length = (lineStarts text)[row] :=
    List.getD_eq_getElem _ _ hlt
  refine ⟨_, _, hline, ?_, ?_⟩
  · rw [columnOf, rowStart, hrow, if_neg (Nat.succ_ne_zero row), Nat.add_sub_cancel, hstart]
    omega
  · rw [lineAt, hrow, Nat.add_sub_cancel, hstart, List.drop_take]

theorem le_length_of_mem_lineStarts {text : List Char} {k : Nat} (h : k ∈ lineStarts text) :
    k ≤ text.length := by
  rcases mem_lineStarts.mp h with rfl | hbreak
  · exact Nat.zero_le _
  · exact hbreak.le_length

/-- Whatever the offset is, the line of its row is that of an offset of the text: of the first one or
of the last one if it is none itself. -/
theorem exists_lineOf_rowOf (text : List Char) (offset : Int) :
    ∃ (place first last : Nat), LineOf text place first last ∧
      lineAt text (rowOf text offset) = (text.take last).drop first := by
  by_cases hneg : offset < 0
  · have hzero : rowOf text offset = 0 := by
      apply List.countP_eq_zero.mpr
      intro start _
      simpa using hneg.trans_le (Int.natCast_nonneg start)
    have hone : rowOf text (0 : Nat) = 1 := by
      rw [rowOf_natCast, Nat.count_succ, Nat.count_zero, if_neg (show ¬BreakAt text 0 from not_false)]
    obtain ⟨first, last, hline, -, hlineAt⟩ := exists_lineOf (Nat.zero_le text.length)
    refine ⟨0, first, last, hline, ?_⟩
    rw [← hlineAt, hzero, hone]
    rfl
  · obtain ⟨place, rfl⟩ := Int.eq_ofNat_of_zero_le (Int.not_lt.mp hneg)
    by_cases hle : place ≤ text.length
    · obtain ⟨first, last, hline, -, hlineAt⟩ := exists_lineOf hle
      exact ⟨place, first, last, hline, hlineAt⟩
    · have hsame : rowOf text place = rowOf text text.length := by
        apply List.countP_congr
        intro start hstart
        have hlength := le_length_of_mem_lineStarts hstart
        simp only [decide_eq_true_eq]
        omega
      obtain ⟨first, last, hline, -, hlineAt⟩ := exists_lineOf (Nat.le_refl text.length)
      refine ⟨text.length, first, last, hline, ?_⟩
      rw [hsame, hlineAt]

end StraightLine.Text
