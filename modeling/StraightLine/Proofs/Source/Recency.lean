import Mathlib.Data.List.Basic
import StraightLine.Source.Library

/-!
The order of a shelf. A fetch puts its path in front of the others, and what does not fit falls off
at the end; so a shelf holds the paths fetched last, each of them once.
-/

namespace StraightLine

section Distinct

variable {α : Type} [DecidableEq α]

theorem filter_eraseDups (p : α → Bool) :
    ∀ entries : List α, entries.eraseDups.filter p = (entries.filter p).eraseDups
  | [] => rfl
  | a :: entries => by
      rw [List.eraseDups_cons, List.filter_cons, List.filter_cons,
        filter_eraseDups p (entries.filter _), List.filter_filter]
      cases hp : p a with
      | true =>
          rw [if_pos rfl, if_pos rfl, List.eraseDups_cons, List.filter_filter]
          simp only [Bool.and_comm]
      | false =>
          have hother : ∀ b ∈ entries, (p b && !b == a) = p b := by
            intro b _
            by_cases hb : b = a <;> simp [hb, hp]
          rw [if_neg Bool.false_ne_true, if_neg Bool.false_ne_true, List.filter_congr hother]
termination_by entries => entries.length
decreasing_by exact Nat.lt_succ_of_le (List.length_filter_le _ _)

/-- An entry in front takes the place of those that are equal to it. -/
theorem eraseDups_cons_eq (a : α) (entries : List α) :
    (a :: entries).eraseDups = a :: entries.eraseDups.filter (· ≠ a) := by
  rw [List.eraseDups_cons, filter_eraseDups]
  simp only [ne_eq, decide_not]
  rfl

theorem nodup_eraseDups (entries : List α) : entries.eraseDups.Nodup := by
  induction entries with
  | nil => exact List.nodup_nil
  | cons a entries ih =>
      rw [eraseDups_cons_eq, List.nodup_cons]
      exact ⟨fun hmem => of_decide_eq_true (List.mem_filter.mp hmem).2 rfl, ih.filter _⟩

/-- Whether an entry is taken out before the others are cut off or behind it makes no difference,
if there is room for one more in the first case. -/
theorem take_filter_ne {entries : List α} (h : entries.Nodup) (a : α) (n : Nat) :
    (entries.filter (· ≠ a)).take n = ((entries.take (n + 1)).filter (· ≠ a)).take n := by
  induction entries generalizing n with
  | nil => rfl
  | cons b entries ih =>
      rw [List.nodup_cons] at h
      rw [List.take_succ_cons]
      by_cases hb : b = a
      · subst hb
        have hother : ∀ c ∈ entries, decide (c ≠ b) = true := fun c hc =>
          decide_eq_true fun heq => h.1 (heq ▸ hc)
        rw [List.filter_cons_of_neg (by simp), List.filter_cons_of_neg (by simp),
          List.filter_eq_self.mpr hother,
          List.filter_eq_self.mpr fun c hc => hother c (List.mem_of_mem_take hc), List.take_take,
          Nat.min_self]
      · rw [List.filter_cons_of_pos (by simpa using hb),
          List.filter_cons_of_pos (by simpa using hb)]
        cases n with
        | zero => rfl
        | succ n => rw [List.take_succ_cons, List.take_succ_cons, ih h.2 n]

/-- Those entries among the first few distinct ones that stay when another is put in front. -/
theorem take_eraseDups_cons (a : α) (entries : List α) (n : Nat) :
    (a :: entries).eraseDups.take (n + 1) =
      a :: ((entries.eraseDups.take (n + 1)).filter (· ≠ a)).take n := by
  rw [eraseDups_cons_eq, List.take_succ_cons, take_filter_ne (nodup_eraseDups entries)]

end Distinct

namespace Shelf

variable {shelf : Shelf} {disk : Disk} {path : Path} {text : List Char}

/-- The paths of the texts on a shelf, the one used last in front. -/
def paths (shelf : Shelf) : List Path :=
  shelf.entries.map Prod.fst

theorem lookup_eq_none_iff : shelf.entries.lookup path = none ↔ path ∉ shelf.paths := by
  rw [List.lookup_eq_none_iff, paths, List.mem_map]
  constructor
  · rintro h ⟨entry, hentry, rfl⟩
    simpa using h entry hentry
  · intro h entry hentry
    rw [bne_iff_ne]
    rintro rfl
    exact h ⟨entry, hentry, rfl⟩

theorem mem_entries_of_lookup (h : shelf.entries.lookup path = some text) :
    (path, text) ∈ shelf.entries := by
  obtain ⟨front, back, heq, -⟩ := List.lookup_eq_some_iff.mp h
  rw [heq]
  exact List.mem_append_right front List.mem_cons_self

/-- **A fetch puts its path in front,** and those behind it stay in their order as far as there is
room. -/
theorem paths_fetch (hroom : shelf.paths.length ≤ capacity)
    (h : (shelf.fetch disk path).1 = .ok text) :
    (shelf.fetch disk path).2.paths =
      path :: (shelf.paths.filter (· ≠ path)).take (capacity - 1) := by
  cases hheld : shelf.entries.lookup path with
  | some held =>
      have hmem : path ∈ shelf.paths := List.mem_map.mpr ⟨_, mem_entries_of_lookup hheld, rfl⟩
      have hless : (shelf.paths.filter (· ≠ path)).length < shelf.paths.length :=
        List.length_filter_lt_length_iff_exists.mpr ⟨path, hmem, by simp⟩
      rw [fetch_of_held hheld, List.take_of_length_le (by omega)]
      simp only [paths, List.map_cons, List.filter_map]
      rfl
  | none =>
      have hother : ∀ other ∈ shelf.paths, decide (other ≠ path) = true := fun other hmem =>
        decide_eq_true fun heq => lookup_eq_none_iff.mp hheld (heq ▸ hmem)
      cases hread : disk.read path with
      | error cause =>
          rw [fetch_of_unreadable hheld hread] at h
          cases h
      | ok found =>
          rw [fetch_of_read hheld hread, List.filter_eq_self.mpr hother]
          simp only [paths, List.map_take, List.map_cons]
          rfl

/-- The paths on a shelf stay the first few distinct ones among those used, the last one in front.
-/
theorem paths_fetch_of_recent {used : List Path}
    (hpaths : shelf.paths = used.eraseDups.take capacity)
    (h : (shelf.fetch disk path).1 = .ok text) :
    (shelf.fetch disk path).2.paths = (path :: used).eraseDups.take capacity := by
  have hroom : shelf.paths.length ≤ capacity := hpaths ▸ List.length_take_le _ _
  rw [paths_fetch hroom h, hpaths]
  exact (take_eraseDups_cons path used (capacity - 1)).symm

/-- What is on the shelf after a fetch was there before, or is the text that the file has now. -/
theorem mem_entries_fetch {entry : Path × List Char}
    (h : entry ∈ (shelf.fetch disk path).2.entries) :
    entry ∈ shelf.entries ∨
      entry.1 = path ∧ shelf.entries.lookup path = none ∧ disk.read path = .ok entry.2 := by
  cases hheld : shelf.entries.lookup path with
  | some held =>
      rw [fetch_of_held hheld] at h
      rcases List.mem_cons.mp h with rfl | hmem
      · exact Or.inl (mem_entries_of_lookup hheld)
      · exact Or.inl (List.mem_of_mem_filter hmem)
  | none =>
      cases hread : disk.read path with
      | error cause =>
          rw [fetch_of_unreadable hheld hread] at h
          exact Or.inl h
      | ok found =>
          rw [fetch_of_read hheld hread] at h
          rcases List.mem_cons.mp (List.mem_of_mem_take h) with rfl | hmem
          · exact Or.inr ⟨rfl, rfl, rfl⟩
          · exact Or.inl hmem

end Shelf

end StraightLine
