/-!
Bisection of ascending numbers: how many of them do not exceed a bound, found by halving the stretch
of places where the answer may lie.
-/

namespace StraightLine

/-- The first place between `low` and `high` whose entry exceeds the bound, and `high` if there is
none. -/
def bisectBetween (entries : Array Nat) (bound : Int) (low high : Nat)
    (hhigh : high ≤ entries.size) : Nat :=
  if hlow : low < high then
    let middle := (low + high) / 2
    have hmiddle : middle < high := by omega
    if bound < entries[middle] then
      bisectBetween entries bound low middle (Nat.le_trans (Nat.le_of_lt hmiddle) hhigh)
    else bisectBetween entries bound (middle + 1) high hhigh
  else low
termination_by high - low

/-- The number of entries that do not exceed the bound, if the entries ascend. -/
def bisect (entries : Array Nat) (bound : Int) : Nat :=
  bisectBetween entries bound 0 entries.size (Nat.le_refl _)

/-- That no entry exceeds one behind it. -/
def Ascending (entries : Array Nat) : Prop :=
  ∀ i j (hj : j < entries.size) (hij : i ≤ j), entries[i] ≤ entries[j]

theorem ascending_singleton (entry : Nat) : Ascending #[entry] := by
  intro i j hj hij
  have hj : j < 1 := hj
  obtain rfl : i = j := by omega
  exact Nat.le_refl _

theorem Ascending.push {entries : Array Nat} (h : Ascending entries) {entry : Nat}
    (hentry : ∀ e ∈ entries, e ≤ entry) : Ascending (entries.push entry) := by
  intro i j hj hij
  rw [Array.size_push] at hj
  by_cases hlast : j < entries.size
  · rw [Array.getElem_push_lt hlast, Array.getElem_push_lt (Nat.lt_of_le_of_lt hij hlast)]
    exact h i j hlast hij
  · obtain rfl : j = entries.size := by omega
    rw [Array.getElem_push_eq]
    by_cases hi : i < entries.size
    · rw [Array.getElem_push_lt hi]
      exact hentry _ (Array.getElem_mem hi)
    · obtain rfl : i = entries.size := by omega
      exact Nat.le_of_eq Array.getElem_push_eq

/-- Halving keeps the answer between the two places. -/
theorem bisectBetween_spec {entries : Array Nat} (h : Ascending entries) {bound : Int}
    {low high : Nat} {hhigh : high ≤ entries.size} (hle : low ≤ high)
    (hbelow : ∀ j (hj : j < entries.size), j < low → (entries[j] : Int) ≤ bound)
    (habove : ∀ j (hj : j < entries.size), high ≤ j → bound < entries[j]) :
    bisectBetween entries bound low high hhigh ≤ entries.size ∧
      ∀ j (hj : j < entries.size),
        (entries[j] : Int) ≤ bound ↔ j < bisectBetween entries bound low high hhigh := by
  fun_induction bisectBetween entries bound low high hhigh with
  | case1 low high hhigh hlow middle hmiddle hbound ih =>
      refine ih (by omega) hbelow fun j hj hmj => ?_
      have := h middle j hj hmj
      omega
  | case2 low high hhigh hlow middle hmiddle hbound ih =>
      refine ih (by omega) (fun j hj hjm => ?_) habove
      have := h j middle (by omega) (by omega)
      omega
  | case3 low high hhigh hlow =>
      obtain rfl : low = high := by omega
      refine ⟨hhigh, fun j hj => ⟨fun hentry => ?_, hbelow j hj⟩⟩
      have hnot := mt (habove j hj) (Int.not_lt.mpr hentry)
      omega

theorem bisect_le_size {entries : Array Nat} (h : Ascending entries) (bound : Int) :
    bisect entries bound ≤ entries.size :=
  (bisectBetween_spec h (Nat.zero_le _) (by omega) (by omega)).1

/-- The entries in front of the place found are those that do not exceed the bound. -/
theorem le_iff_lt_bisect {entries : Array Nat} (h : Ascending entries) (bound : Int) {j : Nat}
    (hj : j < entries.size) : (entries[j] : Int) ≤ bound ↔ j < bisect entries bound :=
  (bisectBetween_spec h (Nat.zero_le _) (by omega) (by omega)).2 j hj

end StraightLine
