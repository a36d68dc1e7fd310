import Mathlib.Algebra.BigOperators.Field
import Mathlib.Data.Rat.Floor
import Mathlib.Tactic.Linarith
import Codelib.Gnuplot.RowsAgree

/-!
# Codelib.Gnuplot.Histogram

**`raw2freq.pl` prints the histogram of the raw file** (`perlRows_eq_histogram`).

The histogram counts the lines between two bin edges; the script counts equal quotients. A
line is in the bin of its quotient (`bin_eq_iff`), and every line is in one of the bins
the array has (`sum_occupancy`).

Perl divides in floating point. Below `2^53` this makes no difference: the quotient may be
rounded, but never across an integer (`bin_eq_floor`).
-/

namespace Codelib.Gnuplot

variable {interval : Nat} {lines : List Nat}

/-! ### The index in floating point -/

/-- `y` is `x` rounded to a double: the error is small, and natural numbers below `2^53` are not
crossed. -/
structure Rounded (x y : ℚ) : Prop where
  error : |y - x| ≤ x / 2 ^ 53
  le_of_le (n : Nat) : n < 2 ^ 53 → (n : ℚ) ≤ x → (n : ℚ) ≤ y

/-- `$_/$interval` as an array index, with the division rounded. -/
theorem bin_eq_floor {line : Nat} (hint : 0 < interval) (hline : line < 2 ^ 53) {y : ℚ}
    (hy : Rounded ((line : ℚ) / interval) y) : ⌊y⌋ = bin interval line := by
  have hpos : (0 : ℚ) < interval := by exact_mod_cast hint
  have hlow : (bin interval line : ℚ) ≤ line / interval := by
    rw [le_div_iff₀ hpos]
    exact_mod_cast Nat.div_mul_le_self line interval
  -- the next integer is at least one line away, and the error is less than a line
  have hhigh : (line : ℚ) / interval + 1 / interval ≤ bin interval line + 1 := by
    rw [← add_div, div_le_iff₀ hpos]
    have := Nat.lt_mul_of_div_lt (Nat.lt_succ_self (line / interval)) hint
    exact_mod_cast this
  have herror : (line : ℚ) / interval / 2 ^ 53 < 1 / interval := by
    rw [div_right_comm]
    gcongr
    rw [div_lt_one (by norm_num)]
    exact_mod_cast hline
  have hbin : bin interval line < 2 ^ 53 := (Nat.div_le_self line interval).trans_lt hline
  rw [Int.floor_eq_iff]
  refine ⟨hy.le_of_le _ hbin hlow, ?_⟩
  have := (abs_le.mp hy.error).2
  push_cast
  linarith

/-! ### The histogram -/

/-- The number of lines `v` with `i*interval <= v < (i+1)*interval`. -/
def linesBetween (interval : Nat) (lines : List Nat) (i : Nat) : Nat :=
  lines.countP fun v => i * interval ≤ v ∧ v < (i + 1) * interval

/-- The rows of a histogram, up to the row of the largest line. -/
def histogram (interval : Nat) (lines : List Nat) (max : Nat) : List (Nat × ℚ) :=
  (List.range (max / interval + 1)).map fun i =>
    (i * interval, (linesBetween interval lines i : ℚ) / lines.length)

theorem bin_eq_iff (hint : 0 < interval) (v i : Nat) :
    bin interval v = i ↔ i * interval ≤ v ∧ v < (i + 1) * interval := by
  rw [bin, Nat.div_eq_iff hint, Nat.le_sub_one_iff_lt (by positivity), Nat.succ_mul]

theorem occupancy_eq (hint : 0 < interval) (lines : List Nat) (i : Nat) :
    occupancy interval lines i = linesBetween interval lines i := by
  rw [occupancy, linesBetween, List.count, List.countP_map]
  refine List.countP_congr fun v _ => ?_
  simpa using bin_eq_iff hint v i

/-- Every line is in one bin. -/
theorem sum_occupancy {n : Nat} (h : ∀ x ∈ lines, bin interval x < n) :
    ∑ i ∈ Finset.range n, occupancy interval lines i = lines.length := by
  have hbins : ∀ b ∈ (lines.map (bin interval) : Multiset Nat), b ∈ Finset.range n := by
    simpa using h
  simpa [occupancy] using Multiset.sum_count_eq_card hbins

/-- The array ends with the bin of the largest line. -/
theorem length_perlRead (interval : Nat) (hne : lines ≠ []) :
    (perlRead interval lines).data.length = lines.max hne / interval + 1 := by
  refine Nat.le_antisymm (Nat.le_of_not_lt fun hlt => ?_)
    ((lt_length_perlRead ..).mpr ⟨_, List.max_mem hne, le_rfl⟩)
  obtain ⟨x, hx, hle⟩ := (lt_length_perlRead ..).mp hlt
  have := Nat.div_le_div_right (c := interval) (List.le_max_of_mem hx)
  exact absurd (hle.trans this) (Nat.not_succ_le_self _)

/-- **The rows are the histogram**: no row is missing and none too many, and the frequencies sum
to 1. -/
theorem perlRows_eq_histogram (hint : 0 < interval) (hne : lines ≠ []) :
    perlRows interval lines = histogram interval lines (lines.max hne) ∧
      ((perlRows interval lines).map Prod.snd).sum = 1 := by
  have hrows := perlRows_eq (length_perlRead interval hne)
  have hlength : (lines.length : ℚ) ≠ 0 := by simpa using hne
  constructor
  · rw [hrows]
    simp only [rows, histogram, occupancy_eq hint]
  · have hsum : ∑ i ∈ Finset.range (lines.max hne / interval + 1), occupancy interval lines i =
        lines.length :=
      sum_occupancy fun x hx => Nat.lt_succ_of_le (Nat.div_le_div_right (List.le_max_of_mem hx))
    calc ((perlRows interval lines).map Prod.snd).sum
      _ = ((List.range (lines.max hne / interval + 1)).map fun i =>
            (occupancy interval lines i : ℚ) / lines.length).sum := by
          simp only [hrows, rows, List.map_map, Function.comp_def]
      _ = ∑ i ∈ Finset.range (lines.max hne / interval + 1),
            (occupancy interval lines i : ℚ) / lines.length := by
          rw [← List.sum_toFinset _ List.nodup_range]
          exact Finset.sum_congr (by ext i; simp) fun _ _ => rfl
      _ = (lines.length : ℚ) / lines.length := by rw [← Finset.sum_div, ← hsum, Nat.cast_sum]
      _ = 1 := div_self hlength

/-- Bin 1 is empty, and 20 stands on the edge of bin 2. -/
theorem perlRows_eq_histogram_edge :
    perlRows 10 [3, 20] = [(0, 1 / 2), (10, 0 / 2), (20, 1 / 2)] := by
  rw [(perlRows_eq_histogram (by decide) (by decide)).1]
  decide +kernel

end Codelib.Gnuplot
