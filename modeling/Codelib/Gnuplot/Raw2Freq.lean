import Mathlib.Algebra.Field.Rat
import Mathlib.Logic.Function.Basic
import Mathlib.Tactic.Common

/-!
# Codelib.Gnuplot.Raw2Freq

`gnuplot/cdf/raw2freq.pl` and `gnuplot/cdf/raw2freq.lua`, on a raw file whose lines are
natural numbers.

* Both scripts divide a line by the interval and drop the fraction, one by using the
  quotient as an array index and the other by `math.floor`.
* Frequencies are exact. A row is the pair of numbers it prints.
* A Lua table keeps what is raw in it; the metatable that answers 0 for anything else
  shows in `Table.get` only. `table.getn` looks at the raw table and may return any
  border of it, so the Lua rows are a function of the border.
-/

namespace Codelib.Gnuplot

/-- The bin of a line. -/
def bin (interval line : Nat) : Nat := line / interval

/-! ### `raw2freq.pl` -/

/-- The variables of the Perl script; an element of the array may be undefined. -/
structure Perl where
  data : List (Option Nat)
  totalCount : Nat
  max : Nat
  min : Nat
  deriving Repr, DecidableEq

/-- Before the first line. -/
def Perl.init : Perl := ⟨[], 0, 0, 0xffffffff⟩

/-- `$data[$i]++`, which extends the array as far as needed. -/
def increment : List (Option Nat) → Nat → List (Option Nat)
  | [], 0 => [some 1]
  | [], i + 1 => none :: increment [] i
  | x :: data, 0 => some (x.getD 0 + 1) :: data
  | x :: data, i + 1 => x :: increment data i

/-- `$data[$i]` as a number. -/
def number (data : List (Option Nat)) (i : Nat) : Nat := (data[i]?.getD none).getD 0

/-- The body of `while (<RAW>)`. -/
def Perl.line (interval : Nat) (s : Perl) (line : Nat) : Perl where
  data := increment s.data (bin interval line)
  totalCount := s.totalCount + 1
  max := if line > s.max then line else s.max
  min := if line < s.min then line else s.min

def perlRead (interval : Nat) (lines : List Nat) : Perl := lines.foldl (Perl.line interval) .init

/-- `foreach $i (0 .. $#data)` -/
def perlRows (interval : Nat) (lines : List Nat) : List (Nat × ℚ) :=
  let s := perlRead interval lines
  (List.range s.data.length).map fun i => (i * interval, (number s.data i : ℚ) / s.totalCount)

/-! ### `raw2freq.lua` -/

/-- What is raw in a table. -/
abbrev Table := Nat → Option ℚ

/-- `data[index]`, by way of the metatable. -/
def Table.get (data : Table) (index : Nat) : ℚ := (data index).getD 0

structure Lua where
  data : Table
  total : Nat

/-- The body of `while true`, for a line that was read. -/
def Lua.line (interval : Nat) (s : Lua) (line : Nat) : Lua where
  data := Function.update s.data (bin interval line) (some (s.data.get (bin interval line) + 1))
  total := s.total + 1

end Codelib.Gnuplot
