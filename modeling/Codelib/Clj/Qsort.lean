import Mathlib.Tactic.Common
import Codelib.Core.Prog

/-!
# Codelib.Clj.Qsort

The two definitions of `qsort` in `clj/clj-proj/src/my_proj/core.clj`.

* A vector is a list: `last`, `pop` and `conj` work at its end. `le` and `gt` stand for
  `<=` and `>` on the numbers.
* In the second definition `remaining` is a var of the namespace, so there is one for
  all calls. What a thread is given is computed before there is a thread, by the caller;
  `.start` returns `nil`.
* Which values a `Thread` can be made of is Java's business: `isRunnable` is a parameter,
  and the constructor throws on the others.
* A call that does not return is one that uses up any fuel.
-/

namespace Codelib.Clj

variable {α : Type}

/-! ### The naive implementation -/

/-- `(part a pivot cmp)` -/
def part (a : List α) (pivot : α) (cmp : α → α → Bool) : List α :=
  if h : a = [] then
    []
  else if cmp (a.getLast h) pivot then
    part a.dropLast pivot cmp ++ [a.getLast h]
  else
    part a.dropLast pivot cmp
termination_by a.length
decreasing_by all_goals
  have hpos := List.length_pos_iff.mpr h
  rw [List.length_dropLast]
  omega

/-- What is left of a vector is what passes the comparison, in the same order. -/
theorem part_eq_filter (a : List α) (pivot : α) (cmp : α → α → Bool) :
    part a pivot cmp = a.filter (cmp · pivot) := by
  fun_induction part a pivot cmp with
  | case1 => rfl
  | case2 a h hcmp ih =>
      conv_rhs => rw [← List.dropLast_concat_getLast h]
      rw [ih, List.filter_append, List.filter_cons_of_pos (p := (cmp · pivot)) hcmp,
        List.filter_nil]
  | case3 a h hcmp ih =>
      conv_rhs => rw [← List.dropLast_concat_getLast h]
      rw [ih, List.filter_append, List.filter_cons_of_neg (p := (cmp · pivot)) hcmp,
        List.filter_nil, List.append_nil]

/-- A part of what is in front of the last element is shorter than the vector. -/
theorem length_part_lt {a : List α} (h : a ≠ []) (pivot : α) (cmp : α → α → Bool) :
    (part a.dropLast pivot cmp).length < a.length := by
  have hpos := List.length_pos_iff.mpr h
  have hle := List.length_filter_le (cmp · pivot) a.dropLast
  rw [part_eq_filter]
  rw [List.length_dropLast] at hle
  omega

/-- `(qsort array)`, as first defined. -/
def qsort (le gt : α → α → Bool) (array : List α) : List α :=
  if h : array = [] then
    []
  else
    qsort le gt (part array.dropLast (array.getLast h) le) ++ [array.getLast h] ++
      qsort le gt (part array.dropLast (array.getLast h) gt)
termination_by array.length
decreasing_by all_goals exact length_part_lt h _ _

/-! ### The version with threads -/

/-- What a call may return. -/
inductive Value (α : Type)
  | nil
  | vector (v : List α)
  | seq (s : List α)
  deriving Repr, DecidableEq

/-- The elements of a value, as `concat` takes them. -/
def Value.items : Value α → List α
  | .nil => []
  | .vector v => v
  | .seq s => s

/-- `(concat …)` -/
def concat (xs : List (Value α)) : Value α := .seq (xs.flatMap Value.items)

/-- `remaining`, and the vectors that have been printed. -/
structure Global (α : Type) where
  remaining : List α
  printed : List (List α)
  deriving Repr, DecidableEq

/-- No constructor of `Thread` takes the value. -/
inductive Thrown
  | noMatchingConstructor
  deriving Repr, DecidableEq

abbrev M (α β : Type) := Prog (Global α) Thrown β

/-- `(println v)` -/
def println (v : List α) : M α (Value α) := do
  modify fun s => { s with printed := s.printed ++ [v] }
  return .nil

/-- `(.start (Thread. … target))` -/
def startThread (isRunnable : Value α → Bool) (target : Value α) : M α (Value α) :=
  if isRunnable target then pure .nil else fail .noMatchingConstructor

/-- `(qsort array)`, as defined again. -/
def qsortThreads (isRunnable : Value α → Bool) (le gt : α → α → Bool) :
    Nat → List α → M α (Value α)
  | 0, _ => fun _ => .error .fuel
  | fuel + 1, array => do
    modify fun s => { s with remaining := if array = [] then [] else array.dropLast }
    let _ ← println (← get).remaining
    if h : array = [] then
      return .vector []
    else
      let first ← qsortThreads isRunnable le gt fuel
        (part (← get).remaining (array.getLast h) le)
      let first ← startThread isRunnable first
      let _ ← println array
      let second ← qsortThreads isRunnable le gt fuel
        (part (← get).remaining (array.getLast h) gt)
      let second ← startThread isRunnable second
      return concat [first, .seq [array.getLast h], second]

end Codelib.Clj
