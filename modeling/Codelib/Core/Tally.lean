import Mathlib.Algebra.BigOperators.Group.List.Basic
import Mathlib.Algebra.GroupWithZero.Nat
import Mathlib.Data.List.AList

/-!
# Codelib.Core.Tally

**Counters by key**: a hash in which a key that was never counted stands at zero.

The one fact the breakdowns need is that incrementing any key adds one to the total
(`total_increment`), whether the key is new or not.

Nothing here names a program of the repository.
-/

namespace Codelib

universe u

/-- A counter for every key in the hash. -/
abbrev Tally (κ : Type u) := AList fun _ : κ => ℕ

namespace Tally

variable {κ : Type u}

/-- The sum of all counters. -/
def total (t : Tally κ) : ℕ := (t.entries.map Sigma.snd).sum

variable [DecidableEq κ]

/-- The counter of `k`. -/
def count (t : Tally κ) (k : κ) : ℕ := (t.lookup k).getD 0

/-- Add one to the counter of `k`. -/
def increment (t : Tally κ) (k : κ) : Tally κ := t.insert k (t.count k + 1)

/-- The counter of `k` and all the others. -/
theorem total_erase (t : Tally κ) (k : κ) :
    t.total = t.count k + ((t.entries.kerase k).map Sigma.snd).sum := by
  by_cases hk : k ∈ t
  · obtain ⟨n, l₁, l₂, -, hsplit, herase⟩ := List.exists_of_kerase (AList.mem_keys.mp hk)
    have hn : t.count k = n := by
      have hmem : (⟨k, n⟩ : Sigma fun _ : κ => ℕ) ∈ t.entries := by simp [hsplit]
      rw [count, AList.mem_lookup_iff.mpr hmem, Option.getD_some]
    rw [hn, total, herase, hsplit]
    simp only [List.map_append, List.map_cons, List.sum_append, List.sum_cons]
    omega
  · have hcount : t.count k = 0 := by rw [count, AList.lookup_eq_none.mpr hk, Option.getD_none]
    rw [hcount, List.kerase_of_notMem_keys hk, total, Nat.zero_add]

/-- **One increment adds one to the total.** -/
@[simp] theorem total_increment (t : Tally κ) (k : κ) : (t.increment k).total = t.total + 1 := by
  rw [total_erase t k, total, increment, AList.entries_insert, List.map_cons, List.sum_cons]
  exact Nat.add_right_comm _ 1 _

end Tally

end Codelib
