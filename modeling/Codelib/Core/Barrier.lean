import Mathlib.Algebra.BigOperators.Ring.Finset
import Mathlib.Algebra.Order.BigOperators.Group.Finset
import Mathlib.Data.Fintype.Card
import Mathlib.Data.Fintype.BigOperators
import Mathlib.Data.Fintype.Lattice
import Mathlib.Algebra.Ring.Nat
import Mathlib.Tactic.Common

/-!
# Codelib.Core.Barrier

**A barrier of two counters.** A fixed set of threads meets again and again: the
barriers are numbered `0, 1, 2, …`, the even ones share one counter and the odd ones
another. A thread that reaches a barrier adds one to its counter and then waits until
the counter is a multiple of the number of threads. Counters are never reset, so a
thread could look too late and miss that moment; that it does not is what has to be
shown.

The invariant is the purpose of a barrier (`Inv.meet`): **no thread has passed a
barrier that some thread has not reached**. It is inductive together with the value
of the counters: a waiting thread is at most one barrier away from every other
thread, so the two counters tell it who is missing (`Inv.all_reached`).

Nothing here names a program of the repository.
-/

namespace Codelib

universe u

/-- How many barriers each thread has passed and how many it has reached, and the
counters of the even and of the odd barriers. -/
structure Barrier (ι : Type u) where
  passed : ι → ℕ
  reached : ι → ℕ
  count : ℕ → ℕ

namespace Barrier

variable {ι : Type u} [Fintype ι]

/-- How often a thread that has reached `n` barriers has added to counter `c`. -/
def added (c n : ℕ) : ℕ := (n + 1 - c) / 2

structure Inv (b : Barrier ι) : Prop where
  passed_le : ∀ t, b.passed t ≤ b.reached t
  reached_le : ∀ t, b.reached t ≤ b.passed t + 1
  meet : ∀ t u, b.passed t ≤ b.reached u
  count : ∀ c < 2, b.count c = ∑ t, added c (b.reached t)

variable {b b' : Barrier ι} {t u : ι}

/-- As long as nobody has reached a barrier the counters are zero. -/
theorem Inv.count_zero (h : b.Inv) (hr : ∀ t, b.reached t = 0) {c : ℕ} (hc : c < 2) :
    b.count c = 0 := by
  rw [h.count c hc]
  refine Finset.sum_eq_zero fun t _ => ?_
  rw [hr t, added]
  omega

theorem Inv.zero (hp : ∀ t, b.passed t = 0) (hr : ∀ t, b.reached t = 0)
    (hc : ∀ c, b.count c = 0) : b.Inv where
  passed_le t := by rw [hp t]; exact Nat.zero_le _
  reached_le t := by rw [hr t]; exact Nat.zero_le _
  meet t u := by rw [hp t]; exact Nat.zero_le _
  count c hlt := by
    rw [hc c, eq_comm]
    refine Finset.sum_eq_zero fun t _ => ?_
    rw [hr t, added]
    omega

/-! ### What the invariant says about two threads -/

/-- Any two threads are at most one barrier apart. -/
theorem Inv.passed_le_succ (h : b.Inv) (t u : ι) : b.passed t ≤ b.passed u + 1 :=
  (h.meet t u).trans (h.reached_le u)

/-! ### Leaving a barrier -/

theorem added_near {k n : ℕ} (hlo : k ≤ n) (hhi : n ≤ k + 2) :
    added (k % 2) n = k / 2 + if k < n then 1 else 0 := by
  unfold added
  by_cases h : k < n
  · rw [if_pos h]
    omega
  · rw [if_neg h]
    omega

/-- If the counter of the barrier that `t` waits at is a multiple of the number of
threads, then every thread has reached that barrier. -/
theorem Inv.all_reached (h : b.Inv) (ht : b.reached t = b.passed t + 1)
    (hcount : Fintype.card ι ∣ b.count (b.passed t % 2)) (u : ι) :
    b.passed t < b.reached u := by
  classical
  have hnear : ∀ v, added (b.passed t % 2) (b.reached v) =
      b.passed t / 2 + if b.passed t < b.reached v then 1 else 0 := by
    intro v
    have hlo := h.meet t v
    have hhi := h.meet v t
    have hv := h.reached_le v
    exact added_near hlo (by omega)
  -- so many threads have reached it
  have hsum : b.count (b.passed t % 2) = Fintype.card ι * (b.passed t / 2) +
      (Finset.univ.filter fun v => b.passed t < b.reached v).card := by
    rw [h.count _ (Nat.mod_lt _ (by decide)), Finset.sum_congr rfl fun v _ => hnear v,
      Finset.sum_add_distrib, Finset.sum_const, Finset.card_filter, Finset.card_univ,
      nsmul_eq_mul, Nat.cast_id]
  have hdvd : Fintype.card ι ∣ (Finset.univ.filter fun v => b.passed t < b.reached v).card := by
    rw [hsum] at hcount
    exact (Nat.dvd_add_right (Dvd.intro _ rfl)).mp hcount
  have hmem : t ∈ Finset.univ.filter fun v => b.passed t < b.reached v := by
    simp [ht]
  have hle := Nat.le_of_dvd (Finset.card_pos.mpr ⟨t, hmem⟩) hdvd
  have hall := Finset.eq_univ_of_card _ (le_antisymm (Finset.card_le_univ _) hle)
  have hu := Finset.mem_univ u
  rw [← hall] at hu
  exact (Finset.mem_filter.mp hu).2

section Steps

variable [DecidableEq ι]

/-- A thread that is not waiting reaches its next barrier. -/
theorem Inv.arrive (h : b.Inv) (ht : b.reached t = b.passed t)
    (hpassed : b'.passed = b.passed)
    (hreached : b'.reached = Function.update b.reached t (b.passed t + 1))
    (hself : b'.count (b.passed t % 2) = b.count (b.passed t % 2) + 1)
    (hother : ∀ c < 2, c ≠ b.passed t % 2 → b'.count c = b.count c) : b'.Inv where
  passed_le u := by
    rw [hpassed, hreached]
    by_cases hu : u = t
    · subst hu
      rw [Function.update_self]
      omega
    · rw [Function.update_of_ne hu]
      exact h.passed_le u
  reached_le u := by
    rw [hpassed, hreached]
    by_cases hu : u = t
    · subst hu
      rw [Function.update_self]
    · rw [Function.update_of_ne hu]
      exact h.reached_le u
  meet u v := by
    rw [hpassed, hreached]
    have huv := h.meet u v
    by_cases hv : v = t
    · subst hv
      rw [Function.update_self]
      omega
    · rwa [Function.update_of_ne hv]
  count c hc := by
    rw [hreached, ← Finset.add_sum_erase _ _ (Finset.mem_univ t), Function.update_self,
      Finset.sum_congr rfl fun v hv => by
        rw [Function.update_of_ne (Finset.ne_of_mem_erase hv)]]
    have hold := h.count c hc
    rw [← Finset.add_sum_erase _ _ (Finset.mem_univ t)] at hold
    by_cases hself' : c = b.passed t % 2
    · subst hself'
      have hadd : added (b.passed t % 2) (b.passed t + 1) =
          added (b.passed t % 2) (b.reached t) + 1 := by
        unfold added
        omega
      omega
    · have hadd : added c (b.passed t + 1) = added c (b.reached t) := by
        unfold added
        omega
      rw [hother c hc hself', hadd, hold]

/-- A waiting thread that sees a multiple of the number of threads leaves. -/
theorem Inv.leave (h : b.Inv) (ht : b.reached t = b.passed t + 1)
    (hcount : Fintype.card ι ∣ b.count (b.passed t % 2))
    (hpassed : b'.passed = Function.update b.passed t (b.passed t + 1))
    (hreached : b'.reached = b.reached) (hsame : b'.count = b.count) : b'.Inv where
  passed_le u := by
    rw [hpassed, hreached]
    by_cases hu : u = t
    · subst hu
      rw [Function.update_self, ht]
    · rw [Function.update_of_ne hu]
      exact h.passed_le u
  reached_le u := by
    rw [hpassed, hreached]
    by_cases hu : u = t
    · subst hu
      rw [Function.update_self]
      omega
    · rw [Function.update_of_ne hu]
      exact h.reached_le u
  meet u v := by
    rw [hpassed, hreached]
    by_cases hu : u = t
    · subst hu
      rw [Function.update_self]
      exact h.all_reached ht hcount v
    · rw [Function.update_of_ne hu]
      exact h.meet u v
  count c hc := by rw [hsame, hreached, h.count c hc]

end Steps

end Barrier

end Codelib
