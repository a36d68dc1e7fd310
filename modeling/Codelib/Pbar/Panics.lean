import Codelib.Pbar.Frames

/-!
# Codelib.Pbar.Panics

**When `Start` panics** (`start_returns_iff`). The counts of `strings.Repeat` are never
below zero, and `check` looks at the sum before `updateBar` divides: the divisor is zero
only if the target is, and then the only sum that is not above it is zero, too.
-/

namespace Codelib.Pbar

open Abrupt

variable {s : Proc} {inc : UInt64} {c : List (Winsize × UInt64)}

theorem logged_error {op : Op} {body : M (Option PBarError)} {e : Panic} {s' : Proc}
    (h : body s = (.error e, s')) : logged op body s = (.error e, s') := by
  unfold logged
  rw [bind_ok _ get_ok, bind_error _ h]

/-! ### One increment -/

theorem check_panics (hT : s.bar.total = 0) (hf : s.bar.finish + inc = 0) :
    ∃ s', check inc s = (.error .divideByZero, s') := by
  refine ⟨{ s with bar := { s.bar with finish := s.bar.finish + inc } }, logged_error ?_⟩
  rw [bind_ok _ (assign_ok _), bind_ok _ get_ok]
  dsimp only
  rw [hf, hT, if_neg (by decide)]
  refine bind_error _ ?_
  unfold updateBar
  rw [bind_ok _ get_ok]
  dsimp only
  rw [if_pos rfl]
  rfl

/-! ### `Start` -/

/-- The loop of `Start`, entered with a sum that is `n` but for what has wrapped. -/
theorem receive_returns_iff {n : Nat} (hn : s.bar.finish.toNat = n % 2 ^ 64) :
    (∃ s', c.forM receive s = (.ok ⟨⟩, s')) ↔
      (s.bar.total = 0 → ∀ f ∈ runningSums n (c.map Prod.snd), f % 2 ^ 64 ≠ 0) := by
  induction c generalizing s n with
  | nil => exact iff_of_true ⟨s, rfl⟩ fun _ _ h => absurd h List.not_mem_nil
  | cons x c ih =>
      let t : Proc := { s with bar := { s.bar with termsz := x.1 } }
      have hsum : (t.bar.finish + x.2).toNat = (n + x.2.toNat) % 2 ^ 64 := by
        rw [UInt64.toNat_add, show t.bar.finish.toNat = n % 2 ^ 64 from hn, Nat.mod_add_mod]
      have hzero : t.bar.finish + x.2 = 0 ↔ (n + x.2.toNat) % 2 ^ 64 = 0 := by
        rw [← UInt64.toNat_inj, hsum]
        rfl
      simp only [List.map_cons, runningSums, List.forall_mem_cons]
      by_cases hpanic : s.bar.total = 0 ∧ t.bar.finish + x.2 = 0
      · obtain ⟨h0, hf⟩ := hpanic
        obtain ⟨t', hcheck⟩ := check_panics (s := t) h0 hf
        have hx : receive x s = (.error .divideByZero, t') :=
          (bind_ok _ (assign_ok _)).trans (bind_error _ hcheck)
        refine iff_of_false ?_ fun h => (h h0).1 (hzero.mp hf)
        intro hp
        obtain ⟨s', hrun⟩ := hp
        rw [show (x :: c).forM receive s = _ from bind_error _ hx] at hrun
        exact absurd (Prod.mk.inj hrun).1 (by simp)
      · have hne : t.bar.total = 0 → t.bar.finish + x.2 ≠ 0 := fun h0 hf => hpanic ⟨h0, hf⟩
        obtain ⟨r, t', hcheck, hbar, -⟩ := check_ok hne
        have hx : receive x s = (.ok ⟨⟩, t') := by
          refine (bind_ok _ (assign_ok _)).trans ((bind_ok _ hcheck).trans ?_)
          rfl
        have hrest := ih (s := t') (n := n + x.2.toNat) (by rw [hbar]; exact hsum)
        rw [show (x :: c).forM receive s = _ from bind_ok _ hx, hrest, hbar]
        exact forall_congr' fun h0 => (and_iff_right (mt hzero.mpr (hne h0))).symm

/-- **When `Start` on a zero bar returns.** -/
theorem start_returns_iff (target : UInt64) (c : List (Winsize × UInt64)) :
    (∃ s, start target c Proc.fresh = (.ok none, s)) ↔
      (target = 0 → ∀ f ∈ runningSums 0 (c.map Prod.snd), f % 2 ^ 64 ≠ 0) := by
  let s : Proc := { Proc.fresh with bar := { PBar.zero with total := target } }
  rw [← receive_returns_iff (s := s) rfl]
  rcases hrun : c.forM receive s with ⟨e | u, s₁⟩
  · refine iff_of_false ?_ fun ⟨s₂, h⟩ => absurd (Prod.mk.inj h).1 nofun
    intro hp
    obtain ⟨s₂, h⟩ := hp
    rw [show start target c Proc.fresh = _ from
      logged_error ((bind_ok _ (assign_ok _)).trans (bind_error _ hrun))] at h
    exact absurd (Prod.mk.inj h).1 nofun
  · exact iff_of_true
      ⟨_, logged_ok none s₁ ((bind_ok _ (assign_ok _)).trans (bind_ok _ hrun))⟩ ⟨s₁, rfl⟩

/-- An increment of zero, for a target of zero. -/
theorem start_divides_by_zero :
    ¬ ∀ target c, ∃ s, start target c Proc.fresh = (.ok none, s) := by
  intro hall
  obtain ⟨s, hs⟩ := hall 0 [(⟨24, 80, 0, 0⟩, 0)]
  have hpanic : (start 0 [(⟨24, 80, 0, 0⟩, 0)] Proc.fresh).1 = .error .divideByZero := by decide
  rw [hs] at hpanic
  exact absurd hpanic nofun

end Codelib.Pbar
