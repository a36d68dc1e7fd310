import Mathlib.Algebra.BigOperators.Group.List.Basic
import Mathlib.Algebra.GroupWithZero.Nat
import Mathlib.Algebra.Order.Group.Nat
import Codelib.Pbar.Geometry

/-!
# Codelib.Pbar.Frames

**What a progress bar shows** in a terminal of constant width (`start_exact`): one
frame after every increment that keeps within the target, and every frame is exact.

`frame` is what a frame should look like, in natural numbers. What is drawn for a bar is
just that as long as no 64-bit product wraps (`PBar.drawn_eq`), and what the frames of a
whole run have in common is then a matter of truncating division.
-/

namespace Codelib.Pbar

open Abrupt

/-! ### What a frame should look like -/

/-- The frame for `f` of `T` in `cols` columns, after the carriage return. -/
def frame (T cols f : Nat) : List Char :=
  padded 3 (100 * f / T : Nat) ++ ['%', ' ', '['] ++ List.replicate (f * (cols - 32) / T) '=' ++
    ['>'] ++ List.replicate (cols - 32 - f * (cols - 32) / T) ' ' ++ [']']

example : frame 10 52 7 = " 70% [==============>      ]".toList := by decide

/-- What is printed when `f` of `T` has been reached. -/
def shown (T cols f : Nat) : List Char :=
  if f ≤ T then '\r' :: frame T cols f ++ if f = T then ['\n'] else [] else []

/-- A frame with the numbers for `f` of `T`. -/
structure Frame (T cols f : Nat) (t : List Char) : Prop where
  length : t.length = cols - 24
  percentage : t.takeWhile (· ≠ '%') = padded 3 (100 * f / T : Nat)
  signs : t.count '=' = f * (cols - 32) / T
  line : '\n' ∉ t

/-! ### Machine arithmetic -/

theorem toNat_mul_div {a b c : UInt64} (h : a.toNat * b.toNat < 2 ^ 64) :
    (a * b / c).toNat = a.toNat * b.toNat / c.toNat := by
  rw [UInt64.toNat_div, UInt64.toNat_mul, Nat.mod_eq_of_lt h]

theorem toNat_sub_minw {cols : UInt16} (h : 32 ≤ cols.toNat) :
    (cols - minw).toNat = cols.toNat - 32 :=
  UInt16.toNat_sub_of_le _ _ (UInt16.le_iff_toNat_le.mpr h)

/-- The percentage reaches 100, and a bar of positive width its end, with `T` only. -/
theorem mul_div_eq_iff {f T n : Nat} (hpos : 1 ≤ T) (hn : 0 < n) (h : f ≤ T) :
    f * n / T = n ↔ f = T := by
  refine ⟨fun heq => ?_, ?_⟩
  · have hmul : n * T ≤ f * n := (Nat.le_div_iff_mul_le hpos).mp heq.ge
    have hle : T ≤ f := by
      rw [Nat.mul_comm f] at hmul
      exact Nat.le_of_mul_le_mul_left hmul hn
    omega
  · intro he
    obtain rfl := he
    exact Nat.mul_div_cancel_left n hpos

/-! ### Reading a frame -/

theorem frame_exact {T cols f : Nat} (hle : f ≤ T) (h32 : 32 ≤ cols) :
    Frame T cols f (frame T cols f) where
  length := by
    have hpc : 100 * f / T ≤ 100 := by
      rw [Nat.mul_comm]
      exact mul_div_le_of_le hle
    have hsigns := mul_div_le_of_le (n := cols - 32) hle
    simp only [frame, List.length_append, List.length_cons, List.length_nil, List.length_replicate,
      length_padded (n := 100 * f / T) (by omega)]
    omega
  percentage := by
    simp only [frame, List.append_assoc, List.cons_append]
    rw [List.takeWhile_append_of_pos (fun c hc => ?_)]
    · simp
    · exact decide_eq_true fun heq =>
        not_mem_padded (c := '%') (by decide) (by decide) (heq ▸ hc)
  signs := by
    have hpad (n : Nat) : (padded 3 n).count '=' = 0 :=
      List.count_eq_zero.mpr (not_mem_padded (by decide) (by decide))
    simp only [frame, List.count_append, hpad]
    simp [List.count_replicate]
  line := by
    have hpad (n : Nat) : '\n' ∉ padded 3 n := not_mem_padded (by decide) (by decide)
    simp only [frame, List.mem_append, hpad]
    simp

/-! ### Drawing a frame -/

section Check

variable {T cols f : Nat}

/-- What is drawn for a bar is `frame`, when no product wraps. -/
theorem PBar.drawn_eq {bar : PBar} (hT : bar.total.toNat = T)
    (hcols : bar.termsz.tsCols.toNat = cols) (hf : bar.finish.toNat = f) (hle : f ≤ T)
    (h32 : 32 ≤ cols) (hmul : T * max 100 (cols - 32) < 2 ^ 64) :
    bar.drawn = '\r' :: frame T cols f ++ if f = T then ['\n'] else [] := by
  have hwidth : bar.width.toNat = cols - 32 := by
    rw [PBar.width, toNat_sub_minw (by omega), hcols]
  have hmul100 : f * 100 < 2 ^ 64 :=
    lt_of_le_of_lt (Nat.mul_le_mul hle (le_max_left _ _)) hmul
  have hmulw : f * (cols - 32) < 2 ^ 64 :=
    lt_of_le_of_lt (Nat.mul_le_mul hle (le_max_right _ _)) hmul
  have hbw : bar.bw.toNat = f * (cols - 32) / T := by
    rw [PBar.bw, toNat_mul_div (by rwa [hf, UInt16.toNat_toUInt64, hwidth]), hf,
      UInt16.toNat_toUInt64, hwidth, hT]
  have hpct : bar.pct.toNat = 100 * f / T := by
    rw [PBar.pct, toNat_mul_div (by rwa [hf]), hf, hT, Nat.mul_comm]
    rfl
  have heq : bar.finish = bar.total ↔ f = T := by
    rw [← UInt64.toNat_inj, hf, hT]
  rw [PBar.drawn, hwidth, hbw, hpct]
  simp only [heq]
  rfl

/-- An increment, with a sum `f` that does not wrap. -/
theorem check_run {s : Proc} {inc : UInt64} (hT : s.bar.total.toNat = T)
    (hcols : s.bar.termsz.tsCols.toNat = cols) (hf : s.bar.finish.toNat + inc.toNat = f)
    (hpos : 1 ≤ T) (hsum : f < 2 ^ 64) (h32 : 32 ≤ cols)
    (hmul : T * max 100 (cols - 32) < 2 ^ 64) :
    ∃ r s', check inc s = (.ok r, s') ∧ s'.bar = { s.bar with finish := s.bar.finish + inc } ∧
      s'.out = s.out ++ shown T cols f := by
  have hfinish : (s.bar.finish + inc).toNat = f := by
    rw [UInt64.toNat_add, hf, Nat.mod_eq_of_lt hsum]
  have hne : s.bar.total ≠ 0 := by
    intro h0
    rw [h0] at hT
    simp at hT
    omega
  have hdivides : s.bar.total = 0 → s.bar.finish + inc ≠ 0 := fun h0 => absurd h0 hne
  obtain ⟨r, s', hrun, hbar, hout⟩ := check_ok hdivides
  refine ⟨r, s', hrun, hbar, ?_⟩
  have hle_iff : s.bar.finish + inc ≤ s.bar.total ↔ f ≤ T := by
    rw [UInt64.le_iff_toNat_le, hfinish, hT]
  rw [hout, shown]
  by_cases hle : f ≤ T
  · rw [if_pos (hle_iff.mpr hle), if_pos hle,
      PBar.drawn_eq (by exact hT) (by exact hcols) (by exact hfinish) hle h32 hmul]
  · rw [if_neg (mt hle_iff.mp hle), if_neg hle]

end Check

/-! ### `Start` -/

/-- The sum after each increment. -/
def runningSums : Nat → List UInt64 → List Nat
  | _, [] => []
  | f, inc :: incs => (f + inc.toNat) :: runningSums (f + inc.toNat) incs

theorem runningSums_ge {f g : Nat} {incs : List UInt64} (h : g ∈ runningSums f incs) : f ≤ g := by
  induction incs generalizing f with
  | nil => simp [runningSums] at h
  | cons inc incs ih =>
      rcases List.mem_cons.mp h with rfl | h
      · omega
      · have := ih h
        omega

theorem runningSums_sorted (f : Nat) (incs : List UInt64) :
    (runningSums f incs).Pairwise (· ≤ ·) := by
  induction incs generalizing f with
  | nil => exact List.Pairwise.nil
  | cons inc incs ih => exact List.pairwise_cons.mpr ⟨fun _ => runningSums_ge, ih _⟩

/-- The loop of `Start`, entered with a sum of `f`. -/
theorem receive_run {T cols f : Nat} (hpos : 1 ≤ T) (h32 : 32 ≤ cols)
    (hmul : T * max 100 (cols - 32) < 2 ^ 64) {c : List (Winsize × UInt64)} {s : Proc}
    (hT : s.bar.total.toNat = T) (hf : s.bar.finish.toNat = f)
    (hcols : ∀ x ∈ c, x.1.tsCols.toNat = cols)
    (hsum : f + (c.map fun x => x.2.toNat).sum < 2 ^ 64) :
    ∃ s', c.forM receive s = (.ok ⟨⟩, s') ∧
      s'.out = s.out ++ (runningSums f (c.map Prod.snd)).flatMap (shown T cols) := by
  induction c generalizing s f with
  | nil => exact ⟨s, rfl, by simp [runningSums]⟩
  | cons x c ih =>
      rw [List.map_cons, List.sum_cons] at hsum
      obtain ⟨r, s₁, hcheck, hbar, hout⟩ := check_run
        (s := { s with bar := { s.bar with termsz := x.1 } })
        hT (hcols x List.mem_cons_self) (Eq.refl (s.bar.finish.toNat + x.2.toNat)) hpos
        (by rw [hf]; omega) h32 hmul
      have hfinish : s₁.bar.finish.toNat = f + x.2.toNat := by
        rw [hbar, UInt64.toNat_add, hf, Nat.mod_eq_of_lt (by omega)]
      obtain ⟨s₂, hrest, hout₂⟩ := ih (s := s₁) (by rw [hbar]; exact hT) hfinish
        (fun y hy => hcols y (List.mem_cons_of_mem _ hy)) (by omega)
      have hx : receive x s = (.ok ⟨⟩, s₁) := by
        unfold receive
        rw [bind_ok _ (assign_ok _), bind_ok _ hcheck]
        rfl
      refine ⟨s₂, ?_, ?_⟩
      · exact (bind_ok _ hx).trans hrest
      · rw [hout₂, hout, hf, List.map_cons, runningSums, List.flatMap_cons, List.append_assoc]

/-- **What a run of `Start` shows** on a zero bar. -/
theorem start_exact {target : UInt64} {T cols : Nat} {c : List (Winsize × UInt64)}
    (hT : target.toNat = T) (hpos : 1 ≤ T) (h32 : 32 ≤ cols)
    (hcols : ∀ x ∈ c, x.1.tsCols.toNat = cols) (hmul : T * max 100 (cols - 32) < 2 ^ 64)
    (hsum : (c.map fun x => x.2.toNat).sum < 2 ^ 64) :
    let sums := runningSums 0 (c.map Prod.snd)
    let drawn := sums.filter (· ≤ T)
    (∃ s, start target c Proc.fresh = (.ok none, s) ∧
      s.out = sums.flatMap fun f =>
        if f ≤ T then '\r' :: frame T cols f ++ if f = T then ['\n'] else [] else []) ∧
    (∀ f ∈ drawn, Frame T cols f (frame T cols f) ∧ (100 * f / T = 100 ↔ f = T) ∧
      (32 < cols → (f * (cols - 32) / T = cols - 32 ↔ f = T))) ∧
    (drawn.map fun f => 100 * f / T).Pairwise (· ≤ ·) ∧
    (drawn.map fun f => f * (cols - 32) / T).Pairwise (· ≤ ·) := by
  intro sums drawn
  have hsorted : drawn.Pairwise (· ≤ ·) := (runningSums_sorted 0 _).filter _
  refine ⟨?_, fun f hf => ?_, ?_, ?_⟩
  · obtain ⟨s, hrun, hout⟩ := receive_run hpos h32 hmul
      (s := { Proc.fresh with bar := { PBar.zero with total := target } }) hT (f := 0) rfl hcols
      (by omega)
    refine ⟨_, logged_ok none s ?_, hout⟩
    rw [bind_ok _ (assign_ok _)]
    exact bind_ok _ hrun
  · have hle : f ≤ T := by simpa using (List.mem_filter.mp hf).2
    refine ⟨frame_exact hle h32, ?_, fun h => mul_div_eq_iff hpos (by omega) hle⟩
    rw [Nat.mul_comm]
    exact mul_div_eq_iff hpos (by decide) hle
  · exact List.Pairwise.map _ (fun f g h => Nat.div_le_div_right (Nat.mul_le_mul_left 100 h)) hsorted
  · exact List.Pairwise.map _ (fun f g h => Nat.div_le_div_right (Nat.mul_le_mul_right _ h)) hsorted

/-- Three increments to the target, and one too many. -/
theorem start_exact_ten :
    ∃ s, start 10 [(⟨24, 52, 0, 0⟩, 3), (⟨24, 52, 0, 0⟩, 4), (⟨24, 52, 0, 0⟩, 3),
        (⟨24, 52, 0, 0⟩, 5)] Proc.fresh = (.ok none, s) ∧
      s.out = '\r' :: frame 10 52 3 ++ '\r' :: frame 10 52 7 ++
        '\r' :: frame 10 52 10 ++ ['\n'] := by
  obtain ⟨s, hrun, hout⟩ := (start_exact
    (c := [(⟨24, 52, 0, 0⟩, 3), (⟨24, 52, 0, 0⟩, 4), (⟨24, 52, 0, 0⟩, 3), (⟨24, 52, 0, 0⟩, 5)])
    (show (10 : UInt64).toNat = 10 from rfl) (by decide) (by decide : 32 ≤ 52) (by simp)
    (by decide) (by simp)).1
  exact ⟨s, hrun, by simpa [runningSums] using hout⟩

end Codelib.Pbar
