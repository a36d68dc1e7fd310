import Mathlib.Data.Set.Basic
import Mathlib.Data.Nat.Find
import Codelib.Qsort.Uclibc

/-!
# Codelib.Qsort.Circle

The comparison `cmp` makes when it returns the difference of two `unsigned int`s: the
values lie on a circle of `2 ^ 32`, and a value counts as larger than the half circle
behind it and smaller than the half circle ahead of it.

On an arc of half the circle that is an order (`toInt_ahead_neg_iff`). Values that lie
on no such arc contain two opposite ones, or three that are ordered in a circle
(`arc_or_circle`).
-/

namespace Codelib.Qsort

/-- How far `y` is ahead of `x`. -/
def ahead (x y : Nat) : Nat := (y + 2 ^ 32 - x) % 2 ^ 32

/-- The values of `V` lie on the half circle that begins at `c`. -/
def OnArc (V : Set Nat) (c : Nat) : Prop := c < 2 ^ 32 ∧ ∀ v ∈ V, ahead c v < 2 ^ 31

/-! ### Signs -/

variable {x y c n : Nat}

theorem ahead_lt (x y : Nat) : ahead x y < 2 ^ 32 := Nat.mod_lt _ (by decide)

theorem toInt_eq_zero_iff (h : n < 2 ^ 32) : toInt n = 0 ↔ n = 0 := by
  unfold toInt
  omega

theorem toInt_neg_iff (h : n < 2 ^ 32) : toInt n < 0 ↔ 2 ^ 31 ≤ n := by
  unfold toInt
  omega

theorem toInt_pos_iff (h : n < 2 ^ 32) : 0 < toInt n ↔ 0 < n ∧ n < 2 ^ 31 := by
  unfold toInt
  omega

/-! ### Places counted from one value -/

/-- From `c` on, `x` comes before `y`. -/
theorem ahead_of_le (hx : x < 2 ^ 32) (hy : y < 2 ^ 32) (hc : c < 2 ^ 32)
    (h : ahead c x ≤ ahead c y) : ahead x y = ahead c y - ahead c x := by
  unfold ahead at *
  omega

theorem ahead_of_lt (hx : x < 2 ^ 32) (hy : y < 2 ^ 32) (hc : c < 2 ^ 32)
    (h : ahead c y < ahead c x) : ahead x y = 2 ^ 32 - (ahead c x - ahead c y) := by
  unfold ahead at *
  omega

theorem ahead_inj (hx : x < 2 ^ 32) (hy : y < 2 ^ 32) (hc : c < 2 ^ 32) :
    ahead c x = ahead c y ↔ x = y := by
  unfold ahead
  omega

/-- The comparison finds two values equal only if they are. -/
theorem toInt_ahead_eq_zero_iff (hx : x < 2 ^ 32) (hy : y < 2 ^ 32) :
    toInt (ahead y x) = 0 ↔ x = y := by
  rw [toInt_eq_zero_iff (ahead_lt y x)]
  unfold ahead
  omega

/-- On an arc the comparison is the order along it. -/
theorem toInt_ahead_neg_iff (hx : x < 2 ^ 32) (hy : y < 2 ^ 32) (hc : c < 2 ^ 32)
    (hcx : ahead c x < 2 ^ 31) (hcy : ahead c y < 2 ^ 31) :
    toInt (ahead y x) < 0 ↔ ahead c x < ahead c y := by
  rw [toInt_neg_iff (ahead_lt y x)]
  rcases Nat.lt_or_ge (ahead c x) (ahead c y) with h | h
  · rw [ahead_of_lt hy hx hc h]
    omega
  · rw [ahead_of_le hy hx hc h]
    omega

/-! ### Where there is no order -/

/-- **Values on no arc** contain two opposite ones or three that go round. -/
theorem arc_or_circle {V : Set Nat} (hV : ∀ v ∈ V, v < 2 ^ 32) :
    (∃ c, OnArc V c) ∨ (∃ a ∈ V, ∃ b ∈ V, ahead a b = 2 ^ 31) ∨
      ∃ a ∈ V, ∃ b ∈ V, ∃ c ∈ V, toInt (ahead b a) < 0 ∧ toInt (ahead c b) < 0 ∧
        0 < toInt (ahead c a) := by
  by_cases hempty : ∃ v, v ∈ V
  case neg => exact .inl ⟨0, by decide, fun v hv => absurd ⟨v, hv⟩ hempty⟩
  obtain ⟨v₀, hv₀⟩ := hempty
  by_cases hopp : ∃ a ∈ V, ∃ b ∈ V, ahead a b = 2 ^ 31
  case pos => exact .inr (.inl hopp)
  -- begin at the value that is furthest behind `v₀`
  obtain ⟨w, hw, hw₀⟩ : ∃ w < 2 ^ 32, ahead w v₀ = 2 ^ 31 := by
    refine ⟨(v₀ + 2 ^ 31) % 2 ^ 32, Nat.mod_lt _ (by decide), ?_⟩
    unfold ahead
    have := hV v₀ hv₀
    omega
  have hsome : ∃ n, ∃ v ∈ V, ahead w v = n := ⟨_, v₀, hv₀, rfl⟩
  classical
  obtain ⟨c, hc, hfirst⟩ := Nat.find_spec hsome
  have hleast : ∀ v ∈ V, ahead w c ≤ ahead w v := fun v hv =>
    hfirst ▸ Nat.find_min' hsome ⟨v, hv, rfl⟩
  by_cases harc : OnArc V c
  case pos => exact .inl ⟨c, harc⟩
  -- some value is more than half the circle ahead, so it goes round to `c` again
  obtain ⟨v, hv, hfar⟩ : ∃ v ∈ V, 2 ^ 31 ≤ ahead c v := by
    by_contra hnone
    refine harc ⟨hV c hc, fun v hv => ?_⟩
    by_contra hfar
    exact hnone ⟨v, hv, Nat.le_of_not_lt hfar⟩
  have hc₀ : ahead c v₀ ≠ 2 ^ 31 := fun h => hopp ⟨c, hc, v₀, hv₀, h⟩
  have hcv : ahead c v ≠ 2 ^ 31 := fun h => hopp ⟨c, hc, v, hv, h⟩
  have hle₀ := hleast v₀ hv₀
  rw [ahead_of_le (hV c hc) (hV v hv) hw (hleast v hv)] at hfar hcv
  rw [ahead_of_le (hV c hc) (hV v₀ hv₀) hw hle₀] at hc₀
  have hv_lt := ahead_lt w v
  refine .inr (.inr ⟨c, hc, v₀, hv₀, v, hv, ?_, ?_, ?_⟩)
  · rw [toInt_neg_iff (ahead_lt ..), ahead_of_lt (hV v₀ hv₀) (hV c hc) hw (by omega)]
    omega
  · rw [toInt_neg_iff (ahead_lt ..), ahead_of_lt (hV v hv) (hV v₀ hv₀) hw (by omega)]
    omega
  · rw [toInt_pos_iff (ahead_lt ..), ahead_of_lt (hV v hv) (hV c hc) hw (by omega)]
    omega

end Codelib.Qsort
