import Codelib.Hhash.Search

/-!
# Codelib.Hhash.DenseOrder

The **order in which a lone map fills its table**, as arithmetic.

The `k`-th call (counting from 0) on a fresh map gets slot `denseHandle k`: first
2, 1, 3; then, for each `S = 4, 8, 16, …`, the calls `S - 1 + e` get the even slots
`S + 2 * e` and after them the calls `S - 1 + S / 2 + e` the odd slots
`S + 1 + 2 * e`. `denseIndex` is the inverse: which call a slot belongs to.

`S` is a power of two throughout, written `4 * 2 ^ j`; the `_even` and `_odd`
lemmas state both functions at these arguments, and `omega` does the rest.
-/

namespace Codelib.Hhash

/-- The slot that call `k` on a fresh map gets. -/
def denseHandle (k : Nat) : Nat :=
  if k = 0 then 2
  else if k = 1 then 1
  else if k = 2 then 3
  else
    let S := 2 ^ (k + 1).log2
    let e := k + 1 - S
    if e < S / 2 then S + 2 * e else S + 1 + 2 * (e - S / 2)

/-- The call that slot `i` belongs to. -/
def denseIndex (i : Nat) : Nat :=
  if i = 1 then 1
  else if i = 2 then 0
  else if i = 3 then 2
  else
    let S := 2 ^ i.log2
    let e := i - S
    if e % 2 = 0 then S - 1 + e / 2 else S - 1 + S / 2 + e / 2

/-- The length of the table after `n` calls. -/
def denseCap (n : Nat) : Nat := if n < 4 then 4 else 2 ^ (n.log2 + 1)

/-! ### Powers of two -/

theorem two_pow_pos (j : Nat) : 1 ≤ 2 ^ j := Nat.one_le_two_pow

theorem two_pow_log2_of_phase {m j : Nat} (hlo : 4 * 2 ^ j ≤ m) (hhi : m < 8 * 2 ^ j) :
    m.log2 = j + 2 := by
  have hpos := two_pow_pos j
  rw [Nat.log2_eq_iff (by omega)]
  simp only [Nat.pow_succ]
  omega

/-- Every number from 4 on lies between some `4 * 2 ^ j` and its double. -/
theorem exists_phase {m : Nat} (h : 4 ≤ m) : ∃ j, 4 * 2 ^ j ≤ m ∧ m < 8 * 2 ^ j := by
  have hlog : 2 ≤ m.log2 := (Nat.le_log2 (by omega)).mpr h
  refine ⟨m.log2 - 2, ?_⟩
  have hself := Nat.log2_self_le (n := m) (by omega)
  have hlt := Nat.lt_log2_self (n := m)
  obtain ⟨j, hj⟩ : ∃ j, m.log2 = j + 2 := ⟨m.log2 - 2, by omega⟩
  rw [hj] at hself hlt ⊢
  simp only [Nat.pow_succ, Nat.add_sub_cancel] at hself hlt ⊢
  omega

theorem phase_mono (j j' : Nat) (h : 4 * 2 ^ j < 8 * 2 ^ j') : 2 ^ j ≤ 2 ^ j' := by
  refine Nat.pow_le_pow_right (by omega) (Nat.le_of_not_lt fun hlt => ?_)
  have hle : 2 ^ (j' + 1) ≤ 2 ^ j := Nat.pow_le_pow_right (by omega) hlt
  rw [Nat.pow_succ] at hle
  omega

/-! ### Both functions within a phase -/

section Phase

variable {j e : Nat}

/-- `denseHandle` on the calls that belong to slots from `4 * 2 ^ j` up. -/
theorem denseHandle_phase {k : Nat} (hlo : 4 * 2 ^ j ≤ k + 1) (hhi : k + 1 < 8 * 2 ^ j) :
    denseHandle k =
      if k + 1 - 4 * 2 ^ j < 2 * 2 ^ j then 4 * 2 ^ j + 2 * (k + 1 - 4 * 2 ^ j)
      else 4 * 2 ^ j + 1 + 2 * (k + 1 - 4 * 2 ^ j - 2 * 2 ^ j) := by
  have hpos := two_pow_pos j
  have hS : 2 ^ (k + 1).log2 = 4 * 2 ^ j := by
    rw [two_pow_log2_of_phase hlo hhi, Nat.pow_add, Nat.mul_comm]
  have hhalf : 4 * 2 ^ j / 2 = 2 * 2 ^ j := by omega
  unfold denseHandle
  rw [if_neg (by omega), if_neg (by omega), if_neg (by omega), hS]
  simp only [hhalf]

/-- `denseIndex` on the slots from `4 * 2 ^ j` up. -/
theorem denseIndex_phase {i : Nat} (hlo : 4 * 2 ^ j ≤ i) (hhi : i < 8 * 2 ^ j) :
    denseIndex i =
      if (i - 4 * 2 ^ j) % 2 = 0 then 4 * 2 ^ j - 1 + (i - 4 * 2 ^ j) / 2
      else 4 * 2 ^ j - 1 + 2 * 2 ^ j + (i - 4 * 2 ^ j) / 2 := by
  have hpos := two_pow_pos j
  have hS : 2 ^ i.log2 = 4 * 2 ^ j := by
    rw [two_pow_log2_of_phase hlo hhi, Nat.pow_add, Nat.mul_comm]
  have hhalf : 4 * 2 ^ j / 2 = 2 * 2 ^ j := by omega
  unfold denseIndex
  rw [if_neg (by omega), if_neg (by omega), if_neg (by omega), hS]
  simp only [hhalf]

theorem denseHandle_even (h : e < 2 * 2 ^ j) :
    denseHandle (4 * 2 ^ j - 1 + e) = 4 * 2 ^ j + 2 * e := by
  have hpos := two_pow_pos j
  rw [denseHandle_phase (j := j) (by omega) (by omega), if_pos (by omega)]
  omega

theorem denseHandle_odd (h : e < 2 * 2 ^ j) :
    denseHandle (4 * 2 ^ j - 1 + 2 * 2 ^ j + e) = 4 * 2 ^ j + 1 + 2 * e := by
  have hpos := two_pow_pos j
  rw [denseHandle_phase (j := j) (by omega) (by omega), if_neg (by omega)]
  omega

theorem denseIndex_even (h : e < 2 * 2 ^ j) :
    denseIndex (4 * 2 ^ j + 2 * e) = 4 * 2 ^ j - 1 + e := by
  rw [denseIndex_phase (j := j) (by omega) (by omega), if_pos (by omega)]
  omega

theorem denseIndex_odd (h : e < 2 * 2 ^ j) :
    denseIndex (4 * 2 ^ j + 1 + 2 * e) = 4 * 2 ^ j - 1 + 2 * 2 ^ j + e := by
  rw [denseIndex_phase (j := j) (by omega) (by omega), if_neg (by omega)]
  omega

theorem denseCap_phase {n : Nat} (hlo : 4 * 2 ^ j ≤ n) (hhi : n < 8 * 2 ^ j) :
    denseCap n = 8 * 2 ^ j := by
  have hpos := two_pow_pos j
  rw [denseCap, if_neg (by omega), two_pow_log2_of_phase hlo hhi, Nat.pow_succ, Nat.pow_succ,
    Nat.pow_succ]
  omega

end Phase

/-- Calls from 3 on are even or odd calls of some phase. -/
theorem call_cases {k : Nat} (h : 3 ≤ k) : ∃ j e, e < 2 * 2 ^ j ∧
    (k = 4 * 2 ^ j - 1 + e ∨ k = 4 * 2 ^ j - 1 + 2 * 2 ^ j + e) := by
  obtain ⟨j, hlo, hhi⟩ := exists_phase (m := k + 1) (by omega)
  by_cases he : k + 1 < 4 * 2 ^ j + 2 * 2 ^ j
  · exact ⟨j, k + 1 - 4 * 2 ^ j, by omega, .inl (by omega)⟩
  · exact ⟨j, k + 1 - 4 * 2 ^ j - 2 * 2 ^ j, by omega, .inr (by omega)⟩

/-- Slots from 4 on are even or odd slots of some phase. -/
theorem slot_cases {i : Nat} (h : 4 ≤ i) : ∃ j e, e < 2 * 2 ^ j ∧
    (i = 4 * 2 ^ j + 2 * e ∨ i = 4 * 2 ^ j + 1 + 2 * e) := by
  obtain ⟨j, hlo, hhi⟩ := exists_phase h
  by_cases he : (i - 4 * 2 ^ j) % 2 = 0
  · exact ⟨j, (i - 4 * 2 ^ j) / 2, by omega, .inl (by omega)⟩
  · exact ⟨j, (i - 4 * 2 ^ j) / 2, by omega, .inr (by omega)⟩

/-! ### A bijection between calls and slots -/

theorem denseIndex_denseHandle (k : Nat) : denseIndex (denseHandle k) = k := by
  by_cases h : k < 3
  · match k, h with
    | 0, _ => rfl
    | 1, _ => rfl
    | 2, _ => rfl
  · obtain ⟨j, e, he, rfl | rfl⟩ := call_cases (k := k) (by omega)
    · rw [denseHandle_even he, denseIndex_even he]
    · rw [denseHandle_odd he, denseIndex_odd he]

theorem denseHandle_denseIndex {i : Nat} (h : 1 ≤ i) : denseHandle (denseIndex i) = i := by
  by_cases h4 : i < 4
  · match i, h, h4 with
    | 1, _, _ => rfl
    | 2, _, _ => rfl
    | 3, _, _ => rfl
  · obtain ⟨j, e, he, rfl | rfl⟩ := slot_cases (i := i) (by omega)
    · rw [denseIndex_even he, denseHandle_even he]
    · rw [denseIndex_odd he, denseHandle_odd he]

theorem denseHandle_inj {k l : Nat} (h : denseHandle k = denseHandle l) : k = l := by
  rw [← denseIndex_denseHandle k, h, denseIndex_denseHandle]

theorem denseHandle_pos (k : Nat) : 1 ≤ denseHandle k := by
  by_cases h : k < 3
  · match k, h with
    | 0, _ => decide
    | 1, _ => decide
    | 2, _ => decide
  · obtain ⟨j, e, he, rfl | rfl⟩ := call_cases (k := k) (by omega)
    · rw [denseHandle_even he]
      have := two_pow_pos j
      omega
    · rw [denseHandle_odd he]
      omega

/-- The first `S - 1` calls get the slots below `S`, and no other call does. -/
theorem denseHandle_lt_iff {k j : Nat} : denseHandle k < 4 * 2 ^ j ↔ k + 1 < 4 * 2 ^ j := by
  have hpos := two_pow_pos j
  by_cases h : k < 3
  · have hlt : denseHandle k < 4 := by
      match k, h with
      | 0, _ => decide
      | 1, _ => decide
      | 2, _ => decide
    omega
  · obtain ⟨j', e, he, hk⟩ := call_cases (k := k) (by omega)
    have hslot : 4 * 2 ^ j' ≤ denseHandle k ∧ denseHandle k < 8 * 2 ^ j' := by
      rcases hk with rfl | rfl
      · rw [denseHandle_even he]; omega
      · rw [denseHandle_odd he]; omega
    have hpos' := two_pow_pos j'
    constructor
    · intro hlt
      have := phase_mono j' j (by omega)
      by_contra hge
      have := phase_mono j j' (by omega)
      omega
    · intro hlt
      by_contra hge
      have := phase_mono j j' (by omega)
      omega

theorem denseIndex_lt_iff {i j : Nat} (h : 1 ≤ i) : denseIndex i + 1 < 4 * 2 ^ j ↔ i < 4 * 2 ^ j := by
  rw [← denseHandle_lt_iff, denseHandle_denseIndex h]

/-! ### The table length -/

theorem denseCap_eq (n : Nat) : ∃ j, denseCap n = 4 * 2 ^ j := by
  by_cases h : n < 4
  · exact ⟨0, by simp [denseCap, h]⟩
  · obtain ⟨j, hlo, hhi⟩ := exists_phase (m := n) (by omega)
    exact ⟨j + 1, by rw [denseCap_phase hlo hhi, Nat.pow_succ]; omega⟩

theorem lt_denseCap (n : Nat) : n < denseCap n := by
  by_cases h : n < 4
  · simp [denseCap, h]
  · obtain ⟨j, hlo, hhi⟩ := exists_phase (m := n) (by omega)
    rwa [denseCap_phase hlo hhi]

theorem denseCap_least {n j : Nat} (h : n < 4 * 2 ^ j) : denseCap n ≤ 4 * 2 ^ j := by
  have hpos := two_pow_pos j
  by_cases h4 : n < 4
  · simp only [denseCap, if_pos h4]; omega
  · obtain ⟨j', hlo, hhi⟩ := exists_phase (m := n) (by omega)
    rw [denseCap_phase hlo hhi]
    by_contra hlt
    have := phase_mono j j' (by omega)
    omega

end Codelib.Hhash
