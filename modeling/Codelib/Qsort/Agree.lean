import Mathlib.Data.Finset.Max
import Codelib.Qsort.Search

/-!
# Codelib.Qsort.Agree

**The two versions of `cmp`.** The difference of two `unsigned int`s, taken as an `int`, has
the sign of the comparison if and only if it does not leave the range of an `int`
(`sign_cmp_iff`). A table whose values lie that close together is left the same by
`uclibc_qsort` with either version, byte for byte (`cmp_agree`): both runs end with the
records rearranged in ascending order, and there is one such order.
-/

namespace Codelib.Qsort

variable {nel width fuel lo : Nat} {mem mem' : Mem} {p q : Nat}

/-! ### The comparisons -/

theorem cmp_false {st : PUnit} : (cmp false st mem p q).1 =
    Int.sign ((readUInt mem p : Int) - readUInt mem q) := by
  simp only [cmp]
  split
  · exact absurd ‹_› Bool.false_ne_true
  split_ifs with hgt heq
  · exact (Int.sign_eq_one_of_pos (by omega)).symm
  · rw [heq, Int.sub_self, Int.sign_zero]
  · exact (Int.sign_eq_neg_one_of_neg (by omega)).symm

/-- Two integers have one sign. -/
theorem sign_eq_sign_iff {x y : Int} :
    x.sign = y.sign ↔ (x < 0 ↔ y < 0) ∧ (0 < x ↔ 0 < y) := by
  rcases Int.lt_trichotomy x 0 with hx | rfl | hx <;> rcases Int.lt_trichotomy y 0 with hy | rfl | hy
    <;> simp [Int.sign_eq_one_of_pos, Int.sign_eq_neg_one_of_neg, *] <;> omega

/-- **Where the versions of `cmp` agree.** -/
theorem sign_cmp_iff (st : PUnit) (mem : Mem) (p q : Nat) :
    (cmp true st mem p q).1.sign = (cmp false st mem p q).1.sign ↔
      -2 ^ 31 ≤ (readUInt mem p : Int) - readUInt mem q ∧
        (readUInt mem p : Int) - readUInt mem q < 2 ^ 31 := by
  have hp := readUInt_lt mem p
  have hq := readUInt_lt mem q
  have hlt := ahead_lt (readUInt mem q) (readUInt mem p)
  rw [cmp_false, Int.sign_sign, cmp_true, sign_eq_sign_iff, toInt_neg_iff hlt, toInt_pos_iff hlt]
  unfold ahead
  omega

/-- On values that close together either version orders the records. -/
theorem cmp_ordersBy_value (wrongCmp : Bool) (lo : Nat) :
    OrdersBy (cmp wrongCmp) 4 {r | lo ≤ value r ∧ value r < lo + 2 ^ 31}
      (fun x y => value x ≤ value y) where
  agrees st mem a b ha hb := by
    obtain ⟨hlo, hhi⟩ := ha
    obtain ⟨hlo', hhi'⟩ := hb
    rw [value_bytesAt, value_bytesAt] at *
    have hfalse : (cmp false st mem a b).1 ≤ 0 ↔ readUInt mem a ≤ readUInt mem b := by
      rw [cmp_false, Int.sign_nonpos_iff]
      omega
    cases wrongCmp with
    | false => exact hfalse
    | true =>
        have hsign := (sign_cmp_iff st mem a b).mpr ⟨by omega, by omega⟩
        rw [← hfalse, ← Int.sign_nonpos_iff, hsign, Int.sign_nonpos_iff]
  total x _ y _ := Nat.le_total _ _
  trans x _ y _ z _ := Nat.le_trans

/-! ### One ascending order -/

/-- The array and what lies behind it are the memory. -/
theorem mem_ext (hw : 0 < width) (hrecords : records mem nel width = records mem' nel width)
    (hbehind : ∀ x, nel * width ≤ x → mem x = mem' x) : mem = mem' := by
  funext x
  by_cases hx : x < nel * width
  case neg => exact hbehind x (Nat.le_of_not_lt hx)
  have hi : x / width < nel := (Nat.div_lt_iff_lt_mul hw).mpr hx
  have hk : x % width < width := Nat.mod_lt x hw
  have hrecord := List.map_inj_left.mp hrecords (x / width) (List.mem_range.mpr hi)
  have hbyte := List.map_inj_left.mp hrecord (x % width) (List.mem_range.mpr hk)
  rwa [Nat.div_add_mod'] at hbyte

/-- A table in ascending order is the only one of its records. -/
theorem records_unique (hperm : (records mem nel 4).Perm (records mem' nel 4))
    (hle : ∀ i j, i ≤ j → j < nel → value (record mem 4 i) ≤ value (record mem 4 j))
    (hle' : ∀ i j, i ≤ j → j < nel → value (record mem' 4 i) ≤ value (record mem' 4 j)) :
    records mem nel 4 = records mem' nel 4 := by
  have hascends {m : Mem} (h : ∀ i j, i ≤ j → j < nel → value (record m 4 i) ≤ value (record m 4 j)) :
      (records m nel 4).Pairwise fun x y => value x ≤ value y := by
    rw [records, List.pairwise_map]
    exact List.pairwise_lt_range.imp_of_mem fun _ hj hlt =>
      h _ _ (Nat.le_of_lt hlt) (List.mem_range.mp hj)
  refine List.Perm.eq_of_pairwise (fun x y hx hy hxy hyx => ?_) (hascends hle) (hascends hle') hperm
  obtain ⟨i, -, rfl⟩ := List.mem_map.mp hx
  obtain ⟨j, -, rfl⟩ := List.mem_map.mp hy
  exact value_inj (by rw [record_length, record_length]) (Nat.le_antisymm hxy hyx)

/-- A window of half the range around the values of the table. -/
theorem exists_window {f : Nat → Nat} {d : Nat} (h : ∀ i < nel, ∀ j < nel, f i < f j + d) :
    ∃ lo, ∀ i < nel, lo ≤ f i ∧ f i < lo + d := by
  by_cases hn : 0 < nel
  · obtain ⟨k, hk, hmin⟩ := (Finset.range nel).exists_min_image f ⟨0, Finset.mem_range.mpr hn⟩
    exact ⟨f k, fun i hi => ⟨hmin i (Finset.mem_range.mpr hi), h i hi k (Finset.mem_range.mp hk)⟩⟩
  · exact ⟨0, fun i hi => absurd hi (by omega)⟩

/-- **`uclibc_qsort` leaves the same buffer with either version of `cmp`**, if the values
differ by less than half the range. -/
theorem cmp_agree :
    (∀ st mem p q, (cmp true st mem p q).1.sign = (cmp false st mem p q).1.sign ↔
      -2 ^ 31 ≤ (readUInt mem p : Int) - readUInt mem q ∧
        (readUInt mem p : Int) - readUInt mem q < 2 ^ 31) ∧
    ∀ fuel nel mem, nel * 4 < 2 ^ 64 → nel * 4 < fuel →
      (∀ i < nel, ∀ j < nel, readUInt mem (i * 4) < readUInt mem (j * 4) + 2 ^ 31) →
      ∃ mem', (∀ wrongCmp, Ends (uclibcQsort fuel nel 4 (cmp wrongCmp)) (start mem ⟨⟩)
          fun _ s' => s'.mem = mem') ∧
        ∀ i j, i ≤ j → j < nel → readUInt mem' (i * 4) ≤ readUInt mem' (j * 4) := by
  refine ⟨sign_cmp_iff, fun fuel nel mem hbytes hfuel hnear => ?_⟩
  obtain ⟨lo, hlo⟩ := exists_window hnear
  have hwithin : Within {r | lo ≤ value r ∧ value r < lo + 2 ^ 31} nel 4 (start mem PUnit.unit) :=
    fun i hi => by
      show lo ≤ value (bytesAt mem (i * 4) 4) ∧ value (bytesAt mem (i * 4) 4) < lo + 2 ^ 31
      rw [value_bytesAt]
      exact hlo i hi
  have hsorts (wrongCmp : Bool) :=
    sorts_ends (cmp_ordersBy_value wrongCmp lo) hwithin (by decide) hbytes hfuel
  obtain ⟨-, s', hrun, hperm, hbehind, hle⟩ := hsorts false
  refine ⟨s'.mem, fun wrongCmp => (hsorts wrongCmp).mono ?_, fun i j hij hj => ?_⟩
  · intro _ s'' h
    obtain ⟨hperm', hbehind', hle'⟩ := h
    refine mem_ext (by decide) (records_unique (hperm'.trans hperm.symm) hle' hle) fun x hx => ?_
    rw [hbehind' x hx, hbehind x hx]
  · rw [← value_bytesAt, ← value_bytesAt]
    exact hle i j hij hj

/-- Three values around the sign bit. -/
theorem cmp_agree_three : ∃ mem', (∀ wrongCmp,
      Ends (uclibcQsort 13 3 4 (cmp wrongCmp)) (start (memOf fun i => 2 ^ 31 + 1 - i) ⟨⟩)
        fun _ s' => s'.mem = mem') ∧
      ∀ i j, i ≤ j → j < 3 → readUInt mem' (i * 4) ≤ readUInt mem' (j * 4) := by
  refine cmp_agree.2 13 3 _ (by decide) (by decide) fun i hi j hj => ?_
  rw [readUInt_memOf (by omega), readUInt_memOf (by omega)]
  omega

end Codelib.Qsort
