import Codelib.Clj.Qsort

/-!
# Codelib.Clj.Stable

**The naive `qsort` is a stable sort** (`qsort_stable`).

The pivot is the last element, what is less or equal goes in front of it and what is
greater goes behind it, each in its old order: so an element that is equal to the pivot
and stood in front of it still does.
-/

namespace Codelib.Clj

variable {α : Type} {le gt : α → α → Bool}

/-- `<=` and `>` on the numbers: a total preorder, and its negation. -/
structure Compares (le gt : α → α → Bool) : Prop where
  total : ∀ a b, le a b = true ∨ le b a = true
  trans : ∀ a b c, le a b = true → le b c = true → le a c = true
  gt_eq : ∀ a b, gt a b = !le a b

/-- Numerically equal to `x`. -/
def sameAs (le : α → α → Bool) (x y : α) : Bool := le x y && le y x

/-- A call on a vector `a` with a last element `pivot`. -/
theorem qsort_concat (le gt : α → α → Bool) (a : List α) (pivot : α) :
    qsort le gt (a ++ [pivot]) =
      qsort le gt (a.filter (le · pivot)) ++ [pivot] ++ qsort le gt (a.filter (gt · pivot)) := by
  rw [qsort, dif_neg (by simp)]
  simp only [List.dropLast_concat, List.getLast_concat, part_eq_filter]

/-- Induction along `qsort`: what holds of the two parts holds of the vector. -/
theorem qsort_induction (le gt : α → α → Bool) {motive : List α → Prop} (hnil : motive [])
    (hconcat : ∀ a pivot, motive (a.filter (le · pivot)) → motive (a.filter (gt · pivot)) →
      motive (a ++ [pivot])) (array : List α) : motive array := by
  fun_induction qsort le gt array with
  | case1 => exact hnil
  | case2 array h hle hgt =>
      rw [part_eq_filter] at hle hgt
      rw [← List.dropLast_concat_getLast h]
      exact hconcat _ _ hle hgt

theorem qsort_perm (hgt : ∀ a b, gt a b = !le a b) (array : List α) :
    (qsort le gt array).Perm array := by
  induction array using qsort_induction le gt with
  | hnil => rw [qsort, dif_pos rfl]
  | hconcat a pivot hle hgt' =>
      rw [qsort_concat]
      have hparts : (a.filter (le · pivot) ++ a.filter (gt · pivot)).Perm a := by
        simp only [hgt]
        exact List.filter_append_perm _ a
      refine ((hle.append_right [pivot]).append hgt').trans ?_
      have hswap : (a.filter (le · pivot) ++ [pivot] ++ a.filter (gt · pivot)).Perm
          (a.filter (le · pivot) ++ a.filter (gt · pivot) ++ [pivot]) := by
        simpa only [List.append_assoc] using List.perm_append_comm.append_left _
      exact hswap.trans (hparts.append_right _)

theorem qsort_sorted (h : Compares le gt) (array : List α) :
    (qsort le gt array).Pairwise (le · · = true) := by
  induction array using qsort_induction le gt with
  | hnil =>
      rw [qsort, dif_pos rfl]
      exact List.Pairwise.nil
  | hconcat a pivot hle hgt =>
      have hfront : ∀ x ∈ qsort le gt (a.filter (le · pivot)), le x pivot = true := fun x hx =>
        (List.mem_filter.mp ((qsort_perm h.gt_eq _).mem_iff.mp hx)).2
      have hback : ∀ x ∈ qsort le gt (a.filter (gt · pivot)), le pivot x = true := by
        intro x hx
        have hgt := (List.mem_filter.mp ((qsort_perm h.gt_eq _).mem_iff.mp hx)).2
        rw [h.gt_eq] at hgt
        exact (h.total x pivot).resolve_left (by simpa using hgt)
      rw [qsort_concat, List.append_assoc, List.singleton_append]
      refine List.pairwise_append.mpr ⟨hle, List.pairwise_cons.mpr ⟨hback, hgt⟩, fun x hx y hy => ?_⟩
      rcases List.mem_cons.mp hy with rfl | hy
      · exact hfront x hx
      · exact h.trans _ _ _ (hfront x hx) (hback y hy)

/-- The elements equal to `x` all go to the same side of the pivot. -/
theorem filter_parts (h : Compares le gt) (a : List α) (pivot x : α) :
    (a.filter (le · pivot)).filter (sameAs le x) ++ [pivot].filter (sameAs le x) ++
      (a.filter (gt · pivot)).filter (sameAs le x) = (a ++ [pivot]).filter (sameAs le x) := by
  -- `y` stands to the pivot as `x` does
  have hside (y : α) (hy : sameAs le x y = true) : le y pivot = le x pivot := by
    obtain ⟨hxy, hyx⟩ : le x y = true ∧ le y x = true := by simpa [sameAs] using hy
    exact Bool.eq_iff_iff.mpr ⟨h.trans x y pivot hxy, h.trans y x pivot hyx⟩
  have hle : ∀ y ∈ a, (sameAs le x y && le y pivot) = (sameAs le x y && le x pivot) := by
    intro y _
    cases hy : sameAs le x y with
    | false => rfl
    | true => rw [hside y hy]
  have hgt : ∀ y ∈ a, (sameAs le x y && gt y pivot) = (sameAs le x y && !le x pivot) := by
    intro y _
    cases hy : sameAs le x y with
    | false => rfl
    | true => rw [h.gt_eq, hside y hy]
  rw [List.filter_filter, List.filter_filter, List.filter_congr hle, List.filter_congr hgt,
    List.filter_append]
  cases hx : le x pivot with
  | true => simp
  | false =>
      have hpivot : sameAs le x pivot = false := by simp [sameAs, hx]
      simp [hpivot]

/-- Equal elements stay in their order. -/
theorem qsort_filter (h : Compares le gt) (x : α) (array : List α) :
    (qsort le gt array).filter (sameAs le x) = array.filter (sameAs le x) := by
  induction array using qsort_induction le gt with
  | hnil => rw [qsort, dif_pos rfl]
  | hconcat a pivot hle hgt =>
      rw [qsort_concat, List.filter_append, List.filter_append, hle, hgt]
      exact filter_parts h a pivot x

/-- **The naive `qsort` is a stable sort**: a permutation, ascending, and equal elements
keep their order. -/
theorem qsort_stable (h : Compares le gt) (array : List α) :
    (qsort le gt array).Perm array ∧ (qsort le gt array).Pairwise (le · · = true) ∧
      ∀ x, (qsort le gt array).filter (sameAs le x) = array.filter (sameAs le x) :=
  ⟨qsort_perm h.gt_eq array, qsort_sorted h array, fun x => qsort_filter h x array⟩

/-- Numbers with a tag that does not count, such as that of `1N`. -/
theorem qsort_stable_tagged :
    let array : List (Nat × Bool) := [(1, true), (2, false), (1, false), (0, true), (2, true)]
    let sorted := qsort (fun a b => decide (a.1 ≤ b.1)) (fun a b => decide (a.1 > b.1)) array
    sorted.Perm array ∧ sorted.Pairwise (fun a b => decide (a.1 ≤ b.1) = true) ∧
      ∀ x, sorted.filter (sameAs (fun a b => decide (a.1 ≤ b.1)) x) =
        array.filter (sameAs (fun a b => decide (a.1 ≤ b.1)) x) :=
  qsort_stable
    { total := fun a b => by simpa using Nat.le_total a.1 b.1
      trans := fun a b c hab hbc => by
        rw [decide_eq_true_eq] at hab hbc ⊢
        exact Nat.le_trans hab hbc
      gt_eq := fun a b => by rw [← decide_not, decide_eq_decide, Nat.not_le] } _

end Codelib.Clj
