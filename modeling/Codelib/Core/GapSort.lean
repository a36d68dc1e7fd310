import Mathlib.Data.Finset.Card
import Mathlib.Data.Finset.Range
import Mathlib.Data.Nat.ModEq
import Mathlib.Logic.Equiv.Basic
import Mathlib.Data.List.Perm.Basic
import Mathlib.Data.List.Nodup
import Mathlib.Tactic.Common

/-!
# Codelib.Core.GapSort

The theory of **gap insertion** — one pass of a Shell sort — over an array seen as
a function `ℕ → α`.

* `GapSorted le g n f`: among the first `n` elements, any two that are `g` apart
  are in order. The pass over gap `g` grows `n` one element at a time.
* `GapSortedExcept le g n p f`: the same, but for the element at `p`, which is still
  sifting down: the pair below it may be out of order, and the elements around it
  are in order with each other. A swap moves `p` down by `g`
  (`GapSortedExcept.swap`); an ordered pair, or the end of the chain, restores
  `GapSorted` (`GapSortedExcept.stop`, `GapSortedExcept.bottom`).
* `GapPerm g n f f'`: `f'` rearranges the first `n` elements of `f` within their
  residue classes modulo `g`.

The order is any relation: only the theorem about whole arrays
(`GapSorted.sorted`) needs it to be transitive. Nothing here names a program of the
repository.
-/

namespace Codelib

universe u

variable {α : Type u} {le : α → α → Prop} {g n p : ℕ} {f f' f'' : ℕ → α}

/-- Elements `g` apart are in order, among the first `n`. -/
def GapSorted (le : α → α → Prop) (g n : ℕ) (f : ℕ → α) : Prop :=
  ∀ i, i + g < n → le (f i) (f (i + g))

/-- `GapSorted` but for the element at `p`, which may belong further down. -/
structure GapSortedExcept (le : α → α → Prop) (g n p : ℕ) (f : ℕ → α) : Prop where
  off : ∀ i, i + g < n → i + g ≠ p → le (f i) (f (i + g))
  around : ∀ i, i + g = p → p + g < n → le (f i) (f (p + g))

theorem GapSorted.of_le_gap (h : n ≤ g) : GapSorted le g n f :=
  fun i hi => absurd hi (by omega)

/-- The next element starts to sift. -/
theorem GapSorted.except (h : GapSorted le g n f) (hg : 0 < g) :
    GapSortedExcept le g (n + 1) n f where
  off i hi hne := h i (by omega)
  around _ _ hlt := absurd hlt (by omega)

namespace GapSortedExcept

/-- The element at `p` is in order with the one below it. -/
theorem stop (h : GapSortedExcept le g n (p + g) f) (hle : le (f p) (f (p + g))) :
    GapSorted le g n f := by
  intro i hi
  by_cases hip : i = p
  · rwa [hip]
  · exact h.off i hi (by omega)

/-- The element at `p` has nothing below it. -/
theorem bottom (h : GapSortedExcept le g n p f) (hp : p < g) : GapSorted le g n f :=
  fun i hi => h.off i hi (by omega)

/-- The element at `p + g` changes places with the greater one at `p`. -/
theorem swap (h : GapSortedExcept le g n (p + g) f) (hg : 0 < g)
    (hle : le (f (p + g)) (f p)) : GapSortedExcept le g n p (f ∘ Equiv.swap p (p + g)) where
  off i hi hne := by
    have hswap : Equiv.swap p (p + g) (i + g) = if i = p then p else i + g := by
      split
      case isTrue hip => rw [hip, Equiv.swap_apply_right]
      case isFalse hip => exact Equiv.swap_apply_of_ne_of_ne hne (by omega)
    simp only [Function.comp, hswap]
    split
    case isTrue hip => rwa [hip, Equiv.swap_apply_left]
    case isFalse hip =>
      by_cases hig : i = p + g
      · -- above the moved element: it is in order with the element that passed it
        rw [hig, Equiv.swap_apply_right]
        exact h.around p rfl (by omega)
      · rw [Equiv.swap_apply_of_ne_of_ne hip hig]
        exact h.off i hi (by omega)
  around i hip hlt := by
    have hi : Equiv.swap p (p + g) i = i := Equiv.swap_apply_of_ne_of_ne (by omega) (by omega)
    simp only [Function.comp, hi, Equiv.swap_apply_right]
    rw [← hip]
    exact h.off i (by omega) (by omega)

end GapSortedExcept

/-- A transitive order sorts the whole array once the gap is 1. -/
theorem GapSorted.sorted (h : GapSorted le 1 n f) (hrefl : ∀ i < n, le (f i) (f i))
    (htrans : ∀ i j k, i < n → j < n → k < n → le (f i) (f j) → le (f j) (f k) → le (f i) (f k)) :
    ∀ i j, i ≤ j → j < n → le (f i) (f j) := by
  intro i j hij
  obtain ⟨d, rfl⟩ := Nat.exists_eq_add_of_le hij
  induction d with
  | zero => exact hrefl i
  | succ d ih =>
      intro hj
      exact htrans i (i + d) (i + (d + 1)) (by omega) (by omega) hj
        (ih (by omega) (by omega)) (h (i + d) hj)

/-! ### Rearrangements within residue classes -/

/-- `f'` rearranges the first `n` elements of `f` within their classes modulo `g`. -/
def GapPerm (g n : ℕ) (f f' : ℕ → α) : Prop :=
  ∃ π : Equiv.Perm ℕ, (∀ i, π i % g = i % g) ∧ (∀ i, n ≤ i → π i = i) ∧ f' = f ∘ π

namespace GapPerm

theorem refl : GapPerm g n f f := ⟨Equiv.refl ℕ, fun _ => rfl, fun _ _ => rfl, rfl⟩

theorem trans (h : GapPerm g n f f') (h' : GapPerm g n f' f'') : GapPerm g n f f'' := by
  obtain ⟨π, hclass, hfix, rfl⟩ := h
  obtain ⟨ρ, hclass', hfix', rfl⟩ := h'
  refine ⟨ρ.trans π, fun i => ?_, fun i hi => ?_, rfl⟩
  · rw [Equiv.trans_apply, hclass, hclass']
  · rw [Equiv.trans_apply, hfix' i hi, hfix i hi]

theorem swap (h : p + g < n) : GapPerm g n f (f ∘ Equiv.swap p (p + g)) := by
  refine ⟨Equiv.swap p (p + g), fun i => ?_, fun i hi => ?_, rfl⟩
  · by_cases hip : i = p
    · rw [hip, Equiv.swap_apply_left, Nat.add_mod_right]
    by_cases hig : i = p + g
    · rw [hig, Equiv.swap_apply_right, Nat.add_mod_right]
    rw [Equiv.swap_apply_of_ne_of_ne hip hig]
  · exact Equiv.swap_apply_of_ne_of_ne (by omega) (by omega)

/-- Forget the classes. -/
theorem to_one (h : GapPerm g n f f') : GapPerm 1 n f f' := by
  obtain ⟨π, -, hfix, rfl⟩ := h
  exact ⟨π, fun i => by rw [Nat.mod_one, Nat.mod_one], hfix, rfl⟩

/-- A permutation that fixes everything from `n` on keeps the rest below `n`. -/
theorem lt_iff_of_fixes {π : Equiv.Perm ℕ} (hfix : ∀ i, n ≤ i → π i = i) (i : ℕ) :
    π i < n ↔ i < n := by
  by_cases hi : i < n
  · refine iff_of_true ?_ hi
    by_contra hge
    have := π.injective (hfix (π i) (by omega))
    omega
  · rw [hfix i (by omega)]

/-- The rearrangement stays below `n`. -/
theorem exists_lt (h : GapPerm g n f f') {i : ℕ} (hi : i < n) : ∃ j < n, f' i = f j := by
  obtain ⟨π, -, hfix, rfl⟩ := h
  exact ⟨π i, (lt_iff_of_fixes hfix i).mpr hi, rfl⟩

/-- The first `n` elements, as lists, are permutations of each other. -/
theorem perm (h : GapPerm g n f f') : ((List.range n).map f').Perm ((List.range n).map f) := by
  obtain ⟨π, -, hfix, rfl⟩ := h
  rw [← List.map_map]
  refine List.Perm.map f ((List.perm_ext_iff_of_nodup ?_ List.nodup_range).mpr fun i => ?_)
  · exact List.Nodup.map π.injective List.nodup_range
  · have hlt := lt_iff_of_fixes hfix
    simp only [List.mem_map, List.mem_range]
    constructor
    · intro hp
      obtain ⟨k, hk, rfl⟩ := hp
      exact (hlt k).mpr hk
    · intro hi
      exact ⟨π.symm i, by rwa [← hlt, Equiv.apply_symm_apply], Equiv.apply_symm_apply π i⟩

end GapPerm

/-! ### A later pass does not undo an earlier one -/

/-- Elements of one class are in order, however far apart. -/
theorem GapSorted.le_of_mod {i j : ℕ} (h : GapSorted le g n f) (hrefl : ∀ i < n, le (f i) (f i))
    (htrans : ∀ i j k, i < n → j < n → k < n → le (f i) (f j) → le (f j) (f k) → le (f i) (f k))
    (hij : i ≤ j) (hmod : j % g = i % g) (hj : j < n) : le (f i) (f j) := by
  obtain ⟨d, rfl⟩ : ∃ d, j = i + d * g := by
    obtain ⟨c, hc⟩ := (Nat.modEq_iff_dvd' hij).mp hmod.symm
    exact ⟨c, by rw [Nat.mul_comm, ← hc, Nat.add_sub_cancel' hij]⟩
  clear hmod hij
  induction d with
  | zero =>
      rw [Nat.zero_mul, Nat.add_zero] at hj ⊢
      exact hrefl i hj
  | succ d ih =>
      rw [Nat.succ_mul, ← Nat.add_assoc] at hj ⊢
      have hd : i + d * g < n := by omega
      exact htrans i (i + d * g) (i + d * g + g) (by omega) hd hj (ih hd) (h _ hj)

/-- **A pigeonhole for rearrangements within classes.** Call the element `h` below another one its
partner, before the rearrangement. Some element ends up at `i + h`, or below it in its class, whose
partner ends up at `i` or above it.

Otherwise look at all places up to `i + h` in this class. Each has an element from one of the
first `h` places, or one whose partner ends up strictly below `i`. That would map these places one
to one to fewer. -/
theorem exists_partner_ge {π : Equiv.Perm ℕ} (hclass : ∀ i, π i % g = i % g) (h i : ℕ) :
    ∃ p q, p ≤ i + h ∧ i ≤ q ∧ π q + h = π p ∧ p % g = (i + h) % g ∧ q % g = i % g := by
  by_contra hnone
  -- the place a partner ends up at
  let q (p : ℕ) : ℕ := π.symm (π p - h)
  have hq (p : ℕ) : π (q p) = π p - h := π.apply_symm_apply _
  let S : Finset ℕ := {p ∈ Finset.range (i + h + 1) | p % g = (i + h) % g}
  have hS {p : ℕ} : p ∈ S ↔ p ≤ i + h ∧ p % g = (i + h) % g := by
    rw [Finset.mem_filter, Finset.mem_range, Nat.lt_succ_iff]
  have hpartner : ∀ p ∈ S, h ≤ π p → q p < i ∧ (q p + h) % g = (i + h) % g := by
    intro p hp hh
    obtain ⟨hle, hmod⟩ := hS.mp hp
    have hpq : π (q p) + h = π p := by rw [hq, Nat.sub_add_cancel hh]
    have hmod' : (q p + h) % g = (i + h) % g := by
      rw [Nat.add_mod, ← hclass (q p), ← Nat.add_mod, hpq, hclass, hmod]
    refine ⟨Nat.lt_of_not_le fun hge => ?_, hmod'⟩
    exact hnone ⟨p, q p, hle, hge, hpq, hmod, Nat.ModEq.add_right_cancel' h hmod'⟩
  have htop : i + h ∈ S := hS.mpr ⟨le_rfl, rfl⟩
  have hmaps : ∀ p ∈ S, (if π p < h then π p else q p + h) ∈ S.erase (i + h) := by
    intro p hp
    rw [Finset.mem_erase, hS]
    split
    case isTrue hlow => exact ⟨by omega, by omega, by rw [hclass, (hS.mp hp).2]⟩
    case isFalse hhigh =>
      obtain ⟨hqi, hmod⟩ := hpartner p hp (by omega)
      exact ⟨by omega, by omega, hmod⟩
  have hinj : Set.InjOn (fun p => if π p < h then π p else q p + h) S := by
    intro p hp p' hp' heq
    dsimp only at heq
    have hqq : q p = q p' → π p - h = π p' - h := fun h => by rw [← hq, ← hq, h]
    refine π.injective ?_
    split_ifs at heq <;> omega
  have hcard := Finset.card_le_card_of_injOn _ hmaps hinj
  exact absurd (Finset.card_erase_lt_of_mem htop) (by omega)

/-- **Sorting within the classes modulo `g` keeps elements `h` apart in order.**

The element at `i` is at most the partner that `exists_partner_ge` finds, the partner is at most
its own element, and that one is at most the element at `i + h`. -/
theorem GapSorted.of_gapPerm {h : ℕ} (hf : GapSorted le h n f) (hperm : GapPerm g n f f')
    (hf' : GapSorted le g n f') (hrefl : ∀ i < n, le (f i) (f i))
    (htrans : ∀ i j k, i < n → j < n → k < n → le (f i) (f j) → le (f j) (f k) → le (f i) (f k)) :
    GapSorted le h n f' := by
  obtain ⟨π, hclass, hfix, rfl⟩ := hperm
  have hlt := GapPerm.lt_iff_of_fixes hfix
  have hrefl' : ∀ i < n, le ((f ∘ π) i) ((f ∘ π) i) := fun i hi => hrefl _ ((hlt i).mpr hi)
  have htrans' : ∀ i j k, i < n → j < n → k < n → le ((f ∘ π) i) ((f ∘ π) j) →
      le ((f ∘ π) j) ((f ∘ π) k) → le ((f ∘ π) i) ((f ∘ π) k) :=
    fun i j k hi hj hk => htrans _ _ _ ((hlt i).mpr hi) ((hlt j).mpr hj) ((hlt k).mpr hk)
  intro i hi
  obtain ⟨p, q, hp, hq, hpartner, hpmod, hqmod⟩ := exists_partner_ge hclass h i
  have hpn : π p < n := (hlt p).mpr (by omega)
  have hqn : q < n := (hlt q).mp (by omega)
  have h₁ := hf'.le_of_mod hrefl' htrans' hq hqmod hqn
  have h₂ : le ((f ∘ π) q) ((f ∘ π) p) := by
    have := hf (π q) (by omega)
    rwa [hpartner] at this
  have h₃ := hf'.le_of_mod hrefl' htrans' hp hpmod.symm hi
  exact htrans' i p _ (by omega) (by omega) hi
    (htrans' i q p (by omega) hqn (by omega) h₁ h₂) h₃

end Codelib
