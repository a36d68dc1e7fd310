import Codelib.Qsort.Passes

/-!
# Codelib.Qsort.Sound

What `uclibc_qsort` does, as its callers see it.

* `uclibcQsort_sorts` — with a comparator that is a total preorder, the array ends
  sorted and is a permutation of the original, record by record;
* `uclibcQsort_safe` — with any comparator at all, no operation wraps, no byte
  outside the array is touched, every loop ends and the records are only rearranged;
* `uclibcQsort_keeps` — with a comparator that is a total preorder, no pass undoes
  what an earlier one did.
-/

namespace Codelib.Qsort

variable {σ : Type} {nel width fuel : Nat}

/-- A comparator that looks at the two records and nothing else. -/
theorem ordersBy_ofRecords {f : List UInt8 → List UInt8 → Int}
    (htotal : ∀ x y, x.length = width → y.length = width → f x y ≤ 0 ∨ f y x ≤ 0)
    (htrans : ∀ x y z, x.length = width → y.length = width → z.length = width →
      f x y ≤ 0 → f y z ≤ 0 → f x z ≤ 0) :
    OrdersBy (ofRecords width f) width {x | x.length = width} (fun x y => f x y ≤ 0) where
  agrees _ _ _ _ _ _ := Iff.rfl
  total x hx y hy := htotal x y hx hy
  trans x hx y hy z hz := htrans x y z hx hy hz

/-- **`uclibc_qsort` sorts.** -/
theorem uclibcQsort_sorts {f : List UInt8 → List UInt8 → Int} (hw : 0 < width)
    (hsize : nel * width ≤ sizeMax)
    (htotal : ∀ x y, x.length = width → y.length = width → f x y ≤ 0 ∨ f y x ≤ 0)
    (htrans : ∀ x y z, x.length = width → y.length = width → z.length = width →
      f x y ≤ 0 → f y z ≤ 0 → f x z ≤ 0)
    (mem : Mem) (hfuel : nel * width < fuel) :
    Ends (uclibcQsort fuel nel width (ofRecords width f)) (start mem ⟨⟩) fun _ s' =>
      (records s'.mem nel width).Perm (records mem nel width) ∧
        ∀ i j, i ≤ j → j < nel → f (record s'.mem width i) (record s'.mem width j) ≤ 0 := by
  rw [sizeMax] at hsize
  refine (sorts_ends (ordersBy_ofRecords htotal htrans) (fun i _ => record_length mem width i) hw
    (by omega) hfuel).mono ?_
  intro _ s' h
  obtain ⟨hperm, -, hsorted⟩ := h
  exact ⟨hperm, hsorted⟩

/-- Five two-byte records, by their first byte. -/
theorem uclibcQsort_sorts_five :
    ∃ mem : Mem, records mem 5 2 = [[3, 0], [1, 1], [3, 2], [0, 3], [2, 4]] ∧
      Ends (uclibcQsort 11 5 2 (ofRecords 2 fun x y => (x.headD 0).toNat - (y.headD 0).toNat))
        (start mem ⟨⟩) fun _ s' =>
          (records s'.mem 5 2).Perm (records mem 5 2) ∧ ∀ i j, i ≤ j → j < 5 →
            (((record s'.mem 2 i).headD 0).toNat - ((record s'.mem 2 j).headD 0).toNat : Int) ≤ 0 :=
  ⟨fun off => [3, 0, 1, 1, 3, 2, 0, 3, 2, 4].getD off 0, by decide,
    uclibcQsort_sorts (by decide) (by decide) (fun x y _ _ => by omega)
      (fun x y z _ _ _ => by omega) _ (by decide)⟩

/-- **`uclibc_qsort` is safe with any comparator.** -/
theorem uclibcQsort_safe (hn : 1 < nel) (hw : 0 < width) (hsize : nel * width < 2 ^ 64)
    (comp : Comparator σ) (st : σ) (mem : Mem) (hfuel : nel * width < fuel) :
    Ends (uclibcQsort fuel nel width comp) (start mem st) fun _ s' =>
      (∀ e ∈ s'.log, e.Ok (nel * width)) ∧
        (∀ p ∈ s'.passes, width ∣ p.1 ∧ 0 < p.1 ∧ p.1 < nel * width) ∧
        s'.passes.head?.map Prod.fst = some width ∧
        (records s'.mem nel width).Perm (records mem nel width) ∧
        ∀ x, nel * width ≤ x → s'.mem x = mem x := by
  refine (qsort_ends hn hw hsize hfuel).mono ?_
  intro _ s' h
  obtain ⟨hsorting, hlast, -⟩ := h
  exact ⟨hsorting.log (by simp [LogOk, start]),
    fun p hp => (hsorting.gaps p hp).resolve_left (by simp [start]), hlast,
    hsorting.perm.perm, hsorting.behind⟩

/-- The comparator the file compiles, on three records it orders in a circle. -/
theorem uclibcQsort_safe_circle :
    ∃ mem : Mem, (cmp true ⟨⟩ mem 0 4).1 < 0 ∧ (cmp true ⟨⟩ mem 4 8).1 < 0 ∧
      (cmp true ⟨⟩ mem 8 0).1 < 0 ∧
      Ends (uclibcQsort 13 3 4 (cmp true)) (start mem ⟨⟩) fun _ s' =>
        (∀ e ∈ s'.log, e.Ok (3 * 4)) ∧
          (∀ p ∈ s'.passes, 4 ∣ p.1 ∧ 0 < p.1 ∧ p.1 < 3 * 4) ∧
          s'.passes.head?.map Prod.fst = some 4 ∧
          (records s'.mem 3 4).Perm (records mem 3 4) ∧ ∀ x, 3 * 4 ≤ x → s'.mem x = mem x :=
  ⟨fun off => [0, 0, 0, 0, 0, 0, 0, 0x60, 0, 0, 0, 0xc0].getD off 0, by decide, by decide,
    by decide, uclibcQsort_safe (by decide) (by decide) (by decide) (cmp true) ⟨⟩ _ (by decide)⟩

/-! ### Earlier passes -/

/-- The records of `mem` are in order over every gap of the passes `ps`. -/
def Ordered (le : List UInt8 → List UInt8 → Prop) (nel width : Nat) (ps : List (Nat × Mem))
    (mem : Mem) : Prop :=
  ∀ p ∈ ps, ∃ h, p.1 = h * width ∧ GapSorted le h nel (record mem width)

/-- Every pass in the list left the array in order over its own gap and the gaps before it. -/
def Kept (le : List UInt8 → List UInt8 → Prop) (nel width : Nat) : List (Nat × Mem) → Prop
  | [] => True
  | p :: ps => Ordered le nel width (p :: ps) p.2 ∧ Kept le nel width ps

theorem Kept.append {le : List UInt8 → List UInt8 → Prop} {p : Nat × Mem} {post pre}
    (h : Kept le nel width (post ++ p :: pre)) : Ordered le nel width (p :: pre) p.2 := by
  induction post with
  | nil => exact h.1
  | cons q post ih => exact ih h.2

/-- **One pass** orders the array over its own gap and keeps it in order over the others. -/
theorem Ordered.sweep {le : List UInt8 → List UInt8 → Prop} {T : Set (List UInt8)} {g : Nat}
    {comp : Comparator σ} {s t : Machine σ} {ps : List (Nat × Mem)}
    (h : Ordered le nel width ps s.mem) (ho : OrdersBy comp width T le)
    (hT : Within T nel width s) (hmoved : Moved nel width g s t)
    (hsorted : GapSorted le g nel (record t.mem width)) :
    Ordered le nel width ((g * width, t.mem) :: ps) t.mem := by
  intro p hp
  rcases List.mem_cons.mp hp with rfl | hp
  · exact ⟨g, rfl, hsorted⟩
  · obtain ⟨k, hk, hf⟩ := h p hp
    refine ⟨k, hk, hf.of_gapPerm hmoved.perm hsorted (fun i hi => ?_) fun i j l hi hj hl => ?_⟩
    · exact (ho.total _ (hT i hi) _ (hT i hi)).elim id id
    · exact ho.trans _ (hT i hi) _ (hT j hj) _ (hT l hl)

/-- **Later passes never undo earlier ones.** -/
theorem uclibcQsort_keeps {f : List UInt8 → List UInt8 → Int} (hsize : nel * width ≤ sizeMax)
    (htotal : ∀ x y, x.length = width → y.length = width → f x y ≤ 0 ∨ f y x ≤ 0)
    (htrans : ∀ x y z, x.length = width → y.length = width → z.length = width →
      f x y ≤ 0 → f y z ≤ 0 → f x z ≤ 0)
    (mem : Mem) (hfuel : nel * width < fuel) :
    Ends (uclibcQsort fuel nel width (ofRecords width f)) (start mem ⟨⟩) fun _ s' =>
      ∀ post p pre, s'.passes = post ++ p :: pre → ∀ p' ∈ p :: pre, ∃ h, p'.1 = h * width ∧
        ∀ i, i + h < nel → f (record p.2 width i) (record p.2 width (i + h)) ≤ 0 := by
  rw [sizeMax] at hsize
  have ho := ordersBy_ofRecords htotal htrans
  have hlen (s : Machine PUnit) : Within {x | x.length = width} nel width s :=
    fun i _ => record_length s.mem width i
  by_cases hsmall : nel > 1 ∧ width > 0
  · refine (uclibcQsort_ends (fun _ s' => Ordered (fun x y => f x y ≤ 0) nel width s'.passes s'.mem ∧
      Kept (fun x y => f x y ≤ 0) nel width s'.passes) hsmall.1 hsmall.2 (by omega) hfuel
      ?_ ?_).mono ?_
    · intro m s' hc hm
      rw [hc.passes]
      exact ⟨fun p hp => absurd hp List.not_mem_nil, trivial⟩
    · intro m s₀ hgn hex
      obtain ⟨hordered, hkept⟩ := hex
      refine (sweep_ends hsmall.2 (gapSeq_pos m) hgn (by omega) hfuel).mono ?_
      intro _ t hex s' hc hm
      obtain ⟨hmoved, hsorted⟩ := hex
      have hordered' := hordered.sweep ho (hlen s₀) hmoved (hsorted _ _ ho (hlen s₀))
      rw [hc.passes, hm, hmoved.clean.passes]
      exact ⟨hordered', hordered', hkept⟩
    · intro _ s' hex post p pre heq
      obtain ⟨-, hkept⟩ := hex
      rw [heq] at hkept
      exact hkept.append
  · -- no pass is made
    simp only [uclibcQsort, if_neg hsmall]
    exact Ends.pure fun post p pre heq => absurd heq (by simp [start])

/-- Forty-one one-byte records, which make passes over the gaps 13, 4 and 1. -/
theorem uclibcQsort_keeps_bytes :
    Ends (uclibcQsort 42 41 1 (ofRecords 1 fun x y => (x.headD 0).toNat - (y.headD 0).toNat))
      (start (fun off => UInt8.ofNat (41 - off)) ⟨⟩) fun _ s' =>
        ∀ post p pre, s'.passes = post ++ p :: pre → ∀ p' ∈ p :: pre, ∃ h, p'.1 = h * 1 ∧
          ∀ i, i + h < 41 → (((record p.2 1 i).headD 0).toNat -
            ((record p.2 1 (i + h)).headD 0).toNat : Int) ≤ 0 :=
  uclibcQsort_keeps (by decide) (fun x y _ _ => by omega) (fun x y z _ _ _ => by omega) _ (by decide)

end Codelib.Qsort
