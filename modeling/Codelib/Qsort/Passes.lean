import Codelib.Qsort.Records

/-!
# Codelib.Qsort.Passes

The loops of `uclibc_qsort`, innermost first: sifting one record (`sift_ends`), one
pass (`sweep_ends`), the first gap (`gap_ends`). What holds from pass to pass is a
predicate with the number of passes that are left: `uclibcQsort_ends` is the rule for
the whole call, and `qsort_ends` its first use.

Each loop lemma says the same two things. With **any** comparator the loop ends, `Moved`
holds — the log stays clean, the records are rearranged, nothing behind the array
is written. And **if** the comparator is a total preorder on the records present
(`OrdersBy`), the loop establishes the `GapSorted` fact of
`Codelib.Core.GapSort` it is there for.
-/

namespace Codelib.Qsort

variable {σ : Type} {nel width g fuel : Nat} {s s' s'' : Machine σ} {comp : Comparator σ}

/-! ### What every loop keeps -/

/-- From `s` to `s'` the records were rearranged within their classes modulo `g`, and
nothing else happened. -/
structure Moved (nel width g : Nat) (s s' : Machine σ) : Prop where
  clean : Clean (nel * width) s s'
  perm : GapPerm g nel (record s.mem width) (record s'.mem width)
  behind : ∀ x, nel * width ≤ x → s'.mem x = s.mem x

theorem Moved.refl : Moved nel width g s s := ⟨.refl, .refl, fun _ _ => rfl⟩

theorem Moved.trans (h : Moved nel width g s s') (h' : Moved nel width g s' s'') :
    Moved nel width g s s'' :=
  ⟨h.clean.trans h'.clean, h.perm.trans h'.perm,
    fun x hx => (h'.behind x hx).trans (h.behind x hx)⟩

theorem Moved.of_clean (hc : Clean (nel * width) s s') (hm : s'.mem = s.mem) :
    Moved nel width g s s' :=
  ⟨hc, by rw [hm]; exact .refl, fun _ _ => by rw [hm]⟩

theorem Moved.swap {p : Nat} (hp : p + g < nel) (hc : Clean (nel * width) s s')
    (hm : s'.mem = swapBlocks s.mem (p * width) ((p + g) * width) width) :
    Moved nel width g s s' :=
  ⟨hc, by rw [hm, record_swapBlocks]; exact .swap hp,
    fun x hx => by rw [hm, swapBlocks_behind s.mem (by omega) hp hx]⟩

/-- On the records in `T` the comparator answers `≤ 0` exactly by the total preorder
`le`, whatever its state, the rest of memory and the places of the records are. -/
structure OrdersBy (comp : Comparator σ) (width : Nat) (T : Set (List UInt8))
    (le : List UInt8 → List UInt8 → Prop) : Prop where
  agrees : ∀ st mem a b, bytesAt mem a width ∈ T → bytesAt mem b width ∈ T →
    ((comp st mem a b).1 ≤ 0 ↔ le (bytesAt mem a width) (bytesAt mem b width))
  total : ∀ x ∈ T, ∀ y ∈ T, le x y ∨ le y x
  trans : ∀ x ∈ T, ∀ y ∈ T, ∀ z ∈ T, le x y → le y z → le x z

/-- The records of the array are in `T`. -/
def Within (T : Set (List UInt8)) (nel width : Nat) (s : Machine σ) : Prop :=
  ∀ i < nel, record s.mem width i ∈ T

theorem Within.of_perm {T : Set (List UInt8)} (h : Within T nel width s)
    (hp : GapPerm g nel (record s.mem width) (record s'.mem width)) : Within T nel width s' := by
  intro i hi
  obtain ⟨j, hj, heq⟩ := hp.exists_lt hi
  rw [heq]
  exact h j hj

/-! ### Sifting one record -/

/-- The comparison of records `p` and `p + g`. -/
theorem OrdersBy.le_iff {T : Set (List UInt8)} {le : List UInt8 → List UInt8 → Prop}
    (ho : OrdersBy comp width T le) (hT : Within T nel width s) {p q : Nat} (hp : p < nel)
    (hq : q < nel) : (comp s.cmpState s.mem (p * width) (q * width)).1 ≤ 0 ↔
      le (record s.mem width p) (record s.mem width q) :=
  ho.agrees _ _ _ _ (hT p hp) (hT q hq)

theorem OrdersBy.le_iff_of_mem {T : Set (List UInt8)} {le : List UInt8 → List UInt8 → Prop}
    (ho : OrdersBy comp width T le) (hT : Within T nel width s) (hmem : s'.mem = s.mem) {p q : Nat}
    (hp : p < nel) (hq : q < nel) : (comp s'.cmpState s'.mem (p * width) (q * width)).1 ≤ 0 ↔
      le (record s.mem width p) (record s.mem width q) := by
  have hT' : Within T nel width s' := hT.of_perm (g := 1) (hmem ▸ GapPerm.refl)
  rw [← hmem]
  exact ho.le_iff hT' hp hq

/-- In `s'` the record `I` of `s` has been sifted down to `q`, and is out of order there at most. -/
structure Sifted (comp : Comparator σ) (nel width g I : Nat) (s : Machine σ) (q : Nat)
    (s' : Machine σ) : Prop where
  moved : Moved nel width g s s'
  sorted : ∀ T le, OrdersBy comp width T le → Within T nel width s →
    GapSorted le g I (record s.mem width) → GapSortedExcept le g (I + 1) q (record s'.mem width)

/-- The record is swapped with the one below, as the comparator wants it. -/
theorem Sifted.swap {I p : Nat} (h : Sifted comp nel width g I s (p + g) s') (hg : 0 < g)
    (hp : p < nel) (hpg : p + g < nel) (hc : Clean (nel * width) s' s'')
    (hm : s''.mem = swapBlocks s'.mem (p * width) ((p + g) * width) width) {s₂ : Machine σ}
    (hmem : s₂.mem = s'.mem)
    (hgt : ¬ (comp s₂.cmpState s₂.mem (p * width) ((p + g) * width)).1 ≤ 0) :
    Sifted comp nel width g I s p s'' where
  moved := h.moved.trans (.swap hpg hc hm)
  sorted := by
    intro T le ho hT hs
    have hT' := hT.of_perm h.moved.perm
    have hnot : ¬ le (record s'.mem width p) (record s'.mem width (p + g)) :=
      fun hle => hgt ((ho.le_iff_of_mem hT' hmem hp hpg).mpr hle)
    rw [hm, record_swapBlocks]
    exact (h.sorted T le ho hT hs).swap hg
      ((ho.total _ (hT' p hp) _ (hT' _ hpg)).resolve_left hnot)

theorem sift_ends {I : Nat} (hw : 0 < width) (hg : 0 < g) (hgI : g ≤ I) (hI : I < nel)
    (hbytes : nel * width < 2 ^ 64) (hfuel : nel * width < fuel) :
    Ends (loop (siftBody fuel comp width (g * width)) fuel (I * width)) s fun _ s' =>
      Moved nel width g s s' ∧ ∀ T le, OrdersBy comp width T le → Within T nel width s →
        GapSorted le g I (record s.mem width) → GapSorted le g (I + 1) (record s'.mem width) := by
  have hlt := record_end_le width hI
  have hgw : width ≤ g * width := Nat.le_mul_of_pos_left width hg
  have hwle : width ≤ nel * width := by omega
  -- the record being sifted is at `p + g`
  refine Ends.loop
    (fun j s' => ∃ p, j = (p + g) * width ∧ p + g ≤ I ∧ Sifted comp nel width g I s (p + g) s')
    (fun j _ => j) ?_ ⟨I - g, by rw [Nat.sub_add_cancel hgI], by omega, .refl,
      fun T le _ _ h => by rw [Nat.sub_add_cancel hgI]; exact h.except hg⟩ (by omega)
  intro j s₀ h
  obtain ⟨p, rfl, hpI, hsifted⟩ := h
  have hp : p < nel := by omega
  have hpg : p + g < nel := by omega
  have hpe := record_end_le width hp
  have hpge := record_end_le width hpg
  have hadd : (p + g) * width = p * width + g * width := Nat.add_mul p g width
  refine Ends.bind (ends_sub (nel * width) (by omega) (by omega) fun s₁ hc₁ hm₁ => ?_)
  rw [hadd, Nat.add_sub_cancel, ← hadd]
  refine Ends.bind (ends_add (nel * width) (by omega) fun s₂ hc₂ hm₂ => ?_)
  rw [← hadd]
  refine Ends.bind (ends_compare hpe hpge fun s₃ hc₃ hm₃ => ?_)
  have hquiet : Clean (nel * width) s₀ s₃ := (hc₁.trans hc₂).trans hc₃
  have hmem : s₃.mem = s₀.mem := hm₃.trans (hm₂.trans hm₁)
  have hmem₂ : s₂.mem = s₀.mem := hm₂.trans hm₁
  by_cases hle : (comp s₂.cmpState s₂.mem (p * width) ((p + g) * width)).1 ≤ 0
  · rw [if_pos hle]
    refine Ends.pure ⟨hsifted.moved.trans (.of_clean hquiet hmem), fun T le ho hT hs => ?_⟩
    have hT₀ := hT.of_perm hsifted.moved.perm
    rw [hmem]
    exact (hsifted.sorted T le ho hT hs).stop ((ho.le_iff_of_mem hT₀ hmem₂ hp hpg).mp hle)
  · rw [if_neg hle]
    refine Ends.bind ((swap_ends (nel * width) hw (by omega) hpge hbytes
      (by omega)).mono ?_)
    intro _ s₄ h
    obtain ⟨hc₄, hm₄⟩ := h
    rw [hmem] at hm₄
    have hsifted' := hsifted.swap hg hp hpg (hquiet.trans hc₄) hm₄ hmem₂ hle
    by_cases hmore : p * width ≥ g * width
    · rw [if_pos hmore]
      obtain ⟨q, rfl⟩ : ∃ q, p = q + g :=
        ⟨p - g, (Nat.sub_add_cancel (Nat.le_of_mul_le_mul_right hmore hw)).symm⟩
      exact Ends.pure ⟨⟨q, rfl, by omega, hsifted'⟩, by omega⟩
    · rw [if_neg hmore]
      have hbot : p < g := by
        by_contra hge
        exact hmore (Nat.mul_le_mul_right width (Nat.le_of_not_lt hge))
      exact Ends.pure ⟨hsifted'.moved, fun T le ho hT hs =>
        (hsifted'.sorted T le ho hT hs).bottom hbot⟩

/-! ### One pass -/

theorem sweep_ends (hw : 0 < width) (hg : 0 < g) (hgn : g < nel)
    (hbytes : nel * width < 2 ^ 64) (hfuel : nel * width < fuel) :
    Ends (loop (sweepBody fuel comp (nel * width) width (g * width)) fuel (g * width)) s fun _ s' =>
      Moved nel width g s s' ∧ ∀ T le, OrdersBy comp width T le → Within T nel width s →
        GapSorted le g nel (record s'.mem width) := by
  have hge := record_end_le width hgn
  -- the records before `i` are in order already
  refine Ends.loop
    (fun i s' => ∃ I, i = I * width ∧ g ≤ I ∧ I < nel ∧ Moved nel width g s s' ∧
      ∀ T le, OrdersBy comp width T le → Within T nel width s →
        GapSorted le g I (record s'.mem width))
    (fun i _ => nel * width - i) ?_
    ⟨g, rfl, Nat.le_refl g, hgn, .refl, fun _ _ _ _ => .of_le_gap (Nat.le_refl g)⟩ (by omega)
  intro i s₀ h
  obtain ⟨I, rfl, hgI, hI, hmoved, hsorted⟩ := h
  have hIe := record_end_le width hI
  refine Ends.bind ((sift_ends hw hg hgI hI hbytes hfuel).mono ?_)
  intro _ s₁ h
  obtain ⟨hmoved₁, hsorted₁⟩ := h
  have hall : Moved nel width g s s₁ := hmoved.trans hmoved₁
  have hsucc : I * width + width = (I + 1) * width := (Nat.succ_mul I width).symm
  refine Ends.bind (ends_add (nel * width) (by omega) fun s₂ hc₂ hm₂ => ?_)
  have hmoved₂ : Moved nel width g s s₂ := hall.trans (.of_clean hc₂ hm₂)
  have hsorted₂ : ∀ T le, OrdersBy comp width T le → Within T nel width s →
      GapSorted le g (I + 1) (record s₂.mem width) := by
    intro T le ho hT
    rw [hm₂]
    exact hsorted₁ T le ho (hT.of_perm hmoved.perm) (hsorted T le ho hT)
  by_cases hmore : I * width + width < nel * width
  · rw [if_pos hmore]
    have hI' : I + 1 < nel := Nat.lt_of_mul_lt_mul_right (hsucc ▸ hmore)
    exact Ends.pure ⟨⟨I + 1, hsucc, by omega, hI', hmoved₂, hsorted₂⟩, by omega⟩
  · rw [if_neg hmore]
    have hlast : I + 1 = nel := by
      by_contra hne
      have := record_end_le width (show I + 1 < nel by omega)
      omega
    exact Ends.pure ⟨hmoved₂, fun T le ho hT => hlast ▸ hsorted₂ T le ho hT⟩

/-! ### The gaps -/

/-- The gap sequence, counted from its end: 0, 1, 4, 13, 40, … -/
def gapSeq : Nat → Nat
  | 0 => 0
  | m + 1 => 3 * gapSeq m + 1

theorem gapSeq_pos (m : Nat) : 0 < gapSeq (m + 1) := Nat.succ_pos _

theorem gapSeq_lt_succ (m : Nat) : gapSeq m < gapSeq (m + 1) := by
  simp only [gapSeq]
  omega

/-- A byte gap, one record less, is three times the next one. -/
theorem gapSeq_mul_sub (m width : Nat) :
    gapSeq (m + 1) * width - width = 3 * (gapSeq m * width) := by
  rw [gapSeq, Nat.succ_mul, Nat.add_sub_cancel, Nat.mul_assoc]

/-- The gap after which there is another one. -/
theorem exists_succ_of_gap {m : Nat} (h : gapSeq m * width ≠ 0) : ∃ k, m = k + 1 := by
  cases m with
  | zero => exact absurd (Nat.zero_mul width) h
  | succ k => exact ⟨k, rfl⟩

/-- The first gap is an element of the sequence, below `nel`. -/
theorem gap_ends (hn : 1 < nel) (hlt : nel < 2 ^ 64) (bytes : Nat) (hfuel : nel < fuel) :
    Ends (loop (gapBody nel) fuel 0) s fun wgap s' =>
      Clean bytes s s' ∧ s'.mem = s.mem ∧ ∃ m, wgap = gapSeq (m + 1) ∧ wgap < nel := by
  refine Ends.loop
    (fun wgap s' => Clean bytes s s' ∧ s'.mem = s.mem ∧ (wgap = 0 ∨ wgap < (nel - 1) / 3) ∧
      ∃ m, wgap = gapSeq m)
    (fun wgap _ => nel - wgap) ?_ ⟨.refl, rfl, .inl rfl, 0, rfl⟩ (by omega)
  intro wgap s₀ h
  obtain ⟨hc, hm, hsmall, m, hseq⟩ := h
  have hnext : 3 * wgap + 1 < nel := by omega
  refine Ends.bind (ends_mul bytes (by omega) fun s₁ hc₁ hm₁ => ?_)
  refine Ends.bind (ends_add bytes (by omega) fun s₂ hc₂ hm₂ => ?_)
  refine Ends.bind (ends_sub bytes (by omega) hlt fun s₃ hc₃ hm₃ => ?_)
  have hclean : Clean bytes s s₃ := ((hc.trans hc₁).trans hc₂).trans hc₃
  have hmem : s₃.mem = s.mem := hm₃.trans (hm₂.trans (hm₁.trans hm))
  have hseq' : 3 * wgap + 1 = gapSeq (m + 1) := by rw [gapSeq, hseq]
  by_cases hmore : 3 * wgap + 1 < (nel - 1) / 3
  · rw [if_pos hmore]
    exact Ends.pure ⟨⟨hclean, hmem, .inr hmore, m + 1, hseq'⟩, by omega⟩
  · rw [if_neg hmore]
    exact Ends.pure ⟨hclean, hmem, m, hseq', hnext⟩

/-! ### All passes -/

/-- A byte gap a pass may have. -/
def GoodGap (nel width wgap : Nat) : Prop := width ∣ wgap ∧ 0 < wgap ∧ wgap < nel * width

theorem goodGap_mul (hw : 0 < width) (hg : 0 < g) (hgn : g < nel) :
    GoodGap nel width (g * width) :=
  ⟨Nat.dvd_mul_left width g, Nat.mul_pos hg hw, Nat.mul_lt_mul_of_pos_right hgn hw⟩

/-- What holds between the passes: the log is clean, the records are rearranged, nothing
behind the array is written, and the passes so far had good gaps. -/
structure Sorting (nel width : Nat) (s s' : Machine σ) : Prop where
  log : LogOk (nel * width) s → LogOk (nel * width) s'
  perm : GapPerm 1 nel (record s.mem width) (record s'.mem width)
  behind : ∀ x, nel * width ≤ x → s'.mem x = s.mem x
  gaps : ∀ p ∈ s'.passes, p ∈ s.passes ∨ GoodGap nel width p.1

theorem Sorting.of_clean (hc : Clean (nel * width) s s') (hm : s'.mem = s.mem) :
    Sorting nel width s s' where
  log := hc.log
  perm := by rw [hm]; exact .refl
  behind _ _ := by rw [hm]
  gaps p hp := .inl (hc.passes ▸ hp)

/-- One more pass, and quiet steps after it. -/
theorem Sorting.pass {wgap : Nat} {t t' : Machine σ} (h : Sorting nel width s s')
    (hp : Moved nel width g s' t) (hgap : GoodGap nel width wgap)
    (hc : Clean (nel * width) { t with passes := (wgap, t.mem) :: t.passes } t')
    (hm : t'.mem = t.mem) : Sorting nel width s t' where
  log hl := hc.log (hp.clean.log (h.log hl))
  perm := hm ▸ h.perm.trans hp.perm.to_one
  behind x hx := by rw [hm, hp.behind x hx, h.behind x hx]
  gaps p hmem := by
    rw [hc.passes] at hmem
    rcases List.mem_cons.mp hmem with rfl | hmem
    · exact .inr hgap
    · rw [hp.clean.passes] at hmem
      exact h.gaps p hmem

/-- **The rule for the passes.** `inv m` holds while `m` passes are left; a pass is the sweep,
the note of its end and quiet steps. -/
theorem passes_ends (inv : Nat → Machine σ → Prop) {m : Nat} (hw : 0 < width)
    (hbytes : nel * width < 2 ^ 64) (hfuel : nel * width < fuel)
    (hpass : ∀ m s, gapSeq (m + 1) < nel → inv (m + 1) s →
      Ends (loop (sweepBody fuel comp (nel * width) width (gapSeq (m + 1) * width)) fuel
          (gapSeq (m + 1) * width)) s fun _ t => ∀ s',
        Clean (nel * width) { t with passes := (gapSeq (m + 1) * width, t.mem) :: t.passes } s' →
          s'.mem = t.mem → inv m s')
    (hgn : gapSeq (m + 1) < nel) (hinv : inv (m + 1) s) :
    Ends (loop (passBody fuel comp (nel * width) width) fuel (gapSeq (m + 1) * width)) s
      fun _ s' => inv 0 s' := by
  have hge := record_end_le width hgn
  refine Ends.loop
    (fun wgap s' => ∃ m, wgap = gapSeq (m + 1) * width ∧ gapSeq (m + 1) < nel ∧ inv (m + 1) s')
    (fun wgap _ => wgap) ?_ ⟨m, rfl, hgn, hinv⟩ (by omega)
  intro wgap s₀ h
  obtain ⟨m, rfl, hgn, hinv⟩ := h
  have hge := record_end_le width hgn
  have hgw : width ≤ gapSeq (m + 1) * width := Nat.le_mul_of_pos_left width (gapSeq_pos m)
  refine Ends.bind ((hpass m s₀ hgn hinv).mono fun _ s₁ hnext => ?_)
  refine Ends.bind ⟨⟨⟩, { s₁ with passes := (_, s₁.mem) :: s₁.passes }, rfl, ?_⟩
  refine Ends.bind (ends_sub (nel * width) hgw (by omega) fun s₂ hc₂ hm₂ => ?_)
  rw [gapSeq_mul_sub]
  refine Ends.bind (ends_divThree (nel * width) fun s₃ hc₃ hm₃ => ?_)
  have hinv' : inv m s₃ := hnext s₃ (hc₂.trans hc₃) (hm₃.trans hm₂)
  by_cases hmore : gapSeq m * width ≠ 0
  · rw [if_pos hmore]
    obtain ⟨m, rfl⟩ := exists_succ_of_gap hmore
    exact Ends.pure ⟨⟨m, rfl, Nat.lt_trans (gapSeq_lt_succ (m + 1)) hgn, hinv'⟩,
      Nat.mul_lt_mul_of_pos_right (gapSeq_lt_succ (m + 1)) hw⟩
  · rw [if_neg hmore]
    -- the gap of this pass was 1
    obtain rfl : m = 0 := by
      cases m with
      | zero => rfl
      | succ m => exact absurd (Nat.mul_pos (gapSeq_pos m) hw) (by omega)
    exact Ends.pure hinv'

/-! ### The whole call -/

/-- The size check of `uclibc_qsort` passes if the array fits into memory. -/
theorem nel_le_sizeMax_div (hw : 0 < width) (hbytes : nel * width < 2 ^ 64) :
    nel ≤ sizeMax / width := by
  rw [Nat.le_div_iff_mul_le hw, sizeMax]
  omega

/-- **The rule for `uclibc_qsort`**, on an array of two records or more: what holds of the
array as it is given, however many passes are left, and is kept by every pass. -/
theorem uclibcQsort_ends (inv : Nat → Machine σ → Prop) {mem : Mem} {st : σ} (hn : 1 < nel)
    (hw : 0 < width) (hbytes : nel * width < 2 ^ 64) (hfuel : nel * width < fuel)
    (hstart : ∀ m s', Clean (nel * width) (start mem st) s' → s'.mem = mem → inv (m + 1) s')
    (hpass : ∀ m s, gapSeq (m + 1) < nel → inv (m + 1) s →
      Ends (loop (sweepBody fuel comp (nel * width) width (gapSeq (m + 1) * width)) fuel
          (gapSeq (m + 1) * width)) s fun _ t => ∀ s',
        Clean (nel * width) { t with passes := (gapSeq (m + 1) * width, t.mem) :: t.passes } s' →
          s'.mem = t.mem → inv m s') :
    Ends (uclibcQsort fuel nel width comp) (start mem st) fun _ s' => inv 0 s' := by
  have hnel : nel ≤ nel * width := Nat.le_mul_of_pos_right nel hw
  simp only [uclibcQsort, if_pos (show nel > 1 ∧ width > 0 from ⟨hn, hw⟩),
    if_pos (nel_le_sizeMax_div hw hbytes)]
  refine Ends.bind ((gap_ends hn (by omega) (nel * width) (by omega)).mono ?_)
  intro wgap s₁ h
  obtain ⟨hc₁, hm₁, m, rfl, hgn⟩ := h
  have hgap := Nat.mul_lt_mul_of_pos_right hgn hw
  refine Ends.bind (ends_mul (nel * width) (by omega) fun s₂ hc₂ hm₂ => ?_)
  refine Ends.bind (ends_mul (nel * width) hbytes fun s₃ hc₃ hm₃ => ?_)
  exact passes_ends inv hw hbytes hfuel hpass hgn
    (hstart m s₃ ((hc₁.trans hc₂).trans hc₃) (hm₃.trans (hm₂.trans hm₁)))

/-- **`uclibc_qsort` with any comparator**, on an array of two records or more. The last pass
has gap one record. -/
theorem qsort_ends {mem : Mem} {st : σ} (hn : 1 < nel) (hw : 0 < width)
    (hbytes : nel * width < 2 ^ 64) (hfuel : nel * width < fuel) :
    Ends (uclibcQsort fuel nel width comp) (start mem st) fun _ s' =>
      Sorting nel width (start mem st) s' ∧ s'.passes.head?.map Prod.fst = some width ∧
        ∀ T le, OrdersBy comp width T le → Within T nel width (start mem st) →
          GapSorted le 1 nel (record s'.mem width) := by
  refine (uclibcQsort_ends (fun m s' => Sorting nel width (start mem st) s' ∧
    (m = 0 → s'.passes.head?.map Prod.fst = some width ∧
      ∀ T le, OrdersBy comp width T le → Within T nel width (start mem st) →
        GapSorted le 1 nel (record s'.mem width))) hn hw hbytes hfuel ?_ ?_).mono ?_
  · intro m s' hc hm
    exact ⟨.of_clean hc hm, nofun⟩
  · intro m s₀ hgn h
    obtain ⟨hsorting, -⟩ := h
    refine (sweep_ends hw (gapSeq_pos m) hgn hbytes hfuel).mono ?_
    intro _ t h s' hc hm
    obtain ⟨hmoved, hsorted⟩ := h
    refine ⟨hsorting.pass hmoved (goodGap_mul hw (gapSeq_pos m) hgn) hc hm, ?_⟩
    intro heq
    obtain rfl := heq
    have hone : gapSeq (0 + 1) = 1 := rfl
    rw [hone, Nat.one_mul] at hc
    refine ⟨by rw [hc.passes]; rfl, fun T le ho hT => ?_⟩
    rw [hm]
    exact hsorted T le ho (hT.of_perm hsorting.perm)
  · intro _ s' h
    obtain ⟨hsorting, hlast⟩ := h
    exact ⟨hsorting, hlast rfl⟩

/-- **`uclibc_qsort` with a total preorder** on the records that are there, on any array. -/
theorem sorts_ends {T : Set (List UInt8)} {le : List UInt8 → List UInt8 → Prop} {mem : Mem}
    {st : σ} (ho : OrdersBy comp width T le) (hT : Within T nel width (start mem st))
    (hw : 0 < width) (hbytes : nel * width < 2 ^ 64) (hfuel : nel * width < fuel) :
    Ends (uclibcQsort fuel nel width comp) (start mem st) fun _ s' =>
      (records s'.mem nel width).Perm (records mem nel width) ∧
        (∀ x, nel * width ≤ x → s'.mem x = mem x) ∧
        ∀ i j, i ≤ j → j < nel → le (record s'.mem width i) (record s'.mem width j) := by
  have hrefl : ∀ x ∈ T, le x x := fun x hx => (ho.total x hx x hx).elim id id
  by_cases hn : 1 < nel
  · refine (qsort_ends hn hw hbytes hfuel).mono ?_
    intro _ s' hp
    obtain ⟨hsorting, -, hsorted⟩ := hp
    have hT' : Within T nel width s' := hT.of_perm hsorting.perm
    exact ⟨hsorting.perm.perm, hsorting.behind, (hsorted T le ho hT).sorted
      (fun i hi => hrefl _ (hT' i hi))
      (fun i j k hi hj hk => ho.trans _ (hT' i hi) _ (hT' j hj) _ (hT' k hk))⟩
  · -- nothing to do
    simp only [uclibcQsort, if_neg (show ¬ (nel > 1 ∧ width > 0) from fun h => hn h.1)]
    refine Ends.pure ⟨List.Perm.refl _, fun _ _ => rfl, fun i j hij hj => ?_⟩
    obtain rfl : i = j := by omega
    exact hrefl _ (hT i hj)

end Codelib.Qsort
