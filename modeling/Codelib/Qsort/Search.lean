import Codelib.Qsort.Circle
import Codelib.Qsort.Passes

/-!
# Codelib.Qsort.Search

**Searching what `uclibc_qsort` has sorted**, with the comparator the file compiles
(`sort_then_search`). The comparator is an order on an arc of half the circle, so a
table whose values lie on one is sorted and searched correctly. On any other set of
values there is a table, already in order for the comparator, in which one of its own
records is not found.

`bsearch_ends` is the rule for the search: a relation between the ends of the window
that every comparison keeps.
-/

namespace Codelib.Qsort

variable {σ : Type} {nel width g fuel : Nat} {s : Machine σ} {comp : Comparator σ}

/-! ### The search -/

/-- `while (l < u) { … }` -/
def bsearchBody (comp : Comparator σ) (key width : Nat) (v : Nat × Nat) :
    M σ ((Nat × Nat) ⊕ Option Nat) := do
  let (l, u) := v
  if l < u then
    let idx := (← add l u) / 2
    let p ← mul idx width
    let comparison ← compare comp width key p
    if comparison < 0 then
      pure (.inl (l, idx))
    else if comparison > 0 then
      pure (.inl (← add idx 1, u))
    else
      pure (.inr (some p))
  else
    pure (.inr none)

/-- `bsearch(key, base, nel, width, comp)`; `none` is a null pointer. -/
def bsearch (fuel key nel width : Nat) (comp : Comparator σ) : M σ (Option Nat) :=
  loop (bsearchBody comp key width) fuel (0, nel)

/-- What `main` does: sort, then look for the four bytes at `key`. -/
def sortThenSearch (fuel key nel : Nat) : M PUnit (Option Nat) := do
  uclibcQsort fuel nel 4 (cmp true)
  bsearch fuel key nel 4 (cmp true)

/-- **The rule for `bsearch`.** `W` holds of the window, and `c i` is what the comparator
says of the key and record `i`. -/
theorem bsearch_ends {W : Nat → Nat → Prop} {c : Nat → Int} {Q : Option Nat → Prop} {key : Nat}
    (hc : ∀ st i, i < nel → (comp st s.mem key (i * width)).1 = c i) (hW : W 0 nel)
    (hless : ∀ l u, l < u → u ≤ nel → W l u → c ((l + u) / 2) < 0 → W l ((l + u) / 2))
    (hmore : ∀ l u, l < u → u ≤ nel → W l u → 0 < c ((l + u) / 2) → W ((l + u) / 2 + 1) u)
    (hfound : ∀ l u, l < u → u ≤ nel → W l u → c ((l + u) / 2) = 0 →
      Q (some ((l + u) / 2 * width)))
    (hnone : ∀ l, W l l → Q none) (hw : 0 < width) (hsum : 2 * nel < 2 ^ 64)
    (hbytes : nel * width < 2 ^ 64) (hfuel : nel < fuel) :
    Ends (bsearch fuel key nel width comp) s fun r s' => s'.mem = s.mem ∧ Q r := by
  refine Ends.loop (fun v s' => s'.mem = s.mem ∧ v.1 ≤ v.2 ∧ v.2 ≤ nel ∧ W v.1 v.2)
    (fun v _ => v.2 - v.1) ?_ ⟨rfl, Nat.zero_le _, Nat.le_refl _, hW⟩ (by simpa using hfuel)
  intro v s₀ hp
  obtain ⟨l, u⟩ := v
  obtain ⟨hmem, hlu, hu, hwin⟩ := hp
  simp only at hlu hu hwin
  unfold bsearchBody
  dsimp only
  by_cases hlt : l < u
  case neg =>
    rw [if_neg hlt]
    obtain rfl : l = u := by omega
    exact Ends.pure ⟨hmem, hnone l hwin⟩
  rw [if_pos hlt]
  -- nothing depends on which bytes are touched
  let bytes := key + width + nel * width
  refine Ends.bind (ends_add bytes (by omega) fun s₁ _ hm₁ => ?_)
  have hidx : (l + u) / 2 < nel := by omega
  have hend := record_end_le width hidx
  refine Ends.bind (ends_mul bytes (by omega) fun s₂ _ hm₂ => ?_)
  refine Ends.bind (ends_compare (show key + width ≤ bytes by omega)
    (show (l + u) / 2 * width + width ≤ bytes by omega) fun s₃ _ hm₃ => ?_)
  have hmem₃ : s₃.mem = s.mem := by rw [hm₃, hm₂, hm₁, hmem]
  rw [show s₂.mem = s.mem by rw [hm₂, hm₁, hmem], hc _ _ hidx]
  by_cases hneg : c ((l + u) / 2) < 0
  · rw [if_pos hneg]
    exact Ends.pure ⟨⟨hmem₃, by omega, by omega, hless l u hlt hu hwin hneg⟩, by simp only; omega⟩
  rw [if_neg hneg]
  by_cases hpos : 0 < c ((l + u) / 2)
  · rw [if_pos hpos]
    refine Ends.bind (ends_add bytes (by omega) fun s₄ _ hm₄ => ?_)
    exact Ends.pure ⟨⟨hm₄.trans hmem₃, by omega, hu, hmore l u hlt hu hwin hpos⟩,
      by simp only; omega⟩
  · rw [if_neg hpos]
    exact Ends.pure ⟨hmem₃, hfound l u hlt hu hwin (by omega)⟩

/-! ### A table that is in order already -/

/-- The comparator has nothing to say against two records `g` apart. -/
def Quiet (comp : Comparator σ) (mem : Mem) (nel width g : Nat) : Prop :=
  ∀ st p, p + g < nel → (comp st mem (p * width) ((p + g) * width)).1 ≤ 0

theorem sift_still {I : Nat} (hq : Quiet comp s.mem nel width g) (hgI : g ≤ I) (hI : I < nel)
    (hbytes : nel * width < 2 ^ 64) (hfuel : 0 < fuel) :
    Ends (loop (siftBody fuel comp width (g * width)) fuel (I * width)) s
      fun _ s' => s'.mem = s.mem := by
  obtain ⟨p, rfl⟩ : ∃ p, I = p + g := ⟨I - g, by omega⟩
  have hpe := record_end_le width (show p < nel by omega)
  have hpge := record_end_le width hI
  have hadd : (p + g) * width = p * width + g * width := Nat.add_mul p g width
  -- the loop is left in its first round
  refine Ends.loop (fun j s' => j = (p + g) * width ∧ s'.mem = s.mem) (fun _ _ => 0) ?_ ⟨rfl, rfl⟩
    hfuel
  intro j s₀ h
  obtain ⟨rfl, hm₀⟩ := h
  refine Ends.bind (ends_sub (nel * width) (by omega) (by omega) fun s₁ _ hm₁ => ?_)
  rw [hadd, Nat.add_sub_cancel]
  refine Ends.bind (ends_add (nel * width) (by omega) fun s₂ _ hm₂ => ?_)
  refine Ends.bind (ends_compare hpe (hadd ▸ hpge) fun s₃ _ hm₃ => ?_)
  have hmem : s₂.mem = s.mem := by rw [hm₂, hm₁, hm₀]
  rw [if_pos (by rw [hmem, ← hadd]; exact hq _ p hI)]
  exact Ends.pure (hm₃.trans hmem)

theorem sweep_still (hq : Quiet comp s.mem nel width g) (hgn : g < nel)
    (hbytes : nel * width < 2 ^ 64) (hfuel : nel * width < fuel) :
    Ends (loop (sweepBody fuel comp (nel * width) width (g * width)) fuel (g * width)) s
      fun _ s' => s'.mem = s.mem := by
  have hge := record_end_le width hgn
  refine Ends.loop (fun i s' => ∃ I, i = I * width ∧ g ≤ I ∧ I < nel ∧ s'.mem = s.mem)
    (fun i _ => nel * width - i) ?_ ⟨g, rfl, Nat.le_refl g, hgn, rfl⟩ (by omega)
  intro i s₀ h
  obtain ⟨I, rfl, hgI, hI, hm₀⟩ := h
  have hIe := record_end_le width hI
  refine Ends.bind ((sift_still (hm₀ ▸ hq) hgI hI hbytes (by omega)).mono fun _ s₁ hm₁ => ?_)
  refine Ends.bind (ends_add (nel * width) (by omega) fun s₂ _ hm₂ => ?_)
  have hmem : s₂.mem = s.mem := by rw [hm₂, hm₁, hm₀]
  by_cases hmore : I * width + width < nel * width
  · rw [if_pos hmore]
    have hsucc : I * width + width = (I + 1) * width := (Nat.succ_mul I width).symm
    have hI' : I + 1 < nel := Nat.lt_of_mul_lt_mul_right (hsucc ▸ hmore)
    have hw : 0 < width := Nat.pos_of_ne_zero (by rintro rfl; simp at hmore)
    exact Ends.pure ⟨⟨I + 1, hsucc, by omega, hI', hmem⟩, by omega⟩
  · rw [if_neg hmore]
    exact Ends.pure hmem

/-- **A table that is in order for every gap is left as it is.** -/
theorem qsort_still {mem : Mem} {st : σ} (hn : 1 < nel) (hw : 0 < width)
    (hbytes : nel * width < 2 ^ 64) (hfuel : nel * width < fuel)
    (hq : ∀ m, gapSeq (m + 1) < nel → Quiet comp mem nel width (gapSeq (m + 1))) :
    Ends (uclibcQsort fuel nel width comp) (start mem st) fun _ s' => s'.mem = mem := by
  refine uclibcQsort_ends (fun _ s' => s'.mem = mem) hn hw hbytes hfuel
    (fun _ _ _ hm => hm) fun m s₀ hgn hm₀ => ?_
  exact (sweep_still (hm₀ ▸ hq m hgn) hgn hbytes hfuel).mono
    fun _ t hm₁ s' _ hm₂ => hm₂.trans (hm₁.trans hm₀)

/-! ### Four-byte records -/

section Values

variable {mem : Mem} {c p q i : Nat}

/-- A record, read as an `unsigned int`. -/
def value (r : List UInt8) : Nat := r.foldr (fun b n => b.toNat + 2 ^ 8 * n) 0

theorem readUInt_lt (mem : Mem) (p : Nat) : readUInt mem p < 2 ^ 32 := by
  have h₀ := (mem p).toNat_lt
  have h₁ := (mem (p + 1)).toNat_lt
  have h₂ := (mem (p + 2)).toNat_lt
  have h₃ := (mem (p + 3)).toNat_lt
  unfold readUInt
  omega

theorem cmp_true {st : PUnit} :
    (cmp true st mem p q).1 = toInt (ahead (readUInt mem q) (readUInt mem p)) :=
  rfl

theorem bytesAt_four (mem : Mem) (p : Nat) :
    bytesAt mem p 4 = [mem p, mem (p + 1), mem (p + 2), mem (p + 3)] := rfl

theorem value_bytesAt (mem : Mem) (p : Nat) : value (bytesAt mem p 4) = readUInt mem p := by
  rw [bytesAt_four]
  simp only [value, List.foldr_cons, List.foldr_nil, readUInt]
  omega

/-- Records of one length are equal if their values are. -/
theorem value_inj : ∀ {x y : List UInt8}, x.length = y.length → value x = value y → x = y
  | [], [], _, _ => rfl
  | [], _ :: _, h, _ => absurd h (Nat.succ_ne_zero _).symm
  | _ :: _, [], h, _ => absurd h (Nat.succ_ne_zero _)
  | b :: x, c :: y, hlen, h => by
    have hb := b.toNat_lt
    have hc := c.toNat_lt
    change b.toNat + 2 ^ 8 * value x = c.toNat + 2 ^ 8 * value y at h
    rw [UInt8.toNat_inj.mp (show b.toNat = c.toNat by omega),
      value_inj (Nat.succ.inj hlen) (show value x = value y by omega)]

theorem bytesAt_inj : bytesAt mem p 4 = bytesAt mem q 4 ↔ readUInt mem p = readUInt mem q := by
  rw [← value_bytesAt, ← value_bytesAt]
  refine ⟨fun h => by rw [h], value_inj ?_⟩
  rw [bytesAt_length, bytesAt_length]

/-- On an arc, `cmp` orders the records. -/
theorem cmp_ordersBy (hc : c < 2 ^ 32) :
    OrdersBy (cmp true) 4 {r | value r < 2 ^ 32 ∧ ahead c (value r) < 2 ^ 31}
      (fun x y => ahead c (value x) ≤ ahead c (value y)) where
  agrees st mem a b ha hb := by
    obtain ⟨ha, hca⟩ := ha
    obtain ⟨hb, hcb⟩ := hb
    have hneg := toInt_ahead_neg_iff ha hb hc hca hcb
    have hzero := toInt_ahead_eq_zero_iff ha hb
    rw [← ahead_inj ha hb hc] at hzero
    rw [value_bytesAt, value_bytesAt] at *
    rw [cmp_true]
    omega
  total x _ y _ := Nat.le_total _ _
  trans x _ y _ z _ := Nat.le_trans

end Values

/-! ### Sorting and searching -/

/-- `nel` records fit into memory, the key is not one of them, and there is fuel. -/
structure Searchable (fuel key nel : Nat) : Prop where
  bytes : nel * 4 < 2 ^ 64
  key : nel * 4 ≤ key
  fuel : nel * 4 < fuel

/-- One of the records is the key. -/
def Member (key nel : Nat) (mem : Mem) : Prop := ∃ i < nel, record mem 4 i = bytesAt mem key 4

/-- A match is reported if and only if there is one. -/
def Finds (fuel key nel : Nat) (mem : Mem) : Prop :=
  Ends (sortThenSearch fuel key nel) (start mem ⟨⟩) fun found _ => found.isSome ↔ Member key nel mem

section Search

variable {key : Nat} {mem : Mem}

/-- The values of the table. -/
def values (mem : Mem) (nel : Nat) : Set Nat := {v | ∃ i < nel, v = readUInt mem (i * 4)}

theorem values_lt {v : Nat} (h : v ∈ values mem nel) : v < 2 ^ 32 := by
  obtain ⟨i, -, rfl⟩ := h
  exact readUInt_lt mem _

theorem mem_values {i : Nat} (hi : i < nel) : readUInt mem (i * 4) ∈ values mem nel := ⟨i, hi, rfl⟩

theorem mem_values_iff {v : Nat} : v ∈ values mem nel ↔ v ∈ (records mem nel 4).map value := by
  simp [values, records, record, value_bytesAt, eq_comm]

theorem member_iff : Member key nel mem ↔ readUInt mem key ∈ values mem nel := by
  refine exists_congr fun i => and_congr_right fun _ => ?_
  rw [record, bytesAt_inj]
  exact eq_comm

/-- What the sort leaves to the search. -/
theorem sorted_ends (h : Searchable fuel key nel) :
    Ends (uclibcQsort fuel nel 4 (cmp true)) (start mem ⟨⟩) fun _ s' =>
      values s'.mem nel = values mem nel ∧ readUInt s'.mem key = readUInt mem key ∧
        ∀ c, OnArc (values mem nel) c → ∀ i j, i ≤ j → j < nel →
          ahead c (readUInt s'.mem (i * 4)) ≤ ahead c (readUInt s'.mem (j * 4)) := by
  by_cases hn : 1 < nel
  · refine (qsort_ends hn (by decide) h.bytes h.fuel).mono ?_
    intro _ s' hp
    obtain ⟨hsorting, -, hsorted⟩ := hp
    refine ⟨?_, ?_, fun c harc i j hij hj => ?_⟩
    · ext v
      rw [mem_values_iff, mem_values_iff]
      exact (hsorting.perm.perm.map value).mem_iff
    · rw [← value_bytesAt, ← value_bytesAt]
      have hkey := h.key
      exact congrArg value (List.map_congr_left fun k _ => hsorting.behind (key + k) (by omega))
    · have hwithin : Within {r | value r < 2 ^ 32 ∧ ahead c (value r) < 2 ^ 31} nel 4
          (start mem PUnit.unit) := by
        intro i hi
        show value (bytesAt mem (i * 4) 4) < 2 ^ 32 ∧ ahead c (value (bytesAt mem (i * 4) 4)) < 2 ^ 31
        rw [value_bytesAt]
        exact ⟨readUInt_lt mem _, harc.2 _ (mem_values hi)⟩
      have hle := (hsorted _ _ (cmp_ordersBy harc.1) hwithin).sorted (fun i _ => Nat.le_refl _)
        (fun i j k _ _ _ => Nat.le_trans) i j hij hj
      rwa [record, record, value_bytesAt, value_bytesAt] at hle
  · simp only [uclibcQsort, if_neg (show ¬ (nel > 1 ∧ 4 > 0) from fun h => hn h.1)]
    refine Ends.pure ⟨rfl, rfl, fun c _ i j hij hj => ?_⟩
    obtain rfl : i = j := by omega
    exact Nat.le_refl _

/-- A match is a record, in any table. -/
theorem bsearch_sound (h : Searchable fuel key nel) {s : Machine PUnit} :
    Ends (bsearch fuel key nel 4 (cmp true)) s fun r s' =>
      s'.mem = s.mem ∧ (r.isSome → Member key nel s.mem) := by
  have := h.bytes
  have := h.fuel
  refine bsearch_ends (W := fun _ _ => True)
    (c := fun i => toInt (ahead (readUInt s.mem (i * 4)) (readUInt s.mem key)))
    (Q := fun r => r.isSome → Member key nel s.mem) (fun _ _ _ => rfl) trivial
    (fun _ _ _ _ _ _ => trivial) (fun _ _ _ _ _ _ => trivial)
    (fun l u hlt hu _ hzero _ => ?_) (by simp) (by decide) (by omega) h.bytes (by omega)
  refine ⟨(l + u) / 2, by omega, bytesAt_inj.mpr ?_⟩
  exact ((toInt_ahead_eq_zero_iff (readUInt_lt ..) (readUInt_lt ..)).mp hzero).symm

/-- A record is matched, if the table is in order along an arc. -/
theorem bsearch_complete (h : Searchable fuel key nel) {s : Machine PUnit} {c : Nat}
    (hc : c < 2 ^ 32) (harc : ∀ i < nel, ahead c (readUInt s.mem (i * 4)) < 2 ^ 31)
    (hsorted : ∀ i j, i ≤ j → j < nel →
      ahead c (readUInt s.mem (i * 4)) ≤ ahead c (readUInt s.mem (j * 4)))
    (hmem : Member key nel s.mem) :
    Ends (bsearch fuel key nel 4 (cmp true)) s fun r s' => s'.mem = s.mem ∧ r.isSome := by
  have := h.bytes
  have := h.fuel
  obtain ⟨k, hk, hkey⟩ := hmem
  have hkey : readUInt s.mem (k * 4) = readUInt s.mem key := bytesAt_inj.mp hkey
  have hsign (i : Nat) (hi : i < nel) :
      toInt (ahead (readUInt s.mem (i * 4)) (readUInt s.mem key)) < 0 ↔
        ahead c (readUInt s.mem (k * 4)) < ahead c (readUInt s.mem (i * 4)) := by
    rw [← hkey]
    exact toInt_ahead_neg_iff (readUInt_lt ..) (readUInt_lt ..) hc (harc k hk) (harc i hi)
  -- the key stays in the window
  refine bsearch_ends (W := fun l u => l ≤ k ∧ k < u)
    (c := fun i => toInt (ahead (readUInt s.mem (i * 4)) (readUInt s.mem key)))
    (Q := fun r => r.isSome) (fun _ _ _ => rfl) ⟨Nat.zero_le k, hk⟩
    (fun l u hlt hu hW hneg => ⟨hW.1, ?_⟩) (fun l u hlt hu hW hpos => ⟨?_, hW.2⟩) (by simp)
    (fun l hW => by omega) (by decide) (by omega) h.bytes (by omega)
  · have hless := (hsign _ (by omega)).mp hneg
    by_contra hge
    have := hsorted _ k (Nat.le_of_not_lt hge) hk
    omega
  · have hmore := mt (hsign ((l + u) / 2) (by omega)).mpr (by omega)
    by_contra hle
    have hle' := hsorted k ((l + u) / 2) (by omega) (by omega)
    have heq := (ahead_inj (readUInt_lt ..) (readUInt_lt ..) hc).mp (Nat.le_antisymm hle' (by omega))
    have hzero := (toInt_ahead_eq_zero_iff (readUInt_lt s.mem key)
      (readUInt_lt s.mem ((l + u) / 2 * 4))).mpr (by rw [← hkey, heq])
    omega

/-- A table with its values on an arc is searched correctly, and so is any table for
what is not in it. -/
theorem finds_of_arc (h : Searchable fuel key nel)
    (hcond : ¬ Member key nel mem ∨ ∃ c, OnArc (values mem nel) c) : Finds fuel key nel mem := by
  refine Ends.bind ((sorted_ends h).mono ?_)
  intro _ s hp
  obtain ⟨hvalues, hkey, hsorted⟩ := hp
  have hmember : Member key nel s.mem ↔ Member key nel mem := by
    rw [member_iff, member_iff, hvalues, hkey]
  have hsound := bsearch_sound h (s := s)
  by_cases hpresent : Member key nel mem
  · obtain ⟨c, harc⟩ := hcond.resolve_left (not_not_intro hpresent)
    have hon : ∀ i < nel, ahead c (readUInt s.mem (i * 4)) < 2 ^ 31 := fun i hi =>
      harc.2 _ (hvalues ▸ mem_values hi)
    refine (bsearch_complete h harc.1 hon (hsorted c harc) (hmember.mpr hpresent)).mono ?_
    exact fun r _ hr => iff_of_true hr.2 hpresent
  · exact hsound.mono fun r _ hr =>
      iff_of_false (fun hsome => hpresent (hmember.mp (hr.2 hsome))) hpresent

/-! ### Where a record is missed -/

/-- Memory that holds the values of `t`. -/
def memOf (t : Nat → Nat) : Mem := fun off => UInt8.ofNat (t (off / 4) / 2 ^ (8 * (off % 4)))

theorem readUInt_memOf {t : Nat → Nat} {i : Nat} (h : t i < 2 ^ 32) :
    readUInt (memOf t) (i * 4) = t i := by
  have h₀ : (i * 4) / 4 = i ∧ (i * 4) % 4 = 0 := by omega
  have h₁ : (i * 4 + 1) / 4 = i ∧ (i * 4 + 1) % 4 = 1 := by omega
  have h₂ : (i * 4 + 2) / 4 = i ∧ (i * 4 + 2) % 4 = 2 := by omega
  have h₃ : (i * 4 + 3) / 4 = i ∧ (i * 4 + 3) % 4 = 3 := by omega
  simp only [readUInt, memOf, h₀, h₁, h₂, h₃, UInt8.toNat_ofNat']
  omega

/-- A table of at most four records that is in order is searched as it is. `W` holds of the
window as long as the search goes past the key. -/
theorem missed {t : Nat → Nat} {W : Nat → Nat → Prop} (ht : ∀ i, t i < 2 ^ 32) (hn : 1 < nel)
    (hn4 : nel ≤ 4) (hfuel : nel * 4 < fuel)
    (hquiet : ∀ p, p + 1 < nel → toInt (ahead (t (p + 1)) (t p)) ≤ 0)
    (hmem : ∃ i < nel, t i = t nel) (hW : W 0 nel)
    (hless : ∀ l u, l < u → u ≤ nel → W l u → toInt (ahead (t ((l + u) / 2)) (t nel)) < 0 →
      W l ((l + u) / 2))
    (hmore : ∀ l u, l < u → u ≤ nel → W l u → 0 < toInt (ahead (t ((l + u) / 2)) (t nel)) →
      W ((l + u) / 2 + 1) u)
    (hnever : ∀ l u, l < u → u ≤ nel → W l u → toInt (ahead (t ((l + u) / 2)) (t nel)) ≠ 0) :
    ¬ Finds fuel (nel * 4) nel (memOf t) := by
  intro hfinds
  have hread (i : Nat) : readUInt (memOf t) (i * 4) = t i := readUInt_memOf (ht i)
  have hstill : Ends (uclibcQsort fuel nel 4 (cmp true)) (start (memOf t) ⟨⟩)
      fun _ s' => s'.mem = memOf t := by
    refine qsort_still hn (by decide) (by omega) hfuel fun m hm st p hp => ?_
    cases m with
    | zero =>
        show toInt (ahead (readUInt (memOf t) ((p + 1) * 4)) (readUInt (memOf t) (p * 4))) ≤ 0
        rw [hread, hread]
        exact hquiet p hp
    | succ m => exact absurd hm (by simp only [gapSeq]; omega)
  have hnone : Ends (sortThenSearch fuel (nel * 4) nel) (start (memOf t) ⟨⟩)
      fun r _ => r = none := by
    refine Ends.bind (hstill.mono fun _ s hs => ?_)
    refine (bsearch_ends (c := fun i => toInt (ahead (t i) (t nel))) (Q := fun r => r = none)
      (fun st i _ => ?_) hW hless hmore (fun l u hlt hu hwin hzero => ?_) (fun _ _ => rfl)
      (by decide) (by omega) (by omega) (by omega)).mono fun _ _ hr => hr.2
    · rw [hs, cmp_true, hread, hread]
    · exact absurd hzero (hnever l u hlt hu hwin)
  have hmember : Member (nel * 4) nel (memOf t) := by
    obtain ⟨i, hi, heq⟩ := hmem
    exact member_iff.mpr ⟨i, hi, by rw [hread, hread, heq]⟩
  obtain ⟨r, -, -, hiff, rfl⟩ := hfinds.and hnone
  exact absurd (hiff.mpr hmember) (by simp)

/-- Of two opposite values either is the smaller one. -/
theorem opposite_missed {a b : Nat} (ha : a < 2 ^ 32) (hb : b < 2 ^ 32) (hab : ahead a b = 2 ^ 31) :
    ¬ Finds 13 12 3 (memOf fun i => if i < 2 then a else b) := by
  have hba : toInt (ahead a b) < 0 := (toInt_neg_iff (ahead_lt a b)).mpr (by omega)
  have hba' : toInt (ahead b a) < 0 := by
    refine (toInt_neg_iff (ahead_lt b a)).mpr ?_
    unfold ahead at *
    omega
  have haa : toInt (ahead a a) = 0 := (toInt_ahead_eq_zero_iff ha ha).mpr rfl
  -- the last record is the key, and the search turns to the front
  refine missed (W := fun l u => l = 0 ∧ (u = 3 ∨ u ≤ 1)) (fun i => ?_) (by decide) (by decide)
    (by decide) (fun p hp => ?_) ⟨2, by decide, rfl⟩ (by decide)
    (fun l u hlt hu hW _ => by omega) (fun l u hlt hu hW hpos => ?_) (fun l u hlt hu hW => ?_)
  · split <;> assumption
  · obtain rfl | rfl : p = 0 ∨ p = 1 := by omega
    · exact haa.le
    · exact hba'.le
  · rw [if_pos (by omega), if_neg (by decide)] at hpos
    omega
  · rw [if_pos (by omega), if_neg (by decide)]
    omega

/-- The first of three values that go round is looked for behind the other two. -/
theorem circle_missed {a b c : Nat} (ha : a < 2 ^ 32) (hb : b < 2 ^ 32) (hc : c < 2 ^ 32)
    (hab : toInt (ahead b a) < 0) (hbc : toInt (ahead c b) < 0) (hca : 0 < toInt (ahead c a)) :
    ¬ Finds 17 16 4 (memOf fun i => if i = 1 then b else if i = 2 ∨ i = 3 then c else a) := by
  have hcc : toInt (ahead c c) = 0 := (toInt_ahead_eq_zero_iff hc hc).mpr rfl
  -- the first record is the key, and the search turns to the back
  refine missed (W := fun l u => u = 4 ∧ (l = 0 ∨ 3 ≤ l)) (fun i => ?_) (by decide) (by decide)
    (by decide) (fun p hp => ?_) ⟨0, by decide, rfl⟩ (by decide)
    (fun l u hlt hu hW hneg => ?_) (fun l u hlt hu hW _ => by omega) (fun l u hlt hu hW => ?_)
  · split_ifs <;> assumption
  · obtain rfl | rfl | rfl : p = 0 ∨ p = 1 ∨ p = 2 := by omega
    · exact hab.le
    · exact hbc.le
    · exact hcc.le
  · rw [if_neg (by omega), if_pos (by omega), if_neg (by decide), if_neg (by decide)] at hneg
    omega
  · rw [if_neg (by omega), if_pos (by omega), if_neg (by decide), if_neg (by decide)]
    omega

/-- **Where sorting and searching agree.** What is not in the table is not found. What is in
it is found if the values lie on an arc of half the circle; if they do not, there is a
table of the same values, and a key, that is not searched correctly. -/
theorem sort_then_search (h : Searchable fuel key nel) :
    ((¬ Member key nel mem ∨ ∃ c, OnArc (values mem nel) c) → Finds fuel key nel mem) ∧
    ((∀ fuel' key' nel' mem', Searchable fuel' key' nel' → values mem' nel' ⊆ values mem nel →
        Finds fuel' key' nel' mem') ↔
      ∃ c, OnArc (values mem nel) c) := by
  refine ⟨finds_of_arc h, fun hall => ?_, ?_⟩
  · have hlt {v : Nat} : v ∈ values mem nel → v < 2 ^ 32 := values_lt
    rcases arc_or_circle fun v => hlt with
      harc | ⟨a, ha, b, hb, hab⟩ | ⟨a, ha, b, hb, c, hc, hab, hbc, hca⟩
    · exact harc
    · refine absurd (hall 13 12 3 _ ⟨by decide, by decide, by decide⟩ ?_)
        (opposite_missed (hlt ha) (hlt hb) hab)
      intro v hp
      obtain ⟨i, -, rfl⟩ := hp
      rw [readUInt_memOf (by split <;> exact hlt ‹_›)]
      split <;> assumption
    · refine absurd (hall 17 16 4 _ ⟨by decide, by decide, by decide⟩ ?_)
        (circle_missed (hlt ha) (hlt hb) (hlt hc) hab hbc hca)
      intro v hp
      obtain ⟨i, -, rfl⟩ := hp
      rw [readUInt_memOf (by split_ifs <;> exact hlt ‹_›)]
      split_ifs <;> assumption
  · intro hp fuel' key' nel' mem' hcall hsub
    obtain ⟨c, hc, harc⟩ := hp
    exact finds_of_arc hcall (.inr ⟨c, hc, fun v hv => harc v (hsub hv)⟩)

/-- The records 5, 4 and 3, and the key 2. -/
theorem sort_then_search_three : Finds 13 12 3 (memOf fun i => 5 - i) := by
  refine (sort_then_search ⟨by decide, by decide, by decide⟩).1 (.inr ⟨0, by decide, ?_⟩)
  intro v h
  obtain ⟨i, -, rfl⟩ := h
  rw [readUInt_memOf (by omega)]
  unfold ahead
  omega

/-- In the table 0, 0, `2 ^ 31` the last record is missed. -/
theorem member_missed : ¬ ∀ fuel key nel mem, Searchable fuel key nel → Finds fuel key nel mem :=
  fun hall => opposite_missed (a := 0) (b := 2 ^ 31) (by decide) (by decide) (by decide)
    (hall _ _ _ _ ⟨by decide, by decide, by decide⟩)

end Search

end Codelib.Qsort
