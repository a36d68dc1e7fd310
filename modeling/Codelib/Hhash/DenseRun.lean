import Mathlib.Data.List.Nodup
import Codelib.Hhash.Dense

/-!
# Codelib.Hhash.DenseRun

**Runs of a lone map**, from `NextCall` by induction on the history.

* `dense_run` — while no search walks over the slot of an empty string, the run is
  the closed form `denseEvents`, `densePkg`;
* `dense_allocation` — so non-empty strings fill the table densely;
* `handles_unique_iff` — and handles are unique exactly then. `AllocString("")`
  returns a handle but leaves its slot looking free; a later search that walks over
  it hands the same handle out again.
-/

namespace Codelib.Hhash

/-- No call of the history walks over the slot of an empty string. -/
def NoEmptyWalked (ss : List GoString) : Prop :=
  ∀ n < ss.length, ∀ k < walked n, ss[k]? ≠ some []

/-- The calls of a dense run: the `k`-th string gets slot `denseHandle k`. -/
def denseEvents (ss : List GoString) : List (GoString × Nat) :=
  ss.zipIdx.map fun x => (x.1, denseHandle x.2)

@[simp] theorem length_denseEvents (ss : List GoString) :
    (denseEvents ss).length = ss.length := by simp [denseEvents]

@[simp] theorem denseEvents_fst (ss : List GoString) : (denseEvents ss).map Prod.fst = ss := by
  simp [denseEvents, Function.comp_def]

theorem denseEvents_snd (ss : List GoString) :
    (denseEvents ss).map Prod.snd = (List.range ss.length).map denseHandle := by
  refine List.ext_getElem (by simp) fun i h _ => ?_
  simp [denseEvents]

theorem denseEvents_snoc (ss : List GoString) (s : GoString) :
    denseEvents (ss ++ [s]) = denseEvents ss ++ [(s, denseHandle ss.length)] := by
  simp [denseEvents, List.zipIdx_append]

theorem denseEvents_take (ss : List GoString) (n : Nat) :
    (denseEvents ss).take n = denseEvents (ss.take n) := by
  simp only [denseEvents, ← List.map_take]
  congr 1
  refine List.ext_getElem? fun i => ?_
  by_cases hi : i < n
  · simp [List.getElem?_zipIdx, List.getElem?_take_of_lt hi]
  · rw [List.getElem?_eq_none (by simp; omega), List.getElem?_eq_none (by simp; omega)]

/-! ### Running -/

theorem AllocStep.deterministic {p p₁ p₂ : Pkg} {l₁ l₂ : GoString × Nat} (hkey : l₁.1 = l₂.1)
    (h₁ : AllocStep p l₁ p₁) (h₂ : AllocStep p l₂ p₂) : l₁ = l₂ ∧ p₁ = p₂ := by
  unfold AllocStep at h₁ h₂
  rw [hkey] at h₁
  obtain ⟨hh, rfl⟩ := h₁.unique h₂
  exact ⟨Prod.ext hkey hh, rfl⟩

/-- A lone map can always allocate: `last` is one of its own slots. -/
theorem run_canAlloc {evs : List (GoString × Nat)} {p : Pkg}
    (h : Run AllocStep freshMap evs p) : 0 < p.hm.cap ∧ CanAlloc p := by
  refine Run.invariant_state (I := fun p => 0 < p.hm.cap ∧ CanAlloc p) (by decide)
    (fun {p l q} hp hs => ?_) h
  have ha := AllocReturns.allocated hp.1 hs
  obtain ⟨tab, -, hempty, hset⟩ := ha.table
  have hlt : l.2 < q.hm.cap := by
    rw [Handlemap.cap, hset, List.length_set]
    exact (List.getElem?_eq_some_iff.mp hempty).1
  exact ⟨by omega, .inl ⟨ha.last.symm ▸ ha.pos, ha.last.symm ▸ hlt⟩⟩

/-- **Every sequence of calls on a lone map runs to its end.** -/
theorem exists_run (ss : List GoString) :
    ∃ evs p, Run AllocStep freshMap evs p ∧ evs.map Prod.fst = ss := by
  induction ss using List.reverseRecOn with
  | nil => exact ⟨[], freshMap, Run.nil, rfl⟩
  | append_singleton ss s ih =>
      obtain ⟨evs, p, hrun, hss⟩ := ih
      obtain ⟨hc, hcan⟩ := run_canAlloc hrun
      obtain ⟨h, q, hr⟩ := (allocReturns_iff hc s).mpr hcan
      exact ⟨evs ++ [(s, h)], q, hrun.snoc hr, by simp [hss]⟩

theorem NoEmptyWalked.init {ss : List GoString} {s : GoString} (h : NoEmptyWalked (ss ++ [s])) :
    NoEmptyWalked ss := by
  intro n hn k hk
  have hle := walked_le n
  have hget := h n (by simp; omega) k hk
  rwa [List.getElem?_append_left (by omega)] at hget

theorem NoEmptyWalked.last {ss : List GoString} {s : GoString} (h : NoEmptyWalked (ss ++ [s])) :
    ∀ k < walked ss.length, ss[k]? ≠ some [] := by
  intro k hk
  have hle := walked_le ss.length
  have hget := h ss.length (by simp) k hk
  rwa [List.getElem?_append_left (by omega)] at hget

theorem NoEmptyWalked.snoc {ss : List GoString} {s : GoString} (h : NoEmptyWalked ss)
    (hs : ∀ k < walked ss.length, ss[k]? ≠ some []) : NoEmptyWalked (ss ++ [s]) := by
  intro n hn k hk
  have hle := walked_le n
  rw [List.length_append, List.length_singleton] at hn
  rw [List.getElem?_append_left (by omega)]
  by_cases hlast : n = ss.length
  · exact hs k (hlast ▸ hk)
  · exact h n (by omega) k hk

theorem noEmptyWalked_of_ne {ss : List GoString} (h : ∀ s ∈ ss, s ≠ []) : NoEmptyWalked ss :=
  fun _ _ _ _ heq => h [] (List.mem_of_getElem? heq) rfl

/-- **The run in closed form.** -/
theorem dense_run {ss : List GoString} (h : NoEmptyWalked ss) :
    Run AllocStep freshMap (denseEvents ss) (densePkg ss) := by
  induction ss using List.reverseRecOn with
  | nil => exact densePkg_nil ▸ Run.nil
  | append_singleton ss s ih =>
      rw [denseEvents_snoc]
      exact (ih h.init).snoc ((nextCall ss s).1 h.last)

/-- … and every other run of the same strings is that one. -/
theorem eq_dense_run {evs : List (GoString × Nat)} {p : Pkg} (hrun : Run AllocStep freshMap evs p)
    (h : NoEmptyWalked (evs.map Prod.fst)) :
    evs = denseEvents (evs.map Prod.fst) ∧ p = densePkg (evs.map Prod.fst) :=
  hrun.deterministic (dense_run h) (by simp) AllocStep.deterministic

/-! ### Dense allocation -/

/-- The handles `evs.map Prod.snd` of a run to `p` fill the table densely. -/
structure FilledDensely (evs : List (GoString × Nat)) (p : Pkg) : Prop where
  /-- The first three handles. -/
  first : (evs.map Prod.snd).take 3 = [2, 1, 3].take evs.length
  /-- For each `S = 4 * 2 ^ j`, the calls `S - 1, …` get the even slots from `S` on … -/
  even : ∀ j e, e < 2 * 2 ^ j → 4 * 2 ^ j - 1 + e < evs.length →
    (evs.map Prod.snd)[4 * 2 ^ j - 1 + e]? = some (4 * 2 ^ j + 2 * e)
  /-- … and then the odd ones, -/
  odd : ∀ j e, e < 2 * 2 ^ j → 4 * 2 ^ j - 1 + 2 * 2 ^ j + e < evs.length →
    (evs.map Prod.snd)[4 * 2 ^ j - 1 + 2 * 2 ^ j + e]? = some (4 * 2 ^ j + 1 + 2 * e)
  /-- all while the table has `2 * S` slots. -/
  during : ∀ j k q, 4 * 2 ^ j - 1 ≤ k → k < 8 * 2 ^ j - 1 → k < evs.length →
    Run AllocStep freshMap (evs.take (k + 1)) q → q.hm.cap = 8 * 2 ^ j
  /-- The first `size - 1` handles are the slots `1 … size - 1`. -/
  slots : ∀ j, 4 * 2 ^ j - 1 ≤ evs.length →
    ((evs.map Prod.snd).take (4 * 2 ^ j - 1)).Perm (List.range' 1 (4 * 2 ^ j - 1))
  /-- The table length is the least `4 * 2 ^ j` greater than the number of calls. -/
  cap_pow : ∃ j, p.hm.cap = 4 * 2 ^ j
  cap_gt : evs.length < p.hm.cap
  cap_least : ∀ j, evs.length < 4 * 2 ^ j → p.hm.cap ≤ 4 * 2 ^ j
  /-- A further call doubles the table only if every slot is occupied. -/
  doubled_full : ∀ s h p', AllocReturns p s h p' → p'.hm.cap ≠ p.hm.cap →
    ∀ i, 1 ≤ i → i < p.hm.cap → ∃ t, p.hm.tab[i]? = some t ∧ t ≠ []
  /-- Every string is in the slot of its handle. -/
  stored : ∀ s h, (s, h) ∈ evs → p.hm.tab[h]? = some s

theorem take_range_map_denseHandle (n : Nat) :
    ((List.range n).map denseHandle).take 3 = [2, 1, 3].take n := by
  match n with
  | 0 => rfl
  | 1 => rfl
  | 2 => rfl
  | n + 3 =>
      rw [← List.map_take, List.take_range, Nat.min_eq_left (Nat.le_add_left 3 n),
        List.take_of_length_le (Nat.le_add_left 3 n)]
      rfl

/-- The first `S - 1` calls get exactly the slots below `S`. -/
theorem denseHandle_perm (j : Nat) :
    ((List.range (4 * 2 ^ j - 1)).map denseHandle).Perm (List.range' 1 (4 * 2 ^ j - 1)) := by
  have hpos := two_pow_pos j
  refine (List.perm_ext_iff_of_nodup ?_ List.nodup_range').mpr fun i => ?_
  · exact List.Nodup.map (fun _ _ h => denseHandle_inj h) List.nodup_range
  · simp only [List.mem_map, List.mem_range, List.mem_range'_1]
    constructor
    · intro hp
      obtain ⟨k, hk, rfl⟩ := hp
      have hlt := (denseHandle_lt_iff (j := j)).mpr (show k + 1 < 4 * 2 ^ j by omega)
      exact ⟨denseHandle_pos k, by omega⟩
    · intro hp
      obtain ⟨hi, hlt⟩ := hp
      have hidx := (denseIndex_lt_iff (j := j) hi).mpr (by omega)
      exact ⟨denseIndex i, by omega, denseHandle_denseIndex hi⟩

/-- The table length only changes with the call that follows a full table. -/
theorem denseCap_succ_ne {n : Nat} (h : denseCap (n + 1) ≠ denseCap n) : n + 1 = denseCap n := by
  have hlt := lt_denseCap n
  obtain ⟨j, hj⟩ := denseCap_eq n
  by_contra hne
  have hle := denseCap_least (n := n + 1) (j := j) (by omega)
  obtain ⟨j', hj'⟩ := denseCap_eq (n + 1)
  have hgt := lt_denseCap (n + 1)
  have hge := denseCap_least (n := n) (j := j') (by omega)
  omega

theorem densePkg_stored {ss : List GoString} {k : Nat} {s : GoString} (h : ss[k]? = some s) :
    (densePkg ss).hm.tab[denseHandle k]? = some s := by
  have hk := (List.getElem?_eq_some_iff.mp h).1
  obtain ⟨j, hj⟩ := denseCap_eq ss.length
  have hgt := lt_denseCap ss.length
  have hlt := (denseHandle_lt_iff (k := k) (j := j)).mpr (by omega)
  rw [densePkg_slot (by omega), content_denseHandle, List.getD_eq_getElem?_getD, h,
    Option.getD_some]

/-- Every string is in the slot of its handle. -/
theorem denseEvents_stored {ss : List GoString} {s : GoString} {h : Nat}
    (hmem : (s, h) ∈ denseEvents ss) : (densePkg ss).hm.tab[h]? = some s := by
  obtain ⟨⟨t, k⟩, hk, heq⟩ := List.mem_map.mp hmem
  obtain ⟨rfl, rfl⟩ := Prod.mk.inj heq
  exact densePkg_stored (List.mem_zipIdx_iff_getElem?.mp hk)

theorem filledDensely_dense {ss : List GoString} (hne : ∀ s ∈ ss, s ≠ []) :
    FilledDensely (denseEvents ss) (densePkg ss) := by
  have hsnd := denseEvents_snd ss
  have hget : ∀ k, k < ss.length →
      ((denseEvents ss).map Prod.snd)[k]? = some (denseHandle k) := by
    intro k hk
    rw [hsnd]
    simp [hk]
  have hlen := length_denseEvents ss
  constructor
  case first => rw [hsnd, hlen, take_range_map_denseHandle]
  case even => intro j e he hlt; rw [hget _ (hlen ▸ hlt), denseHandle_even he]
  case odd => intro j e he hlt; rw [hget _ (hlen ▸ hlt), denseHandle_odd he]
  case during =>
    intro j k q hlo hhi hk hrun
    have hpos := two_pow_pos j
    rw [hlen] at hk
    rw [denseEvents_take] at hrun
    have htake : NoEmptyWalked (ss.take (k + 1)) :=
      noEmptyWalked_of_ne fun s hs => hne s (List.mem_of_mem_take hs)
    obtain ⟨-, rfl⟩ := eq_dense_run hrun (by simpa using htake)
    rw [densePkg_cap, denseEvents_fst, List.length_take]
    exact denseCap_phase (by omega) (by omega)
  case slots =>
    intro j hj
    rw [hlen] at hj
    have htake : (List.range ss.length).take (4 * 2 ^ j - 1) = List.range (4 * 2 ^ j - 1) := by
      rw [List.take_range, Nat.min_eq_left hj]
    rw [hsnd, ← List.map_take, htake]
    exact denseHandle_perm j
  case cap_pow => exact densePkg_cap ss ▸ denseCap_eq ss.length
  case cap_gt => rw [hlen, densePkg_cap]; exact lt_denseCap ss.length
  case cap_least => intro j hj; rw [densePkg_cap]; exact denseCap_least (hlen ▸ hj)
  case doubled_full =>
    intro s h p' hr hcap i hi hlt
    have hw : ∀ k < walked ss.length, ss[k]? ≠ some [] :=
      fun k _ heq => hne [] (List.mem_of_getElem? heq) rfl
    obtain ⟨-, rfl⟩ := hr.unique ((nextCall ss s).1 hw)
    simp only [densePkg_cap, List.length_append, List.length_singleton] at hcap hlt
    have hfull := denseCap_succ_ne hcap
    obtain ⟨j, hj⟩ := denseCap_eq ss.length
    have hidx := (denseIndex_lt_iff (j := j) hi).mpr (by omega)
    refine ⟨content ss i, densePkg_slot hlt, ?_⟩
    rw [content, if_neg (by omega), List.getD_eq_getElem _ _ (by omega)]
    exact hne _ (List.getElem_mem _)
  case stored => exact fun s h => denseEvents_stored

/-- **Dense allocation.** Non-empty strings allocated on a fresh map fill its table
without a gap, doubling it only when it is full. -/
theorem dense_allocation {ss : List GoString} (hne : ∀ s ∈ ss, s ≠ []) :
    (∃ evs p, Run AllocStep freshMap evs p ∧ evs.map Prod.fst = ss) ∧
      ∀ evs p, Run AllocStep freshMap evs p → evs.map Prod.fst = ss → FilledDensely evs p := by
  refine ⟨exists_run ss, ?_⟩
  intro evs p hrun heq
  obtain rfl := heq
  obtain ⟨hevs, hp⟩ := eq_dense_run hrun (noEmptyWalked_of_ne hne)
  rw [hevs, hp]
  exact filledDensely_dense hne

/-- Five strings: the fifth one is stored in the doubled table. -/
theorem dense_allocation_five :
    (∃ evs p, Run AllocStep freshMap evs p ∧
        evs.map Prod.fst = [[97], [98], [99], [100], [101]]) ∧
      ∀ evs p, Run AllocStep freshMap evs p →
        evs.map Prod.fst = [[97], [98], [99], [100], [101]] → FilledDensely evs p :=
  dense_allocation (by decide)

example : denseEvents [[97], [98], [99], [100], [101]] =
    [([97], 2), ([98], 1), ([99], 3), ([100], 4), ([101], 6)] := by decide +kernel

/-! ### Unique handles -/

/-- No two calls returned the same handle, and every string is still in its slot. -/
structure HandlesUnique (evs : List (GoString × Nat)) (p : Pkg) : Prop where
  nodup : (evs.map Prod.snd).Nodup
  kept : ∀ s h, (s, h) ∈ evs → p.hm.tab[h]? = some s

/-- A repeated handle shows as soon as it is returned. -/
theorem noEmptyWalked_of_nodup {evs : List (GoString × Nat)} {p : Pkg}
    (hrun : Run AllocStep freshMap evs p) :
    (evs.map Prod.snd).Nodup → NoEmptyWalked (evs.map Prod.fst) := by
  induction hrun with
  | nil => exact fun _ n hn => absurd hn (Nat.not_lt_zero n)
  | @snoc evs p q l hrun hs ih =>
      intro hnodup
      rw [List.map_append, List.nodup_append] at hnodup
      obtain ⟨hnodup, -, hdisj⟩ := hnodup
      have hwalked := ih hnodup
      obtain ⟨hevs, rfl⟩ := eq_dense_run hrun hwalked
      rw [List.map_append]
      refine hwalked.snoc fun k hk hempty => ?_
      -- the search stops at the slot of an empty string, which is taken already
      obtain ⟨k', hk', q', hr⟩ := (nextCall (evs.map Prod.fst) l.1).2 ⟨k, hk, hempty⟩
      obtain ⟨hh, -⟩ := AllocReturns.unique hs hr
      refine hdisj (denseHandle k') ?_ l.2 (by simp) hh.symm
      rw [hevs, denseEvents_snd]
      exact List.mem_map_of_mem (List.mem_range.mpr (by simpa using hk'))

theorem handlesUnique_dense {ss : List GoString} : HandlesUnique (denseEvents ss) (densePkg ss) where
  nodup := by
    rw [denseEvents_snd]
    exact List.Nodup.map (fun _ _ h => denseHandle_inj h) List.nodup_range
  kept _ _ := denseEvents_stored

/-- **Exactly when handles are unique.** -/
theorem handles_unique_iff (ss : List GoString) :
    (∃ evs p, Run AllocStep freshMap evs p ∧ evs.map Prod.fst = ss) ∧
      ∀ evs p, Run AllocStep freshMap evs p → evs.map Prod.fst = ss →
        (HandlesUnique evs p ↔ NoEmptyWalked ss) := by
  refine ⟨exists_run ss, ?_⟩
  intro evs p hrun heq
  obtain rfl := heq
  constructor
  · exact fun h => noEmptyWalked_of_nodup hrun h.nodup
  · intro h
    obtain ⟨hevs, hp⟩ := eq_dense_run hrun h
    rw [hevs, hp]
    exact handlesUnique_dense

/-- Four empty strings: the fourth call gets the handle of the second. -/
theorem empty_strings_share_a_handle :
    ¬ ∀ ss evs p, Run AllocStep freshMap evs p → evs.map Prod.fst = ss → HandlesUnique evs p := by
  intro hall
  have hrun : Run AllocStep freshMap ([] ++ [([], 2)] ++ [([], 1)] ++ [([], 3)] ++ [([], 1)])
      { last := 1, hm := { tab := make 4 } } :=
    (((Run.nil.snoc ⟨4, rfl⟩).snoc ⟨4, rfl⟩).snoc ⟨4, rfl⟩).snoc ⟨4, rfl⟩
  exact absurd (hall _ _ _ hrun rfl).nodup (by decide)

end Codelib.Hhash
