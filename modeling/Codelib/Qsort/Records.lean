import Codelib.Core.GapSort
import Codelib.Qsort.Uclibc

/-!
# Codelib.Qsort.Records

From bytes to records.

Every operation of the code is described once by an `ends_…` lemma: under the
condition that makes it exact it yields the mathematical result, leaves memory
alone (a store and a swap excepted) and is `Clean` — it adds only events that are
`Event.Ok` to the log. The byte-by-byte swap loop exchanges two blocks
(`swap_ends`), and seen through `record` that is a transposition
(`record_swapBlocks`).
-/

namespace Codelib.Qsort

variable {σ : Type} {bytes : Nat} {s s' s'' : Machine σ}

/-! ### What the log must not show -/

/-- The operation did not wrap or go below zero, the division was exact, the bytes
touched are bytes of the array. -/
def Event.Ok (bytes : Nat) : Event → Prop
  | .add x y => x + y < 2 ^ 64
  | .sub x y => y ≤ x
  | .mul x y => x * y < 2 ^ 64
  | .divThree x => 3 ∣ x
  | .load off | .store off => off < bytes
  | .record off width => off + width ≤ bytes

def LogOk (bytes : Nat) (s : Machine σ) : Prop := ∀ e ∈ s.log, e.Ok bytes

/-- From `s` to `s'` only good events were logged, and no pass ended. -/
structure Clean (bytes : Nat) (s s' : Machine σ) : Prop where
  passes : s'.passes = s.passes
  log : LogOk bytes s → LogOk bytes s'

theorem Clean.refl : Clean bytes s s := ⟨rfl, id⟩

theorem Clean.trans (h : Clean bytes s s') (h' : Clean bytes s' s'') : Clean bytes s s'' :=
  ⟨h'.passes.trans h.passes, fun hl => h'.log (h.log hl)⟩

theorem LogOk.note (h : LogOk bytes s) {e : Event} (he : e.Ok bytes) : LogOk bytes (s.note e) := by
  intro e' hmem
  rcases List.mem_cons.mp hmem with rfl | hmem
  · exact he
  · exact h e' hmem

theorem Clean.note {e : Event} (he : e.Ok bytes) : Clean bytes s (s.note e) :=
  ⟨rfl, fun h => h.note he⟩

/-! ### The operations -/

section Ops

variable {x y off : Nat} {Q : Nat → Machine σ → Prop}

theorem ends_add (bytes : Nat) (h : x + y < 2 ^ 64)
    (hq : ∀ s', Clean bytes s s' → s'.mem = s.mem → Q (x + y) s') : Ends (add x y) s Q :=
  ⟨x + y, s.note (.add x y), by rw [add, Nat.mod_eq_of_lt h], hq _ (.note h) rfl⟩

theorem ends_mul (bytes : Nat) (h : x * y < 2 ^ 64)
    (hq : ∀ s', Clean bytes s s' → s'.mem = s.mem → Q (x * y) s') : Ends (mul x y) s Q :=
  ⟨x * y, s.note (.mul x y), by rw [mul, Nat.mod_eq_of_lt h], hq _ (.note h) rfl⟩

theorem ends_sub (bytes : Nat) (h : y ≤ x) (hx : x < 2 ^ 64)
    (hq : ∀ s', Clean bytes s s' → s'.mem = s.mem → Q (x - y) s') : Ends (sub x y) s Q := by
  have hmod : (x + 2 ^ 64 - y) % 2 ^ 64 = x - y := by
    rw [show x + 2 ^ 64 - y = x - y + 2 ^ 64 by omega, Nat.add_mod_right,
      Nat.mod_eq_of_lt (by omega)]
  exact ⟨x - y, s.note (.sub x y), by rw [sub, hmod], hq _ (.note h) rfl⟩

theorem ends_divThree (bytes : Nat) (hq : ∀ s', Clean bytes s s' → s'.mem = s.mem → Q x s') :
    Ends (divThree (3 * x)) s Q :=
  ⟨x, s.note (.divThree (3 * x)), by rw [divThree, Nat.mul_div_cancel_left x (by omega)],
    hq _ (.note (Nat.dvd_mul_right 3 x)) rfl⟩

theorem ends_load (bytes : Nat) {Q : UInt8 → Machine σ → Prop} (h : off < bytes)
    (hq : ∀ s', Clean bytes s s' → s'.mem = s.mem → Q (s.mem off) s') : Ends (load off) s Q :=
  ⟨s.mem off, s.note (.load off), rfl, hq _ (.note h) rfl⟩

theorem ends_store (bytes : Nat) {Q : PUnit → Machine σ → Prop} {b : UInt8} (h : off < bytes)
    (hq : ∀ s', Clean bytes s s' → s'.mem = Function.update s.mem off b → Q ⟨⟩ s') :
    Ends (store off b) s Q :=
  ⟨⟨⟩, { s with mem := Function.update s.mem off b }.note (.store off), rfl,
    hq _ ⟨rfl, fun hl => LogOk.note (e := .store off) hl h⟩ rfl⟩

theorem ends_compare {Q : Int → Machine σ → Prop} {comp : Comparator σ} {width a b : Nat}
    (ha : a + width ≤ bytes) (hb : b + width ≤ bytes)
    (hq : ∀ s', Clean bytes s s' → s'.mem = s.mem → Q (comp s.cmpState s.mem a b).1 s') :
    Ends (compare comp width a b) s Q :=
  ⟨_, _, rfl, hq _ ⟨rfl, fun hl => LogOk.note (e := .record b width)
    (LogOk.note (e := .record a width) hl ha) hb⟩ rfl⟩

end Ops

/-! ### Swapping two blocks -/

/-- Memory with the blocks of `width` bytes at `a` and `b` exchanged. -/
def swapBlocks (mem : Mem) (a b width : Nat) : Mem := fun x =>
  if a ≤ x ∧ x < a + width then mem (x - a + b)
  else if b ≤ x ∧ x < b + width then mem (x - b + a)
  else mem x

theorem swapBlocks_zero (mem : Mem) (a b : Nat) : swapBlocks mem a b 0 = mem := by
  funext x
  unfold swapBlocks
  rw [if_neg (by omega), if_neg (by omega)]

/-- One round of the swap loop exchanges one byte more. -/
theorem swapBlocks_succ (mem : Mem) {a b t : Nat} (h : a + t < b) :
    Function.update (Function.update (swapBlocks mem a b t) (a + t) (swapBlocks mem a b t (b + t)))
        (b + t) (swapBlocks mem a b t (a + t)) = swapBlocks mem a b (t + 1) := by
  have ha : swapBlocks mem a b t (a + t) = mem (a + t) := by
    unfold swapBlocks
    rw [if_neg (by omega), if_neg (by omega)]
  have hb : swapBlocks mem a b t (b + t) = mem (b + t) := by
    unfold swapBlocks
    rw [if_neg (by omega), if_neg (by omega)]
  rw [ha, hb]
  funext x
  by_cases hxb : x = b + t
  · subst hxb
    rw [Function.update_self, swapBlocks, if_neg (by omega), if_pos (by omega)]
    congr 1
    omega
  rw [Function.update_of_ne hxb]
  by_cases hxa : x = a + t
  · subst hxa
    rw [Function.update_self, swapBlocks, if_pos (by omega)]
    congr 1
    omega
  rw [Function.update_of_ne hxa]
  have hina : (a ≤ x ∧ x < a + (t + 1)) ↔ (a ≤ x ∧ x < a + t) := by omega
  have hinb : (b ≤ x ∧ x < b + (t + 1)) ↔ (b ≤ x ∧ x < b + t) := by omega
  simp only [swapBlocks, hina, hinb]

/-- **The swap loop** exchanges the two blocks. -/
theorem swap_ends (bytes : Nat) {a b width fuel : Nat} (hw : 0 < width) (hab : a + width ≤ b)
    (hb : b + width ≤ bytes) (hbytes : bytes < 2 ^ 64) (hfuel : width < fuel) :
    Ends (loop swapBody fuel (a, b, width)) s fun _ s' =>
      Clean bytes s s' ∧ s'.mem = swapBlocks s.mem a b width := by
  -- after `t` rounds, `t` bytes of each block are exchanged
  refine Ends.loop
    (fun v s' => ∃ t, v.1 = a + t ∧ v.2.1 = b + t ∧ v.2.2 + t = width ∧ 0 < v.2.2 ∧
      Clean bytes s s' ∧ s'.mem = swapBlocks s.mem a b t)
    (fun v _ => v.2.2) ?_
    ⟨0, rfl, rfl, rfl, hw, .refl, (swapBlocks_zero ..).symm⟩ hfuel
  intro v s₀ hp
  obtain ⟨a', b', k⟩ := v
  obtain ⟨t, ha', hb', hk, hpos, hc, hmem⟩ := hp
  simp only at ha' hb' hk hpos
  subst ha' hb'
  refine Ends.bind (ends_load bytes (by omega) fun s₁ hc₁ hm₁ => ?_)
  refine Ends.bind (ends_load bytes (by omega) fun s₂ hc₂ hm₂ => ?_)
  refine Ends.bind (ends_store bytes (by omega) fun s₃ hc₃ hm₃ => ?_)
  refine Ends.bind (ends_add bytes (by omega) fun s₄ hc₄ hm₄ => ?_)
  refine Ends.bind (ends_store bytes (by omega) fun s₅ hc₅ hm₅ => ?_)
  refine Ends.bind (ends_add bytes (by omega) fun s₆ hc₆ hm₆ => ?_)
  refine Ends.bind (ends_sub bytes (by omega) (by omega) fun s₇ hc₇ hm₇ => ?_)
  have hclean : Clean bytes s s₇ :=
    ((((((hc.trans hc₁).trans hc₂).trans hc₃).trans hc₄).trans hc₅).trans hc₆).trans hc₇
  have hnew : s₇.mem = swapBlocks s.mem a b (t + 1) := by
    rw [hm₇, hm₆, hm₅, hm₄, hm₃, hm₂, hm₁, hmem, swapBlocks_succ s.mem (by omega)]
  by_cases hlast : k - 1 ≠ 0
  · rw [if_pos hlast]
    exact Ends.pure ⟨⟨t + 1, by simp only; omega, by simp only; omega, by simp only; omega,
      by simp only; omega, hclean, hnew⟩, by simp only; omega⟩
  · rw [if_neg hlast]
    obtain rfl : width = t + 1 := by omega
    exact Ends.pure ⟨hclean, hnew⟩

/-! ### Records -/

theorem bytesAt_length (mem : Mem) (off width : Nat) : (bytesAt mem off width).length = width := by
  simp [bytesAt]

@[simp] theorem record_length (mem : Mem) (width i : Nat) : (record mem width i).length = width :=
  bytesAt_length ..

/-- A byte of record `i` lies in record `p` only if `i = p`. -/
theorem mem_record_iff {width i p k : Nat} (hk : k < width) :
    (p * width ≤ i * width + k ∧ i * width + k < p * width + width) ↔ i = p := by
  constructor
  · intro h
    obtain ⟨hlo, hhi⟩ := h
    rcases Nat.lt_trichotomy i p with hlt | heq | hgt
    · have hle := Nat.mul_le_mul_right width (Nat.succ_le_of_lt hlt)
      rw [Nat.succ_mul] at hle
      omega
    · exact heq
    · have hle := Nat.mul_le_mul_right width (Nat.succ_le_of_lt hgt)
      rw [Nat.succ_mul] at hle
      omega
  · intro he
    obtain rfl := he
    omega

/-- Exchanging the blocks of two records exchanges the records. -/
theorem record_swapBlocks (mem : Mem) (width p q : Nat) :
    record (swapBlocks mem (p * width) (q * width) width) width =
      record mem width ∘ Equiv.swap p q := by
  funext i
  refine List.map_congr_left fun k hk => ?_
  have hk : k < width := List.mem_range.mp hk
  simp only [swapBlocks, mem_record_iff hk]
  by_cases hip : i = p
  · rw [if_pos hip, hip, Equiv.swap_apply_left]
    congr 1
    omega
  by_cases hiq : i = q
  · rw [if_neg hip, if_pos hiq, hiq, Equiv.swap_apply_right]
    congr 1
    omega
  rw [if_neg hip, if_neg hiq, Equiv.swap_apply_of_ne_of_ne hip hiq]

/-- Record `i` ends within the array. -/
theorem record_end_le (width : Nat) {nel i : Nat} (h : i < nel) :
    i * width + width ≤ nel * width := by
  have hle := Nat.mul_le_mul_right width (Nat.succ_le_of_lt h)
  rwa [Nat.succ_mul] at hle

/-- Bytes behind the array are not touched by a swap inside it. -/
theorem swapBlocks_behind (mem : Mem) {nel width p q x : Nat} (hp : p < nel) (hq : q < nel)
    (hx : nel * width ≤ x) : swapBlocks mem (p * width) (q * width) width x = mem x := by
  have hpe := record_end_le width hp
  have hqe := record_end_le width hq
  unfold swapBlocks
  rw [if_neg (by omega), if_neg (by omega)]

end Codelib.Qsort
