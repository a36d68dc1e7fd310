import Codelib.PickCodeblock.Places

/-!
# Codelib.PickCodeblock.Whole

When the script prints exactly the code blocks, and each of them whole.

A match that begins with a block takes the whole block if the match may end behind it
(`Block.tried_eq`). If not, lines are given back until it may, and the last one given back
shows in what is printed (`Block.whole_of_trim_eq`). No match reaches into a block from in
front of it (`Block.mem_places`).
-/

namespace Codelib.PickCodeblock

open Regex

variable {lines : List Text} {p q : Text → Bool} {k : Nat}

/-! ### Kinds of lines -/

theorem At.lt (h : At p lines k) : k < lines.length := by
  refine Nat.lt_of_not_le fun hle => ?_
  rw [At, List.getElem?_eq_none hle] at h
  exact absurd h (by simp)

theorem at_of_lt (hk : k < lines.length) : At p lines k ↔ p lines[k] = true := by
  simp [At, List.getElem?_eq_getElem hk]

theorem not_at_of_not (hpq : ∀ l, p l = true → q l = false) (hp : At p lines k) :
    ¬ At q lines k := by
  have hk := hp.lt
  rw [at_of_lt hk] at hp ⊢
  simp [hpq _ hp]

theorem isCode_not_isEmpty (hk : At isCode lines k) : ¬ At isEmpty lines k := by
  refine not_at_of_not (fun l hl => ?_) hk
  cases hempty : isEmpty l with
  | false => rfl
  | true => rw [eq_of_beq hempty] at hl; exact absurd hl (by decide)

theorem isOther_not_isCode (hk : At isOther lines k) : ¬ At isCode lines k :=
  not_at_of_not (fun l hl => by simp_all [isOther]) hk

theorem isOther_not_isEmpty (hk : At isOther lines k) : ¬ At isEmpty lines k :=
  not_at_of_not (fun l hl => by simp_all [isOther]) hk

theorem isNext_not_isEmpty (hk : At isNext lines k) : ¬ At isEmpty lines k := by
  refine not_at_of_not (fun l hl => ?_) hk
  cases hempty : isEmpty l with
  | false => rfl
  | true => rw [eq_of_beq hempty] at hl; exact absurd hl (by decide)

theorem at_isOther (hk : k < lines.length) (hcode : ¬ At isCode lines k)
    (hempty : ¬ At isEmpty lines k) : At isOther lines k := by
  rw [at_of_lt hk] at hcode hempty ⊢
  simp [isOther, hcode, hempty]

theorem Over.not_at (h : Over lines k) : ¬ (At isCode lines k ∨ At isEmpty lines k) := by
  rcases h with rfl | h
  · exact fun h => absurd (h.elim At.lt At.lt) (Nat.lt_irrefl _)
  · exact fun hk => hk.elim (isOther_not_isCode h) (isOther_not_isEmpty h)

/-! ### Blocks -/

/-- Where a run that holds line `k` is over. -/
theorem exists_over (hk : k ≤ lines.length) :
    ∃ m, k ≤ m ∧ (∀ i, k ≤ i → i < m → At isCode lines i ∨ At isEmpty lines i) ∧
      Over lines m := by
  induction hn : lines.length - k using Nat.strongRecOn generalizing k with
  | ind n ih =>
      rcases Nat.eq_or_lt_of_le hk with rfl | hlt
      · exact ⟨lines.length, Nat.le_refl _, fun i h1 h2 => absurd h1 (by omega), .inl rfl⟩
      · by_cases hcont : At isCode lines k ∨ At isEmpty lines k
        · obtain ⟨m, hm, hall, hover⟩ := ih (lines.length - (k + 1)) (by omega) hlt rfl
          refine ⟨m, by omega, fun i h1 h2 => ?_, hover⟩
          rcases Nat.eq_or_lt_of_le h1 with rfl | h1
          · exact hcont
          · exact hall i h1 h2
        · rw [not_or] at hcont
          exact ⟨k, Nat.le_refl k, fun i h1 h2 => absurd h1 (by omega),
            .inr (at_isOther hlt hcont.1 hcont.2)⟩

/-- The last code line of a run. -/
theorem exists_last {first m : Nat} (hcode : At isCode lines first) (hm : first < m)
    (hall : ∀ i, first ≤ i → i < m → At isCode lines i ∨ At isEmpty lines i) :
    ∃ last, first ≤ last ∧ last < m ∧ At isCode lines last ∧
      ∀ i, last < i → i < m → At isEmpty lines i := by
  induction m with
  | zero => exact absurd hm (Nat.not_lt_zero _)
  | succ m ih =>
      rcases hall m (by omega) (Nat.lt_succ_self m) with h | h
      · exact ⟨m, by omega, Nat.lt_succ_self m, h, fun i h1 h2 => absurd h1 (by omega)⟩
      · have hne : first ≠ m := fun heq => isCode_not_isEmpty (heq ▸ hcode) h
        obtain ⟨last, h1, h2, hlast, hrest⟩ :=
          ih (by omega) fun i h1 h2 => hall i h1 (by omega)
        refine ⟨last, h1, by omega, hlast, fun i hi1 hi2 => ?_⟩
        rcases Nat.eq_or_lt_of_le (Nat.le_of_lt_succ hi2) with rfl | hi2
        · exact h
        · exact hrest i hi1 hi2

/-- A code line at the start of the text begins a block. -/
theorem exists_block (hcode : At isCode lines 0) : ∃ last, Block lines 0 last := by
  obtain ⟨m, hm, hall, hover⟩ := exists_over (Nat.zero_le lines.length)
  have hpos : 0 < m := Nat.pos_of_ne_zero fun h => hover.not_at (.inl (h ▸ hcode))
  obtain ⟨last, h1, h2, hlast, hrest⟩ := exists_last hcode hpos hall
  exact ⟨last, h1, hcode, hlast, fun k h3 h4 => hall k h3 (by omega), .inl rfl,
    m, h2, hrest, hover⟩

namespace Block

variable {first last : Nat}

theorem last_lt (h : Block lines first last) : last < lines.length := h.code_last.lt

/-- A block is tried. -/
theorem begins (h : Block lines first last) :
    first = 0 ∨ 2 ≤ first ∧ At isEmpty lines (first - 1) := by
  rcases h.start with h0 | ⟨j, hj, -, hempty⟩
  · exact .inl h0
  · exact .inr ⟨by omega, hempty (first - 1) (by omega) (by omega)⟩

/-- A match from in front of a block ends in front of it. -/
theorem not_covered (h : Block lines first last) {r : Nat × Nat}
    (hr : tried lines r.1 = some r.2) (hlt : r.1 < first) : r.1 + r.2 + 2 ≤ first := by
  obtain ⟨hcode, ⟨hle, hall, -⟩, -⟩ := tried_eq_some hr
  rcases h.start with h0 | ⟨j, hj, hother, hempty⟩
  · omega
  · have hrj : r.1 < j := by
      rcases Nat.lt_trichotomy r.1 j with hrj | hrj | hrj
      · exact hrj
      · exact absurd hcode (isOther_not_isCode (hrj ▸ hother))
      · exact absurd (hempty r.1 hrj hlt) (isCode_not_isEmpty hcode)
    have hend : ¬ j < r.1 + r.2 := fun hjr =>
      (hall j hrj hjr).elim (isOther_not_isCode hother) (isOther_not_isEmpty hother)
    omega

/-- A match that begins with a block is found. -/
theorem mem_places (h : Block lines first last) {n : Nat} (hn : tried lines first = some n) :
    (first, n) ∈ places lines := by
  rcases mem_places_or hn with hmem | ⟨r, hr, hlt, hcover⟩
  · exact hmem
  · exact absurd (h.not_covered (tried_of_mem_places hr) hlt) (by omega)

/-- If the match may end behind the block, it takes the block and the empty lines. -/
theorem tried_eq (h : Block lines first last) {m : Nat} (hm : last < m)
    (hempty : ∀ k, last < k → k < m → At isEmpty lines k) (hend : MayEnd lines m) :
    tried lines first = some (m - first) ∧ Over lines m := by
  have hfirst := h.le
  have hin : ∀ i, first + 1 ≤ i → i < m → At isCode lines i ∨ At isEmpty lines i := by
    intro i h1 h2
    rcases Nat.lt_or_ge last i with h3 | h3
    · exact .inr (hempty i h3 h2)
    · exact h.inside i (by omega) h3
  have hover : Over lines m := by
    obtain ⟨m', hm', hempty', hover⟩ := h.ended
    rcases Nat.lt_trichotomy m m' with hlt | rfl | hlt
    · have hme := hempty' m hm hlt
      rcases hend with rfl | hnext
      · exact absurd hme.lt (Nat.lt_irrefl _)
      · exact absurd hme (isNext_not_isEmpty hnext)
    · exact hover
    · exact absurd (.inr (hempty m' hm' hlt)) (Over.not_at hover)
  have hreach : Reaches lines (first + 1) m := ⟨by omega, hin, hend⟩
  obtain ⟨n, hn⟩ := exists_tried h.begins h.code_first hreach
  obtain ⟨-, ⟨hle, hall, -⟩, hmax⟩ := tried_eq_some hn
  have hmn := hmax m hreach
  rcases Nat.eq_or_lt_of_le hmn with heq | hlt
  · exact ⟨by rw [hn, heq]; simp, hover⟩
  · exact absurd (hall m (by omega) hlt) hover.not_at

end Block

/-! ### What is printed of some lines -/

theorem rdropWhile_append_space {a b : Text} (hb : ∀ c ∈ b, isSpace c = true) :
    (a ++ b).rdropWhile isSpace = a.rdropWhile isSpace := by
  induction b using List.reverseRecOn with
  | nil => rw [List.append_nil]
  | append_singleton b c ih =>
      rw [← List.append_assoc, List.rdropWhile_concat_pos isSpace _ c (hb c (by simp))]
      exact ih fun d hd => hb d (by simp [hd])

theorem trim_cons {c : UInt8} (hc : c ≠ 10) (t : Text) :
    trim (c :: t) = (c :: t).rdropWhile isSpace :=
  congrArg (List.rdropWhile isSpace) (if_neg (by simpa using hc))

theorem trim_append_space {c : UInt8} {a b : Text} (hc : c ≠ 10)
    (hb : ∀ c ∈ b, isSpace c = true) : trim (c :: a ++ b) = trim (c :: a) := by
  rw [List.cons_append, trim_cons hc, trim_cons hc, ← List.cons_append,
    rdropWhile_append_space hb]

/-- Something that is not white space shows in what is printed. -/
theorem trim_append_ne {c : UInt8} {a b : Text} (hc : c ≠ 10)
    (hb : ∃ d ∈ b, isSpace d = false) : trim (c :: a ++ b) ≠ trim (c :: a) := by
  have hdrop : b.reverse.dropWhile isSpace ≠ [] := by
    obtain ⟨d, hd, hspace⟩ := hb
    intro hnil
    have hall := List.dropWhile_eq_nil_iff.mp hnil d (List.mem_reverse.mpr hd)
    rw [hspace] at hall
    exact absurd hall (by simp)
  have hlong : (c :: a ++ b).rdropWhile isSpace = c :: a ++ b.rdropWhile isSpace := by
    rw [List.rdropWhile, List.reverse_append, List.dropWhile_append,
      if_neg (by simpa using hdrop), List.reverse_append, List.reverse_reverse]
    rfl
  have hlen := (List.rdropWhile_prefix isSpace (c :: a)).length_le
  have hpos : 0 < (b.rdropWhile isSpace).length := by
    rw [List.rdropWhile, List.length_reverse]
    exact List.length_pos_iff.mpr hdrop
  intro heq
  rw [List.cons_append, trim_cons hc, trim_cons hc, ← List.cons_append, hlong] at heq
  have hlength := congrArg List.length heq
  rw [List.length_append] at hlength
  omega

/-- The text of the lines from `i` up to `j`. -/
def textOf (lines : List Text) (i j : Nat) : Text := ((lines.drop i).take (j - i)).flatten

theorem textOf_append {i j m : Nat} (hij : i ≤ j) (hjm : j ≤ m) :
    textOf lines i m = textOf lines i j ++ textOf lines j m := by
  have hsum : m - i = (j - i) + (m - j) := by omega
  rw [textOf, textOf, textOf, hsum, List.take_add, List.drop_drop, List.flatten_append,
    Nat.add_sub_cancel' hij]

/-- Code lines do not begin with a newline. -/
theorem textOf_cons {i j : Nat} (hcode : At isCode lines i) (hij : i < j) :
    ∃ c t, textOf lines i j = c :: t ∧ c ≠ 10 := by
  obtain ⟨n, hn⟩ : ∃ n, j - i = n + 1 := ⟨j - i - 1, by omega⟩
  have hi := hcode.lt
  rw [at_of_lt hi] at hcode
  obtain ⟨d, hd, u, hu⟩ := isCode_iff.mp hcode
  rw [textOf, hn, List.drop_eq_getElem_cons hi, List.take_succ_cons, List.flatten_cons, ← hu]
  rcases hd with rfl | rfl
  · exact ⟨32, _, rfl, by decide⟩
  · exact ⟨9, _, rfl, by decide⟩

theorem isSpace_of_mem_textOf {i j : Nat} (hempty : ∀ k, i ≤ k → k < j → At isEmpty lines k) :
    ∀ c ∈ textOf lines i j, isSpace c = true := by
  intro c hc
  obtain ⟨l, hl, hcl⟩ := List.mem_flatten.mp hc
  obtain ⟨n, hn⟩ := List.mem_iff_getElem?.mp hl
  rw [List.getElem?_take] at hn
  split at hn
  · rename_i hlt
    rw [List.getElem?_drop] at hn
    have hline := hempty (i + n) (by omega) (by omega)
    rw [At, hn] at hline
    obtain rfl : l = [10] := eq_of_beq hline
    obtain rfl : c = 10 := by simpa using hcl
    rfl
  · exact absurd hn (by simp)

theorem exists_not_isSpace {i j : Nat} (hnext : At isNext lines i) (hij : i < j) :
    ∃ c ∈ textOf lines i j, isSpace c = false := by
  obtain ⟨n, hn⟩ : ∃ n, j - i = n + 1 := ⟨j - i - 1, by omega⟩
  have hi := hnext.lt
  rw [at_of_lt hi, isNext, Bool.and_eq_true] at hnext
  obtain ⟨c, hc, hspace⟩ := (Option.any_eq_true _ _).mp hnext.2
  have hmem : c ∈ lines[i] := (List.dropWhile_suffix isBlank).mem (List.mem_of_head? hc)
  refine ⟨c, ?_, by simpa using hspace⟩
  rw [textOf, hn, List.drop_eq_getElem_cons hi, List.take_succ_cons, List.flatten_cons]
  exact List.mem_append_left _ hmem

namespace Block

variable {first last : Nat}

/-- The empty lines behind a block do not show. -/
theorem trim_textOf (h : Block lines first last) {m : Nat} (hm : last < m)
    (hempty : ∀ k, last < k → k < m → At isEmpty lines k) :
    trim (textOf lines first m) = blockText lines first last := by
  have hle := h.le
  obtain ⟨c, t, htext, hc⟩ := textOf_cons h.code_first (Nat.lt_succ_of_le hle)
  rw [textOf_append (Nat.le_succ_of_le hle) hm, htext,
    trim_append_space hc (isSpace_of_mem_textOf hempty), ← htext]
  rfl

/-- If the match that begins with a block prints the block, it may end behind it. -/
theorem whole_of_trim_eq (h : Block lines first last) {n : Nat}
    (hn : tried lines first = some n)
    (htrim : trim (textOf lines first (first + n)) = blockText lines first last) :
    ∃ m, last < m ∧ (∀ k, last < k → k < m → At isEmpty lines k) ∧ MayEnd lines m := by
  have hle := h.le
  obtain ⟨m, hm, hempty, hover⟩ := h.ended
  obtain ⟨-, ⟨hpos, hall, hend⟩, -⟩ := tried_eq_some hn
  rcases Nat.lt_trichotomy (first + n) m with hlt | heq | hgt
  · have hin : At isCode lines (first + n) ∨ At isEmpty lines (first + n) := by
      rcases Nat.lt_or_ge last (first + n) with hlast | hlast
      · exact .inr (hempty _ hlast hlt)
      · exact h.inside _ (by omega) hlast
    -- the match ends in front of a line of the run, so a line was given back
    have hnext : At isNext lines (first + n) := by
      refine hend.resolve_left fun heq => ?_
      exact absurd (hin.elim At.lt At.lt) (by omega)
    have hback : first + n ≤ last := by
      refine Nat.le_of_not_lt fun hlast => ?_
      exact isNext_not_isEmpty hnext (hempty _ hlast hlt)
    obtain ⟨c, t, htext, hc⟩ := textOf_cons h.code_first hpos
    have hlost := trim_append_ne (a := t) hc (exists_not_isSpace hnext (Nat.lt_succ_of_le hback))
    rw [← htext, ← textOf_append (by omega) (Nat.le_succ_of_le hback)] at hlost
    exact absurd htrim.symm hlost
  · exact ⟨m, hm, hempty, heq ▸ hend⟩
  · exact absurd (hall m (by omega) hgt) hover.not_at

end Block

/-! ### The whole text -/

/-- Two matches are one, or one begins behind the other. -/
theorem places_apart {r s : Nat × Nat} (hr : r ∈ places lines) (hs : s ∈ places lines) :
    r = s ∨ r.1 + r.2 + 2 ≤ s.1 ∨ s.1 + s.2 + 2 ≤ r.1 := by
  obtain ⟨i, hi, rfl⟩ := List.getElem_of_mem hr
  obtain ⟨j, hj, rfl⟩ := List.getElem_of_mem hs
  have hpairwise := List.pairwise_iff_getElem.mp (places_pairwise lines)
  rcases Nat.lt_trichotomy i j with hij | rfl | hij
  · exact .inr (.inl (hpairwise i j hi hj hij))
  · exact .inl rfl
  · exact .inr (.inr (hpairwise j i hj hi hij))

theorem offset_lt (hlines : ∀ l ∈ lines, WholeLine l) {i j : Nat} (hij : i < j)
    (hj : j ≤ lines.length) : offset lines i < offset lines j := by
  obtain ⟨n, rfl⟩ := Nat.exists_eq_add_of_lt hij
  have hi : i < lines.length := by omega
  obtain ⟨t, -, ht⟩ := hlines _ (List.getElem_mem hi)
  have hsum : i + n + 1 = i + 1 + n := by omega
  rw [offset, offset, hsum, List.take_add, List.take_add_one, List.getElem?_eq_getElem hi, ht]
  simp only [Option.toList_some, List.flatten_append, List.flatten_singleton, List.length_append,
    List.length_singleton]
  omega

theorem offset_inj (hlines : ∀ l ∈ lines, WholeLine l) {i j : Nat} (hi : i < lines.length)
    (hj : j < lines.length) (h : offset lines i = offset lines j) : i = j := by
  rcases Nat.lt_trichotomy i j with hij | hij | hij
  · exact absurd h (Nat.ne_of_lt (offset_lt hlines hij hj.le))
  · exact hij
  · exact absurd h.symm (Nat.ne_of_lt (offset_lt hlines hij hi.le))

/-- The matches, as they are printed. -/
def printedPlaces (lines : List Text) : List (Nat × Text) :=
  (places lines).map fun r => (r.1, trim (textOf lines r.1 (r.1 + r.2)))

theorem cb_eq_printedPlaces (hlines : ∀ l ∈ lines, WholeLine l) :
    cb lines.flatten = (printedPlaces lines).map fun r => (offset lines r.1, r.2) := by
  rw [cb_eq hlines, printedPlaces, List.map_map]
  refine List.map_congr_left fun r _ => ?_
  rw [Function.comp_apply, textOf, Nat.add_sub_cancel_left]

/-- In a clean text every match begins with a block. -/
theorem Clean.exists_block (hclean : Clean lines) {r : Nat × Nat} (hr : r ∈ places lines) :
    ∃ last, Block lines r.1 last := by
  have htried := tried_of_mem_places hr
  obtain ⟨hcode, hreach, -⟩ := tried_eq_some htried
  rcases begins_of_tried htried with h0 | ⟨h2, hempty⟩
  · rw [h0] at hcode ⊢
    exact PickCodeblock.exists_block hcode
  · have hin : ∃ first last, Block lines first last ∧ first ≤ r.1 ∧ r.1 ≤ last := by
      by_contra hout
      simp only [not_exists, not_and] at hout
      exact hclean.apart r.1 h2 hempty hcode
        (fun first last hblock ⟨h1, h2⟩ => hout first last hblock h1 h2) ⟨_, hreach⟩
    obtain ⟨first, last, hblock, hfirst, hlast⟩ := hin
    obtain ⟨m, hm, hgap, hend⟩ := hclean.whole first last hblock
    have hmem := hblock.mem_places (hblock.tried_eq hm hgap hend).1
    -- a match inside of the block would overlap with the one that takes the block
    rcases places_apart hmem hr with heq | hapart | hapart
    · exact ⟨last, heq ▸ hblock⟩
    · exact absurd hapart (by dsimp only; omega)
    · exact absurd hapart (by dsimp only; omega)

/-- In a clean text the match that begins with a block prints it. -/
theorem Clean.trim_textOf (hclean : Clean lines) {first last n : Nat}
    (hblock : Block lines first last) (hn : tried lines first = some n) :
    trim (textOf lines first (first + n)) = blockText lines first last := by
  obtain ⟨m, hm, hgap, hend⟩ := hclean.whole first last hblock
  obtain rfl : m - first = n := Option.some.inj ((hblock.tried_eq hm hgap hend).1.symm.trans hn)
  have hle := hblock.le
  rw [Nat.add_sub_cancel' (by omega), hblock.trim_textOf hm hgap]

theorem Clean.pieces (hclean : Clean lines) : Pieces lines (printedPlaces lines) := by
  constructor
  · rw [printedPlaces, List.pairwise_map]
    exact (places_pairwise lines).imp fun {r s} h => by omega
  · intro r
    constructor
    · intro hr
      obtain ⟨s, hs, rfl⟩ := List.mem_map.mp hr
      obtain ⟨last, hblock⟩ := hclean.exists_block hs
      exact ⟨last, hblock, hclean.trim_textOf hblock (tried_of_mem_places hs)⟩
    · intro hp
      obtain ⟨last, hblock, htext⟩ := hp
      obtain ⟨m, hm, hgap, hend⟩ := hclean.whole r.1 last hblock
      have htried := (hblock.tried_eq hm hgap hend).1
      refine List.mem_map.mpr ⟨_, hblock.mem_places htried, Prod.ext rfl ?_⟩
      rw [htext, hclean.trim_textOf hblock htried]

/-- If the matches print the blocks, the text is clean. -/
theorem clean_of_pieces (h : Pieces lines (printedPlaces lines)) : Clean lines := by
  have hmatch : ∀ r ∈ places lines, ∃ last, Block lines r.1 last := fun r hr => by
    obtain ⟨last, hblock, -⟩ := (h.blocks _).mp (List.mem_map_of_mem hr)
    exact ⟨last, hblock⟩
  have hwhole : ∀ first last, Block lines first last →
      ∃ m, last < m ∧ (∀ k, last < k → k < m → At isEmpty lines k) ∧ MayEnd lines m := by
    intro first last hblock
    have hpiece := (h.blocks (first, blockText lines first last)).mpr ⟨last, hblock, rfl⟩
    obtain ⟨s, hs, heq⟩ := List.mem_map.mp hpiece
    obtain ⟨rfl, htrim⟩ := Prod.mk.inj heq
    exact hblock.whole_of_trim_eq (tried_of_mem_places hs) htrim
  refine ⟨hwhole, fun k hk hempty hcode hout => ?_⟩
  intro hp
  obtain ⟨m, hreach⟩ := hp
  obtain ⟨n, hn⟩ := exists_tried (.inr ⟨hk, hempty⟩) hcode hreach
  rcases mem_places_or hn with hmem | ⟨r, hr, hlt, hcover⟩
  · obtain ⟨last, hblock⟩ := hmatch _ hmem
    exact hout k last hblock ⟨Nat.le_refl k, hblock.le⟩
  · -- the match that has taken line `k` took a block, and `k` with it
    obtain ⟨last, hblock⟩ := hmatch r hr
    obtain ⟨m', hm', hgap, hend⟩ := hwhole _ _ hblock
    obtain ⟨htried, hover⟩ := hblock.tried_eq hm' hgap hend
    have htaken : r.2 = m' - r.1 := Option.some.inj ((tried_of_mem_places hr).symm.trans htried)
    have hlast : ¬ k ≤ last := fun hle => hout _ _ hblock ⟨hlt.le, hle⟩
    rcases Nat.lt_trichotomy k m' with hkm | rfl | hkm
    · exact isCode_not_isEmpty hcode (hgap k (by omega) hkm)
    · exact hover.not_at (.inl hcode)
    · have hle := hblock.le
      have hkm' : k - 1 = m' := by omega
      exact hover.not_at (.inr (hkm' ▸ hempty))

theorem eq_of_map_eq {α β : Type} {f : α → β} {a b : List α}
    (hf : ∀ x ∈ a, ∀ y ∈ b, f x = f y → x = y) (h : a.map f = b.map f) : a = b := by
  induction a generalizing b with
  | nil => exact (List.map_eq_nil_iff.mp h.symm).symm
  | cons x a ih =>
      obtain ⟨y, b, rfl, hxy, hab⟩ := List.map_eq_cons_iff.mp h.symm
      rw [hf x (by simp) y (by simp) hxy.symm,
        ih (fun x hx y hy => hf x (by simp [hx]) y (by simp [hy])) hab.symm]

/-- What is taken out is known by where it stands and what it is. -/
theorem printedPlaces_eq (hlines : ∀ l ∈ lines, WholeLine l) {pieces : List (Nat × Text)}
    (hpieces : Pieces lines pieces)
    (hcb : cb lines.flatten = pieces.map fun r => (offset lines r.1, r.2)) :
    printedPlaces lines = pieces := by
  rw [cb_eq_printedPlaces hlines] at hcb
  refine eq_of_map_eq (fun r hr s hs heq => ?_) hcb
  obtain ⟨hoffset, htext⟩ := Prod.mk.inj heq
  obtain ⟨r', hr', rfl⟩ := List.mem_map.mp hr
  obtain ⟨last, hblock, -⟩ := (hpieces.blocks s).mp hs
  refine Prod.ext (offset_inj hlines ?_ hblock.code_first.lt hoffset) htext
  exact lt_length_of_tried (tried_of_mem_places hr')

/-- For a text whose lines all end in a newline: the script takes out exactly the code
blocks if and only if the text is clean, and then it prints exactly the code blocks. (As
strings alone, what is printed for another text may be right by chance.) -/
theorem takesBlocks_iff {t : Text} (hlast : ∀ l ∈ splitLines t, l.getLast? = some 10) :
    (TakesBlocks t ↔ Clean (splitLines t)) ∧ (Clean (splitLines t) → PrintsBlocks t) := by
  have hlines : ∀ l ∈ splitLines t, WholeLine l := fun l hl =>
    wholeLine_of_mem_splitLines hl (hlast l hl)
  have hflat : (splitLines t).flatten = t := flatten_splitLines t
  have hcb : cb t =
      (printedPlaces (splitLines t)).map fun r => (offset (splitLines t) r.1, r.2) := by
    rw [← cb_eq_printedPlaces hlines, hflat]
  refine ⟨⟨?_, fun hclean => ⟨_, hclean.pieces, hcb⟩⟩, fun hclean => ⟨_, hclean.pieces, ?_⟩⟩
  · intro h
    obtain ⟨pieces, hpieces, heq⟩ := h
    obtain rfl := printedPlaces_eq hlines hpieces (by rw [hflat]; exact heq)
    exact clean_of_pieces hpieces
  · rw [printed, hcb, List.map_map]
    rfl

/-- One code line, then a line of text. -/
theorem takesBlocks_line :
    TakesBlocks (text "    a\nx\n") ∧ PrintsBlocks (text "    a\nx\n") := by
  have hlines : splitLines (text "    a\nx\n") = [[32, 32, 32, 32, 97, 10], [120, 10]] := by
    decide +kernel
  have hclean : Clean (splitLines (text "    a\nx\n")) := by
    rw [hlines]
    constructor
    · intro first last hblock
      have hlast := hblock.last_lt
      have hcode := hblock.code_last
      obtain rfl : last = 0 := by
        rcases Nat.eq_zero_or_pos last with h | h
        · exact h
        · obtain rfl : last = 1 := by simp only [List.length_cons, List.length_nil] at hlast; omega
          exact absurd hcode (by decide)
      exact ⟨1, Nat.one_pos, fun k h1 h2 => absurd h1 (by omega), .inr (by decide)⟩
    · intro k hk _ hcode
      exact absurd hcode.lt (by simp; omega)
  have hiff := takesBlocks_iff (t := text "    a\nx\n") (by rw [hlines]; decide)
  exact ⟨hiff.1.mpr hclean, hiff.2 hclean⟩

/-- A block of two lines in front of a line that holds a space: the second line is given
back, and what is printed is the first one only. -/
theorem printed_loses_line :
    (∀ l ∈ splitLines (text "    a\n    b\n \nx\n"), l.getLast? = some 10) ∧
      ¬ PrintsBlocks (text "    a\n    b\n \nx\n") := by
  have hlines : splitLines (text "    a\n    b\n \nx\n") =
      [[32, 32, 32, 32, 97, 10], [32, 32, 32, 32, 98, 10], [32, 10], [120, 10]] := by
    decide +kernel
  have hprinted : printed (text "    a\n    b\n \nx\n") = [[32, 32, 32, 32, 97]] := by
    decide +kernel
  rw [PrintsBlocks, hlines, hprinted]
  refine ⟨by decide, ?_⟩
  intro h
  obtain ⟨pieces, hpieces, heq⟩ := h
  have hblock : Block [[32, 32, 32, 32, 97, 10], [32, 32, 32, 32, 98, 10], [32, 10], [120, 10]]
      0 1 := by
    refine ⟨Nat.zero_le 1, by decide, by decide, fun k _ hk => ?_, .inl rfl, 2, by omega,
      fun k h1 h2 => absurd h1 (by omega), .inr (by decide)⟩
    rcases Nat.le_one_iff_eq_zero_or_eq_one.mp hk with rfl | rfl <;> exact .inl (by decide)
  have hmem := List.mem_map_of_mem (f := Prod.snd) ((hpieces.blocks (0, _)).mpr ⟨1, hblock, rfl⟩)
  rw [← heq] at hmem
  exact absurd hmem (by decide +kernel)

end Codelib.PickCodeblock
