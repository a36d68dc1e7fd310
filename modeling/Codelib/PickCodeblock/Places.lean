import Codelib.PickCodeblock.ByLine

/-!
# Codelib.PickCodeblock.Places

The search for all matches, on lines: `places` lists the lines at which a match begins, each
with the number of lines it takes (`findAll_pattern`).

A match is tried at the first line, and at every line behind an empty one (`tried`). What is
tried with success is found, unless a match that began earlier has taken those lines
(`mem_places_or`); and the matches do not overlap (`places_pairwise`).
-/

namespace Codelib.PickCodeblock

open Regex

variable {lines : List Text} {capture : Option (Nat × Text)}

/-- How many lines a match takes that begins at line `k`. -/
def tried (lines : List Text) (k : Nat) : Option Nat :=
  if k = 0 ∨ 2 ≤ k ∧ At isEmpty lines (k - 1) then span (lines.drop k) else none

theorem tried_add_two (lines : List Text) (i : Nat) :
    tried lines (i + 2) =
      if At isEmpty lines (i + 1) then span (lines.drop (i + 2)) else none := by
  simp [tried]

/-- The matches found when the search goes on in front of line `i`. -/
def found (lines : List Text) (i : Nat) : List (Nat × Nat) :=
  if i < lines.length then
    match tried lines (i + 2) with
    | some n => (i + 2, n) :: found lines (i + 2 + n)
    | none => found lines (i + 1)
  else []
termination_by lines.length - i

/-- All matches. -/
def places (lines : List Text) : List (Nat × Nat) :=
  match tried lines 0 with
  | some n => (0, n) :: found lines n
  | none => found lines 0

/-! ### The search by lines -/

/-- Where a match ends. -/
def stop (lines : List Text) (p : Nat × Nat) : Cursor :=
  behind [] lines (some (offset lines p.1, ((lines.drop p.1).take p.2).flatten)) (p.1 + p.2)

theorem behind_add (i m : Nat) (c : Option (Nat × Text)) :
    behind (behind [] lines capture i).before (lines.drop i) c m = behind [] lines c (i + m) := by
  rw [behind, behind, behind, List.take_add, List.drop_drop]
  simp

theorem run_block_at (hlines : ∀ l ∈ lines, WholeLine l) (i : Nat) :
    block.run some (behind [] lines none i) =
      (span (lines.drop i)).map fun m => stop lines (i, m) := by
  have hdrop : ∀ l ∈ lines.drop i, WholeLine l := fun l hl => hlines l (List.mem_of_mem_drop hl)
  have hlen : (behind [] lines none i).before.length = offset lines i := by simp [behind, offset]
  have hblock : block.run some (behind [] lines none i) =
      (span (lines.drop i)).map fun m => behind (behind [] lines none i).before (lines.drop i)
        (some ((behind [] lines none i).before.length, ((lines.drop i).take m).flatten)) m :=
    run_block hdrop
  rw [hblock, hlen]
  simp only [behind_add]
  rfl

/-- At a newline a match is tried behind the next line, if that is empty. -/
theorem run_pattern_newline (hlines : ∀ l ∈ lines, WholeLine l) {i : Nat} {b : Text}
    (hb : 10 :: b = (behind [] lines none (i + 1)).before) :
    pattern.run some ⟨b, 10 :: (lines.drop (i + 1)).flatten, none⟩ =
      (tried lines (i + 2)).map fun m => stop lines (i + 2, m) := by
  have hstart : textStart.run (block.run some)
      ⟨b, 10 :: (lines.drop (i + 1)).flatten, none⟩ = none := by
    rw [run]
    split
    · rw [block, run, run, run, Option.getD_none, Nat.add_comm, repeats, run_codeLine_newline]
    · rfl
  rw [pattern, run, run, hstart, Option.or_none, run, tried_add_two]
  rcases hnext : lines.drop (i + 1) with _ | ⟨l, tail⟩
  · have hnone : ¬ At isEmpty lines (i + 1) := by
      have hle := List.drop_eq_nil_iff.mp hnext
      simp [At, List.getElem?_eq_none hle]
    rw [if_neg hnone]
    rfl
  · have hget : lines[i + 1]? = some l := by
      rw [← List.head?_drop, hnext]
      rfl
    have htail : lines.drop (i + 2) = tail := by
      rw [← List.drop_drop (i := 1) (j := i + 1), hnext]
      rfl
    by_cases hl : l = [10]
    · have hempty : At isEmpty lines (i + 1) := by simp [At, hget, hl, isEmpty]
      have hbehind : (⟨10 :: 10 :: b, tail.flatten, none⟩ : Cursor) =
          behind [] lines none (i + 2) := by
        have hone : lines.take (i + 2) = lines.take (i + 1) ++ [[10]] := by
          rw [List.take_add_one, hget, hl]
          rfl
        rw [behind, hone, htail, hb]
        simp [behind]
      rw [if_pos hempty, hl, ← run_block_at hlines, ← hbehind]
      rfl
    · have hempty : ¬ At isEmpty lines (i + 1) := by simp [At, hget, hl, isEmpty]
      obtain ⟨t, ht, rfl⟩ := hlines l (List.mem_of_getElem? hget)
      rw [if_neg hempty]
      rcases t with _ | ⟨c, t⟩
      · exact absurd rfl hl
      · have hc : c ≠ 10 := fun h => ht (by simp [h])
        simp [newline, run, Cursor.next, hc]

theorem run_pattern_nil {b : Text} : pattern.run some ⟨b, [], none⟩ = none := by
  rw [pattern, run, run, run, newline, run_one_nil, Option.none_or, run]
  split <;> rfl

theorem length_flatten_drop_le (ls : List Text) (m : Nat) :
    (ls.drop m).flatten.length ≤ ls.flatten.length := by
  conv_rhs => rw [← List.take_append_drop m ls, List.flatten_append, List.length_append]
  omega

/-- Within a line nothing is tried, unless the text begins there. -/
theorem scan_skip {b y rest : Text} (hy : 10 ∉ y) (n : Nat)
    (hstart : b = [] → block.run some
      ⟨b, y ++ 10 :: rest, none⟩ = none) :
    scan pattern (n + y.length) ⟨b, y ++ 10 :: rest, capture⟩ =
      scan pattern n ⟨y.reverse ++ b, 10 :: rest, capture⟩ := by
  induction y generalizing b with
  | nil => rfl
  | cons c y ih =>
      have hc : c ≠ 10 := fun h => hy (by simp [h])
      have hrun : pattern.run some ⟨b, c :: (y ++ 10 :: rest), none⟩ = none := by
        rw [pattern, run, run, run, newline, run_one_cons, if_neg (by simp [hc]), Option.none_or,
          run]
        split
        · rename_i hb
          exact hstart hb
        · rfl
      rw [List.length_cons, ← Nat.add_assoc, scan]
      dsimp only
      rw [List.cons_append, hrun]
      have hmove := ih (b := c :: b) (fun h => hy (List.mem_cons_of_mem c h)) (by simp)
      rw [List.reverse_cons, List.append_assoc]
      exact hmove

/-- At the start of a text that does not begin with a match. -/
theorem run_block_start (hlines : ∀ l ∈ lines, WholeLine l) {i : Nat}
    (hstart : i = 0 → span lines = none) (h : (lines.take i).flatten.reverse = []) :
    block.run some (behind [] lines none i) = none := by
  rw [run_block_at hlines]
  rcases Nat.eq_zero_or_pos i with rfl | hi
  · rw [List.drop_zero, hstart rfl]
    rfl
  · cases lines with
    | nil => rw [List.drop_nil]; rfl
    | cons l ls =>
        obtain ⟨i, rfl⟩ : ∃ i', i = i' + 1 := ⟨i - 1, by omega⟩
        obtain ⟨t, -, rfl⟩ := hlines l List.mem_cons_self
        simp at h

/-- The search goes over one line, to its newline, and tries a match there. -/
theorem scan_line (hlines : ∀ l ∈ lines, WholeLine l) {i : Nat} (hi : i < lines.length)
    (hstart : i = 0 → span lines = none) (n : Nat) :
    scan pattern (n + lines[i].length) (behind [] lines capture i) =
      match tried lines (i + 2) with
      | some m => stop lines (i + 2, m) :: scan pattern n (stop lines (i + 2, m))
      | none => scan pattern n (behind [] lines capture (i + 1)) := by
  obtain ⟨y, hy, hl⟩ := hlines _ (List.getElem_mem hi)
  have hdrop : (lines.drop i).flatten = y ++ 10 :: (lines.drop (i + 1)).flatten := by
    rw [List.drop_eq_getElem_cons hi, List.flatten_cons, hl]
    simp
  have htake : 10 :: (y.reverse ++ (lines.take i).flatten.reverse) =
      (behind [] lines none (i + 1)).before := by
    rw [behind, List.take_add_one, List.getElem?_eq_getElem hi, hl]
    simp
  have hbehind : (⟨10 :: (y.reverse ++ (lines.take i).flatten.reverse),
      (lines.drop (i + 1)).flatten, capture⟩ : Cursor) = behind [] lines capture (i + 1) := by
    rw [htake]
    rfl
  have hlen : n + lines[i].length = n + 1 + y.length := by
    rw [hl, List.length_append, List.length_singleton]
    omega
  have hblock := run_block_start hlines hstart
  rw [behind, hdrop, List.append_nil] at hblock
  rw [hlen, behind, hdrop, List.append_nil, scan_skip hy (n + 1) hblock, scan]
  dsimp only
  rw [run_pattern_newline hlines htake]
  cases tried lines (i + 2) with
  | none =>
      rw [← hbehind]
      rfl
  | some m => rfl

/-- The search from the front of a line on. -/
theorem scan_lines (hlines : ∀ l ∈ lines, WholeLine l) {i n : Nat}
    (hn : (lines.drop i).flatten.length < n) (hstart : i = 0 → span lines = none) :
    scan pattern n (behind [] lines capture i) = (found lines i).map (stop lines) := by
  induction hk : lines.length - i using Nat.strongRecOn generalizing i n capture with
  | ind k ih =>
      rw [found]
      split
      · rename_i hi
        rw [List.drop_eq_getElem_cons hi, List.flatten_cons, List.length_append] at hn
        obtain ⟨n, rfl⟩ : ∃ n', n = n' + lines[i].length := ⟨n - lines[i].length, by omega⟩
        rw [scan_line hlines hi hstart]
        cases htried : tried lines (i + 2) with
        | none => exact ih (lines.length - (i + 1)) (by omega) (by omega) (by omega) rfl
        | some m =>
            have hle := length_flatten_drop_le (lines.drop (i + 1)) (1 + m)
            have hsum : i + 1 + (1 + m) = i + 2 + m := by omega
            rw [List.drop_drop, hsum] at hle
            dsimp only
            rw [List.map_cons, stop,
              ih (lines.length - (i + 2 + m)) (by omega) (by omega) (by omega) rfl]
      · rename_i hi
        have hnil : lines.drop i = [] := List.drop_eq_nil_iff.mpr (by omega)
        obtain ⟨n, rfl⟩ : ∃ n', n = n' + 1 := ⟨n - 1, by omega⟩
        rw [behind, hnil, List.flatten_nil, scan]
        dsimp only
        rw [run_pattern_nil]
        rfl

/-- The matches are those the search by lines finds. -/
theorem findAll_pattern (hlines : ∀ l ∈ lines, WholeLine l) :
    findAll pattern lines.flatten = (places lines).map (stop lines) := by
  have htried : tried lines 0 = span lines := by simp [tried]
  rw [findAll, places, htried]
  cases hspan : span lines with
  | none =>
      have hstart : (⟨[], lines.flatten, none⟩ : Cursor) = behind [] lines none 0 := rfl
      rw [hstart]
      exact scan_lines hlines (by simp) fun _ => hspan
  | some m =>
      obtain ⟨l, ls, rfl⟩ := List.exists_cons_of_ne_nil (pos_of_span hspan).2
      have hrun : pattern.run some ⟨[], (l :: ls).flatten, none⟩ =
          some (stop (l :: ls) (0, m)) := by
        have hblock := run_block_at hlines 0
        rw [List.drop_zero, hspan, Option.map_some] at hblock
        -- the text begins with a code line
        have hhead : (l :: ls).head? ≠ some [10] := fun h => by
          obtain rfl : l = [10] := by simpa using h
          exact absurd hspan (by simp [span, show isCode [10] = false from rfl])
        have hnewline : ∀ k, newline.run k ⟨[], (l :: ls).flatten, none⟩ = none := fun k =>
          run_one_none fun c hc => by simpa using flatten_head_ne hlines hhead c hc
        rw [pattern, run, run, run, hnewline, Option.none_or, run]
        exact hblock
      have hlt : ((l :: ls).drop m).flatten.length < (l :: ls).flatten.length := by
        obtain ⟨m, rfl⟩ : ∃ m', m = m' + 1 := ⟨m - 1, by have := (pos_of_span hspan).1; omega⟩
        obtain ⟨t, -, rfl⟩ := hlines l List.mem_cons_self
        have hle := length_flatten_drop_le ls m
        simp only [List.drop_succ_cons, List.flatten_cons, List.length_append,
          List.length_singleton]
        omega
      rw [scan]
      dsimp only
      rw [hrun, List.map_cons]
      dsimp only
      rw [stop, Nat.zero_add, scan_lines hlines hlt (by have := (pos_of_span hspan).1; omega)]

/-- What the script prints, by lines. -/
theorem cb_eq (hlines : ∀ l ∈ lines, WholeLine l) :
    cb lines.flatten = (places lines).map fun p =>
      (offset lines p.1, trim ((lines.drop p.1).take p.2).flatten) := by
  have hcapture : Cursor.capture ∘ stop lines = fun p =>
      some (offset lines p.1, ((lines.drop p.1).take p.2).flatten) := rfl
  rw [cb, findAll_pattern hlines, List.filterMap_map, hcapture, List.filterMap_eq_map',
    List.map_map]
  rfl

/-! ### What is found -/

theorem lt_length_of_tried {k n : Nat} (h : tried lines k = some n) : k < lines.length := by
  rw [tried] at h
  split at h
  · have hne := (pos_of_span h).2
    exact Nat.lt_of_not_le fun hle => hne (List.drop_eq_nil_iff.mpr hle)
  · exact absurd h (by simp)

theorem begins_of_tried {k n : Nat} (h : tried lines k = some n) :
    k = 0 ∨ 2 ≤ k ∧ At isEmpty lines (k - 1) := by
  rw [tried] at h
  split at h
  · assumption
  · exact absurd h (by simp)

theorem mem_found {i : Nat} {p : Nat × Nat} (h : p ∈ found lines i) :
    i + 2 ≤ p.1 ∧ tried lines p.1 = some p.2 := by
  fun_induction found lines i with
  | case1 i hi n htried ih =>
      rcases List.mem_cons.mp h with rfl | h
      · exact ⟨Nat.le_refl _, htried⟩
      · obtain ⟨hle, hp⟩ := ih h
        exact ⟨by omega, hp⟩
  | case2 i hi htried ih =>
      obtain ⟨hle, hp⟩ := ih h
      exact ⟨by omega, hp⟩
  | case3 i hi => exact absurd h (by simp)

theorem found_pairwise (i : Nat) :
    (found lines i).Pairwise fun p q => p.1 + p.2 + 2 ≤ q.1 := by
  fun_induction found lines i with
  | case1 i hi n htried ih => exact List.pairwise_cons.mpr ⟨fun q hq => (mem_found hq).1, ih⟩
  | case2 i hi htried ih => exact ih
  | case3 i hi => exact List.Pairwise.nil

theorem mem_found_or {i k n : Nat} (h : tried lines k = some n) (hk : i + 2 ≤ k) :
    (k, n) ∈ found lines i ∨ ∃ p ∈ found lines i, p.1 < k ∧ k < p.1 + p.2 + 2 := by
  fun_induction found lines i with
  | case1 i hi m htried ih =>
      rcases Nat.eq_or_lt_of_le hk with rfl | hlt
      · obtain rfl : m = n := Option.some.inj (htried.symm.trans h)
        exact .inl List.mem_cons_self
      · rcases Nat.lt_or_ge k (i + 2 + m + 2) with hcover | hbehind
        · exact .inr ⟨_, List.mem_cons_self, hlt, hcover⟩
        · rcases ih hbehind with hmem | ⟨p, hp, hcover⟩
          · exact .inl (List.mem_cons_of_mem _ hmem)
          · exact .inr ⟨p, List.mem_cons_of_mem _ hp, hcover⟩
  | case2 i hi htried ih =>
      refine ih (Nat.lt_of_le_of_ne hk fun heq => ?_)
      rw [heq, h] at htried
      exact absurd htried (by simp)
  | case3 i hi => exact absurd (lt_length_of_tried h) (by omega)

/-- What is found has been tried. -/
theorem tried_of_mem_places {p : Nat × Nat} (h : p ∈ places lines) :
    tried lines p.1 = some p.2 := by
  rw [places] at h
  split at h
  · rename_i n hn
    rcases List.mem_cons.mp h with rfl | h
    · exact hn
    · exact (mem_found h).2
  · exact (mem_found h).2

/-- The matches do not overlap; the two newlines in front of one belong to none. -/
theorem places_pairwise (lines : List Text) :
    (places lines).Pairwise fun p q => p.1 + p.2 + 2 ≤ q.1 := by
  rw [places]
  split
  · exact List.pairwise_cons.mpr ⟨fun q hq => by have := (mem_found hq).1; omega, found_pairwise _⟩
  · exact found_pairwise 0

/-- What is tried with success is found, or lies in a match that began earlier. -/
theorem mem_places_or {k n : Nat} (h : tried lines k = some n) :
    (k, n) ∈ places lines ∨ ∃ p ∈ places lines, p.1 < k ∧ k < p.1 + p.2 + 2 := by
  have hk : k = 0 ∨ 2 ≤ k := (begins_of_tried h).imp_right And.left
  rw [places]
  split
  · rename_i m hm
    rcases hk with rfl | hk
    · obtain rfl : m = n := Option.some.inj (hm.symm.trans h)
      exact .inl List.mem_cons_self
    · rcases Nat.lt_or_ge k (m + 2) with hcover | hbehind
      · exact .inr ⟨_, List.mem_cons_self, by omega, by omega⟩
      · rcases mem_found_or h hbehind with hmem | ⟨p, hp, hcover⟩
        · exact .inl (List.mem_cons_of_mem _ hmem)
        · exact .inr ⟨p, List.mem_cons_of_mem _ hp, hcover⟩
  · rename_i hnone
    rcases hk with rfl | hk
    · rw [hnone] at h
      exact absurd h (by simp)
    · exact mem_found_or h hk

/-! ### What a match takes -/

theorem at_cons_zero {p : Text → Bool} {l : Text} : At p (l :: lines) 0 ↔ p l = true := by
  simp [At]

theorem at_cons_succ {p : Text → Bool} {l : Text} {k : Nat} :
    At p (l :: lines) (k + 1) ↔ At p lines k := by
  simp [At]

theorem reaches_nil {m : Nat} : Reaches [] 0 m ↔ m = 0 := by
  constructor
  · intro hp
    obtain ⟨-, hall, -⟩ := hp
    refine Nat.eq_zero_of_not_pos fun hm => ?_
    have h := hall 0 (Nat.le_refl 0) hm
    simp [At] at h
  · intro heq
    obtain rfl := heq
    exact ⟨Nat.le_refl 0, fun i _ hi => absurd hi (Nat.not_lt_zero i), .inl rfl⟩

theorem reaches_zero {l : Text} : Reaches (l :: lines) 0 0 ↔ isNext l = true := by
  simp [Reaches, MayEnd, at_cons_zero]

theorem reaches_succ {l : Text} {m : Nat} :
    Reaches (l :: lines) 0 (m + 1) ↔ (isCode l = true ∨ isEmpty l = true) ∧ Reaches lines 0 m := by
  constructor
  · intro h
    obtain ⟨-, hall, hend⟩ := h
    refine ⟨?_, Nat.zero_le m, fun i _ hi => ?_, ?_⟩
    · simpa [at_cons_zero] using hall 0 (Nat.le_refl 0) (Nat.succ_pos m)
    · simpa [at_cons_succ] using hall (i + 1) (Nat.zero_le _) (Nat.succ_lt_succ hi)
    · simpa [MayEnd, at_cons_succ] using hend
  · intro h
    obtain ⟨hl, -, hall, hend⟩ := h
    refine ⟨Nat.zero_le _, fun i _ hi => ?_, ?_⟩
    · cases i with
      | zero => simpa [at_cons_zero] using hl
      | succ i => simpa [at_cons_succ] using hall i (Nat.zero_le i) (Nat.lt_of_succ_lt_succ hi)
    · simpa [MayEnd, at_cons_succ] using hend

theorem not_reaches_of_more {m : Nat} (h : more lines = none) : ¬ Reaches lines 0 m := by
  induction lines generalizing m with
  | nil => exact absurd h (by simp [more])
  | cons l lines ih =>
      obtain ⟨hmore, hnext⟩ := Option.or_eq_none_iff.mp h
      intro hm
      cases m with
      | zero => exact absurd hnext (by simp [reaches_zero.mp hm])
      | succ m =>
          obtain ⟨hl, hm⟩ := reaches_succ.mp hm
          rw [if_pos hl, Option.map_eq_none_iff] at hmore
          exact ih hmore hm

theorem reaches_of_more {n : Nat} (h : more lines = some n) : Reaches lines 0 n := by
  induction lines generalizing n with
  | nil =>
      obtain rfl : 0 = n := Option.some.inj h
      exact reaches_nil.mpr rfl
  | cons l lines ih =>
      rcases Option.or_eq_some_iff.mp h with h | ⟨-, h⟩
      · split at h
        · rename_i hl
          obtain ⟨n, hn, rfl⟩ := Option.map_eq_some_iff.mp h
          exact reaches_succ.mpr ⟨hl, ih hn⟩
        · exact absurd h (by simp)
      · split at h
        · rename_i hl
          obtain rfl : 0 = n := Option.some.inj h
          exact reaches_zero.mpr hl
        · exact absurd h (by simp)

/-- The group goes on as far as it can. -/
theorem le_of_reaches {m n : Nat} (h : more lines = some n) (hm : Reaches lines 0 m) : m ≤ n := by
  induction lines generalizing m n with
  | nil => exact reaches_nil.mp hm ▸ Nat.zero_le n
  | cons l lines ih =>
      cases m with
      | zero => exact Nat.zero_le n
      | succ m =>
          obtain ⟨hl, hm⟩ := reaches_succ.mp hm
          rw [more, if_pos hl] at h
          cases hmore : more lines with
          | none => exact absurd hm (not_reaches_of_more hmore)
          | some n' =>
              rw [hmore, Option.map_some, Option.some_or] at h
              obtain rfl : n' + 1 = n := Option.some.inj h
              exact Nat.succ_le_succ (ih hmore hm)

theorem at_drop {p : Text → Bool} {k i : Nat} : At p (lines.drop k) i ↔ At p lines (k + i) := by
  rw [At, At, List.getElem?_drop]

theorem reaches_drop {k m : Nat} (hk : k ≤ lines.length) :
    Reaches (lines.drop k) 0 m ↔ Reaches lines k (k + m) := by
  have hend : MayEnd (lines.drop k) m ↔ MayEnd lines (k + m) := by
    rw [MayEnd, MayEnd, at_drop, List.length_drop]
    exact or_congr (by omega) Iff.rfl
  constructor
  · intro hp
    obtain ⟨-, hall, h⟩ := hp
    refine ⟨Nat.le_add_right k m, fun i hki him => ?_, hend.mp h⟩
    obtain ⟨i, rfl⟩ := Nat.exists_eq_add_of_le hki
    simpa only [at_drop] using hall i (Nat.zero_le i) (by omega)
  · intro hp
    obtain ⟨-, hall, h⟩ := hp
    refine ⟨Nat.zero_le m, fun i _ him => ?_, hend.mpr h⟩
    simpa only [at_drop] using hall (k + i) (Nat.le_add_right k i) (by omega)

theorem span_drop {k : Nat} (hk : k < lines.length) :
    span (lines.drop k) =
      if At isCode lines k then (more (lines.drop (k + 1))).map (· + 1) else none := by
  have hat : At isCode lines k ↔ isCode lines[k] = true := by
    simp [At, List.getElem?_eq_getElem hk]
  rw [List.drop_eq_getElem_cons hk, span]
  simp only [hat]

/-- A match that begins at line `k` takes this line and goes on as far as it can. -/
theorem tried_eq_some {k n : Nat} (h : tried lines k = some n) :
    At isCode lines k ∧ Reaches lines (k + 1) (k + n) ∧
      ∀ m, Reaches lines (k + 1) m → m ≤ k + n := by
  have hk := lt_length_of_tried h
  rw [tried] at h
  split at h
  · rw [span_drop hk] at h
    split at h
    · rename_i hcode
      obtain ⟨n, hn, rfl⟩ := Option.map_eq_some_iff.mp h
      have hsum : k + (n + 1) = k + 1 + n := by omega
      rw [hsum]
      refine ⟨hcode, (reaches_drop hk).mp (reaches_of_more hn), fun m hm => ?_⟩
      obtain ⟨m, rfl⟩ := Nat.exists_eq_add_of_le hm.1
      exact Nat.add_le_add_left (le_of_reaches hn ((reaches_drop hk).mpr hm)) _
    · exact absurd h (by simp)
  · exact absurd h (by simp)

/-- When a match is tried at a code line and may end somewhere, it succeeds. -/
theorem exists_tried {k m : Nat} (hk : k = 0 ∨ 2 ≤ k ∧ At isEmpty lines (k - 1))
    (hcode : At isCode lines k) (hm : Reaches lines (k + 1) m) : ∃ n, tried lines k = some n := by
  have hlt : k < lines.length := by
    refine Nat.lt_of_not_le fun hle => ?_
    rw [At, List.getElem?_eq_none hle] at hcode
    exact absurd hcode (by simp)
  obtain ⟨m, rfl⟩ := Nat.exists_eq_add_of_le hm.1
  rw [tried, if_pos hk, span_drop hlt, if_pos hcode]
  cases hmore : more (lines.drop (k + 1)) with
  | none => exact absurd ((reaches_drop hlt).mpr hm) (not_reaches_of_more hmore)
  | some n => exact ⟨n + 1, rfl⟩

end Codelib.PickCodeblock
