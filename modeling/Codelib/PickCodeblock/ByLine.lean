import Codelib.PickCodeblock.Pattern

/-!
# Codelib.PickCodeblock.ByLine

What the regular expression does, line by line.

Within a line it never helps to give bytes back: the look-ahead reads the next line
(`run_nextLine`), a round of the group takes a code line and all empty lines behind it
(`run_codeLine`), and so the group goes over whole lines, as far as `span` says
(`run_block`).
-/

namespace Codelib.PickCodeblock

open Regex

variable {k : Cursor → Option Cursor} {before rest l t : Text} {capture : Option (Nat × Text)}

/-! ### The look-ahead -/

theorem isSpace_of_isBlank {c : UInt8} (h : isBlank c = true) : isSpace c = true := by
  rw [eq_of_beq h]
  rfl

theorem dropWhile_wholeLine (hl : WholeLine l) :
    ∃ c d, l.dropWhile isBlank = c :: d ∧ isBlank c = false := by
  obtain ⟨t, -, rfl⟩ := hl
  rcases hd : (t ++ [10]).dropWhile isBlank with _ | ⟨c, d⟩
  · have hall := List.dropWhile_eq_nil_iff.mp hd 10 (by simp)
    exact absurd hall (by decide)
  · have hne : (t ++ [10]).dropWhile isBlank ≠ [] := by rw [hd]; simp
    have hc := List.head_dropWhile_not isBlank hne
    simp only [hd, List.head_cons] at hc
    exact ⟨c, d, hd, hc⟩

/-- A line as the look-ahead reads it: up to four spaces, then one more byte. -/
theorem exists_spaces (hl : WholeLine l) :
    ∃ m x u, l = m ++ x :: u ∧ (∀ c ∈ m, isBlank c = true) ∧
      (m.length = 4 ∨ m.length < 4 ∧ isBlank x = false) ∧ isNext l = !isSpace x := by
  obtain ⟨c, d, hd, hc⟩ := dropWhile_wholeLine hl
  have hsplit := (List.takeWhile_append_dropWhile (p := isBlank) (l := l)).symm
  have hm : ∀ x ∈ l.takeWhile isBlank, isBlank x = true := fun x hx => List.mem_takeWhile_imp hx
  have hnext : isNext l = ((l.takeWhile isBlank).length ≤ 4 && !isSpace c) := by
    simp [isNext, hd]
  rw [hd] at hsplit
  generalize l.takeWhile isBlank = m at *
  by_cases hlen : m.length ≤ 4
  · refine ⟨m, c, d, hsplit, hm, ?_, by simp [hnext, hlen]⟩
    rcases Nat.lt_or_eq_of_le hlen with h | h
    · exact .inr ⟨h, hc⟩
    · exact .inl h
  · -- the fifth space is the byte
    obtain ⟨x, m', hx⟩ := List.exists_cons_of_ne_nil (mt List.drop_eq_nil_iff.mp hlen)
    have hxm : isBlank x = true := hm x (List.mem_of_mem_drop (hx ▸ List.mem_cons_self))
    refine ⟨m.take 4, x, m' ++ c :: d, ?_, fun y hy => hm y (List.mem_of_mem_take hy), .inl ?_, ?_⟩
    · rw [← List.cons_append, ← hx, ← List.append_assoc, List.take_append_drop]
      exact hsplit
    · rw [List.length_take]
      omega
    · simp [hnext, hlen, isSpace_of_isBlank hxm]

/-- The look-ahead accepts one line or does not. -/
theorem run_nextLine (hl : WholeLine l) (hbefore : before = [] ∨ before.head? = some 10) :
    nextLine.run k ⟨before, l ++ rest, capture⟩ =
      if isNext l then k ⟨before, l ++ rest, capture⟩ else none := by
  obtain ⟨m, x, u, rfl, hm, hend, hnext⟩ := exists_spaces hl
  have hstart : before = [] ∨ before.head? = some 10 ∧ m ++ x :: u ++ rest ≠ [] :=
    hbefore.imp_right fun h => ⟨h, by simp⟩
  have hline : m ++ x :: u ++ rest = m ++ (x :: (u ++ rest)) := by simp
  rw [nextLine, run, run, run, if_pos hstart, run, run, Option.getD_some, hline, hnext,
    repeats_class hm ?_ (Nat.zero_le _) ?_, run_one_cons]
  · cases isSpace x <;> rfl
  · rcases hend with h | ⟨h, hx⟩
    · exact .inl h
    · exact .inr ⟨h, fun y hy => by
        obtain rfl : x = y := by simpa using hy
        exact hx⟩
  · -- giving back a space leaves a space in front of `\S`
    intro _ a b hab hb _
    obtain ⟨y, b, rfl⟩ := List.exists_cons_of_ne_nil hb
    have hy : isBlank y = true := hm y (by simp [hab])
    refine run_one_none fun z hz => ?_
    obtain rfl : y = z := by simpa using hz
    rw [isSpace_of_isBlank hy]
    rfl

/-- Whether a match may end in front of these lines. -/
def mayEnd (ls : List Text) : Bool := ls.head?.all isNext

theorem isNext_newline : isNext [10] = false := by decide

theorem run_ending {ls : List Text} (hls : ∀ l ∈ ls, WholeLine l) (hhead : ls.head? ≠ some [10])
    (hbefore : before.head? = some 10) :
    ending.run some ⟨before, ls.flatten, capture⟩ =
      if mayEnd ls then some ⟨before, ls.flatten, capture⟩ else none := by
  rw [ending, run]
  cases ls with
  | nil => simp [nextLine, run, mayEnd, repeats]
  | cons l ls =>
      have hl := hls l List.mem_cons_self
      have hend : textEnd.run some ⟨before, (l :: ls).flatten, capture⟩ = none := by
        obtain ⟨t, ht, rfl⟩ := hl
        refine if_neg ?_
        intro hp
        rcases hp with h | h
        · simp at h
        · rcases t with _ | ⟨c, t⟩
          · simp at hhead
          · simp at h
      rw [List.flatten_cons] at hend ⊢
      rw [run_nextLine hl (.inr hbefore), hend, Option.or_none]
      rfl

theorem run_ending_newline (h : rest ≠ []) :
    ending.run some ⟨before, 10 :: rest, capture⟩ = none := by
  have hend : textEnd.run some ⟨before, 10 :: rest, capture⟩ = none := if_neg (by simp [h])
  by_cases hbefore : before = [] ∨ before.head? = some 10
  · have hline : WholeLine [10] := ⟨[], by simp, rfl⟩
    have hnext : nextLine.run some ⟨before, [10] ++ rest, capture⟩ = none := by
      rw [run_nextLine hline hbefore, isNext_newline]
      rfl
    rw [ending, run, hend, ← List.singleton_append, hnext]
    rfl
  · have hnext : nextLine.run some ⟨before, 10 :: rest, capture⟩ = none := by
      rw [nextLine, run, run, run, if_neg (by grind)]
      rfl
    rw [ending, run, hend, hnext]
    rfl

/-! ### One code line -/

/-- The rest of a line, with all newlines that follow. -/
theorem run_lineEnd (ht : 10 ∉ t) {n : Nat} (hn : ∀ c ∈ rest.head?, c ≠ 10)
    (hk : k ⟨(t ++ List.replicate (n + 1) 10).reverse ++ before, rest, capture⟩ = none →
      ∀ b a, k ⟨b, 10 :: (a ++ rest), capture⟩ = none) :
    lineEnd.run k ⟨before, t ++ (List.replicate (n + 1) 10 ++ rest), capture⟩ =
      k ⟨(t ++ List.replicate (n + 1) 10).reverse ++ before, rest, capture⟩ := by
  rw [lineEnd, run, run, repeats_class ?_ (.inr ?_) (Nat.zero_le _) ?_, run, newline,
    repeats_class ?_ (.inr ?_) ?_ ?_]
  · rw [List.reverse_append, List.append_assoc]
  · exact fun c hc => by simp [List.eq_of_mem_replicate hc]
  · refine ⟨?_, fun c hc => by simpa using hn c hc⟩
    simp only [Option.getD_none, List.length_append, List.length_replicate]
    omega
  · simp
  · rw [← List.append_assoc, ← List.reverse_append]
    intro hnone a b hab hb _
    rcases b with _ | ⟨c, b⟩
    · exact absurd rfl hb
    · obtain rfl : c = 10 := List.eq_of_mem_replicate (n := n + 1) (hab ▸ by simp)
      exact hk hnone _ b
  · intro c hc
    have hne : c ≠ 10 := fun h => ht (h ▸ hc)
    simpa using hne
  · refine ⟨?_, fun c hc => ?_⟩
    · simp only [Option.getD_none, List.length_append, List.length_replicate]
      omega
    · obtain rfl : 10 = c := by simpa [List.replicate_succ] using hc
      rfl
  · intro _ a b hab hb _
    rcases b with _ | ⟨c, b⟩
    · exact absurd rfl hb
    · have hc : c ≠ 10 := fun h => ht (by simp [hab, h])
      refine repeats_class_none fun m tail hm hall => ?_
      rcases m with _ | ⟨d, m⟩
      · exact Nat.one_pos
      · obtain rfl : c = d := (List.cons.inj hm).1
        exact absurd (by simpa using hall c List.mem_cons_self) hc

/-- What a code line begins with. -/
def Indent (d : Text) : Prop := d = [32, 32, 32, 32] ∨ d = [9]

theorem Indent.not_mem {d : Text} (h : Indent d) : 10 ∉ d := by
  rcases h with rfl | rfl <;> decide

theorem isCode_iff : isCode l = true ↔ ∃ d, Indent d ∧ d <+: l := by
  simp [isCode, Indent, List.isPrefixOf_iff_prefix]

/-- Fewer than four spaces in front. -/
theorem run_spaces_none (h : ¬ [32, 32, 32, 32] <+: rest) :
    (rep 4 (some 4) (one isBlank)).run k ⟨before, rest, capture⟩ = none := by
  rw [run]
  refine repeats_class_none fun m tail hm hall => Nat.lt_of_not_le fun hlen => h ?_
  have hfour : m.take 4 = [32, 32, 32, 32] :=
    List.eq_replicate_iff.mpr ⟨List.length_take_of_le hlen, fun c hc =>
      eq_of_beq (hall c (List.mem_of_mem_take hc))⟩
  rw [hm, ← hfour]
  exact (List.take_prefix 4 m).trans (List.prefix_append m tail)

theorem run_indent_none (h : ∀ d, Indent d → ¬ d <+: rest) :
    indent.run k ⟨before, rest, capture⟩ = none := by
  have htab : (one (· == 9)).run k ⟨before, rest, capture⟩ = none :=
    run_one_none fun c hc => by
      obtain ⟨u, rfl⟩ := List.head?_eq_some_iff.mp hc
      cases h9 : c == 9 with
      | false => rfl
      | true => exact absurd ⟨u, by rw [eq_of_beq h9]; rfl⟩ (h [9] (.inr rfl))
  rw [indent, run, run_spaces_none (h _ (.inl rfl)), htab]
  rfl

theorem run_indent {d : Text} (h : Indent d) :
    indent.run k ⟨before, d ++ rest, capture⟩ = k ⟨d.reverse ++ before, rest, capture⟩ := by
  rw [indent, run]
  rcases h with rfl | rfl
  · have htab : (one (· == 9)).run k ⟨before, [32, 32, 32, 32] ++ rest, capture⟩ = none :=
      run_one_none fun c hc => by
        obtain rfl : 32 = c := by simpa using hc
        decide
    rw [htab, Option.or_none, run, Option.getD_some]
    refine repeats_class (by simp [isBlank]) (.inl rfl) (Nat.le_refl 4) fun _ a b hab hb ha => ?_
    have hlen := congrArg List.length hab
    have hb' := List.length_pos_iff.mpr hb
    simp only [List.length_append, List.length_cons, List.length_nil] at hlen
    omega
  · rw [run_spaces_none (by simp)]
    rfl

/-- A round of the group takes a code line and the empty lines behind it. -/
theorem run_codeLine (hl : WholeLine l) {n : Nat} (hn : ∀ c ∈ rest.head?, c ≠ 10)
    (hk : k ⟨(l ++ List.replicate n 10).reverse ++ before, rest, capture⟩ = none →
      ∀ b a, k ⟨b, 10 :: (a ++ rest), capture⟩ = none) :
    codeLine.run k ⟨before, l ++ (List.replicate n 10 ++ rest), capture⟩ =
      if isCode l then k ⟨(l ++ List.replicate n 10).reverse ++ before, rest, capture⟩
      else none := by
  obtain ⟨t, ht, rfl⟩ := hl
  rw [codeLine, run]
  split
  · rename_i hcode
    obtain ⟨d, hd, hdl⟩ := isCode_iff.mp hcode
    obtain ⟨u, rfl⟩ := prefix_of_not_mem hd.not_mem hdl
    have hu : 10 ∉ u := fun h => ht (List.mem_append_right d h)
    have hrest : d ++ u ++ [10] ++ (List.replicate n 10 ++ rest) =
        d ++ (u ++ (List.replicate (n + 1) 10 ++ rest)) := by
      simp [List.replicate_succ]
    have htaken : (d ++ u ++ [10] ++ List.replicate n 10).reverse ++ before =
        (u ++ List.replicate (n + 1) 10).reverse ++ (d.reverse ++ before) := by
      simp [List.replicate_succ]
    rw [htaken] at hk ⊢
    rw [hrest, run_indent hd, run_lineEnd hu hn hk]
  · rename_i hcode
    refine run_indent_none fun d hd h => hcode (isCode_iff.mpr ⟨d, hd, ?_⟩)
    rw [List.append_assoc] at h
    exact (prefix_of_not_mem hd.not_mem h).trans (List.prefix_append t [10])

theorem run_codeLine_newline : codeLine.run k ⟨before, 10 :: rest, capture⟩ = none := by
  rw [codeLine, run, run_indent_none]
  rintro d (rfl | rfl) <;> simp

/-! ### The group -/

/-- How many of these lines the group goes on over: code lines and empty lines, as many as
possible, up to a place where the match may end. -/
def more : List Text → Option Nat
  | [] => some 0
  | l :: ls =>
    (if isCode l ∨ isEmpty l then (more ls).map (· + 1) else none).or
      (if isNext l then some 0 else none)

/-- How many lines the group takes. -/
def span : List Text → Option Nat
  | [] => none
  | l :: ls => if isCode l then (more ls).map (· + 1) else none

theorem more_replicate (n : Nat) (ls : List Text) :
    more (List.replicate n [10] ++ ls) = (more ls).map (· + n) := by
  induction n with
  | zero => simp
  | succ n ih =>
      have hempty : isEmpty [10] = true := rfl
      rw [List.replicate_succ, List.cons_append, more, ih, if_pos (.inr hempty),
        if_neg (by simp [isNext_newline]), Option.or_none, Option.map_map]
      rfl

theorem more_cons (hl : l ≠ [10]) (ls : List Text) :
    more (l :: ls) = (span (l :: ls)).or (if isNext l then some 0 else none) := by
  have hempty : isEmpty l = false := by simpa [isEmpty] using hl
  simp only [more, span, hempty, Bool.false_eq_true, or_false]

theorem span_cons_replicate (n : Nat) (ls : List Text) :
    span (l :: (List.replicate n [10] ++ ls)) =
      if isCode l then (more ls).map (· + (n + 1)) else none := by
  rw [span, more_replicate, Option.map_map]
  rfl

theorem mayEnd_of_more {ls : List Text} {m : Nat} (h : more ls = some m) :
    mayEnd (ls.drop m) = true := by
  induction ls generalizing m with
  | nil => simp [mayEnd]
  | cons l ls ih =>
      rw [more, Option.or_eq_some_iff] at h
      rcases h with h | ⟨-, h⟩
      · split at h
        · obtain ⟨m, hm, rfl⟩ := Option.map_eq_some_iff.mp h
          exact ih hm
        · exact absurd h (by simp)
      · split at h
        · obtain rfl : 0 = m := Option.some.inj h
          assumption
        · exact absurd h (by simp)

theorem mayEnd_of_span {ls : List Text} {m : Nat} (h : span ls = some m) :
    mayEnd (ls.drop m) = true := by
  cases ls with
  | nil => exact absurd h (by simp [span])
  | cons l ls =>
      rw [span] at h
      split at h
      · obtain ⟨m, hm, rfl⟩ := Option.map_eq_some_iff.mp h
        exact (mayEnd_of_more hm : mayEnd (ls.drop m) = true)
      · exact absurd h (by simp)

theorem head_ne_of_mayEnd {ls : List Text} (h : mayEnd ls = true) : ls.head? ≠ some [10] := by
  intro hhead
  rw [mayEnd, hhead] at h
  exact absurd h (by simp [isNext_newline])

/-- The empty lines in front. -/
theorem exists_replicate (ls : List Text) :
    ∃ n tail, ls = List.replicate n [10] ++ tail ∧ tail.head? ≠ some [10] := by
  induction ls with
  | nil => exact ⟨0, [], rfl, by simp⟩
  | cons l ls ih =>
      by_cases hl : l = [10]
      · obtain ⟨n, tail, rfl, htail⟩ := ih
        exact ⟨n + 1, tail, by rw [hl]; rfl, htail⟩
      · exact ⟨0, l :: ls, rfl, by simpa using hl⟩

theorem flatten_head_ne {ls : List Text} (hls : ∀ l ∈ ls, WholeLine l)
    (hhead : ls.head? ≠ some [10]) : ∀ c ∈ ls.flatten.head?, c ≠ 10 := by
  cases ls with
  | nil => simp
  | cons l ls =>
      obtain ⟨t, ht, rfl⟩ := hls l List.mem_cons_self
      rcases t with _ | ⟨c, t⟩
      · simp at hhead
      · intro d hd
        obtain rfl : c = d := by simpa using hd
        exact fun h => ht (by simp [h])

/-- The place behind the first `m` lines. -/
def behind (before : Text) (ls : List Text) (capture : Option (Nat × Text)) (m : Nat) : Cursor :=
  ⟨(ls.take m).flatten.reverse ++ before, (ls.drop m).flatten, capture⟩

theorem behind_cons_replicate (n m : Nat) (ls : List Text) :
    behind before (l :: (List.replicate n [10] ++ ls)) capture (m + (n + 1)) =
      behind ((l ++ List.replicate n 10).reverse ++ before) ls capture m := by
  have hlen : m + n = (List.replicate n [(10 : UInt8)]).length + m := by
    rw [List.length_replicate, Nat.add_comm]
  have htake : (l :: (List.replicate n [10] ++ ls)).take (m + (n + 1)) =
      l :: (List.replicate n [10] ++ ls.take m) := by
    rw [← Nat.add_assoc, List.take_succ_cons, hlen, List.take_length_add_append]
  have hdrop : (l :: (List.replicate n [10] ++ ls)).drop (m + (n + 1)) = ls.drop m := by
    rw [← Nat.add_assoc, List.drop_succ_cons, hlen, List.drop_length_add_append]
  rw [behind, behind, htake, hdrop]
  simp

/-- What is passed ends with a newline, if whole lines are. -/
theorem before_head {ls : List Text} (hls : ∀ l ∈ ls, WholeLine l)
    (hbefore : ls = [] → before.head? = some 10) :
    (ls.flatten.reverse ++ before).head? = some 10 := by
  rcases List.eq_nil_or_concat' ls with rfl | ⟨ls, l, rfl⟩
  · exact hbefore rfl
  · obtain ⟨t, -, rfl⟩ := hls l (by simp)
    simp

section

variable {K : Cursor → Option Cursor} {ls : List Text} {n : Nat}

/-- `K` ends a match: it succeeds in front of the lines where a match may end. -/
structure Ends (K : Cursor → Option Cursor) (capture : Option (Nat × Text)) : Prop where
  isSome : ∀ {before ls}, (∀ l ∈ ls, WholeLine l) → ls.head? ≠ some [10] →
    before.head? = some 10 → (K ⟨before, ls.flatten, capture⟩).isSome = mayEnd ls
  newline : ∀ {before rest}, rest ≠ [] → K ⟨before, 10 :: rest, capture⟩ = none

theorem repeats_end :
    repeats codeLine.run n 0 K ⟨before, [], capture⟩ = K ⟨before, [], capture⟩ := by
  cases n <;> rfl

theorem repeats_newline (hK : Ends K capture) (h : rest ≠ []) :
    repeats codeLine.run n 0 K ⟨before, 10 :: rest, capture⟩ = none := by
  cases n with
  | zero => exact hK.newline h
  | succ n =>
      rw [repeats, run_codeLine_newline, hK.newline h]
      rfl

/-- One round of the group and then `k`: more rounds, which `k` may refuse when the round
took nothing. -/
theorem run_round (hK : Ends K capture) (hls : ∀ x ∈ l :: ls, WholeLine x)
    (hk : ∀ s, k s = repeats codeLine.run n 0 K s ∨ k s = none)
    (hshort : ∀ s, s.rest.length < (l :: ls).flatten.length → k s = repeats codeLine.run n 0 K s)
    (hrounds : ∀ tail b, tail <:+ ls → tail.head? ≠ some [10] → b.head? = some 10 →
      repeats codeLine.run n 0 K ⟨b, tail.flatten, capture⟩ =
        (more tail).bind fun m => K (behind b tail capture m)) :
    codeLine.run k ⟨before, (l :: ls).flatten, capture⟩ =
      (span (l :: ls)).bind fun m => K (behind before (l :: ls) capture m) := by
  obtain ⟨e, tail, rfl, htail⟩ := exists_replicate ls
  have hl : WholeLine l := hls l List.mem_cons_self
  have htails : ∀ x ∈ tail, WholeLine x := fun x hx => hls x (by simp [hx])
  have hflat : (l :: (List.replicate e [10] ++ tail)).flatten =
      l ++ (List.replicate e 10 ++ tail.flatten) := by simp
  obtain ⟨t, -, hlt⟩ := id hl
  have hlast : ((l ++ List.replicate e 10).reverse ++ before).head? = some 10 := by
    rw [hlt]
    cases e <;> simp [List.replicate_succ']
  have hfull : ∀ b, k ⟨b, tail.flatten, capture⟩ =
      repeats codeLine.run n 0 K ⟨b, tail.flatten, capture⟩ := fun b => hshort _ (by
    rw [hflat, hlt]
    simp only [List.length_append, List.length_singleton]
    omega)
  rw [hflat, run_codeLine hl (flatten_head_ne htails htail) ?_, hfull,
    hrounds tail _ ⟨_, rfl⟩ htail hlast, span_cons_replicate]
  · split
    · rw [Option.bind_map]
      simp only [Function.comp_def, behind_cons_replicate]
    · rfl
  · -- at the end of the text it is enough to take all newlines
    intro hnone b a
    have hne : tail.flatten ≠ [] := by
      intro hnil
      have hsome := hK.isSome (List.forall_mem_nil WholeLine) (by simp) hlast
      rw [hfull, hnil, repeats_end] at hnone
      rw [List.flatten_nil, hnone] at hsome
      exact absurd hsome (by simp [mayEnd])
    rcases hk ⟨b, 10 :: (a ++ tail.flatten), capture⟩ with h | h
    · rw [h, repeats_newline hK (by simp [hne])]
    · exact h

/-- The match ends here when the group cannot go on. -/
theorem Ends.or_stop (hK : Ends K capture) (hls : ∀ x ∈ l :: ls, WholeLine x) (hl : l ≠ [10])
    (hbefore : before.head? = some 10) :
    ((span (l :: ls)).bind fun m => K (behind before (l :: ls) capture m)).or
        (K ⟨before, (l :: ls).flatten, capture⟩) =
      (more (l :: ls)).bind fun m => K (behind before (l :: ls) capture m) := by
  rw [more_cons hl]
  cases hspan : span (l :: ls) with
  | none =>
      have hend : (K _).isSome = isNext l := hK.isSome hls (by simpa using hl) hbefore
      cases hnext : isNext l with
      | true => rfl
      | false =>
          rw [hnext] at hend
          simpa using hend
  | some m =>
      have hmay := mayEnd_of_span hspan
      have htaken : ∀ x ∈ (l :: ls).take m, WholeLine x := fun x hx =>
        hls x (List.mem_of_mem_take hx)
      have hsome := hK.isSome (fun x hx => hls x (List.mem_of_mem_drop hx))
        (head_ne_of_mayEnd hmay) (before_head htaken fun _ => hbefore)
      rw [hmay] at hsome
      obtain ⟨r, hr⟩ := Option.isSome_iff_exists.mp hsome
      rw [Option.some_or, Option.bind_some, behind, hr, Option.some_or]

/-- More rounds, in front of a line that is not empty. -/
theorem repeats_codeLine (hK : Ends K capture) (hls : ∀ l ∈ ls, WholeLine l)
    (hhead : ls.head? ≠ some [10]) (hn : ls.flatten.length ≤ n) (hbefore : before.head? = some 10) :
    repeats codeLine.run n 0 K ⟨before, ls.flatten, capture⟩ =
      (more ls).bind fun m => K (behind before ls capture m) := by
  induction hlen : ls.length using Nat.strongRecOn generalizing ls n before with
  | ind len ih =>
      rcases ls with _ | ⟨l, ls⟩
      · exact repeats_end
      · obtain ⟨t, -, hlt⟩ := hls l List.mem_cons_self
        have hlflat : (l :: ls).flatten.length = t.length + 1 + ls.flatten.length := by
          rw [List.flatten_cons, hlt, List.length_append, List.length_append]
          rfl
        obtain ⟨n, rfl⟩ : ∃ n', n = n' + 1 := ⟨n - 1, by omega⟩
        rw [repeats, run_round hK hls ?_ (fun s hs => if_pos hs) ?_]
        · exact hK.or_stop hls (by simpa using hhead) hbefore
        · intro s
          split
          · exact .inl rfl
          · exact .inr rfl
        · intro tail b htail htail' hb
          obtain ⟨front, rfl⟩ := htail
          refine ih tail.length ?_ (fun x hx => hls x (by simp [hx])) htail' ?_ hb rfl
          · rw [← hlen, List.length_cons, List.length_append]
            omega
          · rw [List.flatten_append, List.length_append] at hlflat
            omega

/-- The rounds of the group. -/
theorem run_rounds (hK : Ends K capture) (hls : ∀ l ∈ ls, WholeLine l) :
    (rep 1 none codeLine).run K ⟨before, ls.flatten, capture⟩ =
      (span ls).bind fun m => K (behind before ls capture m) := by
  cases ls with
  | nil => rfl
  | cons l ls =>
      rw [run, Option.getD_none, Nat.add_comm, repeats]
      refine run_round hK hls (fun s => .inl rfl) (fun s _ => rfl) fun tail b htail hhead hb => ?_
      obtain ⟨front, rfl⟩ := htail
      refine repeats_codeLine hK (fun x hx => hls x (by simp [hx])) hhead ?_ hb
      simp only [List.flatten_cons, List.flatten_append, List.length_append]
      omega

theorem pos_of_span {m : Nat} (h : span ls = some m) : 0 < m ∧ ls ≠ [] := by
  cases ls with
  | nil => exact absurd h (by simp [span])
  | cons l ls =>
      rw [span] at h
      split at h
      · obtain ⟨m, -, rfl⟩ := Option.map_eq_some_iff.mp h
        exact ⟨Nat.succ_pos m, by simp⟩
      · exact absurd h (by simp)

/-- The group and what stands behind it. -/
theorem run_block (hls : ∀ l ∈ ls, WholeLine l) :
    block.run some ⟨before, ls.flatten, capture⟩ =
      (span ls).map fun m =>
        behind before ls (some (before.length, (ls.take m).flatten)) m := by
  rw [block, run, run, run_rounds ?_ hls]
  · cases hspan : span ls with
    | none => rfl
    | some m =>
        have hmay := mayEnd_of_span hspan
        have htaken : ∀ l ∈ ls.take m, WholeLine l := fun l hl => hls l (List.mem_of_mem_take hl)
        have hne : ls.take m ≠ [] := by
          obtain ⟨hm, hls⟩ := pos_of_span hspan
          simp [Nat.ne_of_gt hm, hls]
        have hgroup : ls.flatten.take (ls.flatten.length - (ls.drop m).flatten.length) =
            (ls.take m).flatten := by
          have hsplit : ls.flatten = (ls.take m).flatten ++ (ls.drop m).flatten := by
            rw [← List.flatten_append, List.take_append_drop]
          rw [hsplit, List.length_append, Nat.add_sub_cancel, List.take_left]
        rw [Option.bind_some, Option.map_some, behind, Cursor.close, hgroup,
          run_ending (fun l hl => hls l (List.mem_of_mem_drop hl)) (head_ne_of_mayEnd hmay)
            (before_head htaken fun h => absurd h hne), if_pos hmay]
        rfl
  · constructor
    · intro b ls' hls' hhead hb
      rw [Cursor.close, run_ending hls' hhead hb]
      cases mayEnd ls' <;> rfl
    · exact fun h => run_ending_newline h

end

end Codelib.PickCodeblock
