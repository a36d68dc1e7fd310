import Mathlib.Data.List.Basic
import Mathlib.Data.List.Infix
import Mathlib.Tactic.Common

/-!
# Codelib.Core.Lines

**Text as bytes, and its lines**. A line ends with LF, and the last one may end with the
text; a CR in front of the LF belongs to the line end.

`LineStart d t` says that a line of `t` begins with `d`. For a text that is put together
from whole lines it is decided line by line (`not_lineStart_flatten`).

Nothing here names a program of the repository.
-/

namespace Codelib

/-- A string of bytes. -/
abbrev Text := List UInt8

/-- The bytes of a string, in UTF-8. -/
def text (s : String) : Text := s.toUTF8.data.toList

/-- Found once for all programs. -/
instance (line : Text) (lines : List Text) : Decidable (line ∈ lines) := inferInstance

/-! ### Splitting -/

/-- The lines, with their ends. -/
def splitLines : Text → List Text
  | [] => []
  | c :: t =>
    if c = 10 then [c] :: splitLines t
    else match splitLines t with
      | [] => [[c]]
      | line :: lines => (c :: line) :: lines

/-- Remove one byte `c` from the end. -/
def stripLast (c : UInt8) (t : Text) : Text := if t.getLast? = some c then t.dropLast else t

/-- Remove the line end from the end. -/
def dropLineEnd (t : Text) : Text :=
  if t.getLast? = some 10 then stripLast 13 t.dropLast else t

theorem dropLineEnd_crlf (t : Text) : dropLineEnd (t ++ [13, 10]) = t := by
  have h : t ++ [13, 10] = (t ++ [13]) ++ [10] := by simp
  rw [h, dropLineEnd, if_pos List.getLast?_concat, List.dropLast_concat, stripLast,
    if_pos List.getLast?_concat, List.dropLast_concat]

theorem dropLineEnd_prefix (t : Text) : dropLineEnd t <+: t := by
  unfold dropLineEnd stripLast
  split
  · split
    · exact (List.dropLast_prefix _).trans (List.dropLast_prefix t)
    · exact List.dropLast_prefix t
  · exact List.prefix_refl t

theorem flatten_splitLines (t : Text) : (splitLines t).flatten = t := by
  induction t with
  | nil => rfl
  | cons c t ih =>
      simp only [splitLines]
      split
      · rw [List.flatten_cons, ih, List.singleton_append]
      · rcases h : splitLines t with _ | ⟨line, lines⟩
        · rw [h] at ih
          rw [← ih]
          rfl
        · rw [h, List.flatten_cons] at ih
          rw [List.flatten_cons, List.cons_append, ih]

/-- A line ends where it ends, whatever follows. -/
theorem splitLines_append (a b : Text) :
    splitLines (a ++ 10 :: b) = splitLines (a ++ [10]) ++ splitLines b := by
  induction a with
  | nil => simp [splitLines]
  | cons c a ih =>
      simp only [List.cons_append, splitLines, ih]
      split
      · rfl
      · rcases h : splitLines (a ++ [10]) with _ | ⟨line, lines⟩
        · have hflat := flatten_splitLines (a ++ [10])
          rw [h] at hflat
          exact absurd hflat.symm (by simp)
        · rfl

/-- No line is empty, line end and all. -/
theorem ne_nil_of_mem_splitLines {t l : Text} (h : l ∈ splitLines t) : l ≠ [] := by
  induction t generalizing l with
  | nil => exact absurd h (by simp [splitLines])
  | cons c t ih =>
      simp only [splitLines] at h
      split at h
      · rcases List.mem_cons.mp h with rfl | h
        · simp
        · exact ih h
      · rcases hs : splitLines t with _ | ⟨line, lines⟩
        · rw [hs] at h
          rw [List.mem_singleton.mp h]
          simp
        · rw [hs] at h
          rcases List.mem_cons.mp h with rfl | h
          · simp
          · exact ih (by rw [hs]; exact List.mem_cons_of_mem line h)

theorem splitLines_line {t : Text} (h : 10 ∉ t) : splitLines (t ++ [10]) = [t ++ [10]] := by
  induction t with
  | nil => simp [splitLines]
  | cons c t ih =>
      obtain ⟨hc, ht⟩ : 10 ≠ c ∧ 10 ∉ t := by simpa using h
      simp only [List.cons_append, splitLines, if_neg (Ne.symm hc), ih ht]

/-- A text that begins with whole lines has them as its first lines. -/
theorem splitLines_flatten_append {ps : List Text} (h : ∀ p ∈ ps, ∃ t, 10 ∉ t ∧ p = t ++ [10])
    (b : Text) :
    splitLines (ps.flatten ++ b) = ps ++ splitLines b := by
  induction ps with
  | nil => rfl
  | cons p ps ih =>
      obtain ⟨t, ht, rfl⟩ := h p List.mem_cons_self
      have hps := ih fun q hq => h q (List.mem_cons_of_mem _ hq)
      rw [List.flatten_cons, List.append_assoc, List.append_assoc, List.singleton_append,
        splitLines_append, splitLines_line ht, hps]
      rfl

/-! ### How lines begin -/

/-- `d` stands behind a line end. -/
def AfterLineEnd (d t : Text) : Prop := ∃ a b, t = a ++ 10 :: b ∧ d <+: b

/-- A line of `t` begins with `d`. -/
def LineStart (d t : Text) : Prop := d <+: t ∨ AfterLineEnd d t

variable {d t a b p : Text}

theorem AfterLineEnd.lf_mem (h : AfterLineEnd d t) : 10 ∈ t := by
  obtain ⟨a, b, rfl, -⟩ := h
  simp

theorem LineStart.mono {e : Text} (h : LineStart e t) (hd : d <+: e) : LineStart d t := by
  rcases h with h | ⟨a, b, hab, hb⟩
  · exact .inl (hd.trans h)
  · exact .inr ⟨a, b, hab, hd.trans hb⟩

theorem AfterLineEnd.of_infix (h : AfterLineEnd d t) (ht : t <:+: a) : AfterLineEnd d a := by
  obtain ⟨x, y, rfl, hy⟩ := h
  obtain ⟨u, v, rfl⟩ := ht
  exact ⟨u ++ x, y ++ v, by simp, hy.trans (List.prefix_append y v)⟩

/-- Induction on the lines of a text. -/
theorem lines_induction {motive : Text → Prop} (hlast : ∀ t, 10 ∉ t → motive t)
    (hline : ∀ a b, 10 ∉ a → motive b → motive (a ++ 10 :: b)) (t : Text) : motive t := by
  induction h : t.length using Nat.strongRecOn generalizing t with
  | ind n ih =>
      by_cases hmem : 10 ∈ t
      · obtain ⟨a, b, rfl, ha⟩ := List.eq_append_cons_of_mem hmem
        refine hline a b ha (ih b.length ?_ b rfl)
        rw [← h, List.length_append, List.length_cons]
        omega
      · exact hlast t hmem

/-- Without a line end there is one line at most. -/
theorem eq_of_mem_splitLines {l : Text} (h : 10 ∉ t) (hl : l ∈ splitLines t) : l = t := by
  have hlast : splitLines t = [] ∨ splitLines t = [t] := by
    clear hl
    induction t with
    | nil => exact .inl rfl
    | cons c t ih =>
        obtain ⟨hc, ht⟩ : 10 ≠ c ∧ 10 ∉ t := by simpa using h
        have hflat := flatten_splitLines t
        rcases ih ht with hs | hs
        · rw [hs] at hflat
          simp [splitLines, Ne.symm hc, ← hflat]
        · simp [splitLines, Ne.symm hc, hs]
  rcases hlast with hs | hs
  · rw [hs] at hl
    exact absurd hl (by simp)
  · rw [hs] at hl
    exact List.mem_singleton.mp hl

/-- A line with its line end. -/
def WholeLine (l : Text) : Prop := ∃ t, 10 ∉ t ∧ l = t ++ [10]

theorem wholeLine_of_mem_splitLines {l : Text} (hl : l ∈ splitLines t)
    (hlast : l.getLast? = some 10) : WholeLine l := by
  induction t using lines_induction with
  | hlast t ht =>
      rw [eq_of_mem_splitLines ht hl] at hlast
      exact absurd (List.mem_of_getLast? hlast) ht
  | hline a b ha ih =>
      rw [splitLines_append, splitLines_line ha, List.singleton_append] at hl
      rcases List.mem_cons.mp hl with rfl | hl
      · exact ⟨a, ha, rfl⟩
      · exact ih hl

/-- What a line begins with, a line of the text begins with. -/
theorem lineStart_of_mem {l : Text} (hl : l ∈ splitLines t) (h : d <+: l) : LineStart d t := by
  induction t using lines_induction with
  | hlast t ht =>
      rw [eq_of_mem_splitLines ht hl] at h
      exact .inl h
  | hline a b ha ih =>
      rw [splitLines_append, splitLines_line ha, List.singleton_append] at hl
      rcases List.mem_cons.mp hl with rfl | hl
      · exact .inl (h.trans ⟨b, by simp⟩)
      · rcases ih hl with hb | hb
        · exact .inr ⟨a, b, rfl, hb⟩
        · exact .inr (hb.of_infix ⟨a ++ [10], [], by simp⟩)

/-! ### Texts put together from lines -/

/-- `t` ends with a line end. -/
def EndsLine (t : Text) : Prop := ∃ a, t = a ++ [10]

/-- A prefix without `c` of a text with `c` ends in front of it. -/
theorem prefix_of_not_mem {c : UInt8} (hc : c ∉ d) (h : d <+: a ++ c :: b) : d <+: a := by
  rcases List.prefix_or_prefix_of_prefix h (List.prefix_append a (c :: b)) with hd | ⟨e, rfl⟩
  · exact hd
  · rcases e with _ | ⟨x, e⟩
    · simp
    · obtain ⟨rfl, -⟩ := List.cons_prefix_cons.mp ((List.prefix_append_right_inj a).mp h)
      exact absurd (by simp) hc

/-- A line of two texts, the first of which ends with a line end, is one of either. -/
theorem lineStart_append (hd : 10 ∉ d) (ha : EndsLine a) (h : LineStart d (a ++ b)) :
    LineStart d a ∨ LineStart d b := by
  obtain ⟨a, rfl⟩ := ha
  rw [List.append_assoc, List.singleton_append] at h
  rcases h with h | ⟨x, y, hxy, hy⟩
  · exact .inl (.inl ((prefix_of_not_mem hd h).trans (List.prefix_append a [10])))
  · rcases List.append_eq_append_iff.mp hxy with ⟨c, rfl, hc⟩ | ⟨c, rfl, hc⟩
    · rcases c with _ | ⟨z, c⟩
      · obtain ⟨-, rfl⟩ := List.cons.inj hc
        exact .inr (.inl hy)
      · obtain ⟨-, rfl⟩ := List.cons.inj hc
        exact .inr (.inr ⟨c, y, rfl, hy⟩)
    · rcases c with _ | ⟨z, c⟩
      · obtain ⟨-, rfl⟩ := List.cons.inj hc
        exact .inr (.inl hy)
      · obtain ⟨rfl, rfl⟩ := List.cons.inj hc
        have hc := prefix_of_not_mem hd hy
        exact .inl (.inr ⟨x, c ++ [10], by simp, hc.trans (List.prefix_append c [10])⟩)

/-- No line of a text made of whole lines begins with `d` if none of the lines does. -/
theorem not_lineStart_flatten {ps : List Text} (hd : 10 ∉ d) (hne : d ≠ [])
    (h : ∀ p ∈ ps, EndsLine p ∧ ¬ LineStart d p) : ¬ LineStart d ps.flatten := by
  induction ps with
  | nil =>
      intro hex
      rcases hex with h | ⟨a, b, hab, -⟩
      · exact hne (List.prefix_nil.mp h)
      · exact absurd hab (by simp)
  | cons p ps ih =>
      obtain ⟨hends, hstart⟩ := h p List.mem_cons_self
      intro hp
      rcases lineStart_append hd hends hp with hp | hp
      · exact hstart hp
      · exact ih (fun q hq => h q (List.mem_cons_of_mem p hq)) hp

/-- What is put behind the last line begins no other. -/
theorem LineStart.of_concat {c : UInt8} (hc : c ∉ d) (hne : d ≠ []) (h : LineStart d (t ++ [c])) :
    LineStart d t := by
  rcases h with h | ⟨a, b, hab, hb⟩
  · exact .inl (prefix_of_not_mem hc h)
  · rcases List.eq_nil_or_concat' b with rfl | ⟨b, x, rfl⟩
    · exact absurd (List.prefix_nil.mp hb) hne
    · rw [← List.cons_append, ← List.append_assoc] at hab
      obtain ⟨rfl, hlast⟩ := List.append_inj' hab rfl
      obtain ⟨rfl, -⟩ := List.cons.inj hlast
      exact .inr ⟨a, b, rfl, prefix_of_not_mem hc hb⟩

/-- What is put in front of the first line begins no other. -/
theorem LineStart.of_append (hp : 10 ∉ p) (hpd : ¬ d <+: p ++ t) (h : LineStart d (p ++ t)) :
    AfterLineEnd d t := by
  rcases h with h | ⟨a, b, hab, hb⟩
  · exact absurd h hpd
  · rcases List.append_eq_append_iff.mp hab with ⟨c, -, hc⟩ | ⟨c, rfl, hc⟩
    · exact ⟨c, b, hc, hb⟩
    · rcases c with _ | ⟨z, c⟩
      · exact ⟨[], b, hc.symm, hb⟩
      · obtain ⟨rfl, -⟩ := List.cons.inj hc
        exact absurd hp (by simp)

end Codelib
