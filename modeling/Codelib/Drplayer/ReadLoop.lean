import Codelib.Core.ReadLine

/-!
# Codelib.Drplayer.ReadLoop

The read loop of `go/drplayer/drplayer.go`, and **when it prints the whole log**
(`readLoop_eq_self_iff`).

At the end of the file the loop breaks before it looks at what came with the error. So a last
line without a line end is not printed.
-/

namespace Codelib.Drplayer

/-- `for` in `main`: what it writes to the standard output for the file `fr`. -/
def readLoop (stop : ReadError) (fr : Text) : Text :=
  match _h : (readLine stop fr).err with
  | some .eof => []
  | some (.failed message) => message ++ text "\n"
  | none => (readLine stop fr).line ++ readLoop stop (readLine stop fr).rest
termination_by fr.length
decreasing_by exact rest_readLine_lt _h

variable {stop : ReadError} {t a : Text}

/-- The end of the file, whatever is left in front of it. -/
theorem readLoop_last (h : 10 ∉ t) : readLoop .eof t = [] := by
  rw [readLoop]
  split
  · rfl
  · case h_2 heq => exact absurd heq (by simp [readLine_last .eof h])
  · case h_3 heq => exact absurd heq (by simp [readLine_last .eof h])

theorem readLoop_line (h : 10 ∉ a) (b : Text) :
    readLoop stop (a ++ 10 :: b) = a ++ 10 :: readLoop stop b := by
  rw [readLoop]
  split
  · case h_1 heq => exact absurd heq (by simp [readLine_line stop h])
  · case h_2 heq => exact absurd heq (by simp [readLine_line stop h])
  · simp [readLine_line stop h]

theorem not_endsLine (h : 10 ∉ t) : ¬ EndsLine t := by
  intro ⟨a, ha⟩
  exact h (by simp [ha])

/-- Behind a line end, the rest decides. -/
theorem endsLine_line_iff (a b : Text) : EndsLine (a ++ 10 :: b) ↔ b = [] ∨ EndsLine b := by
  rcases List.eq_nil_or_concat' b with rfl | ⟨b, c, rfl⟩
  · exact iff_of_true ⟨a, rfl⟩ (.inl rfl)
  · have hne : b ++ [c] ≠ [] := by simp
    rw [or_iff_right hne]
    constructor
    · intro ⟨x, hx⟩
      rw [← List.cons_append, ← List.append_assoc] at hx
      exact ⟨b, by rw [(List.append_inj' hx rfl).2]⟩
    · intro ⟨x, hx⟩
      exact ⟨a ++ 10 :: x, by rw [hx]; simp⟩

/-- **When the whole log is printed**: if and only if nothing stands behind the last line end. -/
theorem readLoop_eq_self_iff (t : Text) : readLoop .eof t = t ↔ t = [] ∨ EndsLine t := by
  induction t using lines_induction with
  | hlast t ht =>
      rw [readLoop_last ht, or_iff_left (not_endsLine ht)]
      exact eq_comm
  | hline a b ha ih =>
      rw [readLoop_line ha, endsLine_line_iff, ← ih, List.append_cancel_left_eq, List.cons.injEq]
      simp

/-- A log of one byte. -/
theorem last_line_lost : ¬ ∀ t, readLoop .eof t = t := by
  intro hall
  have hlast : readLoop .eof [1] = [] := readLoop_last (by decide)
  exact absurd (hlast.symm.trans (hall [1])) (by decide)

end Codelib.Drplayer
