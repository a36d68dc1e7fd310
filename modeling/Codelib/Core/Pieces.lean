import Codelib.Core.ReadLine

/-!
# Codelib.Core.Pieces

**Reading a line of what arrives in pieces.** A buffered reader asks for another piece until it has
a line end. What the last piece has behind the line end stays in its buffer (`kept`), and is lost if
the reader is given up. Nothing is lost if the pieces are lines or parts of lines (`LineWise`).

Nothing here names a program of the repository.
-/

namespace Codelib

/-- What the reading of one line returns and leaves. -/
structure PieceRead where
  line : Text
  err : Option ReadError
  /-- In the buffer, behind the line. -/
  kept : Text
  rest : List Text
  deriving Repr, DecidableEq

/-- Take pieces up to the first that has a line end. -/
def readPieces (stop : ReadError) : List Text → PieceRead
  | [] => ⟨[], some stop, [], []⟩
  | p :: ps =>
    let r := readLine stop p
    match r.err with
    | none => ⟨r.line, none, r.rest, ps⟩
    | some _ =>
      let r' := readPieces stop ps
      ⟨r.line ++ r'.line, r'.err, r'.kept, r'.rest⟩

/-- Nothing stands behind the line end of a piece. -/
def LineWise (ps : List Text) : Prop := ∀ p ∈ ps, ∀ a b, p = a ++ 10 :: b → b = []

variable {stop : ReadError} {t a b p : Text} {ps : List Text}

theorem readPieces_cons_line (h : 10 ∉ a) :
    readPieces stop ((a ++ 10 :: b) :: ps) = ⟨a ++ [10], none, b, ps⟩ := by
  rw [readPieces, readLine_line stop h]

theorem readPieces_cons_part (h : 10 ∉ p) :
    readPieces stop (p :: ps) = ⟨p ++ (readPieces stop ps).line, (readPieces stop ps).err,
      (readPieces stop ps).kept, (readPieces stop ps).rest⟩ := by
  rw [readPieces, readLine_last stop h]

theorem readPieces_append {pre : List Text} (h : 10 ∉ pre.flatten) (ps : List Text) :
    readPieces stop (pre ++ ps) = ⟨pre.flatten ++ (readPieces stop ps).line,
      (readPieces stop ps).err, (readPieces stop ps).kept, (readPieces stop ps).rest⟩ := by
  induction pre with
  | nil => rfl
  | cons p pre ih =>
      obtain ⟨hp, hpre⟩ : 10 ∉ p ∧ 10 ∉ pre.flatten := by simpa using h
      rw [List.cons_append, readPieces_cons_part hp, ih hpre, List.flatten_cons,
        List.append_assoc]

theorem readPieces_last (h : 10 ∉ ps.flatten) :
    readPieces stop ps = ⟨ps.flatten, some stop, [], []⟩ := by
  have hread : readPieces stop (ps ++ []) = _ := readPieces_append h []
  rw [List.append_nil] at hread
  rw [hread, readPieces, List.append_nil]

/-- The piece with the first line end. -/
theorem exists_piece (h : 10 ∈ ps.flatten) :
    ∃ pre a b post, ps = pre ++ (a ++ 10 :: b) :: post ∧ 10 ∉ pre.flatten ∧ 10 ∉ a := by
  induction ps with
  | nil => exact absurd h List.not_mem_nil
  | cons p ps ih =>
      by_cases hp : 10 ∈ p
      · obtain ⟨a, b, rfl, ha⟩ := List.eq_append_cons_of_mem hp
        exact ⟨[], a, b, ps, rfl, List.not_mem_nil, ha⟩
      · obtain ⟨pre, a, b, post, rfl, hpre, ha⟩ :=
          ih ((List.mem_append.mp h).resolve_left hp)
        exact ⟨p :: pre, a, b, post, rfl, by simpa [hp] using hpre, ha⟩

theorem readPieces_line {pre post : List Text} (hpre : 10 ∉ pre.flatten) (ha : 10 ∉ a) :
    readPieces stop (pre ++ (a ++ 10 :: b) :: post) =
      ⟨pre.flatten ++ a ++ [10], none, b, post⟩ := by
  rw [readPieces_append hpre, readPieces_cons_line ha, List.append_assoc]

/-- The loop over the lines gets on. -/
theorem rest_readPieces_lt (h : (readPieces stop ps).err = none) :
    (readPieces stop ps).rest.length < ps.length := by
  by_cases hps : 10 ∈ ps.flatten
  · obtain ⟨pre, a, b, post, rfl, hpre, ha⟩ := exists_piece hps
    rw [readPieces_line hpre ha, List.length_append, List.length_cons]
    exact Nat.lt_add_left _ (Nat.lt_succ_self _)
  · rw [readPieces_last hps] at h
    exact absurd h (Option.some_ne_none stop)

/-- One read, and with what it gives the next one. -/
theorem bind_eq_ok {ε α β : Type} {x : Except ε α} {f : α → Except ε β} {c : β} :
    (x >>= f) = .ok c ↔ ∃ r, x = .ok r ∧ f r = .ok c := by
  cases x with
  | error e => simp [bind, Except.bind]
  | ok r => simp [bind, Except.bind]

/-! ### Line by line -/

theorem lineWise_append {pre : List Text} : LineWise (pre ++ ps) ↔ LineWise pre ∧ LineWise ps :=
  List.forall_mem_append

theorem lineWise_of_not_mem (h : 10 ∉ ps.flatten) : LineWise ps := by
  intro p hp a b hab
  refine absurd (List.mem_flatten.mpr ⟨p, hp, ?_⟩) h
  rw [hab]
  simp

/-- The pieces up to a line end, and the ones behind it. -/
theorem lineWise_iff {pre post : List Text} (hpre : 10 ∉ pre.flatten) (ha : 10 ∉ a) :
    LineWise (pre ++ (a ++ 10 :: b) :: post) ↔ b = [] ∧ LineWise post := by
  have hcons : LineWise ((a ++ 10 :: b) :: post) ↔ b = [] ∧ LineWise post := by
    constructor
    · intro h
      exact ⟨h _ List.mem_cons_self a b rfl, fun p hp => h p (List.mem_cons_of_mem _ hp)⟩
    · rintro ⟨rfl, h⟩ p hp x y hxy
      rcases List.mem_cons.mp hp with rfl | hp
      · rcases List.eq_nil_or_concat' y with rfl | ⟨z, c, rfl⟩
        · rfl
        · -- otherwise the LF stands in `a`
          rw [← List.cons_append, ← List.append_assoc] at hxy
          obtain ⟨rfl, -⟩ := List.append_inj' hxy rfl
          exact absurd (by simp) ha
      · exact h p hp x y hxy
  rw [lineWise_append, hcons, and_iff_right (lineWise_of_not_mem hpre)]

end Codelib
