import Codelib.Core.Pieces
import Codelib.Mailthem.Contacts

/-!
# Codelib.Mailthem.Prompts

The prompts of `go/mailthem/mailthem.go`, and **when the answers are the lines that were typed**
(`answers_iff`).

`oneLiner` makes a reader of its own for every prompt. What the terminal hands over together with an
answer, behind its line end, is lost with the reader. Standard input is the list of what its reads
return, in order.
-/

namespace Codelib.Mailthem

variable {stop : ReadError}

/-- `oneLiner`, and what it leaves of standard input. -/
def oneLinerFrom (stop : ReadError) (stdin : List Text) : Except ReadError (Text × List Text) :=
  let r := readPieces stop stdin
  match r.err with
  | some err => .error err
  | none => .ok (trim [13, 10] r.line, r.rest)

/-- The answers to `n` prompts. -/
def answers (stop : ReadError) : Nat → List Text → Except ReadError (List Text × List Text)
  | 0, stdin => .ok ([], stdin)
  | n + 1, stdin => do
    let (line, stdin) ← oneLinerFrom stop stdin
    let (lines, stdin) ← answers stop n stdin
    return (line :: lines, stdin)

/-- The lines as they are typed. -/
def typed (lines : List Text) : Text := lines.flatMap (· ++ [10])

/-! ### One answer -/

theorem oneLinerFrom_last {stdin : List Text} (h : 10 ∉ stdin.flatten) :
    oneLinerFrom stop stdin = .error stop := by
  rw [oneLinerFrom, readPieces_last h]

theorem oneLinerFrom_line {pre post : List Text} {a b : Text} (hpre : 10 ∉ pre.flatten)
    (ha : 10 ∉ a) : oneLinerFrom stop (pre ++ (a ++ 10 :: b) :: post) =
      .ok (trim [13, 10] (pre.flatten ++ a ++ [10]), post) := by
  rw [oneLinerFrom, readPieces_line hpre ha]

/-- `oneLiner` gives the first line of all that there is. -/
theorem oneLinerFrom_flatten (stdin : List Text) :
    (oneLinerFrom stop stdin).map Prod.fst = oneLiner stop stdin.flatten := by
  by_cases h : 10 ∈ stdin.flatten
  · obtain ⟨pre, a, b, post, rfl, hpre, ha⟩ := exists_piece h
    have hline : 10 ∉ pre.flatten ++ a := by simp [hpre, ha]
    have hflat : (pre ++ (a ++ 10 :: b) :: post).flatten =
        pre.flatten ++ a ++ 10 :: (b ++ post.flatten) := by simp
    rw [oneLinerFrom_line hpre ha, hflat, oneLiner, readLine_line stop hline]
    rfl
  · rw [oneLinerFrom_last h, oneLiner, readLine_last stop h]
    rfl

theorem isInfix_trim_line (t : Text) : trim [13, 10] (t ++ [10]) <:+: t :=
  isInfix_trim_append (fun _ hc => List.mem_cons_of_mem 13 hc) t

/-! ### All answers -/

theorem answers_succ {n : Nat} {stdin rest lines : List Text} :
    answers stop (n + 1) stdin = .ok (lines, rest) ↔ ∃ line stdin' lines',
      oneLinerFrom stop stdin = .ok (line, stdin') ∧ answers stop n stdin' = .ok (lines', rest) ∧
        lines = line :: lines' := by
  rw [answers, bind_eq_ok]
  constructor
  · rintro ⟨⟨line, stdin'⟩, hline, h⟩
    obtain ⟨⟨lines', rest'⟩, hlines, h⟩ := bind_eq_ok.mp h
    obtain ⟨rfl, rfl⟩ := Prod.mk.inj (Except.ok.inj h)
    exact ⟨line, stdin', lines', hline, hlines, rfl⟩
  · rintro ⟨line, stdin', lines', hline, hlines, rfl⟩
    exact ⟨(line, stdin'), hline, bind_eq_ok.mpr ⟨(lines', rest), hlines, rfl⟩⟩

theorem length_typed_cons (line : Text) (lines : List Text) :
    (typed (line :: lines)).length = line.length + 1 + (typed lines).length := by
  rw [typed, List.flatMap_cons, List.length_append, List.length_append, List.length_singleton, typed]

/-- A text has one first line. -/
theorem line_inj {a b c d : Text} (ha : 10 ∉ a) (hc : 10 ∉ c) (h : a ++ 10 :: b = c ++ 10 :: d) :
    a = c ∧ b = d := by
  have hread := congrArg (readLine .eof) h
  rw [readLine_line .eof ha, readLine_line .eof hc, Read.mk.injEq] at hread
  exact ⟨List.append_cancel_right hread.1, hread.2.2⟩

/-- No byte is an answer twice. -/
theorem length_typed_le {n : Nat} {stdin rest lines : List Text}
    (h : answers stop n stdin = .ok (lines, rest)) :
    (typed lines).length ≤ stdin.flatten.length := by
  induction n generalizing stdin lines with
  | zero =>
      obtain ⟨rfl, -⟩ := Prod.mk.inj (Except.ok.inj h)
      exact Nat.zero_le _
  | succ n ih =>
      obtain ⟨line, stdin', lines', hline, hlines, rfl⟩ := answers_succ.mp h
      by_cases hlf : 10 ∈ stdin.flatten
      · obtain ⟨pre, a, b, post, rfl, hpre, ha⟩ := exists_piece hlf
        rw [oneLinerFrom_line hpre ha, Except.ok.injEq, Prod.mk.injEq] at hline
        obtain ⟨rfl, rfl⟩ := hline
        have hle := ih hlines
        have htrim := (isInfix_trim_line (pre.flatten ++ a)).length_le
        rw [length_typed_cons]
        simp only [List.flatten_append, List.flatten_cons, List.length_append,
          List.length_cons] at htrim ⊢
        omega
      · rw [oneLinerFrom_last hlf] at hline
        exact absurd hline nofun

theorem trim_line {t : Text} (hcr : 13 ∉ t) (hlf : 10 ∉ t) : trim [13, 10] (t ++ [10]) = t := by
  have hone : oneLiner .eof (t ++ LineEnd.lf.text ++ []) = .ok t := oneLiner_line hcr hlf .lf []
  rw [List.append_nil, oneLiner, LineEnd.text, readLine_line .eof hlf []] at hone
  exact Except.ok.inj hone

/-- **When the answers are the lines that were typed**: if and only if no read of the terminal returns
anything behind a line end. -/
theorem answers_iff {lines stdin : List Text} (hplain : ∀ l ∈ lines, 13 ∉ l ∧ 10 ∉ l)
    (h : stdin.flatten = typed lines) :
    (∃ rest, answers stop lines.length stdin = .ok (lines, rest)) ↔ LineWise stdin := by
  induction lines generalizing stdin with
  | nil =>
      have hlf : 10 ∉ stdin.flatten := by simp [h, typed]
      exact iff_of_true ⟨stdin, rfl⟩ (lineWise_of_not_mem hlf)
  | cons l lines ih =>
      obtain ⟨⟨hcr, hl⟩, hlines⟩ := List.forall_mem_cons.mp hplain
      have hlf : 10 ∈ stdin.flatten := by simp [h, typed]
      obtain ⟨pre, a, b, post, rfl, hpre, ha⟩ := exists_piece hlf
      -- the first answer is right in any case
      have hline : 10 ∉ pre.flatten ++ a := by simp [hpre, ha]
      have hsplit : pre.flatten ++ a ++ 10 :: (b ++ post.flatten) = l ++ 10 :: typed lines := by
        simpa [typed] using h
      obtain ⟨rfl, hrest⟩ := line_inj hline hl hsplit
      rw [lineWise_iff hpre ha, List.length_cons]
      constructor
      · rintro ⟨rest, hans⟩
        obtain ⟨line, stdin', lines', hone, hans, heq⟩ := answers_succ.mp hans
        obtain ⟨-, rfl⟩ := List.cons.inj heq
        rw [oneLinerFrom_line hpre ha, Except.ok.injEq, Prod.mk.injEq] at hone
        obtain ⟨-, rfl⟩ := hone
        -- the other answers have no place for what was lost
        have hle := length_typed_le hans
        rw [← hrest, List.length_append] at hle
        have hb : b = [] := List.length_eq_zero_iff.mp (by omega)
        rw [hb, List.nil_append] at hrest
        exact ⟨hb, (ih hlines hrest).mp ⟨rest, hans⟩⟩
      · rintro ⟨rfl, hpost⟩
        obtain ⟨rest, hans⟩ := (ih hlines hrest).mpr hpost
        refine ⟨rest, answers_succ.mpr ⟨_, post, lines, oneLinerFrom_line hpre ha, hans, ?_⟩⟩
        rw [trim_line hcr hl]

/-- Two answers that were piped in arrive together. -/
theorem answers_iff_piped :
    (∃ rest, answers .eof 2 [[97, 10, 98, 10]] = .ok ([[97], [98]], rest)) ↔
      LineWise [[97, 10, 98, 10]] :=
  @answers_iff .eof [[97], [98]] [[97, 10, 98, 10]] (by decide) (by decide)

end Codelib.Mailthem
