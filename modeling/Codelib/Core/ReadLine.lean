import Mathlib.Data.List.DropRight
import Codelib.Core.Lines

/-!
# Codelib.Core.ReadLine

**Reading a file line by line.** A read gives the bytes up to the next line end, and an error if
the file has none: what was left of the file then comes together with the error.

A line is taken apart with `List.splitOn`, after `trim` has removed its line end.

Nothing here names a program of the repository.
-/

namespace Codelib

/-- What stops a read. -/
inductive ReadError
  | eof
  | failed (message : Text)
  deriving Repr, DecidableEq

/-- What a read returns, and what it leaves. -/
structure Read where
  line : Text
  err : Option ReadError
  rest : Text
  deriving Repr, DecidableEq

/-- Read as far as a line end. `stop` is what the file ends with. -/
def readLine (stop : ReadError) : Text → Read
  | [] => ⟨[], some stop, []⟩
  | c :: t =>
    if c = 10 then ⟨[c], none, t⟩
    else
      let r := readLine stop t
      ⟨c :: r.line, r.err, r.rest⟩

variable {t a : Text}

theorem readLine_last (stop : ReadError) (h : 10 ∉ t) : readLine stop t = ⟨t, some stop, []⟩ := by
  induction t with
  | nil => rfl
  | cons c t ih =>
      obtain ⟨hc, ht⟩ : 10 ≠ c ∧ 10 ∉ t := by simpa using h
      rw [readLine, if_neg (Ne.symm hc), ih ht]

theorem readLine_line (stop : ReadError) (h : 10 ∉ a) (b : Text) :
    readLine stop (a ++ 10 :: b) = ⟨a ++ [10], none, b⟩ := by
  induction a with
  | nil => rfl
  | cons c a ih =>
      obtain ⟨hc, ha⟩ : 10 ≠ c ∧ 10 ∉ a := by simpa using h
      rw [List.cons_append, readLine, if_neg (Ne.symm hc), ih ha]
      rfl

/-- A loop that stops at an error gets to the end of the file. -/
theorem rest_readLine_lt {stop : ReadError} (h : (readLine stop t).err = none) :
    (readLine stop t).rest.length < t.length := by
  induction t with
  | nil => exact absurd h (Option.some_ne_none stop)
  | cons c t ih =>
      rw [readLine] at h ⊢
      split at h
      · case isTrue hc =>
          rw [if_pos hc]
          exact Nat.lt_succ_self _
      · case isFalse hc =>
          rw [if_neg hc]
          exact (ih h).trans (Nat.lt_succ_self _)

/-! ### Taking a line apart -/

/-- Remove the bytes in `cutset` from both ends. -/
def trim (cutset t : Text) : Text := (t.dropWhile (· ∈ cutset)).rdropWhile (· ∈ cutset)

theorem rdropWhile_append {p : UInt8 → Bool} {e : Text} (h : ∀ c ∈ e, p c) (t : Text) :
    (t ++ e).rdropWhile p = t.rdropWhile p := by
  induction e using List.reverseRecOn with
  | nil => rw [List.append_nil]
  | append_singleton e c ih =>
      rw [← List.append_assoc, List.rdropWhile_concat_pos _ _ _ (h c (by simp))]
      exact ih fun d hd => h d (List.mem_append_left [c] hd)

/-- A line end of any length is removed, and nothing else. -/
theorem trim_append {cutset e : Text} (ht : ∀ c ∈ t, c ∉ cutset) (he : ∀ c ∈ e, c ∈ cutset) :
    trim cutset (t ++ e) = t := by
  have hend (t : Text) : (t ++ e).rdropWhile (· ∈ cutset) = t.rdropWhile (· ∈ cutset) :=
    rdropWhile_append (by simpa using he) t
  rcases t with _ | ⟨c, t⟩
  · have hall : e.dropWhile (· ∈ cutset) = [] := List.dropWhile_eq_nil_iff.mpr (by simpa using he)
    rw [trim, List.nil_append, hall, List.rdropWhile_nil]
  · have hfront : (c :: t ++ e).dropWhile (· ∈ cutset) = c :: t ++ e :=
      List.dropWhile_cons_of_neg (by simpa using ht c List.mem_cons_self)
    rw [trim, hfront, hend, List.rdropWhile_eq_self_iff]
    intro hne
    simpa using ht _ (List.getLast_mem hne)

theorem trim_of_forall {cutset : Text} (h : ∀ c ∈ t, c ∉ cutset) : trim cutset t = t := by
  have := trim_append (e := []) h (List.forall_mem_nil _)
  rwa [List.append_nil] at this

/-- What is trimmed with a line end is a part of the line. -/
theorem isInfix_trim_append {cutset e : Text} (he : ∀ c ∈ e, c ∈ cutset) (t : Text) :
    trim cutset (t ++ e) <:+: t := by
  rw [trim, List.dropWhile_append]
  split
  · have hall : e.dropWhile (· ∈ cutset) = [] := List.dropWhile_eq_nil_iff.mpr (by simpa using he)
    rw [hall, List.rdropWhile_nil]
    exact List.nil_infix
  · rw [rdropWhile_append (by simpa using he)]
    exact (List.rdropWhile_prefix _ _).isInfix.trans (List.dropWhile_suffix _).isInfix

/-- One field more than there are separators. -/
theorem length_splitOn (sep : UInt8) (t : Text) : (t.splitOn sep).length = t.count sep + 1 := by
  induction t with
  | nil => rfl
  | cons c t ih =>
      rw [List.splitOn_cons_eq_if_modifyHead, List.count_cons]
      split
      · simp [ih]
      · simp [ih]

end Codelib
