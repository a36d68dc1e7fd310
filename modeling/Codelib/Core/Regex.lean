import Codelib.Core.Lines
import Mathlib.Tactic.Common

/-!
# Codelib.Core.Regex

**A backtracking matcher for regular expressions over bytes**, with greedy repetition, one
capturing group, look-ahead and the anchors of a text of several lines.

`Regex.run r k s` matches `r` from the cursor `s` and goes on with `k`; the ways to match
`r` are tried in the order of preference, until `k` succeeds. `Regex.findAll` repeats the
search from where the last match ended.

The rules below are about repeating a class of bytes, where giving back bytes cannot help
(`repeats_class`), and about a class that is found too rarely (`repeats_class_none`).

Nothing here names a program of the repository.
-/

namespace Codelib

/-- A regular expression. -/
inductive Regex
  /-- One byte of a class. -/
  | one (p : UInt8 → Bool)
  | seq (r₁ r₂ : Regex)
  /-- `r₁|r₂`: the left one first. -/
  | alt (r₁ r₂ : Regex)
  /-- `r{min,max}`, greedy; without `max`, as often as it goes. -/
  | rep (min : Nat) (max : Option Nat) (r : Regex)
  /-- `(r)`: what `r` takes is kept. -/
  | group (r : Regex)
  /-- `(?=r)`: `r` matches here and takes nothing. -/
  | ahead (r : Regex)
  /-- `\A`: the start of the text. -/
  | textStart
  /-- `^` for a text of several lines: the start of a line that is there. -/
  | lineStart
  /-- `\Z`: the end of the text, or in front of the newline the text ends with. -/
  | textEnd

/-- A place in a text, and what the group has taken on the way: where it began and the
bytes. -/
structure Cursor where
  /-- The bytes passed, the last one first. -/
  before : Text
  rest : Text
  capture : Option (Nat × Text)
  deriving Repr, DecidableEq

namespace Cursor

/-- One byte on. -/
def next (s : Cursor) (c : UInt8) (rest : Text) : Cursor := { s with before := c :: s.before, rest }

/-- The group that began at `s` ends here. -/
def close (t s : Cursor) : Cursor :=
  { t with capture := some (s.before.length, s.rest.take (s.rest.length - t.rest.length)) }

end Cursor

namespace Regex

/-- `body` at least `min` and at most `n` times, then `k`. A round beyond the least number
has to take something. -/
def repeats (body : (Cursor → Option Cursor) → Cursor → Option Cursor) :
    Nat → Nat → (Cursor → Option Cursor) → Cursor → Option Cursor
  | 0, min, k, s => if min = 0 then k s else none
  | n + 1, min + 1, k, s => body (repeats body n min k) s
  | n + 1, 0, k, s =>
    (body (fun t => if t.rest.length < s.rest.length then repeats body n 0 k t else none) s).or
      (k s)

/-- Match `r` from `s`, then go on with `k`. -/
def run : Regex → (Cursor → Option Cursor) → Cursor → Option Cursor
  | one p, k, s =>
    match s.rest with
    | [] => none
    | c :: rest => if p c then k (s.next c rest) else none
  | seq r₁ r₂, k, s => r₁.run (r₂.run k) s
  | alt r₁ r₂, k, s => (r₁.run k s).or (r₂.run k s)
  | rep min max r, k, s => repeats r.run (max.getD (min + s.rest.length)) min k s
  | group r, k, s => r.run (fun t => k (t.close s)) s
  | ahead r, k, s => (r.run some s).bind fun t => k { s with capture := t.capture }
  | textStart, k, s => if s.before = [] then k s else none
  | lineStart, k, s =>
    if s.before = [] ∨ s.before.head? = some 10 ∧ s.rest ≠ [] then k s else none
  | textEnd, k, s => if s.rest = [] ∨ s.rest = [10] then k s else none

/-- The matches from `s` on, each as the place where it ended: the first that succeeds, then
on from its end. `n` bounds the number of places that are tried. For an expression that
takes at least one byte. -/
def scan (r : Regex) : Nat → Cursor → List Cursor
  | 0, _ => []
  | n + 1, s =>
    match r.run some { s with capture := none } with
    | some t => t :: scan r n t
    | none =>
      match s.rest with
      | [] => []
      | c :: rest => scan r n (s.next c rest)

/-- All matches in a text. -/
def findAll (r : Regex) (t : Text) : List Cursor := scan r (t.length + 1) ⟨[], t, none⟩

/-! ### Repeating a class -/

section

variable {p : UInt8 → Bool} {k : Cursor → Option Cursor} {before rest : Text}
  {capture : Option (Nat × Text)}

theorem run_one_nil : (one p).run k ⟨before, [], capture⟩ = none := rfl

theorem run_one_cons (c : UInt8) :
    (one p).run k ⟨before, c :: rest, capture⟩ =
      if p c then k ⟨c :: before, rest, capture⟩ else none := rfl

/-- What follows does not begin with a byte of the class. -/
theorem run_one_none (h : ∀ c ∈ rest.head?, p c = false) :
    (one p).run k ⟨before, rest, capture⟩ = none := by
  cases rest with
  | nil => rfl
  | cons c rest => rw [run_one_cons, if_neg (by simp [h c rfl])]

/-- A run of a class takes all it can get, unless giving back bytes helps what follows. -/
theorem repeats_class {m : Text} {n min : Nat} (hm : ∀ c ∈ m, p c)
    (hend : m.length = n ∨ m.length < n ∧ ∀ c ∈ rest.head?, p c = false) (hmin : min ≤ m.length)
    (hk : k ⟨m.reverse ++ before, rest, capture⟩ = none →
      ∀ a b, m = a ++ b → b ≠ [] → min ≤ a.length →
        k ⟨a.reverse ++ before, b ++ rest, capture⟩ = none) :
    repeats (one p).run n min k ⟨before, m ++ rest, capture⟩ =
      k ⟨m.reverse ++ before, rest, capture⟩ := by
  induction m generalizing before n min with
  | nil =>
      obtain rfl : min = 0 := by simpa using hmin
      cases n with
      | zero => rfl
      | succ n =>
          have hhead : ∀ c ∈ rest.head?, p c = false := by simpa using hend
          rw [List.nil_append, repeats, run_one_none hhead]
          rfl
  | cons c m ih =>
      obtain ⟨n, rfl⟩ : ∃ n', n = n' + 1 := ⟨n - 1, by grind⟩
      have hend' : m.length = n ∨ m.length < n ∧ ∀ c ∈ rest.head?, p c = false := by
        simpa using hend
      have hpc : p c = true := hm c List.mem_cons_self
      have hm' : ∀ c ∈ m, p c := fun d hd => hm d (List.mem_cons_of_mem c hd)
      have hrev : ∀ a : Text, (c :: a).reverse ++ before = a.reverse ++ c :: before := by simp
      have hk' : ∀ min', min ≤ min' + 1 →
          k ⟨m.reverse ++ c :: before, rest, capture⟩ = none →
          ∀ a b, m = a ++ b → b ≠ [] → min' ≤ a.length →
            k ⟨a.reverse ++ c :: before, b ++ rest, capture⟩ = none := by
        intro min' hle hnone a b hab hb ha
        rw [← hrev] at hnone ⊢
        exact hk hnone (c :: a) b (by rw [hab]; rfl) hb (by rw [List.length_cons]; omega)
      rw [hrev, List.cons_append]
      cases min with
      | zero =>
          have hlt : (m ++ rest).length < (c :: (m ++ rest)).length := by simp
          rw [repeats, run_one_cons, if_pos hpc]
          dsimp only
          rw [if_pos hlt, ih hm' hend' (Nat.zero_le _) (hk' 0 (Nat.zero_le _))]
          cases hfull : k ⟨m.reverse ++ c :: before, rest, capture⟩ with
          | some t => rfl
          | none =>
              rw [← hrev] at hfull
              exact hk hfull [] (c :: m) rfl (by simp) (Nat.zero_le _)
      | succ min =>
          rw [repeats, run_one_cons, if_pos hpc]
          exact ih hm' hend' (Nat.le_of_succ_le_succ hmin) (hk' min (Nat.le_refl _))

/-- A class that is found too rarely. -/
theorem repeats_class_none {n min : Nat}
    (h : ∀ m tail, rest = m ++ tail → (∀ c ∈ m, p c) → m.length < min) :
    repeats (one p).run n min k ⟨before, rest, capture⟩ = none := by
  induction min generalizing before rest n with
  | zero => exact absurd (h [] rest rfl (by simp)) (Nat.not_lt_zero _)
  | succ min ih =>
      cases n with
      | zero => rfl
      | succ n =>
          rw [repeats]
          cases rest with
          | nil => rfl
          | cons c rest =>
              rw [run_one_cons]
              split
              · rename_i hc
                refine ih fun m tail hm hall => ?_
                have hlt := h (c :: m) tail (by rw [hm]; rfl) (by simpa [hc] using hall)
                simpa using hlt
              · rfl

end

end Regex

end Codelib
