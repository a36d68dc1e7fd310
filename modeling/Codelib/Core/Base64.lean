import Mathlib.Algebra.Group.Nat.Defs
import Codelib.Core.Lines

/-!
# Codelib.Core.Base64

The standard base 64 encoding, with padding: three bytes make four characters.

Nothing here names a program of the repository.
-/

namespace Codelib.Base64

def alphabet : Text := text "ABCDEFGHIJKLMNOPQRSTUVWXYZabcdefghijklmnopqrstuvwxyz0123456789+/"

/-- The character of six bits. -/
def digit (n : Fin 64) : UInt8 := alphabet.get n

/-- Six bits from position `k` up, counted from the low end. -/
def sixBits (n k : Nat) : Fin 64 := ⟨n / 2 ^ k % 64, Nat.mod_lt _ (by decide)⟩

def encode : Text → Text
  | [] => []
  | [a] =>
    let n := a.toNat * 2 ^ 16
    [digit (sixBits n 18), digit (sixBits n 12), 61, 61]
  | [a, b] =>
    let n := a.toNat * 2 ^ 16 + b.toNat * 2 ^ 8
    [digit (sixBits n 18), digit (sixBits n 12), digit (sixBits n 6), 61]
  | a :: b :: c :: rest =>
    let n := a.toNat * 2 ^ 16 + b.toNat * 2 ^ 8 + c.toNat
    digit (sixBits n 18) :: digit (sixBits n 12) :: digit (sixBits n 6) :: digit (sixBits n 0) ::
      encode rest

/-- The bytes that four characters stand for; padding stands for no bits. -/
def group (w x y z : UInt8) : Option Text := do
  let a ← alphabet.idxOf? w
  let b ← alphabet.idxOf? x
  if y = 61 ∧ z = 61 then
    return [UInt8.ofNat (a * 4 + b / 16)]
  let c ← alphabet.idxOf? y
  if z = 61 then
    return [UInt8.ofNat (a * 4 + b / 16), UInt8.ofNat (b * 16 + c / 4)]
  let d ← alphabet.idxOf? z
  return [UInt8.ofNat (a * 4 + b / 16), UInt8.ofNat (b * 16 + c / 4), UInt8.ofNat (c * 64 + d)]

def decode : Text → Option Text
  | [] => some []
  | w :: x :: y :: z :: rest =>
    if z = 61 ∧ rest ≠ [] then none
    else do return (← group w x y z) ++ (← decode rest)
  | _ => none

example : (encode (text "light w")) = text "bGlnaHQgdw==" := by decide

example : decode (text "bGlnaHQgdw==") = some (text "light w") := by decide

theorem mem_encode {c : UInt8} {t : Text} (h : c ∈ encode t) : c ∈ alphabet ∨ c = 61 := by
  have hdigit (n : Fin 64) : digit n ∈ alphabet := List.get_mem ..
  fun_induction encode t with
  | case1 => simp at h
  | case2 a =>
      simp only [List.mem_cons, List.not_mem_nil, or_false] at h
      rcases h with rfl | rfl | rfl | rfl <;> simp [hdigit]
  | case3 a b =>
      simp only [List.mem_cons, List.not_mem_nil, or_false] at h
      rcases h with rfl | rfl | rfl | rfl <;> simp [hdigit]
  | case4 a b c rest n ih =>
      simp only [List.mem_cons] at h
      rcases h with rfl | rfl | rfl | rfl | h
      all_goals first | exact .inl (hdigit _) | exact ih h

end Codelib.Base64
