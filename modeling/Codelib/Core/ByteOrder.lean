import Mathlib.Algebra.Group.Nat.Defs
import Codelib.Core.Lines

/-!
# Codelib.Core.ByteOrder

**Natural numbers in memory**: `w` bytes with the least significant one first, or last.

Storing and loading are inverse to each other in either order (`load_store`, `store_load`). A value
that is loaded in the other order has the same bytes there (`store_reload`).

Nothing here names a program of the repository.
-/

namespace Codelib

inductive ByteOrder
  | little
  | big
  deriving Repr, DecidableEq

/-- The lowest `w` bytes, the least significant one first. -/
def leBytes : Nat → Nat → Text
  | 0, _ => []
  | w + 1, n => UInt8.ofNat n :: leBytes w (n / 256)

def leValue : Text → Nat
  | [] => 0
  | b :: bs => b.toNat + 256 * leValue bs

namespace ByteOrder

/-- The order of bytes that stand with the least significant one first. -/
def arrange : ByteOrder → Text → Text
  | .little, bs => bs
  | .big, bs => bs.reverse

/-- Store the lowest `w` bytes of `n`. -/
def store (o : ByteOrder) (w n : Nat) : Text := o.arrange (leBytes w n)

/-- Load a value from all bytes. -/
def load (o : ByteOrder) (bs : Text) : Nat := leValue (o.arrange bs)

end ByteOrder

@[simp] theorem length_leBytes (w n : Nat) : (leBytes w n).length = w := by
  induction w generalizing n with
  | zero => rfl
  | succ w ih => rw [leBytes, List.length_cons, ih]

theorem leValue_leBytes (w n : Nat) : leValue (leBytes w n) = n % 256 ^ w := by
  induction w generalizing n with
  | zero => rw [leBytes, leValue, Nat.pow_zero, Nat.mod_one]
  | succ w ih =>
      rw [leBytes, leValue, ih, Nat.pow_succ', Nat.mod_mul, UInt8.toNat_ofNat']

theorem leBytes_leValue (bs : Text) : leBytes bs.length (leValue bs) = bs := by
  induction bs with
  | nil => rfl
  | cons b bs ih =>
      have hb : b.toNat < 256 := b.toNat_lt
      have hlow : UInt8.ofNat (b.toNat + 256 * leValue bs) = b := by
        rw [← UInt8.toNat_inj, UInt8.toNat_ofNat', Nat.add_mul_mod_self_left, Nat.mod_eq_of_lt hb]
      have hhigh : (b.toNat + 256 * leValue bs) / 256 = leValue bs := by
        rw [Nat.add_mul_div_left _ _ (by decide), Nat.div_eq_of_lt hb, Nat.zero_add]
      rw [List.length_cons, leValue, leBytes, hlow, hhigh, ih]

theorem leValue_lt (bs : Text) : leValue bs < 256 ^ bs.length := by
  rw [← leBytes_leValue bs, leValue_leBytes, length_leBytes]
  exact Nat.mod_lt _ (Nat.pow_pos (by decide))

namespace ByteOrder

variable (o : ByteOrder)

@[simp] theorem arrange_arrange (bs : Text) : o.arrange (o.arrange bs) = bs := by
  cases o with
  | little => rfl
  | big => exact List.reverse_reverse bs

@[simp] theorem length_arrange (bs : Text) : (o.arrange bs).length = bs.length := by
  cases o with
  | little => rfl
  | big => exact List.length_reverse

@[simp] theorem length_store (w n : Nat) : (o.store w n).length = w := by
  rw [store, length_arrange, length_leBytes]

/-- What stands behind a value. -/
theorem drop_store {w k : Nat} (h : w ≤ k) (n : Nat) (t : Text) :
    (o.store w n ++ t).drop k = t.drop (k - w) := by
  have hnil : (o.store w n).drop k = [] := List.drop_eq_nil_of_le (by rwa [length_store])
  rw [List.drop_append, hnil, length_store, List.nil_append]

theorem load_lt (bs : Text) : o.load bs < 256 ^ bs.length := by
  rw [← o.length_arrange bs]
  exact leValue_lt _

/-- What does not fit is cut off. -/
theorem load_store_mod (w n : Nat) : o.load (o.store w n) = n % 256 ^ w := by
  rw [load, store, arrange_arrange, leValue_leBytes]

theorem load_store {w n : Nat} (h : n < 256 ^ w) : o.load (o.store w n) = n := by
  rw [load_store_mod, Nat.mod_eq_of_lt h]

theorem store_load (bs : Text) : o.store bs.length (o.load bs) = bs := by
  have := leBytes_leValue (o.arrange bs)
  rw [length_arrange] at this
  rw [store, load, this, arrange_arrange]

/-! ### Two orders -/

/-- A value as it is loaded in the order `o'` where it was stored in the order `o`. -/
def reload (o o' : ByteOrder) (w n : Nat) : Nat := o'.load (o.store w n)

theorem reload_lt (o o' : ByteOrder) (w n : Nat) : reload o o' w n < 256 ^ w := by
  have := o'.load_lt (o.store w n)
  rwa [length_store] at this

/-- The bytes stay the same. -/
theorem store_reload (o o' : ByteOrder) (w n : Nat) : o'.store w (reload o o' w n) = o.store w n := by
  have := o'.store_load (o.store w n)
  rwa [length_store] at this

theorem reload_reload (o o' : ByteOrder) {w n : Nat} (h : n < 256 ^ w) :
    reload o' o w (reload o o' w n) = n := by
  rw [reload, store_reload, load_store _ h]

end ByteOrder

end Codelib
