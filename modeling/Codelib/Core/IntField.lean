import Mathlib.Algebra.BigOperators.Group.List.Basic
import Mathlib.Algebra.GroupWithZero.Nat
import Codelib.Core.ByteOrder

/-!
# Codelib.Core.IntField

**Integers of fixed width in a byte string**, signed ones in two's complement.

`packAll` writes one integer for each field, and `unpackAll` reads them back
(`unpackAll_packAll`). What is packed for a list of fields has one length, however many
integers there are (`length_packAll`).

Nothing here names a program of the repository.
-/

namespace Codelib

/-- The place of an integer in a byte string. -/
structure IntField where
  width : Nat
  signed : Bool
  order : ByteOrder
  deriving Repr, DecidableEq

namespace IntField

variable (f : IntField)

/-- The number of values. -/
def card : Nat := 256 ^ f.width

/-- The values that fit, half of them negative if the field is signed. -/
def InRange (x : Int) : Prop :=
  if f.signed then -(f.card : Int) ≤ 2 * x ∧ 2 * x < f.card else 0 ≤ x ∧ x < f.card

instance (x : Int) : Decidable (f.InRange x) := by
  unfold InRange
  infer_instance

/-- The bytes of an integer; the high ones are cut off. -/
def encode (x : Int) : Text := f.order.store f.width (x % f.card).toNat

def decode (bs : Text) : Int :=
  if f.signed then (f.order.load bs : Int).bmod f.card else f.order.load bs

theorem card_pos : 0 < f.card := Nat.pow_pos (by decide)

@[simp] theorem length_encode (x : Int) : (f.encode x).length = f.width := by
  rw [encode, ByteOrder.length_store]

theorem load_encode (x : Int) : (f.order.load (f.encode x) : Int) = x % f.card := by
  have hpos : (0 : Int) < f.card := by exact_mod_cast f.card_pos
  have hnonneg := Int.emod_nonneg x (Int.ne_of_gt hpos)
  have hlt := Int.emod_lt_of_pos x hpos
  rw [encode, ByteOrder.load_store, Int.toNat_of_nonneg hnonneg]
  exact (Int.toNat_lt hnonneg).mpr hlt

theorem decode_encode {x : Int} (h : f.InRange x) : f.decode (f.encode x) = x := by
  rw [decode, load_encode]
  unfold InRange at h
  split at h
  · case isTrue hsigned =>
      rw [if_pos hsigned, Int.emod_bmod]
      exact Int.bmod_eq_of_le_mul_two (by omega) (by omega)
  · case isFalse hsigned =>
      rw [if_neg hsigned, Int.emod_eq_of_lt h.1 h.2]

end IntField

/-! ### Lists of fields -/

/-- One integer for each field; a missing one is written as 0. -/
def packAll : List IntField → List Int → Text
  | [], _ => []
  | f :: fs, xs => f.encode (xs.headD 0) ++ packAll fs xs.tail

/-- The integers of the fields for which there are bytes enough. -/
def unpackAll : List IntField → Text → List Int
  | [], _ => []
  | f :: fs, bs =>
    if f.width ≤ bs.length then f.decode (bs.take f.width) :: unpackAll fs (bs.drop f.width)
    else unpackAll fs bs

/-- The length depends on the fields alone. -/
theorem length_packAll (fs : List IntField) (xs : List Int) :
    (packAll fs xs).length = (fs.map IntField.width).sum := by
  induction fs generalizing xs with
  | nil => rfl
  | cons f fs ih => rw [packAll, List.length_append, f.length_encode, ih, List.map_cons, List.sum_cons]

theorem unpackAll_packAll {fs : List IntField} {xs : List Int}
    (h : List.Forall₂ IntField.InRange fs xs) : unpackAll fs (packAll fs xs) = xs := by
  induction h with
  | nil => rfl
  | @cons f x fs xs hx _ ih =>
      have hlength := f.length_encode x
      rw [packAll, List.headD_cons, List.tail_cons, unpackAll, if_pos, List.take_left' hlength,
        List.drop_left' hlength, f.decode_encode hx, ih]
      rw [List.length_append, hlength]
      exact Nat.le_add_right _ _

end Codelib
