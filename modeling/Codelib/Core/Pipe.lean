import Mathlib.Data.List.Basic
import Mathlib.Tactic.Common

/-!
# Codelib.Core.Pipe

**A reliable in-order stream**, and messages that travel on it.

A `Pipe` remembers everything that was written into it and how much of that the
reader has taken out; what was written never changes and is taken in order. The
writer of a protocol puts one message after the other into the pipe
(`messages`), the reader takes pieces of any length out of it. `slice_messages` is
what the reader can rely on: a piece that lies within message `k` is that piece of
message `k`, whatever was written before and after it.

Nothing here names a program of the repository.
-/

namespace Codelib

universe u

variable {α : Type u}

/-- One direction of a connection: all that was written, and how much of it was read. -/
structure Pipe (α : Type u) where
  sent : List α
  taken : Nat
  taken_le : taken ≤ sent.length

namespace Pipe

variable {p q : Pipe α} {bs : List α} {t : Nat}

/-- Nothing was written yet. -/
def empty : Pipe α := ⟨[], 0, Nat.le_refl 0⟩

def write (p : Pipe α) (bs : List α) : Pipe α where
  sent := p.sent ++ bs
  taken := p.taken
  taken_le := by
    rw [List.length_append]
    exact Nat.le_trans p.taken_le (Nat.le_add_right _ _)

/-- Take the next `t` elements, if that many are there. -/
def read (p : Pipe α) (t : Nat) : Option (List α × Pipe α) :=
  if h : p.taken + t ≤ p.sent.length then
    some ((p.sent.drop p.taken).take t, ⟨p.sent, p.taken + t, h⟩)
  else none

@[simp] theorem write_sent (p : Pipe α) (bs : List α) : (p.write bs).sent = p.sent ++ bs := rfl

@[simp] theorem write_taken (p : Pipe α) (bs : List α) : (p.write bs).taken = p.taken := rfl

theorem read_eq_some : p.read t = some (bs, q) ↔
    p.taken + t ≤ p.sent.length ∧ bs = (p.sent.drop p.taken).take t ∧
      q.sent = p.sent ∧ q.taken = p.taken + t := by
  unfold read
  by_cases h : p.taken + t ≤ p.sent.length
  · rw [dif_pos h]
    obtain ⟨sent, taken, hle⟩ := q
    simp only [Option.some.injEq, Prod.mk.injEq, Pipe.mk.injEq, h, true_and]
    exact ⟨fun ⟨hb, hs, ht⟩ => ⟨hb.symm, hs.symm, ht.symm⟩,
      fun ⟨hb, hs, ht⟩ => ⟨hb.symm, hs.symm, ht.symm⟩⟩
  · simp [h]

/-- What the reader has. -/
def received (p : Pipe α) : List α := p.sent.take p.taken

theorem received_prefix (p : Pipe α) : p.received <+: p.sent := List.take_prefix _ _

@[simp] theorem received_write (p : Pipe α) (bs : List α) : (p.write bs).received = p.received :=
  List.take_append_of_le_length p.taken_le

theorem received_of_sent_eq_nil (h : p.sent = []) : p.received = [] := by
  rw [received, h, List.take_nil]

theorem received_read (h : p.read t = some (bs, q)) : q.received = p.received ++ bs := by
  obtain ⟨-, rfl, hsent, htaken⟩ := read_eq_some.mp h
  rw [received, hsent, htaken, List.take_add, received]

theorem sent_read (h : p.read t = some (bs, q)) : q.sent = p.sent := (read_eq_some.mp h).2.2.1

theorem taken_read (h : p.read t = some (bs, q)) : q.taken = p.taken + t := (read_eq_some.mp h).2.2.2

theorem length_read (h : p.read t = some (bs, q)) : bs.length = t := by
  obtain ⟨hle, rfl, -⟩ := read_eq_some.mp h
  rw [List.length_take, List.length_drop]
  omega

theorem exists_read (h : p.taken < p.sent.length) : ∃ r, p.read 1 = some r := by
  rw [read, dif_pos (Nat.succ_le_of_lt h)]
  exact ⟨_, rfl⟩

theorem received_eq_sent (h : ¬ p.taken < p.sent.length) : p.received = p.sent :=
  List.take_of_length_le (Nat.le_of_not_lt h)

end Pipe

/-! ### Messages -/

/-- The first `k` messages of `m`, one after the other. -/
def messages (m : Nat → List α) : Nat → List α
  | 0 => []
  | k + 1 => messages m k ++ m k

variable {m : Nat → List α} {k w r t : Nat}

theorem messages_mono (h : k ≤ w) : messages m k <+: messages m w := by
  induction h with
  | refl => exact List.prefix_refl _
  | step _ ih => exact ih.trans (List.prefix_append _ _)

theorem length_messages_succ (m : Nat → List α) (k : Nat) :
    (messages m (k + 1)).length = (messages m k).length + (m k).length :=
  List.length_append

theorem length_messages_le (h : k ≤ w) : (messages m k).length ≤ (messages m w).length :=
  (messages_mono h).length_le

/-- Something of message `k` has been written only if the writer got that far. -/
theorem lt_of_length_messages_lt (h : (messages m k).length < (messages m w).length) : k < w := by
  by_contra hle
  exact absurd (length_messages_le (m := m) (Nat.le_of_not_lt hle)) (Nat.not_le_of_lt h)

/-- **A piece within message `k`** of a stream of messages is that piece of message `k`. -/
theorem slice_messages (hk : k < w) (ht : r + t ≤ (m k).length) :
    ((messages m w).drop ((messages m k).length + r)).take t = ((m k).drop r).take t := by
  obtain ⟨rest, hrest⟩ := messages_mono (m := m) (Nat.succ_le_of_lt hk)
  have hsplit : messages m w = messages m k ++ (m k ++ rest) := by
    rw [← hrest, messages, List.append_assoc]
  rw [hsplit, List.drop_append, List.drop_eq_nil_of_le (Nat.le_add_right _ _), List.nil_append,
    Nat.add_sub_cancel_left, List.drop_append_of_le_length (by omega),
    List.take_append_of_le_length (by rw [List.length_drop]; omega)]

/-- Appending the next piece to what was taken of a message. -/
theorem getElem?_take_add (l : List α) (r t i : Nat) :
    (l.take (r + t))[i]? =
      if r ≤ i ∧ i < r + t then ((l.drop r).take t)[i - r]? else (l.take r)[i]? := by
  by_cases hi : i < r
  · rw [if_neg (by omega), List.getElem?_take_of_lt (by omega), List.getElem?_take_of_lt hi]
  by_cases hi' : i < r + t
  · have hri : r + (i - r) = i := by omega
    rw [if_pos ⟨by omega, hi'⟩, List.getElem?_take_of_lt hi',
      List.getElem?_take_of_lt (by omega), List.getElem?_drop, hri]
  · rw [if_neg (by omega), List.getElem?_take_eq_none (by omega),
      List.getElem?_take_eq_none (by omega)]

end Codelib
