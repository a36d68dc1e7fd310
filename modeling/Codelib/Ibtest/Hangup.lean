import Codelib.Ibtest.Framing

/-!
# Codelib.Ibtest.Hangup

**When `sock_sync_data` comes back** (`comesBack_iff`). `read` answers 0 once the peer has
closed the connection, and 0 is neither an error nor `EOF`, which is -1: the round adds
nothing to `nbytes_read` and the loop goes on. So the call returns only if the whole
message arrived before the peer went away, or `read` fails.
-/

namespace Codelib.Ibtest

variable {xferSize : Nat} {nbytesWrite : Int} {reads : Nat → Int} {k : Nat}

/-- Where the call is after `k` rounds, if `write` returned `nbytesWrite` and the `k`-th
`read` returns `reads k`. -/
def control (xferSize : Nat) (nbytesWrite : Int) (reads : Nat → Int) : Nat → Control
  | 0 => afterWrite xferSize nbytesWrite
  | k + 1 =>
    match control xferSize nbytesWrite reads k with
    | .receiving nbytesRead => receiveRound xferSize nbytesRead (reads k)
    | c => c

/-- The bytes that arrived in the first `k` rounds. -/
def received (reads : Nat → Int) : Nat → Nat
  | 0 => 0
  | k + 1 => received reads k + (reads k).toNat

/-- The call returns, and not with 0 if less than the message was received. -/
def ComesBack (xferSize : Nat) (nbytesWrite : Int) (reads : Nat → Int) : Prop :=
  ∃ k ret, control xferSize nbytesWrite reads k = .returned ret ∧
    (∀ j < k, ∃ nbytesRead, control xferSize nbytesWrite reads j = .receiving nbytesRead) ∧
    (received reads k < xferSize → ret ≠ 0)

/-- The call has received `received reads k` bytes and needs more. -/
def Waiting (xferSize : Nat) (nbytesWrite : Int) (reads : Nat → Int) (k : Nat) : Prop :=
  control xferSize nbytesWrite reads k = .receiving (received reads k) ∧
    received reads k < xferSize

theorem Waiting.receiveTest (h : received reads k < xferSize)
    (hk : control xferSize nbytesWrite reads k = receiveTest xferSize (received reads k)) :
    Waiting xferSize nbytesWrite reads k :=
  ⟨hk.trans (if_pos h), h⟩

/-- A round that received something, or nothing at all. -/
theorem Waiting.control_succ (h : Waiting xferSize nbytesWrite reads k) (hread : 0 ≤ reads k) :
    control xferSize nbytesWrite reads (k + 1) =
      Ibtest.receiveTest xferSize (received reads (k + 1)) := by
  rw [control, h.1, received, ← receiveRound_pos, Int.toNat_of_nonneg hread]

/-- A round in which `read` fails. -/
theorem Waiting.control_succ_neg (h : Waiting xferSize nbytesWrite reads k)
    (hread : reads k < 0) : control xferSize nbytesWrite reads (k + 1) = .returned (-1) := by
  rw [control, h.1]
  exact if_pos hread

/-- **Every round** leaves the call waiting, or it has returned by then. -/
theorem waiting_or_comesBack (k : Nat) :
    (∀ j ≤ k, Waiting xferSize nbytesWrite reads j) ∨ ComesBack xferSize nbytesWrite reads := by
  induction k with
  | zero =>
      by_cases hwrite : nbytesWrite < xferSize
      · exact .inr ⟨0, -1, if_pos hwrite, nofun, fun _ => by decide⟩
      have hzero : control xferSize nbytesWrite reads 0 = receiveTest xferSize 0 := if_neg hwrite
      by_cases hmore : 0 < xferSize
      · refine .inl fun j hj => ?_
        obtain rfl : j = 0 := by omega
        exact .receiveTest hmore hzero
      · exact .inr ⟨0, 0, hzero.trans (if_neg hmore), nofun, fun h => absurd h hmore⟩
  | succ k ih =>
      rcases ih with hwait | hret
      case inr => exact .inr hret
      have hk := hwait k (Nat.le_refl k)
      have hbefore : ∀ j < k + 1,
          ∃ nbytesRead, control xferSize nbytesWrite reads j = .receiving nbytesRead :=
        fun j hj => ⟨_, (hwait j (by omega)).1⟩
      by_cases hread : reads k < 0
      · exact .inr ⟨k + 1, -1, hk.control_succ_neg hread, hbefore, fun _ => by decide⟩
      have hsucc := hk.control_succ (Int.not_lt.mp hread)
      by_cases hmore : received reads (k + 1) < xferSize
      · refine .inl fun j hj => ?_
        rcases Nat.le_succ_iff.mp hj with hj | rfl
        · exact hwait j hj
        · exact .receiveTest hmore hsucc
      · exact .inr ⟨k + 1, 0, hsucc.trans (if_neg hmore), hbefore, fun h => absurd h hmore⟩

/-- **When the call comes back**: `write` was short, a `read` fails, or the whole message
arrives. -/
theorem comesBack_iff (xferSize : Nat) (nbytesWrite : Int) (reads : Nat → Int) :
    ComesBack xferSize nbytesWrite reads ↔
      nbytesWrite < xferSize ∨ ∃ k, reads k < 0 ∨ xferSize ≤ received reads k := by
  constructor
  · intro hp
    obtain ⟨k, ret, hret, -, -⟩ := hp
    by_contra hnone
    have hwrite : ¬ nbytesWrite < xferSize := fun h => hnone (.inl h)
    have hread : ∀ j, 0 ≤ reads j := fun j =>
      Int.not_lt.mp fun h => hnone (.inr ⟨j, .inl h⟩)
    have hmore : ∀ j, received reads j < xferSize := fun j =>
      Nat.lt_of_not_le fun h => hnone (.inr ⟨j, .inr h⟩)
    have hwait : ∀ j, Waiting xferSize nbytesWrite reads j := by
      intro j
      induction j with
      | zero => exact .receiveTest (hmore 0) (if_neg hwrite)
      | succ j ih => exact .receiveTest (hmore _) (ih.control_succ (hread j))
    rw [(hwait k).1] at hret
    exact absurd hret nofun
  · intro hp
    rcases hp with hwrite | ⟨k, hread | hall⟩
    · exact ⟨0, -1, if_pos hwrite, nofun, fun _ => by decide⟩
    · refine (waiting_or_comesBack (k + 1)).resolve_left fun hwait => ?_
      have hnext := (hwait (k + 1) (Nat.le_refl _)).1
      rw [(hwait k (Nat.le_succ k)).control_succ_neg hread] at hnext
      exact absurd hnext nofun
    · exact (waiting_or_comesBack k).resolve_left fun hwait =>
        absurd (hwait k (Nat.le_refl k)).2 (Nat.not_lt.mpr hall)

/-- What a call returns is 0 or -1. -/
theorem control_returned {ret : Int} (h : control xferSize nbytesWrite reads k = .returned ret) :
    ret = 0 ∨ ret = -1 := by
  have htest (n : Nat) (h : receiveTest xferSize n = .returned ret) : ret = 0 ∨ ret = -1 := by
    unfold receiveTest at h
    split at h
    · exact absurd h nofun
    · exact .inl (Control.returned.inj h).symm
  induction k with
  | zero =>
      unfold control afterWrite at h
      split at h
      · exact .inr (Control.returned.inj h).symm
      · exact htest 0 h
  | succ k ih =>
      rw [control] at h
      cases hk : control xferSize nbytesWrite reads k with
      | sending => rw [hk] at h; exact absurd h nofun
      | returned r => rw [hk] at h; exact ih (hk.trans h)
      | receiving n =>
          rw [hk] at h
          dsimp only at h
          unfold receiveRound at h
          split_ifs at h
          · exact .inr (Control.returned.inj h).symm
          · exact .inl (Control.returned.inj h).symm
          · exact htest _ h

/-- The peer closes the connection before it has sent a byte of its connection data. -/
theorem peer_closed_first :
    ¬ ∀ xferSize nbytesWrite reads, 0 < xferSize → (∃ n, ∀ k, n ≤ k → reads k = 0) →
      ComesBack xferSize nbytesWrite reads := by
  intro hall
  obtain ⟨k, ret, hret, -⟩ := hall sizeofCmConData sizeofCmConData (fun _ => 0) (by decide)
    ⟨0, fun _ _ => rfl⟩
  have hwait : control sizeofCmConData sizeofCmConData (fun _ => 0) k = .receiving 0 := by
    clear hret
    induction k with
    | zero => decide
    | succ k ih => rw [control, ih]; decide
  rw [hwait] at hret
  exact absurd hret nofun

end Codelib.Ibtest
