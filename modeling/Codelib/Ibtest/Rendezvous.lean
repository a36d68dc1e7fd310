import Codelib.Ibtest.Framing

/-!
# Codelib.Ibtest.Rendezvous

**What an exchange is for**: a side that is back from its `k`-th call knows that the peer has
begun its own (`rendezvous`).

This holds of any reads. A call that is back has taken at least its message out of the pipe
(`AtLeast`); if a read was overlong it has taken more, and later calls wait for messages that are
later still. Without overlong reads, a call that does not come back waits for the peer (`Inv.waits`).
-/

namespace Codelib.Ibtest

/-- The calls that are back. -/
def Endpoint.passed (e : Endpoint) : Nat :=
  match e.control with
  | .returned _ => e.call + 1
  | _ => e.call

/-- The bytes that the current call is sure to have. -/
def Endpoint.collected (size : Nat) (e : Endpoint) : Nat :=
  match e.control with
  | .sending => 0
  | .receiving nbytesRead => nbytesRead
  | .returned _ => size

theorem Endpoint.collected_receiveTest (size r k : Nat) (d : Nat → Option UInt8) :
    (⟨k, receiveTest size r, d⟩ : Endpoint).collected size ≤ r := by
  unfold receiveTest
  by_cases h : r < size
  · rw [if_pos h]
    exact Nat.le_refl r
  · rw [if_neg h]
    exact Nat.le_of_not_lt h

theorem Endpoint.written_le (e : Endpoint) : e.call ≤ e.written ∧ e.written ≤ e.call + 1 := by
  unfold written
  cases e.control with
  | sending => exact ⟨Nat.le_refl _, Nat.le_succ _⟩
  | receiving r => exact ⟨Nat.le_succ _, Nat.le_refl _⟩
  | returned ret => exact ⟨Nat.le_succ _, Nat.le_refl _⟩

namespace Session

variable {S : Session} {n n' : Net} {s : Side} {ls : List (Side × Act)}

/-- Side `s` has taken the messages of its earlier calls, and what its current call has. -/
def AtLeast (S : Session) (n : Net) (s : Side) : Prop :=
  (messages (S.localData s.peer) (n.endpoint s).call).length +
    (n.endpoint s).collected (S.xferSize (n.endpoint s).call) ≤ (n.pipe s.peer).taken

theorem AtLeast.frame (h : S.AtLeast n s) (he : n'.endpoint s = n.endpoint s)
    (ht : (n'.pipe s.peer).taken = (n.pipe s.peer).taken) : S.AtLeast n' s := by
  unfold AtLeast at h ⊢
  rwa [he, ht]

/-- Any step, overlong reads included. -/
theorem AtLeast.step {l : Side × Act} (h : ∀ s, S.AtLeast n s) (hs : S.Step n l n') (t : Side) :
    S.AtLeast n' t := by
  obtain ⟨s, act⟩ := l
  have ht := h t
  cases act with
  | write =>
      obtain ⟨hc, rfl⟩ := step_write hs
      rcases eq_or_ne t s with rfl | hts
      · have hcollected := Endpoint.collected_receiveTest (S.xferSize (n.endpoint t).call) 0
          (n.endpoint t).call (n.endpoint t).remoteData
        unfold AtLeast at ht ⊢
        simp only [onWrite_endpoint, onWrite_pipe, Function.update_self,
          Function.update_of_ne (Side.peer_ne t)]
        omega
      · exact ht.frame (by simp [hts]) (by rcases eq_or_ne t.peer s with h | h <;> simp [h])
  | read tmp =>
      obtain ⟨r, bs, p, hc, -, hread, rfl⟩ := step_read hs
      obtain ⟨-, -, -, htaken⟩ := Pipe.read_eq_some.mp hread
      rcases eq_or_ne t s with rfl | hts
      · have hcollected := Endpoint.collected_receiveTest (S.xferSize (n.endpoint t).call) (r + tmp)
          (n.endpoint t).call (store (n.endpoint t).remoteData r bs)
        unfold AtLeast at ht ⊢
        rw [Endpoint.collected, hc] at ht
        simp only [onRead_endpoint, onRead_pipe, Function.update_self, htaken]
        dsimp only at ht
        omega
      · refine ht.frame (by simp [hts]) ?_
        have hpeer : t.peer ≠ s.peer := fun h => hts (by rw [← Side.peer_peer t, h, Side.peer_peer])
        simp [hpeer]
  | call =>
      obtain ⟨hc, rfl⟩ := step_call hs
      rcases eq_or_ne t s with rfl | hts
      · unfold AtLeast at ht ⊢
        rw [Endpoint.collected, hc] at ht
        simp only [onCall_endpoint, onCall_pipe, Function.update_self, Endpoint.start,
          Endpoint.collected, length_messages_succ, S.length_localData]
        exact ht
      · exact ht.frame (by simp [hts]) rfl

theorem atLeast_of_run (h : Run S.Step .start ls n) : ∀ s, S.AtLeast n s := by
  induction h with
  | nil => exact fun s => Nat.zero_le _
  | snoc _ hs ih => exact AtLeast.step ih hs

theorem written_of_run (h : Run S.Step .start ls n) : ∀ s, S.Written n s := by
  induction h with
  | nil => exact (Inv.start S).written
  | snoc _ hs ih => exact Written.step ih hs

/-- **A rendezvous**: in any run, no side is back from a call that the peer has not begun. -/
theorem rendezvous (hpos : ∀ k, 0 < S.xferSize k) (h : Run S.Step .start ls n) (s : Side) :
    (n.endpoint s).passed ≤ (n.endpoint s.peer).written := by
  have htaken := atLeast_of_run h s
  have hsent := written_of_run h s.peer
  have hle := (n.pipe s.peer).taken_le
  -- all the messages of the calls that are back were taken, so they were sent
  have hlength : (messages (S.localData s.peer) (n.endpoint s).passed).length ≤
      (messages (S.localData s.peer) (n.endpoint s.peer).written).length := by
    rw [← hsent]
    refine Nat.le_trans (Nat.le_trans ?_ htaken) hle
    unfold Endpoint.passed Endpoint.collected
    cases (n.endpoint s).control with
    | sending => exact Nat.le_add_right _ _
    | receiving r => exact Nat.le_add_right _ _
    | returned ret => exact Nat.le_of_eq (by rw [length_messages_succ, S.length_localData])
  by_contra hlt
  have hmono := length_messages_le (m := S.localData s.peer) (Nat.succ_le_of_lt (Nat.lt_of_not_le hlt))
  rw [length_messages_succ, S.length_localData] at hmono
  have := hpos (n.endpoint s.peer).written
  omega

theorem rendezvous_overrun : ∃ n, Run connectQp.Step .start overrun n ∧
    ∀ s, (n.endpoint s).passed ≤ (n.endpoint s.peer).written := by
  have hsome : (replay connectQp.exec .start overrun).isSome = true := by decide +kernel
  obtain ⟨n, hn⟩ := Option.isSome_iff_exists.mp hsome
  have hpos (k : Nat) : 0 < connectQp.xferSize k := by
    unfold connectQp
    dsimp only
    split <;> decide
  exact ⟨n, Run.of_replay hn, rendezvous hpos (Run.of_replay hn)⟩

/-- **What a call waits for**: if it can neither `write` nor `read` nor come back, the peer has not
begun its own call. -/
theorem Inv.waits (h : S.Inv n) (hpos : ∀ k, 0 < S.xferSize k) (s : Side) :
    (n.endpoint s).control = .returned 0 ∨
      (∃ act n', act ≠ .call ∧ S.Step n (s, act) n' ∧ S.WithinMissing n (s, act)) ∨
      (∃ r, (n.endpoint s).control = .receiving r) ∧
        (n.endpoint s.peer).written ≤ (n.endpoint s).call := by
  obtain ⟨got, hat, htaken, -⟩ := h.collected s
  generalize hc : (n.endpoint s).control = c at hat
  cases hat with
  | sending hgot =>
      refine .inr (.inl ⟨.write, S.onWrite n s, nofun, ?_, trivial⟩)
      simp only [Step, exec, hc]
  | returned hgot => exact .inl rfl
  | receiving hgot =>
      by_cases havail : (n.pipe s.peer).taken + 1 ≤ (n.pipe s.peer).sent.length
      · obtain ⟨⟨bs, rest⟩, hread⟩ : ∃ r, (n.pipe s.peer).read 1 = some r := by
          unfold Pipe.read
          rw [dif_pos havail]
          exact ⟨_, rfl⟩
        refine .inr (.inl ⟨.read 1, S.onRead n s got 1 bs rest, nofun, ?_, ?_⟩)
        · simp [Step, exec, hc, hread, Nat.succ_le_of_lt (hpos _)]
        · intro r hr
          obtain rfl := Control.receiving.inj (hc.symm.trans hr)
          exact hgot
      · refine .inr (.inr ⟨⟨got, rfl⟩, ?_⟩)
        by_contra hlt
        -- the message would be in the pipe
        have hmono := length_messages_le (m := S.localData s.peer)
          (Nat.succ_le_of_lt (Nat.lt_of_not_le hlt))
        rw [length_messages_succ, S.length_localData, ← h.written s.peer] at hmono
        omega

end Session

end Codelib.Ibtest
