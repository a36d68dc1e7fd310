import Codelib.Ibtest.SockSync

/-!
# Codelib.Ibtest.Framing

**Message framing of `sock_sync_data`.** When a call returns 0 its buffer should
hold the peer's message of that call, nothing should be stored behind it, and the
peer's later messages should still be in the socket (`Framed`).

The receive loop keeps that promise exactly as long as every `read` returns at most
what is still missing (`framed_iff`). Nothing in the code sees to it: after a short
read the count is again the whole `xfer_size`, and if the peer has gone on to its
next message by then, `read` may return bytes of both.

The proof follows one direction of the connection at a time. `Written` says what a
side has put into its pipe, `Collected` what the other side has taken out of it; a
piece that lies within a message is a piece of that message (`slice_messages`).
-/

namespace Codelib.Ibtest

@[simp] theorem Side.peer_peer (s : Side) : s.peer.peer = s := by cases s <;> rfl

@[simp] theorem Side.peer_ne (s : Side) : s.peer ≠ s := by cases s <;> nofun

theorem Side.eq_or_eq_peer (s t : Side) : t = s ∨ t = s.peer := by
  cases s <;> cases t <;> simp [peer]

/-! ### The receive loop -/

@[simp] theorem afterWrite_complete (size : Nat) :
    afterWrite size size = receiveTest size 0 :=
  if_neg (Int.lt_irrefl _)

@[simp] theorem receiveRound_pos {size r tmp : Nat} :
    receiveRound size r tmp = receiveTest size (r + tmp) := by
  have heof : ¬ (tmp : Int) = eof := by unfold eof; omega
  rw [receiveRound, if_neg (by omega), if_neg heof, Int.toNat_natCast]

/-- A call with `got` of `size` bytes is at one of three places. -/
inductive At (size got : Nat) : Control → Prop
  | sending (h : got = 0) : At size got .sending
  | receiving (h : got < size) : At size got (.receiving got)
  | returned (h : got = size) : At size got (.returned 0)

theorem At.receiveTest {size got : Nat} (h : got ≤ size) : At size got (receiveTest size got) := by
  unfold Ibtest.receiveTest
  by_cases hlt : got < size
  · rw [if_pos hlt]
    exact .receiving hlt
  · rw [if_neg hlt]
    exact .returned (by omega)

/-- How many messages an endpoint has written. -/
def Endpoint.written (e : Endpoint) : Nat :=
  match e.control with
  | .sending => e.call
  | _ => e.call + 1

theorem Endpoint.written_of_sending {e : Endpoint} (h : e.control = .sending) :
    e.written = e.call := by
  rw [written, h]

theorem Endpoint.written_of_receiving {e : Endpoint} {r : Nat} (h : e.control = .receiving r) :
    e.written = e.call + 1 := by
  rw [written, h]

theorem Endpoint.written_of_returned {e : Endpoint} {ret : Int} (h : e.control = .returned ret) :
    e.written = e.call + 1 := by
  rw [written, h]

theorem Endpoint.written_receiveTest (k size r : Nat) (d : Nat → Option UInt8) :
    (⟨k, receiveTest size r, d⟩ : Endpoint).written = k + 1 := by
  unfold receiveTest
  by_cases h : r < size
  · rw [if_pos h, written_of_receiving rfl]
  · rw [if_neg h, written_of_returned rfl]

namespace Session

variable {S : Session} {n n' : Net} {s : Side} {got : Nat}

/-! ### What is promised, and under which condition -/

/-- The current call of `s` has the peer's message of this call in `remote_data`,
stored nothing behind it, and left the peer's later messages alone. -/
structure Framed (S : Session) (n : Net) (s : Side) : Prop where
  data : ∀ i < S.xferSize (n.endpoint s).call,
    (n.endpoint s).remoteData i = (S.localData s.peer (n.endpoint s).call)[i]?
  inside : ∀ i, S.xferSize (n.endpoint s).call ≤ i → (n.endpoint s).remoteData i = none
  stream : (n.pipe s.peer).taken ≤
    (messages (S.localData s.peer) ((n.endpoint s).call + 1)).length

/-- Every call that is back with 0 is framed. -/
def AllFramed (S : Session) (n : Net) : Prop :=
  ∀ s, (n.endpoint s).control = .returned 0 → S.Framed n s

/-- If the step is a `read`, it returns at most the bytes still missing. -/
def WithinMissing (S : Session) (n : Net) : Side × Act → Prop
  | (s, .read tmp) => ∀ nbytesRead, (n.endpoint s).control = .receiving nbytesRead →
      nbytesRead + tmp ≤ S.xferSize (n.endpoint s).call
  | _ => True

/-- A step that is not an overlong `read`. -/
def ExactStep (S : Session) (n : Net) (l : Side × Act) (n' : Net) : Prop :=
  S.Step n l n' ∧ S.WithinMissing n l

/-! ### What a step does -/

theorem step_write (h : S.Step n (s, .write) n') :
    (n.endpoint s).control = .sending ∧ n' = S.onWrite n s := by
  unfold Step exec at h
  cases hc : (n.endpoint s).control with
  | sending => simp only [hc, Option.some.injEq] at h; exact ⟨rfl, h.symm⟩
  | receiving r => simp [hc] at h
  | returned ret => simp [hc] at h

theorem step_read {tmp : Nat} (h : S.Step n (s, .read tmp) n') :
    ∃ nbytesRead bs rest, (n.endpoint s).control = .receiving nbytesRead ∧ 0 < tmp ∧
      (n.pipe s.peer).read tmp = some (bs, rest) ∧
      n' = S.onRead n s nbytesRead tmp bs rest := by
  unfold Step exec at h
  cases hc : (n.endpoint s).control with
  | sending => simp [hc] at h
  | receiving r =>
      simp only [hc] at h
      by_cases ht : 0 < tmp ∧ tmp ≤ S.xferSize (n.endpoint s).call
      · rw [if_pos ht, Option.map_eq_some_iff] at h
        obtain ⟨⟨bs, p⟩, hread, hn⟩ := h
        exact ⟨r, bs, p, rfl, ht.1, hread, hn.symm⟩
      · rw [if_neg ht] at h
        exact absurd h (by simp)
  | returned ret => simp [hc] at h

theorem step_call (h : S.Step n (s, .call) n') :
    (n.endpoint s).control = .returned 0 ∧ n' = onCall n s := by
  unfold Step exec at h
  cases hc : (n.endpoint s).control with
  | sending => simp [hc] at h
  | receiving r => simp [hc] at h
  | returned ret =>
      simp only [hc] at h
      by_cases hret : ret = 0
      · rw [if_pos hret] at h
        exact ⟨by rw [hret], (Option.some.inj h).symm⟩
      · rw [if_neg hret] at h
        exact absurd h (by simp)

theorem step_deterministic {l : Side × Act} {u : Net} (h : S.Step n l n') (h' : S.Step n l u) :
    n' = u :=
  Option.some.inj (h.symm.trans h')

/-! ### What each action changes -/

@[simp] theorem onWrite_endpoint : (S.onWrite n s).endpoint = Function.update n.endpoint s
    { n.endpoint s with control := receiveTest (S.xferSize (n.endpoint s).call) 0 } := by
  simp [onWrite]

@[simp] theorem onWrite_pipe : (S.onWrite n s).pipe = Function.update n.pipe s
    ((n.pipe s).write (S.localData s (n.endpoint s).call)) := rfl

@[simp] theorem onRead_endpoint {r tmp : Nat} {bs : List UInt8} {rest : Pipe UInt8} :
    (S.onRead n s r tmp bs rest).endpoint = Function.update n.endpoint s
      { n.endpoint s with
        control := receiveTest (S.xferSize (n.endpoint s).call) (r + tmp)
        remoteData := store (n.endpoint s).remoteData r bs } := by
  simp [onRead]

@[simp] theorem onRead_pipe {r tmp : Nat} {bs : List UInt8} {rest : Pipe UInt8} :
    (S.onRead n s r tmp bs rest).pipe = Function.update n.pipe s.peer rest := rfl

@[simp] theorem onCall_endpoint : (onCall n s).endpoint =
    Function.update n.endpoint s (.start ((n.endpoint s).call + 1)) := rfl

@[simp] theorem onCall_pipe : (onCall n s).pipe = n.pipe := rfl

/-! ### The invariant -/

/-- Side `s` has put the messages of its calls into its pipe, and nothing else. -/
def Written (S : Session) (n : Net) (s : Side) : Prop :=
  (n.pipe s).sent = messages (S.localData s) (n.endpoint s).written

/-- Side `s` has collected the messages of its earlier calls and `got` bytes of the
message of its current call. -/
structure Collected (S : Session) (n : Net) (s : Side) (got : Nat) : Prop where
  control : At (S.xferSize (n.endpoint s).call) got (n.endpoint s).control
  taken : (n.pipe s.peer).taken =
    (messages (S.localData s.peer) (n.endpoint s).call).length + got
  data : ∀ i, (n.endpoint s).remoteData i =
    ((S.localData s.peer (n.endpoint s).call).take got)[i]?

structure Inv (S : Session) (n : Net) : Prop where
  written : ∀ s, S.Written n s
  collected : ∀ s, ∃ got, S.Collected n s got

theorem Inv.start (S : Session) : S.Inv .start where
  written := fun _ => rfl
  collected := fun _ => ⟨0, .sending rfl, rfl, fun i => by simp [Net.start, Endpoint.start]⟩

/-- A step that leaves the endpoint, what it reads and how much of it alone. -/
theorem Collected.frame (h : S.Collected n s got) (he : n'.endpoint s = n.endpoint s)
    (ht : (n'.pipe s.peer).taken = (n.pipe s.peer).taken) : S.Collected n' s got := by
  obtain ⟨hc, htaken, hdata⟩ := h
  exact ⟨by rwa [he], by rwa [he, ht], by rwa [he]⟩

theorem Written.frame (h : S.Written n s) (he : (n'.endpoint s).written = (n.endpoint s).written)
    (hs : (n'.pipe s).sent = (n.pipe s).sent) : S.Written n' s := by
  unfold Written at h ⊢
  rw [hs, he, h]

/-! ### What a step keeps -/

/-- Any step writes at most the message of the call it is part of. -/
theorem Written.step {l : Side × Act} (h : ∀ s, S.Written n s) (hs : S.Step n l n') (t : Side) :
    S.Written n' t := by
  obtain ⟨s, act⟩ := l
  cases act with
  | write =>
      obtain ⟨hc, rfl⟩ := step_write hs
      by_cases hts : t = s
      · subst hts
        have ht := h t
        unfold Written at ht ⊢
        rw [Endpoint.written_of_sending hc] at ht
        simp only [onWrite_endpoint, onWrite_pipe, Function.update_self,
          Endpoint.written_receiveTest, Pipe.write_sent, messages, ht]
      · exact (h t).frame (by simp [hts]) (by simp [hts])
  | read tmp =>
      obtain ⟨r, bs, p, hc, -, hread, rfl⟩ := step_read hs
      obtain ⟨-, -, hsent, -⟩ := Pipe.read_eq_some.mp hread
      refine (h t).frame ?_ ?_
      · by_cases hts : t = s
        · subst hts
          simp only [onRead_endpoint, Function.update_self, Endpoint.written_receiveTest,
            Endpoint.written_of_receiving hc]
        · simp [hts]
      · by_cases hts : t = s.peer
        · subst hts
          simpa using hsent
        · simp [hts]
  | call =>
      obtain ⟨hc, rfl⟩ := step_call hs
      by_cases hts : t = s
      · subst hts
        refine (h t).frame ?_ rfl
        rw [Endpoint.written_of_returned hc]
        simp [Endpoint.start, Endpoint.written]
      · exact (h t).frame (by simp [hts]) rfl

theorem Collected.step_write (h : S.Collected n s got) (hc : (n.endpoint s).control = .sending) :
    S.Collected (S.onWrite n s) s got := by
  obtain ⟨hat, htaken, hdata⟩ := h
  obtain rfl : got = 0 := by
    rw [hc] at hat
    cases hat with
    | sending h => exact h
  refine ⟨?_, by simpa using htaken, by simpa using hdata⟩
  simpa using At.receiveTest (Nat.zero_le _)

/-- A `read` that stays within the message adds its next bytes. -/
theorem Collected.step_read {r tmp : Nat} {bs : List UInt8} {p : Pipe UInt8}
    (h : S.Collected n s got) (hw : S.Written n s.peer)
    (hc : (n.endpoint s).control = .receiving r) (hpos : 0 < tmp)
    (hread : (n.pipe s.peer).read tmp = some (bs, p))
    (hle : r + tmp ≤ S.xferSize (n.endpoint s).call) :
    S.Collected (S.onRead n s r tmp bs p) s (r + tmp) := by
  obtain ⟨hat, htaken, hdata⟩ := h
  obtain rfl : r = got := by
    rw [hc] at hat
    cases hat with
    | receiving h => rfl
  obtain ⟨havail, hbs, -, hp⟩ := Pipe.read_eq_some.mp hread
  have hlen := S.length_localData s.peer (n.endpoint s).call
  -- the bytes taken are bytes of the peer's message of this call
  have hslice : bs = ((S.localData s.peer (n.endpoint s).call).drop r).take tmp := by
    rw [hbs, htaken, hw]
    refine slice_messages (lt_of_length_messages_lt (m := S.localData s.peer) ?_) (by omega)
    rw [← hw]
    omega
  have hbslen : bs.length = tmp := by
    rw [hslice, List.length_take, List.length_drop]
    omega
  refine ⟨?_, ?_, fun i => ?_⟩
  · simpa using At.receiveTest hle
  · simp [hp, htaken, Nat.add_assoc]
  · simp only [onRead_endpoint, Function.update_self, store, hbslen, hdata, getElem?_take_add,
      ← hslice]

theorem Collected.step_call (h : S.Collected n s got)
    (hc : (n.endpoint s).control = .returned 0) :
    S.Collected (onCall n s) s 0 := by
  obtain ⟨hat, htaken, hdata⟩ := h
  have hgot : got = S.xferSize (n.endpoint s).call := by
    rw [hc] at hat
    cases hat with
    | returned h => exact h
  refine ⟨?_, ?_, fun i => ?_⟩
  · simpa [Endpoint.start] using At.sending rfl
  · simp [Endpoint.start, htaken, hgot, length_messages_succ, S.length_localData]
  · simp [Endpoint.start]

theorem Inv.step {l : Side × Act} (h : S.Inv n) (hs : S.ExactStep n l n') : S.Inv n' := by
  obtain ⟨hs, hmiss⟩ := hs
  refine ⟨Written.step h.written hs, fun t => ?_⟩
  obtain ⟨got, hcol⟩ := h.collected t
  obtain ⟨s, act⟩ := l
  by_cases hts : t = s
  · subst hts
    cases act with
    | write =>
        obtain ⟨hc, rfl⟩ := Session.step_write hs
        exact ⟨got, hcol.step_write hc⟩
    | read tmp =>
        obtain ⟨r, bs, p, hc, hpos, hread, rfl⟩ := Session.step_read hs
        exact ⟨r + tmp, hcol.step_read (h.written t.peer) hc hpos hread (hmiss r hc)⟩
    | call =>
        obtain ⟨hc, rfl⟩ := Session.step_call hs
        exact ⟨0, hcol.step_call hc⟩
  -- the other side: its endpoint is as it was, and nothing it reads was taken
  · obtain rfl : t = s.peer := (Side.eq_or_eq_peer s t).resolve_left hts
    refine ⟨got, hcol.frame ?_ ?_⟩
    · cases act with
      | write => obtain ⟨-, rfl⟩ := Session.step_write hs; simp
      | read tmp => obtain ⟨r, bs, p, -, -, -, rfl⟩ := Session.step_read hs; simp
      | call => obtain ⟨-, rfl⟩ := Session.step_call hs; simp
    · cases act with
      | write => obtain ⟨-, rfl⟩ := Session.step_write hs; simp
      | read tmp =>
          obtain ⟨r, bs, p, -, -, -, rfl⟩ := Session.step_read hs
          simp [Function.update_of_ne (Side.peer_ne s).symm]
      | call => obtain ⟨-, rfl⟩ := Session.step_call hs; rfl

/-- The invariant gives what is promised of a call that is back with 0. -/
theorem Inv.allFramed (h : S.Inv n) : S.AllFramed n := by
  intro s hc
  obtain ⟨got, hat, htaken, hdata⟩ := h.collected s
  have hgot : got = S.xferSize (n.endpoint s).call := by
    rw [hc] at hat
    cases hat with
    | returned h => exact h
  subst hgot
  have hlen := S.length_localData s.peer (n.endpoint s).call
  refine ⟨fun i hi => ?_, fun i hi => ?_, ?_⟩
  · rw [hdata, List.getElem?_take_of_lt hi]
  · rw [hdata, List.getElem?_take_eq_none hi]
  · rw [htaken, length_messages_succ]
    exact Nat.add_le_add_left (Nat.le_of_eq hlen.symm) _

/-- After an overlong `read` the call is back with 0, bytes of the peer's next
message in hand. -/
theorem not_allFramed_of_overlong {l : Side × Act} (h : S.Inv n) (hs : S.Step n l n')
    (hmiss : ¬ S.WithinMissing n l) : ¬ S.AllFramed n' := by
  obtain ⟨s, act⟩ := l
  cases act with
  | write => exact absurd trivial hmiss
  | call => exact absurd trivial hmiss
  | read tmp =>
      obtain ⟨r, bs, p, hc, -, hread, rfl⟩ := Session.step_read hs
      have hlong : S.xferSize (n.endpoint s).call < r + tmp := by
        by_contra hle
        refine hmiss fun r' hc' => ?_
        obtain rfl : r = r' := by simpa [hc] using hc'
        omega
      obtain ⟨got, hat, htaken, -⟩ := h.collected s
      obtain rfl : r = got := by
        rw [hc] at hat
        cases hat with
        | receiving h => rfl
      obtain ⟨-, -, -, hp⟩ := Pipe.read_eq_some.mp hread
      intro hall
      have hstream := (hall s (by simp [receiveTest, Nat.not_lt_of_lt hlong])).stream
      simp only [onRead_endpoint, onRead_pipe, Function.update_self, hp, htaken,
        length_messages_succ, S.length_localData] at hstream
      omega

/-! ### Whole runs -/

theorem Inv.run {ls : List (Side × Act)} (h : Run S.ExactStep .start ls n) : S.Inv n :=
  Run.invariant_state (Inv.start S) (fun hi hs => hi.step hs) h

/-- **Exactly when messages stay framed.** In a run of the two endpoints, every call
that is back with 0 is framed, at every moment of the run, if and only if every
`read` of the run returned at most the bytes its call was still missing. -/
theorem framed_iff {ls : List (Side × Act)} (h : Run S.Step .start ls n) :
    (∀ ls' u, ls' <+: ls → Run S.Step .start ls' u → S.AllFramed u) ↔
      Run S.ExactStep .start ls n := by
  constructor
  · intro hall
    induction h with
    | nil => exact Run.nil
    | @snoc ls t u l hr hs ih =>
        have hexact := ih fun ls' v hp hv => hall ls' v (hp.trans (List.prefix_append _ _)) hv
        refine hexact.snoc ⟨hs, ?_⟩
        by_contra hmiss
        exact not_allFramed_of_overlong (Inv.run hexact) hs hmiss
          (hall _ _ (List.prefix_refl _) (hr.snoc hs))
  · intro hexact ls' u hp hu
    obtain ⟨v, hv⟩ := hexact.of_prefix hp
    obtain rfl : u = v := hu.functional (hv.mono And.left) step_deterministic
    exact (Inv.run hv).allFramed

/-- The client collects the connection data in two reads of 33 bytes and 2: before the
second one the server has gone on to its next message. -/
def overrun : List (Side × Act) :=
  [(.client, .write), (.server, .write), (.server, .read 34), (.server, .call),
    (.server, .write), (.client, .read 33), (.client, .read 2)]

theorem framed_iff_overrun : ∃ n, Run connectQp.Step .start overrun n ∧
    ((∀ ls' u, ls' <+: overrun → Run connectQp.Step .start ls' u → connectQp.AllFramed u) ↔
      Run connectQp.ExactStep .start overrun n) := by
  have hsome : (replay connectQp.exec .start overrun).isSome = true := by decide +kernel
  obtain ⟨n, hn⟩ := Option.isSome_iff_exists.mp hsome
  exact ⟨n, Run.of_replay hn, framed_iff (Run.of_replay hn)⟩

/-- **Two messages run together**: the first call of the client is back with 0 and
has taken the first byte of the server's second message out of the socket. -/
theorem connect_qp_overruns :
    ¬ ∀ (S : Session) ls n, Run S.Step .start ls n → S.AllFramed n := by
  intro hall
  have hover : (replay connectQp.exec .start overrun).map (fun n =>
      ((n.endpoint .client).call, (n.endpoint .client).control, (n.pipe .server).taken)) =
      some (0, .returned 0, 35) := by
    decide +kernel
  obtain ⟨n, hn, heq⟩ := Option.map_eq_some_iff.mp hover
  obtain ⟨hcall, hret, htaken⟩ : (n.endpoint .client).call = 0 ∧
      (n.endpoint .client).control = .returned 0 ∧ (n.pipe .server).taken = 35 := by
    simpa using heq
  have hstream := (hall connectQp overrun n (Run.of_replay hn) .client hret).stream
  rw [hcall, Side.peer, htaken] at hstream
  exact absurd hstream (by decide)

end Session

end Codelib.Ibtest
