import Codelib.Ibtest.Transfers

/-!
# Codelib.Ibtest.Finishes

**Client and server come to their ends** (`finishes`), when nothing fails: there is no deadlock
between the two programs, whatever the order of events, and they do not go on forever.

Where a side stands tells the state of its queue pair, and how many of its requests and completions
there are (`Nominal`). So a side waits for an exchange, or the client waits for the `SEND`; they
never wait for each other.
-/

namespace Codelib.Ibtest.Rdma

open Rc (Opcode QpState)

/-- Nothing fails and no read is overlong (`Codelib.Ibtest.Framing`); a host is torn down once. -/
def World.Regular (H : Hosts) (w : World) : Ev → Prop
  | .sock s act => H.session.WithinMissing w.net (s, act)
  | .run _ | .carry _ | .complete _ => True
  | .destroy s => (w.host s).qp ≠ .destroyed
  | .miss .. | .exit _ | .notReady _ | .lose _ => False

instance (H : Hosts) (w : World) : DecidablePred (w.Regular H)
  | .sock s (.read tmp) =>
    match hc : (w.net.endpoint s).control with
    | .receiving nbytesRead =>
      decidable_of_iff (nbytesRead + tmp ≤ H.session.xferSize (w.net.endpoint s).call)
        ⟨fun h _ hr => Control.receiving.inj (hc.symm.trans hr) ▸ h, fun h => h _ hc⟩
    | .sending => .isTrue fun _ hr => absurd (hc.symm.trans hr) nofun
    | .returned _ => .isTrue fun _ hr => absurd (hc.symm.trans hr) nofun
  | .sock _ .write | .sock _ .call => .isTrue trivial
  | .run _ | .carry _ | .complete _ => .isTrue trivial
  | .destroy s => inferInstanceAs (Decidable ((w.host s).qp ≠ .destroyed))
  | .miss .. | .exit _ | .notReady _ | .lose _ => .isFalse id

def World.Working (H : Hosts) (w : World) (ev : Ev) (w' : World) : Prop :=
  w.Step H ev w' ∧ w.Regular H ev

/-- The state of the queue pair at `pc`. -/
def qpAt : Side → Nat → Qp
  | .client, pc => if pc ≤ 1 then .reset else if pc ≤ 3 then .init else if pc ≤ 4 then .rtr else .rts
  | .server, pc => if pc ≤ 1 then .reset else if pc ≤ 2 then .init else if pc ≤ 3 then .rtr else .rts

variable {s : Side} {c : Cmd} {pc n : Nat} {h : Host} {H : Hosts} {w w' : World} {ev : Ev}
  {evs : List Ev}

theorem at_modifyQp {state : QpState} (h : (program s)[pc]? = some (.modifyQp state)) :
    (qpAt s pc).modify state = some (qpAt s (pc + 1)) := by
  have := at_index h
  cases s with
  | client =>
      have hpos : state = .init ∧ pc = 1 ∨ state = .rtr ∧ pc = 3 ∨ state = .rts ∧ pc = 4 := by
        simpa [program, connectQp] using this
      rcases hpos with ⟨rfl, rfl⟩ | ⟨rfl, rfl⟩ | ⟨rfl, rfl⟩ <;> rfl
  | server =>
      have hpos : state = .init ∧ pc = 1 ∨ state = .rtr ∧ pc = 2 ∨ state = .rts ∧ pc = 3 := by
        simpa [program, connectQp] using this
      rcases hpos with ⟨rfl, rfl⟩ | ⟨rfl, rfl⟩ | ⟨rfl, rfl⟩ <;> rfl

theorem qpAt_succ (h : (program s)[pc]? = some c) (hc : ∀ state, c ≠ .modifyQp state) :
    qpAt s (pc + 1) = qpAt s pc := by
  have hne (k : Nat) (state : QpState) (hk : (program s)[k]? = some (.modifyQp state)) : pc ≠ k := by
    intro heq
    rw [heq, hk] at h
    exact hc state (Option.some.inj h).symm
  cases s with
  | client =>
      have h₁ := hne 1 .init rfl
      have h₃ := hne 3 .rtr rfl
      have h₄ := hne 4 .rts rfl
      unfold qpAt
      grind
  | server =>
      have h₁ := hne 1 .init rfl
      have h₂ := hne 2 .rtr rfl
      have h₃ := hne 3 .rts rfl
      unfold qpAt
      grind

theorem lt_length (h : (program s)[pc]? = some c) : pc < (program s).length :=
  (List.getElem?_eq_some_iff.mp h).1

/-- Everything but an exchange comes after the first one. -/
theorem pos_of_ne (h : (program s)[pc]? = some c) (hc : c ≠ .sockSyncData) : 0 < pc := by
  refine Nat.pos_of_ne_zero fun heq => hc ?_
  rw [heq] at h
  cases s <;> exact (Option.some.inj h).symm

/-! ### The hosts -/

/-- A host to which nothing has happened but what should. -/
structure Nominal (H : Hosts) (s : Side) (h : Host) (n : Nat) : Prop where
  exited : h.exited = false
  pc : h.pc ≤ (program s).length
  qp : h.qp = qpAt s h.pc ∨ h.qp = .destroyed ∧ h.pc = (program s).length
  props : 0 < h.pc → h.remoteProps = H.props s.peer
  room : h.recvs + h.cq.length + (if h.sq.isSome then 1 else 0) = busy s h.pc
  cq : ∀ wc ∈ h.cq, wc.success
  recvs : 0 < h.recvs → n = 0

theorem Nominal.qp_eq (hn : Nominal H s h n) (hlt : h.pc < (program s).length) :
    h.qp = qpAt s h.pc :=
  hn.qp.resolve_right fun heq => Nat.ne_of_lt hlt heq.2

/-- A command that leaves the queues alone. -/
theorem Nominal.goOn (hn : Nominal H s h n) (hat : (program s)[h.pc]? = some c)
    (hpoll : c ≠ .pollCompletion) (hrecv : c ≠ .postReceive) (hsend : ∀ opcode, c ≠ .postSend opcode)
    {h' : Host} (hqp : h'.qp = qpAt s (h.pc + 1)) (hprops : h'.remoteProps = H.props s.peer)
    (hpc : h'.pc = h.pc + 1) (hexited : h'.exited = h.exited) (hrecvs : h'.recvs = h.recvs)
    (hsq : h'.sq = h.sq) (hcq : h'.cq = h.cq) : Nominal H s h' n where
  exited := hexited.trans hn.exited
  pc := hpc ▸ lt_length hat
  qp := .inl (hpc ▸ hqp)
  props _ := hprops
  room := by
    rw [hrecvs, hcq, hsq, hpc, (quiet_succ hat hpoll hrecv hsend).1]
    exact hn.room
  cq := hcq ▸ hn.cq
  recvs := hrecvs ▸ hn.recvs

/-- The same for a command that leaves the connection alone, too. -/
theorem Nominal.quiet (hn : Nominal H s h n) (hat : (program s)[h.pc]? = some c)
    (hsync : c ≠ .sockSyncData) (hmodify : ∀ state, c ≠ .modifyQp state)
    (hpoll : c ≠ .pollCompletion) (hrecv : c ≠ .postReceive) (hsend : ∀ opcode, c ≠ .postSend opcode)
    {h' : Host} (hqp : h'.qp = h.qp) (hprops : h'.remoteProps = h.remoteProps)
    (hpc : h'.pc = h.pc + 1) (hexited : h'.exited = h.exited) (hrecvs : h'.recvs = h.recvs)
    (hsq : h'.sq = h.sq) (hcq : h'.cq = h.cq) : Nominal H s h' n := by
  refine hn.goOn hat hpoll hrecv hsend ?_ ?_ hpc hexited hrecvs hsq hcq
  · rw [hqp, hn.qp_eq (lt_length hat), qpAt_succ hat hmodify]
  · rw [hprops, hn.props (pos_of_ne hat hsync)]

/-- A command that changes the queues. -/
theorem Nominal.queue (hn : Nominal H s h n) (hat : (program s)[h.pc]? = some c)
    (hsync : c ≠ .sockSyncData) (hmodify : ∀ state, c ≠ .modifyQp state) {h' : Host}
    (hqp : h'.qp = h.qp) (hprops : h'.remoteProps = h.remoteProps) (hpc : h'.pc = h.pc + 1)
    (hexited : h'.exited = h.exited)
    (hroom : h'.recvs + h'.cq.length + (if h'.sq.isSome then 1 else 0) = busy s (h.pc + 1))
    (hcq : ∀ wc ∈ h'.cq, wc.success) (hrecvs : 0 < h'.recvs → n = 0) : Nominal H s h' n where
  exited := hexited.trans hn.exited
  pc := hpc ▸ lt_length hat
  qp := by
    refine .inl ?_
    rw [hqp, hn.qp_eq (lt_length hat), hpc, qpAt_succ hat hmodify]
  props _ := hprops.trans (hn.props (pos_of_ne hat hsync))
  room := hpc ▸ hroom
  cq := hcq
  recvs := hrecvs

theorem Nominal.carried (hn : Nominal H s h n) (hrecvs : h.recvs = 0) : Nominal H s h (n + 1) :=
  ⟨hn.exited, hn.pc, hn.qp, hn.props, hn.room, hn.cq,
    fun hlt => absurd hrecvs (Nat.ne_of_gt hlt)⟩

theorem Nominal.destroy (hn : Nominal H s h n) (hend : (program s)[h.pc]? = none) :
    Nominal H s { h with qp := .destroyed, recvs := 0, sq := none, cq := [] } n := by
  have hpc := Nat.le_antisymm hn.pc (List.getElem?_eq_none_iff.mp hend)
  refine ⟨hn.exited, hn.pc, .inr ⟨rfl, hpc⟩, hn.props, ?_, nofun, nofun⟩
  dsimp only
  rw [hpc]
  cases s <;> rfl

/-! ### Every step -/

structure Works (H : Hosts) (w : World) : Prop where
  net : H.session.Inv w.net
  host : ∀ s, Nominal H s (w.host s) w.carried.length

theorem works_start (H : Hosts) : Works H .start where
  net := Session.Inv.start H.session
  host s := by
    cases s <;> exact ⟨rfl, Nat.zero_le _, .inl rfl, nofun, rfl, nofun, nofun⟩

/-- What a side has received for the connection data is what the peer has sent. -/
theorem received_eq (hnet : H.session.Inv w.net) (hcall : (w.net.endpoint s).call = 0)
    (hret : (w.net.endpoint s).control = .returned 0) :
    World.received (w.net.endpoint s) = sentBytes (H.network s.peer) (H.props s.peer) := by
  obtain ⟨got, hat, -, hdata⟩ := hnet.collected s
  rw [hret, hcall] at hat
  obtain rfl : got = sizeofCmConData := by
    cases hat with
    | returned h => exact h
  have hlength : (sentBytes (H.network s.peer) (H.props s.peer)).length = sizeofCmConData :=
    CmConData.length_toMemory _ _
  have hlocal : H.session.localData s.peer 0 = sentBytes (H.network s.peer) (H.props s.peer) := rfl
  refine List.ext_getElem (by simp [World.received, hlength]) fun i hi hi' => ?_
  rw [hlength] at hi'
  simp [World.received, hdata, hcall, hlocal, hi', hlength]

/-- **The connection data is that of the peer**, whatever the byte orders of the two hosts. -/
theorem afterSync_props (hnet : H.session.Inv w.net) (hsync : Synced H w)
    (hn : Nominal H s (w.host s) n) (hret : (w.net.endpoint s).control = .returned 0) :
    (World.afterSync H s (w.net.endpoint s) (w.host s)).remoteProps = H.props s.peer := by
  unfold World.afterSync
  by_cases hcall : (w.net.endpoint s).call = 0
  · rw [if_pos hcall, received_eq hnet hcall hret]
    exact (remoteProps_eq (H.network s.peer) (H.network s) (H.props s.peer)).1
  · rw [if_neg hcall]
    refine hn.props ?_
    rw [hsync.call] at hcall
    have hpos := Nat.pos_of_ne_zero hcall
    cases s with
    | client => exact (lt_exchanges_client _).1.mp hpos
    | server => exact (lt_exchanges_server _).1.mp hpos

/-- A command of `s` is done. -/
theorem Works.goOn (hw : Works H w) {host : Host}
    (hn : Nominal H s { host with pc := host.pc + 1 } w.carried.length) : Works H (w.goOn s host) where
  net := hw.net
  host t := by
    rcases eq_or_ne t s with rfl | hts
    · simpa using hn
    · simpa [hts] using hw.host t

/-- Something else happens to `s`. -/
theorem Works.set (hw : Works H w) {host : Host} (hn : Nominal H s host w.carried.length) :
    Works H (w.set s host) where
  net := hw.net
  host t := by
    rcases eq_or_ne t s with rfl | hts
    · simpa using hn
    · simpa [hts] using hw.host t

theorem Works.send (hw : Works H w)
    (hsq : (w.host s).sq = some (.send, false)) (hrecvs : 0 < (w.host s.peer).recvs) :
    Works H (((w.carry .send).set s { w.host s with sq := some (.send, true) }).set s.peer
      { w.host s.peer with
        buf := (w.host s).buf
        recvs := (w.host s.peer).recvs - 1
        cq := (w.host s.peer).cq ++ [⟨none, true⟩] }) := by
  have hs := hw.host s
  have hp := hw.host s.peer
  have hroom := hs.room
  have hproom := hp.room
  have hle := busy_le_one s (w.host s).pc
  have hple := busy_le_one s.peer (w.host s.peer).pc
  rw [hsq, Option.isSome_some, if_pos rfl] at hroom
  refine ⟨hw.net, fun t => ?_⟩
  rw [set_carried, set_carried, carry_carried]
  rcases Side.eq_or_eq_peer s t with rfl | rfl
  · rw [set_host, Function.update_of_ne (Side.peer_ne t).symm, set_host, Function.update_self]
    refine ⟨hs.exited, hs.pc, hs.qp, hs.props, hroom, hs.cq, fun hlt => ?_⟩
    dsimp only at hlt
    omega
  · rw [set_host, Function.update_self]
    refine ⟨hp.exited, hp.pc, hp.qp, hp.props, ?_, fun wc hwc => ?_, fun hlt => ?_⟩
    · simp only [List.length_append, List.length_singleton]
      omega
    · rcases List.mem_append.mp hwc with hwc | hwc
      · exact hp.cq wc hwc
      · rw [List.mem_singleton.mp hwc]
    · dsimp only at hlt
      omega

/-- After the `SEND` there is no receive request. -/
theorem Works.recvs_eq_zero (hw : Works H w) (hn : 0 < w.carried.length) (t : Side) :
    (w.host t).recvs = 0 := by
  by_contra hne
  exact absurd ((hw.host t).recvs (Nat.pos_of_ne_zero hne)) (Nat.ne_of_gt hn)

theorem Works.rdmaRead (hw : Works H w) (hn : 0 < w.carried.length)
    (hsq : (w.host s).sq = some (.rdmaRead, false)) :
    Works H ((w.carry .rdmaRead).set s
      { w.host s with sq := some (.rdmaRead, true), buf := (w.host s.peer).buf }) := by
  have hw' : Works H (w.carry .rdmaRead) := by
    refine ⟨hw.net, fun t => ?_⟩
    rw [carry_carried]
    exact (hw.host t).carried (hw.recvs_eq_zero hn t)
  obtain ⟨hexited, hpc, hqp, hprops, hroom, hcq, hrecvs⟩ := hw'.host s
  rw [carry_host, hsq] at hroom
  exact hw'.set ⟨hexited, hpc, hqp, hprops, hroom, hcq, hrecvs⟩

theorem Works.rdmaWrite (hw : Works H w) (hn : 0 < w.carried.length)
    (hsq : (w.host s).sq = some (.rdmaWrite, false)) :
    Works H (((w.carry .rdmaWrite).set s { w.host s with sq := some (.rdmaWrite, true) }).set s.peer
      { w.host s.peer with buf := (w.host s).buf }) := by
  have hw' : Works H (w.carry .rdmaWrite) := by
    refine ⟨hw.net, fun t => ?_⟩
    rw [carry_carried]
    exact (hw.host t).carried (hw.recvs_eq_zero hn t)
  obtain ⟨hexited, hpc, hqp, hprops, hroom, hcq, hrecvs⟩ := hw'.host s
  rw [carry_host, hsq] at hroom
  obtain ⟨hexited', hpc', hqp', hprops', hroom', hcq', hrecvs'⟩ := hw'.host s.peer
  refine Works.set (Works.set hw' ?_) ?_
  · exact ⟨hexited, hpc, hqp, hprops, hroom, hcq, hrecvs⟩
  · exact ⟨hexited', hpc', hqp', hprops', hroom', hcq', hrecvs'⟩

theorem Works.postReceive (hw : Works H w) (hinv : Inv w) (hsync : Synced H w)
    (hat : (program s)[(w.host s).pc]? = some .postReceive) :
    Works H (w.goOn s { w.host s with recvs := (w.host s).recvs + 1 }) := by
  obtain ⟨rfl, hpc⟩ := at_postReceive hat
  obtain ⟨hrecvs, hcq, hsq⟩ := (hinv.queues .client).idle (by rw [hpc]; rfl)
  refine hw.goOn ((hw.host .client).queue hat nofun nofun rfl rfl rfl rfl ?_ ?_ fun _ => ?_)
  · simp [hrecvs, hcq, hsq, hpc, busy]
  · simp [hcq]
  · have hposted := hinv.order.send_posted
    have hserver := hsync.met.server₁
    omega

theorem Works.postSend (hw : Works H w) (hinv : Inv w) {opcode : Opcode}
    (hat : (program s)[(w.host s).pc]? = some (.postSend opcode)) :
    Works H (w.goOn s { w.host s with sq := some (opcode, false) }) := by
  obtain ⟨hbusy, hbusy', -⟩ := busy_postSend hat
  obtain ⟨hrecvs, hcq, -⟩ := (hinv.queues s).idle hbusy
  refine hw.goOn ((hw.host s).queue hat nofun nofun rfl rfl rfl rfl ?_ ?_ (hw.host s).recvs)
  · simp [hrecvs, hcq, hbusy']
  · exact (hw.host s).cq

theorem Works.poll (hw : Works H w) {wc : Completion} {cq : List Completion}
    (hat : (program s)[(w.host s).pc]? = some .pollCompletion) (hcq : (w.host s).cq = wc :: cq) :
    Works H (w.goOn s { w.host s with cq := cq }) := by
  have hn := hw.host s
  have hroom := hn.room
  have hpoll := busy_poll hat
  rw [hcq, List.length_cons] at hroom
  refine hw.goOn (hn.queue hat nofun nofun rfl rfl rfl rfl ?_ (fun wc h => hn.cq wc ?_) hn.recvs)
  · dsimp only
    omega
  · rw [hcq]
    exact List.mem_cons_of_mem _ h

theorem Works.complete (hw : Works H w) {opcode : Opcode}
    (hsq : (w.host s).sq = some (opcode, true)) : Works H (w.finish s opcode true) := by
  obtain ⟨hexited, hpc, hqp, hprops, hroom, hcq, hrecvs⟩ := hw.host s
  rw [hsq, Option.isSome_some, if_pos rfl] at hroom
  refine hw.set ⟨hexited, hpc, hqp, hprops, ?_, fun wc hwc => ?_, hrecvs⟩
  · rw [List.length_append, List.length_singleton, Option.isSome_none, if_neg Bool.false_ne_true]
    omega
  · rcases List.mem_append.mp hwc with hwc | hwc
    · exact hcq wc hwc
    · rw [List.mem_singleton.mp hwc]

theorem Works.step (hw : Works H w) (hinv : Inv w) (hsync : Synced H w)
    (h : w.Working H ev w') : Works H w' := by
  obtain ⟨hstep, hok⟩ := h
  cases happens_of_step hstep with
  | @sock s act net hc hact hs => exact ⟨hw.net.step ⟨hs, hok⟩, hw.host⟩
  | @sync s net hc hs =>
      obtain ⟨-, hat⟩ := program_of_cmd hc
      have hret := (Session.step_call hs).1
      have hprops := afterSync_props hw.net hsync (hw.host s) hret
      have hw' : Works H { w with net := net } := ⟨hw.net.step ⟨hs, trivial⟩, hw.host⟩
      rw [afterSync_eq]
      refine hw'.goOn ((hw.host s).goOn hat nofun nofun nofun ?_ hprops rfl rfl rfl rfl rfl)
      exact ((hw.host s).qp_eq (lt_length hat)).trans (qpAt_succ hat nofun).symm
  | @modifyQp s state qp hc hqp =>
      obtain ⟨-, hat⟩ := program_of_cmd hc
      have hn := hw.host s
      rw [hn.qp_eq (lt_length hat), at_modifyQp hat] at hqp
      refine hw.goOn (hn.goOn hat nofun nofun nofun ?_ ?_ rfl rfl rfl rfl rfl)
      · exact (Option.some.inj hqp).symm
      · exact hn.props (pos_of_ne hat nofun)
  | postReceive hc => exact hw.postReceive hinv hsync (program_of_cmd hc).2
  | postSend hc hsq => exact hw.postSend hinv (program_of_cmd hc).2
  | poll hc hcq hwc => exact hw.poll (program_of_cmd hc).2 hcq
  | @fprintf s t hc =>
      obtain ⟨-, hat⟩ := program_of_cmd hc
      exact hw.goOn ((hw.host s).quiet hat nofun nofun nofun nofun nofun rfl rfl rfl rfl rfl rfl rfl)
  | @strcpy s t hc =>
      obtain ⟨-, hat⟩ := program_of_cmd hc
      exact hw.goOn ((hw.host s).quiet hat nofun nofun nofun nofun nofun rfl rfl rfl rfl rfl rfl rfl)
  | miss hc hm => exact False.elim hok
  | exit hc hf => exact False.elim hok
  | @destroy s hc =>
      refine hw.set ((hw.host s).destroy ?_)
      rwa [World.cmd, (hw.host s).exited, if_neg nofun] at hc
  | send hsq hcon hrecvs => exact hw.send hsq hrecvs
  | rdmaRead hsq hcon =>
      obtain ⟨hpos, hn, -⟩ := hinv.next hsync.met hsq
      exact hw.rdmaRead (hn ▸ Nat.zero_lt_one) hsq
  | rdmaWrite hsq hcon =>
      obtain ⟨hpos, hn, -⟩ := hinv.next hsync.met hsq
      exact hw.rdmaWrite (hn ▸ Nat.zero_lt_two) hsq
  | notReady hsq hcon hrecvs => exact False.elim hok
  | complete hsq => exact hw.complete hsq
  | lose hsq => exact False.elim hok

/-- The invariants of `Codelib.Ibtest.Meeting` and `Codelib.Ibtest.Transfers`, too. -/
theorem works_of_run (h : Run (World.Working H) .start evs w) :
    Works H w ∧ Inv w ∧ Synced H w := by
  refine ⟨?_, inv_of_run (h.mono And.left), synced_of_run (h.mono And.left)⟩
  induction h with
  | nil => exact works_start H
  | snoc hr hs ih => exact ih.step (inv_of_run (hr.mono And.left)) (synced_of_run (hr.mono And.left)) hs

/-! ### No deadlock -/

/-- `s` is in an exchange, and the peer has not begun its own. -/
structure Waits (w : World) (s : Side) : Prop where
  at_sync : (program s)[(w.host s).pc]? = some .sockSyncData
  written : (w.net.endpoint s).written = exchanges s (w.host s).pc + 1
  peer : (w.net.endpoint s.peer).written ≤ exchanges s (w.host s).pc

/-- What keeps `s` from going on. -/
inductive Held (w : World) : Side → Prop
  | done {s : Side} (hpc : (w.host s).pc = (program s).length) (hqp : (w.host s).qp = .destroyed) :
      Held w s
  | exchange {s : Side} (h : Waits w s) : Held w s
  | send (hpc : (w.host .client).pc = 6) (hn : w.carried.length = 0) : Held w .client

section Stuck

variable (hw : Works H w) (hinv : Inv w) (hsync : Synced H w)
  (hstuck : ∀ ev w', ¬ w.Working H ev w')

theorem Works.cmd_eq (hw : Works H w) (s : Side) : w.cmd s = (program s)[(w.host s).pc]? := by
  rw [World.cmd, (hw.host s).exited, if_neg nofun]

include hw hstuck

theorem perform_eq_none (hat : (program s)[(w.host s).pc]? = some c) : w.perform H s c = none := by
  refine Option.eq_none_iff_forall_ne_some.mpr fun w' hp => hstuck (.run s) w' ⟨?_, trivial⟩
  exact Option.bind_eq_some_iff.mpr ⟨c, (hw.cmd_eq s).trans hat, hp⟩

include hsync in
theorem waits_of_sync (hat : (program s)[(w.host s).pc]? = some .sockSyncData) : Waits w s := by
  rcases hw.net.waits (xferSize_pos H) s with hret | ⟨act, net, hact, hs, hmiss⟩ | ⟨⟨r, hr⟩, hle⟩
  · have hnone := perform_eq_none hw hstuck hat
    simp [World.perform, Session.exec, hret] at hnone
  · refine absurd ⟨?_, hmiss⟩ (hstuck (.sock s act) { w with net := net })
    unfold World.Step World.exec
    dsimp only
    rw [if_pos ⟨(hw.cmd_eq s).trans hat, hact⟩, hs]
    rfl
  · refine ⟨hat, ?_, ?_⟩
    · rw [Endpoint.written_of_receiving hr, hsync.call]
    · rwa [← hsync.call]

omit hstuck in
theorem receives_of_le (hlt : (w.host s).pc < (program s).length) (hle : 5 ≤ (w.host s).pc) :
    (w.host s).qp.receives := by
  have hqp : qpAt s (w.host s).pc = .rts := by
    cases s with
    | client => rw [qpAt, if_neg (by omega), if_neg (by omega), if_neg (by omega)]
    | server => rw [qpAt, if_neg (by omega), if_neg (by omega), if_neg (by omega)]
  rw [(hw.host s).qp_eq hlt, hqp]
  rfl

include hinv hsync in
/-- A request that is outstanding can be carried out. -/
theorem not_outstanding {opcode : Opcode} {moved : Bool} (hsq : (w.host s).sq = some (opcode, moved)) :
    False := by
  cases moved with
  | true =>
      refine hstuck (.complete s) (w.finish s opcode true) ⟨?_, trivial⟩
      simp only [World.Step, World.exec, hsq]
  | false =>
      obtain ⟨hpos, hn, hnone⟩ := hinv.next hsync.met hsq
      obtain ⟨-, -, -, -, hreceived, -, -, -⟩ := hinv.order
      have hmet := hsync.met
      have hcarry (hpeer : 5 ≤ (w.host s.peer).pc) (hlt : (w.host s.peer).pc < (program s.peer).length)
          (hpc : 0 < (w.host s).pc) (hmove : w.move s opcode ≠ none) : False := by
        obtain ⟨w', hw'⟩ := Option.ne_none_iff_exists'.mp hmove
        refine hstuck (.carry s) w' ⟨?_, trivial⟩
        have hcon : w.connected H s := by
          rw [World.connected, receives_of_le hw hlt hpeer, (hw.host s).props hpc, decide_eq_true rfl]
          rfl
        simp only [World.Step, World.exec, hsq, if_pos hcon, hw']
      cases opcode with
      | send =>
          obtain ⟨rfl, hpc⟩ := Prod.mk.inj hpos
          replace hn : w.carried.length = 0 := hn.symm
          have hclient := hmet.server₁ (by omega)
          have hc := hw.host .client
          -- the client's receive request is there
          have hcq : (w.host .client).cq = [] := by
            refine List.eq_nil_iff_forall_not_mem.mpr fun wc hwc => ?_
            exact Nat.not_lt_zero _ (hn ▸ ((hinv.queues .client).cq wc hwc).2 (hc.cq wc hwc))
          have hroom := hc.room
          replace hnone : (w.host .client).sq = none := hnone
          have hbusy : busy .client (w.host .client).pc = 1 := if_pos (.inl (by omega))
          rw [hcq, hnone, hbusy] at hroom
          have hrecvs : 0 < (w.host .client).recvs := by
            simp at hroom
            omega
          have hlt : (w.host .client).pc < 17 := by omega
          exact hcarry hclient hlt (by omega) (by simp [World.move, Side.peer, hrecvs])
      | rdmaRead =>
          obtain ⟨rfl, hpc⟩ := Prod.mk.inj hpos
          have hserver := hmet.client₂ (by omega)
          have hlt : (w.host .server).pc < 10 := by
            have := hmet.server₃
            omega
          exact hcarry (Nat.le_trans (by decide) hserver) (Nat.lt_trans hlt (by decide)) (by omega)
            (Option.some_ne_none _)
      | rdmaWrite =>
          obtain ⟨rfl, hpc⟩ := Prod.mk.inj hpos
          have hserver := hmet.client₂ (by omega)
          have hlt : (w.host .server).pc < 10 := by
            have := hmet.server₃
            omega
          exact hcarry (Nat.le_trans (by decide) hserver) (Nat.lt_trans hlt (by decide)) (by omega)
            (Option.some_ne_none _)

include hinv hsync in
theorem held_of_poll (hat : (program s)[(w.host s).pc]? = some .pollCompletion) : Held w s := by
  have hn := hw.host s
  have hroom := hn.room
  have hcq : (w.host s).cq = [] := by
    cases hcq : (w.host s).cq with
    | nil => rfl
    | cons wc cq =>
        have hnone := perform_eq_none hw hstuck hat
        simp [World.perform, hcq, hn.cq wc (by rw [hcq]; exact List.mem_cons_self)] at hnone
  have hsq : (w.host s).sq = none := by
    cases hsq : (w.host s).sq with
    | none => rfl
    | some r => exact (not_outstanding hw hinv hsync hstuck hsq).elim
  have hrecvs : 0 < (w.host s).recvs := by
    rw [hcq, hsq, (busy_poll hat).1] at hroom
    simp at hroom
    omega
  have hposted := (hinv.queues s).recvs hrecvs
  have hpos := at_poll hat
  cases s with
  | client =>
      rcases hpos with hpc | hpc | hpc
      · exact .send hpc (hn.recvs hrecvs)
      · rw [hpc] at hposted
        exact absurd hposted (Option.some_ne_none _)
      · rw [hpc] at hposted
        exact absurd hposted (Option.some_ne_none _)
  | server =>
      rw [show (w.host .server).pc = 6 from hpos] at hposted
      exact absurd hposted (Option.some_ne_none _)

include hinv hsync in
/-- **What holds up a side** when no step is left. -/
theorem held_of_stuck (s : Side) : Held w s := by
  have hn := hw.host s
  cases hat : (program s)[(w.host s).pc]? with
  | none =>
      refine .done (Nat.le_antisymm hn.pc (List.getElem?_eq_none_iff.mp hat)) ?_
      by_contra hqp
      exact hstuck (.destroy s) _ ⟨if_pos ((hw.cmd_eq s).trans hat), hqp⟩
  | some c =>
      have hnone := perform_eq_none hw hstuck hat
      have hqp := hn.qp_eq (lt_length hat)
      cases c with
      | sockSyncData => exact .exchange (waits_of_sync hw hsync hstuck hat)
      | pollCompletion => exact held_of_poll hw hinv hsync hstuck hat
      | modifyQp state =>
          unfold World.perform at hnone
          dsimp only at hnone
          rw [hqp, at_modifyQp hat] at hnone
          exact absurd hnone nofun
      | postReceive =>
          obtain ⟨rfl, hpc⟩ := at_postReceive hat
          unfold World.perform at hnone
          dsimp only at hnone
          rw [hqp, hpc] at hnone
          exact absurd hnone nofun
      | postSend opcode =>
          have hsq := ((hinv.queues s).idle (busy_postSend hat).1).2.2
          have hrts : qpAt s (w.host s).pc = .rts := by
            have hpos := at_postSend hat
            cases s with
            | client => rcases hpos with ⟨-, hpc⟩ | ⟨-, hpc⟩ <;> rw [hpc] <;> rfl
            | server => rw [hpos.2]; rfl
          unfold World.perform at hnone
          dsimp only at hnone
          rw [if_pos ⟨hqp.trans hrts, hsq⟩] at hnone
          exact absurd hnone nofun
      | fprintf t => exact absurd hnone nofun
      | strcpy t => exact absurd hnone nofun

end Stuck

theorem exchanges_length (s : Side) : exchanges s (program s).length = 4 := by cases s <;> rfl

/-- An exchange is one of four. -/
theorem exchanges_lt (hat : (program s)[pc]? = some .sockSyncData) : exchanges s pc < 4 := by
  have hpos := at_sockSyncData hat
  cases s with
  | client => rcases hpos with rfl | rfl | rfl | rfl <;> decide
  | server => rcases hpos with rfl | rfl | rfl | rfl <;> decide

/-- The two sides do not wait for each other. -/
theorem done_of_held (hinv : Inv w) (hsync : Synced H w) (hheld : ∀ s, Held w s) (s : Side) :
    (w.host s).pc = (program s).length ∧ (w.host s).qp = .destroyed := by
  have hwritten (t : Side) : exchanges t (w.host t).pc ≤ (w.net.endpoint t).written := by
    rw [← hsync.call]
    exact (Endpoint.written_le _).1
  cases hheld s with
  | done hpc hqp => exact ⟨hpc, hqp⟩
  | exchange hwait =>
      obtain ⟨hat, hs, hle⟩ := hwait
      have hlt := exchanges_lt hat
      have hpeer := hwritten s.peer
      exfalso
      generalize hp : s.peer = p at *
      cases hheld p with
      | done hpc hqp =>
          rw [hpc, exchanges_length] at hpeer
          omega
      | exchange hwait =>
          obtain ⟨-, hs', hle'⟩ := hwait
          rw [← hp] at hle' hs' hle
          rw [Side.peer_peer] at hle'
          omega
      | send hpc hn =>
          obtain rfl : s = .server := by rw [← Side.peer_peer s, hp]; rfl
          have hserver := hinv.order.sent
          have hpos := at_sockSyncData hat
          have htwo : exchanges .client 6 = 2 := rfl
          have hless := (lt_exchanges_server (w.host .server).pc).2.1
          rw [hpc, htwo] at hpeer
          dsimp only at hpos
          omega
  | send hpc hn =>
      exfalso
      have hserver := hinv.order.sent
      have hless := (lt_exchanges_server (w.host .server).pc).2.1
      have hclient := hwritten .client
      have htwo : exchanges .client 6 = 2 := rfl
      rw [hpc, htwo] at hclient
      cases hheld .server with
      | done hpc' hqp =>
          have hlength : (program .server).length = 11 := rfl
          omega
      | exchange hwait =>
          obtain ⟨hat, -, hle⟩ := hwait
          have hpos := at_sockSyncData hat
          dsimp only [Side.peer] at hpos hle
          omega

/-! ### An end to every run -/

/-- What `s` has done so far: a request and its completion make one command more. -/
def effort (w : World) (s : Side) : Nat :=
  2 * (w.host s).pc + (if (w.host s).sq = none then 1 else 0) + (w.net.endpoint s).written +
    (w.net.pipe s.peer).taken + (if (w.host s).qp = .destroyed then 1 else 0)

/-- What the two have done. -/
def efforts (w : World) : Nat := effort w .client + effort w .server + w.carried.length

theorem efforts_lt (hs : effort w s < effort w' s) (hp : effort w s.peer ≤ effort w' s.peer)
    (hn : w.carried.length ≤ w'.carried.length) : efforts w < efforts w' := by
  unfold efforts
  cases s with
  | client =>
      dsimp only [Side.peer] at hp
      omega
  | server =>
      dsimp only [Side.peer] at hp
      omega

theorem messages_length (H : Hosts) (s : Side) : (messages (H.session.localData s) 4).length = 37 := by
  simp only [length_messages_succ, H.session.length_localData]
  rfl

theorem written_le_four (hw : Works H w) (hsync : Synced H w) (s : Side) :
    (w.net.endpoint s).written ≤ 4 := by
  have hmono : exchanges s (w.host s).pc ≤ exchanges s (program s).length :=
    (List.Sublist.count_le _ (List.take_sublist_take_left (hw.host s).pc))
  rw [exchanges_length] at hmono
  rcases hsync.written_le s with hle | ⟨hat, hle⟩
  · omega
  · have := exchanges_lt hat
    omega

theorem effort_le (hw : Works H w) (hsync : Synced H w) (s : Side) :
    effort w s ≤ 2 * (program s).length + 43 := by
  have hpc := (hw.host s).pc
  have hwritten := written_le_four hw hsync s
  have htaken := (w.net.pipe s.peer).taken_le
  have hmono := length_messages_le (m := H.session.localData s.peer)
    (written_le_four hw hsync s.peer)
  rw [messages_length, ← hw.net.written s.peer] at hmono
  unfold effort
  split <;> split <;> omega

/-- A command without the socket: two more, less one if a request was posted. -/
theorem efforts_goOn {host : Host} (hpc : host.pc = (w.host s).pc)
    (hqp : (w.host s).qp = .destroyed → host.qp = .destroyed) : efforts w < efforts (w.goOn s host) := by
  refine efforts_lt (s := s) ?_ ?_ (Nat.le_refl _)
  · unfold effort
    simp only [goOn_host, goOn_net, Function.update_self, hpc]
    split <;> split <;> split <;> split <;> first | omega | exact absurd (hqp ‹_›) ‹_›
  · unfold effort
    simp only [goOn_host, goOn_net, Function.update_of_ne (Side.peer_ne s)]
    exact Nat.le_refl _

/-- An endpoint takes a step. -/
theorem efforts_sock {act : Act} {net : Net} (hact : act ≠ .call)
    (hs : H.session.Step w.net (s, act) net) : efforts w < efforts { w with net := net } := by
  cases act with
  | call => exact absurd rfl hact
  | write =>
      obtain ⟨hc, rfl⟩ := Session.step_write hs
      refine efforts_lt (s := s) ?_ ?_ (Nat.le_refl _)
      · unfold effort
        rw [Endpoint.written_of_sending hc]
        simp only [Session.onWrite_endpoint, Session.onWrite_pipe, Function.update_self,
          Function.update_of_ne (Side.peer_ne s), Endpoint.written_receiveTest]
        omega
      · unfold effort
        simp only [Session.onWrite_endpoint, Session.onWrite_pipe, Side.peer_peer,
          Function.update_self, Function.update_of_ne (Side.peer_ne s), Pipe.write_taken]
        exact Nat.le_refl _
  | read tmp =>
      obtain ⟨r, bs, rest, hc, hpos, hread, rfl⟩ := Session.step_read hs
      obtain ⟨-, -, -, htaken⟩ := Pipe.read_eq_some.mp hread
      refine efforts_lt (s := s) ?_ ?_ (Nat.le_refl _)
      · unfold effort
        rw [Endpoint.written_of_receiving hc]
        simp only [Session.onRead_endpoint, Session.onRead_pipe, Function.update_self,
          Endpoint.written_receiveTest, htaken]
        omega
      · unfold effort
        simp only [Session.onRead_endpoint, Session.onRead_pipe, Side.peer_peer,
          Function.update_of_ne (Side.peer_ne s), Function.update_of_ne (Side.peer_ne s).symm]
        exact Nat.le_refl _

/-- Leaving an exchange writes nothing and reads nothing. -/
theorem effort_call {net : Net} (hs : H.session.Step w.net (s, .call) net) (t : Side) :
    effort { w with net := net } t = effort w t := by
  obtain ⟨hc, rfl⟩ := Session.step_call hs
  unfold effort
  rcases eq_or_ne t s with rfl | hts
  · rw [Endpoint.written_of_returned hc]
    simp [Endpoint.start, Endpoint.written]
  · simp [hts]

/-- A request is carried out, which nothing else takes account of. -/
theorem efforts_carry (hn : w'.carried.length = w.carried.length + 1)
    (heffort : ∀ t, effort w' t = effort w t) : efforts w < efforts w' := by
  unfold efforts
  rw [heffort, heffort, hn]
  omega

theorem efforts_step (h : w.Working H ev w') : efforts w < efforts w' := by
  obtain ⟨hstep, hok⟩ := h
  cases happens_of_step hstep with
  | sock hc hact hs => exact efforts_sock hact hs
  | @sync s net hc hs =>
      have hsame : efforts { w with net := net } = efforts w := by
        unfold efforts
        rw [effort_call hs, effort_call hs]
      rw [← hsame, afterSync_eq]
      exact efforts_goOn rfl id
  | modifyQp hc hqp => exact efforts_goOn rfl fun h => absurd h (modify_ne_destroyed hqp)
  | postReceive hc => exact efforts_goOn rfl id
  | postSend hc hsq => exact efforts_goOn rfl id
  | poll hc hcq hwc => exact efforts_goOn rfl id
  | fprintf hc => exact efforts_goOn rfl id
  | strcpy hc => exact efforts_goOn rfl id
  | miss hc hm => exact False.elim hok
  | exit hc hf => exact False.elim hok
  | @destroy s hc =>
      refine efforts_lt (s := s) ?_ ?_ (Nat.le_refl _)
      · unfold effort
        simp only [set_host, set_net, Function.update_self, if_true]
        rw [if_neg hok]
        split <;> omega
      · unfold effort
        simp only [set_host, set_net, Function.update_of_ne (Side.peer_ne s)]
        exact Nat.le_refl _
  | @send s hsq hcon hrecvs =>
      refine efforts_carry (carry_carried w .send) fun t => ?_
      unfold effort
      rcases Side.eq_or_eq_peer s t with rfl | rfl
      · simp [(Side.peer_ne t).symm, hsq, World.carry]
      · simp [World.carry]
  | @rdmaRead s hsq hcon =>
      refine efforts_carry (carry_carried w .rdmaRead) fun t => ?_
      unfold effort
      rcases Side.eq_or_eq_peer s t with rfl | rfl
      · simp [hsq, World.carry]
      · simp [World.carry]
  | @rdmaWrite s hsq hcon =>
      refine efforts_carry (carry_carried w .rdmaWrite) fun t => ?_
      unfold effort
      rcases Side.eq_or_eq_peer s t with rfl | rfl
      · simp [(Side.peer_ne t).symm, hsq, World.carry]
      · simp [World.carry]
  | notReady hsq hcon hrecvs => exact False.elim hok
  | @complete s opcode hsq =>
      refine efforts_lt (s := s) ?_ ?_ (Nat.le_refl _)
      · unfold effort
        simp [World.finish, hsq]
      · unfold effort
        simp [World.finish]
  | lose hsq => exact False.elim hok

theorem length_le_of_run (h : Run (World.Working H) .start evs w) :
    evs.length + efforts .start ≤ efforts w := by
  induction h with
  | nil => exact Nat.le_of_eq (Nat.zero_add _)
  | snoc hr hs ih =>
      have := efforts_step hs
      rw [List.length_append, List.length_singleton]
      omega

/-- **No deadlock, and an end to every run** in which nothing fails: it has at most 143 steps, and
when no step is left, both sides have come to the ends of their programs and are torn down, and
have printed what they should. -/
theorem finishes (h : Run (World.Working H) .start evs w) :
    evs.length ≤ 143 ∧
      ((∀ ev w', ¬ w.Working H ev w') → ∀ s, (w.host s).exited = false ∧
        (w.host s).pc = (program s).length ∧ (w.host s).qp = .destroyed ∧
        (w.host s).printed = output s) := by
  obtain ⟨hw, hinv, hsync⟩ := works_of_run h
  constructor
  · have hlength := length_le_of_run h
    have hstart : efforts .start = 2 := rfl
    have hc : effort w .client ≤ 77 := effort_le hw hsync .client
    have hs : effort w .server ≤ 65 := effort_le hw hsync .server
    have hn := hinv.order.le
    unfold efforts at hlength hstart
    omega
  · intro hstuck s
    obtain ⟨hpc, hqp⟩ := done_of_held hinv hsync (held_of_stuck hw hinv hsync hstuck) s
    refine ⟨(hw.host s).exited, hpc, hqp, ?_⟩
    rw [hinv.printed s, hpc]
    cases s <;> rfl

/-- What a regular event leads to. -/
def World.work (H : Hosts) (w : World) (ev : Ev) : Option World :=
  if w.Regular H ev then w.exec H ev else none

theorem working_of_work (h : w.work H ev = some w') : w.Working H ev w' :=
  have hstep := Option.ite_none_right_eq_some.mp h
  ⟨hstep.2, hstep.1⟩

theorem wholeRun_works : ∃ w, Run (World.Working twoHosts) .start wholeRun w ∧
    ∀ s, 0 < (w.host s).pc := by
  have hends : (replay (World.work twoHosts) .start wholeRun).map
      (fun w => ((w.host .client).pc, (w.host .server).pc)) = some (17, 11) := by
    decide +kernel
  obtain ⟨w, hw, heq⟩ := Option.map_eq_some_iff.mp hends
  obtain ⟨hc, hs⟩ := Prod.mk.inj heq
  refine ⟨w, (Run.of_replay hw).mono working_of_work, fun s => ?_⟩
  cases s with
  | client => exact hc ▸ Nat.succ_pos _
  | server => exact hs ▸ Nat.succ_pos _

theorem finishes_wholeRun : ∃ w, Run (World.Working twoHosts) .start wholeRun w ∧
    ((∀ ev w', ¬ w.Working twoHosts ev w') → ∀ s, (w.host s).printed = output s) := by
  obtain ⟨w, hw, -⟩ := wholeRun_works
  exact ⟨w, hw, fun hstuck s => ((finishes hw).2 hstuck s).2.2.2⟩

/-- **The connection data arrives**, in whatever pieces it comes and whatever the byte orders of the
two hosts: past its first exchange a side has the peer's. -/
theorem remoteProps_of_run (h : Run (World.Working H) .start evs w) (s : Side)
    (hpos : 0 < (w.host s).pc) : (w.host s).remoteProps = H.props s.peer :=
  ((works_of_run h).1.host s).props hpos

theorem remoteProps_wholeRun : ∃ w, Run (World.Working twoHosts) .start wholeRun w ∧
    ∀ s, (w.host s).remoteProps = twoHosts.props s.peer := by
  obtain ⟨w, hw, hpos⟩ := wholeRun_works
  exact ⟨w, hw, fun s => remoteProps_of_run hw s (hpos s)⟩

end Codelib.Ibtest.Rdma
