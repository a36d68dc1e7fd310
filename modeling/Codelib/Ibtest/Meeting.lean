import Mathlib.Tactic.IntervalCases
import Codelib.Ibtest.Rdma

/-!
# Codelib.Ibtest.Meeting

**Where client and server meet** (`Synced.met`), in every run of the two, whatever fails.

`Happens` says what an event does. The endpoints of the connection follow the two programs
(`Synced`), so `Session.rendezvous` ties the programs together: a side that has left its `k`-th
exchange knows that the peer has reached its own.
-/

namespace Codelib.Ibtest.Rdma

open Rc (Opcode QpState)

/-! ### What an event does -/

/-- One more request has been carried out. -/
def World.carry (w : World) (opcode : Opcode) : World := { w with carried := w.carried ++ [opcode] }

/-- Event `ev` leads from `w` to the last argument. -/
inductive Happens (H : Hosts) (w : World) : Ev → World → Prop
  | sock {s : Side} {act : Act} {net : Net} (hc : w.cmd s = some .sockSyncData) (hact : act ≠ .call)
      (hs : H.session.Step w.net (s, act) net) : Happens H w (.sock s act) { w with net := net }
  | sync {s : Side} {net : Net} (hc : w.cmd s = some .sockSyncData)
      (hs : H.session.Step w.net (s, .call) net) :
      Happens H w (.run s)
        ({ w with net := net }.goOn s (World.afterSync H s (w.net.endpoint s) (w.host s)))
  | modifyQp {s : Side} {state : QpState} {qp : Qp} (hc : w.cmd s = some (.modifyQp state))
      (hqp : (w.host s).qp.modify state = some qp) :
      Happens H w (.run s) (w.goOn s { w.host s with qp := qp })
  | postReceive {s : Side} (hc : w.cmd s = some .postReceive) :
      Happens H w (.run s) (w.goOn s { w.host s with recvs := (w.host s).recvs + 1 })
  | postSend {s : Side} {opcode : Opcode} (hc : w.cmd s = some (.postSend opcode))
      (hsq : (w.host s).sq = none) :
      Happens H w (.run s) (w.goOn s { w.host s with sq := some (opcode, false) })
  | poll {s : Side} {wc : Completion} {cq : List Completion} (hc : w.cmd s = some .pollCompletion)
      (hcq : (w.host s).cq = wc :: cq) (hwc : wc.success) :
      Happens H w (.run s) (w.goOn s { w.host s with cq := cq })
  | fprintf {s : Side} {t : String} (hc : w.cmd s = some (.fprintf t)) :
      Happens H w (.run s) (w.goOn s { w.host s with
        printed := (w.host s).printed ++ [t ++ "'" ++ (w.host s).buf ++ "'\n"] })
  | strcpy {s : Side} {t : String} (hc : w.cmd s = some (.strcpy t)) :
      Happens H w (.run s) (w.goOn s { w.host s with buf := t })
  | miss {s : Side} {c : Cmd} (hc : w.cmd s = some c) (hm : c.misses) :
      Happens H w (.miss s c) (w.goOn s (w.host s))
  | exit {s : Side} {c : Cmd} (hc : w.cmd s = some c) (hf : c.fails) :
      Happens H w (.exit s) (w.set s { w.host s with exited := true })
  | destroy {s : Side} (hc : w.cmd s = none) :
      Happens H w (.destroy s)
        (w.set s { w.host s with qp := .destroyed, recvs := 0, sq := none, cq := [] })
  | send {s : Side} (hsq : (w.host s).sq = some (.send, false)) (hcon : w.connected H s)
      (hrecvs : 0 < (w.host s.peer).recvs) :
      Happens H w (.carry s) (((w.carry .send).set s
        { w.host s with sq := some (.send, true) }).set s.peer
          { w.host s.peer with
            buf := (w.host s).buf
            recvs := (w.host s.peer).recvs - 1
            cq := (w.host s.peer).cq ++ [⟨none, true⟩] })
  | rdmaRead {s : Side} (hsq : (w.host s).sq = some (.rdmaRead, false)) (hcon : w.connected H s) :
      Happens H w (.carry s) ((w.carry .rdmaRead).set s
        { w.host s with sq := some (.rdmaRead, true), buf := (w.host s.peer).buf })
  | rdmaWrite {s : Side} (hsq : (w.host s).sq = some (.rdmaWrite, false)) (hcon : w.connected H s) :
      Happens H w (.carry s) (((w.carry .rdmaWrite).set s
        { w.host s with sq := some (.rdmaWrite, true) }).set s.peer
          { w.host s.peer with buf := (w.host s).buf })
  | notReady {s : Side} (hsq : (w.host s).sq = some (.send, false)) (hcon : w.connected H s)
      (hrecvs : (w.host s.peer).recvs = 0) :
      Happens H w (.notReady s) (w.finish s .send false)
  | complete {s : Side} {opcode : Opcode} (hsq : (w.host s).sq = some (opcode, true)) :
      Happens H w (.complete s) (w.finish s opcode true)
  | lose {s : Side} {opcode : Opcode} {moved : Bool} (hsq : (w.host s).sq = some (opcode, moved)) :
      Happens H w (.lose s) (w.finish s opcode false)

variable {H : Hosts} {w w' : World} {s t : Side} {ev : Ev} {evs : List Ev}

theorem happens_of_perform {c : Cmd} (hc : w.cmd s = some c) (h : w.perform H s c = some w') :
    Happens H w (.run s) w' := by
  cases c with
  | sockSyncData =>
      obtain ⟨net, hs, rfl⟩ := Option.map_eq_some_iff.mp h
      exact .sync hc hs
  | modifyQp state =>
      obtain ⟨qp, hqp, rfl⟩ := Option.map_eq_some_iff.mp h
      exact .modifyQp hc hqp
  | postReceive =>
      obtain ⟨-, h⟩ := Option.ite_none_right_eq_some.mp h
      obtain rfl := Option.some.inj h
      exact .postReceive hc
  | postSend opcode =>
      obtain ⟨hsq, h⟩ := Option.ite_none_right_eq_some.mp h
      obtain rfl := Option.some.inj h
      exact .postSend hc hsq.2
  | pollCompletion =>
      cases hcq : (w.host s).cq with
      | nil => simp [World.perform, hcq] at h
      | cons wc cq =>
          simp only [World.perform, hcq] at h
          obtain ⟨hwc, h⟩ := Option.ite_none_right_eq_some.mp h
          obtain rfl := Option.some.inj h
          exact .poll hc hcq hwc
  | fprintf t =>
      obtain rfl := Option.some.inj h
      exact .fprintf hc
  | strcpy t =>
      obtain rfl := Option.some.inj h
      exact .strcpy hc

theorem happens_of_move {opcode : Opcode} (hsq : (w.host s).sq = some (opcode, false))
    (hcon : w.connected H s) (h : w.move s opcode = some w') : Happens H w (.carry s) w' := by
  cases opcode with
  | send =>
      obtain ⟨hrecvs, h⟩ := Option.ite_none_right_eq_some.mp h
      obtain rfl := Option.some.inj h
      exact .send hsq hcon hrecvs
  | rdmaRead =>
      obtain rfl := Option.some.inj h
      exact .rdmaRead hsq hcon
  | rdmaWrite =>
      obtain rfl := Option.some.inj h
      exact .rdmaWrite hsq hcon

theorem happens_of_step (h : w.Step H ev w') : Happens H w ev w' := by
  unfold World.Step at h
  cases ev with
  | sock s act =>
      obtain ⟨hc, h⟩ := Option.ite_none_right_eq_some.mp h
      obtain ⟨net, hs, rfl⟩ := Option.map_eq_some_iff.mp h
      exact .sock hc.1 hc.2 hs
  | run s =>
      obtain ⟨c, hc, h⟩ := Option.bind_eq_some_iff.mp h
      exact happens_of_perform hc h
  | miss s c =>
      obtain ⟨hc, h⟩ := Option.ite_none_right_eq_some.mp h
      obtain rfl := Option.some.inj h
      exact .miss hc.1 hc.2
  | exit s =>
      obtain ⟨hc, h⟩ := Option.ite_none_right_eq_some.mp h
      obtain rfl := Option.some.inj h
      obtain ⟨c, hc, hf⟩ := (Option.any_eq_true _ _).mp hc
      exact .exit hc hf
  | destroy s =>
      obtain ⟨hc, h⟩ := Option.ite_none_right_eq_some.mp h
      obtain rfl := Option.some.inj h
      exact .destroy hc
  | carry s =>
      rcases hsq : (w.host s).sq with _ | ⟨opcode, _ | _⟩
      · simp [World.exec, hsq] at h
      · simp only [World.exec, hsq] at h
        obtain ⟨hcon, h⟩ := Option.ite_none_right_eq_some.mp h
        exact happens_of_move hsq hcon h
      · simp [World.exec, hsq] at h
  | notReady s =>
      obtain ⟨hc, h⟩ := Option.ite_none_right_eq_some.mp h
      obtain rfl := Option.some.inj h
      exact .notReady hc.1 hc.2.1 hc.2.2
  | complete s =>
      rcases hsq : (w.host s).sq with _ | ⟨opcode, _ | _⟩
      · simp [World.exec, hsq] at h
      · simp [World.exec, hsq] at h
      · simp only [World.exec, hsq] at h
        obtain rfl := Option.some.inj h
        exact .complete hsq
  | lose s =>
      obtain ⟨⟨opcode, moved⟩, hsq, rfl⟩ := Option.map_eq_some_iff.mp h
      exact .lose hsq

/-! ### Positions -/

theorem at_index {c : Cmd} {pc : Nat} (h : (program s)[pc]? = some c) :
    (c, pc) ∈ (program s).zipIdx :=
  List.mem_zipIdx_iff_getElem?.mpr h

theorem program_of_cmd {c : Cmd} (h : w.cmd s = some c) :
    (w.host s).exited = false ∧ (program s)[(w.host s).pc]? = some c := by
  unfold World.cmd at h
  split at h
  · exact absurd h nofun
  · case isFalse hexited => exact ⟨eq_false_of_ne_true hexited, h⟩

/-- The exchanges among the first `pc` commands. -/
def exchanges (s : Side) (pc : Nat) : Nat := ((program s).take pc).count .sockSyncData

theorem exchanges_succ {c : Cmd} {pc : Nat} (h : (program s)[pc]? = some c) :
    exchanges s (pc + 1) = exchanges s pc + if c = .sockSyncData then 1 else 0 := by
  rw [exchanges, List.take_add_one, h, List.count_append, Option.toList_some, List.count_singleton]
  simp [exchanges]

theorem at_sockSyncData {pc : Nat} (h : (program s)[pc]? = some .sockSyncData) :
    match s with
    | .client => pc = 0 ∨ pc = 5 ∨ pc = 8 ∨ pc = 16
    | .server => pc = 0 ∨ pc = 4 ∨ pc = 8 ∨ pc = 9 := by
  have := at_index h
  cases s <;> simpa [program, connectQp] using this

theorem lt_exchanges_client (pc : Nat) :
    (0 < exchanges .client pc ↔ 0 < pc) ∧ (1 < exchanges .client pc ↔ 5 < pc) ∧
      (2 < exchanges .client pc ↔ 8 < pc) ∧ (3 < exchanges .client pc ↔ 16 < pc) := by
  by_cases h : pc < 17
  · interval_cases pc <;> decide
  · have hall : exchanges .client pc = 4 := by
      rw [exchanges, List.take_of_length_le (Nat.le_of_not_lt h)]
      rfl
    omega

theorem lt_exchanges_server (pc : Nat) :
    (0 < exchanges .server pc ↔ 0 < pc) ∧ (1 < exchanges .server pc ↔ 4 < pc) ∧
      (2 < exchanges .server pc ↔ 8 < pc) ∧ (3 < exchanges .server pc ↔ 9 < pc) := by
  by_cases h : pc < 11
  · interval_cases pc <;> decide
  · have hall : exchanges .server pc = 4 := by
      rw [exchanges, List.take_of_length_le (Nat.le_of_not_lt h)]
      rfl
    omega

/-! ### What an event changes -/

@[simp] theorem set_host (h : Host) : (w.set s h).host = Function.update w.host s h := rfl

@[simp] theorem goOn_host (h : Host) :
    (w.goOn s h).host = Function.update w.host s { h with pc := h.pc + 1 } := rfl

@[simp] theorem set_net (h : Host) : (w.set s h).net = w.net := rfl

@[simp] theorem goOn_net (h : Host) : (w.goOn s h).net = w.net := rfl

@[simp] theorem set_carried (h : Host) : (w.set s h).carried = w.carried := rfl

@[simp] theorem goOn_carried (h : Host) : (w.goOn s h).carried = w.carried := rfl

@[simp] theorem afterSync_pc (e : Endpoint) (h : Host) : (World.afterSync H s e h).pc = h.pc := by
  unfold World.afterSync
  split <;> rfl

/-! ### The exchanges -/

/-- The calls of `sock_sync_data` are those of the program, one after the other. -/
structure Synced (H : Hosts) (w : World) : Prop where
  net : ∃ ks, Run H.session.Step .start ks w.net
  call : ∀ s, (w.net.endpoint s).call = exchanges s (w.host s).pc
  idle : ∀ s, (program s)[(w.host s).pc]? ≠ some .sockSyncData →
    (w.net.endpoint s).control = .sending

theorem synced_start (H : Hosts) : Synced H .start where
  net := ⟨[], .nil⟩
  call s := by cases s <;> rfl
  idle s h := absurd (by cases s <;> rfl) h

/-- An event without the socket in which no side leaves an exchange. -/
theorem Synced.frame (h : Synced H w) (hnet : w'.net = w.net)
    (hpc : ∀ t, (w'.host t).pc = (w.host t).pc ∨ (w'.host t).pc = (w.host t).pc + 1 ∧
      ∃ c, (program t)[(w.host t).pc]? = some c ∧ c ≠ .sockSyncData) : Synced H w' where
  net := by
    rw [hnet]
    exact h.net
  call t := by
    rw [hnet, h.call]
    rcases hpc t with heq | ⟨hsucc, c, hc, hne⟩
    · rw [heq]
    · rw [hsucc, exchanges_succ hc, if_neg hne]
      rfl
  idle t ht := by
    rw [hnet]
    refine h.idle t ?_
    rcases hpc t with heq | ⟨-, c, hc, hne⟩
    · rwa [← heq]
    · rw [hc]
      exact fun heq => hne (Option.some.inj heq)

theorem Synced.goOn (h : Synced H w) {c : Cmd} (hc : w.cmd s = some c) (hne : c ≠ .sockSyncData)
    {host : Host} (hpc : host.pc = (w.host s).pc) : Synced H (w.goOn s host) := by
  refine h.frame rfl fun t => ?_
  rcases eq_or_ne t s with rfl | hts
  · refine .inr ⟨?_, c, (program_of_cmd hc).2, hne⟩
    rw [goOn_host, Function.update_self, hpc]
  · exact .inl (by rw [goOn_host, Function.update_of_ne hts])

theorem Synced.set (h : Synced H w) {host : Host} (hpc : host.pc = (w.host s).pc) :
    Synced H (w.set s host) := by
  refine h.frame rfl fun t => .inl ?_
  rcases eq_or_ne t s with rfl | hts
  · rw [set_host, Function.update_self, hpc]
  · rw [set_host, Function.update_of_ne hts]

theorem Synced.setBoth (h : Synced H w) {host peer : Host} (hpc : host.pc = (w.host s).pc)
    (hpeer : peer.pc = (w.host s.peer).pc) : Synced H ((w.set s host).set s.peer peer) := by
  refine (h.set hpc).set ?_
  rw [set_host, Function.update_of_ne (Side.peer_ne s), hpeer]

theorem endpoint_of_ne {act : Act} {n n' : Net} {S : Session} (hs : S.Step n (s, act) n')
    (hts : t ≠ s) : n'.endpoint t = n.endpoint t := by
  cases act with
  | write => obtain ⟨-, rfl⟩ := Session.step_write hs; simp [hts]
  | read tmp => obtain ⟨_, _, _, -, -, -, rfl⟩ := Session.step_read hs; simp [hts]
  | call => obtain ⟨-, rfl⟩ := Session.step_call hs; simp [hts]

theorem call_of_step {act : Act} {n n' : Net} {S : Session} (hs : S.Step n (s, act) n')
    (hact : act ≠ .call) (t : Side) : (n'.endpoint t).call = (n.endpoint t).call := by
  rcases eq_or_ne t s with rfl | hts
  · cases act with
    | write => obtain ⟨-, rfl⟩ := Session.step_write hs; simp
    | read tmp => obtain ⟨_, _, _, -, -, -, rfl⟩ := Session.step_read hs; simp
    | call => exact absurd rfl hact
  · rw [endpoint_of_ne hs hts]

theorem Synced.sock (h : Synced H w) {act : Act} {net : Net} (hc : w.cmd s = some .sockSyncData)
    (hact : act ≠ .call) (hs : H.session.Step w.net (s, act) net) :
    Synced H { w with net := net } where
  net := by
    obtain ⟨ks, hks⟩ := h.net
    exact ⟨_, hks.snoc hs⟩
  call t := (call_of_step hs hact t).trans (h.call t)
  idle t ht := by
    have hts : t ≠ s := by
      intro heq
      rw [heq] at ht
      exact ht (program_of_cmd hc).2
    dsimp only
    rw [endpoint_of_ne hs hts]
    exact h.idle t ht

theorem Synced.sync (h : Synced H w) {net : Net} (hc : w.cmd s = some .sockSyncData)
    (hs : H.session.Step w.net (s, .call) net) {host : Host} (hpc : host.pc = (w.host s).pc) :
    Synced H ({ w with net := net }.goOn s host) := by
  have hstart : net.endpoint s = .start ((w.net.endpoint s).call + 1) := by
    obtain ⟨-, rfl⟩ := Session.step_call hs
    simp
  refine ⟨?_, fun t => ?_, fun t ht => ?_⟩
  · obtain ⟨ks, hks⟩ := h.net
    exact ⟨_, hks.snoc hs⟩
  · rcases eq_or_ne t s with rfl | hts
    · rw [goOn_net, goOn_host, Function.update_self, hpc, exchanges_succ (program_of_cmd hc).2,
        if_pos rfl, ← h.call, hstart]
      rfl
    · rw [goOn_net, goOn_host, Function.update_of_ne hts, ← h.call, endpoint_of_ne hs hts]
  · rcases eq_or_ne t s with rfl | hts
    · rw [goOn_net, hstart]
      rfl
    · rw [goOn_host, Function.update_of_ne hts] at ht
      rw [goOn_net, endpoint_of_ne hs hts]
      exact h.idle t ht

theorem Synced.carry (h : Synced H w) (opcode : Opcode) : Synced H (w.carry opcode) :=
  h.frame rfl fun _ => .inl rfl

theorem Synced.step (h : Synced H w) (hev : Happens H w ev w') : Synced H w' := by
  cases hev with
  | sock hc hact hs => exact h.sock hc hact hs
  | sync hc hs => exact h.sync hc hs (afterSync_pc ..)
  | modifyQp hc hqp => exact h.goOn hc nofun rfl
  | postReceive hc => exact h.goOn hc nofun rfl
  | postSend hc hsq => exact h.goOn hc nofun rfl
  | poll hc hcq hwc => exact h.goOn hc nofun rfl
  | fprintf hc => exact h.goOn hc nofun rfl
  | strcpy hc => exact h.goOn hc nofun rfl
  | miss hc hm => exact h.goOn hc (fun heq => absurd (heq ▸ hm) nofun) rfl
  | exit hc hf => exact h.set rfl
  | destroy hc => exact h.set rfl
  | send hsq hcon hrecvs => exact (h.carry .send).setBoth rfl rfl
  | rdmaRead hsq hcon => exact (h.carry .rdmaRead).set rfl
  | rdmaWrite hsq hcon => exact (h.carry .rdmaWrite).setBoth rfl rfl
  | notReady hsq hcon hrecvs => exact h.set rfl
  | complete hsq => exact h.set rfl
  | lose hsq => exact h.set rfl

theorem synced_of_run (h : Run (World.Step H) .start evs w) : Synced H w := by
  induction h with
  | nil => exact synced_start H
  | snoc _ hs ih => exact ih.step (happens_of_step hs)

/-- **Where the two programs meet**: no side has left an exchange that the other has not reached.
Here `c` is the position of the client and `v` that of the server. -/
structure Met (c v : Nat) : Prop where
  client₁ : 5 < c → 4 ≤ v
  client₂ : 8 < c → 8 ≤ v
  client₃ : 16 < c → 9 ≤ v
  server₁ : 4 < v → 5 ≤ c
  server₂ : 8 < v → 8 ≤ c
  server₃ : 9 < v → 16 ≤ c

theorem xferSize_pos (H : Hosts) (k : Nat) : 0 < H.session.xferSize k := by
  unfold Hosts.session
  dsimp only
  split <;> decide

/-- A side has written more messages than it has left exchanges only while it is in one. -/
theorem Synced.written_le (h : Synced H w) (s : Side) :
    (w.net.endpoint s).written ≤ exchanges s (w.host s).pc ∨
      (program s)[(w.host s).pc]? = some .sockSyncData ∧
        (w.net.endpoint s).written ≤ exchanges s (w.host s).pc + 1 := by
  by_cases hsync : (program s)[(w.host s).pc]? = some .sockSyncData
  · rw [← h.call]
    exact .inr ⟨hsync, (Endpoint.written_le _).2⟩
  · rw [← h.call, Endpoint.written_of_sending (h.idle s hsync)]
    exact .inl (Nat.le_refl _)

theorem Synced.met (h : Synced H w) : Met (w.host .client).pc (w.host .server).pc := by
  obtain ⟨ks, hks⟩ := h.net
  have hpassed (s : Side) : exchanges s (w.host s).pc ≤ (w.net.endpoint s.peer).written := by
    refine Nat.le_trans ?_ (Session.rendezvous (xferSize_pos H) hks s)
    rw [← h.call]
    unfold Endpoint.passed
    split
    · exact Nat.le_succ _
    · exact Nat.le_refl _
  have hc := hpassed .client
  have hv := hpassed .server
  have hcw := (h.written_le .client).imp_right fun hat => And.imp_left at_sockSyncData hat
  have hvw := (h.written_le .server).imp_right fun hat => And.imp_left at_sockSyncData hat
  have hcpos := lt_exchanges_client (w.host .client).pc
  have hvpos := lt_exchanges_server (w.host .server).pc
  dsimp only [Side.peer] at hc hv hcw hvw
  constructor <;> omega

end Codelib.Ibtest.Rdma
