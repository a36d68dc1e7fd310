import Codelib.Ibtest.Rc
import Codelib.Ibtest.Rendezvous
import Codelib.Ibtest.Wire

/-!
# Codelib.Ibtest.Rdma

Client and server of `c/ibtest/ibv-rc.c` at work with each other, from the end of
`resources_create` on: two programs, the TCP connection between them, and two adapters that move
data from buffer to buffer.

* `program` is what `connect_qp` and `main` do, up to `main_exit`. A call that fails leads there
  (`Ev.exit`), and `resources_destroy` follows. A verb that fails with an `errno` value, where the
  code looks for -1, is taken for a success (`Ev.miss`).
* The connection is that of `Codelib.Ibtest.SockSync`, and the first message is the connection
  data of `Codelib.Ibtest.Wire`.
* The adapters do what is documented of reliable connections. A request is carried out at any
  time after it was posted and completed at any time after that, or it ends in an error. A `SEND`
  needs a posted receive request, and ends in an error if there is none, as `rnr_retry` is 0.

What an overlong read stores behind its buffer is in `Codelib.Ibtest.SockSync`; what that would
damage is left out. A buffer is the string in it: all requests are of the size of the buffer.
-/

namespace Codelib.Ibtest.Rdma

open Rc (Opcode QpState)

def msg : String := "SEND operation      "

def rdmamsgr : String := "RDMA read operation "

def rdmamsgw : String := "RDMA write operation"

/-! ### The programs -/

inductive Cmd
  | sockSyncData
  | modifyQp (state : QpState)
  | postReceive
  | postSend (opcode : Opcode)
  | pollCompletion
  /-- `fprintf(stdout, "…'%s'\n", res.buf)` -/
  | fprintf (text : String)
  /-- `strcpy(res.buf, …)` -/
  | strcpy (s : String)
  deriving Repr, DecidableEq

/-- `connect_qp` -/
def connectQp : Side → List Cmd
  | .client => [.sockSyncData, .modifyQp .init, .postReceive, .modifyQp .rtr, .modifyQp .rts,
      .sockSyncData]
  | .server => [.sockSyncData, .modifyQp .init, .modifyQp .rtr, .modifyQp .rts, .sockSyncData]

/-- `main`, from `connect_qp` to `main_exit`. -/
def program : Side → List Cmd
  | .client => connectQp .client ++ [.pollCompletion, .fprintf "Message is: ", .sockSyncData,
      .postSend .rdmaRead, .pollCompletion, .fprintf "Contents of server's buffer: ",
      .strcpy rdmamsgw, .fprintf "Now replacing it with: ", .postSend .rdmaWrite, .pollCompletion,
      .sockSyncData]
  | .server => connectQp .server ++ [.postSend .send, .pollCompletion, .strcpy rdmamsgr,
      .sockSyncData, .sockSyncData, .fprintf "Contents of server buffer: "]

/-- A failure of the call leads to `main_exit`. -/
def Cmd.fails : Cmd → Bool
  | fprintf _ | strcpy _ => false
  | _ => true

/-- The call may fail with a value that the code does not look for. -/
def Cmd.misses : Cmd → Bool
  | modifyQp _ | postReceive => true
  | _ => false

/-! ### The two hosts -/

/-- The state of a queue pair. -/
inductive Qp
  | reset
  | init
  | rtr
  | rts
  | destroyed
  deriving Repr, DecidableEq

/-- The changes of state that `ibv_modify_qp` makes. -/
def Qp.modify : Qp → QpState → Option Qp
  | reset, .init => some .init
  | init, .rtr => some .rtr
  | rtr, .rts => some .rts
  | _, _ => none

/-- The state in which requests of the peer arrive. -/
def Qp.receives : Qp → Bool
  | rtr | rts => true
  | _ => false

/-- A work completion: the request it is for, where a receive request has no opcode. -/
structure Completion where
  opcode : Option Opcode
  /-- `IBV_WC_SUCCESS` -/
  success : Bool
  deriving Repr, DecidableEq

structure Host where
  /-- The next command. -/
  pc : Nat
  /-- `main_exit` was reached by a `goto`. -/
  exited : Bool
  buf : String
  remoteProps : CmConData
  qp : Qp
  /-- Receive requests that are posted. -/
  recvs : Nat
  /-- The request that is outstanding, and whether its data has been moved. -/
  sq : Option (Opcode × Bool)
  cq : List Completion
  printed : List String
  deriving DecidableEq

/-- The connection data of a request is that of another adapter. -/
def noProps : CmConData := ⟨0, 0, 0, 0, .replicate 16 0⟩

/-- What `resources_create` leaves. -/
def Host.start (buf : String) : Host := ⟨0, false, buf, noProps, .reset, 0, none, [], []⟩

/-- The hosts: their byte orders, and the connection data that each has for its peer. -/
structure Hosts where
  order : Side → ByteOrder
  network : ∀ s, Network (order s)
  props : Side → CmConData

namespace Hosts

variable (H : Hosts)

/-- The bytes of the first exchange, then one character at a time. -/
def session : Session where
  xferSize k := if k = 0 then sizeofCmConData else 1
  localData s k :=
    match k with
    | 0 => sentBytes (H.network s) (H.props s)
    | 1 => [81]
    | 2 => [82]
    | _ + 3 => [87]
  length_localData s k := by
    match k with
    | 0 => exact CmConData.length_toMemory _ _
    | 1 => rfl
    | 2 => rfl
    | _ + 3 => rfl

end Hosts

/-- The connection, the hosts, and the requests that were carried out, in order; nothing reads
these. -/
structure World where
  net : Net
  host : Side → Host
  carried : List Opcode

def World.start : World where
  net := .start
  host
    | .client => .start ""
    | .server => .start msg
  carried := []

/-! ### What can happen -/

inductive Ev
  /-- A `write` or `read` of `sock_sync_data`. -/
  | sock (s : Side) (act : Act)
  /-- The command is done, with success. -/
  | run (s : Side)
  /-- It has failed, but with a value that is not looked for. -/
  | miss (s : Side) (c : Cmd)
  /-- It has failed. -/
  | exit (s : Side)
  /-- `resources_destroy` -/
  | destroy (s : Side)
  /-- The data of the request of `s` is moved. -/
  | carry (s : Side)
  /-- There is no receive request for it. -/
  | notReady (s : Side)
  /-- The request is completed. -/
  | complete (s : Side)
  /-- It ends in an error. -/
  | lose (s : Side)
  deriving Repr, DecidableEq

namespace World

variable (H : Hosts) (w : World) (s : Side)

def set (h : Host) : World := { w with host := Function.update w.host s h }

/-- What `s` is about to do; nothing if it is at `main_exit`. -/
def cmd : Option Cmd := if (w.host s).exited then none else (program s)[(w.host s).pc]?

/-- Side `s` goes on with its next command. -/
def goOn (h : Host) : World := w.set s { h with pc := h.pc + 1 }

/-- What was received for the connection data. -/
def received (e : Endpoint) : Text :=
  (List.range sizeofCmConData).map fun i => (e.remoteData i).getD 0

/-- `connect_qp` stores what its exchange has brought; the other exchanges are for the wait. -/
def afterSync (e : Endpoint) (h : Host) : Host :=
  if e.call = 0 then { h with remoteProps := Ibtest.remoteProps (H.network s) (received e) } else h

/-- A successful command. -/
def perform (c : Cmd) : Option World :=
  let h := w.host s
  match c with
  | .sockSyncData =>
    (H.session.exec w.net (s, .call)).map fun net =>
      { w with net := net }.goOn s (afterSync H s (w.net.endpoint s) h)
  | .modifyQp state => (h.qp.modify state).map fun qp => w.goOn s { h with qp := qp }
  | .postReceive =>
    if h.qp = .init ∨ h.qp.receives then some (w.goOn s { h with recvs := h.recvs + 1 }) else none
  | .postSend opcode =>
    if h.qp = .rts ∧ h.sq = none then some (w.goOn s { h with sq := some (opcode, false) }) else none
  | .pollCompletion =>
    match h.cq with
    | wc :: cq => if wc.success then some (w.goOn s { h with cq := cq }) else none
    | [] => none
  | .fprintf t => some (w.goOn s { h with printed := h.printed ++ [t ++ "'" ++ h.buf ++ "'\n"] })
  | .strcpy t => some (w.goOn s { h with buf := t })

/-- The queue pair of `s` is connected to that of its peer, and the peer's receives. -/
def connected : Bool :=
  (w.host s.peer).qp.receives && (w.host s).remoteProps = H.props s.peer

/-- The request of `s` is completed. -/
def finish (opcode : Opcode) (success : Bool) : World :=
  let h := w.host s
  w.set s { h with sq := none, cq := h.cq ++ [⟨some opcode, success⟩] }

/-- The adapters move the data of the request of `s`. -/
def move (opcode : Opcode) : Option World :=
  let h := w.host s
  let p := w.host s.peer
  let moved : Host := { h with sq := some (opcode, true) }
  let w := { w with carried := w.carried ++ [opcode] }
  match opcode with
  | .send =>
    if 0 < p.recvs then
      some ((w.set s moved).set s.peer
        { p with buf := h.buf, recvs := p.recvs - 1, cq := p.cq ++ [⟨none, true⟩] })
    else none
  | .rdmaRead => some (w.set s { moved with buf := p.buf })
  | .rdmaWrite => some ((w.set s moved).set s.peer { p with buf := h.buf })

def exec (ev : Ev) : Option World :=
  match ev with
  | .sock s act =>
    if w.cmd s = some .sockSyncData ∧ act ≠ .call then
      (H.session.exec w.net (s, act)).map fun net => { w with net := net }
    else none
  | .run s => (w.cmd s).bind (w.perform H s)
  | .miss s c => if w.cmd s = some c ∧ c.misses then some (w.goOn s (w.host s)) else none
  | .exit s =>
    if (w.cmd s).any Cmd.fails then some (w.set s { w.host s with exited := true }) else none
  | .destroy s =>
    if w.cmd s = none then
      some (w.set s { w.host s with qp := .destroyed, recvs := 0, sq := none, cq := [] })
    else none
  | .carry s =>
    match (w.host s).sq with
    | some (opcode, false) => if w.connected H s then w.move s opcode else none
    | _ => none
  | .notReady s =>
    if (w.host s).sq = some (.send, false) ∧ w.connected H s ∧ (w.host s.peer).recvs = 0 then
      some (w.finish s .send false)
    else none
  | .complete s =>
    match (w.host s).sq with
    | some (opcode, true) => some (w.finish s opcode true)
    | _ => none
  | .lose s => (w.host s).sq.map fun r => w.finish s r.1 false

def Step (w : World) (ev : Ev) (w' : World) : Prop := w.exec H ev = some w'

end World

end Codelib.Ibtest.Rdma
