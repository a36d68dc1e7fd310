import Mathlib.Algebra.Group.Int.Defs
import Mathlib.Logic.Function.Basic
import Codelib.Core.Pipe
import Codelib.Core.Run

/-!
# Codelib.Ibtest.SockSync

The out-of-band channel of `c/ibtest/ibv-rc.c`: `sock_sync_data`.

Both sides of the test program swap messages of equal size over one TCP
connection: each call writes its own message and then collects the peer's. The
function is cut where it meets the socket:

* `afterWrite` — from the return of `write` to the first `read`;
* `receiveRound` — one round of the receive loop, from the return of `read` to the
  next `read`. The loop hands `read` the *whole* `xfer_size` as count on every
  round, also when part of the message is there already.

`Session.exec` is then the two endpoints at work, one `write` or `read` at a time
in any order, with a `Pipe` in either direction. A `write` is complete; a `read`
returns any positive number of available bytes up to the count.
-/

namespace Codelib.Ibtest

/-! ### `sock_sync_data` -/

/-- Where a call is: about to write, about to `read` with `nbytes_read` bytes
collected, or back with a return value. -/
inductive Control
  | sending
  | receiving (nbytesRead : Nat)
  | returned (ret : Int)
  deriving Repr, DecidableEq

/-- `EOF` of `stdio.h`. -/
def eof : Int := -1

/-- The test of the receive loop. -/
def receiveTest (xferSize nbytesRead : Nat) : Control :=
  if nbytesRead < xferSize then .receiving nbytesRead else .returned 0

/-- From the return of `write` to the receive loop. -/
def afterWrite (xferSize : Nat) (nbytesWrite : Int) : Control :=
  if nbytesWrite < xferSize then
    -- Failed writing data during sock_sync_data
    .returned (-1)
  else receiveTest xferSize 0

/-- One round of the receive loop, `tmp` being what `read` returned. -/
def receiveRound (xferSize nbytesRead : Nat) (tmp : Int) : Control :=
  if tmp < 0 then
    -- receive failed
    .returned (-1)
  else if tmp = eof then
    .returned 0
  else receiveTest xferSize (nbytesRead + tmp.toNat)

/-! ### Two endpoints -/

inductive Side
  | client
  | server
  deriving Repr, DecidableEq

def Side.peer : Side → Side
  | client => server
  | server => client

/-- The calls both sides make: the size of the `k`-th call, the same on both sides,
and the message each side sends in it. -/
structure Session where
  xferSize : Nat → Nat
  localData : Side → Nat → List UInt8
  length_localData : ∀ s k, (localData s k).length = xferSize k

/-- `sizeof(struct cm_con_data_t)`, packed: `addr`, `rkey`, `qp_num`, `lid`, `gid`. -/
def sizeofCmConData : Nat := 8 + 4 + 4 + 2 + 16

/-- The calls of `connect_qp` and `main`: the connection data, then one character
(`Q`, `R`, `W`) at a time. -/
def connectQp : Session where
  xferSize k := if k = 0 then sizeofCmConData else 1
  localData _ k :=
    match k with
    | 0 => List.replicate sizeofCmConData 0
    | 1 => [81]
    | 2 => [82]
    | _ + 3 => [87]
  length_localData _ k := by
    match k with
    | 0 => rfl
    | 1 => rfl
    | 2 => rfl
    | _ + 3 => rfl

/-- One endpoint: its current call, and what this call stored at which offset from
`remote_data`. -/
structure Endpoint where
  call : Nat
  control : Control
  remoteData : Nat → Option UInt8

/-- The start of call `k`. -/
def Endpoint.start (k : Nat) : Endpoint := ⟨k, .sending, fun _ => none⟩

/-- Store `bs` from offset `off` on. -/
def store (remoteData : Nat → Option UInt8) (off : Nat) (bs : List UInt8) : Nat → Option UInt8 :=
  fun i => if off ≤ i ∧ i < off + bs.length then bs[i - off]? else remoteData i

/-- The connection: both endpoints, and for each the bytes it has written. -/
structure Net where
  endpoint : Side → Endpoint
  pipe : Side → Pipe UInt8

def Net.start : Net := ⟨fun _ => .start 0, fun _ => .empty⟩

/-- What an endpoint can do: the `write` of its call, a `read` that returns `tmp`
bytes, or the next call. -/
inductive Act
  | write
  | read (tmp : Nat)
  | call
  deriving Repr, DecidableEq

namespace Session

variable (S : Session)

/-- Endpoint `s` writes the message of its call. -/
def onWrite (n : Net) (s : Side) : Net :=
  let e := n.endpoint s
  let xferSize := S.xferSize e.call
  { endpoint := Function.update n.endpoint s { e with control := afterWrite xferSize xferSize }
    pipe := Function.update n.pipe s ((n.pipe s).write (S.localData s e.call)) }

/-- Endpoint `s` gets `tmp` bytes `bs` from `read(sockfd, remote_data + nbytes_read,
xfer_size)`, which leaves `rest` in the socket. -/
def onRead (n : Net) (s : Side) (nbytesRead tmp : Nat) (bs : List UInt8) (rest : Pipe UInt8) :
    Net :=
  let e := n.endpoint s
  { endpoint := Function.update n.endpoint s
      { e with
        control := receiveRound (S.xferSize e.call) nbytesRead tmp
        remoteData := store e.remoteData nbytesRead bs }
    pipe := Function.update n.pipe s.peer rest }

/-- Endpoint `s` makes its next call. -/
def onCall (n : Net) (s : Side) : Net :=
  { n with endpoint := Function.update n.endpoint s (.start ((n.endpoint s).call + 1)) }

/-- One step of endpoint `s`, if it can take it. -/
def exec (n : Net) : Side × Act → Option Net
  | (s, act) =>
    match act, (n.endpoint s).control with
    | .write, .sending => some (S.onWrite n s)
    | .read tmp, .receiving nbytesRead =>
      if 0 < tmp ∧ tmp ≤ S.xferSize (n.endpoint s).call then
        ((n.pipe s.peer).read tmp).map fun r => S.onRead n s nbytesRead tmp r.1 r.2
      else none
    | .call, .returned ret => if ret = 0 then some (onCall n s) else none
    | _, _ => none

def Step (n : Net) (l : Side × Act) (n' : Net) : Prop := S.exec n l = some n'

end Session

end Codelib.Ibtest
