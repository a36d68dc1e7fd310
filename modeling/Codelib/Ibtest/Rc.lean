import Codelib.Core.Abrupt
import Codelib.Ibtest.SockSync

/-!
# Codelib.Ibtest.Rc

The rest of `c/ibtest/ibv-rc.c`: how `main` builds up its resources, connects the queue
pair, does its three transfers and takes everything down again.

* Calls that leave the file are answered by an `Env`, which may look at all the calls
  before; `log` is the list of them with their results, and no function reads it.
  Pointers and return values are integers, and a null pointer is 0.
* `sock_sync_data` may not come back (`Codelib.Ibtest.SockSync` has its loop), and a null
  pointer may be read: either breaks the run off where it is.
* `poll_completion` is what follows its loop; `wcStatus` is the status of the completion
  the loop has found.
* Attributes, messages and what is printed are left out: nothing here depends on them.
-/

namespace Codelib.Ibtest.Rc

/-! ### The outside -/

/-- `enum ibv_qp_state`, as far as it is used. -/
inductive QpState
  | init
  | rtr
  | rts
  deriving Repr, DecidableEq

/-- `enum ibv_wr_opcode`, as far as it is used. -/
inductive Opcode
  | send
  | rdmaRead
  | rdmaWrite
  deriving Repr, DecidableEq

/-- A call, with the arguments that matter. -/
inductive Call
  | sockConnect (servername : Option String)
  | getDeviceList
  | getDeviceName (i : Nat)
  | strdup (s : String)
  | openDevice (i : Nat)
  | queryPort (ibCtx : Int)
  | allocPd (ibCtx : Int)
  | createCq (ibCtx : Int)
  | malloc
  | regMr (pd buf : Int)
  | createQp (pd cq : Int)
  | destroyQp (qp : Int)
  | deregMr (mr : Int)
  | free (buf : Int)
  | destroyCq (cq : Int)
  | deallocPd (pd : Int)
  | closeDevice (ibCtx : Int)
  | freeDeviceList (devList : Int)
  | close (sockfd : Int)
  | freeDevName
  | queryGid
  | sockSyncData (xferSize : Nat)
  | modifyQp (state : QpState)
  | postRecv
  | postSend (opcode : Opcode)
  | pollCq
  | wcStatus
  deriving Repr, DecidableEq

/-- Calls and their results, in order; a call that does not come back has none. -/
abbrev Log := List (Call × Option Int)

/-- What the calls return, and the names of the devices in the list. -/
structure Env where
  answer : Log → Call → Int
  syncData : Log → Option Int
  names : List String

/-- `struct config_t`, but for `dev_name`, which is written to. -/
structure Config where
  serverName : Option String
  gidIdx : Int

/-- `struct resources`. -/
structure Resources where
  ibCtx : Int
  pd : Int
  cq : Int
  qp : Int
  mr : Int
  buf : Int
  sockfd : Int
  deriving Repr, DecidableEq

structure State where
  res : Resources
  devName : Option String
  log : Log

/-- How a run breaks off: a null pointer is read, or a call does not come back. -/
inductive Break
  | nullPointer
  | stuck
  deriving Repr, DecidableEq

abbrev M := Abrupt Break State

def State.noted (s : State) (c : Call) (r : Option Int) : State :=
  { s with log := s.log ++ [(c, r)] }

def assign (f : Resources → Resources) : M PUnit := modify fun s => { s with res := f s.res }

section

variable (env : Env) (config : Config)

/-- Make the call `c`. -/
def call (c : Call) : M Int := do
  let r := env.answer (← get).log c
  modify fun s => s.noted c (some r)
  return r

def sockSyncData (xferSize : Nat) : M Int := do
  let r := env.syncData (← get).log
  modify fun s => s.noted (.sockSyncData xferSize) r
  match r with
  | some r => return r
  | none => throw .stuck

/-! ### Building up -/

/-- `resources_init` -/
def resourcesInit : M PUnit := assign fun _ => ⟨0, 0, 0, 0, 0, 0, -1⟩

/-- `ibv_get_device_name(dev_list[i])`, the result of which is read. -/
def readDeviceName (i : Nat) : M PUnit := do
  if (← call env (.getDeviceName i)) = 0 then
    throw .nullPointer

/-- `if (!config.dev_name) config.dev_name = strdup(ibv_get_device_name(dev_list[i]))` -/
def defaultDevice (i : Nat) (name : String) : M PUnit := do
  if (← get).devName = none then
    readDeviceName env i
    let copy ← call env (.strdup name)
    modify fun s => { s with devName := if copy = 0 then none else some name }

/-- `strcmp(ibv_get_device_name(dev_list[i]), config.dev_name) == 0` -/
def isDevice (i : Nat) (name : String) : M Bool := do
  readDeviceName env i
  match (← get).devName with
  | some devName => return name = devName
  | none => throw .nullPointer

/-- The search for the device, from `dev_list[i]` on. -/
def findDevice (i : Nat) : List String → M (Option Nat)
  | [] => return none
  | name :: names => do
    defaultDevice env i name
    if (← isDevice env i name) then
      return some i
    findDevice (i + 1) names

/-- `resources_create` up to `resources_create_exit`: `ret`, and `dev_list`. -/
def create : M (Int × Int) := do
  let sockfd ← call env (.sockConnect config.serverName)
  assign fun res => { res with sockfd := sockfd }
  if sockfd < 0 then
    return (-1, 0)
  let devList ← call env .getDeviceList
  if devList = 0 then
    return (-1, 0)
  if env.names.length = 0 then
    return (-1, devList)
  match ← findDevice env 0 env.names with
  | none => return (-1, devList)
  | some ibvDev =>
    let ibCtx ← call env (.openDevice ibvDev)
    assign fun res => { res with ibCtx := ibCtx }
    if ibCtx = 0 then
      return (-1, devList)
    let _ ← call env (.freeDeviceList devList)
    if (← call env (.queryPort ibCtx)) ≠ 0 then
      return (-1, 0)
    let pd ← call env (.allocPd ibCtx)
    assign fun res => { res with pd := pd }
    if pd = 0 then
      return (-1, 0)
    let cq ← call env (.createCq ibCtx)
    assign fun res => { res with cq := cq }
    if cq = 0 then
      return (-1, 0)
    let buf ← call env .malloc
    assign fun res => { res with buf := buf }
    if buf = 0 then
      return (-1, 0)
    let mr ← call env (.regMr pd buf)
    assign fun res => { res with mr := mr }
    if mr = 0 then
      return (-1, 0)
    let qp ← call env (.createQp pd cq)
    assign fun res => { res with qp := qp }
    if qp = 0 then
      return (-1, 0)
    return (0, 0)

/-- Release what the pointer `field` points to, if it does, and clear it. -/
def giveBack (field : Resources → Int) (clear : Resources → Resources) (c : Int → Call) :
    M PUnit := do
  let p := field (← get).res
  if p ≠ 0 then
    let _ ← call env (c p)
    assign clear

/-- `if (p) release(p)` -/
def releaseIf (p : Int) (c : Int → Call) : M PUnit := do
  if p ≠ 0 then
    let _ ← call env (c p)

/-- `if (res->sockfd >= 0) close(res->sockfd)` -/
def closeSocket : M PUnit := do
  let sockfd := (← get).res.sockfd
  if 0 ≤ sockfd then
    let _ ← call env (.close sockfd)
    assign fun res => { res with sockfd := -1 }

/-- The cleanup behind `resources_create_exit`. -/
def cleanup (devList : Int) : M PUnit := do
  giveBack env Resources.qp (fun res => { res with qp := 0 }) .destroyQp
  giveBack env Resources.mr (fun res => { res with mr := 0 }) .deregMr
  giveBack env Resources.buf (fun res => { res with buf := 0 }) .free
  giveBack env Resources.cq (fun res => { res with cq := 0 }) .destroyCq
  giveBack env Resources.pd (fun res => { res with pd := 0 }) .deallocPd
  giveBack env Resources.ibCtx (fun res => { res with ibCtx := 0 }) .closeDevice
  releaseIf env devList .freeDeviceList
  closeSocket env

def resourcesCreate : M Int := do
  let (ret, devList) ← create env config
  if ret ≠ 0 then
    cleanup env devList
  return ret

/-! ### Connecting -/

/-- Change the state of the queue pair. -/
def modifyQp (state : QpState) : M Int := do
  if (← call env (.modifyQp state)) < 0 then
    return -1
  return 0

def modifyQpToInit : M Int := modifyQp env .init

def modifyQpToRtr : M Int := modifyQp env .rtr

def modifyQpToRts : M Int := modifyQp env .rts

/-- `post_receive`; a result below zero is reported, and returned like any other. -/
def postReceive : M Int := call env .postRecv

/-- `post_send` -/
def postSend (opcode : Opcode) : M Int := call env (.postSend opcode)

/-- `connect_qp`, from the change to RTR on. -/
def toRts : M Int := do
  if (← modifyQpToRtr env) = -1 then
    return -1
  let ret ← modifyQpToRts env
  if ret = -1 then
    return ret
  if (← sockSyncData env 1) ≠ 0 then
    return -1
  return ret

/-- `connect_qp`, from the exchange of the connection data on. -/
def exchange : M Int := do
  if (← sockSyncData env sizeofCmConData) = -1 then
    return -1
  if (← modifyQpToInit env) = -1 then
    return -1
  -- what `post_receive` returns is overwritten
  if config.serverName.isSome then
    if (← postReceive env) = -1 then
      return -1
  toRts env

/-- `connect_qp` -/
def connectQp : M Int := do
  if 0 ≤ config.gidIdx then
    let ret ← call env .queryGid
    if ret = -1 then
      return ret
  exchange env config

/-! ### Taking down -/

/-- `if (p) if (release(p)) ret = -1` -/
def destroyIf (held : Bool) (c : Call) (ret : Int) : M Int := do
  if held then
    if (← call env c) ≠ 0 then
      return -1
  return ret

/-- `resources_destroy` -/
def resourcesDestroy : M Int := do
  let res := (← get).res
  let ret ← destroyIf env (res.qp ≠ 0) (.destroyQp res.qp) 0
  let ret ← destroyIf env (res.mr ≠ 0) (.deregMr res.mr) ret
  releaseIf env res.buf .free
  let ret ← destroyIf env (res.cq ≠ 0) (.destroyCq res.cq) ret
  let ret ← destroyIf env (res.pd ≠ 0) (.deallocPd res.pd) ret
  let ret ← destroyIf env (res.ibCtx ≠ 0) (.closeDevice res.ibCtx) ret
  destroyIf env (0 ≤ res.sockfd) (.close res.sockfd) ret

/-! ### `main` -/

/-- What follows the loop of `poll_completion`. -/
def pollCompletion : M Int := do
  let pollResult ← call env .pollCq
  if pollResult ≤ 0 then
    return -1
  -- `IBV_WC_SUCCESS`
  if (← call env .wcStatus) ≠ 0 then
    return -1
  return 0

/-- `post_send` and `poll_completion`, as the client does for each RDMA operation. -/
def transfer (opcode : Opcode) : M Int := do
  if (← postSend env opcode) ≠ 0 then
    return 1
  if (← pollCompletion env) ≠ 0 then
    return 1
  return 0

/-- `main` between `resources_create` and `main_exit`: `rc`. -/
def session : M Int := do
  if (← connectQp env config) ≠ 0 then
    return 1
  if config.serverName.isNone then
    if (← postSend env .send) ≠ 0 then
      return 1
  if (← pollCompletion env) ≠ 0 then
    return 1
  if (← sockSyncData env 1) ≠ 0 then
    return 1
  if config.serverName.isSome then
    if (← transfer env .rdmaRead) ≠ 0 then
      return 1
    if (← transfer env .rdmaWrite) ≠ 0 then
      return 1
  if (← sockSyncData env 1) ≠ 0 then
    return 1
  return 0

/-- `main` up to `main_exit`. -/
def work : M Int := do
  if (← resourcesCreate env config) ≠ 0 then
    return 1
  session env config

/-- `main`, from the end of the option parsing on. -/
def main : M Int := do
  resourcesInit
  let rc ← work env config
  let rc := if (← resourcesDestroy env) ≠ 0 then 1 else rc
  if (← get).devName ≠ none then
    let _ ← call env .freeDevName
  return rc

/-- What getopt leaves: nothing has been called yet. -/
def State.start (devName : Option String) : State := ⟨⟨0, 0, 0, 0, 0, 0, 0⟩, devName, []⟩

end

end Codelib.Ibtest.Rc
