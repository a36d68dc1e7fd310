import Codelib.Core.Script
import Codelib.Ibtest.Connect
import Codelib.Ibtest.Meeting

/-!
# Codelib.Ibtest.Follows

**`main` follows the program of its side** (`session_follows`): between `resources_create` and
`main_exit` it makes the calls of `program`, in this order, up to the first one whose result it takes
for a failure, and `rc` says whether it got through.

So the hosts of `Codelib.Ibtest.Rdma` do what `Codelib.Ibtest.Rc` does, and nothing is sent before
the queue pair was changed to RTS (`session_allowed`).
-/

namespace Codelib.Ibtest.Rc

open Abrupt
open Rdma (Cmd program exchanges)

/-- The server has no server name. -/
def Config.side (config : Config) : Side := if config.serverName.isSome then .client else .server

/-- The calls that make up a command, where `k` exchanges were made before. -/
def callsOf (k : Nat) : Cmd → List Call
  | .sockSyncData => [.sockSyncData (Ibtest.connectQp.xferSize k)]
  | .modifyQp state => [.modifyQp state]
  | .postReceive => [.postRecv]
  | .postSend opcode => [.postSend opcode]
  | .pollCompletion => [.pollCq, .wcStatus]
  | .fprintf _ | .strcpy _ => []

/-- All the calls of the program; the GID is queried first, if there is an index for it. -/
def script (config : Config) : List Call :=
  (if 0 ≤ config.gidIdx then [.queryGid] else []) ++
    (program config.side).zipIdx.flatMap fun p => callsOf (exchanges config.side p.2) p.1

/-- The result is not taken for a failure. -/
def Passes : Call × Option Int → Prop
  | (_, none) => False
  | (.queryGid, some ret) | (.postRecv, some ret) => ret ≠ -1
  | (.sockSyncData xferSize, some ret) => if xferSize = sizeofCmConData then ret ≠ -1 else ret = 0
  | (.modifyQp _, some ret) => 0 ≤ ret
  | (.pollCq, some pollResult) => 0 < pollResult
  | (_, some ret) => ret = 0

/-! ### The calls -/

variable {env : Env} {config : Config} {s s' : State}

/-- `m` follows the script, where a failure returns `ret`. -/
abbrev Obeys (ret : Int) (script : List Call) (m : M Int) : Prop :=
  Follows State.log Passes (· = 0) (· = ret) script m

theorem call_follows {c : Call} {good bad : Int → Prop}
    (h : ∀ r, good r ∧ Passes (c, some r) ∨ bad r ∧ ¬ Passes (c, some r)) :
    Follows State.log Passes good bad [c] (call env c) := by
  refine .single fun s => (outcome_of_ok rfl).mpr ?_
  exact ⟨_, rfl, h _⟩

theorem sockSyncData_follows {xferSize : Nat} {good bad : Int → Prop}
    (h : ∀ r, good r ∧ Passes (.sockSyncData xferSize, some r) ∨
      bad r ∧ ¬ Passes (.sockSyncData xferSize, some r)) :
    Follows State.log Passes good bad [.sockSyncData xferSize] (sockSyncData env xferSize) := by
  refine .single fun s => ?_
  unfold sockSyncData
  refine outcome_bind.mpr (outcome_get.mpr (outcome_bind.mpr (outcome_modify.mpr ?_)))
  cases env.syncData s.log with
  | none => exact outcome_throw.mpr ⟨_, rfl, id⟩
  | some r => exact outcome_pure.mpr ⟨_, rfl, h r⟩

/-- One character. -/
theorem sync_follows :
    Follows State.log Passes (· = 0) (· ≠ 0) [.sockSyncData 1] (sockSyncData env 1) :=
  sockSyncData_follows fun r => (em (r = 0)).imp (fun h => ⟨h, h⟩) fun h => ⟨h, h⟩

theorem modifyQp_follows {state : QpState} : Obeys (-1) [.modifyQp state] (modifyQp env state) := by
  refine .single fun s => ?_
  unfold modifyQp
  refine outcome_bind.mpr ((outcome_of_ok rfl).mpr ?_)
  by_cases hr : env.answer s.log (.modifyQp state) < 0
  · rw [if_pos hr]
    exact outcome_pure.mpr ⟨_, rfl, .inr ⟨rfl, Int.not_le.mpr hr⟩⟩
  · rw [if_neg hr]
    exact outcome_pure.mpr ⟨_, rfl, .inl ⟨rfl, Int.not_lt.mp hr⟩⟩

theorem postSend_follows {opcode : Opcode} :
    Follows State.log Passes (· = 0) (· ≠ 0) [.postSend opcode] (postSend env opcode) :=
  call_follows fun r => (em (r = 0)).imp (fun h => ⟨h, h⟩) fun h => ⟨h, h⟩

/-- `if (c) return ret;` and the rest. -/
theorem Obeys.orReturn {p q : List Call} {m rest : M Int} {good bad : Int → Prop}
    {stop : Int → Prop} [DecidablePred stop] {ret : Int}
    (hm : Follows State.log Passes good bad p m) (hgood : ∀ r, good r → ¬ stop r)
    (hbad : ∀ r, bad r → stop r) (hrest : Obeys ret q rest) :
    Obeys ret (p ++ q) (m >>= fun r => if stop r then pure ret else rest) := by
  refine hm.andThen (fun r hr => ?_) fun r hr => ⟨ret, if_pos (hbad r hr), rfl⟩
  rw [if_neg (hgood r hr)]
  exact hrest

/-- `if (c ≠ 0) return ret;` and the rest. -/
theorem Obeys.orFail {p q : List Call} {m rest : M Int} {bad : Int → Prop} {ret : Int}
    (hm : Follows State.log Passes (· = 0) bad p m) (hbad : ∀ r, bad r → r ≠ 0)
    (hrest : Obeys ret q rest) :
    Obeys ret (p ++ q) (m >>= fun r => if r ≠ 0 then pure ret else rest) :=
  .orReturn hm (fun _ h => not_not_intro h) hbad hrest

theorem obeys_done {ret : Int} : Obeys ret [] (pure 0) := .done rfl

/-! ### The parts of `main` -/

def gidCalls (config : Config) : List Call := if 0 ≤ config.gidIdx then [.queryGid] else []

def exchangeCalls (config : Config) : List Call :=
  .sockSyncData sizeofCmConData :: .modifyQp .init ::
    ((if config.serverName.isSome then [.postRecv] else []) ++
      [.modifyQp .rtr, .modifyQp .rts, .sockSyncData 1])

def sendCalls (config : Config) : List Call :=
  if config.serverName.isNone then [.postSend .send] else []

def transferCalls (config : Config) : List Call :=
  (if config.serverName.isSome then
      [.postSend .rdmaRead, .pollCq, .wcStatus, .postSend .rdmaWrite, .pollCq, .wcStatus]
    else []) ++ [.sockSyncData 1]

theorem toRts_follows : Obeys (-1) [.modifyQp .rtr, .modifyQp .rts, .sockSyncData 1] (toRts env) := by
  unfold toRts
  refine Obeys.orReturn (p := [_]) modifyQp_follows (fun r h => h ▸ by decide) (fun r h => h) ?_
  refine Follows.andThen (p := [_]) modifyQp_follows (fun r h => ?_) fun r h => ⟨-1, ?_, rfl⟩
  · obtain rfl : r = 0 := h
    rw [if_neg (by decide)]
    exact Obeys.orFail (p := [_]) sync_follows (fun _ h => h) obeys_done
  · rw [if_pos h, show r = -1 from h]

theorem exchange_follows : Obeys (-1) (exchangeCalls config) (exchange env config) := by
  have hne (r : Int) : r ≠ -1 ∧ r ≠ -1 ∨ r = -1 ∧ ¬ r ≠ -1 :=
    (em (r = -1)).symm.imp (fun h => ⟨h, h⟩) fun h => ⟨h, not_not_intro h⟩
  have hsync : Follows State.log Passes (· ≠ -1) (· = -1) [.sockSyncData sizeofCmConData]
      (sockSyncData env sizeofCmConData) := sockSyncData_follows hne
  have hrecv : Follows State.log Passes (· ≠ -1) (· = -1) [.postRecv] (postReceive env) :=
    call_follows hne
  unfold exchange exchangeCalls
  refine Obeys.orReturn (p := [_]) hsync (fun _ h => h) (fun _ h => h) ?_
  refine Obeys.orReturn (p := [_]) modifyQp_follows (fun r h => h ▸ by decide) (fun _ h => h) ?_
  by_cases hclient : config.serverName.isSome
  · rw [if_pos hclient, if_pos hclient]
    exact Obeys.orReturn hrecv (fun _ h => h) (fun _ h => h) toRts_follows
  · rw [if_neg hclient, if_neg hclient]
    exact toRts_follows

theorem connectQp_follows : Obeys (-1) (gidCalls config ++ exchangeCalls config)
    (connectQp env config) := by
  unfold connectQp gidCalls
  dsimp only
  by_cases hgid : 0 ≤ config.gidIdx
  · rw [if_pos hgid, if_pos hgid]
    have hquery : Follows State.log Passes (· ≠ -1) (· = -1) [.queryGid] (call env .queryGid) :=
      call_follows fun r => (em (r = -1)).symm.imp (fun h => ⟨h, h⟩) fun h => ⟨h, not_not_intro h⟩
    refine hquery.andThen (fun r hr => ?_) fun r hr => ⟨-1, ?_, rfl⟩
    · rw [if_neg hr]
      exact exchange_follows
    · rw [if_pos hr, show r = -1 from hr]
  · rw [if_neg hgid, if_neg hgid]
    exact exchange_follows

theorem pollCompletion_follows : Obeys (-1) [.pollCq, .wcStatus] (pollCompletion env) := by
  have hpoll : Follows State.log Passes (0 < ·) (· ≤ 0) [.pollCq] (call env .pollCq) :=
    call_follows fun r => (lt_or_ge 0 r).imp (fun h => ⟨h, h⟩) fun h => ⟨h, Int.not_lt.mpr h⟩
  have hstatus : Follows State.log Passes (· = 0) (· ≠ 0) [.wcStatus] (call env .wcStatus) :=
    call_follows fun r => (em (r = 0)).imp (fun h => ⟨h, h⟩) fun h => ⟨h, h⟩
  unfold pollCompletion
  refine Obeys.orReturn (p := [_]) hpoll (fun _ h => Int.not_le.mpr h) (fun _ h => h) ?_
  exact Obeys.orFail (p := [_]) hstatus (fun _ h => h) obeys_done

theorem ne_zero_of_eq_neg_one (r : Int) (h : r = -1) : r ≠ 0 := h ▸ by decide

theorem transfer_follows {opcode : Opcode} :
    Obeys 1 [.postSend opcode, .pollCq, .wcStatus] (transfer env opcode) := by
  unfold transfer
  refine Obeys.orFail (p := [_]) postSend_follows (fun _ h => h) ?_
  exact Obeys.orFail (p := [_, _]) pollCompletion_follows ne_zero_of_eq_neg_one obeys_done

/-- The client's transfers, and the exchange behind them. -/
theorem transfers_follow : Obeys 1 (transferCalls config)
      (do
        if config.serverName.isSome then
          if (← transfer env .rdmaRead) ≠ 0 then
            return 1
          if (← transfer env .rdmaWrite) ≠ 0 then
            return 1
        if (← sockSyncData env 1) ≠ 0 then
          return 1
        return 0) := by
  have hlast : Obeys 1 [.sockSyncData 1]
      (sockSyncData env 1 >>= fun r => if r ≠ 0 then pure 1 else pure 0) :=
    Obeys.orFail (p := [_]) sync_follows (fun _ h => h) obeys_done
  unfold transferCalls
  dsimp only
  by_cases hclient : config.serverName.isSome
  · rw [if_pos hclient, if_pos hclient]
    refine Obeys.orFail (p := [_, _, _]) transfer_follows (fun r h => h ▸ by decide) ?_
    exact Obeys.orFail (p := [_, _, _]) transfer_follows (fun r h => h ▸ by decide) hlast
  · rw [if_neg hclient, if_neg hclient]
    exact hlast

theorem script_eq : script config = gidCalls config ++ exchangeCalls config ++
    (sendCalls config ++ (.pollCq :: .wcStatus :: .sockSyncData 1 :: transferCalls config)) := by
  obtain ⟨_ | serverName, gidIdx⟩ := config
  · rw [List.append_assoc]
    rfl
  · rw [List.append_assoc]
    rfl

theorem session_obeys : Obeys 1 (script config) (session env config) := by
  have hrest := @transfers_follow env config
  rw [script_eq]
  unfold session sendCalls
  refine Obeys.orFail connectQp_follows ne_zero_of_eq_neg_one ?_
  have hmiddle : Obeys 1 (.pollCq :: .wcStatus :: .sockSyncData 1 :: transferCalls config) _ :=
    Obeys.orFail (@pollCompletion_follows env) ne_zero_of_eq_neg_one
      (Obeys.orFail (@sync_follows env) (fun _ h => h) hrest)
  dsimp only
  by_cases hserver : config.serverName.isNone
  · rw [if_pos hserver, if_pos hserver]
    exact Obeys.orFail (p := [_]) postSend_follows (fun _ h => h) hmiddle
  · rw [if_neg hserver, if_neg hserver]
    exact hmiddle

/-! ### What follows -/

/-- **`main` follows its program**, whatever the calls return: `rc` is 0 if all of them were made
and have passed, and 1 if the last one made has not; if it does not come back, that one is why. -/
theorem session_follows (env : Env) (config : Config) (s : State) :
    Outcome (session env config) s
      (fun rc s' => rc = 0 ∧ Whole Passes (script config) (calls s s') ∨
        rc = 1 ∧ Cut Passes (script config) (calls s s'))
      fun _ s' => Cut Passes (script config) (calls s s') := by
  refine (session_obeys s).mono (fun rc s' h => ?_) fun e s' h => ?_
  · obtain ⟨t, hlog, hcase⟩ := h
    rwa [calls_eq hlog]
  · obtain ⟨t, hlog, hcut⟩ := h
    rwa [calls_eq hlog]

/-- The state of the queue pair behind a call that passes, if the call may be made in `qp`. -/
def allowed (qp : Rdma.Qp) : Call → Option Rdma.Qp
  | .modifyQp state => qp.modify state
  | .postRecv => if qp = .init ∨ qp.receives then some qp else none
  | .postSend _ => if qp = .rts then some qp else none
  | _ => some qp

theorem script_allowed (config : Config) :
    ((script config).foldlM allowed .reset).isSome := by
  rw [script_eq]
  unfold gidCalls exchangeCalls sendCalls transferCalls
  by_cases hgid : 0 ≤ config.gidIdx
  · rw [if_pos hgid]
    cases config.serverName <;> rfl
  · rw [if_neg hgid]
    cases config.serverName <;> rfl

theorem foldlM_of_isPrefix {A B : Type} {f : B → A → Option B} {l l' : List A} {b : B} (hp : l' <+: l)
    (h : (l.foldlM f b).isSome) : (l'.foldlM f b).isSome := by
  obtain ⟨rest, rfl⟩ := hp
  rw [List.foldlM_append] at h
  cases hl : l'.foldlM f b with
  | none => rw [hl] at h; exact absurd h nofun
  | some c => rfl

/-- **No verb is called too early**: each is called in a state of the queue pair that allows it,
if those that pass do what they should. -/
theorem session_allowed (env : Env) (config : Config) (s : State) :
    Outcome (session env config) s
      (fun _ s' => (((calls s s').map Prod.fst).foldlM allowed .reset).isSome)
      fun _ s' => (((calls s s').map Prod.fst).foldlM allowed .reset).isSome := by
  refine (session_follows env config s).mono (fun rc s' h => ?_) fun e s' hcut => ?_
  · rcases h with ⟨-, hwhole⟩ | ⟨-, hcut⟩
    · rw [hwhole.calls]
      exact script_allowed config
    · exact foldlM_of_isPrefix hcut.isPrefix (script_allowed config)
  · exact foldlM_of_isPrefix hcut.isPrefix (script_allowed config)

end Codelib.Ibtest.Rc
