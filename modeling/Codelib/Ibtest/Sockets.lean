import Codelib.Ibtest.Release

/-!
# Codelib.Ibtest.Sockets

`sock_connect` of `c/ibtest/ibv-rc.c`, and **which descriptors are closed** in a run of `main`
(`descriptors_kept`).

A server returns the connection it has accepted, and forgets the socket on which it listens. So a server
that gets past `bind` never closes that one, also if it accepts nothing.
-/

namespace Codelib.Ibtest.Rc

open Abrupt Ledger

/-! ### `sock_connect` -/

/-- What the calls of `sock_connect` return. -/
structure SocketCalls where
  socket : Int
  connect : Int
  bind : Int
  accept : Int
  deriving Repr, DecidableEq

/-- `socket` returns a descriptor, or -1. -/
def SocketCalls.Documented (calls : SocketCalls) : Prop := calls.socket = -1 ∨ 0 ≤ calls.socket

/-- `exit(1)` -/
inductive Exit
  | failure
  deriving Repr, DecidableEq

abbrev SocketM := Abrupt Exit (List (Entry Int))

def noteFd (e : Entry Int) : SocketM PUnit := modify fun t => t ++ [e]

/-- `sock_connect`; its state are the descriptors that are opened and closed. -/
def sockConnect (calls : SocketCalls) (servername : Option String) : SocketM Int := do
  let sockfd := calls.socket
  if sockfd = -1 then
    throw .failure
  noteFd (.take sockfd)
  if servername.isSome then
    if calls.connect < 0 then
      noteFd (.give sockfd)
      return -1
    return sockfd
  if calls.bind < 0 then
    noteFd (.give sockfd)
    return -1
  -- the result of `listen` is not looked at
  if 0 ≤ calls.accept then
    noteFd (.take calls.accept)
  return calls.accept

/-- A server past `bind`. -/
def SocketCalls.Listens (calls : SocketCalls) (servername : Option String) : Prop :=
  servername = none ∧ 0 ≤ calls.bind

instance (calls : SocketCalls) (servername : Option String) : Decidable (calls.Listens servername) :=
  inferInstanceAs (Decidable (_ ∧ _))

/-- The calls of `sock_connect` give its result. -/
def Env.Sockets (env : Env) (calls : SocketCalls) : Prop :=
  ∀ t servername, (sockConnect calls servername []).1 = .ok (env.answer t (.sockConnect servername))

/-- What a call of `main` opens and closes. -/
def descriptorsOf (calls : SocketCalls) : Call × Option Int → List (Entry Int)
  | (.sockConnect servername, _) => (sockConnect calls servername []).2
  | (.close fd, some _) => [.give fd]
  | _ => []

def descriptors (calls : SocketCalls) (t : Log) : List (Entry Int) := t.flatMap (descriptorsOf calls)

/-! ### It is called once -/

def Call.isSockConnect : Call → Bool
  | .sockConnect _ => true
  | _ => false

/-- Nothing is connected in between. -/
def Apart (s s' : State) : Prop := ∃ u, s'.log = s.log ++ u ∧ ∀ x ∈ u, x.1.isSockConnect = false

variable {env : Env} {config : Config} {s s' : State} {c : Call} {α β : Type}

namespace Apart

theorem refl (s : State) : Apart s s := ⟨[], (List.append_nil _).symm, nofun⟩

theorem trans {s₁ s₂ s₃ : State} (h : Apart s₁ s₂) (h' : Apart s₂ s₃) : Apart s₁ s₃ := by
  obtain ⟨u, hu, hall⟩ := h
  obtain ⟨v, hv, hall'⟩ := h'
  exact ⟨u ++ v, by rw [hv, hu, List.append_assoc], List.forall_mem_append.mpr ⟨hall, hall'⟩⟩

theorem noted {r : Option Int} (hc : c.isSockConnect = false) : Apart s (s.noted c r) :=
  ⟨[(c, r)], rfl, List.forall_mem_singleton.mpr hc⟩

end Apart

/-- The program does not call `sock_connect`. -/
abbrev Aside (m : M α) : Prop := Leads Apart m

namespace Aside

theorem pure (a : α) : Aside (pure a : M α) := Leads.pure Apart.refl a

theorem bind {m : M α} {f : α → M β} (h : Aside m) (hf : ∀ a, Aside (f a)) : Aside (m >>= f) :=
  Leads.bind h hf Apart.trans

theorem ite {p : Prop} [Decidable p] {m m' : M α} (h : Aside m) (h' : Aside m') :
    Aside (if p then m else m') := by
  split
  · exact h
  · exact h'

theorem get : Aside (get : M State) := Leads.get Apart.refl

theorem throw (e : Break) : Aside (throw e : M α) := Leads.throw Apart.refl e

theorem modify {f : State → State} (hf : ∀ s, (f s).log = s.log) : Aside (modify f : M PUnit) :=
  Leads.modify fun s => ⟨[], by rw [hf, List.append_nil], nofun⟩

theorem call (hc : c.isSockConnect = false) : Aside (call env c) :=
  bind get fun _ => bind (Leads.modify fun _ => Apart.noted hc) fun _ => pure _

theorem assign (f : Resources → Resources) : Aside (assign f) := modify fun _ => rfl

theorem sockSyncData {xferSize : Nat} : Aside (sockSyncData env xferSize) := by
  refine bind get fun t => bind (Leads.modify fun _ => Apart.noted rfl) fun _ => ?_
  cases env.syncData t.log with
  | some r => exact pure r
  | none => exact throw .stuck

/-! #### Building up -/

theorem readDeviceName {i : Nat} : Aside (readDeviceName env i) :=
  bind (call rfl) fun _ => ite (throw _) (pure _)

theorem defaultDevice {i : Nat} {name : String} : Aside (defaultDevice env i name) :=
  bind get fun _ => ite (bind readDeviceName fun _ => bind (call rfl) fun _ => modify fun _ => rfl)
    (pure _)

theorem isDevice {i : Nat} {name : String} : Aside (isDevice env i name) := by
  refine bind readDeviceName fun _ => bind get fun t => ?_
  cases t.devName with
  | some devName => exact pure _
  | none => exact throw _

theorem findDevice {i : Nat} {names : List String} : Aside (findDevice env i names) := by
  induction names generalizing i with
  | nil => exact pure none
  | cons name names ih =>
      exact bind defaultDevice fun _ => bind isDevice fun _ => ite (pure _) ih

theorem giveBack {field : Resources → Int} {clear : Resources → Resources} {c : Int → Call}
    (hc : ∀ p, (c p).isSockConnect = false) : Aside (giveBack env field clear c) :=
  bind get fun _ => ite (bind (call (hc _)) fun _ => assign _) (pure _)

theorem releaseIf {p : Int} {c : Int → Call} (hc : ∀ p, (c p).isSockConnect = false) :
    Aside (releaseIf env p c) :=
  ite (bind (call (hc _)) fun _ => pure _) (pure _)

theorem closeSocket : Aside (closeSocket env) :=
  bind get fun _ => ite (bind (call rfl) fun _ => assign _) (pure _)

theorem cleanup {devList : Int} : Aside (cleanup env devList) :=
  bind (giveBack fun _ => rfl) fun _ => bind (giveBack fun _ => rfl) fun _ =>
    bind (giveBack fun _ => rfl) fun _ => bind (giveBack fun _ => rfl) fun _ =>
      bind (giveBack fun _ => rfl) fun _ => bind (giveBack fun _ => rfl) fun _ =>
        bind (releaseIf fun _ => rfl) fun _ => closeSocket

/-! #### The session, and taking down -/

theorem modifyQp {state : QpState} : Aside (modifyQp env state) :=
  bind (call rfl) fun _ => ite (pure _) (pure _)

theorem toRts : Aside (toRts env) :=
  bind modifyQp fun _ => ite (pure _) (bind modifyQp fun _ => ite (pure _)
    (bind sockSyncData fun _ => ite (pure _) (pure _)))

theorem exchange : Aside (exchange env config) :=
  bind sockSyncData fun _ => ite (pure _) (bind modifyQp fun _ => ite (pure _)
    (ite (bind (call rfl) fun _ => ite (pure _) toRts) toRts))

theorem connectQp : Aside (connectQp env config) :=
  ite (bind (call rfl) fun _ => ite (pure _) exchange) exchange

theorem pollCompletion : Aside (pollCompletion env) :=
  bind (call rfl) fun _ => ite (pure _) (bind (call rfl) fun _ => ite (pure _) (pure _))

theorem transfer {opcode : Opcode} : Aside (transfer env opcode) :=
  bind (call rfl) fun _ => ite (pure _) (bind pollCompletion fun _ => ite (pure _) (pure _))

theorem postSend {opcode : Opcode} : Aside (postSend env opcode) := call rfl

theorem session : Aside (session env config) := by
  unfold Rc.session
  dsimp only
  repeat' with_reducible first
    | exact pure _
    | exact connectQp
    | exact postSend
    | exact pollCompletion
    | exact transfer
    | exact sockSyncData
    | refine ite ?_ ?_
    | refine bind ?_ fun _ => ?_

theorem destroyIf {held : Bool} {ret : Int} (hc : c.isSockConnect = false) :
    Aside (destroyIf env held c ret) :=
  ite (bind (call hc) fun _ => ite (pure _) (pure _)) (pure _)

theorem resourcesDestroy : Aside (resourcesDestroy env) :=
  bind get fun _ => bind (destroyIf rfl) fun _ => bind (destroyIf rfl) fun _ =>
    bind (releaseIf fun _ => rfl) fun _ => bind (destroyIf rfl) fun _ =>
      bind (destroyIf rfl) fun _ => bind (destroyIf rfl) fun _ => destroyIf rfl

end Aside

/-- What follows does not connect. -/
theorem outcome_aside {s₀ : State} {m : M α} {f : α → M β}
    (h : Outcome m s (fun _ s' => Apart s₀ s') fun _ s' => Apart s₀ s') (hf : ∀ a, Aside (f a)) :
    Outcome (m >>= f) s (fun _ s' => Apart s₀ s') fun _ s' => Apart s₀ s' :=
  h.bind fun a t ht => (hf a t).mono (fun _ _ => ht.trans) fun _ _ => ht.trans

/-- The connection is made. -/
def State.connected (s : State) (env : Env) (config : Config) : State :=
  s.noted (.sockConnect config.serverName)
    (some (env.answer s.log (.sockConnect config.serverName)))

theorem create_connects (s : State) : Outcome (create env config) s
    (fun _ s' => Apart (s.connected env config) s') fun _ s' => Apart (s.connected env config) s' := by
  unfold create
  refine outcome_bind.mpr (outcome_call.mpr ?_)
  refine outcome_bind.mpr (outcome_modify.mpr ?_)
  have hstart : Apart (s.connected env config)
      { s.connected env config with
        res := { s.res with sockfd := env.answer s.log (.sockConnect config.serverName) } } :=
    ⟨[], (List.append_nil _).symm, nofun⟩
  suffices haside : Aside _ from
    (haside _).mono (fun _ _ => hstart.trans) fun _ _ => hstart.trans
  repeat' with_reducible first
    | exact Aside.pure _
    | exact Aside.call rfl
    | exact Aside.assign _
    | exact Aside.findDevice
    | refine Aside.ite ?_ ?_
    | refine Aside.bind ?_ fun _ => ?_
    | split

theorem main_connects (env : Env) (config : Config) (s : State) : Outcome (main env config) s
    (fun _ s' => Apart (s.connected env config) s') fun _ s' => Apart (s.connected env config) s' := by
  unfold main work resourcesCreate
  refine outcome_bind.mpr (outcome_modify.mpr ?_)
  refine outcome_aside (outcome_aside (outcome_aside (create_connects _) fun _ => ?_) fun _ => ?_)
    fun _ => ?_
  · exact Aside.ite (Aside.bind Aside.cleanup fun _ => Aside.pure _) (Aside.pure _)
  · exact Aside.ite (Aside.pure _) Aside.session
  · exact Aside.bind Aside.resourcesDestroy fun _ => Aside.bind Aside.get fun _ =>
      Aside.ite (Aside.bind (Aside.call rfl) fun _ => Aside.pure _) (Aside.pure _)

/-- The log of a run. -/
theorem main_log (env : Env) (config : Config) (devName : Option String) :
    ∃ u, (main env config (State.start devName)).2.log =
        (.sockConnect config.serverName, some (env.answer [] (.sockConnect config.serverName))) :: u ∧
      ∀ x ∈ u, x.1.isSockConnect = false := by
  have hmain := main_connects env config (State.start devName)
  rcases hrun : main env config (State.start devName) with ⟨e | rc, s⟩
  · exact (outcome_of_error hrun).mp hmain
  · exact (outcome_of_ok hrun).mp hmain

/-! ### What is closed -/

/-- The descriptors that are closed by `main` itself. -/
def closed (u : Log) : List Int := u.filterMap fun x =>
  match x with
  | (.close fd, some _) => some fd
  | _ => none

variable {calls : SocketCalls} {u : Log} {fd : Int}

theorem descriptors_apart (h : ∀ x ∈ u, x.1.isSockConnect = false) :
    descriptors calls u = (closed u).map .give := by
  rw [descriptors, closed, List.map_filterMap, List.filterMap_eq_flatMap_toList]
  refine List.flatMap_congr fun x hx => ?_
  obtain ⟨c, r⟩ := x
  have hc : c.isSockConnect = false := h _ hx
  cases c with
  | sockConnect servername => exact absurd hc.symm Bool.false_ne_true
  | close fd => cases r <;> rfl
  | _ => rfl

theorem take_not_mem_ledger (h : ∀ x ∈ u, x.1.isSockConnect = false) :
    .take ⟨.sockfd, fd⟩ ∉ ledger u := by
  intro hmem
  obtain ⟨⟨c, r⟩, hx, hentry⟩ := List.mem_filterMap.mp hmem
  have hc : c.isSockConnect = false := h _ hx
  obtain ⟨r, -, hentry⟩ := Option.bind_eq_some_iff.mp hentry
  cases c with
  | sockConnect servername => exact absurd hc.symm Bool.false_ne_true
  | _ => simp [Call.entry, taken] at hentry

theorem count_give_ledger (u : Log) (fd : Int) :
    (ledger u).count (.give ⟨.sockfd, fd⟩) = (closed u).count fd := by
  rw [ledger, closed, List.count_filterMap, List.count_filterMap]
  refine List.countP_congr fun x _ => ?_
  obtain ⟨c, r⟩ := x
  cases r with
  | none => cases c <;> simp
  | some r => cases c <;> simp [Call.entry, taken]

/-- The descriptor that `sock_connect` has returned. -/
def returned (r : Int) : List Int := if 0 ≤ r then [r] else []

/-- `main` closes it, and nothing else. -/
theorem closed_eq {servername : Option String} {r : Int} (hu : ∀ x ∈ u, x.1.isSockConnect = false)
    (h : Balanced Item.needs (ledger ((.sockConnect servername, some r) :: u))) :
    closed u = returned r := by
  have hledger : ledger ((.sockConnect servername, some r) :: u) =
      (taken .sockfd r).toList ++ ledger u := by
    rw [← List.singleton_append, ledger, List.filterMap_append]
    cases htaken : taken .sockfd r <;> simp [ledger, Call.entry, htaken]
  have hcount (fd : Int) : (closed u).count fd = (returned r).count fd := by
    have hcount := h.count_take ⟨.sockfd, fd⟩
    rw [hledger, List.count_append, List.count_append,
      List.count_eq_zero_of_not_mem (take_not_mem_ledger hu), count_give_ledger] at hcount
    unfold returned
    by_cases hr : 0 ≤ r
    · have htaken : taken .sockfd r = some (.take ⟨.sockfd, r⟩) :=
        if_neg (by simpa [Kind.isNull] using hr)
      rw [htaken] at hcount
      rw [if_pos hr]
      simpa [List.count_singleton] using hcount.symm
    · have htaken : taken .sockfd r = none := if_pos (by simpa [Kind.isNull] using hr)
      rw [htaken] at hcount
      rw [if_neg hr]
      simpa using hcount.symm
  have hperm : (closed u).Perm (returned r) := List.perm_iff_count.mpr hcount
  unfold returned at hperm ⊢
  split
  · case isTrue hr => exact List.perm_singleton.mp (by rwa [if_pos hr] at hperm)
  · case isFalse hr => exact List.perm_nil.mp (by rwa [if_neg hr] at hperm)

/-- What is open behind `sock_connect`, if it returns `r`. -/
def Opened (calls : SocketCalls) (servername : Option String) (r : Int) (t : List (Entry Int)) : Prop :=
  Keeps (fun _ _ => False) t
    (returned r ++ if calls.Listens servername then [calls.socket] else [])

theorem sockConnect_opens {servername : Option String} (hdoc : calls.Documented) :
    Outcome (sockConnect calls servername) [] (Opened calls servername) fun _ _ => True := by
  have htake : Keeps (fun _ _ => False) [.take calls.socket] [calls.socket] := Keeps.nil.take
  have hgive : Keeps (fun _ _ => False) [.take calls.socket, .give calls.socket] [] := by
    simpa using htake.give (i := calls.socket) (by simp) (by simp)
  have hfailed (h : ¬ calls.Listens servername) :
      Opened calls servername (-1) [.take calls.socket, .give calls.socket] := by
    rw [Opened, if_neg h]
    exact hgive
  unfold sockConnect
  dsimp only
  split
  · exact outcome_bind.mpr (outcome_throw.mpr trivial)
  case isFalse hs =>
  have hpos : 0 ≤ calls.socket := hdoc.resolve_left hs
  refine outcome_bind.mpr (outcome_modify.mpr ?_)
  split
  · case isTrue hname =>
      have hclient : ¬ calls.Listens servername := fun hlistens => by
        rw [hlistens.1] at hname
        exact Bool.false_ne_true hname
      split
      · exact outcome_bind.mpr (outcome_modify.mpr (outcome_pure.mpr (hfailed hclient)))
      · refine outcome_pure.mpr ?_
        rw [Opened, if_neg hclient, returned, if_pos hpos]
        exact htake
  case isFalse hname =>
  have hnone : servername = none := by simpa using hname
  split
  · case isTrue hbind =>
      exact outcome_bind.mpr (outcome_modify.mpr (outcome_pure.mpr
        (hfailed fun hlistens => absurd hlistens.2 (Int.not_le.mpr hbind))))
  case isFalse hbind =>
  have hlistens : calls.Listens servername := ⟨hnone, Int.not_lt.mp hbind⟩
  split
  · case isTrue haccept =>
      refine outcome_bind.mpr (outcome_modify.mpr (outcome_pure.mpr ?_))
      rw [Opened, if_pos hlistens, returned, if_pos haccept]
      exact htake.take
  · case isFalse haccept =>
      refine outcome_pure.mpr ?_
      rw [Opened, if_pos hlistens, returned, if_neg haccept]
      exact htake

/-- **Which descriptors are closed**: each that `sock_connect` has opened, once, but for the socket on
which a server has listened. -/
theorem descriptors_kept (devName : Option String) (hdoc : calls.Documented)
    (hsock : env.Sockets calls) (hall : Answered (main env config (State.start devName)).2.log) :
    Keeps (fun _ _ => False) (descriptors calls (main env config (State.start devName)).2.log)
      (if calls.Listens config.serverName then [calls.socket] else []) := by
  have hbalanced : Balanced Item.needs (ledger (main env config (State.start devName)).2.log) := by
    have hmain : Outcome (main env config) (State.start devName)
      (fun _ s' => Holding s'.log []) Leaks := main_outcome devName
    rcases hrun : main env config (State.start devName) with ⟨e | rc, s⟩
    · obtain ⟨l, -, h⟩ := (outcome_of_error hrun).mp hmain
      rw [hrun] at hall
      exact absurd hall h.unanswered
    · exact ((outcome_of_ok hrun).mp hmain).keeps
  obtain ⟨u, hlog, hu⟩ := main_log env config devName
  rw [hlog] at hbalanced ⊢
  have hr := hsock [] config.serverName
  generalize env.answer [] (.sockConnect config.serverName) = r at hbalanced hr ⊢
  have hopened : Opened calls config.serverName r (sockConnect calls config.serverName []).2 :=
    (outcome_of_ok (Prod.ext hr rfl)).mp (sockConnect_opens hdoc)
  have hsplit : descriptors calls ((.sockConnect config.serverName, some r) :: u) =
      (sockConnect calls config.serverName []).2 ++ (returned r).map .give := by
    rw [← closed_eq hu hbalanced, ← descriptors_apart hu]
    rfl
  rw [hsplit]
  unfold Opened returned at hopened
  unfold returned
  by_cases hpos : 0 ≤ r
  · rw [if_pos hpos] at hopened ⊢
    have hgive := hopened.give (i := r) (by simp) (by simp)
    rwa [List.singleton_append, List.erase_cons_head] at hgive
  · rw [if_neg hpos] at hopened ⊢
    simpa using hopened

/-- A server that finds no devices. -/
def noDevices : Env where
  answer _ c :=
    match c with
    | .sockConnect none => 4
    | .sockConnect (some _) => 3
    | _ => 0
  syncData _ := none
  names := []

/-- Socket 3 is still open. -/
theorem descriptors_kept_listening :
    Keeps (fun _ _ => False) (descriptors ⟨3, 0, 0, 4⟩ (main noDevices ⟨none, -1⟩ (State.start none)).2.log)
      [3] :=
  descriptors_kept none (.inr (by decide)) (fun t servername => by cases servername <;> rfl)
    (by unfold Answered; decide)

end Codelib.Ibtest.Rc
