import Codelib.Core.Ledger
import Codelib.Ibtest.Rc

/-!
# Codelib.Ibtest.Release

**What `main` obtains and releases** (`main_released_iff`). The calls of a run are a
`Ledger`: at every point what is held is what the fields of `struct resources` point to,
`Resources.held`, in the order in which it is released.

The one thing that is not looked at is the name of a device: if `strdup` or
`ibv_get_device_name` returns a null pointer, `strcmp` reads it, and the socket and the
device list are held for good. So is everything when an exchange does not come back.
-/

namespace Codelib.Ibtest.Rc

open Abrupt Ledger

/-! ### The ledger of a run -/

inductive Kind
  | devList
  | ibCtx
  | pd
  | cq
  | buf
  | mr
  | qp
  | sockfd
  deriving Repr, DecidableEq

/-- A resource is what it is and where it is. -/
structure Item where
  kind : Kind
  loc : Int
  deriving Repr, DecidableEq

/-- What marks a resource that is not there. -/
def Kind.isNull (k : Kind) (p : Int) : Bool := if k = .sockfd then p < 0 else p = 0

/-- What the result of an obtaining call adds to the ledger. -/
def taken (k : Kind) (p : Int) : Option (Entry Item) :=
  if k.isNull p then none else some (.take ⟨k, p⟩)

def Call.entry : Call → Int → Option (Entry Item)
  | .sockConnect _, fd => taken .sockfd fd
  | .getDeviceList, p => taken .devList p
  | .openDevice _, p => taken .ibCtx p
  | .allocPd _, p => taken .pd p
  | .createCq _, p => taken .cq p
  | .malloc, p => taken .buf p
  | .regMr _ _, p => taken .mr p
  | .createQp _ _, p => taken .qp p
  | .destroyQp p, _ => some (.give ⟨.qp, p⟩)
  | .deregMr p, _ => some (.give ⟨.mr, p⟩)
  | .free p, _ => some (.give ⟨.buf, p⟩)
  | .destroyCq p, _ => some (.give ⟨.cq, p⟩)
  | .deallocPd p, _ => some (.give ⟨.pd, p⟩)
  | .closeDevice p, _ => some (.give ⟨.ibCtx, p⟩)
  | .freeDeviceList p, _ => some (.give ⟨.devList, p⟩)
  | .close fd, _ => some (.give ⟨.sockfd, fd⟩)
  | _, _ => none

/-- What a run obtained and released. -/
def ledger (t : Log) : List (Entry Item) := t.filterMap fun x => x.2.bind x.1.entry

/-- The MR is deregistered before its buffer and its PD are released, the QP destroyed
before its CQ and its PD, and all of them before the device is closed. -/
def Kind.needs : Kind → Kind → Bool
  | .mr, .buf | .mr, .pd | .mr, .ibCtx => true
  | .qp, .cq | .qp, .pd | .qp, .ibCtx => true
  | .buf, .ibCtx | .cq, .ibCtx | .pd, .ibCtx => true
  | _, _ => false

def Item.needs (j i : Item) : Prop := j.kind.needs i.kind

/-- The results that go into `strcmp` without a check. -/
def Call.isName : Call → Bool
  | .getDeviceName _ | .strdup _ => true
  | _ => false

/-- Every call came back, and names with a pointer. -/
def Answered (t : Log) : Prop := ∀ x ∈ t, x.2 ≠ none ∧ (x.1.isName → x.2 ≠ some 0)

/-! ### What is held -/

variable {env : Env} {config : Config} {s : State} {t : Log} {l : List Item} {c : Call} {k : Kind}
  {r : Int}

/-- `l` is held, and everything so far was answered. -/
structure Holding (t : Log) (l : List Item) : Prop where
  keeps : Keeps Item.needs (ledger t) l
  answered : Answered t

/-- `l` is held, and something was not answered. -/
structure Owing (t : Log) (l : List Item) : Prop where
  keeps : Keeps Item.needs (ledger t) l
  unanswered : ¬ Answered t

/-- Breaking off with something held, for want of an answer. -/
def Leaks (_ : Break) (s : State) : Prop := ∃ l ≠ [], Owing s.log l

theorem ledger_concat (t : Log) (x : Call × Option Int) :
    ledger (t ++ [x]) = ledger t ++ (x.2.bind x.1.entry).toList := by
  rw [ledger, List.filterMap_append]
  cases h : x.2.bind x.1.entry <;> simp [ledger, h]

theorem ledger_concat_none {x : Call × Option Int} (h : x.2.bind x.1.entry = none) :
    ledger (t ++ [x]) = ledger t := by
  rw [ledger_concat, h, Option.toList_none, List.append_nil]

theorem answered_concat {x : Call × Option Int} :
    Answered (t ++ [x]) ↔ Answered t ∧ x.2 ≠ none ∧ (x.1.isName → x.2 ≠ some 0) := by
  rw [Answered, List.forall_mem_append, List.forall_mem_singleton, Answered]

theorem Answered.concat (h : Answered t) (hname : c.isName → r ≠ 0) :
    Answered (t ++ [(c, some r)]) :=
  answered_concat.mpr ⟨h, nofun, fun hc hr => hname hc (Option.some.inj hr)⟩

namespace Holding

theorem quiet (h : Holding t l) (hentry : c.entry r = none) (hname : c.isName → r ≠ 0) :
    Holding (t ++ [(c, some r)]) l := by
  refine ⟨?_, h.answered.concat hname⟩
  rw [ledger_concat_none (by exact hentry)]
  exact h.keeps

theorem take (h : Holding t l) (hentry : c.entry r = taken k r) (hnull : k.isNull r = false)
    (hname : c.isName = false) : Holding (t ++ [(c, some r)]) (⟨k, r⟩ :: l) := by
  refine ⟨?_, h.answered.concat (by simp [hname])⟩
  rw [ledger_concat, Option.bind_some, hentry, taken, hnull]
  exact h.keeps.take

theorem give {i : Item} (h : Holding t l) (hentry : c.entry r = some (.give i))
    (hname : c.isName = false) (hi : i ∈ l) (hfree : ∀ j ∈ l, ¬ Item.needs j i) :
    Holding (t ++ [(c, some r)]) (l.erase i) := by
  refine ⟨?_, h.answered.concat (by simp [hname])⟩
  rw [ledger_concat, Option.bind_some, hentry]
  exact h.keeps.give hi hfree

/-- A name is a null pointer. -/
theorem owing (h : Holding t l) (hentry : c.entry 0 = none) (hname : c.isName) :
    Owing (t ++ [(c, some 0)]) l := by
  refine ⟨?_, fun hall => (answered_concat.mp hall).2.2 hname rfl⟩
  rw [ledger_concat_none (by exact hentry)]
  exact h.keeps

/-- An exchange does not come back. -/
theorem stuck (h : Holding t l) : Owing (t ++ [(c, none)]) l := by
  refine ⟨?_, fun hall => (answered_concat.mp hall).2.1 rfl⟩
  rw [ledger_concat_none rfl]
  exact h.keeps

end Holding

theorem Owing.quiet (h : Owing t l) (hentry : c.entry r = none) : Owing (t ++ [(c, some r)]) l := by
  refine ⟨?_, fun hall => h.unanswered (answered_concat.mp hall).1⟩
  rw [ledger_concat_none (by exact hentry)]
  exact h.keeps

/-- The resources of the kinds `ks` that are there. -/
def present (ks : List Kind) (loc : Kind → Int) : List Item :=
  (ks.filter fun k => !k.isNull (loc k)).map fun k => ⟨k, loc k⟩

/-- The order in which resources are released. -/
def releaseOrder : List Kind := [.qp, .mr, .buf, .cq, .pd, .ibCtx, .devList, .sockfd]

/-- Where the resources are. -/
def Resources.loc (res : Resources) (devList : Int) : Kind → Int
  | .devList => devList
  | .ibCtx => res.ibCtx
  | .pd => res.pd
  | .cq => res.cq
  | .buf => res.buf
  | .mr => res.mr
  | .qp => res.qp
  | .sockfd => res.sockfd

/-- All that is there. -/
def Resources.held (res : Resources) (devList : Int) : List Item :=
  present releaseOrder (res.loc devList)

/-! ### Calls -/

section Calls

variable {Q : Int → State → Prop} {E : Break → State → Prop} {ks : List Kind} {loc : Kind → Int}

theorem outcome_call : Outcome (call env c) s Q E ↔
    Q (env.answer s.log c) (s.noted c (some (env.answer s.log c))) :=
  outcome_of_ok rfl

theorem present_cons_null (h : k.isNull (loc k)) : present (k :: ks) loc = present ks loc := by
  rw [present, List.filter_cons_of_neg (by simp [h]), present]

theorem present_cons (h : k.isNull (loc k) = false) :
    present (k :: ks) loc = ⟨k, loc k⟩ :: present ks loc := by
  rw [present, List.filter_cons_of_pos (by simp [h]), present, List.map_cons]

/-- What is held at `p`. -/
def item (k : Kind) (p : Int) : List Item := if k.isNull p then [] else [⟨k, p⟩]

theorem present_cons_append : present (k :: ks) loc = item k (loc k) ++ present ks loc := by
  unfold item
  cases h : k.isNull (loc k) with
  | true => exact present_cons_null h
  | false => exact present_cons h

/-- `held`, field by field. -/
theorem held_mk (ibCtx pd cq qp mr buf fd devList : Int) :
    (Resources.mk ibCtx pd cq qp mr buf fd).held devList =
      item .qp qp ++ (item .mr mr ++ (item .buf buf ++ (item .cq cq ++ (item .pd pd ++
        (item .ibCtx ibCtx ++ (item .devList devList ++ item .sockfd fd)))))) := by
  simp only [Resources.held, releaseOrder, present_cons_append, Resources.loc]
  simp [present]

/-- Release the first resource in the list. -/
theorem Holding.give_present (h : Holding t (present (k :: ks) loc))
    (hnull : k.isNull (loc k) = false) (hentry : c.entry r = some (.give ⟨k, loc k⟩))
    (hname : c.isName = false) (hfree : ∀ k' ∈ k :: ks, k'.needs k = false) :
    Holding (t ++ [(c, some r)]) (present ks loc) := by
  have hgive := h.give (i := ⟨k, loc k⟩) hentry hname (by simp [present_cons hnull]) fun j hj => ?_
  · rwa [present_cons hnull, List.erase_cons_head] at hgive
  · obtain ⟨k', hk', rfl⟩ := List.mem_map.mp hj
    simp [Item.needs, hfree k' (List.mem_filter.mp hk').1]

theorem giveBack_outcome {field : Resources → Int} {clear : Resources → Resources} {c : Int → Call}
    (k : Kind) (h : Holding s.log (present (k :: ks) loc)) (hfield : field s.res = loc k)
    (hclear : ∀ res, field res = 0 → clear res = res)
    (hentry : ∀ p r, (c p).entry r = some (.give ⟨k, p⟩)) (hname : ∀ p, (c p).isName = false)
    (hk : k ≠ .sockfd) (hfree : ∀ k' ∈ k :: ks, k'.needs k = false) :
    Outcome (giveBack env field clear c) s
      (fun _ s' => s'.res = clear s.res ∧ Holding s'.log (present ks loc)) E := by
  unfold giveBack
  refine outcome_bind.mpr (outcome_get.mpr ?_)
  dsimp only
  have hnull : k.isNull (field s.res) = decide (field s.res = 0) := if_neg hk
  by_cases hp : field s.res = 0
  · rw [if_neg (not_not.mpr hp)]
    refine outcome_pure.mpr ⟨(hclear _ hp).symm, ?_⟩
    rwa [present_cons_null (by rw [← hfield, hnull]; exact decide_eq_true hp)] at h
  · rw [if_pos hp]
    refine outcome_bind.mpr (outcome_call.mpr (outcome_modify.mpr ⟨rfl, ?_⟩))
    refine h.give_present (by rw [← hfield, hnull]; exact decide_eq_false hp) ?_ (hname _) hfree
    rw [hentry, hfield]

theorem destroyIf_outcome {held : Bool} {ret : Int} (k : Kind)
    (h : Holding s.log (present (k :: ks) loc)) (hheld : held = !k.isNull (loc k))
    (hentry : ∀ r, c.entry r = some (.give ⟨k, loc k⟩)) (hname : c.isName = false)
    (hfree : ∀ k' ∈ k :: ks, k'.needs k = false) :
    Outcome (destroyIf env held c ret) s
      (fun _ s' => s'.res = s.res ∧ Holding s'.log (present ks loc)) E := by
  unfold destroyIf
  cases hnull : k.isNull (loc k) with
  | true =>
      rw [if_neg (by simp [hheld, hnull])]
      rw [present_cons_null hnull] at h
      exact outcome_pure.mpr ⟨rfl, h⟩
  | false =>
      rw [if_pos (by simp [hheld, hnull])]
      have hgive := h.give_present hnull (hentry (env.answer s.log c)) hname hfree
      refine outcome_bind.mpr (outcome_call.mpr ?_)
      split
      · exact outcome_pure.mpr ⟨rfl, hgive⟩
      · exact outcome_pure.mpr ⟨rfl, hgive⟩

end Calls

/-! ### Taking down -/

section Cleanup

variable {ks : List Kind} {loc : Kind → Int} {E : Break → State → Prop}

theorem releaseIf_outcome {p : Int} {c : Int → Call} (k : Kind)
    (h : Holding s.log (present (k :: ks) loc)) (hloc : p = loc k)
    (hentry : ∀ p r, (c p).entry r = some (.give ⟨k, p⟩)) (hname : ∀ p, (c p).isName = false)
    (hk : k ≠ .sockfd) (hfree : ∀ k' ∈ k :: ks, k'.needs k = false) :
    Outcome (releaseIf env p c) s
      (fun _ s' => s'.res = s.res ∧ Holding s'.log (present ks loc)) E := by
  unfold releaseIf
  subst hloc
  have hnull : k.isNull (loc k) = decide (loc k = 0) := if_neg hk
  by_cases hp : loc k = 0
  · rw [if_neg (not_not.mpr hp)]
    rw [present_cons_null (hnull.trans (decide_eq_true hp))] at h
    exact outcome_pure.mpr ⟨rfl, h⟩
  · rw [if_pos hp]
    exact outcome_bind.mpr (outcome_call.mpr (outcome_pure.mpr
      ⟨rfl, h.give_present (hnull.trans (decide_eq_false hp)) (hentry _ _) (hname _) hfree⟩))

theorem closeSocket_outcome (h : Holding s.log (present [.sockfd] loc))
    (hloc : s.res.sockfd = loc .sockfd) :
    Outcome (closeSocket env) s (fun _ s' => s'.res.sockfd < 0 ∧
      s'.res = { s.res with sockfd := s'.res.sockfd } ∧ Holding s'.log []) E := by
  unfold closeSocket
  refine outcome_bind.mpr (outcome_get.mpr ?_)
  dsimp only
  by_cases hfd : 0 ≤ s.res.sockfd
  · rw [if_pos hfd]
    refine outcome_bind.mpr (outcome_call.mpr (outcome_modify.mpr
      ⟨show (-1 : Int) < 0 by decide, rfl, ?_⟩))
    rw [hloc] at hfd ⊢
    exact h.give_present (by exact decide_eq_false (Int.not_lt.mpr hfd)) rfl rfl (by decide)
  · rw [if_neg hfd]
    rw [hloc] at hfd
    rw [present_cons_null (by exact decide_eq_true (Int.not_le.mp hfd))] at h
    exact outcome_pure.mpr ⟨by rw [hloc]; exact Int.not_le.mp hfd, rfl, h⟩

end Cleanup

theorem cleanup_outcome {devList : Int} {E : Break → State → Prop}
    (h : Holding s.log (s.res.held devList)) :
    Outcome (cleanup env devList) s
      (fun _ s' => s'.res.held 0 = [] ∧ Holding s'.log []) E := by
  unfold cleanup
  refine (giveBack_outcome .qp h rfl (fun _ hp => by rw [← hp]) (fun _ _ => rfl) (fun _ => rfl)
    (by decide) (by decide)).bind ?_
  intro _ s₁ hex
  obtain ⟨hres₁, h₁⟩ := hex
  refine (giveBack_outcome .mr h₁ (by rw [hres₁]; rfl) (fun _ hp => by rw [← hp]) (fun _ _ => rfl)
    (fun _ => rfl) (by decide) (by decide)).bind ?_
  intro _ s₂ hex
  obtain ⟨hres₂, h₂⟩ := hex
  rw [hres₁] at hres₂
  refine (giveBack_outcome .buf h₂ (by rw [hres₂]; rfl) (fun _ hp => by rw [← hp]) (fun _ _ => rfl)
    (fun _ => rfl) (by decide) (by decide)).bind ?_
  intro _ s₃ hex
  obtain ⟨hres₃, h₃⟩ := hex
  rw [hres₂] at hres₃
  refine (giveBack_outcome .cq h₃ (by rw [hres₃]; rfl) (fun _ hp => by rw [← hp]) (fun _ _ => rfl)
    (fun _ => rfl) (by decide) (by decide)).bind ?_
  intro _ s₄ hex
  obtain ⟨hres₄, h₄⟩ := hex
  rw [hres₃] at hres₄
  refine (giveBack_outcome .pd h₄ (by rw [hres₄]; rfl) (fun _ hp => by rw [← hp]) (fun _ _ => rfl)
    (fun _ => rfl) (by decide) (by decide)).bind ?_
  intro _ s₅ hex
  obtain ⟨hres₅, h₅⟩ := hex
  rw [hres₄] at hres₅
  refine (giveBack_outcome .ibCtx h₅ (by rw [hres₅]; rfl) (fun _ hp => by rw [← hp])
    (fun _ _ => rfl) (fun _ => rfl) (by decide) (by decide)).bind ?_
  intro _ s₆ hex
  obtain ⟨hres₆, h₆⟩ := hex
  rw [hres₅] at hres₆
  refine (releaseIf_outcome .devList h₆ rfl (fun _ _ => rfl) (fun _ => rfl) (by decide)
    (by decide)).bind ?_
  intro _ s₇ hex
  obtain ⟨hres₇, h₇⟩ := hex
  rw [hres₆] at hres₇
  refine (closeSocket_outcome h₇ (by rw [hres₇]; rfl)).mono ?_ fun _ _ he => he
  intro _ s₈ hex
  obtain ⟨hfd, hres₈, h₈⟩ := hex
  refine ⟨?_, h₈⟩
  rw [hres₈, hres₇]
  simp [Resources.held, present, releaseOrder, Resources.loc, Kind.isNull, hfd]

theorem resourcesDestroy_outcome {E : Break → State → Prop} (h : Holding s.log (s.res.held 0)) :
    Outcome (resourcesDestroy env) s (fun _ s' => Holding s'.log []) E := by
  unfold resourcesDestroy
  refine outcome_bind.mpr (outcome_get.mpr ?_)
  dsimp only
  have hptr (k : Kind) (hk : k ≠ .sockfd) :
      decide (s.res.loc 0 k ≠ 0) = !k.isNull (s.res.loc 0 k) := by
    rw [Kind.isNull, if_neg hk, decide_not]
  refine (destroyIf_outcome .qp h (hptr .qp nofun) (fun _ => rfl) rfl (by decide)).bind ?_
  intro ret s₁ hp
  obtain ⟨-, h₁⟩ := hp
  refine (destroyIf_outcome .mr h₁ (hptr .mr nofun) (fun _ => rfl) rfl (by decide)).bind ?_
  intro ret s₂ hp
  obtain ⟨-, h₂⟩ := hp
  refine (releaseIf_outcome .buf h₂ rfl (fun _ _ => rfl) (fun _ => rfl) (by decide)
    (by decide)).bind ?_
  intro _ s₃ hp
  obtain ⟨-, h₃⟩ := hp
  refine (destroyIf_outcome .cq h₃ (hptr .cq nofun) (fun _ => rfl) rfl (by decide)).bind ?_
  intro ret s₄ hp
  obtain ⟨-, h₄⟩ := hp
  refine (destroyIf_outcome .pd h₄ (hptr .pd nofun) (fun _ => rfl) rfl (by decide)).bind ?_
  intro ret s₅ hp
  obtain ⟨-, h₅⟩ := hp
  refine (destroyIf_outcome .ibCtx h₅ (hptr .ibCtx nofun) (fun _ => rfl) rfl (by decide)).bind ?_
  intro ret s₆ hp
  obtain ⟨-, h₆⟩ := hp
  -- the device list has been released long ago
  rw [present_cons_null (by rfl)] at h₆
  have hfd : decide (0 ≤ s.res.sockfd) = !Kind.sockfd.isNull s.res.sockfd := by
    simp only [Kind.isNull, if_pos, ← decide_not, Int.not_lt]
  exact (destroyIf_outcome .sockfd h₆ hfd (fun _ => rfl) rfl (by decide)).mono
    (fun _ _ hs => hs.2) fun _ _ he => he

/-! ### Programs that only use what is held -/

/-- The program obtains and releases nothing, and goes on as long as it is answered. -/
def Quiet {α : Type} (m : M α) : Prop :=
  ∀ s l, Holding s.log l → l ≠ [] →
    Outcome m s (fun _ s' => s'.res = s.res ∧ Holding s'.log l) Leaks

namespace Quiet

variable {α β : Type} {m m' : M α} {f : α → M β}

theorem pure (a : α) : Quiet (pure a : M α) := fun _ _ h _ => outcome_pure.mpr ⟨rfl, h⟩

theorem bind (h : Quiet m) (hf : ∀ a, Quiet (f a)) : Quiet (m >>= f) := by
  intro s l hs hl
  refine (h s l hs hl).bind ?_
  intro a s₁ hp
  obtain ⟨hres, hs₁⟩ := hp
  rw [← hres]
  exact hf a s₁ l hs₁ hl

theorem ite {p : Prop} [Decidable p] (h : Quiet m) (h' : Quiet m') : Quiet (if p then m else m') := by
  split
  · exact h
  · exact h'

theorem call (hentry : ∀ r, c.entry r = none) (hname : c.isName = false) :
    Quiet (call env c) :=
  fun _ _ h _ => outcome_call.mpr ⟨rfl, h.quiet (hentry _) (by simp [hname])⟩

theorem sockSyncData {xferSize : Nat} : Quiet (sockSyncData env xferSize) := by
  intro s l h hl
  unfold Rc.sockSyncData
  refine outcome_bind.mpr (outcome_get.mpr (outcome_bind.mpr (outcome_modify.mpr ?_)))
  cases henv : env.syncData s.log with
  | some r => exact outcome_pure.mpr ⟨rfl, h.quiet rfl nofun⟩
  | none => exact outcome_throw.mpr ⟨l, hl, h.stuck⟩

theorem modifyQp {state : QpState} : Quiet (modifyQp env state) :=
  bind (call (fun _ => rfl) rfl) fun _ => ite (pure _) (pure _)

theorem postReceive : Quiet (postReceive env) := call (fun _ => rfl) rfl

theorem postSend {opcode : Opcode} : Quiet (postSend env opcode) := call (fun _ => rfl) rfl

theorem toRts : Quiet (toRts env) :=
  bind modifyQp fun _ => ite (pure _) (bind modifyQp fun _ => ite (pure _)
    (bind sockSyncData fun _ => ite (pure _) (pure _)))

theorem exchange : Quiet (exchange env config) :=
  bind sockSyncData fun _ => ite (pure _) (bind modifyQp fun _ => ite (pure _)
    (ite (bind postReceive fun _ => ite (pure _) toRts) toRts))

theorem connectQp : Quiet (connectQp env config) :=
  ite (bind (call (fun _ => rfl) rfl) fun _ => ite (pure _) exchange) exchange

theorem pollCompletion : Quiet (pollCompletion env) :=
  bind (call (fun _ => rfl) rfl) fun _ => ite (pure _)
    (bind (call (fun _ => rfl) rfl) fun _ => ite (pure _) (pure _))

theorem transfer {opcode : Opcode} : Quiet (transfer env opcode) :=
  bind (call (fun _ => rfl) rfl) fun _ => ite (pure _)
    (bind pollCompletion fun _ => ite (pure _) (pure _))

theorem session : Quiet (session env config) := by
  unfold Rc.session
  dsimp only
  repeat' with_reducible first
    | exact pure _
    | exact connectQp
    | exact postSend
    | exact pollCompletion
    | exact transfer
    | exact sockSyncData
    | refine ite ?_ ?_
    | refine bind ?_ fun _ => ?_

end Quiet

/-! ### Building up -/

theorem Quiet.readDeviceName {i : Nat} : Quiet (readDeviceName env i) := by
  intro s l h hl
  unfold Rc.readDeviceName
  refine outcome_bind.mpr (outcome_call.mpr ?_)
  split
  case isTrue hnull =>
    refine outcome_throw.mpr ⟨l, hl, ?_⟩
    rw [hnull]
    exact h.owing rfl rfl
  case isFalse hptr => exact outcome_pure.mpr ⟨rfl, h.quiet rfl fun _ => hptr⟩

/-- `defaultDevice` goes on without a copy of the name, too. -/
theorem defaultDevice_outcome {i : Nat} {name : String} (h : Holding s.log l) (hl : l ≠ []) :
    Outcome (defaultDevice env i name) s (fun _ s' => s'.res = s.res ∧
      (Holding s'.log l ∧ s'.devName ≠ none ∨ Owing s'.log l ∧ s'.devName = none)) Leaks := by
  unfold defaultDevice
  refine outcome_bind.mpr (outcome_get.mpr ?_)
  split
  case isFalse hsome => exact outcome_pure.mpr ⟨rfl, .inl ⟨h, hsome⟩⟩
  refine (Quiet.readDeviceName s l h hl).bind ?_
  intro _ s₁ hp
  obtain ⟨hres, h₁⟩ := hp
  refine outcome_bind.mpr (outcome_call.mpr (outcome_modify.mpr ⟨hres, ?_⟩))
  by_cases hnull : env.answer s₁.log (.strdup name) = 0
  · refine .inr ⟨?_, if_pos hnull⟩
    rw [hnull]
    exact h₁.owing rfl rfl
  · refine .inl ⟨h₁.quiet rfl fun _ => hnull, ?_⟩
    rw [if_neg hnull]
    exact Option.some_ne_none name

/-- A name that could not be copied is missed here. -/
theorem isDevice_outcome {i : Nat} {name : String} (hl : l ≠ [])
    (h : Holding s.log l ∧ s.devName ≠ none ∨ Owing s.log l ∧ s.devName = none) :
    Outcome (isDevice env i name) s (fun _ s' => s'.res = s.res ∧ Holding s'.log l) Leaks := by
  unfold isDevice Rc.readDeviceName
  refine outcome_bind.mpr (outcome_bind.mpr (outcome_call.mpr ?_))
  split
  case isTrue hnull =>
    refine outcome_throw.mpr ⟨l, hl, ?_⟩
    rw [hnull]
    exact h.elim (fun h => h.1.owing rfl rfl) fun h => h.1.quiet rfl
  case isFalse hptr =>
    refine outcome_pure.mpr (outcome_bind.mpr (outcome_get.mpr ?_))
    dsimp only [State.noted]
    rcases h with ⟨h, hsome⟩ | ⟨h, hnone⟩
    · obtain ⟨devName, hdev⟩ := Option.ne_none_iff_exists'.mp hsome
      rw [hdev]
      exact outcome_pure.mpr ⟨rfl, h.quiet rfl fun _ => hptr⟩
    · rw [hnone]
      exact outcome_throw.mpr ⟨l, hl, h.quiet rfl⟩

theorem Quiet.findDevice {i : Nat} {names : List String} : Quiet (findDevice env i names) := by
  intro s l h hl
  induction names generalizing s i with
  | nil => exact outcome_pure.mpr ⟨rfl, h⟩
  | cons name names ih =>
      unfold Rc.findDevice
      refine (defaultDevice_outcome h hl).bind ?_
      intro _ s₁ hp
      obtain ⟨hres₁, h₁⟩ := hp
      refine (isDevice_outcome hl h₁).bind ?_
      intro found s₂ hp
      obtain ⟨hres₂, h₂⟩ := hp
      rw [← hres₁, ← hres₂]
      split
      · exact outcome_pure.mpr ⟨rfl, h₂⟩
      · exact ih s₂ h₂

section Obtain

variable {α : Type} {Q : α → State → Prop} {E : Break → State → Prop}

/-- A call that may obtain something. -/
theorem obtain_outcome {f : Int → M α} (k : Kind) (h : Holding s.log l)
    (hentry : ∀ r, c.entry r = taken k r) (hname : c.isName = false)
    (hnone : ∀ p s', k.isNull p → s'.res = s.res → Holding s'.log l → Outcome (f p) s' Q E)
    (hsome : ∀ p s', k.isNull p = false → s'.res = s.res → Holding s'.log (⟨k, p⟩ :: l) →
      Outcome (f p) s' Q E) : Outcome (call env c >>= f) s Q E := by
  refine outcome_bind.mpr (outcome_call.mpr ?_)
  cases hnull : k.isNull (env.answer s.log c) with
  | true =>
      refine hnone _ _ hnull rfl (h.quiet ?_ (by simp [hname]))
      rw [hentry, taken, hnull, if_pos rfl]
  | false => exact hsome _ _ hnull rfl (h.take (hentry _) hnull hname)

/-- What is obtained is stored in its field, and a null pointer ends `create`. -/
theorem acquire_outcome {devList : Int} {set : Int → Resources → Resources}
    {rest : Int → M (Int × Int)} {Q : Int × Int → State → Prop} (k : Kind) (h : Holding s.log l)
    (hentry : ∀ r, c.entry r = taken k r) (hname : c.isName = false) (hk : k ≠ .sockfd)
    (hfail : ∀ s', s'.res = set 0 s.res → Holding s'.log l → Q (-1, devList) s')
    (hrest : ∀ p s', p ≠ 0 → s'.res = set p s.res → Holding s'.log (⟨k, p⟩ :: l) →
      Outcome (rest p) s' Q E) :
    Outcome (do
      let p ← call env c
      assign (set p)
      if p = 0 then
        return (-1, devList)
      else
        rest p) s Q E := by
  have hnull (p : Int) : k.isNull p = decide (p = 0) := if_neg hk
  refine obtain_outcome k h hentry hname (fun p s' hp hres hs => ?_) fun p s' hp hres hs => ?_
  · obtain rfl : p = 0 := by simpa [hnull] using hp
    refine outcome_bind.mpr (outcome_modify.mpr ?_)
    rw [if_pos rfl]
    exact outcome_pure.mpr (hfail _ (by rw [← hres]) hs)
  · have hp : p ≠ 0 := by simpa [hnull] using hp
    refine outcome_bind.mpr (outcome_modify.mpr ?_)
    rw [if_neg hp]
    exact hrest p _ hp (by rw [← hres]) hs

/-- The device list is released from among what is held. -/
theorem freeDeviceList_outcome {f : Int → M α} {ibCtx devList fd : Int}
    (h : Holding s.log [⟨.ibCtx, ibCtx⟩, ⟨.devList, devList⟩, ⟨.sockfd, fd⟩])
    (hf : ∀ r s', s'.res = s.res → Holding s'.log [⟨.ibCtx, ibCtx⟩, ⟨.sockfd, fd⟩] →
      Outcome (f r) s' Q E) :
    Outcome (call env (.freeDeviceList devList) >>= f) s Q E := by
  refine outcome_bind.mpr (outcome_call.mpr (hf _ _ rfl ?_))
  have hgive := h.give (c := .freeDeviceList devList) (r := env.answer s.log (.freeDeviceList devList))
    (i := ⟨.devList, devList⟩) rfl rfl (by simp) (by simp [Item.needs, Kind.needs])
  rwa [List.erase_cons_tail (by simp), List.erase_cons_head] at hgive

end Obtain

/-- `resources_create_exit` is reached with everything in its place. -/
def Created (x : Int × Int) (s : State) : Prop :=
  Holding s.log (s.res.held x.2) ∧ (x.1 = 0 → x.2 = 0 ∧ 0 ≤ s.res.sockfd)

theorem Created.failed {devList : Int} (h : Holding s.log l) (hl : s.res.held devList = l) :
    Created (-1, devList) s :=
  ⟨hl ▸ h, fun h0 => absurd h0 (show (-1 : Int) ≠ 0 by decide)⟩

theorem create_outcome (hres : s.res = ⟨0, 0, 0, 0, 0, 0, -1⟩) (h : Holding s.log []) :
    Outcome (create env config) s Created Leaks := by
  unfold create
  refine obtain_outcome .sockfd h (fun _ => rfl) rfl (fun fd s₁ hfd hres₁ h₁ => ?_)
    fun fd s₁ hfd hres₁ h₁ => outcome_bind.mpr (outcome_modify.mpr ?_)
  · have hneg : fd < 0 := by simpa [Kind.isNull] using hfd
    refine outcome_bind.mpr (outcome_modify.mpr ?_)
    rw [if_pos hneg]
    refine outcome_pure.mpr (.failed h₁ ?_)
    simp [hres₁, hres, held_mk, item, Kind.isNull, hneg]
  have hpos : ¬ fd < 0 := by simpa [Kind.isNull] using hfd
  rw [if_neg hpos]
  refine obtain_outcome .devList h₁ (fun _ => rfl) rfl (fun devList s₂ hlist hres₂ h₂ => ?_)
    fun devList s₂ hlist hres₂ h₂ => ?_
  · have hnull : devList = 0 := by simpa [Kind.isNull] using hlist
    rw [if_pos hnull]
    refine outcome_pure.mpr (.failed h₂ ?_)
    simp [hres₂, hres₁, hres, held_mk, item, Kind.isNull, hpos]
  have hlist : devList ≠ 0 := by simpa [Kind.isNull] using hlist
  rw [if_neg hlist]
  replace hres₂ : s₂.res = ⟨0, 0, 0, 0, 0, 0, fd⟩ := by rw [hres₂]; simp [hres₁, hres]
  have hheld₂ : s₂.res.held devList = [⟨.devList, devList⟩, ⟨.sockfd, fd⟩] := by
    simp [hres₂, held_mk, item, Kind.isNull, hpos, hlist]
  split
  · exact outcome_pure.mpr (.failed h₂ hheld₂)
  refine (Quiet.findDevice s₂ _ h₂ (List.cons_ne_nil _ _)).bind ?_
  rintro (_ | ibvDev) s₃ ⟨hres₃, h₃⟩
  · exact outcome_pure.mpr (.failed h₃ (by rw [hres₃, hheld₂]))
  rw [hres₂] at hres₃
  refine acquire_outcome .ibCtx h₃ (fun _ => rfl) rfl (by decide) (fun s₄ hres₄ h₄ => .failed h₄ ?_)
    fun ibCtx s₄ hctx hres₄ h₄ => ?_
  · rw [hres₄, hres₃, ← hheld₂, hres₂]
  rw [hres₃] at hres₄
  refine freeDeviceList_outcome h₄ fun _ s₅ hres₅ h₅ => ?_
  rw [hres₄] at hres₅
  refine (Quiet.call (fun _ => rfl) rfl s₅ _ h₅ (List.cons_ne_nil _ _)).bind ?_
  intro r s₅' hp
  obtain ⟨hres₅', h₅'⟩ := hp
  rw [hres₅] at hres₅'
  split
  · refine outcome_pure.mpr (.failed h₅' ?_)
    simp [hres₅', held_mk, item, Kind.isNull, hpos, hctx]
  refine acquire_outcome .pd h₅' (fun _ => rfl) rfl (by decide) (fun s₆ hres₆ h₆ => .failed h₆ ?_)
    fun pd s₆ hpd hres₆ h₆ => ?_
  · simp [hres₆, hres₅', held_mk, item, Kind.isNull, hpos, hctx]
  rw [hres₅'] at hres₆
  refine acquire_outcome .cq h₆ (fun _ => rfl) rfl (by decide) (fun s₇ hres₇ h₇ => .failed h₇ ?_)
    fun cq s₇ hcq hres₇ h₇ => ?_
  · simp [hres₇, hres₆, held_mk, item, Kind.isNull, hpos, hctx, hpd]
  rw [hres₆] at hres₇
  refine acquire_outcome .buf h₇ (fun _ => rfl) rfl (by decide) (fun s₈ hres₈ h₈ => .failed h₈ ?_)
    fun buf s₈ hbuf hres₈ h₈ => ?_
  · simp [hres₈, hres₇, held_mk, item, Kind.isNull, hpos, hctx, hpd, hcq]
  rw [hres₇] at hres₈
  refine acquire_outcome .mr h₈ (fun _ => rfl) rfl (by decide) (fun s₉ hres₉ h₉ => .failed h₉ ?_)
    fun mr s₉ hmr hres₉ h₉ => ?_
  · simp [hres₉, hres₈, held_mk, item, Kind.isNull, hpos, hctx, hpd, hcq, hbuf]
  rw [hres₈] at hres₉
  refine acquire_outcome .qp h₉ (fun _ => rfl) rfl (by decide) (fun s' hres' h' => .failed h' ?_)
    fun qp s' hqp hres' h' => ?_
  · simp [hres', hres₉, held_mk, item, Kind.isNull, hpos, hctx, hpd, hcq, hbuf, hmr]
  rw [hres₉] at hres'
  refine outcome_pure.mpr ⟨?_, fun _ => ⟨rfl, ?_⟩⟩
  · rw [hres', held_mk]
    simpa [item, Kind.isNull, hpos, hctx, hpd, hcq, hbuf, hmr, hqp] using h'
  · rw [hres']
    exact Int.not_lt.mp hpos

/-! ### The whole run -/

/-- Something is held while there is a connection. -/
theorem held_ne_nil {res : Resources} {devList : Int} (hfd : 0 ≤ res.sockfd) :
    res.held devList ≠ [] := by
  cases res
  rw [held_mk]
  simp [item, Kind.isNull, hfd]

theorem resourcesCreate_outcome (hres : s.res = ⟨0, 0, 0, 0, 0, 0, -1⟩) (h : Holding s.log []) :
    Outcome (resourcesCreate env config) s (fun ret s' => Holding s'.log (s'.res.held 0) ∧
      (ret = 0 → 0 ≤ s'.res.sockfd)) Leaks := by
  unfold resourcesCreate
  refine (create_outcome hres h).bind ?_
  intro result s₁ hp
  obtain ⟨ret, devList⟩ := result
  obtain ⟨h₁, hok⟩ := hp
  dsimp only at h₁ hok ⊢
  by_cases hret : ret = 0
  · obtain ⟨rfl, hfd⟩ := hok hret
    rw [if_neg (not_not.mpr hret)]
    exact outcome_pure.mpr ⟨h₁, fun _ => hfd⟩
  · rw [if_pos hret]
    refine (cleanup_outcome h₁).bind ?_
    intro _ s₂ hp
    obtain ⟨hheld, h₂⟩ := hp
    exact outcome_pure.mpr ⟨by rwa [hheld], fun h0 => absurd h0 hret⟩

theorem work_outcome (hres : s.res = ⟨0, 0, 0, 0, 0, 0, -1⟩) (h : Holding s.log []) :
    Outcome (work env config) s (fun _ s' => Holding s'.log (s'.res.held 0)) Leaks := by
  unfold work
  refine (resourcesCreate_outcome hres h).bind ?_
  intro ret s₁ hp
  obtain ⟨h₁, hfd⟩ := hp
  split
  case isTrue => exact outcome_pure.mpr h₁
  case isFalse hret =>
    refine (Quiet.session s₁ _ h₁ (held_ne_nil (hfd (not_not.mp hret)))).mono ?_ fun _ _ he => he
    intro _ s₂ hp
    obtain ⟨hres₂, h₂⟩ := hp
    rwa [hres₂]

theorem main_outcome (devName : Option String) :
    Outcome (main env config) (State.start devName) (fun _ s' => Holding s'.log []) Leaks := by
  unfold main
  refine outcome_bind.mpr (outcome_modify.mpr ?_)
  have hstart : Holding [] [] := ⟨.nil, nofun⟩
  refine (work_outcome rfl hstart).bind fun rc s₁ h₁ => ?_
  refine (resourcesDestroy_outcome h₁).bind fun ret s₂ h₂ => ?_
  refine outcome_bind.mpr (outcome_get.mpr ?_)
  dsimp only
  split
  · exact outcome_bind.mpr (outcome_call.mpr (outcome_pure.mpr (h₂.quiet rfl nofun)))
  · exact outcome_pure.mpr h₂

/-- **What `main` obtains is released once and in order** if and only if every name that is
read is there, and every exchange comes back. -/
theorem main_released_iff (env : Env) (config : Config) (devName : Option String) :
    Balanced Item.needs (ledger (main env config (State.start devName)).2.log) ↔
      Answered (main env config (State.start devName)).2.log := by
  have hmain : Outcome (main env config) (State.start devName)
    (fun _ s' => Holding s'.log []) Leaks := main_outcome devName
  rcases hrun : main env config (State.start devName) with ⟨e | rc, s⟩
  · obtain ⟨l, hl, h⟩ := (outcome_of_error hrun).mp hmain
    exact iff_of_false (h.keeps.not_balanced hl) h.unanswered
  · have h := (outcome_of_ok hrun).mp hmain
    exact iff_of_true h.keeps h.answered

/-- There is no memory for a copy of the name. -/
def noCopy : Env where
  answer _ c :=
    match c with
    | .strdup _ => 0
    | _ => 4096
  syncData _ := some 0
  names := ["mlx5_0"]

/-- The connection and the device list are never released. -/
theorem main_leaks :
    ¬ ∀ env config devName, (∀ t, env.syncData t ≠ none) →
      Balanced Item.needs (ledger (main env config (State.start devName)).2.log) := by
  intro hall
  have hheld := (hall noCopy ⟨none, -1⟩ none nofun).held
  exact absurd hheld (by decide)

end Codelib.Ibtest.Rc
