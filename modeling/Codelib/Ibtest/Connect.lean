import Codelib.Ibtest.Hangup
import Codelib.Ibtest.Rc

/-!
# Codelib.Ibtest.Connect

**What a 0 from `connect_qp` says** (`connectQp_reports_iff`). The verbs answer with an
`errno` value, and those are positive: `modify_qp_to_init` and its siblings look for a
result below zero, and what `post_receive` returns is compared with -1 and then
overwritten. So a failure of a verb goes by, unless an exchange fails as well.
-/

namespace Codelib.Ibtest.Rc

open Abrupt

/-! ### The calls of a run -/

/-- `ibv_modify_qp` and `ibv_post_recv`. -/
def Call.isVerb : Call → Bool
  | .modifyQp _ | .postRecv => true
  | _ => false

def Call.isSync : Call → Bool
  | .sockSyncData _ => true
  | _ => false

/-- The results are documented ones. -/
structure Documented (env : Env) : Prop where
  verb : ∀ t c, c.isVerb → 0 ≤ env.answer t c
  sync : ∀ t r, env.syncData t = some r → ∃ xferSize nbytesWrite reads k,
    control xferSize nbytesWrite reads k = .returned r

/-- What connects the queue pair. -/
def steps (config : Config) : List Call :=
  [.sockSyncData sizeofCmConData, .modifyQp .init] ++
    (if config.serverName.isSome then [.postRecv] else []) ++
      [.modifyQp .rtr, .modifyQp .rts, .sockSyncData 1]

/-- The calls between `s` and `s'`. -/
def calls (s s' : State) : Log := s'.log.drop s.log.length

/-- Each step was made and succeeded, in this order, and nothing else was done. -/
def Connected (config : Config) (t : Log) : Prop :=
  t.filter (fun x => x.1 ≠ .queryGid) = (steps config).map fun c => (c, some 0)

/-- A failure that `connect_qp` looks for. -/
def Noticed (x : Call × Option Int) : Prop :=
  x.1 = .queryGid ∧ x.2 = some (-1) ∨ x.1.isSync ∧ x.2 ≠ some 0

/-- A verb has failed. -/
def Failed (x : Call × Option Int) : Prop := x.1.isVerb ∧ x.2 ≠ some 0

/-! ### Running -/

variable {env : Env} {config : Config} {s s₀ : State} {t g : Log} {ret : Int}

theorem calls_eq (h : s.log = s₀.log ++ t) : calls s₀ s = t := by
  rw [calls, h, List.drop_left]

/-- What is shown of every run. -/
def Judged (config : Config) (s₀ : State) (ret : Int) (s : State) : Prop :=
  (ret = 0 → Connected config (calls s₀ s)) ↔
    ((∃ x ∈ calls s₀ s, Failed x) → ∃ x ∈ calls s₀ s, Noticed x)

theorem Judged.of_noticed {x : Call × Option Int} (h : s.log = s₀.log ++ t) (hx : x ∈ t)
    (hnoticed : Noticed x) : Judged config s₀ (-1) s :=
  iff_of_true (fun h0 => absurd h0 (by decide)) fun _ => ⟨x, by rwa [calls_eq h], hnoticed⟩

/-- The calls before the state is changed to RTR; the GID was queried in `g`. -/
def begun (config : Config) (g : Log) (r₁ r₂ : Int) : Log :=
  g ++ [(.sockSyncData sizeofCmConData, some 0), (.modifyQp .init, some r₁)] ++
    if config.serverName.isSome then [(.postRecv, some r₂)] else []

/-- All the calls of a run that returns 0. -/
def made (config : Config) (g : Log) (r₁ r₂ r₃ r₄ : Int) : Log :=
  begun config g r₁ r₂ ++
    [(.modifyQp .rtr, some r₃), (.modifyQp .rts, some r₄), (.sockSyncData 1, some 0)]

theorem exists_mem_append_right {u : Log} {P : Call × Option Int → Prop} (h : ∀ x ∈ g, ¬ P x) :
    (∃ x ∈ g ++ u, P x) ↔ ∃ x ∈ u, P x := by
  constructor
  · intro hex
    obtain ⟨x, hx, hp⟩ := hex
    exact ⟨x, (List.mem_append.mp hx).resolve_left fun hg => h x hg hp, hp⟩
  · intro hex
    obtain ⟨x, hx, hp⟩ := hex
    exact ⟨x, List.mem_append_right g hx, hp⟩

/-- Nothing is noticed in such a run, so it is what it seems if no verb has failed. -/
theorem connected_made_iff {r₁ r₂ r₃ r₄ : Int}
    (hg : ∀ x ∈ g, x.1 = .queryGid ∧ x.2 ≠ some (-1)) :
    Connected config (made config g r₁ r₂ r₃ r₄) ↔
      ((∃ x ∈ made config g r₁ r₂ r₃ r₄, Failed x) →
        ∃ x ∈ made config g r₁ r₂ r₃ r₄, Noticed x) := by
  have hfilter : g.filter (fun x => x.1 ≠ .queryGid) = [] :=
    List.filter_eq_nil_iff.mpr fun x hx => by simp [(hg x hx).1]
  have hnot : ∀ x ∈ g, ¬ Failed x ∧ ¬ Noticed x := by
    intro x hx
    obtain ⟨hgid, hr⟩ := hg x hx
    simp [Failed, Noticed, Call.isVerb, Call.isSync, hgid, hr]
  rw [made, begun, List.append_assoc, List.append_assoc,
    exists_mem_append_right fun x hx => (hnot x hx).1,
    exists_mem_append_right fun x hx => (hnot x hx).2, Connected, List.filter_append, hfilter, steps]
  by_cases hclient : config.serverName.isSome
  · simp [hclient, Failed, Noticed, Call.isVerb, Call.isSync]
  · simp [hclient, Failed, Noticed, Call.isVerb, Call.isSync]

theorem sockSyncData_outcome {xferSize : Nat} {Q : Int → State → Prop} {E : Break → State → Prop}
    (hd : Documented env)
    (hq : ∀ r s', (r = 0 ∨ r = -1) → s'.log = s.log ++ [(.sockSyncData xferSize, some r)] → Q r s')
    (hstuck : ∀ s', E .stuck s') : Outcome (sockSyncData env xferSize) s Q E := by
  unfold sockSyncData
  refine outcome_bind.mpr (outcome_get.mpr (outcome_bind.mpr (outcome_modify.mpr ?_)))
  cases henv : env.syncData s.log with
  | none => exact outcome_throw.mpr (hstuck _)
  | some r =>
      obtain ⟨_, _, _, _, hr⟩ := hd.sync _ _ henv
      exact outcome_pure.mpr (hq r _ (control_returned hr) rfl)

/-- Whatever the verb returns, the change of state is taken for a success. -/
theorem modifyQp_outcome {state : QpState} {Q : Int → State → Prop} {E : Break → State → Prop}
    (hd : Documented env)
    (hq : ∀ r s', s'.log = s.log ++ [(.modifyQp state, some r)] → Q 0 s') :
    Outcome (modifyQp env state) s Q E := by
  have hr : ¬ env.answer s.log (.modifyQp state) < 0 := Int.not_lt.mpr (hd.verb _ _ rfl)
  unfold modifyQp
  refine outcome_bind.mpr ((outcome_of_ok rfl).mpr ?_)
  rw [if_neg hr]
  exact outcome_pure.mpr (hq _ _ rfl)

/-! ### `connect_qp` -/

/-- No run that does not come back is judged. -/
def Whatever (_ : Break) (_ : State) : Prop := True

theorem toRts_outcome (r₁ r₂ : Int) (hd : Documented env)
    (hg : ∀ x ∈ g, x.1 = .queryGid ∧ x.2 ≠ some (-1))
    (hlog : s.log = s₀.log ++ begun config g r₁ r₂) :
    Outcome (toRts env) s (Judged config s₀) Whatever := by
  unfold toRts
  refine outcome_bind.mpr (modifyQp_outcome hd fun r₃ s₁ hlog₁ => ?_)
  rw [if_neg (by decide)]
  refine outcome_bind.mpr (modifyQp_outcome hd fun r₄ s₂ hlog₂ => ?_)
  rw [if_neg (by decide)]
  refine outcome_bind.mpr (sockSyncData_outcome hd (fun r₅ s₃ hr hlog₃ => ?_) fun _ => trivial)
  rw [hlog₂, hlog₁, hlog, List.append_assoc, List.append_assoc, List.append_assoc] at hlog₃
  rcases hr with rfl | rfl
  · rw [if_neg (by decide)]
    refine outcome_pure.mpr ?_
    rw [Judged, calls_eq hlog₃]
    exact (forall_prop_of_true rfl).trans (connected_made_iff hg)
  · rw [if_pos (by decide)]
    exact outcome_pure.mpr (.of_noticed (x := (.sockSyncData 1, some (-1))) hlog₃ (by simp)
      (.inr ⟨rfl, by decide⟩))

theorem exchange_outcome (hd : Documented env) (hg : ∀ x ∈ g, x.1 = .queryGid ∧ x.2 ≠ some (-1))
    (hlog : s.log = s₀.log ++ g) :
    Outcome (exchange env config) s (Judged config s₀) Whatever := by
  unfold exchange
  refine outcome_bind.mpr (sockSyncData_outcome hd (fun r s₁ hr hlog₁ => ?_) fun _ => trivial)
  rw [hlog, List.append_assoc] at hlog₁
  rcases hr with rfl | rfl
  case inr =>
    rw [if_pos rfl]
    exact outcome_pure.mpr (.of_noticed (x := (.sockSyncData sizeofCmConData, some (-1))) hlog₁
      (by simp) (.inr ⟨rfl, by decide⟩))
  rw [if_neg (by decide)]
  refine outcome_bind.mpr (modifyQp_outcome hd fun r₁ s₂ hlog₂ => ?_)
  rw [if_neg (by decide)]
  rw [hlog₁, List.append_assoc, List.append_assoc] at hlog₂
  by_cases hclient : config.serverName.isSome
  · rw [if_pos hclient]
    refine outcome_bind.mpr ((outcome_of_ok rfl).mpr ?_)
    have hr : ¬ env.answer s₂.log .postRecv = -1 := by
      have := hd.verb s₂.log .postRecv rfl
      omega
    rw [if_neg hr]
    refine toRts_outcome r₁ (env.answer s₂.log .postRecv) hd hg ?_
    show s₂.log ++ [_] = _
    rw [begun, if_pos hclient, hlog₂]
    simp
  · rw [if_neg hclient]
    refine toRts_outcome r₁ 0 hd hg ?_
    rw [begun, if_neg hclient, hlog₂]
    simp

theorem connectQp_outcome (hd : Documented env) :
    Outcome (connectQp env config) s (Judged config s) Whatever := by
  unfold connectQp
  dsimp only
  by_cases hgid : 0 ≤ config.gidIdx
  · rw [if_pos hgid]
    refine outcome_bind.mpr ((outcome_of_ok rfl).mpr ?_)
    by_cases hr : env.answer s.log .queryGid = -1
    · rw [if_pos hr]
      refine outcome_pure.mpr ?_
      rw [hr]
      exact .of_noticed (x := (.queryGid, some (-1))) rfl (by simp) (.inl ⟨rfl, rfl⟩)
    · rw [if_neg hr]
      refine exchange_outcome hd (g := [(.queryGid, some (env.answer s.log .queryGid))]) ?_ rfl
      simpa using hr
  · rw [if_neg hgid]
    exact exchange_outcome hd (g := []) nofun (List.append_nil _).symm

/-- **When a 0 from `connect_qp` says that the queue pair is connected**: no verb has
failed, or a failure that is noticed hides that one has. -/
theorem connectQp_reports_iff (hd : Documented env) :
    (∀ ret s', connectQp env config s = (.ok ret, s') → ret = 0 → Connected config (calls s s')) ↔
      ∀ ret s', connectQp env config s = (.ok ret, s') →
        (∃ x ∈ calls s s', Failed x) → ∃ x ∈ calls s s', Noticed x := by
  have houtcome : Outcome (connectQp env config) s (Judged config s) Whatever :=
    connectQp_outcome hd
  exact forall₂_congr fun ret s' => forall_congr' fun hrun => houtcome.1 ret s' hrun

/-- Every verb returns `err`, and every exchange succeeds. -/
def verbsReturn (err : Int) : Env where
  answer _ c := if c.isVerb then err else 0
  syncData _ := some 0
  names := []

theorem documented_verbsReturn {err : Int} (h : 0 ≤ err) : Documented (verbsReturn err) where
  verb _ _ hc := h.trans_eq (if_pos hc).symm
  sync _ r hr := ⟨1, 1, fun _ => 1, 1, by rw [← Option.some.inj hr]; rfl⟩

/-- A client with working hardware. -/
theorem connectQp_reports_client :
    Documented (verbsReturn 0) ∧
      ∀ ret s', connectQp (verbsReturn 0) ⟨some "server", -1⟩ (State.start none) = (.ok ret, s') →
        ret = 0 → Connected ⟨some "server", -1⟩ (calls (State.start none) s') := by
  refine ⟨documented_verbsReturn (Int.le_refl 0),
    (connectQp_reports_iff (documented_verbsReturn (Int.le_refl 0))).mpr ?_⟩
  intro ret s' hrun h
  obtain ⟨x, hx, -, hne⟩ := h
  have hzero : ∀ x ∈ (connectQp (verbsReturn 0) ⟨some "server", -1⟩ (State.start none)).2.log,
      x.2 = some 0 := by decide
  rw [hrun] at hzero
  exact absurd (hzero x (List.mem_of_mem_drop hx)) hne

/-- `EINVAL` from every verb. -/
theorem connectQp_misses_errno :
    ¬ ∀ env config s ret s', Documented env → connectQp env config s = (.ok ret, s') →
      ret = 0 → Connected config (calls s s') := by
  intro hall
  have hconnected := hall (verbsReturn 22) ⟨none, -1⟩ (State.start none) 0 _
    (documented_verbsReturn (by decide)) rfl rfl
  exact absurd hconnected (by unfold Connected; decide)

end Codelib.Ibtest.Rc
