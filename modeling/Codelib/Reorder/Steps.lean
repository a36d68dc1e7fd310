import Codelib.Reorder.Program

/-!
# Codelib.Reorder.Steps

What a step of the three threads can do: `Issue` lists the instructions, each with
the state it leads to. A store is described by `Stored`, which both memory models
satisfy, so that everything below this file is proved for both at once.
-/

namespace Codelib.Reorder

open StoreBuffer StoreBuffer.State

def Routine.other : Routine → Routine
  | one => two
  | two => one

/-- The variable the routine stores to; it reads that of the other one. -/
def Routine.own : Routine → Var
  | one => .X
  | two => .Y

/-- The variable the routine leaves its result in. -/
def Routine.res : Routine → Var
  | one => .r1
  | two => .r2

theorem program_routine (useCpuFence : Bool) (r : Routine) :
    program useCpuFence (.routine r) = threadRoutine useCpuFence r.own r.other.own r.res := by
  cases r <;> rfl

/-- Where a thread goes on behind the barrier `start`. -/
def afterStart : Thread → Local → Local
  | .main, l => { l with pc := .arriveEnd }
  | .routine _, l => { l with pc := .storeOwn }

/-- Where a thread goes on behind the barrier `end`. -/
def afterEnd : Thread → Local → Local
  | .main, l => { l with pc := .testR1 }
  | .routine _, l => { l with pc := .arriveStart, iter := l.iter + 1 }

/-- Thread `t` goes on from `l`. -/
def World.goto (s : World) (t : Thread) (l : Local) : World :=
  { s with loc := Function.update s.loc t l }

/-- Thread `t` performs an instruction and `s'` is the state afterwards. -/
inductive Issue (useCpuFence : Bool) (s : World) : Thread → World → Prop
  | zeroStart {s' : World} (h : (s.loc .main).pc = .zeroStart)
      (hs : Stored s .main .start 0 { s.loc .main with pc := .zeroEnd } s') :
      Issue useCpuFence s .main s'
  | zeroEnd {s' : World} (h : (s.loc .main).pc = .zeroEnd)
      (hs : Stored s .main .«end» 0 { s.loc .main with pc := .create1 } s') :
      Issue useCpuFence s .main s'
  | create1 (h : (s.loc .main).pc = .create1) (hb : s.buf .main = []) :
      Issue useCpuFence s .main ((s.goto (.routine .one) (create (s.loc (.routine .one)))).goto
        .main { s.loc .main with pc := .create2 })
  | create2 (h : (s.loc .main).pc = .create2) (hb : s.buf .main = []) :
      Issue useCpuFence s .main ((s.goto (.routine .two) (create (s.loc (.routine .two)))).goto
        .main { s.loc .main with pc := .resetX })
  | resetX {s' : World} (h : (s.loc .main).pc = .resetX)
      (hs : Stored s .main .X 0 { s.loc .main with pc := .resetY } s') :
      Issue useCpuFence s .main s'
  | resetY {s' : World} (h : (s.loc .main).pc = .resetY)
      (hs : Stored s .main .Y 0 { s.loc .main with pc := .arriveStart } s') :
      Issue useCpuFence s .main s'
  | arriveStart {t : Thread} (h : (s.loc t).pc = .arriveStart) (hb : s.buf t = []) :
      Issue useCpuFence s t { s.goto t { s.loc t with pc := .spinStart } with
        mem := Function.update s.mem .start (s.mem .start + 1) }
  | arriveEnd {t : Thread} (h : (s.loc t).pc = .arriveEnd) (hb : s.buf t = []) :
      Issue useCpuFence s t { s.goto t { s.loc t with pc := .spinEnd } with
        mem := Function.update s.mem .«end» (s.mem .«end» + 1) }
  | wait {t : Thread} (h : (s.loc t).pc = .spinStart ∨ (s.loc t).pc = .spinEnd) :
      Issue useCpuFence s t s
  | leaveStart {t : Thread} (h : (s.loc t).pc = .spinStart) (hv : s.read t .start % nthr = 0) :
      Issue useCpuFence s t
        (s.goto t { afterStart t (s.loc t) with passed := (s.loc t).passed + 1 })
  | leaveEnd {t : Thread} (h : (s.loc t).pc = .spinEnd) (hv : s.read t .«end» % nthr = 0) :
      Issue useCpuFence s t
        (s.goto t { afterEnd t (s.loc t) with passed := (s.loc t).passed + 1 })
  | testR1 (h : (s.loc .main).pc = .testR1) (hv : s.read .main .r1 = 0) :
      Issue useCpuFence s .main (s.goto .main { s.loc .main with pc := .testR2 })
  | testR2 (h : (s.loc .main).pc = .testR2) (hv : s.read .main .r2 = 0) :
      Issue useCpuFence s .main (s.goto .main { s.loc .main with pc := .report })
  | noReport (h : (s.loc .main).pc = .testR1 ∨ (s.loc .main).pc = .testR2) :
      Issue useCpuFence s .main (s.goto .main
        { s.loc .main with pc := .resetX, iter := (s.loc .main).iter + 1 })
  | report (h : (s.loc .main).pc = .report) :
      Issue useCpuFence s .main (s.goto .main
        { s.loc .main with
          pc := .resetX, iter := (s.loc .main).iter + 1, detected := (s.loc .main).detected + 1 })
  | storeOwn {r : Routine} {s' : World} (h : (s.loc (.routine r)).pc = .storeOwn)
      (hs : Stored s (.routine r) r.own 1 { s.loc (.routine r) with pc := .fence } s') :
      Issue useCpuFence s (.routine r) s'
  | fence {r : Routine} (h : (s.loc (.routine r)).pc = .fence)
      (hb : useCpuFence = true → s.buf (.routine r) = []) :
      Issue useCpuFence s (.routine r)
        (s.goto (.routine r) { s.loc (.routine r) with pc := .loadOther })
  | loadOther {r : Routine} (h : (s.loc (.routine r)).pc = .loadOther) :
      Issue useCpuFence s (.routine r) (s.goto (.routine r)
        { s.loc (.routine r) with
          pc := .storeR, reg := s.read (.routine r) r.other.own })
  | storeR {r : Routine} {s' : World} (h : (s.loc (.routine r)).pc = .storeR)
      (hs : Stored s (.routine r) r.res (s.loc (.routine r)).reg
        { s.loc (.routine r) with pc := .arriveEnd } s') :
      Issue useCpuFence s (.routine r) s'

variable {useCpuFence : Bool} {m : Model} {s s' : World} {t : Thread} {l : Local}

/-! ### `sync_thread` -/

theorem perform_arrive {flag : Var} (hw : s.mem flag + 1 < 2 ^ 64)
    (hp : s.perform m t (arrive flag l) = some s') : s.buf t = [] ∧
      s' = { s.goto t l with mem := Function.update s.mem flag (s.mem flag + 1) } := by
  obtain ⟨hb, rfl⟩ := perform_rmw hp
  rw [Nat.mod_eq_of_lt hw]
  exact ⟨hb, rfl⟩

/-- A look at the counter: the thread waits on, or it goes on from `l`. -/
theorem perform_spin {flag : Var} (hp : s.perform m t (spin flag (s.loc t) l) = some s') :
    s' = s ∨ s.read t flag % nthr = 0 ∧
      s' = s.goto t { l with passed := (s.loc t).passed + 1 } := by
  obtain rfl := perform_load hp
  by_cases hv : s.read t flag % nthr ≠ 0
  · rw [if_pos hv, Function.update_eq_self]
    exact .inl rfl
  · rw [if_neg hv]
    exact .inr ⟨not_not.mp hv, rfl⟩

theorem issue_arriveStart (h : (s.loc t).pc = .arriveStart)
    (hw : (s.loc t).pc = .arriveStart → s.mem .start + 1 < 2 ^ 64)
    (hp : s.perform m t (arrive .start { s.loc t with pc := .spinStart }) = some s') :
    Issue useCpuFence s t s' := by
  obtain ⟨hb, rfl⟩ := perform_arrive (hw h) hp
  exact .arriveStart h hb

theorem issue_arriveEnd (h : (s.loc t).pc = .arriveEnd)
    (hw : (s.loc t).pc = .arriveEnd → s.mem .«end» + 1 < 2 ^ 64)
    (hp : s.perform m t (arrive .«end» { s.loc t with pc := .spinEnd }) = some s') :
    Issue useCpuFence s t s' := by
  obtain ⟨hb, rfl⟩ := perform_arrive (hw h) hp
  exact .arriveEnd h hb

theorem issue_spinStart (h : (s.loc t).pc = .spinStart)
    (hp : s.perform m t (spin .start (s.loc t) (afterStart t (s.loc t))) = some s') :
    Issue useCpuFence s t s' := by
  rcases perform_spin hp with rfl | ⟨hv, rfl⟩
  · exact .wait (.inl h)
  · exact .leaveStart h hv

theorem issue_spinEnd (h : (s.loc t).pc = .spinEnd)
    (hp : s.perform m t (spin .«end» (s.loc t) (afterEnd t (s.loc t))) = some s') :
    Issue useCpuFence s t s' := by
  rcases perform_spin hp with rfl | ⟨hv, rfl⟩
  · exact .wait (.inr h)
  · exact .leaveEnd h hv

/-! ### All instructions -/

theorem issue_main {i : Ins} (hsc : m = .sc → s.buf .main = [])
    (hstart : (s.loc .main).pc = .arriveStart → s.mem .start + 1 < 2 ^ 64)
    (hend : (s.loc .main).pc = .arriveEnd → s.mem .«end» + 1 < 2 ^ 64)
    (hi : mainThread (s.loc .main) = some i) (hp : s.perform m .main i = some s') :
    Issue useCpuFence s .main s' := by
  unfold mainThread at hi
  cases h : (s.loc .main).pc <;> simp only [h, Option.some.injEq, reduceCtorEq] at hi <;> subst hi
  case zeroStart => exact .zeroStart h (perform_store hsc hp).1
  case zeroEnd => exact .zeroEnd h (perform_store hsc hp).1
  case create1 =>
    obtain ⟨hb, rfl⟩ := perform_spawn hp
    exact .create1 h hb
  case create2 =>
    obtain ⟨hb, rfl⟩ := perform_spawn hp
    exact .create2 h hb
  case resetX => exact .resetX h (perform_store hsc hp).1
  case resetY => exact .resetY h (perform_store hsc hp).1
  case arriveStart => exact issue_arriveStart h hstart hp
  case spinStart => exact issue_spinStart h hp
  case arriveEnd => exact issue_arriveEnd h hend hp
  case spinEnd => exact issue_spinEnd h hp
  case testR1 =>
    obtain rfl := perform_load hp
    by_cases hv : s.read .main .r1 = 0
    · rw [if_pos hv]
      exact .testR1 h hv
    · rw [if_neg hv]
      exact .noReport (.inl h)
  case testR2 =>
    obtain rfl := perform_load hp
    by_cases hv : s.read .main .r2 = 0
    · rw [if_pos hv]
      exact .testR2 h hv
    · rw [if_neg hv]
      exact .noReport (.inr h)
  case report =>
    obtain rfl := perform_skip hp
    exact .report h

theorem issue_routine {r : Routine} {i : Ins} (hsc : m = .sc → s.buf (.routine r) = [])
    (hstart : (s.loc (.routine r)).pc = .arriveStart → s.mem .start + 1 < 2 ^ 64)
    (hend : (s.loc (.routine r)).pc = .arriveEnd → s.mem .«end» + 1 < 2 ^ 64)
    (hi : threadRoutine useCpuFence r.own r.other.own r.res (s.loc (.routine r)) = some i)
    (hp : s.perform m (.routine r) i = some s') : Issue useCpuFence s (.routine r) s' := by
  unfold threadRoutine at hi
  cases h : (s.loc (.routine r)).pc <;> simp only [h, Option.some.injEq, reduceCtorEq] at hi
  case arriveStart => subst hi; exact issue_arriveStart h hstart hp
  case spinStart => subst hi; exact issue_spinStart h hp
  case storeOwn => subst hi; exact .storeOwn h (perform_store hsc hp).1
  case fence =>
    cases useCpuFence with
    | true =>
        obtain rfl := Option.some.inj hi
        obtain ⟨hb, rfl⟩ := perform_fence hp
        exact .fence h fun _ => hb
    | false =>
        obtain rfl := Option.some.inj hi
        obtain rfl := perform_skip hp
        exact .fence h nofun
  case loadOther =>
    subst hi
    obtain rfl := perform_load hp
    exact .loadOther h
  case storeR => subst hi; exact .storeR h (perform_store hsc hp).1
  case arriveEnd => subst hi; exact issue_arriveEnd h hend hp
  case spinEnd => subst hi; exact issue_spinEnd h hp

/-- Every step of a thread is one of its instructions. -/
theorem issue_of_step (hsc : m = .sc → ∀ t, s.buf t = [])
    (h : Step useCpuFence m s (.issue t l) s') : l = s.loc t ∧ Issue useCpuFence s t s' := by
  unfold Step next at h
  by_cases hw : NoWrap s (.issue t l)
  · rw [if_pos hw] at h
    obtain ⟨rfl, i, hi, hp⟩ := exec_issue h
    refine ⟨rfl, ?_⟩
    cases t with
    | main => exact issue_main (fun hm => hsc hm .main) hw.1 hw.2 hi hp
    | routine r =>
        rw [program_routine] at hi
        exact issue_routine (fun hm => hsc hm _) hw.1 hw.2 hi hp
  · rw [if_neg hw] at h
    exact absurd h nofun

theorem flushed_of_step (h : Step useCpuFence m s (.flush t) s') : Flushed s t s' := by
  have hw : NoWrap s (.flush t) := trivial
  unfold Step next at h
  rw [if_pos hw] at h
  exact flush_eq_some h

theorem exec_of_step {e : Ev} (h : Step useCpuFence m s e s') :
    s.exec m (program useCpuFence) e = some s' := by
  unfold Step next at h
  by_cases hw : NoWrap s e
  · rwa [if_pos hw] at h
  · rw [if_neg hw] at h
    exact absurd h (Option.some_ne_none _).symm

/-- A step is an instruction of a thread or a store reaching memory. -/
theorem step_cases {e : Ev} (hsc : m = .sc → ∀ t, s.buf t = [])
    (h : Step useCpuFence m s e s') :
    (∃ t, e = .issue t (s.loc t) ∧ Issue useCpuFence s t s') ∨
      ∃ t, e = .flush t ∧ Flushed s t s' := by
  cases e with
  | issue t l =>
      obtain ⟨rfl, hi⟩ := issue_of_step hsc h
      exact .inl ⟨t, rfl, hi⟩
  | flush t => exact .inr ⟨t, rfl, flushed_of_step h⟩

theorem sc_buf_of_step {e : Ev} (h : Step useCpuFence .sc s e s') (hb : ∀ t, s.buf t = []) :
    ∀ t, s'.buf t = [] := by
  unfold Step next at h
  by_cases hw : NoWrap s e
  · rw [if_pos hw] at h
    exact exec_sc_buf h hb
  · rw [if_neg hw] at h
    exact absurd h nofun

end Codelib.Reorder
