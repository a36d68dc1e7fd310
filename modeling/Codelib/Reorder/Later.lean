import Codelib.Reorder.Invariant

/-!
# Codelib.Reorder.Later

**A run some rounds later** (`run_later`). The threads look at the counters modulo `nthr` only, and
at the number of their round not at all. So from a state in which all threads are `n` rounds further
a run goes the same way, as long as the counters do not wrap.
-/

namespace Codelib.Reorder

open StoreBuffer StoreBuffer.State

variable {useCpuFence : Bool} {m : Model} {s s' u : World} {t : Thread} {l : Local} {n d : Nat}

def Var.Counts (x : Var) : Prop := x = .start ∨ x = .«end»

instance (x : Var) : Decidable x.Counts := inferInstanceAs (Decidable (_ ∨ _))

/-! ### States -/

/-- `n` rounds later, with `d` more reports. -/
def Local.later (n d : Nat) (l : Local) : Local :=
  { l with iter := l.iter + n, passed := l.passed + 2 * n, detected := l.detected + d }

def Thread.reports (d : Nat) : Thread → Nat
  | .main => d
  | .routine _ => 0

def shift (n : Nat) (x : Var) (v : Val) : Val := if x.Counts then v + nthr * n else v

def World.later (n d : Nat) (s : World) : World where
  loc t := (s.loc t).later n (t.reports d)
  mem x := shift n x (s.mem x)
  buf := s.buf

def later (n d : Nat) : Ev → Ev
  | .issue t l => .issue t (l.later n (t.reports d))
  | .flush t => .flush t

/-- The counters are small and in memory. -/
structure Calm (s : World) : Prop where
  start : s.mem .start ≤ 3
  «end» : s.mem .«end» ≤ 3
  buf : ∀ t, ∀ e ∈ s.buf t, ¬ e.1.Counts
  main : (s.loc .main).pc ≠ .zeroStart ∧ (s.loc .main).pc ≠ .zeroEnd

@[simp] theorem later_buf (s : World) : (s.later n d).buf = s.buf := rfl

theorem shift_of_not {x : Var} (hx : ¬ x.Counts) (v : Val) : shift n x v = v := if_neg hx

theorem later_goto (s : World) (t : Thread) (l : Local) :
    (s.goto t l).later n d = (s.later n d).goto t (l.later n (t.reports d)) := by
  simp only [World.later, World.goto, State.mk.injEq, and_true]
  funext u
  by_cases hu : u = t
  · subst hu
    simp
  · rw [Function.update_of_ne hu, Function.update_of_ne hu]

theorem later_mem (s : World) (x : Var) (v : Val) :
    World.later n d { s with mem := Function.update s.mem x v } =
      { s.later n d with mem := Function.update (s.later n d).mem x (shift n x v) } := by
  simp only [World.later, State.mk.injEq, and_true, true_and]
  funext y
  by_cases hy : y = x
  · subst hy
    simp
  · rw [Function.update_of_ne hy, Function.update_of_ne hy]

/-- A thread goes on and `x` becomes `v`. -/
theorem later_write (s : World) (t : Thread) (l : Local) (x : Var) (v : Val) :
    World.later n d { s.goto t l with mem := Function.update s.mem x v } =
      { (s.later n d).goto t (l.later n (t.reports d)) with
        mem := Function.update (s.later n d).mem x (shift n x v) } := by
  rw [← later_goto]
  exact later_mem (s.goto t l) x v

theorem Calm.read_later (h : Calm s) (t : Thread) (x : Var) :
    (s.later n d).read t x = shift n x (s.read t x) := by
  by_cases hx : x.Counts
  · have hbuf : ∀ e ∈ s.buf t, e.1 ≠ x := fun e he heq => h.buf t e he (heq ▸ hx)
    rw [read_of_not_buffered hbuf, read_of_not_buffered (s := s.later n d) hbuf]
    rfl
  · rw [shift, if_neg hx]
    exact read_congr rfl (by simp [World.later, shift, hx])

/-! ### Instructions -/

/-- The same instruction, `n` rounds later. -/
def Later (n d : Nat) (t : Thread) : Ins → Ins → Prop
  | .store x v l, .store x' v' l' =>
    x' = x ∧ v' = v ∧ ¬ x.Counts ∧ l' = l.later n (t.reports d)
  | .load x k, .load x' k' => x' = x ∧ ∀ v, k' (shift n x v) = (k v).later n (t.reports d)
  | .rmw x f k, .rmw x' f' k' => x' = x ∧ x.Counts ∧
      ∀ v ≤ 3, f' (shift n x v) = shift n x (f v) ∧
        k' (shift n x v) = (k v).later n (t.reports d)
  | .fence l, .fence l' => l' = l.later n (t.reports d)
  | .spawn u f l, .spawn u' f' l' => u' = u ∧
      (∀ k, f' (Local.later n (u.reports d) k) = (f k).later n (u.reports d)) ∧
        l' = l.later n (t.reports d)
  | .skip l, .skip l' => l' = l.later n (t.reports d)
  | _, _ => False

theorem Calm.le (h : Calm s) {x : Var} (hx : x.Counts) : s.mem x ≤ 3 := by
  rcases hx with rfl | rfl
  · exact h.start
  · exact h.«end»

theorem perform_later (h : Calm s) {i i' : Ins} (hi : Later n d t i i')
    (hp : s.perform m t i = some s') : (s.later n d).perform m t i' = some (s'.later n d) := by
  cases i <;> cases i' <;> try exact hi.elim
  case store x v l x' v' l' =>
    obtain ⟨rfl, rfl, hx, rfl⟩ := hi
    cases m with
    | sc =>
        obtain rfl := Option.some.inj hp
        have hlater := later_write (n := n) (d := d) s t l x' v'
        rw [shift_of_not hx] at hlater
        exact congrArg some hlater.symm
    | tso =>
        obtain rfl := Option.some.inj hp
        have hlater := later_goto (n := n) (d := d)
          { s with buf := Function.update s.buf t (s.buf t ++ [(x', v')]) } t l
        exact congrArg some hlater.symm
  case load x k x' k' =>
    obtain ⟨rfl, hk⟩ := hi
    obtain rfl := perform_load hp
    simp only [perform, h.read_later, hk]
    exact congrArg some (later_goto s t _).symm
  case rmw x f k x' f' k' =>
    obtain ⟨rfl, hx, hf⟩ := hi
    obtain ⟨hb, rfl⟩ := perform_rmw hp
    obtain ⟨hv, hk⟩ := hf _ (h.le hx)
    refine drained_eq_some.mpr ⟨hb, (later_write s t _ _ _).trans ?_⟩
    rw [← hv, ← hk]
    rfl
  case fence l l' =>
    obtain rfl := hi
    obtain ⟨hb, rfl⟩ := perform_fence hp
    exact drained_eq_some.mpr ⟨hb, later_goto s t l⟩
  case spawn v f l v' f' l' =>
    obtain ⟨rfl, hf, rfl⟩ := hi
    obtain ⟨hb, rfl⟩ := perform_spawn hp
    refine drained_eq_some.mpr ⟨hb, (later_goto (s.goto v' (f (s.loc v'))) t l).trans ?_⟩
    rw [later_goto, ← hf]
    rfl
  case skip l l' =>
    obtain rfl := hi
    obtain rfl := perform_skip hp
    exact congrArg some (later_goto s t l).symm

/-- The counters do not wrap. -/
def Roomy (n : Nat) : Prop := nthr * n + 4 < 2 ^ 64

theorem add_one_later {v : Nat} (hv : v ≤ 3) (hn : Roomy n) :
    (v + nthr * n + 1) % 2 ^ 64 = (v + 1) % 2 ^ 64 + nthr * n := by
  unfold Roomy at hn
  rw [Nat.mod_eq_of_lt (by omega), Nat.mod_eq_of_lt (by omega)]
  omega

theorem later_arrive (hn : Roomy n) {x : Var} (hx : x.Counts) (l : Local) :
    Later n d t (arrive x l) (arrive x (l.later n (t.reports d))) := by
  refine ⟨rfl, hx, fun v hv => ⟨?_, rfl⟩⟩
  simp only [shift, if_pos hx]
  exact add_one_later hv hn

theorem later_spin {x : Var} (hx : x.Counts) (l l' : Local) :
    Later n d t (spin x l l')
      (spin x (l.later n (t.reports d)) (l'.later n (t.reports d))) := by
  refine ⟨rfl, fun v => ?_⟩
  simp only [shift, if_pos hx, Nat.add_mul_mod_self_left]
  split
  · rfl
  · simp [Local.later, Nat.add_right_comm]

/-- The program of `main` behind its first two stores. -/
theorem mainThread_later (hn : Roomy n) {i : Ins} (hi : mainThread l = some i)
    (hpc : l.pc ≠ .zeroStart ∧ l.pc ≠ .zeroEnd) :
    ∃ i', mainThread (l.later n d) = some i' ∧ Later n d .main i i' := by
  unfold mainThread at hi ⊢
  rw [show (l.later n d).pc = l.pc from rfl]
  cases h : l.pc <;> simp only [h, Option.some.injEq, reduceCtorEq] at hi <;> subst hi
  case zeroStart => exact absurd h hpc.1
  case zeroEnd => exact absurd h hpc.2
  case create1 | create2 => exact ⟨_, rfl, rfl, fun _ => rfl, rfl⟩
  case resetX | resetY => exact ⟨_, rfl, rfl, rfl, by decide, rfl⟩
  case arriveStart => exact ⟨_, rfl, later_arrive hn (.inl rfl) _⟩
  case spinStart => exact ⟨_, rfl, later_spin (.inl rfl) _ _⟩
  case arriveEnd => exact ⟨_, rfl, later_arrive hn (.inr rfl) _⟩
  case spinEnd => exact ⟨_, rfl, later_spin (.inr rfl) _ _⟩
  case testR1 | testR2 =>
    refine ⟨_, rfl, rfl, fun v => ?_⟩
    rw [shift_of_not (by decide)]
    by_cases hv : v = 0 <;> simp [hv, Local.later, Thread.reports, Nat.add_right_comm]
  case report =>
    refine ⟨_, rfl, ?_⟩
    simp [Later, Local.later, Thread.reports, Nat.add_right_comm]

theorem threadRoutine_later (hn : Roomy n) {r : Routine} {i : Ins}
    (hi : threadRoutine useCpuFence r.own r.other.own r.res l = some i) :
    ∃ i', threadRoutine useCpuFence r.own r.other.own r.res (l.later n 0) = some i' ∧
      Later n d (.routine r) i i' := by
  unfold threadRoutine at hi ⊢
  rw [show (l.later n 0).pc = l.pc from rfl]
  cases h : l.pc <;> simp only [h, Option.some.injEq, reduceCtorEq] at hi
  case fence =>
    cases useCpuFence with
    | true =>
        obtain rfl := Option.some.inj hi
        exact ⟨_, rfl, rfl⟩
    | false =>
        obtain rfl := Option.some.inj hi
        exact ⟨_, rfl, rfl⟩
  all_goals subst hi
  case arriveStart => exact ⟨_, rfl, later_arrive hn (.inl rfl) _⟩
  case spinStart => exact ⟨_, rfl, later_spin (.inl rfl) _ _⟩
  case storeOwn => exact ⟨_, rfl, rfl, rfl, by cases r <;> decide, rfl⟩
  case loadOther =>
    refine ⟨_, rfl, rfl, fun v => ?_⟩
    rw [shift_of_not (by cases r <;> decide)]
    rfl
  case storeR => exact ⟨_, rfl, rfl, rfl, by cases r <;> decide, rfl⟩
  case arriveEnd => exact ⟨_, rfl, later_arrive hn (.inr rfl) _⟩
  case spinEnd =>
    refine ⟨_, rfl, ?_⟩
    have hspin := later_spin (n := n) (d := d) (t := .routine r) (.inr rfl : Var.Counts .«end») l
      { l with pc := .arriveStart, iter := l.iter + 1 }
    simpa only [Local.later, Thread.reports, Nat.add_right_comm] using hspin

theorem Calm.noWrap (h : Calm s) (hn : Roomy n) (e : Ev) : NoWrap (s.later n d) (later n d e) := by
  have hlt : ∀ x : Var, x.Counts → (s.later n d).mem x + 1 < 2 ^ 64 := by
    intro x hx
    have hle := h.le hx
    have hroom : 3 + nthr * n + 1 < 2 ^ 64 := by
      unfold Roomy at hn
      omega
    have hmem : (s.later n d).mem x = s.mem x + nthr * n := if_pos hx
    rw [hmem]
    exact (Nat.succ_le_succ (Nat.add_le_add_right hle _)).trans_lt hroom
  cases e with
  | issue t l => exact ⟨fun _ => hlt _ (.inl rfl), fun _ => hlt _ (.inr rfl)⟩
  | flush t => trivial

theorem flush_later (h : Calm s) (hf : s.flush t = some s') :
    (s.later n d).flush t = some (s'.later n d) := by
  cases hb : s.buf t with
  | nil => simp [State.flush, hb] at hf
  | cons e rest =>
      obtain ⟨x, v⟩ := e
      have hx : ¬ x.Counts := h.buf t (x, v) (by rw [hb]; exact List.mem_cons_self)
      simp only [State.flush, hb, Option.some.injEq] at hf
      subst hf
      have hlater := later_mem (n := n) (d := d)
        { s with buf := Function.update s.buf t rest } x v
      rw [shift_of_not hx] at hlater
      simp only [State.flush, later_buf, hb]
      exact congrArg some hlater.symm

/-- **A step, `n` rounds later.** -/
theorem step_later (hn : Roomy n) (h : Calm s) {e : Ev} (hs : Step useCpuFence m s e s') :
    Step useCpuFence m (s.later n d) (later n d e) (s'.later n d) := by
  have hexec := exec_of_step hs
  unfold Step next
  rw [if_pos (h.noWrap hn e)]
  cases e with
  | flush t => exact flush_later h hexec
  | issue t l =>
      obtain ⟨rfl, i, hi, hp⟩ := exec_issue hexec
      obtain ⟨i', hi', hlater⟩ : ∃ i', program useCpuFence t ((s.loc t).later n (t.reports d)) = some i' ∧
          Later n d t i i' := by
        cases t with
        | main => exact mainThread_later hn hi h.main
        | routine r =>
            rw [program_routine] at hi ⊢
            exact threadRoutine_later hn hi
      have hloc : (s.later n d).loc t = (s.loc t).later n (t.reports d) := rfl
      simp only [later, exec]
      rw [if_pos hloc, hi']
      exact perform_later h hlater hp

/-! ### Runs -/

instance (s : World) : Decidable (Calm s) :=
  decidable_of_iff (s.mem .start ≤ 3 ∧ s.mem .«end» ≤ 3 ∧
      (∀ t, ∀ e ∈ s.buf t, ¬ e.1.Counts) ∧
      (s.loc .main).pc ≠ .zeroStart ∧ (s.loc .main).pc ≠ .zeroEnd)
    ⟨fun h => ⟨h.1, h.2.1, h.2.2.1, h.2.2.2⟩, fun h => ⟨h.start, h.«end», h.buf, h.main⟩⟩

/-- A step from a calm state. -/
def nextCalm (useCpuFence : Bool) (m : Model) (s : World) (e : Ev) : Option World :=
  if Calm s then next useCpuFence m s e else none

theorem calm_of_nextCalm {e : Ev} (h : nextCalm useCpuFence m s e = some s') :
    Calm s ∧ Step useCpuFence m s e s' := by
  unfold nextCalm at h
  by_cases hc : Calm s
  · rw [if_pos hc] at h
    exact ⟨hc, h⟩
  · rw [if_neg hc] at h
    exact absurd h (Option.some_ne_none _).symm

/-- **A run, `n` rounds later.** -/
theorem run_later (hn : Roomy n) {ls : List Ev}
    (h : Run (fun s e s' => nextCalm useCpuFence m s e = some s') s ls s') :
    Run (Step useCpuFence m) (s.later n d) (ls.map (later n d)) (s'.later n d) := by
  induction h with
  | nil => exact .nil
  | snoc _ hs ih =>
      obtain ⟨hc, hs⟩ := calm_of_nextCalm hs
      rw [List.map_append, List.map_singleton]
      exact .snoc ih (step_later hn hc hs)

end Codelib.Reorder
