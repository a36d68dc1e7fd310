import Codelib.Core.Barrier
import Codelib.Reorder.Steps

/-!
# Codelib.Reorder.Invariant

The invariant of the three threads, for both memory models, with or without the
fence: where each thread is (`Placed`), which stores may still be in its buffer
(`mayBuffer`), and that the two counters make a barrier (`Barrier.Inv` of `view`).

The initial stores of zero to the counters are harmless because the routines are not
yet created when they reach memory (`asleep`). From then on a step is seen by the
barrier as somebody reaching it, somebody leaving it, or nothing at all
(`Inv.barrier_step`).
-/

namespace Codelib.Reorder

open StoreBuffer StoreBuffer.State

instance : Fintype Thread where
  elems := {.main, .routine .one, .routine .two}
  complete t := by
    rcases t with - | (- | -) <;> decide

theorem card_thread : Fintype.card Thread = nthr := rfl

/-! ### Where a thread is -/

/-- How many barriers a thread has reached. -/
def Local.reached (l : Local) : Nat :=
  match l.pc with
  | .spinStart | .spinEnd => l.passed + 1
  | _ => l.passed

/-- The program counter fits the number of barriers passed: round `iter` of `main`
begins behind barrier `2 * iter - 2`, and each round has two of them. -/
def Placed : Thread → Local → Prop
  | .main, l =>
    match l.pc with
    | .zeroStart | .zeroEnd | .create1 | .create2 => l.passed = 0 ∧ l.iter = 1
    | .resetX | .resetY | .arriveStart | .spinStart => l.passed + 2 = 2 * l.iter
    | .arriveEnd | .spinEnd => l.passed + 1 = 2 * l.iter
    | .testR1 | .testR2 | .report => l.passed = 2 * l.iter ∧ 1 ≤ l.iter
    | _ => False
  | .routine _, l =>
    match l.pc with
    | .notCreated => l.passed = 0 ∧ l.iter = 1
    | .arriveStart | .spinStart => l.passed + 2 = 2 * l.iter
    | .storeOwn | .fence | .loadOther | .storeR | .arriveEnd | .spinEnd =>
      l.passed + 1 = 2 * l.iter
    | _ => False

/-- The routines `main` has not created yet. -/
def Asleep : Pc → Routine → Prop
  | .zeroStart, _ | .zeroEnd, _ | .create1, _ => True
  | .create2, r => r = .two
  | _, _ => False

/-- The stores that may still be in the buffer of a thread. -/
def mayBuffer (useCpuFence : Bool) : Thread → Local → List (Var × Val)
  | .main, l =>
    match l.pc with
    | .zeroEnd | .create1 => [(.start, 0), (.«end», 0)]
    | .resetY | .arriveStart => [(.X, 0), (.Y, 0)]
    | _ => []
  | .routine r, l =>
    match l.pc with
    | .fence => [(r.own, 1)]
    | .loadOther | .storeR => if useCpuFence then [] else [(r.own, 1)]
    | .arriveEnd => (r.res, l.reg) :: if useCpuFence then [] else [(r.own, 1)]
    | _ => []

/-- The barrier the threads see: `start` counts for the even ones and `end` for the
odd ones. -/
def view (s : World) : Barrier Thread where
  passed t := (s.loc t).passed
  reached t := (s.loc t).reached
  count c := if c = 0 then s.mem .start else s.mem .«end»

structure Inv (useCpuFence : Bool) (s : World) : Prop where
  placed : ∀ t, Placed t (s.loc t)
  asleep : ∀ r, Asleep (s.loc .main).pc r → (s.loc (.routine r)).pc = .notCreated
  buffered : ∀ t, ∀ e ∈ s.buf t, e ∈ mayBuffer useCpuFence t (s.loc t)
  barrier : (view s).Inv

variable {useCpuFence : Bool} {m : Model} {s s' : World} {t u : Thread} {l : Local}

theorem Inv.init : Inv useCpuFence init where
  placed
    | .main => ⟨rfl, rfl⟩
    | .routine _ => ⟨rfl, rfl⟩
  asleep _ _ := rfl
  buffered _ _ he := absurd he List.not_mem_nil
  barrier := by
    refine Barrier.Inv.zero ?_ ?_ ?_
    · rintro (- | -) <;> rfl
    · rintro (- | -) <;> rfl
    · intro c
      by_cases hc : c = 0 <;> simp [view, Reorder.init]

/-! ### Updating one thread -/

@[simp] theorem update_routine_main (loc : Thread → Local) (r : Routine) (l : Local) :
    Function.update loc (.routine r) l .main = loc .main :=
  Function.update_of_ne (show Thread.main ≠ .routine r by simp) l loc

@[simp] theorem update_main_routine (loc : Thread → Local) (r : Routine) (l : Local) :
    Function.update loc .main l (.routine r) = loc (.routine r) :=
  Function.update_of_ne (show Thread.routine r ≠ .main by simp) l loc

theorem placed_update {loc : Thread → Local} (h : ∀ u, Placed u (loc u)) (ht : Placed t l)
    (u : Thread) : Placed u (Function.update loc t l u) := by
  by_cases hu : u = t
  · subst hu
    rwa [Function.update_self]
  · rw [Function.update_of_ne hu]
    exact h u

/-- A routine that is created gets ready for its first round. -/
theorem Inv.placed_create (h : Inv useCpuFence s) {r : Routine}
    (hr : (s.loc (.routine r)).pc = .notCreated) :
    Placed (.routine r) (create (s.loc (.routine r))) := by
  have hp := h.placed (.routine r)
  simp only [Placed, hr] at hp
  simp only [Placed, create]
  omega

theorem Inv.placed_issue (h : Inv useCpuFence s) (hi : Issue useCpuFence s t s') :
    ∀ u, Placed u (s'.loc u) := by
  have hp := h.placed t
  cases hi
  case wait => exact h.placed
  case create1 hpc hb =>
    have hr := h.placed_create (h.asleep .one (by rw [hpc]; trivial))
    refine placed_update (placed_update h.placed hr) ?_
    simpa [Placed, hpc] using hp
  case create2 hpc hb =>
    have hr := h.placed_create (h.asleep .two (by rw [hpc]; rfl))
    refine placed_update (placed_update h.placed hr) ?_
    simp only [Placed, hpc] at hp ⊢
    omega
  case zeroStart hpc hs | zeroEnd hpc hs | resetX hpc hs | resetY hpc hs | storeOwn r hpc hs |
      storeR r hpc hs =>
    rw [hs.loc]
    refine placed_update h.placed ?_
    simpa [Placed, hpc] using hp
  case testR1 hpc hv | testR2 hpc hv | fence r hpc hb | loadOther r hpc =>
    refine placed_update h.placed ?_
    simpa [Placed, hpc] using hp
  case report hpc =>
    refine placed_update h.placed ?_
    simp only [Placed, hpc] at hp ⊢
    omega
  case noReport hpc =>
    refine placed_update h.placed ?_
    rcases hpc with hpc | hpc <;>
    · simp only [Placed, hpc] at hp ⊢
      omega
  case arriveStart hpc hb | arriveEnd hpc hb =>
    refine placed_update h.placed ?_
    cases t <;> simpa [Placed, hpc] using hp
  case leaveStart hpc hv | leaveEnd hpc hv =>
    refine placed_update h.placed ?_
    cases t <;>
    · simp only [Placed, hpc, afterStart, afterEnd] at hp ⊢
      omega

/-! ### Who has been created -/

theorem Inv.asleep_update (h : Inv useCpuFence s) (hawake : (s.loc t).pc ≠ .notCreated)
    (hmain : t = .main → ∀ r, Asleep l.pc r → Asleep (s.loc .main).pc r) (r : Routine)
    (hr : Asleep (Function.update s.loc t l .main).pc r) :
    (Function.update s.loc t l (.routine r)).pc = .notCreated := by
  cases t with
  | main =>
      rw [Function.update_self] at hr
      rw [update_main_routine]
      exact h.asleep r (hmain rfl r hr)
  | routine r' =>
      rw [update_routine_main] at hr
      by_cases hrr : r = r'
      · subst hrr
        exact absurd (h.asleep r hr) hawake
      · rw [Function.update_of_ne fun heq => hrr (Thread.routine.inj heq)]
        exact h.asleep r hr

theorem Inv.asleep_issue (h : Inv useCpuFence s) (hi : Issue useCpuFence s t s') :
    ∀ r, Asleep (s'.loc .main).pc r → (s'.loc (.routine r)).pc = .notCreated := by
  cases hi
  case wait => exact h.asleep
  case create1 hpc hb =>
    intro r hr
    obtain rfl : r = .two := by simpa [World.goto, Asleep] using hr
    simpa [World.goto, Function.update] using h.asleep .two (by rw [hpc]; trivial)
  case create2 hpc hb =>
    intro r hr
    exact absurd hr (by simp [World.goto, Asleep])
  case zeroStart hpc hs | zeroEnd hpc hs =>
    rw [hs.loc]
    refine h.asleep_update (by simp [hpc]) fun _ r _ => ?_
    rw [hpc]
    trivial
  case resetX hpc hs | resetY hpc hs =>
    rw [hs.loc]
    exact h.asleep_update (by simp [hpc]) fun _ r hr => absurd hr (by simp [Asleep])
  case storeOwn r hpc hs | storeR r hpc hs =>
    rw [hs.loc]
    exact h.asleep_update (by simp [hpc]) nofun
  case fence r hpc hb | loadOther r hpc => exact h.asleep_update (by simp [hpc]) nofun
  case testR1 hpc hv | testR2 hpc hv | report hpc =>
    exact h.asleep_update (by simp [hpc]) fun _ r hr => absurd hr (by simp [Asleep])
  case noReport hpc =>
    refine h.asleep_update ?_ fun _ r hr => absurd hr (by simp [Asleep])
    rcases hpc with hpc | hpc <;> simp [hpc]
  case arriveStart hpc hb | arriveEnd hpc hb =>
    exact h.asleep_update (by simp [hpc]) fun _ r hr => absurd hr (by simp [Asleep])
  case leaveStart hpc hv | leaveEnd hpc hv =>
    refine h.asleep_update (by simp [hpc]) ?_
    intro heq r hr
    obtain rfl := heq
    exact absurd hr (by simp [Asleep, afterStart, afterEnd])

/-! ### What is in the buffers -/

theorem Inv.buffered_update (h : Inv useCpuFence s) (hloc : s'.loc = Function.update s.loc t l)
    (hother : ∀ u, u ≠ t → s'.buf u = s.buf u)
    (hself : ∀ e ∈ s'.buf t, e ∈ mayBuffer useCpuFence t l) (u : Thread) :
    ∀ e ∈ s'.buf u, e ∈ mayBuffer useCpuFence u (s'.loc u) := by
  rw [hloc]
  by_cases hu : u = t
  · subst hu
    rwa [Function.update_self]
  · rw [Function.update_of_ne hu, hother u hu]
    exact h.buffered u

/-- A store adds itself to what may be buffered. -/
theorem Inv.buffered_stored (h : Inv useCpuFence s) {x : Var} {v : Val}
    (hs : Stored s t x v l s')
    (hold : ∀ e ∈ mayBuffer useCpuFence t (s.loc t), e ∈ mayBuffer useCpuFence t l)
    (hnew : (x, v) ∈ mayBuffer useCpuFence t l) (u : Thread) :
    ∀ e ∈ s'.buf u, e ∈ mayBuffer useCpuFence u (s'.loc u) := by
  refine h.buffered_update hs.loc hs.buf (fun e he => ?_) u
  rcases hs.buf_self e he with he | rfl
  · exact hold e (h.buffered t e he)
  · exact hnew

/-- A step that touches no buffer. -/
theorem Inv.buffered_goto (h : Inv useCpuFence s)
    (hold : s.buf t = [] ∨
      ∀ e ∈ mayBuffer useCpuFence t (s.loc t), e ∈ mayBuffer useCpuFence t l) (u : Thread) :
    ∀ e ∈ (s.goto t l).buf u, e ∈ mayBuffer useCpuFence u ((s.goto t l).loc u) := by
  refine h.buffered_update (show (s.goto t l).loc = _ from rfl) (fun _ _ => rfl)
    (fun e he => ?_) u
  change e ∈ s.buf t at he
  rcases hold with hb | hold
  · rw [hb] at he
    exact absurd he List.not_mem_nil
  · exact hold e (h.buffered t e he)

theorem Inv.buf_eq_nil (h : Inv useCpuFence s) (ht : mayBuffer useCpuFence t (s.loc t) = []) :
    s.buf t = [] := by
  refine List.eq_nil_iff_forall_not_mem.mpr fun e he => ?_
  have hmem := h.buffered t e he
  rw [ht] at hmem
  exact List.not_mem_nil hmem

theorem Inv.buffered_create (h : Inv useCpuFence s) {r : Routine} (hb : s.buf .main = [])
    (hr : (s.loc (.routine r)).pc = .notCreated) (l' : Local) (u : Thread) :
    ∀ e ∈ s.buf u, e ∈ mayBuffer useCpuFence u
      (Function.update (Function.update s.loc (.routine r) l) .main l' u) := by
  intro e he
  cases u with
  | main =>
      rw [hb] at he
      exact absurd he List.not_mem_nil
  | routine r' =>
      rw [update_main_routine]
      by_cases hrr : r' = r
      · subst hrr
        rw [h.buf_eq_nil (by simp [mayBuffer, hr])] at he
        exact absurd he List.not_mem_nil
      · rw [Function.update_of_ne fun heq => hrr (Thread.routine.inj heq)]
        exact h.buffered _ e he

theorem Inv.buffered_issue (h : Inv useCpuFence s) (hi : Issue useCpuFence s t s') :
    ∀ u, ∀ e ∈ s'.buf u, e ∈ mayBuffer useCpuFence u (s'.loc u) := by
  cases hi
  case wait => exact h.buffered
  case create1 hpc hb => exact h.buffered_create hb (h.asleep .one (by rw [hpc]; trivial)) _
  case create2 hpc hb => exact h.buffered_create hb (h.asleep .two (by rw [hpc]; rfl)) _
  case zeroStart hpc hs | zeroEnd hpc hs | resetX hpc hs | resetY hpc hs =>
    exact h.buffered_stored hs (by simp [mayBuffer, hpc]) (by simp [mayBuffer])
  case storeOwn r hpc hs =>
    exact h.buffered_stored hs (by simp [mayBuffer, hpc]) (by simp [mayBuffer])
  case storeR r hpc hs =>
    refine h.buffered_stored hs (fun e he => List.mem_cons_of_mem _ ?_) List.mem_cons_self
    simpa [mayBuffer, hpc] using he
  case fence r hpc hb =>
    refine h.buffered_goto ?_
    cases useCpuFence with
    | true => exact .inl (hb rfl)
    | false => exact .inr (by simp [mayBuffer, hpc])
  case loadOther r hpc => exact h.buffered_goto (.inr (by simp [mayBuffer, hpc]))
  case testR1 hpc hv | testR2 hpc hv | report hpc =>
    exact h.buffered_goto (.inr (by simp [mayBuffer, hpc]))
  case noReport hpc =>
    refine h.buffered_goto (.inr ?_)
    rcases hpc with hpc | hpc <;> simp [mayBuffer, hpc]
  case arriveStart hpc hb | arriveEnd hpc hb => exact h.buffered_goto (.inl hb)
  case leaveStart hpc hv | leaveEnd hpc hv =>
    refine h.buffered_goto (.inr ?_)
    cases t <;> simp [mayBuffer, hpc]

/-! ### The barrier -/

theorem view_eq (hp : ∀ u, (s'.loc u).passed = (s.loc u).passed)
    (hr : ∀ u, (s'.loc u).reached = (s.loc u).reached) (hstart : s'.mem .start = s.mem .start)
    (hend : s'.mem .«end» = s.mem .«end») : view s' = view s := by
  simp only [view, hp, hr, hstart, hend]

theorem field_update {loc : Thread → Local} {g : Local → Nat} (h : g l = g (loc t)) (u : Thread) :
    g (Function.update loc t l u) = g (loc u) := by
  by_cases hu : u = t
  · subst hu
    rw [Function.update_self, h]
  · rw [Function.update_of_ne hu]

/-- A step within a section between two barriers. -/
theorem view_quiet (hloc : s'.loc = Function.update s.loc t l)
    (hp : l.passed = (s.loc t).passed) (hr : l.reached = (s.loc t).reached)
    (hstart : s'.mem .start = s.mem .start) (hend : s'.mem .«end» = s.mem .«end») :
    view s' = view s := by
  refine view_eq (fun u => ?_) (fun u => ?_) hstart hend
  · rw [hloc, field_update hp]
  · rw [hloc, field_update hr]

theorem reached_create (l : Local) (hl : l.pc = .notCreated) :
    (create l).reached = l.reached := by
  simp [Local.reached, create, hl]

theorem Inv.barrier_goto (h : Inv useCpuFence s) (hp : l.passed = (s.loc t).passed)
    (hr : l.reached = (s.loc t).reached) : (view (s.goto t l)).Inv := by
  have hv : view (s.goto t l) = view s :=
    view_quiet (show (s.goto t l).loc = Function.update s.loc t l from rfl) hp hr rfl rfl
  rw [hv]
  exact h.barrier

theorem Inv.barrier_stored (h : Inv useCpuFence s) {x : Var} {v : Val}
    (hs : Stored s t x v l s') (hp : l.passed = (s.loc t).passed)
    (hr : l.reached = (s.loc t).reached) (hstart : s'.mem .start = s.mem .start)
    (hend : s'.mem .«end» = s.mem .«end») : (view s').Inv := by
  rw [view_quiet hs.loc hp hr hstart hend]
  exact h.barrier

theorem Inv.barrier_create (h : Inv useCpuFence s) {r : Routine}
    (hr : (s.loc (.routine r)).pc = .notCreated) (hp : l.passed = (s.loc .main).passed)
    (hm : l.reached = (s.loc .main).reached) :
    (view ((s.goto (.routine r) (create (s.loc (.routine r)))).goto .main l)).Inv := by
  have hv : view ((s.goto (.routine r) (create (s.loc (.routine r)))).goto .main l) = view s := by
    refine view_eq (fun u => ?_) (fun u => ?_) rfl rfl
    · cases u with
      | main => simpa [World.goto] using hp
      | routine r' => by_cases hrr : r' = r <;> simp [World.goto, Function.update, create, hrr]
    · cases u with
      | main => simpa [World.goto] using hm
      | routine r' =>
          by_cases hrr : r' = r
          · subst hrr
            simpa [World.goto] using reached_create _ hr
          · simp [World.goto, Function.update, hrr]
  rw [hv]
  exact h.barrier

/-- Before the first routine is created both counters are zero. -/
theorem Inv.counters_zero (h : Inv useCpuFence s) (hpc : ∀ r, Asleep (s.loc .main).pc r) :
    s.mem .start = 0 ∧ s.mem .«end» = 0 := by
  have hreached : ∀ t, (view s).reached t = 0 := by
    intro t
    have hp := h.placed t
    cases t with
    | main =>
        have hone := hpc .one
        simp only [view]
        cases hm : (s.loc .main).pc <;>
          simp_all [Asleep, Placed, Local.reached]
    | routine r =>
        have hr := h.asleep r (hpc r)
        simp only [Placed, hr] at hp
        simp only [view, Local.reached, hr, hp]
  exact ⟨h.barrier.count_zero hreached (by decide : 0 < 2),
    h.barrier.count_zero hreached (by decide : 1 < 2)⟩

theorem placed_start (h : Placed t l) (hpc : l.pc = .arriveStart ∨ l.pc = .spinStart) :
    l.passed % 2 = 0 := by
  cases t <;> rcases hpc with hpc | hpc <;> simp only [Placed, hpc] at h <;> omega

theorem placed_end (h : Placed t l) (hpc : l.pc = .arriveEnd ∨ l.pc = .spinEnd) :
    l.passed % 2 = 1 := by
  cases t <;> rcases hpc with hpc | hpc <;> simp only [Placed, hpc] at h <;> omega

/-- The counter of the next barrier of a thread. -/
def flagOf (passed : Nat) : Var := if passed % 2 = 0 then .start else .«end»

theorem view_count (s : World) (passed : Nat) :
    (view s).count (passed % 2) = s.mem (flagOf passed) := by
  unfold flagOf
  by_cases h : passed % 2 = 0 <;> simp [view, h]

/-- A thread adds one to the counter of its next barrier. -/
theorem Inv.barrier_arrive (h : Inv useCpuFence s) {flag : Var}
    (hflag : flag = flagOf (s.loc t).passed) (hbefore : (s.loc t).reached = (s.loc t).passed)
    (hpassed : l.passed = (s.loc t).passed) (hafter : l.reached = (s.loc t).passed + 1) :
    (view { s.goto t l with mem := Function.update s.mem flag (s.mem flag + 1) }).Inv := by
  refine h.barrier.arrive (t := t) hbefore ?_ ?_ ?_ ?_
  · funext u
    exact field_update (g := Local.passed) hpassed u
  · funext u
    by_cases hu : u = t
    · subst hu
      simp [view, World.goto, hafter]
    · simp [view, World.goto, Function.update_of_ne hu]
  · change (view _).count ((s.loc t).passed % 2) = (view s).count ((s.loc t).passed % 2) + 1
    rw [view_count, view_count, hflag]
    exact Function.update_self ..
  · intro c hc hne
    change c ≠ (s.loc t).passed % 2 at hne
    by_cases hc0 : c = 0
    · subst hc0
      have hodd : flag = .«end» := by rw [hflag, flagOf, if_neg (Ne.symm hne)]
      simp [view, hodd]
    · have heven : flag = .start := by rw [hflag, flagOf, if_pos (by omega)]
      simp [view, hc0, heven]

/-- A thread that finds a multiple of `nthr` leaves. -/
theorem Inv.barrier_leave (h : Inv useCpuFence s) {flag : Var}
    (hflag : flag = flagOf (s.loc t).passed) (hv : s.mem flag % nthr = 0)
    (hbefore : (s.loc t).reached = (s.loc t).passed + 1)
    (hpassed : l.passed = (s.loc t).passed + 1) (hafter : l.reached = l.passed) :
    (view (s.goto t l)).Inv := by
  refine h.barrier.leave (t := t) hbefore ?_ ?_ ?_ rfl
  · change Fintype.card Thread ∣ (view s).count ((s.loc t).passed % 2)
    rw [view_count, ← hflag, card_thread]
    exact Nat.dvd_of_mod_eq_zero hv
  · funext u
    by_cases hu : u = t
    · subst hu
      simp [view, World.goto, hpassed]
    · simp [view, World.goto, Function.update_of_ne hu]
  · funext u
    refine field_update (g := Local.reached) ?_ u
    rw [hafter, hpassed, hbefore]

theorem Inv.barrier_issue (h : Inv useCpuFence s) (hi : Issue useCpuFence s t s') :
    (view s').Inv := by
  cases hi
  case wait => exact h.barrier
  case create1 hpc hb =>
    exact h.barrier_create (h.asleep .one (by rw [hpc]; trivial)) rfl (by simp [Local.reached, hpc])
  case create2 hpc hb =>
    exact h.barrier_create (h.asleep .two (by rw [hpc]; rfl)) rfl (by simp [Local.reached, hpc])
  case zeroStart hpc hs =>
    -- the counter is zero already
    obtain ⟨hstart, -⟩ := h.counters_zero fun r => by rw [hpc]; trivial
    refine h.barrier_stored hs rfl (by simp [Local.reached, hpc]) ?_ (hs.mem _ nofun)
    exact hs.mem_self.elim id fun h0 => h0.trans hstart.symm
  case zeroEnd hpc hs =>
    obtain ⟨-, hend⟩ := h.counters_zero fun r => by rw [hpc]; trivial
    refine h.barrier_stored hs rfl (by simp [Local.reached, hpc]) (hs.mem _ nofun) ?_
    exact hs.mem_self.elim id fun h0 => h0.trans hend.symm
  case resetX hpc hs | resetY hpc hs =>
    exact h.barrier_stored hs rfl (by simp [Local.reached, hpc]) (hs.mem _ nofun)
      (hs.mem _ nofun)
  case storeOwn r hpc hs | storeR r hpc hs =>
    exact h.barrier_stored hs rfl (by simp [Local.reached, hpc])
      (hs.mem _ (by cases r <;> nofun)) (hs.mem _ (by cases r <;> nofun))
  case fence r hpc hb | loadOther r hpc | testR1 hpc hv | testR2 hpc hv | report hpc =>
    exact h.barrier_goto rfl (by simp [Local.reached, hpc])
  case noReport hpc =>
    exact h.barrier_goto rfl (by rcases hpc with hpc | hpc <;> simp [Local.reached, hpc])
  case arriveStart hpc hb =>
    have heven := placed_start (h.placed t) (.inl hpc)
    exact h.barrier_arrive (by rw [flagOf, if_pos heven]) (by simp [Local.reached, hpc]) rfl rfl
  case arriveEnd hpc hb =>
    have hodd := placed_end (h.placed t) (.inl hpc)
    exact h.barrier_arrive (by rw [flagOf, if_neg (by omega)]) (by simp [Local.reached, hpc])
      rfl rfl
  case leaveStart hpc hv =>
    have heven := placed_start (h.placed t) (.inr hpc)
    have hb : s.buf t = [] := h.buf_eq_nil (by cases t <;> simp [mayBuffer, hpc])
    rw [read_of_empty hb] at hv
    exact h.barrier_leave (by rw [flagOf, if_pos heven]) hv (by simp [Local.reached, hpc]) rfl
      (by cases t <;> simp [Local.reached, afterStart])
  case leaveEnd hpc hv =>
    have hodd := placed_end (h.placed t) (.inr hpc)
    have hb : s.buf t = [] := h.buf_eq_nil (by cases t <;> simp [mayBuffer, hpc])
    rw [read_of_empty hb] at hv
    exact h.barrier_leave (by rw [flagOf, if_neg (by omega)]) hv (by simp [Local.reached, hpc]) rfl
      (by cases t <;> simp [Local.reached, afterEnd])

/-! ### Flushing -/

theorem mayBuffer_routine {r : Routine} {e : Var × Val}
    (he : e ∈ mayBuffer useCpuFence (.routine r) l) : e.1 = r.own ∨ e.1 = r.res := by
  have hsub : ∀ e ∈ mayBuffer useCpuFence (.routine r) l, e ∈ [(r.own, 1), (r.res, l.reg)] := by
    cases hpc : l.pc <;> cases useCpuFence <;> simp [mayBuffer, hpc]
  have hmem := hsub e he
  simp only [List.mem_cons, List.not_mem_nil, or_false] at hmem
  exact hmem.imp (congrArg Prod.fst) (congrArg Prod.fst)

/-- A store to a counter is buffered only before the first routine is created. -/
theorem mayBuffer_counter {e : Var × Val} (he : e ∈ mayBuffer useCpuFence t l)
    (hx : e.1 = .start ∨ e.1 = .«end») :
    t = .main ∧ e.2 = 0 ∧ (l.pc = .zeroEnd ∨ l.pc = .create1) := by
  cases t with
  | main =>
      obtain ⟨x, v⟩ := e
      refine ⟨rfl, ?_⟩
      cases hpc : l.pc <;> simp [mayBuffer, hpc] at he <;>
        rcases he with ⟨rfl, rfl⟩ | ⟨rfl, rfl⟩ <;> simp at hx ⊢
  | routine r =>
      rcases mayBuffer_routine he with hr | hr <;> rw [hr] at hx <;>
        cases r <;> simp [Routine.own, Routine.res] at hx

/-- Only zeros are flushed to the counters, and only before anything is counted. -/
theorem Inv.barrier_flushed (h : Inv useCpuFence s) (hf : Flushed s t s') : (view s').Inv := by
  obtain ⟨⟨x, v⟩, he, hmem⟩ := hf.written
  have hcounters : s'.mem .start = s.mem .start ∧ s'.mem .«end» = s.mem .«end» := by
    rw [hmem]
    by_cases hx : x = .start ∨ x = .«end»
    · obtain ⟨rfl, hv, hpc⟩ := mayBuffer_counter (h.buffered t _ he) hx
      obtain rfl : v = 0 := hv
      obtain ⟨hstart, hend⟩ := h.counters_zero fun r => by
        rcases hpc with hpc | hpc <;> rw [hpc] <;> trivial
      rcases hx with rfl | rfl <;> simp [hstart, hend]
    · rw [not_or] at hx
      exact ⟨Function.update_of_ne (Ne.symm hx.1) _ _, Function.update_of_ne (Ne.symm hx.2) _ _⟩
  have hview : view s' = view s := view_eq (fun u => by rw [hf.loc]) (fun u => by rw [hf.loc])
    hcounters.1 hcounters.2
  rw [hview]
  exact h.barrier

/-! ### Every step and every run -/

theorem Inv.issue (h : Inv useCpuFence s) (hi : Issue useCpuFence s t s') : Inv useCpuFence s' :=
  ⟨h.placed_issue hi, h.asleep_issue hi, h.buffered_issue hi, h.barrier_issue hi⟩

theorem Inv.flushed (h : Inv useCpuFence s) (hf : Flushed s t s') : Inv useCpuFence s' where
  placed u := by rw [hf.loc]; exact h.placed u
  asleep := by rw [hf.loc]; exact h.asleep
  buffered u e he := by
    rw [hf.loc]
    by_cases hu : u = t
    · subst hu
      exact h.buffered u e (hf.buf_self e he)
    · rw [hf.buf u hu] at he
      exact h.buffered u e he
  barrier := h.barrier_flushed hf

/-- The invariant holds in every state that is reached. -/
theorem inv_run {ls : List Ev} (h : Run (Step useCpuFence m) init ls s) :
    Inv useCpuFence s ∧ (m = .sc → ∀ t, s.buf t = []) := by
  refine Run.invariant_state (I := fun s => Inv useCpuFence s ∧ (m = .sc → ∀ t, s.buf t = []))
    ⟨Inv.init, fun _ _ => rfl⟩ ?_ h
  intro s e s' hp hs
  obtain ⟨hinv, hsc⟩ := hp
  constructor
  · rcases step_cases hsc hs with ⟨t, -, hi⟩ | ⟨t, -, hf⟩
    · exact hinv.issue hi
    · exact hinv.flushed hf
  · intro heq
    obtain rfl := heq
    exact sc_buf_of_step hs (hsc rfl)

/-! ### What other threads notice -/

/-- The variables a thread writes. -/
def writes : Thread → List Var
  | .main => [.start, .«end», .X, .Y]
  | .routine r => [.start, .«end», r.own, r.res]

/-- What a step of `t` leaves alone. -/
structure Frame (t : Thread) (s s' : World) : Prop where
  mem : ∀ x, x ∉ writes t → s'.mem x = s.mem x
  buf : ∀ u, u ≠ t → s'.buf u = s.buf u
  loc : ∀ u, u ≠ t → s'.loc u = s.loc u ∨
    (s.loc u).pc = .notCreated ∧ s'.loc u = create (s.loc u)

theorem Frame.refl (t : Thread) (s : World) : Frame t s s :=
  ⟨fun _ _ => rfl, fun _ _ => rfl, fun _ _ => .inl rfl⟩

theorem frame_goto (s : World) (t : Thread) (l : Local) : Frame t s (s.goto t l) :=
  ⟨fun _ _ => rfl, fun _ _ => rfl, fun _ hu => .inl (Function.update_of_ne hu _ _)⟩

theorem frame_stored {x : Var} {v : Val} (hs : Stored s t x v l s') (hx : x ∈ writes t) :
    Frame t s s' where
  mem y hy := hs.mem y (by rintro rfl; exact hy hx)
  buf := hs.buf
  loc u hu := by
    rw [hs.loc]
    exact .inl (Function.update_of_ne hu _ _)

theorem frame_create (s : World) {r : Routine} (l : Local)
    (hr : (s.loc (.routine r)).pc = .notCreated) :
    Frame .main s ((s.goto (.routine r) (create (s.loc (.routine r)))).goto .main l) where
  mem _ _ := rfl
  buf _ _ := rfl
  loc u hu := by
    cases u with
    | main => exact absurd rfl hu
    | routine r' =>
        by_cases hrr : r' = r
        · subst hrr
          exact .inr ⟨hr, by simp [World.goto]⟩
        · exact .inl (by simp [World.goto, Function.update, hrr])

theorem frame_count (s : World) (t : Thread) (l : Local) {x : Var} (v : Val) (hx : x ∈ writes t) :
    Frame t s { s.goto t l with mem := Function.update s.mem x v } where
  mem y hy := Function.update_of_ne (by rintro rfl; exact hy hx) _ _
  buf _ _ := rfl
  loc _ hu := .inl (Function.update_of_ne hu _ _)

theorem Inv.frame_issue (h : Inv useCpuFence s) (hi : Issue useCpuFence s t s') :
    Frame t s s' := by
  cases hi
  case wait => exact .refl t s
  case create1 hpc hb => exact frame_create s _ (h.asleep .one (by rw [hpc]; trivial))
  case create2 hpc hb => exact frame_create s _ (h.asleep .two (by rw [hpc]; rfl))
  case zeroStart hpc hs | zeroEnd hpc hs | resetX hpc hs | resetY hpc hs =>
    exact frame_stored hs (by simp [writes])
  case storeOwn r hpc hs | storeR r hpc hs => exact frame_stored hs (by simp [writes])
  case arriveStart hpc hb | arriveEnd hpc hb =>
    exact frame_count s t _ _ (by cases t <;> simp [writes])
  all_goals exact frame_goto s _ _

theorem mayBuffer_writes {e : Var × Val} (he : e ∈ mayBuffer useCpuFence t l) :
    e.1 ∈ writes t := by
  cases t with
  | main => cases hpc : l.pc <;> simp [mayBuffer, hpc] at he <;> rcases he with rfl | rfl <;>
      simp [writes]
  | routine r => rcases mayBuffer_routine he with hr | hr <;> simp [writes, hr]

theorem Inv.frame_flushed (h : Inv useCpuFence s) (hf : Flushed s t s') : Frame t s s' where
  mem x hx := hf.mem x fun e he heq => hx (heq ▸ mayBuffer_writes (h.buffered t e he))
  buf := hf.buf
  loc u _ := .inl (by rw [hf.loc])

end Codelib.Reorder
