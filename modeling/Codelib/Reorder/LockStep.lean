import Codelib.Reorder.Invariant

/-!
# Codelib.Reorder.LockStep

**The rounds of the three threads do not overlap** (`lock_step`), whatever the
memory model and with or without the fence.

Whenever `main` is not at a barrier and has passed an even number of them — while it
resets `X` and `Y`, and while it tests `r1` and `r2` — both routines are between two
rounds and have finished the same ones (`Inv.resting`). What they have done so far is
kept track of along the run: `Rounds` relates the state of a routine to the events of
the history, and `Results` says where its latest result is.
-/

namespace Codelib.Reorder

open StoreBuffer StoreBuffer.State

variable {useCpuFence : Bool} {m : Model} {s s' : World} {t : Thread} {l l' : Local} {r : Routine}

/-! ### The rounds of a routine -/

/-- The last round in which a routine has stored to its own variable. -/
def Local.begun (l : Local) : Nat :=
  match l.pc with
  | .fence | .loadOther | .storeR | .arriveEnd | .spinEnd => l.iter
  | _ => l.iter - 1

/-- The last round in which a routine has stored its result. -/
def Local.stored (l : Local) : Nat :=
  match l.pc with
  | .arriveEnd | .spinEnd => l.iter
  | _ => l.iter - 1

/-- A routine between two rounds. -/
def Local.Resting (l : Local) : Prop :=
  l.pc = .notCreated ∨ l.pc = .arriveStart ∨ l.pc = .spinStart ∨ l.pc = .spinEnd

theorem Local.Resting.ne_storeR (h : l.Resting) : l.pc ≠ .storeR := by
  rcases h with h | h | h | h <;> simp [h]

theorem Local.Resting.ne_loadOther (h : l.Resting) : l.pc ≠ .loadOther := by
  rcases h with h | h | h | h <;> simp [h]

/-- While `main` is not at a barrier and has passed an even number of them, both
routines rest, and they have finished the same rounds. -/
theorem Inv.resting (h : Inv useCpuFence s) {n : Nat} (hn : (s.loc .main).passed = 2 * n)
    (hm : (s.loc .main).reached = (s.loc .main).passed) (r : Routine) :
    (s.loc (.routine r)).Resting ∧ (s.loc (.routine r)).begun = n ∧
      (s.loc (.routine r)).stored = n := by
  have hmr : (s.loc .main).passed ≤ (s.loc (.routine r)).reached := h.barrier.meet .main (.routine r)
  have hrm : (s.loc (.routine r)).passed ≤ (s.loc .main).reached := h.barrier.meet (.routine r) .main
  have hp := h.placed (.routine r)
  cases hpc : (s.loc (.routine r)).pc <;>
    simp only [Placed, hpc, Local.reached, Local.Resting, Local.begun, Local.stored,
      reduceCtorEq, or_true, or_false, true_and, false_and] at hp hmr ⊢ <;> omega

/-- What an instruction of a routine does to its rounds. -/
structure Local.Goes (l l' : Local) : Prop where
  begun_le : l.begun ≤ l'.begun
  begun_own : l.pc = .storeOwn → l.iter ≤ l'.begun
  stored_eq : l.pc ≠ .storeR → l'.stored = l.stored
  stored_storeR : l.pc = .storeR → l'.stored = l.iter ∧ l.stored + 1 = l.iter
  reg_eq : l'.pc ≠ .storeR → l'.reg = l.reg

theorem Local.Goes.refl (h : l.pc = .spinStart ∨ l.pc = .spinEnd) : l.Goes l where
  begun_le := Nat.le_refl _
  begun_own hpc := by rcases h with h | h <;> simp [h] at hpc
  stored_eq _ := rfl
  stored_storeR hpc := by rcases h with h | h <;> simp [h] at hpc
  reg_eq _ := rfl

theorem Inv.goes (h : Inv useCpuFence s) (hi : Issue useCpuFence s (.routine r) s') :
    (s.loc (.routine r)).Goes (s'.loc (.routine r)) := by
  have hp := h.placed (.routine r)
  cases hi
  case wait hpc => exact .refl hpc
  case storeOwn hpc hs | storeR hpc hs =>
    rw [hs.loc, Function.update_self]
    simp only [Placed, hpc] at hp
    constructor <;> simp [Local.begun, Local.stored, hpc]
    try omega
  case fence hpc hb | loadOther hpc | arriveStart hpc hb | arriveEnd hpc hb =>
    constructor <;> simp [World.goto, Local.begun, Local.stored, hpc]
  case leaveStart hpc hv | leaveEnd hpc hv =>
    constructor <;> simp [World.goto, Local.begun, Local.stored, hpc, afterStart, afterEnd]

/-! ### Where the latest result is -/

/-- Each routine finds the result of its last round in its variable. -/
def Results (s : World) : Prop :=
  ∀ r, 1 ≤ (s.loc (.routine r)).stored → (s.loc (.routine r)).pc ≠ .storeR →
    s.read (.routine r) r.res = (s.loc (.routine r)).reg

theorem Routine.res_ne_own (r r' : Routine) : r.res ≠ r'.own := by
  cases r <;> cases r' <;> nofun

theorem Routine.res_not_mem_writes {r : Routine} (h : t ≠ .routine r) : r.res ∉ writes t := by
  cases t with
  | main => cases r <;> simp [writes, res]
  | routine r' => cases r <;> cases r' <;> simp_all [writes, res, own]

/-- Only storing a result changes what the routine finds there. -/
theorem read_res_issue (hi : Issue useCpuFence s (.routine r) s')
    (hpc : (s.loc (.routine r)).pc ≠ .storeR) :
    s'.read (.routine r) r.res = s.read (.routine r) r.res := by
  cases hi
  case storeOwn hown hs => exact hs.read _ (Routine.res_ne_own r r)
  case storeR hres hs => exact absurd hres hpc
  case arriveStart h hb | arriveEnd h hb =>
    exact read_congr rfl (Function.update_of_ne (by cases r <;> nofun) _ _)
  all_goals rfl

theorem create_stored (h : l.pc = .notCreated) : (create l).stored = l.stored := by
  simp [create, Local.stored, h]

theorem create_begun (h : l.pc = .notCreated) : (create l).begun = l.begun := by
  simp [create, Local.begun, h]

theorem Results.frame (h : Results s) (hf : Frame t s s') (hne : t ≠ .routine r)
    (hstored : 1 ≤ (s'.loc (.routine r)).stored) (hpc : (s'.loc (.routine r)).pc ≠ .storeR) :
    s'.read (.routine r) r.res = (s'.loc (.routine r)).reg := by
  rw [read_congr (hf.buf _ hne.symm) (hf.mem _ (Routine.res_not_mem_writes hne))]
  rcases hf.loc _ hne.symm with hloc | ⟨hnew, hloc⟩
  · rw [hloc] at hstored hpc ⊢
    exact h r hstored hpc
  · rw [hloc, create_stored hnew] at hstored
    rw [hloc]
    exact h r hstored (by simp [hnew])

theorem Results.issue (h : Results s) (hinv : Inv useCpuFence s)
    (hi : Issue useCpuFence s t s') : Results s' := by
  intro r hstored hpc
  by_cases hne : t = .routine r
  · subst hne
    have hgoes := hinv.goes hi
    rw [hgoes.reg_eq hpc]
    by_cases hres : (s.loc (.routine r)).pc = .storeR
    · cases hi
      case storeR hpc' hs => exact hs.read_self
      all_goals simp_all
    · rw [hgoes.stored_eq hres] at hstored
      rw [read_res_issue hi hres]
      exact h r hstored hres
  · exact h.frame (hinv.frame_issue hi) hne hstored hpc

theorem Results.flushed (h : Results s) (hinv : Inv useCpuFence s) (hf : Flushed s t s') :
    Results s' := by
  intro r hstored hpc
  by_cases hne : t = .routine r
  · subst hne
    rw [hf.loc] at hstored hpc ⊢
    rw [hf.read]
    exact h r hstored hpc
  · exact h.frame (hinv.frame_flushed hf) hne hstored hpc

theorem results_run {ls : List Ev} (h : Run (Step useCpuFence m) init ls s) : Results s := by
  induction h with
  | nil => exact fun r hstored => absurd hstored (by simp [init, Local.stored])
  | snoc hr hs ih =>
      obtain ⟨hinv, hsc⟩ := inv_run hr
      rcases step_cases hsc hs with ⟨t, -, hi⟩ | ⟨t, -, hf⟩
      · exact ih.issue hinv hi
      · exact ih.flushed hinv hf

/-! ### The history of a routine -/

/-- The events of routine `r` up to its local state `l`. -/
structure Rounds (ls : List Ev) (r : Routine) (l : Local) : Prop where
  own : ∀ l', .issue (.routine r) l' ∈ ls → l'.pc = .storeOwn → l'.iter ≤ l.begun
  res : ∀ j, 1 ≤ j → j ≤ l.stored →
    ∃ l', .issue (.routine r) l' ∈ ls ∧ l'.pc = .storeR ∧ l'.iter = j
  res_le : ∀ l', .issue (.routine r) l' ∈ ls → l'.pc = .storeR → l'.iter ≤ l.stored
  reg : ∀ l', .issue (.routine r) l' ∈ ls → l'.pc = .storeR → l'.iter = l.stored →
    l.pc ≠ .storeR → l'.reg = l.reg

/-- An event of another thread adds nothing to the history. -/
theorem Rounds.other {ls : List Ev} {e : Ev} (h : Rounds ls r l)
    (he : ∀ l', e ≠ .issue (.routine r) l') : Rounds (ls ++ [e]) r l := by
  have hmem : ∀ l', .issue (.routine r) l' ∈ ls ++ [e] ↔ .issue (.routine r) l' ∈ ls := by
    intro l'
    rw [List.mem_append, List.mem_singleton, or_iff_left (Ne.symm (he l'))]
  constructor <;> simp only [hmem]
  · exact h.own
  · exact h.res
  · exact h.res_le
  · exact h.reg

theorem Rounds.create {ls : List Ev} (h : Rounds ls r l) (hnew : l.pc = .notCreated) :
    Rounds ls r (create l) := by
  constructor
  · rw [create_begun hnew]
    exact h.own
  · rw [create_stored hnew]
    exact h.res
  · rw [create_stored hnew]
    exact h.res_le
  · rw [create_stored hnew]
    exact fun l' he hpc hiter _ => h.reg l' he hpc hiter (by simp [hnew])

/-- An instruction of the routine itself. -/
theorem Rounds.goes {ls : List Ev} (h : Rounds ls r l) (hg : l.Goes l') :
    Rounds (ls ++ [.issue (.routine r) l]) r l' := by
  have hmem : ∀ k, .issue (.routine r) k ∈ ls ++ [.issue (.routine r) l] ↔
      .issue (.routine r) k ∈ ls ∨ k = l := by
    intro k
    rw [List.mem_append, List.mem_singleton, Event.issue.injEq, eq_self_iff_true, true_and]
  constructor <;> simp only [hmem]
  · intro k hp hpc
    rcases hp with hk | rfl
    · exact (h.own k hk hpc).trans hg.begun_le
    · exact hg.begun_own hpc
  · intro j hj hle
    by_cases hres : l.pc = .storeR
    · obtain ⟨hlast, hprev⟩ := hg.stored_storeR hres
      by_cases hj' : j = l.iter
      · exact ⟨l, .inr rfl, hres, hj'.symm⟩
      · obtain ⟨k, hk, hpc, hiter⟩ := h.res j hj (by omega)
        exact ⟨k, .inl hk, hpc, hiter⟩
    · rw [hg.stored_eq hres] at hle
      obtain ⟨k, hk, hpc, hiter⟩ := h.res j hj hle
      exact ⟨k, .inl hk, hpc, hiter⟩
  · intro k hp hpc
    rcases hp with hk | rfl
    · have hle := h.res_le k hk hpc
      by_cases hres : l.pc = .storeR
      · obtain ⟨hlast, hprev⟩ := hg.stored_storeR hres
        omega
      · rwa [hg.stored_eq hres]
    · exact (hg.stored_storeR hpc).1.ge
  · intro k hp hpc hiter hpc'
    rcases hp with hk | rfl
    · have hle := h.res_le k hk hpc
      by_cases hres : l.pc = .storeR
      · obtain ⟨hlast, hprev⟩ := hg.stored_storeR hres
        omega
      · rw [hg.stored_eq hres] at hiter
        rw [hg.reg_eq hpc']
        exact h.reg k hk hpc hiter hres
    · exact (hg.reg_eq hpc').symm

theorem rounds_run {ls : List Ev} (h : Run (Step useCpuFence m) init ls s) (r : Routine) :
    Rounds ls r (s.loc (.routine r)) := by
  induction h with
  | nil =>
      constructor
      · exact fun _ he => absurd he List.not_mem_nil
      · exact fun j hj hle => absurd (hj.trans hle) (by simp [init, Local.stored])
      · exact fun _ he => absurd he List.not_mem_nil
      · exact fun _ he => absurd he List.not_mem_nil
  | @snoc ls s s' e hr hs ih =>
      obtain ⟨hinv, hsc⟩ := inv_run hr
      have hother : ∀ {t}, Frame t s s' → t ≠ .routine r → (∀ l', e ≠ .issue (.routine r) l') →
          Rounds (ls ++ [e]) r (s'.loc (.routine r)) := by
        intro t hf hne he
        rcases hf.loc _ hne.symm with hloc | ⟨hnew, hloc⟩
        · rw [hloc]
          exact ih.other he
        · rw [hloc]
          exact (ih.create hnew).other he
      rcases step_cases hsc hs with ⟨t, rfl, hi⟩ | ⟨t, rfl, hf⟩
      · by_cases hne : t = .routine r
        · subst hne
          exact ih.goes (hinv.goes hi)
        · refine hother (hinv.frame_issue hi) hne fun l' heq => hne ?_
          exact (Event.issue.inj heq).1
      · rw [hf.loc]
        exact ih.other (by simp)

/-! ### Lock-step -/

/-- `main` is about to reset `X` or `Y`. -/
def Local.Resetting (l : Local) : Prop := l.pc = .resetX ∨ l.pc = .resetY

/-- `main` is about to look at `r1` or `r2`. -/
def Local.Testing (l : Local) : Prop := l.pc = .testR1 ∨ l.pc = .testR2

/-- What the barriers see to, after the history `ls`. -/
structure LockStep (ls : List Ev) (s : World) : Prop where
  /-- No two threads are more than one barrier apart. -/
  close : ∀ t u, (s.loc t).passed ≤ (s.loc u).passed + 1
  /-- Before a reset every earlier round of both routines has its result stored. -/
  reset_after : (s.loc .main).Resetting → ∀ r j, 1 ≤ j → j < (s.loc .main).iter →
    ∃ l, .issue (.routine r) l ∈ ls ∧ l.pc = .storeR ∧ l.iter = j
  /-- Before a reset neither routine has stored `X` or `Y` of this round or a later one. -/
  reset_before : (s.loc .main).Resetting → ∀ r l,
    .issue (.routine r) l ∈ ls → l.pc = .storeOwn → l.iter < (s.loc .main).iter
  /-- At a test both routines have stored the result of this round. -/
  test_after : (s.loc .main).Testing → ∀ r,
    ∃ l, .issue (.routine r) l ∈ ls ∧ l.pc = .storeR ∧ l.iter = (s.loc .main).iter
  /-- And the test reads what was stored then. -/
  test_reads : (s.loc .main).Testing → ∀ r l, .issue (.routine r) l ∈ ls → l.pc = .storeR →
    l.iter = (s.loc .main).iter → s.read .main r.res = l.reg

/-- When `main` resets, both routines have finished the round before this one, and no
more. -/
theorem Inv.resting_of_resetting (h : Inv useCpuFence s) (hpc : (s.loc .main).Resetting)
    (r : Routine) : (s.loc (.routine r)).begun + 1 = (s.loc .main).iter ∧
      (s.loc (.routine r)).stored + 1 = (s.loc .main).iter := by
  have hp := h.placed .main
  have hpassed : (s.loc .main).passed + 2 = 2 * (s.loc .main).iter := by
    rcases hpc with hpc | hpc <;> simpa only [Placed, hpc] using hp
  have hreached : (s.loc .main).reached = (s.loc .main).passed := by
    rcases hpc with hpc | hpc <;> simp only [Local.reached, hpc]
  obtain ⟨-, hbegun, hstored⟩ :=
    h.resting (n := (s.loc .main).iter - 1) (by omega) hreached r
  omega

/-- When `main` tests, both routines rest and have finished this round. -/
theorem Inv.resting_of_testing (h : Inv useCpuFence s) (hpc : (s.loc .main).Testing)
    (r : Routine) : 1 ≤ (s.loc .main).iter ∧ (s.loc (.routine r)).Resting ∧
      (s.loc (.routine r)).stored = (s.loc .main).iter := by
  have hp := h.placed .main
  have hpassed : (s.loc .main).passed = 2 * (s.loc .main).iter ∧ 1 ≤ (s.loc .main).iter := by
    rcases hpc with hpc | hpc <;> simpa only [Placed, hpc] using hp
  have hreached : (s.loc .main).reached = (s.loc .main).passed := by
    rcases hpc with hpc | hpc <;> simp only [Local.reached, hpc]
  obtain ⟨hrest, -, hstored⟩ := h.resting hpassed.1 hreached r
  exact ⟨hpassed.2, hrest, hstored⟩

theorem Inv.buf_of_resting (h : Inv useCpuFence s) (hrest : (s.loc (.routine r)).Resting) :
    s.buf (.routine r) = [] := by
  refine h.buf_eq_nil ?_
  rcases hrest with hpc | hpc | hpc | hpc <;> simp only [mayBuffer, hpc]

theorem Inv.buf_of_testing (h : Inv useCpuFence s) (hpc : (s.loc .main).Testing) :
    s.buf .main = [] := by
  refine h.buf_eq_nil ?_
  rcases hpc with hpc | hpc <;> simp only [mayBuffer, hpc]

/-- The test sees what the routines loaded in this round. -/
theorem Inv.read_of_testing (h : Inv useCpuFence s) (hres : Results s)
    (hpc : (s.loc .main).Testing) (r : Routine) :
    s.read .main r.res = (s.loc (.routine r)).reg := by
  obtain ⟨hiter, hrest, hstored⟩ := h.resting_of_testing hpc r
  calc s.read .main r.res = s.mem r.res := read_of_empty (h.buf_of_testing hpc) _
    _ = s.read (.routine r) r.res := (read_of_empty (h.buf_of_resting hrest) _).symm
    _ = (s.loc (.routine r)).reg := hres r (by omega) hrest.ne_storeR

/-- **Lock-step**: in every run, for any number of rounds. -/
theorem lock_step {ls : List Ev} (h : Run (Step useCpuFence m) init ls s) : LockStep ls s := by
  obtain ⟨hinv, -⟩ := inv_run h
  constructor
  · exact fun t u => hinv.barrier.passed_le_succ t u
  · intro hpc r j hj hlt
    obtain ⟨-, hstored⟩ := hinv.resting_of_resetting hpc r
    exact (rounds_run h r).res j hj (by omega)
  · intro hpc r l hl hown
    obtain ⟨hbegun, -⟩ := hinv.resting_of_resetting hpc r
    have hle := (rounds_run h r).own l hl hown
    omega
  · intro hpc r
    obtain ⟨hiter, -, hstored⟩ := hinv.resting_of_testing hpc r
    exact (rounds_run h r).res _ hiter hstored.ge
  · intro hpc r l hl hres hiter
    obtain ⟨-, hrest, hstored⟩ := hinv.resting_of_testing hpc r
    rw [hinv.read_of_testing (results_run h) hpc r]
    exact ((rounds_run h r).reg l hl hres (hiter.trans hstored.symm) hrest.ne_storeR).symm

/-- The two routines take `n` turns each, one after the other. -/
def both (n : Nat) : List (Turn Thread) :=
  List.replicate n (.run (.routine .one)) ++ List.replicate n (.run (.routine .two))

/-- A whole round, up to the test. -/
def oneRound : List (Turn Thread) :=
  List.replicate 7 (.run .main) ++ both 1 ++ [.run .main] ++ both 6 ++ [.run .main, .run .main]

theorem lock_step_oneRound : ∃ ls s, Run (Step false .sc) init ls s ∧
    (s.loc .main).pc = .testR1 ∧ LockStep ls s := by
  have hfollow : (follow (next false .sc) State.event init oneRound).map
      (fun r => (r.2.loc .main).pc) = some .testR1 := by
    decide +kernel
  obtain ⟨ls, s, hr, hpc⟩ := Run.of_follow (q := fun s : World => (s.loc .main).pc) hfollow
  exact ⟨ls, s, hr, hpc, lock_step hr⟩

end Codelib.Reorder
