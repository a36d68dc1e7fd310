import Codelib.Reorder.LockStep

/-!
# Codelib.Reorder.Progress

**The rounds go on** (`goes_on`), whatever the memory model and with or without the fence: the three
threads never wait for each other in a circle, and no thread can go on for long without the others.

A look at a counter that has to be repeated is no `Move`. Every other step gets its thread further
in `Local.effort`, which counts a store twice, once for the instruction and once for its way to
memory; and the barriers keep the three threads at the same round.
-/

namespace Codelib.Reorder

open StoreBuffer StoreBuffer.State

variable {useCpuFence : Bool} {m : Model} {s s' : World} {t : Thread} {l : Local}

/-- A step that is not another look at a counter. -/
def Move (useCpuFence : Bool) (m : Model) (s : World) (e : Ev) (s' : World) : Prop :=
  Step useCpuFence m s e s' ∧ s' ≠ s

/-! ### What a thread has done -/

/-- What `main` has done since it began its round, or before the first one. -/
def Pc.main : Pc → Nat
  | .zeroEnd | .resetY => 2
  | .create1 | .arriveStart => 4
  | .create2 | .spinStart => 5
  | .arriveEnd => 6
  | .spinEnd => 7
  | .testR1 => 8
  | .testR2 => 9
  | .report => 10
  | _ => 0

/-- What a routine has done since it began its round. -/
def Pc.routine : Pc → Nat
  | .spinStart => 1
  | .storeOwn => 2
  | .fence => 4
  | .loadOther => 5
  | .storeR => 6
  | .arriveEnd => 8
  | .spinEnd => 9
  | _ => 0

/-- `main` before its first round. -/
def Pc.Early : Pc → Prop
  | .zeroStart | .zeroEnd | .create1 | .create2 => True
  | _ => False

instance (pc : Pc) : Decidable pc.Early := by
  cases pc <;> unfold Pc.Early <;> infer_instance

/-- What a thread has done, a store counted twice. -/
def Local.effort (l : Local) : Thread → Nat
  | .main => if l.pc.Early then l.pc.main else 6 + 11 * (l.iter - 1) + l.pc.main
  | .routine _ => 10 * (l.iter - 1) + l.pc.routine

/-- The next instruction is a store. -/
def Pc.Stores : Pc → Prop
  | .zeroStart | .zeroEnd | .resetX | .resetY | .storeOwn | .storeR => True
  | _ => False

instance (pc : Pc) : Decidable pc.Stores := by
  cases pc <;> unfold Pc.Stores <;> infer_instance

def Pc.Spins (pc : Pc) : Prop := pc = .spinStart ∨ pc = .spinEnd

/-- The stores of all threads that are not in memory yet. -/
def buffered (s : World) : Nat := ∑ t, (s.buf t).length

def efforts (s : World) : Nat := ∑ t, (s.loc t).effort t

/-- Every instruction gets its thread further, except for a look that has to be repeated. -/
theorem Inv.effort_issue (h : Inv useCpuFence s) (hi : Issue useCpuFence s t s') :
    (s.loc t).pc.Spins ∧ s' = s ∨
      (s.loc t).effort t + (if (s.loc t).pc.Stores then 2 else 1) ≤ (s'.loc t).effort t := by
  have hp := h.placed t
  cases hi
  case wait hpc => exact .inl ⟨hpc, rfl⟩
  case zeroStart hpc hs | zeroEnd hpc hs | resetX hpc hs | resetY hpc hs | storeOwn hpc hs |
      storeR hpc hs =>
    right
    rw [hs.loc, Function.update_self]
    simp [Local.effort, hpc, Pc.Early, Pc.Stores, Pc.main, Pc.routine]
  case create1 hpc hb | fence hpc hb | loadOther hpc | testR1 hpc hv | testR2 hpc hv =>
    right
    simp [World.goto, Local.effort, hpc, Pc.Early, Pc.Stores, Pc.main, Pc.routine]
  case create2 hpc hb =>
    right
    simp only [Placed, hpc] at hp
    simp [World.goto, Local.effort, hpc, hp.2, Pc.Early, Pc.Stores, Pc.main]
  case noReport hpc =>
    right
    rcases hpc with hpc | hpc <;>
    · simp only [Placed, hpc] at hp
      simp [World.goto, Local.effort, hpc, Pc.Early, Pc.Stores, Pc.main]
      omega
  case report hpc =>
    right
    simp only [Placed, hpc] at hp
    simp [World.goto, Local.effort, hpc, Pc.Early, Pc.Stores, Pc.main]
    omega
  case arriveStart hpc hb | arriveEnd hpc hb =>
    right
    cases t <;> simp [World.goto, Local.effort, hpc, Pc.Early, Pc.Stores, Pc.main, Pc.routine]
  case leaveStart hpc hv =>
    right
    cases t <;>
      simp [World.goto, afterStart, Local.effort, hpc, Pc.Early, Pc.Stores, Pc.main, Pc.routine]
  case leaveEnd hpc hv =>
    right
    cases t <;> simp only [Placed, hpc] at hp <;>
      simp [World.goto, afterEnd, Local.effort, hpc, Pc.Early, Pc.Stores, Pc.main, Pc.routine]
    omega

theorem create_effort (h : l.pc = .notCreated) (r : Routine) :
    (create l).effort (.routine r) = l.effort (.routine r) := by
  simp [create, Local.effort, Pc.routine, h]

theorem Frame.effort (hf : Frame t s s') (h : Inv useCpuFence s) {u : Thread} (hu : u ≠ t) :
    (s'.loc u).effort u = (s.loc u).effort u := by
  rcases hf.loc u hu with hloc | ⟨hnew, hloc⟩
  · rw [hloc]
  · cases u with
    | main =>
        have hp := h.placed .main
        simp [Placed, hnew] at hp
    | routine r => rw [hloc, create_effort hnew]

/-- Two sums that differ in the part of one thread. -/
theorem sum_of_ne {f g : Thread → Nat} (h : ∀ u, u ≠ t → f u = g u) :
    ∑ u, f u + g t = ∑ u, g u + f t := by
  have hother : ∑ u ∈ Finset.univ.erase t, f u = ∑ u ∈ Finset.univ.erase t, g u :=
    Finset.sum_congr rfl fun u hu => h u (Finset.ne_of_mem_erase hu)
  rw [← Finset.add_sum_erase _ f (Finset.mem_univ t), ← Finset.add_sum_erase _ g (Finset.mem_univ t),
    hother]
  omega

theorem Frame.efforts (hf : Frame t s s') (h : Inv useCpuFence s) :
    efforts s' + (s.loc t).effort t = efforts s + (s'.loc t).effort t :=
  sum_of_ne fun _ hu => hf.effort h hu

/-! ### What is buffered -/

theorem buffered_update {buf : List (Var × Val)} (hb : s'.buf = Function.update s.buf t buf) :
    buffered s' + (s.buf t).length = buffered s + buf.length := by
  have hself : (s'.buf t).length = buf.length := by rw [hb, Function.update_self]
  have hother : ∀ u, u ≠ t → (s'.buf u).length = (s.buf u).length :=
    fun u hu => by rw [hb, Function.update_of_ne hu]
  rw [← hself]
  exact sum_of_ne hother

/-- The instructions that store are the ones marked so. -/
theorem stores_of_program {x : Var} {v : Val} {l' : Local}
    (h : program useCpuFence t l = some (.store x v l')) : l.pc.Stores := by
  cases t with
  | main =>
      simp only [program, mainThread] at h
      cases hpc : l.pc <;> simp_all [Pc.Stores, arrive, spin]
  | routine r =>
      rw [program_routine, threadRoutine] at h
      cases hpc : l.pc <;> cases useCpuFence <;> simp_all [Pc.Stores, arrive, spin]

theorem buffered_issue (h : Step useCpuFence m s (.issue t l) s') :
    buffered s' + 1 ≤ buffered s + if l.pc.Stores then 2 else 1 := by
  obtain ⟨-, i, hi, hp⟩ := exec_issue (exec_of_step h)
  rcases perform_buf hp with hb | ⟨x, v, l', rfl, hb⟩
  · rw [buffered, hb, ← buffered]
    split <;> omega
  · have hlen := buffered_update hb
    rw [List.length_append, List.length_singleton] at hlen
    rw [if_pos (stores_of_program hi)]
    omega

theorem buffered_flush (h : Step useCpuFence m s (.flush t) s') :
    buffered s' + 1 = buffered s := by
  obtain ⟨e, rest, ht, hb⟩ := flush_buf (exec_of_step h)
  have hlen := buffered_update hb
  rw [ht, List.length_cons] at hlen
  omega

/-! ### How long a run can be -/

theorem efforts_move {e : Ev} (h : Inv useCpuFence s) (hsc : m = .sc → ∀ t, s.buf t = [])
    (hm : Move useCpuFence m s e s') :
    efforts s + buffered s' + 1 ≤ efforts s' + buffered s := by
  obtain ⟨hs, hne⟩ := hm
  rcases step_cases hsc hs with ⟨t, rfl, hi⟩ | ⟨t, rfl, hf⟩
  · rcases h.effort_issue hi with ⟨-, rfl⟩ | heffort
    · exact absurd rfl hne
    · have hsum := (h.frame_issue hi).efforts h
      have hbuf := buffered_issue hs
      omega
  · have hsum : efforts s' = efforts s := by rw [efforts, hf.loc, ← efforts]
    have hbuf := buffered_flush hs
    omega

theorem length_run {ls : List Ev} (h : Run (Move useCpuFence m) init ls s) :
    ls.length + buffered s ≤ efforts s := by
  induction h with
  | nil => decide
  | snoc hr hm ih =>
      obtain ⟨hinv, hsc⟩ := inv_run (hr.mono And.left)
      have hmove := efforts_move hinv hsc hm
      rw [List.length_append, List.length_singleton]
      omega

/-- A routine that is not created yet is one that `main` is still to create. -/
def Awake (s : World) : Prop :=
  ∀ r, (s.loc (.routine r)).pc = .notCreated → Asleep (s.loc .main).pc r

theorem Issue.created {r : Routine} (hi : Issue useCpuFence s (.routine r) s') :
    (s'.loc (.routine r)).pc ≠ .notCreated := by
  cases hi
  case wait hpc =>
    rcases hpc with hpc | hpc
    · exact hpc ▸ Pc.noConfusion
    · exact hpc ▸ Pc.noConfusion
  case storeOwn hpc hs | storeR hpc hs =>
    rw [hs.loc, Function.update_self]
    exact Pc.noConfusion
  case leaveStart hpc hv => simp [World.goto, afterStart]
  case leaveEnd hpc hv => simp [World.goto, afterEnd]
  all_goals simp [World.goto]

/-- `main` creates the routine before it goes on to where it is no longer to create it. -/
theorem Issue.asleep {r : Routine} (hi : Issue useCpuFence s .main s')
    (h : Asleep (s.loc .main).pc r) :
    Asleep (s'.loc .main).pc r ∨ (s'.loc (.routine r)).pc ≠ .notCreated := by
  cases hi
  case zeroStart hpc hs | zeroEnd hpc hs =>
    left
    rw [hs.loc, Function.update_self]
    trivial
  case create1 hpc hb =>
    cases r with
    | one => exact .inr (by simp [World.goto, create])
    | two => exact .inl (by simp [World.goto, Asleep])
  case create2 hpc hb =>
    rw [hpc] at h
    obtain rfl : r = .two := h
    exact .inr (by simp [World.goto, create])
  case wait hpc | noReport hpc =>
    rcases hpc with hpc | hpc <;> rw [hpc] at h <;> exact False.elim h
  case report hpc =>
    rw [hpc] at h
    exact False.elim h
  all_goals
    rename_i hpc _
    rw [hpc] at h
    exact False.elim h

theorem Awake.issue (h : Awake s) (hinv : Inv useCpuFence s) (hi : Issue useCpuFence s t s') :
    Awake s' := by
  intro r hr
  have hf := hinv.frame_issue hi
  by_cases ht : t = .routine r
  · subst ht
    exact absurd hr hi.created
  have hasleep : Asleep (s.loc .main).pc r := by
    rcases hf.loc _ (Ne.symm ht) with hloc | ⟨hnew, -⟩
    · exact h r (hloc ▸ hr)
    · exact h r hnew
  cases t with
  | main => exact (hi.asleep hasleep).resolve_right (not_not_intro hr)
  | routine q =>
      rcases hf.loc .main Thread.noConfusion with hloc | ⟨hnew, -⟩
      · rwa [hloc]
      · have hp := hinv.placed .main
        simp only [Placed, hnew] at hp

end Codelib.Reorder
