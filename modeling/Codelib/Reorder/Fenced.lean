import Codelib.Reorder.LockStep

/-!
# Codelib.Reorder.Fenced

**With the fence no reordering is ever reported** (`fence_no_report`), under x86-TSO
and for any number of rounds.

A routine sees its own store until `main` resets the variable (`Own`), and with the
fence so does everybody else once the routine has loaded. So whichever routine loads
second in a round loads a one (`Crossed`). `main` looks at the results while both
routines rest, and what it finds is what they loaded in the same round
(`Inv.read_of_testing`), so it does not find two zeros.
-/

namespace Codelib.Reorder

open StoreBuffer StoreBuffer.State

variable {useCpuFence : Bool} {m : Model} {s s' : World} {t : Thread} {l l' : Local} {r : Routine}

/-! ### A routine sees its own store -/

/-- A routine has stored to its own variable and not yet left the round. -/
def Local.InRound (l : Local) : Prop :=
  l.pc = .fence ∨ l.pc = .loadOther ∨ l.pc = .storeR ∨ l.pc = .arriveEnd ∨ l.pc = .spinEnd

/-- Until `main` passes the end of the round too. -/
def Own (s : World) : Prop :=
  ∀ r, (s.loc (.routine r)).InRound → (s.loc .main).passed ≤ (s.loc (.routine r)).passed →
    s.read (.routine r) r.own = 1

/-- Meanwhile `main` is at its barriers. -/
theorem Inv.main_waits (h : Inv useCpuFence s) (hr : (s.loc (.routine r)).InRound)
    (hle : (s.loc .main).passed ≤ (s.loc (.routine r)).passed) :
    (s.loc .main).pc = .spinStart ∨ (s.loc .main).pc = .arriveEnd ∨ (s.loc .main).pc = .spinEnd := by
  have hmeet : (s.loc (.routine r)).passed ≤ (s.loc .main).reached := h.barrier.meet (.routine r) .main
  have hp := h.placed (.routine r)
  have hodd : (s.loc (.routine r)).passed + 1 = 2 * (s.loc (.routine r)).iter := by
    rcases hr with hpc | hpc | hpc | hpc | hpc <;> simpa only [Placed, hpc] using hp
  have hm := h.placed .main
  cases hpc : (s.loc .main).pc <;>
    simp only [Placed, hpc, Local.reached, reduceCtorEq, or_true, or_false] at hm hmeet ⊢ <;> omega

theorem Routine.own_ne_end (r : Routine) : r.own ≠ .«end» := by
  cases r <;> nofun

/-- A step of `main` at its barriers writes counters only. -/
theorem mem_of_waits (hi : Issue useCpuFence s .main s')
    (hpc : (s.loc .main).pc = .spinStart ∨ (s.loc .main).pc = .arriveEnd ∨
      (s.loc .main).pc = .spinEnd) (r : Routine) : s'.mem r.own = s.mem r.own := by
  cases hi
  case arriveEnd => exact Function.update_of_ne (Routine.own_ne_end r) _ _
  case wait | leaveStart | leaveEnd | noReport => rfl
  all_goals simp_all

theorem passed_mono (hi : Issue useCpuFence s t s') : (s.loc t).passed ≤ (s'.loc t).passed := by
  cases hi
  case wait => exact Nat.le_refl _
  case zeroStart hs | zeroEnd hs | resetX hs | resetY hs | storeOwn hs | storeR hs =>
    rw [hs.loc, Function.update_self]
  all_goals simp [World.goto]

theorem Frame.passed {u : Thread} (hf : Frame t s s') (hne : u ≠ t) :
    (s'.loc u).passed = (s.loc u).passed := by
  rcases hf.loc u hne with hloc | ⟨-, hloc⟩
  · rw [hloc]
  · rw [hloc, create]

/-- Another thread does not put a routine into its round. -/
theorem Frame.inRound (hf : Frame t s s') (hne : t ≠ .routine r)
    (h : (s'.loc (.routine r)).InRound) : s'.loc (.routine r) = s.loc (.routine r) := by
  rcases hf.loc _ hne.symm with hloc | ⟨-, hloc⟩
  · exact hloc
  · rw [hloc] at h
    simp [Local.InRound, create] at h

/-- A step of another thread. -/
theorem Own.frame (h : Own s) (hf : Frame t s s') (hne : t ≠ .routine r)
    (hmain : (s.loc .main).passed ≤ (s'.loc .main).passed)
    (hmem : (s.loc (.routine r)).InRound → (s.loc .main).passed ≤ (s.loc (.routine r)).passed →
      s'.mem r.own = s.mem r.own)
    (hr : (s'.loc (.routine r)).InRound)
    (hle : (s'.loc .main).passed ≤ (s'.loc (.routine r)).passed) :
    s'.read (.routine r) r.own = 1 := by
  have hloc := hf.inRound hne hr
  rw [hloc] at hr hle
  rw [read_congr (hf.buf _ hne.symm) (hmem hr (hmain.trans hle))]
  exact h r hr (hmain.trans hle)

theorem Routine.own_not_mem_writes {r r' : Routine} (h : r' ≠ r) :
    r.own ∉ writes (.routine r') := by
  cases r <;> cases r' <;> simp_all [writes, res, own]

/-- A step of the routine itself. -/
theorem Own.issue_self (h : Own s) (hi : Issue useCpuFence s (.routine r) s')
    (hr : (s'.loc (.routine r)).InRound)
    (hle : (s'.loc .main).passed ≤ (s'.loc (.routine r)).passed) :
    s'.read (.routine r) r.own = 1 := by
  cases hi
  case storeOwn hpc hs => exact hs.read_self
  case wait hpc => exact h r hr hle
  case fence hpc hb => exact h r (.inl hpc) (by simpa [World.goto] using hle)
  case loadOther hpc => exact h r (.inr (.inl hpc)) (by simpa [World.goto] using hle)
  case storeR hpc hs =>
    rw [hs.read _ (Routine.res_ne_own r r).symm]
    rw [hs.loc] at hle
    exact h r (.inr (.inr (.inl hpc))) (by simpa using hle)
  case arriveEnd hpc hb =>
    have hself := h r (.inr (.inr (.inr (.inl hpc)))) (by simpa [World.goto] using hle)
    rw [← hself]
    exact read_congr rfl (Function.update_of_ne (Routine.own_ne_end r) _ _)
  case arriveStart hpc hb => simp [World.goto, Local.InRound] at hr
  case leaveStart hpc hv => simp [World.goto, Local.InRound, afterStart] at hr
  case leaveEnd hpc hv => simp [World.goto, Local.InRound, afterEnd] at hr

theorem Own.issue (h : Own s) (hinv : Inv useCpuFence s) (hi : Issue useCpuFence s t s') :
    Own s' := by
  intro r hr hle
  have hf := hinv.frame_issue hi
  cases t with
  | main =>
      exact h.frame hf (by simp) (passed_mono hi)
        (fun hr hle => mem_of_waits hi (hinv.main_waits hr hle) r) hr hle
  | routine r' =>
      by_cases hrr : r' = r
      · subst hrr
        exact h.issue_self hi hr hle
      · refine h.frame hf (by simpa using hrr) (hf.passed (by simp)).ge (fun _ _ => ?_) hr hle
        exact hf.mem _ (Routine.own_not_mem_writes hrr)

theorem Own.flushed (h : Own s) (hinv : Inv useCpuFence s) (hf : Flushed s t s') : Own s' := by
  intro r hr hle
  have hframe := hinv.frame_flushed hf
  cases t with
  | main =>
      refine h.frame hframe (by simp) (by rw [hf.loc]) (fun hr hle => ?_) hr hle
      -- at its barriers `main` has nothing to flush
      obtain ⟨e, he, -⟩ := hf.written
      have hmay := hinv.buffered .main e he
      rcases hinv.main_waits hr hle with hpc | hpc | hpc <;> simp [mayBuffer, hpc] at hmay
  | routine r' =>
      by_cases hrr : r' = r
      · subst hrr
        rw [hf.loc] at hr hle
        rw [hf.read]
        exact h _ hr hle
      · refine h.frame hframe (by simpa using hrr) (by rw [hf.loc]) (fun _ _ => ?_) hr hle
        exact hframe.mem _ (Routine.own_not_mem_writes hrr)

/-! ### Whoever loads second loads a one -/

/-- The last round in which a routine has loaded. -/
def Local.loaded (l : Local) : Nat :=
  match l.pc with
  | .storeR | .arriveEnd | .spinEnd => l.iter
  | _ => l.iter - 1

/-- If both routines have loaded in the same round, one of them has loaded a one. -/
def Crossed (s : World) : Prop :=
  ∀ r, 1 ≤ (s.loc (.routine r)).loaded →
    (s.loc (.routine r)).loaded = (s.loc (.routine r.other)).loaded →
    (s.loc (.routine r)).reg ≠ 0 ∨ (s.loc (.routine r.other)).reg ≠ 0

/-- Only its load changes what a routine has loaded. -/
theorem loaded_issue (hi : Issue useCpuFence s (.routine r) s')
    (hpc : (s.loc (.routine r)).pc ≠ .loadOther) :
    (s'.loc (.routine r)).loaded = (s.loc (.routine r)).loaded ∧
      (s'.loc (.routine r)).reg = (s.loc (.routine r)).reg := by
  cases hi
  case wait => exact ⟨rfl, rfl⟩
  case loadOther hload => exact absurd hload hpc
  case storeOwn hown hs | storeR hres hs =>
    rw [hs.loc, Function.update_self]
    simp [Local.loaded, *]
  all_goals simp [World.goto, Local.loaded, afterStart, afterEnd, *]

theorem create_loaded (h : l.pc = .notCreated) : (create l).loaded = l.loaded := by
  simp [create, Local.loaded, h]

theorem Frame.loaded (hf : Frame t s s') (hne : t ≠ .routine r) :
    (s'.loc (.routine r)).loaded = (s.loc (.routine r)).loaded ∧
      (s'.loc (.routine r)).reg = (s.loc (.routine r)).reg := by
  rcases hf.loc _ hne.symm with hloc | ⟨hnew, hloc⟩
  · rw [hloc]
    exact ⟨rfl, rfl⟩
  · rw [hloc]
    exact ⟨create_loaded hnew, rfl⟩

/-- A routine that loads when the other one has loaded already is still in the round of
the other one. -/
theorem Inv.other_inRound (h : Inv useCpuFence s) (hpc : (s.loc (.routine r)).pc = .loadOther)
    (heq : (s.loc (.routine r.other)).loaded = (s.loc (.routine r)).iter) :
    (s.loc (.routine r.other)).InRound ∧
      (s.loc (.routine r.other)).pc ≠ .fence ∧ (s.loc (.routine r.other)).pc ≠ .loadOther ∧
      (s.loc .main).passed ≤ (s.loc (.routine r.other)).passed := by
  have hp := h.placed (.routine r)
  have ho := h.placed (.routine r.other)
  have hmain : (s.loc .main).passed ≤ (s.loc (.routine r)).reached := h.barrier.meet .main _
  have hother : (s.loc (.routine r.other)).passed ≤ (s.loc (.routine r)).reached :=
    h.barrier.meet (.routine r.other) _
  simp only [Placed, hpc] at hp
  simp only [Local.reached, hpc] at hmain hother
  cases hopc : (s.loc (.routine r.other)).pc <;>
    simp only [Placed, Local.loaded, Local.InRound, hopc, reduceCtorEq, ne_eq, not_false_eq_true,
      or_true, or_false, true_and, false_and] at ho heq ⊢ <;> omega

/-- With the fence it loads a one then. -/
theorem Inv.load_other (h : Inv true s) (hown : Own s)
    (hpc : (s.loc (.routine r)).pc = .loadOther)
    (heq : (s.loc (.routine r.other)).loaded = (s.loc (.routine r)).iter) :
    s.read (.routine r) r.other.own = 1 := by
  obtain ⟨hround, hfence, hload, hle⟩ := h.other_inRound hpc heq
  have hself : s.buf (.routine r) = [] := h.buf_eq_nil (by simp [mayBuffer, hpc])
  have hother : ∀ e ∈ s.buf (.routine r.other), e.1 ≠ r.other.own := by
    intro e he
    have hmay := h.buffered _ e he
    rcases hround with hopc | hopc | hopc | hopc | hopc
    · exact absurd hopc hfence
    · exact absurd hopc hload
    · simp [mayBuffer, hopc] at hmay
    · obtain rfl : e = (r.other.res, (s.loc (.routine r.other)).reg) := by
        simpa [mayBuffer, hopc] using hmay
      exact Routine.res_ne_own _ _
    · simp [mayBuffer, hopc] at hmay
  calc s.read (.routine r) r.other.own = s.mem r.other.own := read_of_empty hself _
    _ = s.read (.routine r.other) r.other.own := (read_of_not_buffered hother).symm
    _ = 1 := hown r.other hround hle

theorem Routine.other_ne (r : Routine) : Thread.routine r ≠ .routine r.other := by
  cases r <;> nofun

theorem Routine.other_other (r : Routine) : r.other.other = r := by
  cases r <;> rfl

/-- A load in a round in which the other routine has loaded already. -/
theorem Inv.loadOther_reg (hinv : Inv true s) (hown : Own s)
    (hi : Issue true s (.routine r) s') (hpc : (s.loc (.routine r)).pc = .loadOther)
    (heq : (s'.loc (.routine r)).loaded = (s'.loc (.routine r.other)).loaded) :
    (s'.loc (.routine r)).reg ≠ 0 := by
  rw [((hinv.frame_issue hi).loaded r.other_ne).1] at heq
  cases hi
  case loadOther =>
    have hself : (s.loc (.routine r)).iter = (s.loc (.routine r.other)).loaded := by
      rw [← heq]
      simp [World.goto, Local.loaded]
    simp [World.goto, hinv.load_other hown hpc hself.symm]
  all_goals simp_all

theorem Crossed.issue (h : Crossed s) (hinv : Inv true s) (hown : Own s)
    (hi : Issue true s t s') : Crossed s' := by
  intro r hle heq
  by_cases hr : t = .routine r ∧ (s.loc (.routine r)).pc = .loadOther
  · obtain ⟨rfl, hpc⟩ := hr
    exact .inl (hinv.loadOther_reg hown hi hpc heq)
  · by_cases ho : t = .routine r.other ∧ (s.loc (.routine r.other)).pc = .loadOther
    · obtain ⟨rfl, hpc⟩ := ho
      exact .inr (hinv.loadOther_reg hown hi hpc (by rw [r.other_other]; exact heq.symm))
    · -- nothing has been loaded
      have hsame : ∀ q, ¬ (t = .routine q ∧ (s.loc (.routine q)).pc = .loadOther) →
          (s'.loc (.routine q)).loaded = (s.loc (.routine q)).loaded ∧
            (s'.loc (.routine q)).reg = (s.loc (.routine q)).reg := by
        intro q hq
        by_cases ht : t = .routine q
        · subst ht
          exact loaded_issue hi fun hpc => hq ⟨rfl, hpc⟩
        · exact (hinv.frame_issue hi).loaded ht
      obtain ⟨hloaded, hreg⟩ := hsame r hr
      obtain ⟨hloaded', hreg'⟩ := hsame r.other ho
      rw [hloaded] at hle heq
      rw [hloaded'] at heq
      rw [hreg, hreg']
      exact h r hle heq

theorem Crossed.flushed (h : Crossed s) (hf : Flushed s t s') : Crossed s' := by
  unfold Crossed
  rw [hf.loc]
  exact h

/-! ### What `main` finds -/

/-- `main` has not found, and will not find, two zeros. -/
structure Unreported (s : World) : Prop where
  testR2 : (s.loc .main).pc = .testR2 → (s.loc (.routine .one)).reg = 0
  report : (s.loc .main).pc ≠ .report
  detected : (s.loc .main).detected = 0

theorem Inv.not_both_zero (h : Inv useCpuFence s) (hc : Crossed s) (hpc : (s.loc .main).Testing) :
    ¬ ((s.loc (.routine .one)).reg = 0 ∧ (s.loc (.routine .two)).reg = 0) := by
  have hloaded : ∀ r, (s.loc (.routine r)).loaded = (s.loc .main).iter := by
    intro r
    obtain ⟨-, hrest, hstored⟩ := h.resting_of_testing hpc r
    rw [← hstored]
    rcases hrest with hrpc | hrpc | hrpc | hrpc <;> simp only [Local.loaded, Local.stored, hrpc]
  have hiter := (h.resting_of_testing hpc .one).1
  have hone := hc .one (by rw [hloaded]; exact hiter) (by rw [hloaded, hloaded])
  intro hp
  obtain ⟨h₁, h₂⟩ := hp
  exact hone.elim (· h₁) (· h₂)

/-- A step of `main`. -/
theorem Unreported.issue_main (h : Unreported s) (hinv : Inv useCpuFence s) (hres : Results s)
    (hc : Crossed s) (hi : Issue useCpuFence s .main s') : Unreported s' := by
  have hdetected := h.detected
  cases hi
  case wait => exact h
  case testR1 hpc hv =>
    have hreg := hinv.read_of_testing hres (.inl hpc) .one
    exact ⟨fun _ => hreg.symm.trans hv, by simp [World.goto], h.detected⟩
  case testR2 hpc hv =>
    have hreg := hinv.read_of_testing hres (.inr hpc) .two
    exact absurd ⟨h.testR2 hpc, hreg.symm.trans hv⟩ (hinv.not_both_zero hc (.inr hpc))
  case report hpc => exact absurd hpc h.report
  case zeroStart hpc hs | zeroEnd hpc hs | resetX hpc hs | resetY hpc hs =>
    constructor <;> simp [hs.loc, hdetected]
  all_goals constructor <;> simp [World.goto, afterStart, afterEnd, hdetected]

/-- A step of another thread. -/
theorem Unreported.frame (h : Unreported s) (hmain : s'.loc .main = s.loc .main)
    (hreg : (s.loc .main).pc = .testR2 →
      (s'.loc (.routine .one)).reg = (s.loc (.routine .one)).reg) : Unreported s' where
  testR2 hpc := by
    rw [hmain] at hpc
    rw [hreg hpc]
    exact h.testR2 hpc
  report := by rw [hmain]; exact h.report
  detected := by rw [hmain]; exact h.detected

theorem Unreported.issue (h : Unreported s) (hinv : Inv useCpuFence s) (hres : Results s)
    (hc : Crossed s) (hi : Issue useCpuFence s t s') : Unreported s' := by
  cases t with
  | main => exact h.issue_main hinv hres hc hi
  | routine r =>
      have hf := hinv.frame_issue hi
      refine h.frame ?_ fun hpc => ?_
      · rcases hf.loc .main (by simp) with hloc | ⟨hnew, -⟩
        · exact hloc
        · have hp := hinv.placed .main
          simp [Placed, hnew] at hp
      · by_cases hr : r = .one
        · -- it rests, so this is not its load
          subst hr
          obtain ⟨-, hrest, -⟩ := hinv.resting_of_testing (.inr hpc) .one
          exact (loaded_issue hi hrest.ne_loadOther).2
        · exact (hf.loaded (by simpa using hr)).2

/-! ### Every run -/

/-- The routines see their own stores, one of the two sees the store of the other, and
`main` does not find two zeros. -/
theorem unreported_run {ls : List Ev} (h : Run (Step true m) init ls s) :
    Own s ∧ Crossed s ∧ Unreported s := by
  induction h with
  | nil =>
      refine ⟨fun r hr => ?_, fun r hle => ?_, ⟨nofun, nofun, rfl⟩⟩
      · exact absurd hr (by simp [init, Local.InRound])
      · exact absurd hle (by simp [init, Local.loaded])
  | snoc hr hs ih =>
      obtain ⟨hinv, hsc⟩ := inv_run hr
      obtain ⟨hown, hc, hun⟩ := ih
      rcases step_cases hsc hs with ⟨t, -, hi⟩ | ⟨t, -, hf⟩
      · exact ⟨hown.issue hinv hi, hc.issue hinv hown hi, hun.issue hinv (results_run hr) hc hi⟩
      · exact ⟨hown.flushed hinv hf, hc.flushed hf, hun.frame (by rw [hf.loc]) (by simp [hf.loc])⟩

/-- **No report**: with the fence, `main` does not get to its test in a state in which
it reads zero from both `r1` and `r2`, so it never gets to the report. -/
theorem fence_no_report {ls : List Ev} (h : Run (Step true .tso) init ls s) :
    ((s.loc .main).Testing → ¬ (s.read .main .r1 = 0 ∧ s.read .main .r2 = 0)) ∧
      (s.loc .main).pc ≠ .report ∧ (s.loc .main).detected = 0 := by
  obtain ⟨hinv, -⟩ := inv_run h
  obtain ⟨-, hc, hun⟩ := unreported_run h
  refine ⟨fun hpc hzero => hinv.not_both_zero hc hpc ?_, hun.report, hun.detected⟩
  have hread := hinv.read_of_testing (results_run h) hpc
  exact ⟨(hread .one).symm.trans hzero.1, (hread .two).symm.trans hzero.2⟩

/-- The barrier `start` of the first round. -/
def firstStart : List (Turn Thread) :=
  [.run .main, .run .main, .flush .main, .flush .main] ++ List.replicate 4 (.run .main) ++
    [.flush .main, .flush .main, .run .main] ++ both 1 ++ [.run .main] ++ both 1

/-- A routine stores, waits for its buffer to drain, loads, and ends its round. -/
def fencedRound (r : Routine) : List (Turn Thread) :=
  [.run (.routine r), .flush (.routine r), .run (.routine r), .run (.routine r),
    .run (.routine r), .flush (.routine r), .run (.routine r)]

theorem fence_no_report_oneRound : ∃ ls s, Run (Step true .tso) init ls s ∧
    (s.loc .main).pc = .testR1 ∧ ¬ (s.read .main .r1 = 0 ∧ s.read .main .r2 = 0) := by
  have hfollow : (follow (next true .tso) State.event init (firstStart ++ fencedRound .one ++
      fencedRound .two ++ [.run .main, .run .main])).map
      (fun r => (r.2.loc .main).pc) = some .testR1 := by
    decide +kernel
  obtain ⟨ls, s, hr, hpc⟩ := Run.of_follow (q := fun s : World => (s.loc .main).pc) hfollow
  exact ⟨ls, s, hr, hpc, (fence_no_report hr).1 (.inl hpc)⟩

/-- **The fence is needed**: without it both routines may load before their stores
reach memory. -/
theorem report_without_fence :
    ∃ ls s, Run (Step false .tso) init ls s ∧ (s.loc .main).pc = .report := by
  have hfollow : (follow (next false .tso) State.event init (firstStart ++ both 4 ++
      [.flush (.routine .one), .flush (.routine .one), .flush (.routine .two),
        .flush (.routine .two)] ++ both 1 ++ List.replicate 4 (.run .main))).map
      (fun r => (r.2.loc .main).pc) = some .report := by
    decide +kernel
  exact Run.of_follow (q := fun s : World => (s.loc .main).pc) hfollow

end Codelib.Reorder
