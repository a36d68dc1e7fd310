import Codelib.Pbar.PBar

/-!
# Codelib.Pbar.Atomic

**Where the counts of a bar stay in order, and an error changes nothing**
(`runOps_kept_iff`), for any calls in any order.

`settotal` looks before it writes. `check` writes before it looks, and `Start` does not
look at all: so an operation is `Kept` as long as every `check` adds what still fits and
every `Start` that receives nothing is given a target that has not been passed
(`Entry.Fits`). The operations in a log are kept if and only if they fit.
-/

namespace Codelib.Pbar

open Abrupt

/-! ### Entries -/

/-- What is wanted of an operation: the counts are in order after it, and an error has
changed neither. -/
def Entry.Kept (e : Entry) : Prop :=
  e.after.finish ≤ e.after.total ∧
    (e.result.isSome → e.after.total = e.before.total ∧ e.after.finish = e.before.finish)

/-- The condition on the arguments and on the bar before the operation. -/
def Entry.Fits (e : Entry) : Prop :=
  match e.op with
  | .check inc => e.before.finish + inc ≤ e.before.total
  | .settotal _ => True
  | .start target c => c = [] → e.before.finish ≤ target

/-- The operations in the log are kept if and only if they fit. -/
structure LogAgrees (s : Proc) : Prop where
  fits : ∀ e ∈ s.log, e.Kept → e.Fits
  kept : (∀ e ∈ s.log, e.Fits) → ∀ e ∈ s.log, e.Kept

/-- Between two operations. -/
structure Settled (s : Proc) : Prop extends LogAgrees s where
  bar : (∀ e ∈ s.log, e.Fits) → s.bar.finish ≤ s.bar.total

variable {s s' : Proc}

theorem LogAgrees.congr (h : LogAgrees s) (hlog : s'.log = s.log) : LogAgrees s' :=
  ⟨hlog ▸ h.fits, hlog ▸ h.kept⟩

/-- One more entry, which is kept if it fits and leaves the bar as it is. -/
theorem LogAgrees.snoc {e : Entry} (h : LogAgrees s) (hlog : s'.log = s.log ++ [e])
    (hbar : e.after = s'.bar) (hfits : e.Kept → e.Fits)
    (hkept : (∀ x ∈ s.log, x.Fits) → e.Fits → e.Kept) : Settled s' := by
  have hsplit (hs : ∀ x ∈ s'.log, x.Fits) : (∀ x ∈ s.log, x.Fits) ∧ e.Fits := by
    rw [hlog] at hs
    exact ⟨fun x hx => hs x (List.mem_append_left _ hx), hs e (by simp)⟩
  refine ⟨⟨fun x hx => ?_, fun hs x hx => ?_⟩, fun hs => ?_⟩
  · rcases List.mem_append.mp (hlog ▸ hx) with hx | hx
    · exact h.fits x hx
    · rw [List.mem_singleton.mp hx]
      exact hfits
  · obtain ⟨hs, he⟩ := hsplit hs
    rcases List.mem_append.mp (hlog ▸ hx) with hx | hx
    · exact h.kept hs x hx
    · rw [List.mem_singleton.mp hx]
      exact hkept hs he
  · obtain ⟨hs, he⟩ := hsplit hs
    exact hbar ▸ (hkept hs he).1

/-! ### The operations -/

theorem outcome_logged {op : Op} {body : M (Option PBarError)} {Q : Option PBarError → Proc → Prop}
    {E : Panic → Proc → Prop} :
    Outcome (logged op body) s Q E ↔ Outcome body s (fun r s' =>
      Q r { s' with log := s'.log ++ [⟨op, s.bar, s'.bar, r⟩] }) E := by
  simp only [logged, outcome_bind, outcome_get, outcome_modify, outcome_pure]

theorem updateBar_outcome : Outcome updateBar s
    (fun _ s' => s'.bar = s.bar ∧ s'.log = s.log) (fun _ s' => s'.log = s.log) := by
  have hrepeat (c : Char) (n : Int) {Q : List Char → Proc → Prop} (hQ : ∀ t, Q t s) :
      Outcome (stringsRepeat [c] n) s Q (fun _ s' => s'.log = s.log) := by
    unfold stringsRepeat
    split
    · exact outcome_throw.mpr rfl
    · exact outcome_pure.mpr (hQ _)
  unfold updateBar
  simp only [outcome_bind, outcome_get]
  split
  · exact outcome_throw.mpr rfl
  · refine outcome_bind.mpr (hrepeat _ _ fun done => ?_)
    refine outcome_bind.mpr (hrepeat _ _ fun rest => ?_)
    simp only [fmtPrint, outcome_bind, outcome_modify]
    split
    · exact outcome_modify.mpr ⟨rfl, rfl⟩
    · exact outcome_pure.mpr ⟨rfl, rfl⟩

theorem check_outcome {inc : UInt64} (h : LogAgrees s) :
    Outcome (check inc) s (fun _ => Settled) (fun _ => LogAgrees) := by
  unfold check
  simp only [outcome_logged, assign, outcome_bind, outcome_modify, outcome_get]
  split
  case isTrue hover =>
    refine outcome_pure.mpr (h.snoc rfl rfl (fun hk => hk.1) fun _ hfits => ?_)
    exact absurd hfits (UInt64.not_le.mpr hover)
  case isFalse hover =>
    refine outcome_bind.mpr (updateBar_outcome.mono (fun _ s' hs' => ?_) fun _ s' hs' => ?_)
    · obtain ⟨hbar, hlog⟩ := hs'
      refine outcome_pure.mpr (h.snoc (by rw [hlog]) rfl (fun hk => ?_) fun _ hfits => ⟨?_, by simp⟩)
      · exact UInt64.not_lt.mp hover
      · rw [hbar]
        exact hfits
    · exact h.congr hs'

theorem settotal_outcome {target : UInt64} (h : Settled s) :
    Outcome (settotal target) s (fun _ => Settled) (fun _ => LogAgrees) := by
  unfold settotal
  simp only [outcome_logged, outcome_bind, outcome_get]
  split
  case isTrue hlow =>
    exact outcome_pure.mpr (h.snoc rfl rfl (fun _ => trivial) fun hs _ => ⟨h.bar hs, by simp⟩)
  case isFalse hlow =>
    simp only [assign, outcome_bind, outcome_modify]
    exact outcome_pure.mpr (h.snoc rfl rfl (fun _ => trivial) fun hs _ =>
      ⟨UInt64.not_lt.mp hlow, by simp⟩)

theorem receive_outcome {x : Winsize × UInt64} (h : LogAgrees s) :
    Outcome (receive x) s (fun _ => Settled) (fun _ => LogAgrees) := by
  unfold receive
  simp only [assign, outcome_bind, outcome_modify]
  have hterm : LogAgrees { s with bar := { s.bar with termsz := x.1 } } := h.congr rfl
  exact (check_outcome hterm).mono (fun _ _ hs => outcome_pure.mpr hs) fun _ _ hs => hs

/-- The first increment settles the bar again, whatever target `Start` has written. -/
theorem start_outcome {target : UInt64} {c : List (Winsize × UInt64)} (h : Settled s) :
    Outcome (start target c) s (fun _ => Settled) (fun _ => LogAgrees) := by
  unfold start
  simp only [outcome_logged, assign, outcome_bind, outcome_modify]
  have htotal : LogAgrees { s with bar := { s.bar with total := target } } := h.congr rfl
  cases c with
  | nil =>
      exact outcome_pure.mpr (outcome_pure.mpr (h.snoc rfl rfl (fun hk _ => hk.1) fun _ hfits =>
        ⟨hfits rfl, by simp⟩))
  | cons x c =>
      refine outcome_bind.mpr ((receive_outcome htotal).mono (fun _ t ht => ?_) fun _ _ he => he)
      refine (Outcome.forM (I := Settled) (fun y _ t ht => receive_outcome ht.toLogAgrees) ht).mono
        (fun _ t ht => ?_) fun _ _ he => he
      exact outcome_pure.mpr (ht.snoc rfl rfl (fun _ hc => absurd hc (by simp)) fun hs _ =>
        ⟨ht.bar hs, by simp⟩)

theorem exec_outcome (op : Op) (h : Settled s) :
    Outcome op.exec s (fun _ => Settled) (fun _ => LogAgrees) := by
  cases op with
  | start target c => exact start_outcome h
  | settotal target => exact settotal_outcome h
  | check inc => exact check_outcome h.toLogAgrees

/-! ### Runs -/

theorem runOps_outcome (ops : List Op) :
    Outcome (runOps ops) Proc.fresh (fun _ => Settled) (fun _ => LogAgrees) := by
  have hfresh : Settled Proc.fresh :=
    ⟨⟨by simp [Proc.fresh], by simp [Proc.fresh]⟩, fun _ => UInt64.le_refl 0⟩
  refine Outcome.forM (fun op _ t ht => outcome_bind.mpr ?_) hfresh
  exact (exec_outcome op ht).mono (fun _ _ hs => outcome_pure.mpr hs) fun _ _ hs => hs

/-- **Exactly when every operation is kept**: the counts stay in order, and errors change
nothing, in a run whose operations fit. -/
theorem runOps_kept_iff (ops : List Op) :
    (∀ e ∈ (runOps ops Proc.fresh).2.log, e.Kept) ↔
      ∀ e ∈ (runOps ops Proc.fresh).2.log, e.Fits := by
  have hagree : LogAgrees (runOps ops Proc.fresh).2 := by
    rcases h : runOps ops Proc.fresh with ⟨_ | a, s⟩
    · exact (outcome_of_error h).mp (runOps_outcome ops)
    · exact ((outcome_of_ok h).mp (runOps_outcome ops)).toLogAgrees
  exact ⟨fun hk e he => hagree.fits e he (hk e he), hagree.kept⟩

/-- The eleventh increment of a task of ten is counted, and then refused. -/
theorem start_overruns : ¬ ∀ ops, ∀ e ∈ (runOps ops Proc.fresh).2.log, e.Kept := by
  intro hall
  have hlast := hall [.start 10 (List.replicate 11 (⟨24, 80, 0, 0⟩, 1))]
    ⟨.check 1, ⟨10, 10, ⟨24, 80, 0, 0⟩⟩, ⟨10, 11, ⟨24, 80, 0, 0⟩⟩, some ⟨"Task already done"⟩⟩
    (by decide +kernel)
  exact absurd hlast.1 (by decide)

end Codelib.Pbar
