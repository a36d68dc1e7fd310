import Mathlib.Algebra.BigOperators.Group.List.Basic
import Mathlib.Algebra.GroupWithZero.Nat
import Mathlib.Data.Finset.Erase
import Mathlib.Data.Finset.Filter
import Mathlib.Data.Finset.Insert
import Codelib.Core.Run

/-!
# Codelib.Daemonize.Daemonize

`daemonize` of `c/cl_daemonize.h` in the processes that it makes, and **which of them returns**
(`daemonize_returns`).

* A call is one step, and the processes take their steps in any order. A new process has a number that
  is not the number of a process, a process group or a session.
* `setsid` fails for the leader of a process group only.
* `openlog` opens nothing, and `signal`, `umask` and `close` do not fail where it is seen.

The loop over the descriptors leaves out descriptor 0. The process that calls ends with success as soon
as there is a second one, whatever becomes of the daemon, and the second one with failure also where
nothing fails.
-/

namespace Codelib.Daemonize

/-- The arguments, and `sysconf(_SC_OPEN_MAX)`. -/
structure Args where
  wd : Option String
  logIdent : Option String
  openMax : Int
  deriving Repr, DecidableEq

/-- Where a process is. -/
inductive Pc
  | fork
  | setsid
  | ignoreChld
  | ignoreHup
  | forkAgain
  | umask
  | chdir
  /-- At the test of the loop over the descriptors. -/
  | close (i : Int)
  | openlog
  | ret
  | exit (status : Nat)
  | exited (status : Nat)
  | returned (pid : Int)
  deriving Repr, DecidableEq

structure Process where
  pid : Nat
  sid : Nat
  pgid : Nat
  ignoresChld : Bool
  ignoresHup : Bool
  umask : Nat
  cwd : String
  /-- The open descriptors. -/
  fds : Finset Nat
  /-- What `openlog` has been told. -/
  logIdent : Option String
  pc : Pc
  deriving DecidableEq

def exitSuccess : Nat := 0

def exitFailure : Nat := 1

/-- What a call returns. -/
inductive Result
  | done
  | failed
  /-- `fork`, with the number of the new process. -/
  | child (pid : Nat)
  deriving Repr, DecidableEq

/-- The process behind its next call, and a new one. -/
def Process.next (args : Args) (p : Process) : Result → Option (Process × Option Process)
  | .child pid =>
    match p.pc with
    | .fork => some ({ p with pc := .exit exitSuccess }, some { p with pid := pid, pc := .setsid })
    | .forkAgain => some ({ p with pc := .exit exitFailure }, some { p with pid := pid, pc := .umask })
    | _ => none
  | .failed =>
    match p.pc with
    | .fork => some ({ p with pc := .exit exitFailure }, none)
    | .setsid => if p.pid = p.pgid then some ({ p with pc := .exit exitFailure }, none) else none
    | .forkAgain => some ({ p with pc := .exit exitFailure }, none)
    | .chdir => if args.wd.isSome then some ({ p with pc := .exit exitFailure }, none) else none
    | _ => none
  | .done =>
    match p.pc with
    | .setsid =>
      if p.pid = p.pgid then none
      else some ({ p with sid := p.pid, pgid := p.pid, pc := .ignoreChld }, none)
    | .ignoreChld => some ({ p with ignoresChld := true, pc := .ignoreHup }, none)
    | .ignoreHup => some ({ p with ignoresHup := true, pc := .forkAgain }, none)
    | .umask => some ({ p with umask := 0, pc := .chdir }, none)
    | .chdir => some ({ p with cwd := args.wd.getD p.cwd, pc := .close args.openMax }, none)
    | .close i =>
      if 0 < i then some ({ p with fds := p.fds.erase i.toNat, pc := .close (i - 1) }, none)
      else some ({ p with pc := .openlog }, none)
    | .openlog => some ({ p with logIdent := args.logIdent.or p.logIdent, pc := .ret }, none)
    | .ret => some ({ p with pc := .returned 0 }, none)
    | .exit status => some ({ p with pc := .exited status }, none)
    | _ => none

/-- The number is not in use. -/
def Fresh (procs : List Process) (pid : Nat) : Prop :=
  ∀ p ∈ procs, pid ≠ p.pid ∧ pid ≠ p.pgid ∧ pid ≠ p.sid

instance (procs : List Process) (pid : Nat) : Decidable (Fresh procs pid) :=
  inferInstanceAs (Decidable (∀ p ∈ procs, _))

/-- A call of the process at `k`. -/
structure Ev where
  k : Nat
  result : Result
  deriving Repr, DecidableEq

def exec (args : Args) (procs : List Process) (e : Ev) : Option (List Process) :=
  match procs[e.k]? with
  | none => none
  | some p =>
    match p.next args e.result with
    | none => none
    | some (p', none) => some (procs.set e.k p')
    | some (p', some q) =>
      if Fresh procs q.pid then some (procs.set e.k p' ++ [q]) else none

def Step (args : Args) (procs : List Process) (e : Ev) (procs' : List Process) : Prop :=
  exec args procs e = some procs'

variable {args : Args} {c p p' q : Process} {procs procs' : List Process} {e : Ev} {r : Result}

theorem step_iff : Step args procs e procs' ↔ ∃ p p' child, procs[e.k]? = some p ∧
    p.next args e.result = some (p', child) ∧ procs' = procs.set e.k p' ++ child.toList ∧
    ∀ q ∈ child, Fresh procs q.pid := by
  rw [Step, exec]
  constructor
  · intro h
    split at h
    · exact absurd h.symm (Option.some_ne_none _)
    case h_2 p hp =>
    split at h
    · exact absurd h.symm (Option.some_ne_none _)
    · case h_2 p' hnext =>
        refine ⟨p, p', none, hp, hnext, ?_, nofun⟩
        rw [← Option.some.inj h, Option.toList_none, List.append_nil]
    · case h_3 p' q hnext =>
        obtain ⟨hfresh, h⟩ := Option.ite_none_right_eq_some.mp h
        refine ⟨p, p', some q, hp, hnext, (Option.some.inj h).symm, ?_⟩
        intro q' hq'
        obtain rfl := Option.some.inj hq'
        exact hfresh
  · rintro ⟨p, p', child, hp, hnext, rfl, hfresh⟩
    cases child with
    | none => simp [hp, hnext]
    | some q => simp [hp, hnext, hfresh q rfl]

/-! ### The three processes -/

/-- The first child, as the leader of a session. -/
def leader (c : Process) (pid : Nat) : Process :=
  { c with pid := pid, sid := pid, pgid := pid, ignoresChld := true, ignoresHup := true }

/-- The descriptors that are left when the loop is at `i`. -/
def kept (args : Args) (c : Process) (i : Int) : Finset Nat :=
  c.fds.filter fun fd => (fd : Int) ≤ i ∨ args.openMax < fd

/-- The second child in the loop. -/
def daemon (args : Args) (c : Process) (sid pid : Nat) (i : Int) : Process :=
  { leader c sid with
    pid := pid, umask := 0, cwd := args.wd.getD c.cwd, fds := kept args c i }

/-- The process that returns. -/
def daemonized (args : Args) (c : Process) (sid pid : Nat) : Process :=
  { daemon args c sid pid 0 with logIdent := args.logIdent.or c.logIdent }

/-- Where the first child may be; `failed` says that a call has failed. -/
inductive First (c : Process) (failed : Bool) (pid : Nat) : Process → Prop
  | setsid : failed = false → First c failed pid { c with pid := pid, pc := .setsid }
  | ignoreChld : failed = false →
      First c failed pid { c with pid := pid, sid := pid, pgid := pid, pc := .ignoreChld }
  | ignoreHup : failed = false → First c failed pid
      { c with pid := pid, sid := pid, pgid := pid, ignoresChld := true, pc := .ignoreHup }
  | forkAgain : failed = false → First c failed pid { leader c pid with pc := .forkAgain }
  | exit : failed → First c failed pid { leader c pid with pc := .exit exitFailure }
  | exited : failed → First c failed pid { leader c pid with pc := .exited exitFailure }

/-- Where the second child may be, in the session `sid`. -/
inductive Second (args : Args) (c : Process) (failed : Bool) (sid pid : Nat) : Process → Prop
  | umask : failed = false →
      Second args c failed sid pid { leader c sid with pid := pid, pc := .umask }
  | chdir : failed = false →
      Second args c failed sid pid { leader c sid with pid := pid, umask := 0, pc := .chdir }
  | exit : failed → Second args c failed sid pid
      { leader c sid with pid := pid, umask := 0, pc := .exit exitFailure }
  | exited : failed → Second args c failed sid pid
      { leader c sid with pid := pid, umask := 0, pc := .exited exitFailure }
  | close {i : Int} : failed = false → i ≤ args.openMax → 0 ≤ i ∨ i = args.openMax →
      Second args c failed sid pid { daemon args c sid pid i with pc := .close i }
  | openlog : failed = false →
      Second args c failed sid pid { daemon args c sid pid 0 with pc := .openlog }
  | ret : failed = false →
      Second args c failed sid pid { daemonized args c sid pid with pc := .ret }
  | returned : failed = false →
      Second args c failed sid pid { daemonized args c sid pid with pc := .returned 0 }

/-- Exits with a status. -/
def Exits (status : Nat) (pc : Pc) : Prop := pc = .exit status ∨ pc = .exited status

inductive Inv (args : Args) (c : Process) (failed : Bool) : List Process → Prop
  | start : failed = false → Inv args c failed [{ c with pc := .fork }]
  | alone {pc : Pc} : failed → Exits exitFailure pc → Inv args c failed [{ c with pc := pc }]
  | two {pc : Pc} {sid : Nat} {p : Process} : Exits exitSuccess pc →
      sid ≠ c.pid ∧ sid ≠ c.pgid ∧ sid ≠ c.sid → First c failed sid p →
      Inv args c failed [{ c with pc := pc }, p]
  | three {pc pc' : Pc} {sid pid : Nat} {p : Process} : Exits exitSuccess pc →
      sid ≠ c.pid ∧ sid ≠ c.pgid ∧ sid ≠ c.sid → Exits exitFailure pc' → pid ≠ sid →
      Second args c failed sid pid p →
      Inv args c failed [{ c with pc := pc }, { leader c sid with pc := pc' }, p]

theorem next_of_exits {status : Nat} {child : Option Process} (h : Exits status p.pc)
    (hnext : p.next args r = some (p', child)) :
    r = .done ∧ p' = { p with pc := .exited status } ∧ child = none := by
  obtain h | h := h
  · cases r with
    | done =>
        obtain ⟨rfl, rfl⟩ : _ = p' ∧ none = child := by simpa [Process.next, h] using hnext
        exact ⟨rfl, rfl, rfl⟩
    | _ => simp [Process.next, h] at hnext
  · cases r <;> simp [Process.next, h] at hnext

/-- A call has failed now, or before. -/
def orFailed (failed : Bool) (r : Result) : Bool := failed || r = .failed

theorem orFailed_done (failed : Bool) : orFailed failed .done = failed := Bool.or_false failed

variable {failed : Bool} {sid pid : Nat} {child : Option Process}

theorem First.pid_eq (h : First c failed sid p) : p.pid = sid := by
  cases h <;> rfl

theorem First.next (h : First c failed sid p) (hsid : sid ≠ c.pgid)
    (hnext : p.next args r = some (p', child)) :
    child = none ∧ First c (orFailed failed r) sid p' ∨
      ∃ pid, failed = false ∧ r = .child pid ∧ p' = { leader c sid with pc := .exit exitFailure } ∧
        child = some { leader c sid with pid := pid, pc := .umask } := by
  cases h with
  | setsid hf =>
      cases r with
      | done =>
          obtain ⟨rfl, rfl⟩ : _ = p' ∧ none = child := by simpa [Process.next, hsid] using hnext
          exact .inl ⟨rfl, .ignoreChld (by simp [orFailed, hf])⟩
      | failed => simp [Process.next, hsid] at hnext
      | child pid => simp [Process.next] at hnext
  | ignoreChld hf =>
      cases r with
      | done =>
          obtain ⟨rfl, rfl⟩ : _ = p' ∧ none = child := by simpa [Process.next] using hnext
          exact .inl ⟨rfl, .ignoreHup (by simp [orFailed, hf])⟩
      | _ => simp [Process.next] at hnext
  | ignoreHup hf =>
      cases r with
      | done =>
          obtain ⟨rfl, rfl⟩ : _ = p' ∧ none = child := by simpa [Process.next] using hnext
          exact .inl ⟨rfl, .forkAgain (by simp [orFailed, hf])⟩
      | _ => simp [Process.next] at hnext
  | forkAgain hf =>
      cases r with
      | done => simp [Process.next] at hnext
      | failed =>
          obtain ⟨rfl, rfl⟩ : _ = p' ∧ none = child := by simpa [Process.next] using hnext
          exact .inl ⟨rfl, .exit (by simp [orFailed])⟩
      | child pid =>
          obtain ⟨rfl, rfl⟩ : _ = p' ∧ some _ = child := by simpa [Process.next] using hnext
          exact .inr ⟨pid, hf, rfl, rfl, rfl⟩
  | exit hf =>
      obtain ⟨-, rfl, rfl⟩ := next_of_exits (.inl rfl) hnext
      exact .inl ⟨rfl, .exited (by simp [orFailed, hf])⟩
  | exited hf =>
      cases r <;> simp [Process.next] at hnext

/-- Behind the loop. -/
theorem kept_end {i : Int} (hi : ¬ 0 < i) (hlow : 0 ≤ i ∨ i = args.openMax) :
    kept args c i = kept args c 0 := by
  refine Finset.filter_congr fun fd _ => ?_
  omega

theorem erase_kept {i : Int} (hi : 0 < i) (hle : i ≤ args.openMax) :
    (kept args c i).erase i.toNat = kept args c (i - 1) := by
  ext fd
  simp only [kept, Finset.mem_erase, Finset.mem_filter]
  constructor
  · rintro ⟨hne, hfd, hor⟩
    exact ⟨hfd, by omega⟩
  · rintro ⟨hfd, hor⟩
    exact ⟨by omega, hfd, by omega⟩

theorem kept_all : kept args c args.openMax = c.fds :=
  Finset.filter_true_of_mem fun fd _ => by omega

theorem Second.next (h : Second args c failed sid pid p)
    (hnext : p.next args r = some (p', child)) :
    child = none ∧ Second args c (orFailed failed r) sid pid p' := by
  cases h with
  | umask hf =>
      cases r with
      | done =>
          obtain ⟨rfl, rfl⟩ : _ = p' ∧ none = child := by simpa [Process.next] using hnext
          exact ⟨rfl, .chdir (by simp [orFailed, hf])⟩
      | _ => simp [Process.next] at hnext
  | chdir hf =>
      cases r with
      | done =>
          obtain ⟨rfl, rfl⟩ : _ = p' ∧ none = child := by simpa [Process.next] using hnext
          have hclose : Second args c (orFailed failed .done) sid pid
              { daemon args c sid pid args.openMax with pc := .close args.openMax } :=
            .close (by simp [orFailed, hf]) (Int.le_refl _) (.inr rfl)
          rw [daemon, kept_all] at hclose
          exact ⟨rfl, hclose⟩
      | failed =>
          obtain ⟨-, rfl, rfl⟩ : _ ∧ _ = p' ∧ none = child := by simpa [Process.next] using hnext
          exact ⟨rfl, .exit (by simp [orFailed])⟩
      | child pid => simp [Process.next] at hnext
  | @close i hf hle hlow =>
      cases r with
      | done =>
          have hf' : orFailed failed .done = false := by simp [orFailed, hf]
          by_cases hi : 0 < i
          · obtain ⟨rfl, rfl⟩ : _ = p' ∧ none = child := by simpa [Process.next, hi] using hnext
            have hclose : Second args c (orFailed failed .done) sid pid
                { daemon args c sid pid (i - 1) with pc := .close (i - 1) } :=
              .close hf' (by omega) (.inl (by omega))
            rw [daemon, ← erase_kept hi hle] at hclose
            exact ⟨rfl, hclose⟩
          · obtain ⟨rfl, rfl⟩ : _ = p' ∧ none = child := by simpa [Process.next, hi] using hnext
            have hopenlog : Second args c (orFailed failed .done) sid pid
                { daemon args c sid pid 0 with pc := .openlog } := .openlog hf'
            rw [daemon, ← kept_end hi hlow] at hopenlog
            exact ⟨rfl, hopenlog⟩
      | _ => simp [Process.next] at hnext
  | openlog hf =>
      cases r with
      | done =>
          obtain ⟨rfl, rfl⟩ : _ = p' ∧ none = child := by simpa [Process.next] using hnext
          have hret : Second args c (orFailed failed .done) sid pid
              { daemonized args c sid pid with pc := .ret } := .ret (by simp [orFailed, hf])
          exact ⟨rfl, hret⟩
      | _ => simp [Process.next] at hnext
  | ret hf =>
      cases r with
      | done =>
          obtain ⟨rfl, rfl⟩ : _ = p' ∧ none = child := by simpa [Process.next] using hnext
          exact ⟨rfl, .returned (by simp [orFailed, hf])⟩
      | _ => simp [Process.next] at hnext
  | exit hf =>
      obtain ⟨-, rfl, rfl⟩ := next_of_exits (.inl rfl) hnext
      exact ⟨rfl, .exited (by simp [orFailed, hf])⟩
  | exited hf => cases r <;> simp [Process.next] at hnext
  | returned hf => cases r <;> simp [Process.next] at hnext

theorem Inv.step (h : Inv args c failed procs) (hs : Step args procs e procs') :
    Inv args c (orFailed failed e.result) procs' := by
  obtain ⟨k, r⟩ := e
  obtain ⟨p, p', child, hk, hnext, rfl, hfresh⟩ := step_iff.mp hs
  dsimp only at hk hnext ⊢
  cases h with
  | start hf =>
      obtain _ | k := k
      · obtain rfl := Option.some.inj hk
        cases r with
        | done => simp [Process.next] at hnext
        | failed =>
            obtain ⟨rfl, rfl⟩ : _ = p' ∧ none = child := by simpa [Process.next] using hnext
            exact .alone (by simp [orFailed]) (.inl rfl)
        | child pid =>
            obtain ⟨rfl, rfl⟩ : _ = p' ∧ some _ = child := by simpa [Process.next] using hnext
            exact .two (.inl rfl) (hfresh _ rfl { c with pc := .fork } List.mem_cons_self)
              (.setsid (by simp [orFailed, hf]))
      · simp at hk
  | alone hf hexits =>
      obtain _ | k := k
      · obtain rfl := Option.some.inj hk
        obtain ⟨rfl, rfl, rfl⟩ := next_of_exits hexits hnext
        exact .alone (by rwa [orFailed_done]) (.inr rfl)
      · simp at hk
  | two hexits hsid hfirst =>
      obtain _ | _ | k := k
      · obtain rfl := Option.some.inj hk
        obtain ⟨rfl, rfl, rfl⟩ := next_of_exits hexits hnext
        exact .two (.inr rfl) hsid (by rwa [orFailed_done])
      · obtain rfl := Option.some.inj hk
        have hpid := hfirst.pid_eq
        obtain ⟨rfl, hfirst⟩ | ⟨pid, hf, rfl, rfl, rfl⟩ := hfirst.next hsid.2.1 hnext
        · exact .two hexits hsid hfirst
        · have hne := (hfresh _ rfl _ (List.mem_cons_of_mem _ List.mem_cons_self)).1
          exact .three hexits hsid (.inl rfl) (hpid ▸ hne) (.umask (by simp [orFailed, hf]))
      · simp at hk
  | three hexits hsid hexits' hpid hsecond =>
      obtain _ | _ | _ | k := k
      · obtain rfl := Option.some.inj hk
        obtain ⟨rfl, rfl, rfl⟩ := next_of_exits hexits hnext
        exact .three (.inr rfl) hsid hexits' hpid (by rwa [orFailed_done])
      · obtain rfl := Option.some.inj hk
        obtain ⟨rfl, rfl, rfl⟩ := next_of_exits hexits' hnext
        exact .three hexits hsid (.inr rfl) hpid (by rwa [orFailed_done])
      · obtain rfl := Option.some.inj hk
        obtain ⟨rfl, hsecond⟩ := hsecond.next hnext
        exact .three hexits hsid hexits' hpid hsecond
      · simp at hk

/-! ### Every run -/

/-- The calls that a process has before it at most, with those of its descendants. -/
def remaining (args : Args) : Pc → Nat
  | .exited _ | .returned _ => 0
  | .exit _ | .ret => 1
  | .openlog => 2
  | .close i => i.toNat + 3
  | .chdir => args.openMax.toNat + 4
  | .umask => args.openMax.toNat + 5
  | .forkAgain => args.openMax.toNat + 7
  | .ignoreHup => args.openMax.toNat + 8
  | .ignoreChld => args.openMax.toNat + 9
  | .setsid => args.openMax.toNat + 10
  | .fork => args.openMax.toNat + 12

def total (args : Args) (procs : List Process) : Nat :=
  (procs.map fun p => remaining args p.pc).sum

theorem next_failed (hnext : p.next args .failed = some (p', child)) :
    p' = { p with pc := .exit exitFailure } ∧ child = none ∧ 1 < remaining args p.pc := by
  simp only [Process.next] at hnext
  split at hnext
  · case h_1 hpc =>
      obtain ⟨rfl, rfl⟩ := Prod.mk.inj (Option.some.inj hnext)
      exact ⟨rfl, rfl, by simp [remaining, hpc]⟩
  · case h_2 hpc =>
      obtain ⟨-, hnext⟩ := Option.ite_none_right_eq_some.mp hnext
      obtain ⟨rfl, rfl⟩ := Prod.mk.inj (Option.some.inj hnext)
      exact ⟨rfl, rfl, by simp [remaining, hpc]⟩
  · case h_3 hpc =>
      obtain ⟨rfl, rfl⟩ := Prod.mk.inj (Option.some.inj hnext)
      exact ⟨rfl, rfl, by simp [remaining, hpc]⟩
  · case h_4 hpc =>
      obtain ⟨-, hnext⟩ := Option.ite_none_right_eq_some.mp hnext
      obtain ⟨rfl, rfl⟩ := Prod.mk.inj (Option.some.inj hnext)
      exact ⟨rfl, rfl, by simp [remaining, hpc]⟩
  · exact absurd hnext.symm (Option.some_ne_none _)

/-- A call, also one that makes a process, leaves fewer. -/
theorem next_remaining (hnext : p.next args r = some (p', child)) :
    remaining args p'.pc + total args child.toList + 1 ≤ remaining args p.pc := by
  cases r with
  | child pid =>
      simp only [Process.next] at hnext
      split at hnext
      · case h_1 hpc =>
          obtain ⟨rfl, rfl⟩ := Prod.mk.inj (Option.some.inj hnext)
          simp [total, remaining, hpc]
          omega
      · case h_2 hpc =>
          obtain ⟨rfl, rfl⟩ := Prod.mk.inj (Option.some.inj hnext)
          simp [total, remaining, hpc]
          omega
      · exact absurd hnext.symm (Option.some_ne_none _)
  | failed =>
      obtain ⟨rfl, rfl, hlt⟩ := next_failed hnext
      exact hlt
  | done =>
      simp only [Process.next] at hnext
      split at hnext
      case h_1 hpc =>
        obtain ⟨-, hnext⟩ := Option.ite_none_left_eq_some.mp hnext
        obtain ⟨rfl, rfl⟩ := Prod.mk.inj (Option.some.inj hnext)
        simp [total, remaining, hpc]
      case h_6 i hpc =>
        split at hnext
        · obtain ⟨rfl, rfl⟩ := Prod.mk.inj (Option.some.inj hnext)
          simp [total, remaining, hpc]
          omega
        · obtain ⟨rfl, rfl⟩ := Prod.mk.inj (Option.some.inj hnext)
          simp [total, remaining, hpc]
      case h_10 => exact absurd hnext.symm (Option.some_ne_none _)
      all_goals
        rename_i hpc
        obtain ⟨rfl, rfl⟩ := Prod.mk.inj (Option.some.inj hnext)
        simp [total, remaining, hpc]

theorem total_set {k : Nat} (hk : procs[k]? = some p) :
    total args (procs.set k p') + remaining args p.pc = total args procs + remaining args p'.pc := by
  induction procs generalizing k with
  | nil => simp at hk
  | cons q procs ih =>
      cases k with
      | zero =>
          obtain rfl := Option.some.inj hk
          simp only [total, List.set_cons_zero, List.map_cons, List.sum_cons]
          omega
      | succ k =>
          have hle := ih hk
          simp only [total, List.set_cons_succ, List.map_cons, List.sum_cons] at hle ⊢
          omega

theorem total_step (hs : Step args procs e procs') : total args procs' + 1 ≤ total args procs := by
  obtain ⟨p, p', child, hk, hnext, rfl, -⟩ := step_iff.mp hs
  have hset : total args (procs.set e.k p') + remaining args p.pc =
      total args procs + remaining args p'.pc := total_set hk
  have hnext := next_remaining hnext
  have happend : total args (procs.set e.k p' ++ child.toList) =
      total args (procs.set e.k p') + total args child.toList := by
    simp only [total, List.map_append, List.sum_append]
  omega

theorem length_run {evs : List Ev} (h : Run (Step args) procs evs procs') :
    evs.length + total args procs' ≤ total args procs := by
  induction h with
  | nil => simp
  | snoc _ hs ih =>
      have hle := total_step hs
      rw [List.length_append, List.length_singleton]
      omega

theorem inv_of_run {evs : List Ev} (h : Run (Step args) [{ c with pc := .fork }] evs procs) :
    Inv args c (evs.any (·.result = .failed)) procs := by
  induction h with
  | nil => exact .start rfl
  | snoc _ hs ih =>
      have hstep := ih.step hs
      simpa only [orFailed, List.any_append, List.any_cons, List.any_nil, Bool.or_false] using hstep

/-! ### Where all of them have come to their end -/

def Stuck (args : Args) (procs : List Process) : Prop := ∀ e, exec args procs e = none

def Pc.ended : Pc → Bool
  | .exited _ | .returned _ => true
  | _ => false

/-- Whoever has not come to its end can make a call, if only one that fails. -/
theorem exists_next (h : p.pc.ended = false) : ∃ r p', p.next args r = some (p', none) := by
  cases hpc : p.pc with
  | fork => exact ⟨.failed, _, by rw [Process.next, hpc]⟩
  | setsid =>
      by_cases hlead : p.pid = p.pgid
      · exact ⟨.failed, _, by simp only [Process.next, hpc, if_pos hlead]; rfl⟩
      · exact ⟨.done, _, by simp only [Process.next, hpc, if_neg hlead]; rfl⟩
  | forkAgain => exact ⟨.failed, _, by rw [Process.next, hpc]⟩
  | close i =>
      by_cases hi : 0 < i
      · exact ⟨.done, _, by simp only [Process.next, hpc, if_pos hi]; rfl⟩
      · exact ⟨.done, _, by simp only [Process.next, hpc, if_neg hi]; rfl⟩
  | exited status => simp [hpc, Pc.ended] at h
  | returned pid => simp [hpc, Pc.ended] at h
  | _ => exact ⟨.done, _, by rw [Process.next, hpc]⟩

theorem remaining_of_ended {pc : Pc} (h : pc.ended) : remaining args pc = 0 := by
  cases pc with
  | exited status => rfl
  | returned pid => rfl
  | _ => exact absurd h Bool.false_ne_true

theorem stuck_iff : Stuck args procs ↔ ∀ p ∈ procs, p.pc.ended := by
  constructor
  · intro h p hp
    by_contra hnot
    obtain ⟨k, hk⟩ := List.mem_iff_getElem?.mp hp
    obtain ⟨r, p', hnext⟩ : ∃ r p', p.next args r = some (p', none) :=
      exists_next (Bool.eq_false_of_not_eq_true hnot)
    have hstep := step_iff (e := ⟨k, r⟩) |>.mpr ⟨p, p', none, hk, hnext, rfl, nofun⟩
    exact Option.some_ne_none _ (hstep.symm.trans (h ⟨k, r⟩))
  · intro h e
    by_contra hnot
    obtain ⟨procs', hs⟩ := Option.ne_none_iff_exists'.mp hnot
    obtain ⟨p, p', child, hk, hnext, -⟩ := step_iff.mp hs
    have hle := next_remaining hnext
    rw [remaining_of_ended (h p (List.mem_of_getElem? hk))] at hle
    omega

theorem Exits.eq_exited {status : Nat} {pc : Pc} (h : Exits status pc)
    (hend : pc.ended) : pc = .exited status := by
  obtain rfl | rfl := h
  · exact absurd hend Bool.false_ne_true
  · rfl

theorem Exits.ne_returned {status : Nat} {pc : Pc} {n : Int} (h : Exits status pc) :
    pc ≠ .returned n := by
  obtain rfl | rfl := h <;> simp

theorem First.ne_returned {n : Int} (h : First c failed sid p) : p.pc ≠ .returned n := by
  cases h <;> simp

theorem First.eq_exited (h : First c failed sid p) (hend : p.pc.ended) :
    failed ∧ p.pc = .exited exitFailure := by
  cases h with
  | exited hf => exact ⟨hf, rfl⟩
  | _ => exact absurd hend Bool.false_ne_true

theorem Second.ended (h : Second args c failed sid pid p) (hend : p.pc.ended) :
    failed ∧ p.pc = .exited exitFailure ∨ failed = false ∧ p.pc = .returned 0 := by
  cases h with
  | exited hf => exact .inl ⟨hf, rfl⟩
  | returned hf => exact .inr ⟨hf, rfl⟩
  | _ => exact absurd hend Bool.false_ne_true

/-- What `daemonize` leaves of the process `c` in the one that it returns in. -/
structure Daemonized (args : Args) (c p : Process) : Prop where
  not_leader : p.pid ≠ p.sid ∧ p.pid ≠ p.pgid
  session : p.sid ≠ c.sid ∧ p.pgid = p.sid
  signals : p.ignoresChld ∧ p.ignoresHup
  umask : p.umask = 0
  cwd : p.cwd = args.wd.getD c.cwd
  logIdent : p.logIdent = args.logIdent.or c.logIdent
  fds (fd : Nat) : fd ∈ p.fds ↔ fd ∈ c.fds ∧ (fd = 0 ∨ args.openMax < fd)

theorem Second.daemonized {n : Int} (h : Second args c failed sid pid p) (hsid : sid ≠ c.sid)
    (hpid : pid ≠ sid) (hpc : p.pc = .returned n) :
    failed = false ∧ n = 0 ∧ Daemonized args c p := by
  cases h with
  | returned hf =>
      refine ⟨hf, (Pc.returned.inj hpc).symm, ⟨hpid, hpid⟩, ⟨hsid, rfl⟩, ⟨rfl, rfl⟩, rfl, rfl, rfl,
        fun fd => ?_⟩
      simp only [Codelib.Daemonize.daemonized, daemon, kept, Finset.mem_filter]
      exact and_congr_right fun _ => by omega
  | _ => simp at hpc

/-- What the process at `k` is. -/
theorem Inv.process {k : Nat} (h : Inv args c failed procs) (hk : procs[k]? = some p) :
    p.pc = .fork ∨ Exits (if k = 0 ∧ 1 < procs.length then exitSuccess else exitFailure) p.pc ∨
      (k = 1 ∧ ∃ sid, First c failed sid p) ∨
      k = 2 ∧ ∃ sid pid, sid ≠ c.sid ∧ pid ≠ sid ∧ Second args c failed sid pid p := by
  cases h with
  | start hf =>
      obtain _ | k := k
      · obtain rfl := Option.some.inj hk
        exact .inl rfl
      · simp at hk
  | alone hf hexits =>
      obtain _ | k := k
      · obtain rfl := Option.some.inj hk
        exact .inr (.inl hexits)
      · simp at hk
  | two hexits hsid hfirst =>
      obtain _ | _ | k := k
      · obtain rfl := Option.some.inj hk
        exact .inr (.inl hexits)
      · obtain rfl := Option.some.inj hk
        exact .inr (.inr (.inl ⟨rfl, _, hfirst⟩))
      · simp at hk
  | three hexits hsid hexits' hpid hsecond =>
      obtain _ | _ | _ | k := k
      · obtain rfl := Option.some.inj hk
        exact .inr (.inl hexits)
      · obtain rfl := Option.some.inj hk
        exact .inr (.inl hexits')
      · obtain rfl := Option.some.inj hk
        exact .inr (.inr (.inr ⟨rfl, _, _, hsid.2.2, hpid, hsecond⟩))
      · simp at hk

theorem Inv.returned {k : Nat} {n : Int} (h : Inv args c failed procs) (hk : procs[k]? = some p)
    (hpc : p.pc = .returned n) : k = 2 ∧ failed = false ∧ n = 0 ∧ Daemonized args c p := by
  obtain hfork | hexits | ⟨-, sid, hfirst⟩ | ⟨rfl, sid, pid, hsid, hpid, hsecond⟩ := h.process hk
  · exact absurd (hpc.symm.trans hfork) Pc.noConfusion
  · exact absurd hpc hexits.ne_returned
  · exact absurd hpc hfirst.ne_returned
  · exact ⟨rfl, hsecond.daemonized hsid hpid hpc⟩

theorem Inv.ended {k : Nat} (h : Inv args c failed procs) (hstuck : Stuck args procs)
    (hk : procs[k]? = some p) :
    p.pc = .exited (if k = 0 ∧ 1 < procs.length then exitSuccess else exitFailure) ∨
      p.pc = .returned 0 := by
  have hend := stuck_iff.mp hstuck p (List.mem_of_getElem? hk)
  obtain hfork | hexits | ⟨rfl, sid, hfirst⟩ | ⟨rfl, sid, pid, -, -, hsecond⟩ := h.process hk
  · rw [hfork] at hend
    exact absurd hend Bool.false_ne_true
  · exact .inl (hexits.eq_exited hend)
  · exact .inl (hfirst.eq_exited hend).2
  · exact (hsecond.ended hend).imp And.right And.right

theorem Inv.returned_iff (h : Inv args c failed procs) (hstuck : Stuck args procs) :
    (∃ p ∈ procs, p.pc = .returned 0) ↔ failed = false := by
  constructor
  · rintro ⟨p, hp, hpc⟩
    obtain ⟨k, hk⟩ := List.mem_iff_getElem?.mp hp
    exact (h.returned hk hpc).2.1
  · intro hf
    cases h with
    | start _ => exact absurd (stuck_iff.mp hstuck _ List.mem_cons_self) Bool.false_ne_true
    | alone hf' _ => exact absurd hf' (by simp [hf])
    | two _ _ hfirst =>
        have hend := stuck_iff.mp hstuck _ (List.mem_cons_of_mem _ List.mem_cons_self)
        exact absurd (hfirst.eq_exited hend).1 (by simp [hf])
    | @three _ _ _ _ p _ _ _ _ hsecond =>
        obtain ⟨hf', -⟩ | ⟨-, hpc⟩ := hsecond.ended (stuck_iff.mp hstuck p (by simp))
        · exact absurd hf' (by simp [hf])
        · exact ⟨p, by simp, hpc⟩

/-- **Where `daemonize` returns**: in a grandchild of the process `c` that calls it, and nowhere else.
There is an end after at most so many calls. A process has returned then exactly if no call has failed;
the caller has ended with success exactly if it has got a child, and all the others with failure. -/
theorem daemonize_returns {evs : List Ev}
    (h : Run (Step args) [{ c with pc := .fork }] evs procs) :
    (∀ (k : Nat) (p : Process) pid, procs[k]? = some p → p.pc = .returned pid →
      k = 2 ∧ pid = 0 ∧ Daemonized args c p) ∧
    evs.length ≤ args.openMax.toNat + 12 ∧
    (Stuck args procs →
      (∀ (k : Nat) (p : Process), procs[k]? = some p →
        p.pc = .exited (if k = 0 ∧ 1 < procs.length then exitSuccess else exitFailure) ∨
          p.pc = .returned 0) ∧
      ((∃ p ∈ procs, p.pc = .returned 0) ↔ ∀ e ∈ evs, e.result ≠ .failed)) := by
  have hinv := inv_of_run h
  have hlength : evs.length + total args procs ≤ args.openMax.toNat + 12 := length_run h
  refine ⟨fun k p pid hk hpc => ?_, by omega, fun hstuck =>
    ⟨fun k p => hinv.ended hstuck, (hinv.returned_iff hstuck).trans ?_⟩⟩
  · obtain ⟨hthird, -, hdaemonized⟩ := hinv.returned hk hpc
    exact ⟨hthird, hdaemonized⟩
  · simp

/-- Started by a shell, with a descriptor above `sysconf(_SC_OPEN_MAX)`. -/
def shellChild : Process where
  pid := 10
  sid := 5
  pgid := 10
  ignoresChld := false
  ignoresHup := false
  umask := 18
  cwd := "/home"
  fds := {0, 1, 2, 7}
  logIdent := none
  pc := .fork

def testdaemon : Args := ⟨some ".", some "testdaemon", 2⟩

/-- The caller is the last to end. -/
def detaching : List Ev :=
  [⟨0, .child 11⟩, ⟨1, .done⟩, ⟨1, .done⟩, ⟨1, .done⟩, ⟨1, .child 12⟩, ⟨2, .done⟩, ⟨2, .done⟩,
    ⟨1, .done⟩, ⟨2, .done⟩, ⟨2, .done⟩, ⟨2, .done⟩, ⟨2, .done⟩, ⟨2, .done⟩, ⟨0, .done⟩]

theorem daemonize_returns_detaching : ∃ procs p, Run (Step testdaemon) [shellChild] detaching procs ∧
    procs[2]? = some p ∧ Daemonized testdaemon shellChild p ∧ p.fds = {0, 7} ∧
    procs.map Process.pc = [.exited exitSuccess, .exited exitFailure, .returned 0] := by
  have hrun : (replay (exec testdaemon) [shellChild] detaching).isSome := by decide
  obtain ⟨procs, hprocs⟩ := Option.isSome_iff_exists.mp hrun
  have hreturns := daemonize_returns (c := shellChild) (Run.of_replay hprocs)
  have hend : ∃ p, procs[2]? = some p ∧ p.pc = .returned 0 ∧ p.fds = {0, 7} ∧
      procs.map Process.pc = [.exited exitSuccess, .exited exitFailure, .returned 0] := by
    obtain rfl := Option.some.inj hprocs
    exact ⟨_, rfl, by decide, by decide, by decide⟩
  obtain ⟨p, hp, hpc, hfds, hpcs⟩ := hend
  exact ⟨procs, p, Run.of_replay hprocs, hp, (hreturns.1 2 p 0 hp hpc).2.2, hfds, hpcs⟩

end Codelib.Daemonize
