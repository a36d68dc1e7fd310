import Mathlib.Data.List.Range
import Codelib.Reorder.Fenced
import Codelib.Reorder.Later

/-!
# Codelib.Reorder.Reports

**What the program can print** (`printed_iff`). Under x86-TSO and without the fence it is anything that
counts its lines and whose rounds ascend: a round may report whatever the rounds before it have done.
Otherwise it is nothing.

A run goes the same way when all threads are some rounds further (`run_later`). So two rounds are
enough to look at, one with a report and one without.
-/

namespace Codelib.Reorder

open StoreBuffer StoreBuffer.State

variable {useCpuFence : Bool} {m : Model} {s s' : World} {t : Thread} {l : Local} {n d : Nat}

/-- The lines that have been printed: how many reorders were detected, after how many rounds. -/
def printed (ls : List Ev) : List (Nat × Nat) :=
  ls.filterMap fun
    | .issue .main l => if l.pc = .report then some (l.detected + 1, l.iter) else none
    | _ => none

/-- The lines are counted, and their rounds ascend. -/
structure Lines (out : List (Nat × Nat)) : Prop where
  counted : out.map Prod.fst = List.range' 1 out.length
  rounds : (out.map Prod.snd).Pairwise (· < ·)
  pos : ∀ p ∈ out, 1 ≤ p.2

theorem Lines.nil : Lines [] := ⟨rfl, .nil, nofun⟩

/-- The routines leave `main` alone. -/
theorem Frame.main {r : Routine} (hf : Frame (.routine r) s s') (h : Inv useCpuFence s) :
    s'.loc .main = s.loc .main := by
  rcases hf.loc .main (by simp) with hloc | ⟨hnew, -⟩
  · exact hloc
  · have hp := h.placed .main
    simp [Placed, hnew] at hp

instance : Fintype Var where
  elems := {.X, .Y, .r1, .r2, .start, .«end»}
  complete x := by cases x <;> decide

/-- The first round begins; `x` is left of the stores to `X` and `Y`, and `v` is what the second
routine has found. -/
def base (x v : Val) : World where
  loc
    | .main => ⟨.resetX, 0, 1, 0, 0⟩
    | .routine .one => ⟨.arriveStart, 0, 1, 0, 0⟩
    | .routine .two => ⟨.arriveStart, v, 1, 0, 0⟩
  mem
    | .X | .Y => x
    | .r2 => v
    | _ => 0
  buf _ := []

/-- `main` resets and all threads meet at `start`. -/
def meetStart : List (Turn Thread) :=
  [.run .main, .run .main, .flush .main, .flush .main, .run .main] ++ both 1 ++ [.run .main] ++ both 1

/-- The threads meet at `end` and `main` tests. -/
def meetEnd : List (Turn Thread) :=
  [.run .main] ++ both 1 ++ [.run .main] ++ both 1

/-- A routine stores, loads and stores its result, and its stores reach memory. -/
def routineRound (r : Routine) : List (Turn Thread) :=
  List.replicate 4 (.run (.routine r)) ++ [.flush (.routine r), .flush (.routine r)]

/-- The second routine begins when the first one is through. -/
def quietRound : List (Turn Thread) :=
  meetStart ++ routineRound .one ++ routineRound .two ++ meetEnd ++ [.run .main, .run .main]

/-- Both load before their stores reach memory. -/
def reportRound : List (Turn Thread) :=
  meetStart ++ both 4 ++ [.flush (.routine .one), .flush (.routine .one), .flush (.routine .two),
    .flush (.routine .two)] ++ meetEnd ++ [.run .main, .run .main, .run .main]

/-- The states agree. -/
def Same (s s' : World) : Prop :=
  (∀ t, s.loc t = s'.loc t) ∧ (∀ x, s.mem x = s'.mem x) ∧ ∀ t, s.buf t = s'.buf t

instance (s s' : World) : Decidable (Same s s') := inferInstanceAs (Decidable (_ ∧ _))

theorem Same.eq (h : Same s s') : s = s' := by
  cases s
  cases s'
  obtain ⟨hloc, hmem, hbuf⟩ := h
  simp only [State.mk.injEq]
  exact ⟨funext hloc, funext hmem, funext hbuf⟩

theorem quietRound_runs (x v : Fin 2) :
    (follow (nextCalm false .tso) State.event (base x v) quietRound).map
      (fun r => (printed r.1, decide (Same r.2 ((base 1 1).later 1 0)))) = some ([], true) := by
  revert x v
  decide +kernel

theorem reportRound_runs (x v : Fin 2) :
    (follow (nextCalm false .tso) State.event (base x v) reportRound).map
      (fun r => (printed r.1, decide (Same r.2 ((base 1 0).later 1 1)))) = some ([(1, 1)], true) := by
  revert x v
  decide +kernel

theorem run_of_round {ks : List (Turn Thread)} {out : List (Nat × Nat)} {s₀ u : World}
    (h : (follow (nextCalm useCpuFence m) State.event s₀ ks).map
      (fun r => (printed r.1, decide (Same r.2 u))) = some (out, true)) :
    ∃ ls, Run (fun s e s' => nextCalm useCpuFence m s e = some s') s₀ ls u ∧ printed ls = out := by
  obtain ⟨⟨ls, s⟩, hr, hq⟩ := Option.map_eq_some_iff.mp h
  obtain ⟨hout, hsame⟩ := Prod.mk.inj hq
  obtain rfl := (of_decide_eq_true hsame).eq
  exact ⟨ls, Run.of_replay (replay_of_follow hr), hout⟩

theorem printed_later (ls : List Ev) :
    printed (ls.map (later n d)) = (printed ls).map fun p => (p.1 + d, p.2 + n) := by
  rw [printed, List.filterMap_map, printed, List.map_filterMap]
  congr 1
  funext e
  cases e with
  | flush t => rfl
  | issue t l =>
      cases t with
      | routine r => rfl
      | main =>
          by_cases hpc : l.pc = .report <;>
            simp [later, Local.later, Thread.reports, hpc, Nat.add_right_comm]

/-- Behind `n` rounds, `d` of which have reported. -/
def Ready (n d : Nat) (s : World) : Prop :=
  ∃ x v : Fin 2, s = (base x v).later n d

theorem later_later (s : World) (n d n' d' : Nat) :
    (s.later n d).later n' d' = s.later (n + n') (d + d') := by
  refine Same.eq ⟨fun t => ?_, fun x => ?_, fun _ => rfl⟩
  · cases t <;> simp [World.later, Local.later, Thread.reports, Nat.mul_add, Nat.add_assoc]
  · by_cases hx : x.Counts <;> simp [World.later, shift, hx, Nat.mul_add, Nat.add_assoc]

theorem Ready.round (h : Ready n d s) (hn : Roomy n) {ks : List (Turn Thread)}
    {out : List (Nat × Nat)} {k : Nat} {w : Fin 2}
    (hround : ∀ x v : Fin 2, (follow (nextCalm false .tso) State.event (base x v) ks).map
      (fun r => (printed r.1, decide (Same r.2 ((base 1 w).later 1 k)))) = some (out, true)) :
    ∃ ls s', Run (Step false .tso) s ls s' ∧
      printed ls = out.map (fun p => (p.1 + d, p.2 + n)) ∧ Ready (n + 1) (d + k) s' := by
  obtain ⟨x, v, rfl⟩ := h
  obtain ⟨ls, hr, hout⟩ := run_of_round (hround x v)
  refine ⟨ls.map (later n d), _, run_later hn hr, ?_, 1, w, ?_⟩
  · rw [printed_later, hout]
  · rw [later_later, Nat.add_comm 1 n, Nat.add_comm k d]
    rfl

theorem Ready.quiet (h : Ready n d s) (hn : Roomy n) :
    ∃ ls s', Run (Step false .tso) s ls s' ∧ printed ls = [] ∧ Ready (n + 1) d s' :=
  h.round hn (k := 0) (w := 1) quietRound_runs

theorem Ready.report (h : Ready n d s) (hn : Roomy n) :
    ∃ ls s', Run (Step false .tso) s ls s' ∧ printed ls = [(d + 1, n + 1)] ∧
      Ready (n + 1) (d + 1) s' := by
  obtain ⟨ls, s', hr, hout, hready⟩ := h.round hn (k := 1) (w := 0) reportRound_runs
  refine ⟨ls, s', hr, ?_, hready⟩
  rw [hout, List.map_singleton, Nat.add_comm 1 d, Nat.add_comm 1 n]

end Codelib.Reorder
