import Mathlib.Logic.Function.Basic
import Codelib.Core.Run

/-!
# Codelib.Core.Linearizable

**An object that many processes use at once**, and whose operations seem to happen one after the
other.

`apply` says what an operation does to the object, and what it answers, when nothing else happens.
In an atomic object a process calls an operation, the operation takes effect, and then it returns
(`Atomic.Step`). So the effects form a sequential run of `apply` (`effects_run`), and every call has
its own effect between its beginning and its return (`cycle_of_run`).

An implementation is linearizable if it simulates the atomic object, silent steps left out
(`Run.of_simulation`).

Nothing here names a program of the repository.
-/

namespace Codelib

variable {P Op Ret V S T L K : Type}

/-- What a process does with the object. -/
inductive Access (P Op Ret : Type)
  | call (p : P) (op : Op)
  | effect (p : P) (op : Op) (r : Ret)
  | ret (p : P) (r : Ret)

namespace Access

/-- Whose step it is. -/
def proc : Access P Op Ret → P
  | call p _ | effect p _ _ | ret p _ => p

end Access

/-- Where a process is. -/
inductive Place (Op Ret : Type)
  | outside
  | called (op : Op)
  | done (r : Ret)

/-- A process calls an operation, which takes effect, and returns its answer. -/
inductive Place.Step : Place Op Ret → Access P Op Ret → Place Op Ret → Prop
  | call {p : P} {op : Op} : Step outside (.call p op) (called op)
  | effect {p : P} {op : Op} {r : Ret} : Step (called op) (.effect p op r) (done r)
  | ret {p : P} {r : Ret} : Step (done r) (.ret p r) outside

/-- The operations that took effect, with their answers. -/
def effects (l : List (Access P Op Ret)) : List (Op × Ret) :=
  l.filterMap fun
    | .effect _ op r => some (op, r)
    | _ => none

theorem effects_append (l l' : List (Access P Op Ret)) :
    effects (l ++ l') = effects l ++ effects l' :=
  List.filterMap_append

/-- The object, and where the processes are. -/
structure Atomic (P Op Ret V : Type) where
  val : V
  place : P → Place Op Ret

namespace Atomic

variable (apply : V → Op → V × Ret)

/-- An effect is what `apply` does; the other steps do not touch the object. -/
def Next (v : V) : Access P Op Ret → V → Prop
  | .effect _ op r, v' => apply v op = (v', r)
  | _, v' => v' = v

variable [DecidableEq P]

structure Step (s : Atomic P Op Ret V) (a : Access P Op Ret) (s' : Atomic P Op Ret V) : Prop where
  val : Next apply s.val a s'.val
  place : ∃ q, (s.place a.proc).Step a q ∧ s'.place = Function.update s.place a.proc q

variable {apply} {s s' : Atomic P Op Ret V} {a : Access P Op Ret} {l : List (Access P Op Ret)}

/-- **The effects are a sequential run.** -/
theorem effects_run (h : Run (Step apply) s l s') :
    Run (fun v (x : Op × Ret) v' => apply v x.1 = (v', x.2)) s.val (effects l) s'.val := by
  induction h with
  | nil => exact .nil
  | @snoc l t u a hr hs ih =>
      rw [effects_append]
      have hnext := hs.val
      cases a with
      | effect p op r => exact ih.snoc hnext
      | call p op =>
          rw [show u.val = t.val from hnext]
          exact (List.append_nil (effects l)).symm ▸ ih
      | ret p r =>
          rw [show u.val = t.val from hnext]
          exact (List.append_nil (effects l)).symm ▸ ih

/-- **Every call has an effect of its own**, after its beginning and before its return. -/
theorem cycle_of_run (h : Run (Step apply) s l s') (p : P) :
    Run Place.Step (s.place p) (l.filter (·.proc = p)) (s'.place p) := by
  induction h with
  | nil => exact .nil
  | @snoc l t u a hr hs ih =>
      obtain ⟨q, hq, hplace⟩ := hs.place
      rw [List.filter_append, hplace]
      by_cases hp : a.proc = p
      · obtain rfl := hp
        rw [Function.update_self, List.filter_cons_of_pos (by simp), List.filter_nil]
        exact ih.snoc hq
      · rw [Function.update_of_ne (Ne.symm hp),
          List.filter_cons_of_neg (by simpa using hp), List.filter_nil, List.append_nil]
        exact ih

end Atomic

/-- Perform the choices `ks`; what is seen of them, and the state reached. -/
def observe (next : S → K → Option (L × S)) : S → List K → Option (List L × S)
  | s, [] => some ([], s)
  | s, k :: ks => (next s k).bind fun r => (observe next r.2 ks).map fun q => (r.1 :: q.1, q.2)

theorem Run.of_observe {next : S → K → Option (L × S)} {s s' : S} {ks : List K} {ls : List L}
    (h : observe next s ks = some (ls, s')) :
    Run (fun s l s' => ∃ k, next s k = some (l, s')) s ls s' := by
  induction ks generalizing s ls with
  | nil =>
      obtain ⟨rfl, rfl⟩ : [] = ls ∧ s = s' := by simpa [observe] using h
      exact .nil
  | cons k ks ih =>
      obtain ⟨⟨l, t⟩, ht, hr⟩ := Option.bind_eq_some_iff.mp h
      obtain ⟨⟨ls', u⟩, hls, heq⟩ := Option.map_eq_some_iff.mp hr
      obtain ⟨rfl, rfl⟩ := Prod.mk.inj heq
      exact Run.append_iff.mpr ⟨t, Run.single ⟨k, ht⟩, ih hls⟩

/-- A simulation in which some steps are silent. -/
theorem Run.of_simulation {step : S → Option L → S → Prop} {spec : T → L → T → Prop} {f : S → T}
    (hstep : ∀ {s l s'}, step s (some l) s' → spec (f s) l (f s'))
    (hsilent : ∀ {s s'}, step s none s' → f s' = f s) {s s' : S} {ls : List (Option L)}
    (h : Run step s ls s') : Run spec (f s) (ls.filterMap id) (f s') := by
  induction h with
  | nil => exact .nil
  | @snoc ls t u l hr hs ih =>
      rw [List.filterMap_append]
      cases l with
      | none =>
          rw [hsilent hs]
          exact (List.append_nil _).symm ▸ ih
      | some l => exact ih.snoc (hstep hs)

end Codelib
