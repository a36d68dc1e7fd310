import Mathlib.Logic.Function.Basic
import Mathlib.Tactic.Common

/-!
# Codelib.Core.StoreBuffer

**Threads over shared memory**, under sequential consistency and under x86-TSO.

A program says what each thread does next from its local state (`Instr`); the local
state includes the program counter. Under `Model.sc` a store is in memory at once.
Under `Model.tso` every thread has a first-in-first-out buffer of its stores: a store
goes into the buffer, `flush` moves the oldest one to memory at any time, and a load
sees the thread's own latest store to that location before it sees memory (`read`). A
read-modify-write, a fence and the creation of a thread wait until the thread's buffer
is empty. Buffers stay empty under `Model.sc`.

Nothing here names a program of the repository.
-/

namespace Codelib.StoreBuffer

universe u

/-- One instruction over threads `T`, locations `X`, values `V` and local states `L`,
with the local state it leads to; a load and a read-modify-write go on with the value
that was read. -/
inductive Instr (T X V L : Type u)
  | store (x : X) (v : V) (l : L)
  | load (x : X) (k : V → L)
  /-- Read a location and write it in one step. -/
  | rmw (x : X) (f : V → V) (k : V → L)
  | fence (l : L)
  /-- Create thread `u`, which changes the local state of `u`. -/
  | spawn (u : T) (f : L → L) (l : L)
  /-- No access to memory. -/
  | skip (l : L)

/-- What each thread does next; `none` if it has nothing to do. -/
abbrev Program (T X V L : Type u) := T → L → Option (Instr T X V L)

inductive Model
  | sc
  | tso
  deriving Repr, DecidableEq

structure State (T X V L : Type u) where
  loc : T → L
  mem : X → V
  /-- Stores not yet in memory, the oldest first. -/
  buf : T → List (X × V)

/-- A thread performs the instruction of its local state, or its oldest store reaches
memory. -/
inductive Event (T L : Type u)
  | issue (t : T) (l : L)
  | flush (t : T)
  deriving Repr, DecidableEq

/-- Whose turn it is: a thread goes on, or its oldest store reaches memory. -/
inductive Turn (T : Type u)
  | run (t : T)
  | flush (t : T)

variable {T X V L : Type u}

namespace State

/-- What happens when it is `k`'s turn. -/
def event (s : State T X V L) : Turn T → Event T L
  | .run t => .issue t (s.loc t)
  | .flush t => .flush t

variable {s s' : State T X V L} {t u : T} {x y : X} {v : V} {l : L}

/-! ### Buffers -/

/-- Go on to `s'` once the buffer of `t` is empty. -/
def drained (s : State T X V L) (t : T) (s' : State T X V L) : Option (State T X V L) :=
  match s.buf t with
  | [] => some s'
  | _ :: _ => none

theorem drained_eq_some {r : State T X V L} :
    s.drained t r = some s' ↔ s.buf t = [] ∧ s' = r := by
  unfold drained
  cases h : s.buf t with
  | nil => simp [eq_comm]
  | cons e es => simp

variable [DecidableEq X]

/-- What a load of `x` by thread `t` returns. -/
def read (s : State T X V L) (t : T) (x : X) : V :=
  (s.buf t).foldl (fun v e => if e.1 = x then e.2 else v) (s.mem x)

/-- A load sees memory unless the thread has stored to the location since. -/
theorem read_of_not_buffered (h : ∀ e ∈ s.buf t, e.1 ≠ x) : s.read t x = s.mem x := by
  unfold read
  generalize s.buf t = es at h
  induction es with
  | nil => rfl
  | cons e es ih =>
      rw [List.foldl_cons, if_neg (h e List.mem_cons_self)]
      exact ih fun e' he' => h e' (List.mem_cons_of_mem e he')

theorem read_of_empty (h : s.buf t = []) (x : X) : s.read t x = s.mem x := by
  rw [read, h]
  rfl

theorem read_congr (hb : s'.buf t = s.buf t) (hm : s'.mem x = s.mem x) :
    s'.read t x = s.read t x := by
  rw [read, read, hb, hm]

/-! ### Steps -/

variable [DecidableEq T]

/-- Thread `t` performs an instruction. -/
def perform (m : Model) (s : State T X V L) (t : T) :
    Instr T X V L → Option (State T X V L)
  | .store x v l =>
    match m with
    | .sc => some { s with
        loc := Function.update s.loc t l
        mem := Function.update s.mem x v }
    | .tso => some { s with
        loc := Function.update s.loc t l
        buf := Function.update s.buf t (s.buf t ++ [(x, v)]) }
  | .load x k => some { s with loc := Function.update s.loc t (k (s.read t x)) }
  | .rmw x f k => s.drained t { s with
      loc := Function.update s.loc t (k (s.mem x))
      mem := Function.update s.mem x (f (s.mem x)) }
  | .fence l => s.drained t { s with loc := Function.update s.loc t l }
  | .spawn u f l => s.drained t { s with
      loc := Function.update (Function.update s.loc u (f (s.loc u))) t l }
  | .skip l => some { s with loc := Function.update s.loc t l }

/-- The oldest store of `t` reaches memory. -/
def flush (s : State T X V L) (t : T) : Option (State T X V L) :=
  match s.buf t with
  | [] => none
  | (x, v) :: rest => some { s with
      mem := Function.update s.mem x v
      buf := Function.update s.buf t rest }

/-- One step, if it can be taken. -/
def exec [DecidableEq L] (m : Model) (p : Program T X V L) (s : State T X V L) :
    Event T L → Option (State T X V L)
  | .issue t l => if s.loc t = l then (p t l).bind (s.perform m t) else none
  | .flush t => s.flush t

/-! ### What a step does -/

/-- A store, as far as both models agree on it: the thread itself sees it from now on,
and memory and buffer contain nothing new but it. -/
structure Stored (s : State T X V L) (t : T) (x : X) (v : V) (l : L) (s' : State T X V L) :
    Prop where
  loc : s'.loc = Function.update s.loc t l
  mem : ∀ y, y ≠ x → s'.mem y = s.mem y
  mem_self : s'.mem x = s.mem x ∨ s'.mem x = v
  buf : ∀ u, u ≠ t → s'.buf u = s.buf u
  buf_self : ∀ e ∈ s'.buf t, e ∈ s.buf t ∨ e = (x, v)
  read_self : s'.read t x = v
  read : ∀ y, y ≠ x → s'.read t y = s.read t y

theorem perform_store {m : Model} (hsc : m = .sc → s.buf t = [])
    (h : s.perform m t (.store x v l) = some s') :
    Stored s t x v l s' ∧ (m = .sc → s'.buf = s.buf) := by
  cases m with
  | sc =>
      obtain rfl := Option.some.inj h
      have hempty := hsc rfl
      refine ⟨⟨rfl, fun y hy => Function.update_of_ne hy _ _, .inr (Function.update_self ..),
        fun _ _ => rfl, fun e he => .inl he, ?_, fun y hy => ?_⟩, fun _ => rfl⟩
      · simp [State.read, hempty]
      · exact read_congr rfl (Function.update_of_ne hy _ _)
  | tso =>
      obtain rfl := Option.some.inj h
      refine ⟨⟨rfl, fun _ _ => rfl, .inl rfl, fun u hu => Function.update_of_ne hu _ _,
        fun e he => ?_, ?_, fun y hy => ?_⟩, nofun⟩
      · simpa using he
      · simp [State.read]
      · simp [State.read, Ne.symm hy]

theorem perform_load {m : Model} {k : V → L} (h : s.perform m t (.load x k) = some s') :
    s' = { s with loc := Function.update s.loc t (k (s.read t x)) } :=
  (Option.some.inj h).symm

theorem perform_rmw {m : Model} {f : V → V} {k : V → L}
    (h : s.perform m t (.rmw x f k) = some s') : s.buf t = [] ∧ s' = { s with
      loc := Function.update s.loc t (k (s.mem x))
      mem := Function.update s.mem x (f (s.mem x)) } :=
  drained_eq_some.mp h

theorem perform_fence {m : Model} (h : s.perform m t (.fence l) = some s') :
    s.buf t = [] ∧ s' = { s with loc := Function.update s.loc t l } :=
  drained_eq_some.mp h

theorem perform_spawn {m : Model} {f : L → L} (h : s.perform m t (.spawn u f l) = some s') :
    s.buf t = [] ∧ s' = { s with
      loc := Function.update (Function.update s.loc u (f (s.loc u))) t l } :=
  drained_eq_some.mp h

theorem perform_skip {m : Model} (h : s.perform m t (.skip l) = some s') :
    s' = { s with loc := Function.update s.loc t l } :=
  (Option.some.inj h).symm

/-- The oldest store of `t` goes to memory; `t` itself sees no difference. -/
structure Flushed (s : State T X V L) (t : T) (s' : State T X V L) : Prop where
  loc : s'.loc = s.loc
  mem : ∀ y, (∀ e ∈ s.buf t, e.1 ≠ y) → s'.mem y = s.mem y
  written : ∃ e ∈ s.buf t, s'.mem = Function.update s.mem e.1 e.2
  buf : ∀ u, u ≠ t → s'.buf u = s.buf u
  buf_self : ∀ e ∈ s'.buf t, e ∈ s.buf t
  read : ∀ y, s'.read t y = s.read t y

theorem flush_eq_some (h : s.flush t = some s') : Flushed s t s' := by
  unfold flush at h
  cases hb : s.buf t with
  | nil => simp [hb] at h
  | cons e rest =>
      simp only [hb, Option.some.injEq] at h
      subst h
      refine ⟨rfl, fun y hy => ?_, ⟨e, ?_, rfl⟩, fun u hu => Function.update_of_ne hu _ _,
        fun e' he' => ?_, fun y => ?_⟩
      · exact Function.update_of_ne (hy e (by rw [hb]; exact List.mem_cons_self)).symm _ _
      · rw [hb]
        exact List.mem_cons_self
      · rw [hb]
        exact List.mem_cons_of_mem e (by simpa using he')
      · simp only [State.read, hb, Function.update_self, List.foldl_cons]
        by_cases hy : e.1 = y
        · subst hy
          rw [Function.update_self, if_pos rfl]
        · rw [Function.update_of_ne (Ne.symm hy), if_neg hy]

theorem exec_issue [DecidableEq L] {m : Model} {p : Program T X V L}
    (h : s.exec m p (.issue t l) = some s') :
    s.loc t = l ∧ ∃ i, p t l = some i ∧ s.perform m t i = some s' := by
  simp only [exec] at h
  by_cases hl : s.loc t = l
  · rw [if_pos hl] at h
    obtain ⟨i, hi, hp⟩ := Option.bind_eq_some_iff.mp h
    exact ⟨hl, i, hi, hp⟩
  · rw [if_neg hl] at h
    exact absurd h nofun

/-- Under sequential consistency nothing is ever buffered. -/
theorem exec_sc_buf [DecidableEq L] {p : Program T X V L} {e : Event T L}
    (h : s.exec .sc p e = some s') (hb : ∀ t, s.buf t = []) : ∀ t, s'.buf t = [] := by
  cases e with
  | flush t =>
      obtain ⟨e, he, -⟩ := (flush_eq_some h).written
      rw [hb t] at he
      exact absurd he List.not_mem_nil
  | issue t l =>
      obtain ⟨-, i, -, hi⟩ := exec_issue h
      cases i with
      | store x v l' =>
          rw [(perform_store (fun _ => hb t) hi).2 rfl]
          exact hb
      | load x k => rw [perform_load hi]; exact hb
      | rmw x f k => rw [(perform_rmw hi).2]; exact hb
      | fence l' => rw [(perform_fence hi).2]; exact hb
      | spawn u f l' => rw [(perform_spawn hi).2]; exact hb
      | skip l' => rw [perform_skip hi]; exact hb

/-! ### Whether there is a step -/

/-- Only a store is buffered. -/
theorem perform_buf {m : Model} {i : Instr T X V L} (h : s.perform m t i = some s') :
    s'.buf = s.buf ∨ ∃ x v l, i = .store x v l ∧
      s'.buf = Function.update s.buf t (s.buf t ++ [(x, v)]) := by
  cases i with
  | store x v l =>
      cases m with
      | sc =>
          obtain rfl := Option.some.inj h
          exact .inl rfl
      | tso =>
          obtain rfl := Option.some.inj h
          exact .inr ⟨x, v, l, rfl, rfl⟩
  | load x k => rw [perform_load h]; exact .inl rfl
  | rmw x f k => rw [(perform_rmw h).2]; exact .inl rfl
  | fence l => rw [(perform_fence h).2]; exact .inl rfl
  | spawn u f l => rw [(perform_spawn h).2]; exact .inl rfl
  | skip l => rw [perform_skip h]; exact .inl rfl

theorem flush_buf (h : s.flush t = some s') :
    ∃ e rest, s.buf t = e :: rest ∧ s'.buf = Function.update s.buf t rest := by
  unfold flush at h
  cases hb : s.buf t with
  | nil => simp [hb] at h
  | cons e rest =>
      simp only [hb, Option.some.injEq] at h
      subst h
      exact ⟨e, rest, rfl, rfl⟩

end State

end Codelib.StoreBuffer
