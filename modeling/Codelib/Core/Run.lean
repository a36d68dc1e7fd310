import Mathlib.Data.List.Induction
import Mathlib.Tactic.Common

/-!
# Codelib.Core.Run

**Runs of labelled transition systems.** A system is a step relation
`S → L → S → Prop`; `Run step s ls t` says that the labels `ls`, performed in
order, lead from `s` to `t`. Runs grow at the end (`snoc`), so an invariant of
the whole history `ls` and the state reached is proved by looking at the last
step only (`Run.invariant`).

Nothing here names a program of the repository.
-/

namespace Codelib

universe u v w

variable {S : Type u} {L : Type v}

/-- The labels `ls`, performed in order, lead from the first state to the last. -/
inductive Run (step : S → L → S → Prop) (s : S) : List L → S → Prop
  | nil : Run step s [] s
  | snoc {ls : List L} {t u : S} {l : L} :
      Run step s ls t → step t l u → Run step s (ls ++ [l]) u

namespace Run

variable {step : S → L → S → Prop} {s t u : S} {ls ls' : List L} {l : L}

theorem nil_iff : Run step s [] t ↔ s = t := by
  constructor
  · intro h
    generalize hls : ([] : List L) = ls at h
    cases h with
    | nil => rfl
    | snoc _ _ => simp at hls
  · intro heq
    obtain rfl := heq
    exact nil

theorem snoc_iff : Run step s (ls ++ [l]) u ↔ ∃ t, Run step s ls t ∧ step t l u := by
  constructor
  · intro h
    generalize hls : ls ++ [l] = ks at h
    cases h with
    | nil => simp at hls
    | snoc hr hs =>
        obtain ⟨rfl, hl⟩ := List.append_inj' hls rfl
        obtain rfl : l = _ := by simpa using hl
        exact ⟨_, hr, hs⟩
  · intro hp
    obtain ⟨t, hr, hs⟩ := hp
    exact snoc hr hs

theorem single (h : step s l t) : Run step s [l] t := by
  rw [← List.nil_append [l]]
  exact snoc nil h

theorem append_iff : Run step s (ls ++ ls') u ↔ ∃ t, Run step s ls t ∧ Run step t ls' u := by
  induction ls' using List.reverseRecOn generalizing u with
  | nil => simp [nil_iff]
  | append_singleton ks k ih =>
      rw [← List.append_assoc, snoc_iff]
      constructor
      · intro h
        obtain ⟨v, hv, hs⟩ := h
        obtain ⟨t, h₁, h₂⟩ := ih.mp hv
        exact ⟨t, h₁, snoc h₂ hs⟩
      · intro h
        obtain ⟨t, h₁, h₂⟩ := h
        obtain ⟨v, h₂, hs⟩ := snoc_iff.mp h₂
        exact ⟨v, ih.mpr ⟨t, h₁, h₂⟩, hs⟩

theorem mono {step' : S → L → S → Prop} (h : Run step s ls t)
    (himp : ∀ {u l v}, step u l v → step' u l v) : Run step' s ls t := by
  induction h with
  | nil => exact nil
  | snoc _ hs ih => exact snoc ih (himp hs)

/-- Every prefix of a run is a run. -/
theorem of_prefix (h : Run step s ls u) (hp : ls' <+: ls) : ∃ t, Run step s ls' t := by
  obtain ⟨rest, rfl⟩ := hp
  obtain ⟨t, ht, -⟩ := append_iff.mp h
  exact ⟨t, ht⟩

/-- **Invariants.** What holds of the empty history and is kept by every step holds
of every history and the state it leads to. -/
theorem invariant {I : List L → S → Prop} (h₀ : I [] s)
    (hstep : ∀ {ls t l u}, Run step s ls t → I ls t → step t l u → I (ls ++ [l]) u) :
    ∀ {ls u}, Run step s ls u → I ls u := by
  intro ls u h
  induction h with
  | nil => exact h₀
  | snoc hr hs ih => exact hstep hr ih hs

/-- Invariants of the state alone. -/
theorem invariant_state {I : S → Prop} (h₀ : I s)
    (hstep : ∀ {t l u}, I t → step t l u → I u) (h : Run step s ls u) : I u :=
  invariant (I := fun _ => I) h₀ (fun _ hi hs => hstep hi hs) h

/-- A system whose labels carry answers (`key` is the question) has one run for
every list of questions, when every step is determined by its question. -/
theorem deterministic {K : Type w} {key : L → K} (h : Run step s ls t)
    (h' : Run step s ls' u) (hkey : ls.map key = ls'.map key)
    (hdet : ∀ {s l l' t t'}, key l = key l' → step s l t → step s l' t' → l = l' ∧ t = t') :
    ls = ls' ∧ t = u := by
  induction h generalizing ls' u with
  | nil =>
      obtain rfl : ls' = [] := by simpa using hkey.symm
      exact ⟨rfl, nil_iff.mp h'⟩
  | @snoc ks v t k hr hs ih =>
      cases h' with
      | nil => simp at hkey
      | @snoc ks' v' _ k' hr' hs' =>
          simp only [List.map_append, List.map_cons, List.map_nil] at hkey
          obtain ⟨hks, hk⟩ := List.append_inj' hkey rfl
          obtain ⟨rfl, rfl⟩ := ih hr' hks
          obtain ⟨rfl, rfl⟩ := hdet (by simpa using hk) hs hs'
          exact ⟨rfl, rfl⟩

/-- A system in which every label leads to one state at most. -/
theorem functional (h : Run step s ls t) (h' : Run step s ls u)
    (hdet : ∀ {s l t t'}, step s l t → step s l t' → t = t') : t = u := by
  refine (deterministic h h' (show ls.map id = ls.map id from rfl) ?_).2
  intro s l l' t t' hkey hs hs'
  obtain rfl : l = l' := hkey
  exact ⟨rfl, hdet hs hs'⟩

end Run

/-! ### Replaying a computable step function -/

/-- Perform the labels `ls` with a partial step function. -/
def replay (next : S → L → Option S) : S → List L → Option S
  | s, [] => some s
  | s, l :: ls => (next s l).bind fun t => replay next t ls

/-- A successful replay is a run. -/
theorem Run.of_replay {next : S → L → Option S} {s u : S} {ls : List L}
    (h : replay next s ls = some u) : Run (fun s l t => next s l = some t) s ls u := by
  induction ls generalizing s with
  | nil =>
      obtain rfl : s = u := by simpa [replay] using h
      exact Run.nil
  | cons l ls ih =>
      obtain ⟨t, ht, hu⟩ := Option.bind_eq_some_iff.mp h
      exact Run.append_iff.mpr ⟨t, Run.single ht, ih hu⟩

/-- Make the choices `ks`, where `pick` says which label a choice stands for in the
state it is made in; the labels that were performed and the state reached. -/
def follow {K : Type w} (next : S → L → Option S) (pick : S → K → L) :
    S → List K → Option (List L × S)
  | s, [] => some ([], s)
  | s, k :: ks => (next s (pick s k)).bind fun t =>
      (follow next pick t ks).map fun r => (pick s k :: r.1, r.2)

theorem replay_of_follow {K : Type w} {next : S → L → Option S} {pick : S → K → L} {s u : S}
    {ks : List K} {ls : List L} (h : follow next pick s ks = some (ls, u)) :
    replay next s ls = some u := by
  induction ks generalizing s ls with
  | nil =>
      obtain ⟨rfl, rfl⟩ : [] = ls ∧ s = u := by simpa [follow] using h
      rfl
  | cons k ks ih =>
      obtain ⟨t, ht, hr⟩ := Option.bind_eq_some_iff.mp h
      obtain ⟨⟨ls', v⟩, hls, heq⟩ := Option.map_eq_some_iff.mp hr
      obtain ⟨rfl, rfl⟩ := Prod.mk.inj heq
      exact Option.bind_eq_some_iff.mpr ⟨t, ht, ih hls⟩

/-- Choices that lead to a state in which `q` has the value `b` give a run to one. -/
theorem Run.of_follow {K B : Type w} {next : S → L → Option S} {pick : S → K → L} {s : S}
    {ks : List K} {q : S → B} {b : B}
    (h : (follow next pick s ks).map (fun r => q r.2) = some b) :
    ∃ ls u, Run (fun s l t => next s l = some t) s ls u ∧ q u = b := by
  obtain ⟨⟨ls, u⟩, hr, hq⟩ := Option.map_eq_some_iff.mp h
  exact ⟨ls, u, Run.of_replay (replay_of_follow hr), hq⟩

end Codelib
