import Mathlib.Algebra.BigOperators.Group.List.Basic
import Mathlib.Data.List.Induction
import Mathlib.Tactic.Common

/-!
# Codelib.Core.Abrupt

**Programs that may break off and keep their state**: a panic that leaves what was
stored before it, a jump out of a subroutine to the next round of its caller's loop.

* The `_ok` and `_error` equations run a program on a given state.
* `Outcome m s Q E` — `m` started in `s` returns with `Q`, or breaks off with `E`. Its
  lemmas are equivalences, so they are used as rewrite rules, and `Outcome.forM` is the
  rule for a loop with an invariant.
* `rounds` is a loop that goes on with the next element when its body breaks off.

Nothing here names a program of the repository.
-/

namespace Codelib

/-- A program over the state `σ` with results `α` that may break off with an `ε`. -/
abbrev Abrupt (ε σ α : Type) := ExceptT ε (StateM σ) α

namespace Abrupt

variable {ε σ α β : Type} {s s' : σ}

/-! ### Running -/

theorem pure_ok (a : α) : (pure a : Abrupt ε σ α) s = (.ok a, s) := rfl

theorem bind_ok {m : Abrupt ε σ α} {a : α} (f : α → Abrupt ε σ β) (h : m s = (.ok a, s')) :
    (m >>= f) s = f a s' := by
  show (ExceptT.bindCont f (m s).1) (m s).2 = f a s'
  rw [h]
  rfl

theorem bind_error {m : Abrupt ε σ α} {e : ε} (f : α → Abrupt ε σ β)
    (h : m s = (.error e, s')) : (m >>= f) s = (.error e, s') := by
  show (ExceptT.bindCont f (m s).1) (m s).2 = _
  rw [h]
  rfl

theorem get_ok : (get : Abrupt ε σ σ) s = (.ok s, s) := rfl

theorem modify_ok (f : σ → σ) : (modify f : Abrupt ε σ PUnit) s = (.ok ⟨⟩, f s) := rfl

/-! ### Outcomes -/

/-- `m` started in `s` returns with `Q`, or breaks off with `E`. -/
def Outcome (m : Abrupt ε σ α) (s : σ) (Q : α → σ → Prop) (E : ε → σ → Prop) : Prop :=
  (∀ a s', m s = (.ok a, s') → Q a s') ∧ ∀ e s', m s = (.error e, s') → E e s'

variable {m : Abrupt ε σ α} {Q : α → σ → Prop} {E : ε → σ → Prop}

theorem outcome_of_ok {a : α} (h : m s = (.ok a, s')) : Outcome m s Q E ↔ Q a s' := by
  refine ⟨fun ho => ho.1 a s' h, fun hq => ⟨fun b t hb => ?_, fun e t he => ?_⟩⟩
  · obtain ⟨hab, rfl⟩ := Prod.mk.inj (h.symm.trans hb)
    exact Except.ok.inj hab ▸ hq
  · exact absurd (Prod.mk.inj (h.symm.trans he)).1 (by simp)

theorem outcome_of_error {e : ε} (h : m s = (.error e, s')) : Outcome m s Q E ↔ E e s' := by
  refine ⟨fun ho => ho.2 e s' h, fun hq => ⟨fun a t ha => ?_, fun e' t he => ?_⟩⟩
  · exact absurd (Prod.mk.inj (h.symm.trans ha)).1 (by simp)
  · obtain ⟨hee, rfl⟩ := Prod.mk.inj (h.symm.trans he)
    exact Except.error.inj hee ▸ hq

@[simp] theorem outcome_pure {a : α} : Outcome (pure a : Abrupt ε σ α) s Q E ↔ Q a s :=
  outcome_of_ok (pure_ok a)

@[simp] theorem outcome_throw {e : ε} : Outcome (throw e : Abrupt ε σ α) s Q E ↔ E e s :=
  outcome_of_error rfl

@[simp] theorem outcome_get {Q : σ → σ → Prop} :
    Outcome (get : Abrupt ε σ σ) s Q E ↔ Q s s :=
  outcome_of_ok get_ok

@[simp] theorem outcome_modify {f : σ → σ} {Q : PUnit → σ → Prop} :
    Outcome (modify f : Abrupt ε σ PUnit) s Q E ↔ Q ⟨⟩ (f s) :=
  outcome_of_ok (modify_ok f)

@[simp] theorem outcome_set {t : σ} {Q : PUnit → σ → Prop} :
    Outcome (set t : Abrupt ε σ PUnit) s Q E ↔ Q ⟨⟩ t :=
  outcome_of_ok rfl

@[simp] theorem outcome_bind {f : α → Abrupt ε σ β} {Q : β → σ → Prop} :
    Outcome (m >>= f) s Q E ↔ Outcome m s (fun a s' => Outcome (f a) s' Q E) E := by
  rcases h : m s with ⟨_ | a, s'⟩
  · rw [outcome_of_error h, outcome_of_error (bind_error f h)]
  · rw [outcome_of_ok h]
    simp only [Outcome, bind_ok f h]

theorem Outcome.mono {Q' : α → σ → Prop} {E' : ε → σ → Prop} (h : Outcome m s Q E)
    (hQ : ∀ a s', Q a s' → Q' a s') (hE : ∀ e s', E e s' → E' e s') : Outcome m s Q' E' :=
  ⟨fun a s' hm => hQ a s' (h.1 a s' hm), fun e s' hm => hE e s' (h.2 e s' hm)⟩

/-- One program after the other. -/
theorem Outcome.bind {f : α → Abrupt ε σ β} {R : α → σ → Prop} {Q : β → σ → Prop}
    (h : Outcome m s R E) (hf : ∀ a t, R a t → Outcome (f a) t Q E) : Outcome (m >>= f) s Q E :=
  outcome_bind.mpr (h.mono hf fun _ _ he => he)

/-- A loop over a list whose body keeps the invariant `I`. -/
theorem Outcome.forM {I : σ → Prop} {f : α → Abrupt ε σ PUnit} {l : List α}
    (hbody : ∀ x ∈ l, ∀ t, I t → Outcome (f x) t (fun _ t' => I t') E) (hs : I s) :
    Outcome (l.forM f) s (fun _ s' => I s') E := by
  induction l generalizing s with
  | nil => exact outcome_pure.mpr hs
  | cons x l ih =>
      refine (hbody x List.mem_cons_self s hs).bind fun _ t ht => ?_
      exact ih (fun y hy => hbody y (List.mem_cons_of_mem x hy)) ht

/-! ### However it ends -/

/-- Every run leads to a state that `R` relates to the first one, however it ends. -/
def Leads (R : σ → σ → Prop) (m : Abrupt ε σ α) : Prop :=
  ∀ s, Outcome m s (fun _ s' => R s s') fun _ s' => R s s'

namespace Leads

variable {R : σ → σ → Prop}

theorem pure (hR : ∀ s, R s s) (a : α) : Leads R (pure a : Abrupt ε σ α) :=
  fun s => outcome_pure.mpr (hR s)

theorem throw (hR : ∀ s, R s s) (e : ε) : Leads R (throw e : Abrupt ε σ α) :=
  fun s => outcome_throw.mpr (hR s)

theorem get (hR : ∀ s, R s s) : Leads R (get : Abrupt ε σ σ) := fun s => outcome_get.mpr (hR s)

theorem modify {f : σ → σ} (hf : ∀ s, R s (f s)) : Leads R (modify f : Abrupt ε σ PUnit) :=
  fun s => outcome_modify.mpr (hf s)

theorem bind {f : α → Abrupt ε σ β} (h : Leads R m) (hf : ∀ a, Leads R (f a))
    (hR : ∀ {s t u}, R s t → R t u → R s u) : Leads R (m >>= f) :=
  fun s => outcome_bind.mpr ((h s).mono
    (fun a t ht => (hf a t).mono (fun _ _ => hR ht) fun _ _ => hR ht) fun _ _ => id)

end Leads

/-! ### Loops that go on -/

/-- Run the body for each element; if it breaks off, only that round is over. -/
def rounds (body : α → Abrupt ε σ PUnit) (l : List α) (s : σ) : σ :=
  l.foldl (fun s x => (body x s).2) s

/-- An invariant of the elements done so far and the state, which every round keeps
however it ends. -/
theorem rounds_invariant {body : α → Abrupt ε σ PUnit} (I : List α → σ → Prop) (h : I [] s)
    (hround : ∀ done x t, I done t →
      Outcome (body x) t (fun _ t' => I (done ++ [x]) t') (fun _ t' => I (done ++ [x]) t'))
    (l : List α) : I l (rounds body l s) := by
  induction l using List.reverseRecOn with
  | nil => exact h
  | append_singleton l x ih =>
      have hx := hround l x _ ih
      rw [rounds, List.foldl_append]
      show I (l ++ [x]) (body x (rounds body l s)).2
      rcases hrun : body x (rounds body l s) with ⟨_ | a, t⟩
      · exact (outcome_of_error hrun).mp hx
      · exact (outcome_of_ok hrun).mp hx

/-- A loop in which the round for `x` adds `d x` to `f`, however it ends. -/
theorem rounds_sum {N : Type} [AddCommMonoid N] {body : α → Abrupt ε σ PUnit} (f : σ → N)
    (d : α → N) (hround : ∀ x t, Outcome (body x) t (fun _ t' => f t' = f t + d x)
      fun _ t' => f t' = f t + d x)
    (l : List α) (s : σ) : f (rounds body l s) = f s + (l.map d).sum := by
  refine rounds_invariant (fun done t => f t = f s + (done.map d).sum) (by simp) ?_ l
  intro done x t ht
  have hsum : ∀ t', f t' = f t + d x → f t' = f s + ((done ++ [x]).map d).sum := by
    intro t' ht'
    rw [ht', ht, List.map_append, List.sum_append, List.map_singleton, List.sum_singleton, add_assoc]
  exact (hround x t).mono (fun _ => hsum) (fun _ => hsum)

end Abrupt

end Codelib
