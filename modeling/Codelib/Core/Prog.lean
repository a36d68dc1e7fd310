import Mathlib.Order.Basic
import Mathlib.Tactic.Common

/-!
# Codelib.Core.Prog

**Fuel-bounded imperative programs** and the rules to reason about them.

A C or Go function with loops is embedded as a `Prog`: a state transformer that
either produces a value, stops with a fault of its own (an index out of range, a
failed assertion) or runs out of the fuel its loops were given. `loop` is the
one looping construct: its body says, on every round, whether to go round again
(`.inl`) or to leave with a result (`.inr`); `for (;;)` with `break`, `while` and
`do … while` are all instances of it.

Three judgements cover the kinds of statement the development makes:

* `Ends p s Q` — `p` started in `s` produces a value, and `Q` holds of it
  (**total** correctness; the loop rule asks for a measure);
* `Safe p s Q` — `p` never faults, and *if* it produces a value then `Q` holds
  of it (**partial** correctness; running out of fuel is allowed);
* `Returns p s Q` — *if* `p` produces a value then `Q` holds of it, and nothing else
  (faults are allowed, too).

Nothing here names a program of the repository.
-/

namespace Codelib

universe u

variable {σ ε α β ρ : Type u}

/-- Why a program stopped without a result: a fault of its own, or a loop that
used up its fuel. -/
inductive Stop (ε : Type u)
  | fault (e : ε)
  | fuel
  deriving Repr, DecidableEq

/-- A program over the state `σ` with faults `ε` and results `α`. -/
abbrev Prog (σ ε α : Type u) := StateT σ (Except (Stop ε)) α

/-- Stop with the fault `e`. -/
def fail (e : ε) : Prog σ ε α := fun _ => .error (.fault e)

/-- Run `body` round after round, for at most `fuel` rounds, until it leaves with
a result. -/
def loop (body : β → Prog σ ε (β ⊕ ρ)) : Nat → β → Prog σ ε ρ
  | 0, _ => fun _ => .error .fuel
  | fuel + 1, b => do
    match ← body b with
    | .inl b' => loop body fuel b'
    | .inr r => pure r

/-! ### Total correctness -/

/-- `p` started in `s` produces a value, and `Q` holds of the value and the final
state. -/
def Ends (p : Prog σ ε α) (s : σ) (Q : α → σ → Prop) : Prop :=
  ∃ a s', p s = .ok (a, s') ∧ Q a s'

namespace Ends

variable {p : Prog σ ε α} {s : σ} {Q R : α → σ → Prop}

theorem pure {a : α} (h : Q a s) : Ends (pure a : Prog σ ε α) s Q :=
  ⟨a, s, rfl, h⟩

theorem mono (h : Ends p s Q) (hQR : ∀ a s', Q a s' → R a s') : Ends p s R := by
  obtain ⟨a, s', hp, hq⟩ := h
  exact ⟨a, s', hp, hQR a s' hq⟩

theorem bind {f : α → Prog σ ε ρ} {R : ρ → σ → Prop}
    (h : Ends p s fun a s' => Ends (f a) s' R) : Ends (p >>= f) s R := by
  obtain ⟨a, s', hp, b, s'', hf, hr⟩ := h
  refine ⟨b, s'', ?_, hr⟩
  show (p s >>= fun x => f x.1 x.2) = _
  rw [hp]
  exact hf

theorem of_bind {f : α → Prog σ ε ρ} {R : ρ → σ → Prop} (h : Ends (p >>= f) s R) :
    Ends p s fun a s' => Ends (f a) s' R := by
  obtain ⟨b, s'', hpf, hr⟩ := h
  change (p s >>= fun x => f x.1 x.2) = _ at hpf
  cases hp : p s with
  | error e => rw [hp] at hpf; exact absurd hpf nofun
  | ok x =>
      rw [hp] at hpf
      exact ⟨x.1, x.2, hp, b, s'', hpf, hr⟩

/-- There is one result only. -/
theorem and (hq : Ends p s Q) (hr : Ends p s R) : Ends p s fun a s' => Q a s' ∧ R a s' := by
  obtain ⟨a, s', hp, hq⟩ := hq
  obtain ⟨b, s'', hp', hr⟩ := hr
  obtain ⟨rfl, rfl⟩ : a = b ∧ s' = s'' := by
    rw [hp] at hp'
    simpa using hp'
  exact ⟨a, s', hp, hq, hr⟩

theorem get {Q : σ → σ → Prop} (h : Q s s) : Ends (get : Prog σ ε σ) s Q :=
  ⟨s, s, rfl, h⟩

theorem set {s' : σ} {Q : PUnit → σ → Prop} (h : Q ⟨⟩ s') :
    Ends (MonadStateOf.set s' : Prog σ ε PUnit) s Q :=
  ⟨⟨⟩, s', rfl, h⟩

theorem modify {f : σ → σ} {Q : PUnit → σ → Prop} (h : Q ⟨⟩ (f s)) :
    Ends (modify f : Prog σ ε PUnit) s Q :=
  ⟨⟨⟩, f s, rfl, h⟩

/-- The loop rule. Every round either goes round again with the invariant kept and
the measure smaller, or leaves with the postcondition. -/
theorem loop {body : β → Prog σ ε (β ⊕ ρ)} {Q : ρ → σ → Prop}
    (inv : β → σ → Prop) (measure : β → σ → Nat)
    (round : ∀ b s, inv b s → Ends (body b) s fun r s' =>
      r.elim (fun b' => inv b' s' ∧ measure b' s' < measure b s) (fun r => Q r s')) :
    ∀ {fuel : Nat} {b : β} {s : σ}, inv b s → measure b s < fuel →
      Ends (Codelib.loop body fuel b) s Q := by
  intro fuel
  induction fuel with
  | zero => intro b s _ hm; exact absurd hm (Nat.not_lt_zero _)
  | succ fuel ih =>
      intro b s hinv hm
      refine Ends.bind ((round b s hinv).mono ?_)
      intro result s' h
      rcases result with b' | r
      · exact ih h.1 (Nat.lt_of_lt_of_le h.2 (Nat.le_of_lt_succ hm))
      · exact Ends.pure h

end Ends

/-! ### Partial correctness -/

/-- `p` started in `s` does not fault, and `Q` holds of the value and the final
state whenever there are any. -/
def Safe (p : Prog σ ε α) (s : σ) (Q : α → σ → Prop) : Prop :=
  match p s with
  | .ok (a, s') => Q a s'
  | .error (.fault _) => False
  | .error .fuel => True

namespace Safe

variable {p : Prog σ ε α} {s : σ} {Q R : α → σ → Prop}

theorem pure {a : α} (h : Q a s) : Safe (pure a : Prog σ ε α) s Q := h

theorem mono (h : Safe p s Q) (hQR : ∀ a s', Q a s' → R a s') : Safe p s R := by
  unfold Safe at h ⊢
  cases hp : p s with
  | ok x => rw [hp] at h; exact hQR _ _ h
  | error e => rw [hp] at h; cases e <;> exact h

theorem bind {f : α → Prog σ ε ρ} {R : ρ → σ → Prop}
    (h : Safe p s fun a s' => Safe (f a) s' R) : Safe (p >>= f) s R := by
  unfold Safe at h ⊢
  show match (p s >>= fun x => f x.1 x.2) with
    | .ok (a, s') => R a s'
    | .error (.fault _) => False
    | .error .fuel => True
  cases hp : p s with
  | ok x => rw [hp] at h; exact h
  | error e => rw [hp] at h; cases e <;> exact h

theorem get {Q : σ → σ → Prop} (h : Q s s) : Safe (get : Prog σ ε σ) s Q := h

theorem modify {f : σ → σ} {Q : PUnit → σ → Prop} (h : Q ⟨⟩ (f s)) :
    Safe (modify f : Prog σ ε PUnit) s Q := h

/-- The loop rule: no measure, since a loop that never leaves is safe. -/
theorem loop {body : β → Prog σ ε (β ⊕ ρ)} {Q : ρ → σ → Prop}
    (inv : β → σ → Prop)
    (round : ∀ b s, inv b s → Safe (body b) s fun r s' =>
      r.elim (fun b' => inv b' s') (fun r => Q r s')) :
    ∀ {fuel : Nat} {b : β} {s : σ}, inv b s → Safe (Codelib.loop body fuel b) s Q := by
  intro fuel
  induction fuel with
  | zero => intro b s _; exact trivial
  | succ fuel ih =>
      intro b s hinv
      refine Safe.bind ((round b s hinv).mono ?_)
      intro result s' h
      rcases result with b' | r
      · exact ih h
      · exact Safe.pure h

theorem of_eq_ok {a : α} {s' : σ} (hp : p s = .ok (a, s')) (hq : Q a s') : Safe p s Q := by
  unfold Safe
  rwa [hp]

/-- A result of a safe program meets the postcondition. -/
theorem of_ok (h : Safe p s Q) {a : α} {s' : σ} (hp : p s = .ok (a, s')) : Q a s' := by
  unfold Safe at h
  rwa [hp] at h

theorem ne_fault (h : Safe p s Q) (e : ε) : p s ≠ .error (.fault e) := by
  intro hp
  unfold Safe at h
  rwa [hp] at h

end Safe

/-! ### Values only -/

/-- `Q` holds of the value and the final state of `p` started in `s`, whenever there
are any. -/
def Returns (p : Prog σ ε α) (s : σ) (Q : α → σ → Prop) : Prop :=
  ∀ a s', p s = .ok (a, s') → Q a s'

namespace Returns

variable {p : Prog σ ε α} {s : σ} {Q R : α → σ → Prop}

theorem pure {a : α} (h : Q a s) : Returns (pure a : Prog σ ε α) s Q := by
  intro b s' hb
  obtain ⟨rfl, rfl⟩ := Prod.mk.inj (Except.ok.inj hb)
  exact h

theorem fail {e : ε} : Returns (fail e : Prog σ ε α) s Q :=
  fun _ _ h => absurd h (by simp [Codelib.fail])

theorem mono (h : Returns p s Q) (hQR : ∀ a s', Q a s' → R a s') : Returns p s R :=
  fun a s' hp => hQR a s' (h a s' hp)

theorem bind {f : α → Prog σ ε ρ} {R : ρ → σ → Prop}
    (h : Returns p s fun a s' => Returns (f a) s' R) : Returns (p >>= f) s R := by
  intro b s'' hpf
  obtain ⟨a, s', hp, c, t, hf, hc⟩ := Ends.of_bind (⟨b, s'', hpf, rfl, rfl⟩ :
    Ends (p >>= f) s fun c t => c = b ∧ t = s'')
  obtain ⟨rfl, rfl⟩ := hc
  exact h a s' hp _ _ hf

theorem get {Q : σ → σ → Prop} (h : Q s s) : Returns (get : Prog σ ε σ) s Q := Returns.pure h

theorem modify {f : σ → σ} {Q : PUnit → σ → Prop} (h : Q ⟨⟩ (f s)) :
    Returns (modify f : Prog σ ε PUnit) s Q := by
  intro b s' hb
  obtain ⟨rfl, rfl⟩ := Prod.mk.inj (Except.ok.inj hb)
  exact h

end Returns

/-- A value that there is meets what is said of every value. -/
theorem Ends.returns {p : Prog σ ε α} {s : σ} {Q R : α → σ → Prop} (h : Ends p s Q)
    (hr : Returns p s R) : ∃ a s', Q a s' ∧ R a s' := by
  obtain ⟨a, s', hp, hq⟩ := h
  exact ⟨a, s', hq, hr a s' hp⟩

/-! ### Fuel -/

theorem loop_succ (body : β → Prog σ ε (β ⊕ ρ)) (fuel : Nat) (b : β) (s : σ) :
    loop body (fuel + 1) b s = (body b s).bind fun x =>
      match x.1 with
      | .inl b' => loop body fuel b' x.2
      | .inr r => .ok (r, x.2) := by
  show (body b s >>= fun x => _) = _
  cases h : body b s with
  | error e => rfl
  | ok x =>
      obtain ⟨b' | r, s'⟩ := x <;> rfl

/-- More fuel does not change a result. -/
theorem loop_mono {body : β → Prog σ ε (β ⊕ ρ)} {r : ρ × σ} :
    ∀ {fuel : Nat} {b : β} {s : σ}, loop body fuel b s = .ok r →
      ∀ {fuel' : Nat}, fuel ≤ fuel' → loop body fuel' b s = .ok r := by
  intro fuel
  induction fuel with
  | zero => intro b s h; exact absurd h (by simp [loop])
  | succ fuel ih =>
      intro b s h fuel' hle
      obtain ⟨fuel', rfl⟩ : ∃ n, fuel' = n + 1 := ⟨fuel' - 1, by omega⟩
      rw [loop_succ] at h ⊢
      cases hb : body b s with
      | error e => rw [hb] at h; exact absurd h (by simp [Except.bind])
      | ok x =>
          obtain ⟨b' | r', s'⟩ := x
          · rw [hb] at h
            exact ih h (by omega)
          · rw [hb] at h
            exact h

/-- A loop whose body always goes round again uses up any fuel. -/
theorem loop_diverges {body : β → Prog σ ε (β ⊕ ρ)} (inv : β → σ → Prop)
    (round : ∀ b s, inv b s → ∃ b' s', body b s = .ok (.inl b', s') ∧ inv b' s') :
    ∀ (fuel : Nat) {b : β} {s : σ}, inv b s → loop body fuel b s = .error .fuel := by
  intro fuel
  induction fuel with
  | zero => intro b s _; rfl
  | succ fuel ih =>
      intro b s hinv
      obtain ⟨b', s', hb, hinv'⟩ := round b s hinv
      rw [loop_succ, hb]
      exact ih hinv'

end Codelib
