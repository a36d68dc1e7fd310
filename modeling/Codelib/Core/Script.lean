import Codelib.Core.Abrupt

/-!
# Codelib.Core.Script

**Programs that follow a script**: they make the calls of a list, in order, up to the first one that
does not pass.

A state has a log of the calls made and their results. What a program adds to it is the `Whole`
script or a `Cut` one, and which of the two can be told from what the program returns (`Follows`).

Nothing here names a program of the repository.
-/

namespace Codelib

variable {C R ε σ α β : Type}

/-- Every call was made, and passed. -/
structure Whole (pass : C × R → Prop) (script : List C) (t : List (C × R)) : Prop where
  calls : t.map Prod.fst = script
  pass : ∀ x ∈ t, pass x

/-- The script was left at the first call that did not pass. -/
def Cut (pass : C × R → Prop) (script : List C) (t : List (C × R)) : Prop :=
  ∃ u x, t = u ++ [x] ∧ t.map Prod.fst <+: script ∧ (∀ y ∈ u, pass y) ∧ ¬ pass x

variable {pass : C × R → Prop} {p q : List C} {t u : List (C × R)}

theorem Whole.nil : Whole pass [] [] := ⟨rfl, nofun⟩

theorem Whole.single {c : C} {r : R} (h : pass (c, r)) : Whole pass [c] [(c, r)] :=
  ⟨rfl, fun _ hx => List.mem_singleton.mp hx ▸ h⟩

theorem Whole.append (ht : Whole pass p t) (hu : Whole pass q u) : Whole pass (p ++ q) (t ++ u) where
  calls := by rw [List.map_append, ht.calls, hu.calls]
  pass x hx := (List.mem_append.mp hx).elim (ht.pass x) (hu.pass x)

theorem Cut.single {c : C} {r : R} (h : ¬ pass (c, r)) : Cut pass [c] [(c, r)] :=
  ⟨[], (c, r), rfl, List.prefix_refl _, nofun, h⟩

/-- The script may have gone on. -/
theorem Cut.append_right (ht : Cut pass p t) : Cut pass (p ++ q) t := by
  obtain ⟨u, x, heq, hp, hpass, hnot⟩ := ht
  exact ⟨u, x, heq, hp.trans (List.prefix_append p q), hpass, hnot⟩

theorem Whole.append_cut (ht : Whole pass p t) (hu : Cut pass q u) : Cut pass (p ++ q) (t ++ u) := by
  obtain ⟨v, x, rfl, hp, hpass, hnot⟩ := hu
  refine ⟨t ++ v, x, (List.append_assoc _ _ _).symm, ?_, fun y hy => ?_, hnot⟩
  · rw [List.map_append, ht.calls]
    exact (List.prefix_append_right_inj p).mpr hp
  · exact (List.mem_append.mp hy).elim (ht.pass y) (hpass y)

/-- No more than the script is done. -/
theorem Cut.isPrefix (h : Cut pass p t) : t.map Prod.fst <+: p := by
  obtain ⟨-, -, -, hp, -, -⟩ := h
  exact hp

/-- All calls but the last have passed. -/
theorem Cut.pass_of_append {x : C × R} (h : Cut pass p (t ++ [x])) : ∀ y ∈ t, pass y := by
  obtain ⟨v, z, heq, -, hpass, -⟩ := h
  rwa [(List.append_inj' heq rfl).1]

/-- `m` follows the script: it returns something `good` if it is through with it, and something
`bad`, or nothing, if it is not. -/
def Follows (log : σ → List (C × R)) (pass : C × R → Prop) (good bad : α → Prop) (script : List C)
    (m : Abrupt ε σ α) : Prop :=
  ∀ s, Abrupt.Outcome m s
    (fun a s' => ∃ t, log s' = log s ++ t ∧ (good a ∧ Whole pass script t ∨ bad a ∧ Cut pass script t))
    fun _ s' => ∃ t, log s' = log s ++ t ∧ Cut pass script t

namespace Follows

variable {log : σ → List (C × R)} {good bad : α → Prop} {good' bad' : β → Prop}
  {m : Abrupt ε σ α} {f : α → Abrupt ε σ β}

theorem done {a : α} (h : good a) : Follows log pass good bad [] (pure a : Abrupt ε σ α) :=
  fun _ => Abrupt.outcome_pure.mpr ⟨[], (List.append_nil _).symm, .inl ⟨h, .nil⟩⟩

/-- One call, with its result. -/
theorem single {c : C} (h : ∀ s, Abrupt.Outcome m s
      (fun a s' => ∃ r, log s' = log s ++ [(c, r)] ∧ (good a ∧ pass (c, r) ∨ bad a ∧ ¬ pass (c, r)))
      fun _ s' => ∃ r, log s' = log s ++ [(c, r)] ∧ ¬ pass (c, r)) :
    Follows log pass good bad [c] m := by
  refine fun s => (h s).mono (fun a s' ha => ?_) fun e s' he => ?_
  · obtain ⟨r, hlog, hcase⟩ := ha
    exact ⟨_, hlog, hcase.imp (And.imp_right .single) (And.imp_right .single)⟩
  · obtain ⟨r, hlog, hnot⟩ := he
    exact ⟨_, hlog, .single hnot⟩

/-- One program after the other: something bad ends both. -/
theorem andThen (hm : Follows log pass good bad p m)
    (hgood : ∀ a, good a → Follows log pass good' bad' q (f a))
    (hbad : ∀ a, bad a → ∃ b, f a = pure b ∧ bad' b) :
    Follows log pass good' bad' (p ++ q) (m >>= f) := by
  refine fun s => Abrupt.outcome_bind.mpr ((hm s).mono (fun a s' ha => ?_) fun e s' he => ?_)
  · obtain ⟨t, hlog, ⟨ha, ht⟩ | ⟨ha, ht⟩⟩ := ha
    · refine (hgood a ha s').mono (fun b s'' hb => ?_) fun e s'' he => ?_
      · obtain ⟨u, hlog', hcase⟩ := hb
        refine ⟨t ++ u, ?_, hcase.imp (And.imp_right ht.append) (And.imp_right ht.append_cut)⟩
        rw [hlog', hlog, List.append_assoc]
      · obtain ⟨u, hlog', hu⟩ := he
        refine ⟨t ++ u, ?_, ht.append_cut hu⟩
        rw [hlog', hlog, List.append_assoc]
    · obtain ⟨b, hb, hbad'⟩ := hbad a ha
      rw [hb]
      exact Abrupt.outcome_pure.mpr ⟨t, hlog, .inr ⟨hbad', ht.append_right⟩⟩
  · obtain ⟨t, hlog, ht⟩ := he
    exact ⟨t, hlog, ht.append_right⟩

end Follows

end Codelib
