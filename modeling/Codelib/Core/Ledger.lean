import Mathlib.Data.List.Basic
import Mathlib.Data.List.Induction
import Mathlib.Tactic.Common

/-!
# Codelib.Core.Ledger

**What is taken and given back.** A ledger is the list of what a program obtained and
what it released, in the order in which it did. Some things are used by others:
`needs j i` says that `i` must not be given back while `j` is held.

* `held t` — what has been taken and not been given back;
* `Keeps needs t l` — only what was held was given back, each in its turn, and `l` is
  what is left;
* `Balanced needs t` — nothing is left.

Nothing here names a program of the repository.
-/

namespace Codelib

universe u

namespace Ledger

/-- An entry of a ledger. -/
inductive Entry (ι : Type u)
  | take (i : ι)
  | give (i : ι)
  deriving Repr, DecidableEq

/-- An entry of a longer ledger is its last one or an entry of the shorter one. -/
theorem append_singleton_eq {ι : Type u} {t pre post : List (Entry ι)} {e e' : Entry ι}
    (h : t ++ [e] = pre ++ e' :: post) : (t = pre ∧ e = e') ∨ ∃ post', t = pre ++ e' :: post' := by
  rcases List.eq_nil_or_concat post with rfl | ⟨post', x, rfl⟩
  · obtain ⟨ht, he⟩ := List.append_inj' h rfl
    exact .inl ⟨ht, List.head_eq_of_cons_eq he⟩
  · rw [List.concat_eq_append, ← List.cons_append, ← List.append_assoc] at h
    exact .inr ⟨post', (List.append_inj' h rfl).1⟩

variable {ι : Type u} [DecidableEq ι] {needs : ι → ι → Prop} {t : List (Entry ι)} {l : List ι}
  {i : ι}

/-- What is held, the last thing taken first. -/
def held (t : List (Entry ι)) : List ι :=
  t.foldl (fun l e =>
    match e with
    | .take i => i :: l
    | .give i => l.erase i) []

theorem held_take : held (t ++ [.take i]) = i :: held t := List.foldl_append

theorem held_give : held (t ++ [.give i]) = (held t).erase i := List.foldl_append

/-- What is given back is held, nothing that is held needs it, and `l` is left. -/
structure Keeps (needs : ι → ι → Prop) (t : List (Entry ι)) (l : List ι) : Prop where
  owned : ∀ pre i post, t = pre ++ .give i :: post → i ∈ held pre
  order : ∀ pre i post, t = pre ++ .give i :: post → ∀ j ∈ held pre, ¬ needs j i
  held : held t = l

/-- Everything was given back, once and in order. -/
def Balanced (needs : ι → ι → Prop) (t : List (Entry ι)) : Prop := Keeps needs t []

namespace Keeps

theorem nil : Keeps needs ([] : List (Entry ι)) [] where
  owned pre _ _ h := absurd h.symm (by simp)
  order pre _ _ h := absurd h.symm (by simp)
  held := rfl

theorem take (h : Keeps needs t l) : Keeps needs (t ++ [.take i]) (i :: l) where
  owned pre j post heq := by
    rcases append_singleton_eq heq with ⟨-, hne⟩ | ⟨post', heq⟩
    · exact absurd hne nofun
    · exact h.owned pre j post' heq
  order pre j post heq := by
    rcases append_singleton_eq heq with ⟨-, hne⟩ | ⟨post', heq⟩
    · exact absurd hne nofun
    · exact h.order pre j post' heq
  held := by rw [held_take, h.held]

theorem give (h : Keeps needs t l) (hi : i ∈ l) (hfree : ∀ j ∈ l, ¬ needs j i) :
    Keeps needs (t ++ [.give i]) (l.erase i) where
  owned pre j post heq := by
    rcases append_singleton_eq heq with ⟨rfl, hij⟩ | ⟨post', heq⟩
    · obtain rfl : i = j := Entry.give.inj hij
      rwa [h.held]
    · exact h.owned pre j post' heq
  order pre j post heq := by
    rcases append_singleton_eq heq with ⟨rfl, hij⟩ | ⟨post', heq⟩
    · obtain rfl : i = j := Entry.give.inj hij
      rwa [h.held]
    · exact h.order pre j post' heq
  held := by rw [held_give, h.held]

theorem of_concat {e : Entry ι} (h : Keeps needs (t ++ [e]) l) : Keeps needs t (Ledger.held t) where
  owned pre j post heq := h.owned pre j (post ++ [e]) (by rw [heq]; simp)
  order pre j post heq := h.order pre j (post ++ [e]) (by rw [heq]; simp)
  held := rfl

/-- What was taken was given back or is left. -/
theorem count_take (h : Keeps needs t l) (i : ι) :
    t.count (.take i) = t.count (.give i) + l.count i := by
  induction t using List.reverseRecOn generalizing l with
  | nil =>
      obtain rfl : [] = l := h.held
      rfl
  | append_singleton t e ih =>
      have hold := ih h.of_concat
      rw [List.count_append, List.count_append, hold, ← h.held]
      cases e with
      | take j =>
          rw [held_take, List.count_singleton, List.count_singleton, List.count_cons]
          by_cases hij : j = i
          · simp [hij, Nat.add_assoc]
          · simp [hij]
      | give j =>
          have hj : j ∈ Ledger.held t := h.owned t j [] rfl
          rw [held_give, List.count_erase, List.count_singleton, List.count_singleton]
          by_cases hij : j = i
          · obtain rfl := hij
            have hpos := List.count_pos_iff.mpr hj
            simp
            omega
          · simp [hij]

/-- A ledger that leaves something is not balanced. -/
theorem not_balanced (h : Keeps needs t l) (hl : l ≠ []) : ¬ Balanced needs t :=
  fun hb => hl (h.held.symm.trans hb.held)

end Keeps

end Ledger

end Codelib
