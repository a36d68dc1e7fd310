import Mathlib.Data.List.Basic
import Mathlib.Tactic.Common

/-!
# Codelib.Elisp.RemoveKeywordParams

`remove-keyword-params` of `elisp/learn_elisp.el`, and **what it removes**
(`removeKeywordParams_spec`).

The elements are of any type; `keywordp` tells the keywords. A keyword takes the next element
with it, whatever that is, and at the end of the list it is removed alone.
-/

namespace Codelib.Elisp

variable {α : Type} (keywordp : α → Bool)

def removeKeywordParams : List α → List α
  | [] => []
  | head :: tail =>
    -- `(cdr tail)` of the empty list is the empty list
    if keywordp head then removeKeywordParams tail.tail
    else head :: removeKeywordParams tail
termination_by seq => seq.length
decreasing_by
  · rw [List.length_cons, List.length_tail]
    exact Nat.lt_succ_of_le (Nat.sub_le _ 1)
  · exact Nat.lt_succ_self _

/-- The second list is the first one with keywords and their values inserted. -/
inductive WithParams : List α → List α → Prop
  | nil : WithParams [] []
  | element {path seq : List α} {x : α} (hx : ¬ keywordp x) :
      WithParams path seq → WithParams (x :: path) (x :: seq)
  | param {path seq : List α} {key : α} (hkey : keywordp key) (value : α) :
      WithParams path seq → WithParams path (key :: value :: seq)

variable {keywordp} {path seq : List α}

theorem removeKeywordParams_param {key : α} (hkey : keywordp key) (value : α) (seq : List α) :
    removeKeywordParams keywordp (key :: value :: seq) = removeKeywordParams keywordp seq := by
  rw [removeKeywordParams, if_pos hkey, List.tail_cons]

theorem removeKeywordParams_element {x : α} (hx : ¬ keywordp x) (seq : List α) :
    removeKeywordParams keywordp (x :: seq) = x :: removeKeywordParams keywordp seq := by
  rw [removeKeywordParams, if_neg hx]

theorem WithParams.removeKeywordParams_eq (h : WithParams keywordp path seq) :
    removeKeywordParams keywordp seq = path := by
  induction h with
  | nil => rw [removeKeywordParams]
  | element hx _ ih => rw [removeKeywordParams_element hx, ih]
  | param hkey value _ ih => rw [removeKeywordParams_param hkey, ih]

theorem removeKeywordParams_sublist (seq : List α) :
    (removeKeywordParams keywordp seq).Sublist seq := by
  fun_induction removeKeywordParams keywordp seq with
  | case1 => exact .refl []
  | case2 head tail hhead ih => exact (ih.trans (List.tail_sublist tail)).cons head
  | case3 head tail hhead ih => exact ih.cons_cons head

theorem not_keywordp_of_mem {x : α} (h : x ∈ removeKeywordParams keywordp seq) : ¬ keywordp x := by
  fun_induction removeKeywordParams keywordp seq with
  | case1 => exact absurd h List.not_mem_nil
  | case2 head tail hhead ih => exact ih h
  | case3 head tail hhead ih =>
      rcases List.mem_cons.mp h with rfl | h
      · exact hhead
      · exact ih h

/-- Without keywords there is nothing to remove. -/
theorem withParams_self (h : ∀ x ∈ seq, ¬ keywordp x) : WithParams keywordp seq seq := by
  induction seq with
  | nil => exact .nil
  | cons x seq ih =>
      exact .element (h x List.mem_cons_self) (ih fun y hy => h y (List.mem_cons_of_mem x hy))

/-- Any list is one with parameters, but for a keyword without a value. -/
theorem withParams_or_dangling (seq : List α) :
    WithParams keywordp (removeKeywordParams keywordp seq) seq ∨
      ∃ front key, seq = front ++ [key] ∧ keywordp key ∧
        WithParams keywordp (removeKeywordParams keywordp seq) front := by
  fun_induction removeKeywordParams keywordp seq with
  | case1 => exact .inl .nil
  | case2 head tail hhead ih =>
      rcases tail with _ | ⟨value, tail⟩
      · exact .inr ⟨[], head, rfl, hhead, by rw [List.tail_nil, removeKeywordParams]; exact .nil⟩
      · rcases ih with ih | ⟨front, key, rfl, hkey, ih⟩
        · exact .inl (.param hhead value ih)
        · exact .inr ⟨head :: value :: front, key, rfl, hkey, .param hhead value ih⟩
  | case3 head tail hhead ih =>
      rcases ih with ih | ⟨front, key, rfl, hkey, ih⟩
      · exact .inl (.element hhead ih)
      · exact .inr ⟨head :: front, key, rfl, hkey, .element hhead ih⟩

/-- **What is removed**: of a list with parameters, the parameters. Of any list, what is left is in
the order of the list, has no keyword, and stays as it is. -/
theorem removeKeywordParams_spec (keywordp : α → Bool) :
    (∀ path seq, WithParams keywordp path seq → removeKeywordParams keywordp seq = path) ∧
    ∀ seq, (removeKeywordParams keywordp seq).Sublist seq ∧
      (∀ x ∈ removeKeywordParams keywordp seq, ¬ keywordp x) ∧
      removeKeywordParams keywordp (removeKeywordParams keywordp seq) =
        removeKeywordParams keywordp seq := by
  refine ⟨fun _ _ h => h.removeKeywordParams_eq, fun seq => ?_⟩
  have hnone : ∀ x ∈ removeKeywordParams keywordp seq, ¬ keywordp x := fun _ => not_keywordp_of_mem
  exact ⟨removeKeywordParams_sublist seq, hnone, (withParams_self hnone).removeKeywordParams_eq⟩

/-- The value of `:user` is a keyword itself. -/
theorem removeKeywordParams_spec_tmp :
    removeKeywordParams (fun x => x = ":user" ∨ x = ":server")
      ["/tmp", ":user", ":server", "test-dir"] = ["/tmp", "test-dir"] :=
  (removeKeywordParams_spec _).1 _ _
    (.element (by decide) (.param (by decide) _ (.element (by decide) .nil)))

end Codelib.Elisp
