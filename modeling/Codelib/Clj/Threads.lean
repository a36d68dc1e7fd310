import Codelib.Clj.Stable

/-!
# Codelib.Clj.Threads

**What is left of `qsort` with threads** (`threads_agree_iff`).

The two halves are sorted, and then given to threads: what `concat` gets is the `nil`
of `.start`. So of a vector nothing but its last element is returned
(`threads_returns`), if Java takes the halves at all. And the second half is empty
anyway: by the time it is computed, the last call below the first half has left
`remaining` empty.
-/

namespace Codelib.Clj

variable {α : Type} {isRunnable : Value α → Bool} {le gt : α → α → Bool}

theorem println_returns {v : List α} {s : Global α} {Q : Value α → Global α → Prop}
    (h : Q .nil { s with printed := s.printed ++ [v] }) : Returns (println v) s Q :=
  Returns.bind (Returns.modify (Returns.pure h))

theorem startThread_returns {target : Value α} {s : Global α} {Q : Value α → Global α → Prop}
    (h : Q .nil s) : Returns (startThread isRunnable target) s Q := by
  unfold startThread
  split
  · exact Returns.pure h
  · exact Returns.fail

/-- **Whatever is returned** is the last element alone, and `remaining` is empty. -/
theorem threads_returns (fuel : Nat) (array : List α) (s : Global α) :
    Returns (qsortThreads isRunnable le gt fuel array) s fun r s' =>
      s'.remaining = [] ∧ r.items = array.getLast?.toList := by
  induction fuel generalizing array s with
  | zero => exact fun _ _ h => absurd h (by simp [qsortThreads])
  | succ fuel ih =>
      unfold qsortThreads
      refine Returns.bind (Returns.modify (Returns.bind (Returns.get (Returns.bind ?_))))
      refine println_returns ?_
      split
      case isTrue hnil =>
        exact Returns.pure ⟨rfl, by rw [hnil]; rfl⟩
      case isFalse hne =>
        refine Returns.bind (Returns.get (Returns.bind ((ih _ _).mono fun first s₁ h₁ => ?_)))
        refine Returns.bind (startThread_returns (Returns.bind (println_returns ?_)))
        refine Returns.bind (Returns.get (Returns.bind ((ih _ _).mono fun second s₂ h₂ => ?_)))
        refine Returns.bind (startThread_returns (Returns.pure ⟨h₂.1, ?_⟩))
        rw [List.getLast?_eq_some_getLast hne]
        rfl

theorem println_ends {v : List α} {s : Global α} {Q : Value α → Global α → Prop}
    (h : Q .nil { s with printed := s.printed ++ [v] }) : Ends (println v) s Q :=
  Ends.bind (Ends.modify (Ends.pure h))

theorem empty_ends {fuel : Nat} {half : List α} (hhalf : half = []) (s : Global α) :
    Ends (qsortThreads isRunnable le gt (fuel + 1) half) s
      fun r s' => r = .vector [] ∧ s'.remaining = [] := by
  subst hhalf
  exact ⟨.vector [], _, rfl, rfl, rfl⟩

theorem startThread_ends (hvector : isRunnable (.vector []) = true) {s : Global α}
    {Q : Value α → Global α → Prop} (h : Q .nil s) :
    Ends (startThread isRunnable (.vector [])) s Q := by
  unfold startThread
  rw [if_pos hvector]
  exact Ends.pure h

/-- A vector of at most one number is returned as it is: both halves are empty vectors. -/
theorem threads_ends (hvector : isRunnable (.vector []) = true) {array : List α}
    (hlen : array.length ≤ 1) (s : Global α) :
    Ends (qsortThreads isRunnable le gt 2 array) s fun r _ => r.items = array := by
  rcases array with _ | ⟨x, _ | ⟨y, array⟩⟩
  · exact ⟨.vector [], _, rfl, rfl⟩
  · have hpart (cmp : α → α → Bool) : part ([] : List α) x cmp = [] := by
      rw [part_eq_filter]
      rfl
    unfold qsortThreads
    refine Ends.bind (Ends.modify (Ends.bind (Ends.get (Ends.bind (println_ends ?_)))))
    rw [dif_neg (by simp)]
    refine Ends.bind (Ends.get (Ends.bind ((empty_ends (hpart le) _).mono ?_)))
    intro _ s₁ h
    obtain ⟨rfl, hs₁⟩ := h
    refine Ends.bind (startThread_ends hvector (Ends.bind (println_ends ?_)))
    refine Ends.bind (Ends.get (Ends.bind ((empty_ends ?_ _).mono ?_)))
    · rw [hs₁]
      exact hpart gt
    intro _ s₂ h
    obtain ⟨rfl, -⟩ := h
    exact Ends.bind (startThread_ends hvector (Ends.pure rfl))
  · simp at hlen

/-- A single number at most is returned, and the naive definition returns them all. -/
theorem length_le_of_agrees (hgt : ∀ a b, gt a b = !le a b) {fuel : Nat} {array : List α}
    {s : Global α} (h : Ends (qsortThreads isRunnable le gt fuel array) s
      fun r _ => r.items = qsort le gt array) :
    array.length ≤ 1 := by
  obtain ⟨r, s', hr, -, hitems⟩ := h.returns (threads_returns fuel array s)
  rw [← (qsort_perm hgt array).length_eq, ← hr, hitems]
  exact Option.length_toList_le

/-- **When the two definitions agree**: on vectors of at most one number. -/
theorem threads_agree_iff (hgt : ∀ a b, gt a b = !le a b)
    (hvector : isRunnable (.vector []) = true) (s : Global α) (array : List α) :
    (∃ fuel, Ends (qsortThreads isRunnable le gt fuel array) s
      fun r _ => r.items = qsort le gt array) ↔ array.length ≤ 1 := by
  refine ⟨fun ⟨fuel, h⟩ => length_le_of_agrees hgt h, fun hlen => ⟨2, ?_⟩⟩
  refine (threads_ends hvector hlen s).mono fun r _ hr => ?_
  rw [hr]
  rcases array with _ | ⟨x, _ | ⟨y, array⟩⟩
  · rw [qsort, dif_pos rfl]
  · exact (List.perm_singleton.mp (qsort_perm hgt [x])).symm
  · simp at hlen

/-- A vector is a function of its indices, and so a `Runnable`; a sequence is not. -/
def vectorsRun : Value α → Bool
  | .vector _ => true
  | _ => false

theorem threads_agree_iff_one : ∃ fuel,
    Ends (qsortThreads vectorsRun (fun a b => decide (a ≤ b)) (fun a b => decide (a > b)) fuel [7])
      ⟨[], []⟩ fun r _ =>
        r.items = qsort (fun a b : Nat => decide (a ≤ b)) (fun a b => decide (a > b)) [7] := by
  have hgt (a b : Nat) : decide (a > b) = !decide (a ≤ b) := by
    rw [← decide_not, decide_eq_decide, Nat.not_le]
  exact (threads_agree_iff hgt rfl _ _).mpr (by decide)

/-- Of the vector 2, 1 only the 1 is returned. -/
theorem threads_disagree : ¬ ∀ array : List Nat, ∃ fuel,
    Ends (qsortThreads vectorsRun (fun a b => decide (a ≤ b)) (fun a b => decide (a > b)) fuel
      array) ⟨[], []⟩ fun r _ =>
        r.items = qsort (fun a b => decide (a ≤ b)) (fun a b => decide (a > b)) array := by
  intro hall
  obtain ⟨fuel, h⟩ := hall [2, 1]
  have hgt (a b : Nat) : decide (a > b) = !decide (a ≤ b) := by
    rw [← decide_not, decide_eq_decide, Nat.not_le]
  exact absurd (length_le_of_agrees hgt h) (by decide)

end Codelib.Clj
