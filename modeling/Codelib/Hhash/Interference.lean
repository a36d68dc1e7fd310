import Codelib.Hhash.Process

/-!
# Codelib.Hhash.Interference

**Two runs compared.** What one map does since its last `Init` is a run of its own
(`life_run`), whatever happens on other maps in between: the only thing such a map
sees of them is the value of `last` at its own calls. So two runs in which a map gets
the same strings and finds the same values of `last` give it the same handles and the
same table (`runs_agree`).

Nothing keeps `last` the same, though. It is a variable of the package that every map
writes and `Init` does not reset, and the first handle of a fresh table depends on it
already (`handles_interfere`).
-/

namespace Codelib.Hhash

variable {ι : Type} [DecidableEq ι]

/-! ### The life of one map -/

/-- An `AllocString` call of one map, with the value of `last` it found. -/
structure Seen where
  last : Nat
  s : GoString
  h : Nat
  deriving Repr, DecidableEq

/-- The next call of the process, added to `last` and to the calls of the map `m`. -/
def lifeStep (m : ι) (v : Nat × List Seen) : Call ι → Nat × List Seen
  | .init k => (v.1, if k = m then [] else v.2)
  | .allocString k s h => (h, if k = m then v.2 ++ [⟨v.1, s, h⟩] else v.2)

/-- The `AllocString` calls on the map `m` since its most recent `Init`. -/
def life (m : ι) (calls : List (Call ι)) : List Seen :=
  (calls.foldl (lifeStep m) (0, [])).2

/-- A call on a map by itself, which finds `last` set by anybody. -/
def AllocSeen (hm : Handlemap) (c : Seen) (hm' : Handlemap) : Prop :=
  ∃ p, AllocReturns { last := c.last, hm } c.s c.h p ∧ p.hm = hm'

/-- The value of `last` along a run is the handle that was returned last. -/
theorem last_run {calls : List (Call ι)} {w : World ι} (m : ι)
    (h : Run World.Step World.fresh calls w) :
    (calls.foldl (lifeStep m) (0, [])).1 = w.last := by
  refine Run.invariant (I := fun calls w => (calls.foldl (lifeStep m) (0, [])).1 = w.last)
    rfl (fun {ls t c u} hr ih hs => ?_) h
  rw [List.foldl_append]
  cases c with
  | init k =>
      obtain ⟨-, hlast, -⟩ := hs.of_init
      rw [hlast, ← ih]
      rfl
  | allocString k s h =>
      obtain ⟨p, hr, rfl⟩ := hs.of_allocString
      exact (hr.allocated hr.cap_pos).last.symm

/-- The calls on `m` since its `Init` lead from the fresh table to the one it has. -/
theorem life_run {calls : List (Call ι)} {w : World ι} {m : ι}
    (h : Run World.Step World.fresh calls w) (hm : .init m ∈ calls) :
    Run AllocSeen { tab := make 4 } (life m calls) (w.maps m) := by
  refine Run.invariant (I := fun calls w => .init m ∈ calls →
    Run AllocSeen { tab := make 4 } (life m calls) (w.maps m)) (by simp)
    (fun {ls t c u} hr ih hs hmem => ?_) h hm
  have hlast := last_run m hr
  simp only [life, List.foldl_append, List.foldl_cons, List.foldl_nil] at ih ⊢
  cases c with
  | init k =>
      obtain ⟨hk, -, hframe⟩ := hs.of_init
      simp only [lifeStep]
      by_cases hkm : k = m
      · rw [if_pos hkm, ← hkm, hk]
        exact Run.nil
      · rw [if_neg hkm, hframe m (Ne.symm hkm)]
        exact ih (by simpa [Ne.symm hkm] using hmem)
  | allocString k s h =>
      have hrun := ih (by simpa using hmem)
      obtain ⟨p, hr, rfl⟩ := hs.of_allocString
      simp only [lifeStep]
      by_cases hkm : k = m
      · subst hkm
        rw [if_pos rfl, World.put_maps_self, hlast]
        exact hrun.snoc ⟨p, hr, rfl⟩
      · rwa [if_neg hkm, World.put_maps_ne t p (Ne.symm hkm)]

/-! ### Two runs -/

/-- A call on a map is determined by the table, `last` and the string. -/
theorem AllocSeen.deterministic {hm hm₁ hm₂ : Handlemap} {c₁ c₂ : Seen}
    (hkey : (c₁.last, c₁.s) = (c₂.last, c₂.s)) (h₁ : AllocSeen hm c₁ hm₁)
    (h₂ : AllocSeen hm c₂ hm₂) : c₁ = c₂ ∧ hm₁ = hm₂ := by
  obtain ⟨last, s, h⟩ := c₁
  obtain ⟨last', s', h'⟩ := c₂
  obtain ⟨rfl, rfl⟩ : last = last' ∧ s = s' := by simpa using hkey
  obtain ⟨p, hr, rfl⟩ := h₁
  obtain ⟨p', hr', rfl⟩ := h₂
  obtain ⟨rfl, rfl⟩ := hr.unique hr'
  exact ⟨rfl, rfl⟩

/-- **When two runs agree on a map**: it was given the same strings since its `Init`,
and `last` was the same at each of these calls. -/
theorem runs_agree {calls₁ calls₂ : List (Call ι)} {w₁ w₂ : World ι} {m : ι}
    (h₁ : Run World.Step World.fresh calls₁ w₁) (h₂ : Run World.Step World.fresh calls₂ w₂)
    (hm₁ : .init m ∈ calls₁) (hm₂ : .init m ∈ calls₂)
    (hstrings : (life m calls₁).map Seen.s = (life m calls₂).map Seen.s)
    (hlast : (life m calls₁).map Seen.last = (life m calls₂).map Seen.last) :
    (life m calls₁).map Seen.h = (life m calls₂).map Seen.h ∧ w₁.maps m = w₂.maps m := by
  have hkey : (life m calls₁).map (fun c => (c.last, c.s)) =
      (life m calls₂).map fun c => (c.last, c.s) := by
    have hzip := congrArg₂ List.zip hlast hstrings
    simpa only [List.zip_map'] using hzip
  obtain ⟨hlife, htab⟩ := Run.deterministic (life_run h₁ hm₁) (life_run h₂ hm₂) hkey
    AllocSeen.deterministic
  exact ⟨congrArg _ hlife, htab⟩

/-- The map `false` is used alike, at the same values of `last`, after different pasts. -/
theorem runs_agree_two_maps : ∃ (calls₁ calls₂ : List (Call Bool)) (w₁ w₂ : World Bool),
    Run World.Step World.fresh calls₁ w₁ ∧ Run World.Step World.fresh calls₂ w₂ ∧
      (life false calls₁).map Seen.h = (life false calls₂).map Seen.h ∧
      w₁.maps false = w₂.maps false := by
  have hrun₁ : World.run 8 World.fresh [.init false, .init true, .allocString true [120],
    .allocString false [97], .allocString false [98]] = _ := rfl
  have hrun₂ : World.run 8 World.fresh [.init false, .allocString false [121], .init false,
    .allocString false [97], .init true, .allocString false [98]] = _ := rfl
  obtain ⟨h₁, -⟩ := World.run_sound hrun₁
  obtain ⟨h₂, -⟩ := World.run_sound hrun₂
  exact ⟨_, _, _, _, h₁, h₂, runs_agree h₁ h₂ (by simp) (by simp) rfl rfl⟩

/-- **Maps interfere**: the first handle of a fresh table is 2 in a fresh process, and 1
after another map has allocated once. -/
theorem handles_interfere : ¬ ∀ (calls₁ calls₂ : List (Call Bool)) (w₁ w₂ : World Bool) (m : Bool),
    Run World.Step World.fresh calls₁ w₁ → Run World.Step World.fresh calls₂ w₂ →
      .init m ∈ calls₁ → .init m ∈ calls₂ →
      (life m calls₁).map Seen.s = (life m calls₂).map Seen.s →
      (life m calls₁).map Seen.h = (life m calls₂).map Seen.h ∧ w₁.maps m = w₂.maps m := by
  intro hall
  have hrun₁ : World.run 8 World.fresh
    ([.init false, .allocString false [97]] : List (Request Bool)) = _ := rfl
  have hrun₂ : World.run 8 World.fresh
    [.init true, .allocString true [120], .init false, .allocString false [97]] = _ := rfl
  obtain ⟨h₁, -⟩ := World.run_sound hrun₁
  obtain ⟨h₂, -⟩ := World.run_sound hrun₂
  have hhandles := (hall _ _ _ _ false h₁ h₂ (by simp) (by simp) rfl).1
  exact absurd hhandles (by decide)

end Codelib.Hhash
