import Codelib.Hhash.Handlemap

/-!
# Codelib.Hhash.Search

What **one** call of `AllocString` does, from any value of `last` and any
non-empty table.

The search walks the slots cyclically from `last + 2`, skipping 0. It leaves at
an empty slot; meeting `last` it doubles the table and goes on. `searchBody` is
described once, one lemma per branch (`searchBody_zero`, `_wrap`, `_occupied`,
`_empty`); everything else is read off these:

* `allocString_safe` — no panic, and what a returned handle means (`Allocated`);
* `allocReturns_iff` — the call returns *iff* `CanAlloc` holds: `last` is itself a
  slot of this table, or some slot is empty;
* `AllocReturns.unique` — a call has one result, whatever fuel found it.
-/

namespace Codelib.Hhash

/-! ### Doubling the table -/

/-- The table after doubling: the old slots, then as many empty ones. -/
def grow (tab : List GoString) : List GoString := tab ++ make tab.length

@[simp] theorem length_make (n : Nat) : (make n).length = n := by simp [make]

@[simp] theorem length_grow (tab : List GoString) :
    (grow tab).length = tab.length + tab.length := by simp [grow]

theorem getElem?_make {n i : Nat} (h : i < n) : (make n)[i]? = some [] := by
  simp [make, h]

theorem grow_getElem?_old {tab : List GoString} {i : Nat} (h : i < tab.length) :
    (grow tab)[i]? = tab[i]? := List.getElem?_append_left h

theorem grow_getElem?_new {tab : List GoString} {i : Nat} (h : tab.length ≤ i)
    (hi : i < tab.length + tab.length) : (grow tab)[i]? = some [] := by
  rw [grow, List.getElem?_append_right h]
  exact getElem?_make (by omega)

/-- An occupied slot of the doubled table is an old one. -/
theorem lt_length_of_grow_ne {tab : List GoString} {i : Nat} (hi : i < (grow tab).length)
    (h : (grow tab)[i] ≠ []) : i < tab.length := by
  by_contra hge
  have hnew := grow_getElem?_new (Nat.le_of_not_lt hge) (by simpa using hi)
  rw [List.getElem?_eq_getElem hi] at hnew
  exact h (Option.some.inj hnew)

/-- The `range` loop writes the old strings over the first slots of the new slice. -/
theorem copyTab_foldl (tab : List GoString) : ∀ (k : Nat) (acc : List GoString),
    k + tab.length ≤ acc.length →
      (tab.zipIdx k).foldl (fun acc ji => acc.set ji.2 ji.1) acc =
        acc.take k ++ tab ++ acc.drop (k + tab.length) := by
  induction tab with
  | nil => intro k acc _; simp
  | cons s tab ih =>
      intro k acc hk
      simp only [List.length_cons] at hk
      rw [List.zipIdx_cons, List.foldl_cons, ih (k + 1) _ (by simp; omega)]
      have hlt : k < acc.length := by omega
      have htake : (acc.set k s).take (k + 1) = acc.take k ++ [s] := by
        rw [List.take_succ_eq_append_getElem (by simpa using hlt), List.getElem_set_self,
          List.take_set_of_le (Nat.le_refl k)]
      rw [htake, List.drop_set_of_lt (by omega), List.length_cons, Nat.add_assoc k 1,
        Nat.add_comm 1]
      simp only [List.append_assoc, List.cons_append, List.nil_append]

theorem copyTab_make (tab : List GoString) :
    copyTab tab (make (tab.length * 2)) = grow tab := by
  have hcopy := copyTab_foldl tab 0 (make (tab.length * 2)) (by simp; omega)
  simp only [List.take_zero, List.nil_append, Nat.zero_add] at hcopy
  have hdrop : (make (tab.length * 2)).drop tab.length = make tab.length := by
    simp only [make, List.drop_replicate]
    congr 1
    omega
  rw [hdrop] at hcopy
  exact hcopy

/-! ### The branches of one round -/

section Rounds

variable {s : GoString} {next size : Nat} {p : Pkg}

theorem nextWrap_eq (h : next < size) :
    nextWrap next size = if next + 1 = size then 0 else next + 1 := by
  unfold nextWrap
  split
  case isTrue heq => rw [heq, Nat.mod_self]
  case isFalse hne => exact Nat.mod_eq_of_lt (by omega)

/-- Inside the table the next slot follows. -/
theorem nextWrap_of_lt (h : next + 1 < size) : nextWrap next size = next + 1 := by
  rw [nextWrap_eq (Nat.lt_of_succ_lt h), if_neg (Nat.ne_of_lt h)]

theorem nextWrap_lt (h : 0 < size) : nextWrap next size < size := Nat.mod_lt _ h

theorem searchBody_zero : searchBody s (0, size) p = .ok (.inl (nextWrap 0 size, size), p) := rfl

theorem searchBody_wrap (h0 : next ≠ 0) (hl : next = p.last) :
    searchBody s (next, size) p =
      .ok (.inl (nextWrap next (grow p.hm.tab).length, (grow p.hm.tab).length),
        { p with hm := { tab := grow p.hm.tab } }) := by
  subst hl
  have hcopy := copyTab_make p.hm.tab
  simp only [searchBody, Handlemap.cap, hcopy, bind, StateT.bind, get, getThe,
    MonadStateOf.get, StateT.get, pure, Except.pure, Except.bind, if_neg h0, if_true]
  rfl

theorem searchBody_occupied (h0 : next ≠ 0) (hl : next ≠ p.last) {old : GoString}
    (hold : p.hm.tab[next]? = some old) (hne : old ≠ []) :
    searchBody s (next, size) p = .ok (.inl (nextWrap next size, size), p) := by
  simp only [searchBody, bind, StateT.bind, get, getThe, MonadStateOf.get, StateT.get, pure,
    Except.pure, Except.bind, if_neg h0, if_neg hl, hold, if_pos hne]
  rfl

theorem searchBody_empty (h0 : next ≠ 0) (hl : next ≠ p.last)
    (hold : p.hm.tab[next]? = some []) :
    searchBody s (next, size) p =
      .ok (.inr next, { p with hm := { tab := p.hm.tab.set next s } }) := by
  simp only [searchBody, bind, StateT.bind, get, getThe, MonadStateOf.get, StateT.get, pure,
    Except.pure, Except.bind, if_neg h0, if_neg hl, hold, ne_eq, not_true_eq_false, if_false]
  rfl

end Rounds

/-! ### The state of the search -/

/-- Where the search started in `p₀` can be: still in the old table, or — having met
`last` — in the doubled one, on its way from `last` to the first new slot. -/
inductive Scanning (p₀ : Pkg) (v : Nat × Nat) (p : Pkg) : Prop
  | first (hp : p = p₀) (hsize : v.2 = p₀.hm.cap) (hlt : v.1 < v.2)
  | second (hp : p = { p₀ with hm := { tab := grow p₀.hm.tab } })
      (hsize : v.2 = p₀.hm.cap + p₀.hm.cap) (hlast : p₀.last < v.1) (hle : v.1 ≤ p₀.hm.cap)
      (hpos : 0 < p₀.hm.cap)

/-- The search started in `p₀` found the empty slot `h` — in the table as it was or as
doubled — and stored `s` there. -/
structure Found (p₀ : Pkg) (s : GoString) (h : Nat) (p : Pkg) : Prop where
  pos : 1 ≤ h
  last : p.last = p₀.last
  table : ∃ tab, (tab = p₀.hm.tab ∨ tab = grow p₀.hm.tab) ∧ tab[h]? = some [] ∧
    p.hm.tab = tab.set h s

/-- One round either moves on to the next slot, because this one is 0 or occupied; or
meets `last`, doubles the table and moves on; or finds the slot. -/
theorem searchBody_cases {p₀ p : Pkg} {s : GoString} {next size : Nat}
    (h : Scanning p₀ (next, size) p) :
    (searchBody s (next, size) p = .ok (.inl (nextWrap next size, size), p) ∧
        Scanning p₀ (nextWrap next size, size) p ∧
        (next = 0 ∨ next ≠ p.last ∧ p.hm.tab[next]? ≠ some [])) ∨
      (∃ p', searchBody s (next, size) p = .ok (.inl (next + 1, size + size), p') ∧
        size = p₀.hm.cap ∧ Scanning p₀ (next + 1, size + size) p') ∨
      ∃ p', searchBody s (next, size) p = .ok (.inr next, p') ∧ Found p₀ s next p' := by
  cases h with
  | first hp hsize hlt =>
      subst hp
      simp only at hsize hlt
      subst hsize
      by_cases h0 : next = 0
      · subst h0
        exact .inl ⟨searchBody_zero, .first rfl rfl (nextWrap_lt hlt), .inl rfl⟩
      by_cases hl : next = p.last
      · have hwrap : nextWrap next (grow p.hm.tab).length = next + 1 := by
          simp only [Handlemap.cap] at hlt
          rw [length_grow]
          exact nextWrap_of_lt (by omega)
        refine .inr (.inl ⟨{ p with hm := { tab := grow p.hm.tab } }, ?_, rfl, ?_⟩)
        · rw [searchBody_wrap h0 hl, hwrap, length_grow]
          rfl
        · exact .second rfl rfl (hl ▸ Nat.lt_succ_self _) hlt (Nat.zero_lt_of_lt hlt)
      have hold : p.hm.tab[next]? = some p.hm.tab[next] := List.getElem?_eq_getElem hlt
      by_cases hne : p.hm.tab[next] = []
      · rw [hne] at hold
        exact .inr (.inr ⟨_, searchBody_empty h0 hl hold,
          Nat.pos_of_ne_zero h0, rfl, _, .inl rfl, hold, rfl⟩)
      · exact .inl ⟨searchBody_occupied h0 hl hold hne,
          .first rfl rfl (nextWrap_lt (Nat.zero_lt_of_lt hlt)),
          .inr ⟨hl, by simpa [hold] using hne⟩⟩
  | second hp hsize hlast hle hpos =>
      subst hp
      simp only at hsize hlast hle
      subst hsize
      have h0 : next ≠ 0 := by omega
      have hl : next ≠ p₀.last := by omega
      have hlen : next < (grow p₀.hm.tab).length := by
        simp only [length_grow, Handlemap.cap] at hle hpos ⊢
        omega
      have hold : (grow p₀.hm.tab)[next]? = some (grow p₀.hm.tab)[next] :=
        List.getElem?_eq_getElem hlen
      by_cases hne : (grow p₀.hm.tab)[next] = []
      · rw [hne] at hold
        exact .inr (.inr ⟨_, searchBody_empty h0 hl hold,
          Nat.pos_of_ne_zero h0, rfl, _, .inr rfl, hold, rfl⟩)
      · -- the scan stays below the first new slot
        have hlt : next < p₀.hm.cap := lt_length_of_grow_ne hlen hne
        have hwrap : nextWrap next (p₀.hm.cap + p₀.hm.cap) = next + 1 := nextWrap_of_lt (by omega)
        refine .inl ⟨searchBody_occupied h0 hl hold hne, ?_,
          .inr ⟨hl, by simpa [hold] using hne⟩⟩
        rw [hwrap]
        exact .second rfl rfl (Nat.lt_succ_of_lt hlast) hlt hpos

/-! ### Safety -/

theorem search_safe {p₀ : Pkg} {s : GoString} {fuel : Nat} {v : Nat × Nat} {p : Pkg}
    (h : Scanning p₀ v p) : Safe (loop (searchBody s) fuel v) p (Found p₀ s) := by
  refine Safe.loop (Scanning p₀) (fun v p h => ?_) h
  rcases searchBody_cases (s := s) h with ⟨hb, hs, -⟩ | ⟨p', hb, -, hs⟩ | ⟨p', hb, hf⟩
  · exact Safe.of_eq_ok hb hs
  · exact Safe.of_eq_ok hb hs
  · exact Safe.of_eq_ok hb hf

/-- What a returned handle means: `h` was an empty slot of the table `tab` — the old
table, or the old table doubled — and the call stored `s` there and moved `last`. -/
structure Allocated (p : Pkg) (s : GoString) (h : Nat) (p' : Pkg) : Prop where
  pos : 1 ≤ h
  last : p'.last = h
  table : ∃ tab, (tab = p.hm.tab ∨ tab = grow p.hm.tab) ∧ tab[h]? = some [] ∧
    p'.hm.tab = tab.set h s

/-- The search loop as `AllocString` enters it. -/
def search (fuel : Nat) (s : GoString) (p : Pkg) : Except (Stop Panic) (Nat × Pkg) :=
  loop (searchBody s) fuel (nextWrap ((p.last + 1) % p.hm.cap) p.hm.cap, p.hm.cap) p

theorem allocString_eq (fuel : Nat) (s : GoString) {p : Pkg} (h : 0 < p.hm.cap) :
    allocString fuel s p =
      (search fuel s p).bind fun x => .ok (x.1, { x.2 with last := x.1 }) := by
  have hne : ¬ p.hm.cap = 0 := by omega
  show (if p.hm.cap = 0 then _ else _ : Prog Pkg Panic Nat) p = _
  rw [if_neg hne]
  rfl

theorem scanning_start {p : Pkg} (h : 0 < p.hm.cap) :
    Scanning p (nextWrap ((p.last + 1) % p.hm.cap) p.hm.cap, p.hm.cap) p :=
  .first rfl rfl (nextWrap_lt h)

/-- **Safety of one call.** It never panics, and a returned handle is `Allocated`. -/
theorem allocString_safe {p : Pkg} (h : 0 < p.hm.cap) (fuel : Nat) (s : GoString) :
    Safe (allocString fuel s) p (Allocated p s) := by
  have hne : ¬ p.hm.cap = 0 := by omega
  refine Safe.bind (Safe.get ?_)
  simp only [if_neg hne]
  refine Safe.bind ((search_safe (scanning_start h)).mono fun n q hf => ?_)
  exact Safe.bind (Safe.modify (Safe.pure ⟨hf.pos, rfl, hf.table⟩))

theorem AllocReturns.allocated {p p' : Pkg} {s : GoString} {h : Nat} (hc : 0 < p.hm.cap)
    (hr : AllocReturns p s h p') : Allocated p s h p' := by
  obtain ⟨fuel, hr⟩ := hr
  exact (allocString_safe hc fuel s).of_ok hr

/-- A call on a map that was never `Init`-ed panics. -/
theorem AllocReturns.cap_pos {p p' : Pkg} {s : GoString} {h : Nat}
    (hr : AllocReturns p s h p') : 0 < p.hm.cap := by
  obtain ⟨fuel, hr⟩ := hr
  by_contra hc
  have h0 : p.hm.cap = 0 := by omega
  have hpanic : allocString fuel s p = .error (.fault .divideByZero) := by
    show (if p.hm.cap = 0 then _ else _ : Prog Pkg Panic Nat) p = _
    rw [if_pos h0]
    rfl
  rw [hpanic] at hr
  exact absurd hr (by simp)

theorem allocReturns_iff_search {p p' : Pkg} {s : GoString} {h : Nat} (hc : 0 < p.hm.cap) :
    AllocReturns p s h p' ↔
      ∃ fuel q, search fuel s p = .ok (h, q) ∧ p' = { q with last := h } := by
  constructor
  · intro hp
    obtain ⟨fuel, hr⟩ := hp
    rw [allocString_eq fuel s hc] at hr
    cases hs : search fuel s p with
    | error e => rw [hs] at hr; exact absurd hr (by simp [Except.bind])
    | ok x =>
        rw [hs] at hr
        obtain ⟨rfl, rfl⟩ := Prod.mk.inj (Except.ok.inj hr)
        exact ⟨fuel, x.2, hs, rfl⟩
  · intro hp
    obtain ⟨fuel, q, hs, rfl⟩ := hp
    exact ⟨fuel, by rw [allocString_eq fuel s hc, hs]; rfl⟩

/-- A call has one result. -/
theorem AllocReturns.unique {p p₁ p₂ : Pkg} {s : GoString} {h₁ h₂ : Nat}
    (hr₁ : AllocReturns p s h₁ p₁) (hr₂ : AllocReturns p s h₂ p₂) : h₁ = h₂ ∧ p₁ = p₂ := by
  have hc := hr₁.cap_pos
  obtain ⟨f₁, q₁, hs₁, rfl⟩ := (allocReturns_iff_search hc).mp hr₁
  obtain ⟨f₂, q₂, hs₂, rfl⟩ := (allocReturns_iff_search hc).mp hr₂
  have heq := (loop_mono hs₁ (Nat.le_max_left f₁ f₂)).symm.trans
    (loop_mono hs₂ (Nat.le_max_right f₁ f₂))
  obtain ⟨rfl, rfl⟩ := Prod.mk.inj (Except.ok.inj heq)
  exact ⟨rfl, rfl⟩

/-! ### Termination -/

/-- `last` is a slot of this table, or some slot is empty. -/
def CanAlloc (p : Pkg) : Prop :=
  (1 ≤ p.last ∧ p.last < p.hm.cap) ∨ ∃ i < p.hm.cap, 1 ≤ i ∧ p.hm.tab[i]? = some []

instance (p : Pkg) : Decidable (CanAlloc p) := by
  unfold CanAlloc
  infer_instance

/-- Slots from `next` on to the slot `target`, going round. -/
def ahead (next target size : Nat) : Nat :=
  if next ≤ target then target - next else target + size - next

theorem ahead_nextWrap {next target size : Nat} (hn : next < size) (ht : target < size)
    (hne : next ≠ target) : ahead (nextWrap next size) target size < ahead next target size := by
  rw [nextWrap_eq hn]
  unfold ahead
  split <;> split <;> split <;> omega

/-- A slot the search must stop at (it is empty, or it is `last`) bounds the first scan,
and the first new slot bounds the second. -/
theorem search_ends {p₀ : Pkg} {s : GoString} {target : Nat} (hpos : 1 ≤ target)
    (htarget : target < p₀.hm.cap)
    (hstop : target = p₀.last ∨ p₀.hm.tab[target]? = some []) :
    ∃ fuel h q, search fuel s p₀ = .ok (h, q) := by
  have hc : 0 < p₀.hm.cap := by omega
  let measure : Nat × Nat → Nat := fun v =>
    if v.2 = p₀.hm.cap then ahead v.1 target p₀.hm.cap + p₀.hm.cap + 1 else p₀.hm.cap - v.1
  have hround : ∀ v p, Scanning p₀ v p → Ends (searchBody s v) p fun r p' =>
      r.elim (fun v' => Scanning p₀ v' p' ∧ measure v' < measure v) (fun _ => True) := by
    intro v p hv
    obtain ⟨next, size⟩ := v
    rcases searchBody_cases (s := s) hv with
      ⟨hb, hs, hwhy⟩ | ⟨p', hb, hsize, hs⟩ | ⟨p', hb, -⟩
    · refine ⟨_, _, hb, hs, ?_⟩
      cases hv with
      | first hp hsize hlt =>
          simp only at hsize hlt
          subst hp hsize
          have hne : next ≠ target := by
            intro heq
            obtain rfl := heq
            rcases hwhy with h0 | ⟨hl, he⟩
            · omega
            · exact hstop.elim hl he
          have hahead := ahead_nextWrap hlt htarget hne
          simp only [measure, if_true]
          omega
      | second hp hsize hlast hle hpos =>
          simp only at hsize hlast hle
          subst hsize
          have hwrap : nextWrap next (p₀.hm.cap + p₀.hm.cap) = next + 1 := nextWrap_of_lt (by omega)
          have hle' : next + 1 ≤ p₀.hm.cap := by
            rw [hwrap] at hs
            cases hs with
            | first _ hsize _ => exact absurd hsize (by simp only; omega)
            | second _ _ _ hle _ => exact hle
          simp only [measure, hwrap]
          rw [if_neg (by omega), if_neg (by omega)]
          omega
    · subst hsize
      refine ⟨_, _, hb, hs, ?_⟩
      simp only [measure, if_true]
      rw [if_neg (by omega)]
      omega
    · exact ⟨_, _, hb, trivial⟩
  obtain ⟨h, q, hr, -⟩ := Ends.loop (Q := fun _ _ => True) (Scanning p₀)
    (fun v _ => measure v) hround (scanning_start hc) (Nat.lt_succ_self _)
  exact ⟨_, h, q, hr⟩

/-- Without a slot to stop at, the search goes round the old table for ever. -/
theorem search_diverges {p : Pkg} (hc : 0 < p.hm.cap) (h : ¬ CanAlloc p) (s : GoString)
    (fuel : Nat) : search fuel s p = .error .fuel := by
  simp only [CanAlloc, not_or, not_and, not_exists] at h
  obtain ⟨hlast, hfull⟩ := h
  refine loop_diverges (fun v q => q = p ∧ v.1 < v.2 ∧ v.2 = p.hm.cap) ?_ fuel
    ⟨rfl, nextWrap_lt hc, rfl⟩
  intro v q h
  obtain ⟨next, size⟩ := v
  obtain ⟨rfl, hlt, rfl⟩ := h
  simp only at hlt
  refine ⟨(nextWrap next q.hm.cap, q.hm.cap), q, ?_, rfl, nextWrap_lt hc, rfl⟩
  by_cases h0 : next = 0
  · subst h0
    exact searchBody_zero
  have hl : next ≠ q.last := by
    intro heq
    obtain rfl := heq
    exact absurd (hlast (by omega)) (by omega)
  have hne := hfull next hlt (by omega)
  rw [List.getElem?_eq_getElem hlt, Option.some.injEq] at hne
  exact searchBody_occupied h0 hl (List.getElem?_eq_getElem hlt) hne

/-- **Exactly when a call returns.** -/
theorem allocReturns_iff {p : Pkg} (hc : 0 < p.hm.cap) (s : GoString) :
    (∃ h p', AllocReturns p s h p') ↔ CanAlloc p := by
  constructor
  · intro hp
    obtain ⟨h, p', hr⟩ := hp
    by_contra hcan
    obtain ⟨fuel, q, hs, -⟩ := (allocReturns_iff_search hc).mp hr
    rw [search_diverges hc hcan] at hs
    exact absurd hs (by simp)
  · intro hcan
    obtain ⟨fuel, h, q, hs⟩ : ∃ fuel h q, search fuel s p = .ok (h, q) := by
      rcases hcan with ⟨hpos, hlt⟩ | ⟨i, hlt, hpos, he⟩
      · exact search_ends hpos hlt (.inl rfl)
      · exact search_ends hpos hlt (.inr he)
    exact ⟨h, _, (allocReturns_iff_search hc).mpr ⟨fuel, q, hs, rfl⟩⟩

theorem Allocated.cap {p p' : Pkg} {s : GoString} {h : Nat} (ha : Allocated p s h p') :
    p'.hm.cap = p.hm.cap ∨ p'.hm.cap = 2 * p.hm.cap := by
  obtain ⟨tab, htab, -, heq⟩ := ha.table
  unfold Handlemap.cap
  rw [heq, List.length_set]
  rcases htab with rfl | rfl
  · exact .inl rfl
  · exact .inr (by rw [length_grow, Nat.two_mul])

/-- **When the search of a call ends, and what it costs**: whatever `last` is, it ends if
and only if it has a slot to stop at, and then the table was doubled at most once. -/
theorem allocString_ends_iff {p : Pkg} (hc : 1 ≤ p.hm.cap) (s : GoString) :
    ((∃ h p', AllocReturns p s h p') ↔
      (1 ≤ p.last ∧ p.last < p.hm.cap) ∨ ∃ i, 1 ≤ i ∧ i < p.hm.cap ∧ p.hm.tab[i]? = some []) ∧
    ∀ h p', AllocReturns p s h p' → p'.hm.cap = p.hm.cap ∨ p'.hm.cap = 2 * p.hm.cap := by
  refine ⟨?_, fun h p' hr => (hr.allocated hc).cap⟩
  rw [allocReturns_iff hc]
  exact or_congr_right (exists_congr fun i => and_left_comm)

/-- A table of one slot, which has none to give away, and `last` behind it. -/
theorem allocString_ends_iff_one :
    ¬ ∃ h p', AllocReturns ⟨3, ⟨[[]]⟩⟩ [97] h p' := by
  refine mt (allocString_ends_iff (by decide) [97]).1.mp ?_
  intro hp
  rcases hp with ⟨-, h⟩ | ⟨i, h1, h2, -⟩
  · exact absurd h (by decide)
  · exact absurd h2 (Nat.not_lt.mpr h1)

end Codelib.Hhash
