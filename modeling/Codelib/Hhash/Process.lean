import Codelib.Hhash.Search

/-!
# Codelib.Hhash.Process

**Whole runs** of a process that uses the package: any number of maps (the type
`ι` of their names is arbitrary), `Init` and `AllocString` calls on them in any
order, and the one variable `last` they all share.

* `handle_table_safe` — in every state a run can reach, a call on an `Init`-ed map
  does not panic, and a handle it returns is `HandleGiven`;
* `all_return_iff` — a list of requests runs to its end *iff* every `AllocString`
  is made in a state where `CanAlloc` holds. It need not: `last` belongs to
  whichever map allocated last, and a full map smaller than `last` is searched for
  ever (`full_map_never_returns`).
-/

namespace Codelib.Hhash

variable {ι : Type} [DecidableEq ι]

/-! ### Running requests -/

/-- Make one call with `fuel` rounds for the search loop. -/
def World.exec (fuel : Nat) (w : World ι) : Request ι → Option (Call ι × World ι)
  | .init m =>
      match Hhash.init (w.pkg m) with
      | .ok (_, p) => some (.init m, w.put m p)
      | .error _ => none
  | .allocString m s =>
      match Hhash.allocString fuel s (w.pkg m) with
      | .ok (h, p) => some (.allocString m s h, w.put m p)
      | .error _ => none

/-- Make the calls one after the other. -/
def World.run (fuel : Nat) (w : World ι) : List (Request ι) → Option (List (Call ι) × World ι)
  | [] => some ([], w)
  | r :: rs =>
      (w.exec fuel r).bind fun x => (World.run fuel x.2 rs).map fun y => (x.1 :: y.1, y.2)

theorem World.exec_sound {fuel : Nat} {w w' : World ι} {r : Request ι} {c : Call ι}
    (h : w.exec fuel r = some (c, w')) : World.Step w c w' ∧ c.request = r := by
  cases r with
  | init m =>
      simp only [World.exec] at h
      split at h
      case h_1 p hp =>
          obtain ⟨rfl, rfl⟩ := Prod.mk.inj (Option.some.inj h)
          exact ⟨.init hp, rfl⟩
      case h_2 => simp at h
  | allocString m s =>
      simp only [World.exec] at h
      split at h
      case h_1 n p hp =>
          obtain ⟨rfl, rfl⟩ := Prod.mk.inj (Option.some.inj h)
          exact ⟨.allocString ⟨fuel, hp⟩, rfl⟩
      case h_2 => simp at h

/-- A completed execution is a run that answers the requests. -/
theorem World.run_sound {fuel : Nat} {rs : List (Request ι)} {w w' : World ι}
    {calls : List (Call ι)} (h : World.run fuel w rs = some (calls, w')) :
    Run World.Step w calls w' ∧ calls.map Call.request = rs := by
  induction rs generalizing w calls with
  | nil =>
      obtain ⟨rfl, rfl⟩ := Prod.mk.inj (Option.some.inj h)
      exact ⟨Run.nil, rfl⟩
  | cons r rs ih =>
      obtain ⟨⟨c, v⟩, hc, hrest⟩ := Option.bind_eq_some_iff.mp h
      obtain ⟨⟨calls', w''⟩, hrun, heq⟩ := Option.map_eq_some_iff.mp hrest
      obtain ⟨rfl, rfl⟩ := Prod.mk.inj heq
      obtain ⟨hstep, hreq⟩ := World.exec_sound hc
      obtain ⟨hrun', hmap⟩ := ih hrun
      exact ⟨Run.append_iff.mpr ⟨v, Run.single hstep, hrun'⟩, by simp [hreq, hmap]⟩

/-! ### One call in the process -/

@[simp] theorem World.put_last (w : World ι) (m : ι) (p : Pkg) : (w.put m p).last = p.last := rfl

@[simp] theorem World.put_maps_self (w : World ι) (m : ι) (p : Pkg) :
    (w.put m p).maps m = p.hm := Function.update_self ..

theorem World.put_maps_ne (w : World ι) {m m' : ι} (p : Pkg) (h : m' ≠ m) :
    (w.put m p).maps m' = w.maps m' := Function.update_of_ne h ..

theorem World.Step.of_init {w w' : World ι} {m : ι} (h : World.Step w (.init m) w') :
    w'.maps m = { tab := make 4 } ∧ w'.last = w.last ∧ ∀ m', m' ≠ m → w'.maps m' = w.maps m' := by
  cases h with
  | init hp =>
      obtain ⟨-, rfl⟩ := Prod.mk.inj (Except.ok.inj hp)
      exact ⟨World.put_maps_self .., rfl, fun m' hne => World.put_maps_ne w _ hne⟩

theorem World.Step.of_allocString {w w' : World ι} {m : ι} {s : GoString} {h : Nat}
    (hs : World.Step w (.allocString m s h) w') :
    ∃ p, AllocReturns (w.pkg m) s h p ∧ w' = w.put m p := by
  cases hs with
  | allocString hr => exact ⟨_, hr, rfl⟩

/-- Every call has one result. -/
theorem World.Step.deterministic {w w₁ w₂ : World ι} {c₁ c₂ : Call ι}
    (hreq : c₁.request = c₂.request) (h₁ : World.Step w c₁ w₁) (h₂ : World.Step w c₂ w₂) :
    c₁ = c₂ ∧ w₁ = w₂ := by
  cases h₁ with
  | init hp₁ =>
      cases h₂ with
      | init hp₂ =>
          obtain rfl := Request.init.inj hreq
          obtain ⟨-, rfl⟩ := Prod.mk.inj (Except.ok.inj (hp₁.symm.trans hp₂))
          exact ⟨rfl, rfl⟩
      | allocString _ => exact absurd hreq nofun
  | allocString hr₁ =>
      cases h₂ with
      | init _ => exact absurd hreq nofun
      | allocString hr₂ =>
          obtain ⟨rfl, rfl⟩ := Request.allocString.inj hreq
          obtain ⟨rfl, rfl⟩ := hr₁.unique hr₂
          exact ⟨rfl, rfl⟩

/-! ### The invariant of a run -/

theorem Allocated.length {p p' : Pkg} {s : GoString} {h : Nat} (ha : Allocated p s h p') :
    p'.hm.cap = p.hm.cap ∨ p'.hm.cap = 2 * p.hm.cap := by
  obtain ⟨tab, htab, -, hset⟩ := ha.table
  rw [Handlemap.cap, hset, List.length_set]
  rcases htab with rfl | rfl
  · exact .inl rfl
  · exact .inr (by rw [length_grow, Handlemap.cap]; omega)

/-- Once `Init`-ed, a map keeps a table with slots in it. -/
theorem cap_pos_of_init {calls : List (Call ι)} {w : World ι}
    (hrun : Run World.Step World.fresh calls w) {m : ι} (hm : .init m ∈ calls) :
    0 < (w.maps m).cap := by
  refine Run.invariant (I := fun calls w => .init m ∈ calls → 0 < (w.maps m).cap)
    (by simp) (fun {ls t c u} _ ih hs hmem => ?_) hrun hm
  cases c with
  | init k =>
      obtain ⟨hk, -, hframe⟩ := hs.of_init
      by_cases hmk : m = k
      · rw [hmk, hk]
        simp [Handlemap.cap]
      · rw [hframe m hmk]
        exact ih (by simpa [hmk] using hmem)
  | allocString k s h =>
      have hpos := ih (by simpa using hmem)
      obtain ⟨p, hr, rfl⟩ := hs.of_allocString
      by_cases hmk : m = k
      · subst hmk
        rw [World.put_maps_self]
        have hlen := (hr.allocated hpos).length
        simp only [World.pkg] at hlen
        omega
      · rwa [World.put_maps_ne t p hmk]

/-! ### Safety of the handle table -/

/-- What it means that `AllocString(s)` on `m` returned `h`, from `w` to `w'`. -/
structure HandleGiven (w : World ι) (m : ι) (s : GoString) (h : Nat) (w' : World ι) : Prop where
  /-- 0 is not a handle, and the handle is a slot of the new table. -/
  pos : 1 ≤ h
  lt : h < (w'.maps m).tab.length
  /-- The slot was empty just before the store — in the old table or in the doubled
  one — and the store is all that happened to it. -/
  was_empty : ∃ tab, (tab = (w.maps m).tab ∨ tab = grow (w.maps m).tab) ∧ tab[h]? = some [] ∧
    (w'.maps m).tab = tab.set h s
  stored : (w'.maps m).tab[h]? = some s
  kept : ∀ i, i < (w.maps m).tab.length → i ≠ h → (w'.maps m).tab[i]? = (w.maps m).tab[i]?
  added : ∀ i, (w.maps m).tab.length ≤ i → i < (w'.maps m).tab.length → i ≠ h →
    (w'.maps m).tab[i]? = some []
  length : (w'.maps m).tab.length = (w.maps m).tab.length ∨
    (w'.maps m).tab.length = 2 * (w.maps m).tab.length
  others : ∀ m', m' ≠ m → w'.maps m' = w.maps m'
  last : w'.last = h

theorem AllocReturns.handleGiven {w : World ι} {m : ι} {s : GoString} {h : Nat} {p : Pkg}
    (hpos : 0 < (w.maps m).cap) (hr : AllocReturns (w.pkg m) s h p) :
    HandleGiven w m s h (w.put m p) := by
  have ha := hr.allocated hpos
  obtain ⟨tab, htab, hempty, hset⟩ := ha.table
  simp only [World.pkg] at htab
  have hlt : h < tab.length := (List.getElem?_eq_some_iff.mp hempty).1
  have hlen := ha.length
  simp only [Handlemap.cap, World.pkg] at hlen
  have hother : ∀ i, i ≠ h → p.hm.tab[i]? = tab[i]? := fun i hi => by
    rw [hset, List.getElem?_set_ne (Ne.symm hi)]
  have hnew : (w.put m p).maps m = p.hm := World.put_maps_self w m p
  constructor
  case pos => exact ha.pos
  case lt => rwa [hnew, hset, List.length_set]
  case was_empty => exact ⟨tab, htab, hempty, hnew ▸ hset⟩
  case stored => rw [hnew, hset, List.getElem?_set_self hlt]
  case kept =>
    intro i hi hne
    rw [hnew, hother i hne]
    rcases htab with rfl | rfl
    · rfl
    · exact grow_getElem?_old hi
  case added =>
    intro i hi hi' hne
    rw [hnew, hset, List.length_set] at hi'
    rw [hnew, hother i hne]
    rcases htab with rfl | rfl
    · omega
    · exact grow_getElem?_new hi (by simpa using hi')
  case length => rwa [hnew]
  case others => exact fun m' hne => World.put_maps_ne w p hne
  case last => exact ha.last

/-- **Handle-table safety over whole runs.** -/
theorem handle_table_safe {calls : List (Call ι)} {w : World ι}
    (hrun : Run World.Step World.fresh calls w) {m : ι} (hm : .init m ∈ calls) (s : GoString) :
    (∀ fuel e, allocString fuel s (w.pkg m) ≠ .error (.fault e)) ∧
      ∀ h w', World.Step w (.allocString m s h) w' → HandleGiven w m s h w' := by
  have hpos := cap_pos_of_init hrun hm
  constructor
  · exact fun fuel e => (allocString_safe hpos fuel s).ne_fault e
  · intro h w' hs
    obtain ⟨p, hr, rfl⟩ := hs.of_allocString
    exact hr.handleGiven hpos

/-- Two maps; the second one starts its search where the first one left `last`. -/
theorem handle_table_safe_two_maps :
    ∃ (calls : List (Call Bool)) (w w' : World Bool), Run World.Step World.fresh calls w ∧
      World.Step w (.allocString false [98] 1) w' ∧ HandleGiven w false [98] 1 w' := by
  have hrun : World.run 4 World.fresh [.init true, .init false, .allocString true [97]] = _ := rfl
  obtain ⟨hrun, -⟩ := World.run_sound hrun
  exact ⟨_, _, _, hrun, .allocString ⟨4, rfl⟩,
    (handle_table_safe hrun (by simp) [98]).2 1 _ (.allocString ⟨4, rfl⟩)⟩

/-! ### Termination -/

/-- Every map is `Init`-ed before it is used. -/
def InitFirst (rs : List (Request ι)) : Prop :=
  ∀ pre m s post, rs = pre ++ .allocString m s :: post → .init m ∈ pre

/-- Maps that are all `Init`-ed up front are `Init`-ed before they are used. -/
theorem initFirst_of_front {κ : Type} {ms : List κ} {rs : List (Request κ)}
    (h : ∀ m s, .allocString m s ∈ rs → m ∈ ms) : InitFirst (ms.map Request.init ++ rs) := by
  intro pre m s post heq
  rcases List.append_eq_append_iff.mp heq with ⟨mid, hpre, hrs⟩ | ⟨mid, hms, hpost⟩
  · rw [hpre]
    exact List.mem_append_left _ (List.mem_map_of_mem (h m s (by simp [hrs])))
  · cases mid with
    | nil =>
        rw [List.append_nil] at hms
        rw [← hms]
        have hmem : Request.allocString m s ∈ [] ++ rs := by simp [← hpost]
        exact List.mem_map_of_mem (h m s hmem)
    | cons r mid =>
        obtain ⟨rfl, -⟩ := List.cons.inj hpost
        have hmem : Request.allocString m s ∈ ms.map Request.init := by simp [hms]
        simp at hmem

/-- Every request is answered: the process runs to the end of the list. -/
def AllReturn (rs : List (Request ι)) : Prop :=
  ∃ calls w, Run World.Step World.fresh calls w ∧ calls.map Call.request = rs

/-- Every `AllocString` of the list is made in a state where `CanAlloc` holds. -/
def AlwaysCanAlloc (rs : List (Request ι)) : Prop :=
  ∀ pre m s post, rs = pre ++ .allocString m s :: post → ∀ calls w,
    Run World.Step World.fresh calls w → calls.map Call.request = pre → CanAlloc (w.pkg m)

theorem mem_init_of_map {κ : Type} {calls : List (Call κ)} {m : κ}
    (h : .init m ∈ calls.map Call.request) : .init m ∈ calls := by
  obtain ⟨c, hc, heq⟩ := List.mem_map.mp h
  cases c with
  | init k => obtain rfl := Request.init.inj heq; exact hc
  | allocString _ _ _ => exact absurd heq nofun

theorem Run.request_split {calls : List (Call ι)} {w : World ι} {pre post : List (Request ι)}
    {r : Request ι} (hrun : Run World.Step World.fresh calls w)
    (hreq : calls.map Call.request = pre ++ r :: post) :
    ∃ before c v v', Run World.Step World.fresh before v ∧ before.map Call.request = pre ∧
      World.Step v c v' ∧ c.request = r := by
  obtain ⟨before, rest, rfl, hpre, hrest⟩ := List.map_eq_append_iff.mp hreq
  obtain ⟨c, after, rfl, hc, -⟩ := List.map_eq_cons_iff.mp hrest
  rw [show before ++ c :: after = (before ++ [c]) ++ after by simp] at hrun
  obtain ⟨v', hrun', -⟩ := Run.append_iff.mp hrun
  obtain ⟨v, hv, hs⟩ := Run.snoc_iff.mp hrun'
  exact ⟨before, c, v, v', hv, hpre, hs, hc⟩

/-- **Exactly when every allocation of a run returns.** -/
theorem all_return_iff {rs : List (Request ι)} (hinit : InitFirst rs) :
    AllReturn rs ↔ AlwaysCanAlloc rs := by
  constructor
  · intro hp pre m s post heq before v hv hpre
    obtain ⟨calls, w, hrun, hreq⟩ := hp
    obtain rfl := heq
    obtain ⟨before', c, v₁, v', hv₁, hpre', hs, hc⟩ := Run.request_split hrun hreq
    obtain ⟨rfl, rfl⟩ := Run.deterministic hv hv₁ (hpre.trans hpre'.symm)
      World.Step.deterministic
    have hpos := cap_pos_of_init hv (mem_init_of_map (hpre ▸ hinit pre m s post rfl))
    cases c with
    | init k => exact absurd hc nofun
    | allocString k s' h =>
        obtain ⟨rfl, rfl⟩ := Request.allocString.inj hc
        obtain ⟨p, hr, -⟩ := hs.of_allocString
        exact (allocReturns_iff hpos s').mp ⟨h, p, hr⟩
  · intro hcan
    -- the requests are answered one by one, from the front
    suffices hpre : ∀ pre post, rs = pre ++ post → AllReturn pre from hpre rs [] (by simp)
    intro pre
    induction pre using List.reverseRecOn with
    | nil => exact fun _ _ => ⟨[], World.fresh, Run.nil, rfl⟩
    | append_singleton pre r ih =>
        intro post hrs
        have hsplit : rs = pre ++ r :: post := by simpa using hrs
        obtain ⟨calls, w, hrun, hreq⟩ := ih (r :: post) hsplit
        suffices hnext : ∃ c w', World.Step w c w' ∧ c.request = r by
          obtain ⟨c, w', hs, hc⟩ := hnext
          exact ⟨calls ++ [c], w', hrun.snoc hs, by simp [hreq, hc]⟩
        cases r with
        | init m => exact ⟨.init m, _, .init rfl, rfl⟩
        | allocString m s =>
            have hpos := cap_pos_of_init hrun
              (mem_init_of_map (hreq ▸ hinit pre m s post hsplit))
            obtain ⟨h, p, hr⟩ := (allocReturns_iff hpos s).mpr
              (hcan pre m s post hsplit calls w hrun hreq)
            exact ⟨.allocString m s h, _, .allocString hr, rfl⟩

/-- One map, allocated from twice. -/
theorem all_return_iff_one_map :
    AlwaysCanAlloc (([()].map Request.init) ++ [.allocString () [97], .allocString () [98]]) := by
  have hrun : World.run 4 World.fresh
    (([()].map Request.init) ++ [.allocString () [97], .allocString () [98]]) = _ := rfl
  exact (all_return_iff (initFirst_of_front (by simp))).mp
    ⟨_, _, World.run_sound hrun⟩

/-- Fill one map, then let another one outgrow it. -/
def outgrown : List (Request Bool) :=
  [false, true].map Request.init ++
    (List.replicate 3 (.allocString false [97]) ++ List.replicate 4 (.allocString true [98]))

/-- **A full map is searched for ever** once another map has moved `last` beyond its
table: `outgrown` leaves `last = 4` and the map `false` full with four slots. -/
theorem full_map_never_returns :
    ¬ ∀ rs : List (Request Bool), InitFirst rs →
      (∀ m s, .allocString m s ∈ rs → s ≠ []) → AllReturn rs := by
  intro hall
  obtain ⟨calls, w, hrun, hreq⟩ := hall (outgrown ++ [.allocString false [99]])
    (by
      rw [outgrown, List.append_assoc]
      refine initFirst_of_front fun m s _ => ?_
      cases m <;> simp)
    (by
      intro m s hmem
      simp only [outgrown, List.replicate, List.map_cons, List.map_nil, List.cons_append,
        List.nil_append, List.mem_cons, Request.allocString.injEq, reduceCtorEq,
        List.not_mem_nil, or_false, false_or] at hmem
      rcases hmem with ⟨-, rfl⟩ | ⟨-, rfl⟩ | ⟨-, rfl⟩ | ⟨-, rfl⟩ | ⟨-, rfl⟩ | ⟨-, rfl⟩ | ⟨-, rfl⟩ |
        ⟨-, rfl⟩ <;> simp)
  obtain ⟨before, c, v, v', hv, hpre, hs, hc⟩ := Run.request_split hrun hreq
  -- the run up to here is the one `World.run` computes
  have hstuck : (World.run 20 World.fresh outgrown).map
      (fun x => decide (CanAlloc (x.2.pkg false))) = some false := by
    decide +kernel
  obtain ⟨⟨before', v₁⟩, hex, hcan⟩ := Option.map_eq_some_iff.mp hstuck
  obtain ⟨hv₁, hpre'⟩ := World.run_sound hex
  obtain ⟨rfl, rfl⟩ := Run.deterministic hv hv₁ (hpre.trans hpre'.symm)
    World.Step.deterministic
  cases c with
  | init k => exact absurd hc nofun
  | allocString k s h =>
      obtain ⟨rfl, rfl⟩ := Request.allocString.inj hc
      obtain ⟨p, hr, -⟩ := hs.of_allocString
      have hpos := cap_pos_of_init (m := false) hv
        (mem_init_of_map (hpre ▸ by simp [outgrown]))
      exact absurd ((allocReturns_iff hpos _).mp ⟨h, p, hr⟩) (by simpa using hcan)

end Codelib.Hhash
