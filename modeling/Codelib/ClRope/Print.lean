import Mathlib.Data.List.Nodup
import Codelib.ClRope.Rope

/-!
# Codelib.ClRope.Print

**Printing a rope prints its leaves from left to right** — exactly if no leaf string
sits at an address whose low byte is zero (`prints_iff`).

`print_rope` decides by `leaf` whether a node is a leaf, and `set_rope` never sets
`leaf`: it is the low byte of whatever `strdup` returned. `malloc` hands out every
address that is a multiple of 16, so for one block in sixteen that byte is zero, and
the leaf is taken for an inner node with the uninitialised children it has.
-/

namespace Codelib.ClRope

/-! ### The tag -/

@[simp] theorem Rope.setLeaf_left (s : Rope) (c : UInt8) : (s.setLeaf c).left = s.left := rfl

@[simp] theorem Rope.setLeaf_right (s : Rope) (c : UInt8) : (s.setLeaf c).right = s.right := rfl

@[simp] theorem Rope.leaf_setLeaf (s : Rope) (c : UInt8) : (s.setLeaf c).leaf = c := by
  have hmask : (0xFFFFFFFFFFFFFF00 : UInt8) = 0 := by decide
  simp [leaf, setLeaf, hmask]

theorem toUInt8_eq_zero_iff (p : Addr) : p.toUInt8 = 0 ↔ 256 ∣ p.toNat := by
  rw [← UInt8.toNat_inj, Nat.dvd_iff_mod_eq_zero]
  simp

/-! ### What a call does -/

namespace Call

/-- The variable the call fills. -/
def target : Call → Addr
  | setRope r _ _ => r
  | joinRope r _ _ => r

/-- What the variable holds afterwards. -/
def result : Call → Rope → Rope
  | setRope _ _ p, s => { s with pstr := p }
  | joinRope _ r1 r2, s => { s with left := r1, right := r2 }.setLeaf 0

/-- The block the call allocates, and the string it puts there. -/
def block : Call → Option (Addr × CString)
  | setRope _ str p => some (p, str)
  | joinRope _ _ _ => none

/-- The call has been made: its variable is filled and its string in place. -/
structure Done (c : Call) (m m' : Memory) : Prop where
  rope : m'.ropes c.target = (m.ropes c.target).map c.result
  string : ∀ b ∈ c.block, m'.heap b.1 = some (b.2.val ++ [0])

/-- Nothing but the variable and the block of the call changes. -/
structure Frame (c : Call) (m m' : Memory) : Prop where
  ropes : ∀ r, r ≠ c.target → m'.ropes r = m.ropes r
  heap : ∀ p, (∀ b ∈ c.block, p ≠ b.1) → m'.heap p = m.heap p

end Call

theorem assign_ends {m : Memory} {r : Addr} {s : Rope} {f : Rope → Rope}
    (h : m.ropes r = some s) : Ends (assign r f) m fun _ m' =>
      m' = { m with ropes := Function.update m.ropes r (some (f s)) } := by
  refine Ends.bind (Ends.get ?_)
  rw [h]
  exact Ends.set rfl

theorem Call.exec_ends (c : Call) {m : Memory} (h : (m.ropes c.target).isSome) :
    Ends c.exec m fun _ m' => c.Done m m' ∧ c.Frame m m' := by
  obtain ⟨s, hs⟩ := Option.isSome_iff_exists.mp h
  cases c with
  | setRope r str p =>
      change m.ropes r = some s at hs
      refine Ends.bind (Ends.bind (Ends.modify (Ends.pure ?_)))
      refine Ends.mono (assign_ends (s := s) ?_) ?_
      · exact hs
      intro _ m' heq
      obtain rfl := heq
      refine ⟨⟨?_, ?_⟩, ⟨?_, ?_⟩⟩
      · simp [target, result, hs]
      · simp [block]
      · intro r' hr'
        exact Function.update_of_ne hr' _ _
      · intro p' hp'
        exact Function.update_of_ne (hp' (p, str) rfl) _ _
  | joinRope r r1 r2 =>
      change m.ropes r = some s at hs
      refine Ends.bind ((assign_ends hs).mono ?_)
      intro _ m₁ heq
      obtain rfl := heq
      refine Ends.bind ((assign_ends (Function.update_self ..)).mono ?_)
      intro _ m₂ heq
      obtain rfl := heq
      refine (assign_ends (Function.update_self ..)).mono ?_
      intro _ m₃ heq
      obtain rfl := heq
      refine ⟨⟨?_, ?_⟩, ⟨?_, fun _ _ => rfl⟩⟩
      · simp [target, result, hs]
      · simp [block]
      · intro r' hr'
        simp [Function.update_of_ne (show r' ≠ r from hr')]

/-! ### Building -/

/-- The blocks of different calls are different ones. -/
theorem nodup_block_cons {c : Call} {cs : List Call}
    (h : (((c :: cs).filterMap Call.block).map Prod.fst).Nodup) :
    (∀ b ∈ c.block, b.1 ∉ (cs.filterMap Call.block).map Prod.fst) ∧
      ((cs.filterMap Call.block).map Prod.fst).Nodup := by
  cases hb : c.block with
  | none =>
      rw [List.filterMap_cons_none hb] at h
      exact ⟨nofun, h⟩
  | some b =>
      rw [List.filterMap_cons_some hb, List.map_cons, List.nodup_cons] at h
      refine ⟨fun b' hb' => ?_, h.2⟩
      obtain rfl := Option.some.inj hb'
      exact h.1

theorem not_mem_block_cons {c : Call} {cs : List Call} {p : Addr}
    (h : p ∉ ((c :: cs).filterMap Call.block).map Prod.fst) :
    (∀ b ∈ c.block, p ≠ b.1) ∧ p ∉ (cs.filterMap Call.block).map Prod.fst := by
  cases hb : c.block with
  | none =>
      rw [List.filterMap_cons_none hb] at h
      exact ⟨nofun, h⟩
  | some b =>
      rw [List.filterMap_cons_some hb, List.map_cons, List.mem_cons, not_or] at h
      refine ⟨fun b' hb' => ?_, h.2⟩
      obtain rfl := Option.some.inj hb'
      exact h.1

/-- After the calls every one of them is done, whatever came before and after it: no
two fill the same variable or get the same block. -/
theorem build_ends : ∀ {calls : List Call} {m : Memory}, (calls.map Call.target).Nodup →
    ((calls.filterMap Call.block).map Prod.fst).Nodup →
    (∀ c ∈ calls, (m.ropes c.target).isSome) →
    Ends (build calls) m fun _ m' => (∀ c ∈ calls, c.Done m m') ∧
      (∀ r ∉ calls.map Call.target, m'.ropes r = m.ropes r) ∧
      ∀ p ∉ (calls.filterMap Call.block).map Prod.fst, m'.heap p = m.heap p := by
  intro calls
  induction calls with
  | nil =>
      intro m _ _ _
      exact Ends.pure ⟨fun c hc => absurd hc List.not_mem_nil, fun _ _ => rfl, fun _ _ => rfl⟩
  | cons c cs ih =>
      intro m htargets hblocks hvars
      rw [List.map_cons, List.nodup_cons] at htargets
      obtain ⟨hfresh, htargets⟩ := htargets
      obtain ⟨hnew, hblocks⟩ := nodup_block_cons hblocks
      refine Ends.bind ((c.exec_ends (hvars c List.mem_cons_self)).mono ?_)
      intro _ m₁ h
      obtain ⟨hdone, hframe⟩ := h
      -- the variables of the other calls are as they were
      have hother : ∀ d ∈ cs, m₁.ropes d.target = m.ropes d.target := by
        intro d hd
        refine hframe.ropes _ fun heq => hfresh ?_
        exact heq ▸ List.mem_map_of_mem hd
      refine (ih htargets hblocks fun d hd => ?_).mono ?_
      · rw [hother d hd]
        exact hvars d (List.mem_cons_of_mem c hd)
      intro _ m' h
      obtain ⟨hdones, hropes, hheap⟩ := h
      refine ⟨fun d hd => ?_, fun r hr => ?_, fun p hp => ?_⟩
      · rcases List.mem_cons.mp hd with rfl | hd
        · refine ⟨by rw [hropes _ hfresh, hdone.rope], fun b hb => ?_⟩
          rw [hheap _ (hnew b hb), hdone.string b hb]
        · obtain ⟨hrope, hstring⟩ := hdones d hd
          exact ⟨by rw [hrope, hother d hd], hstring⟩
      · rw [List.map_cons, List.mem_cons, not_or] at hr
        rw [hropes r hr.2, hframe.ropes r hr.1]
      · obtain ⟨hc, hp⟩ := not_mem_block_cons hp
        rw [hheap p hp, hframe.heap p hc]

namespace Tree

theorem calls_target (t : Tree) : (t.calls.map Call.target).Perm t.vars := by
  induction t with
  | leaf r str p => exact List.Perm.refl _
  | join r t₁ t₂ ih₁ ih₂ =>
      simp only [calls, vars, List.map_append, List.map_cons, List.map_nil]
      exact (List.perm_append_singleton _ _).trans ((ih₁.append ih₂).cons r)

theorem calls_block (t : Tree) : (t.calls.filterMap Call.block).map Prod.fst = t.blocks := by
  induction t with
  | leaf r str p => rfl
  | join r t₁ t₂ ih₁ ih₂ =>
      simp [calls, blocks, Call.block, List.filterMap_append, ih₁, ih₂]

/-- Every node of the tree has been made. -/
def Made (t : Tree) (m m' : Memory) : Prop := ∀ c ∈ t.calls, c.Done m m'

variable {t t₁ t₂ : Tree} {m m' : Memory} {r : Addr}

theorem Made.join_left (h : (join r t₁ t₂).Made m m') : t₁.Made m m' :=
  fun c hc => h c (by simp [calls, hc])

theorem Made.join_right (h : (join r t₁ t₂).Made m m') : t₂.Made m m' :=
  fun c hc => h c (by simp [calls, hc])

/-- An inner node points to its operands and is tagged as one. -/
theorem Made.join_rope (h : (join r t₁ t₂).Made m m') {s : Rope} (hs : m.ropes r = some s) :
    m'.ropes r = some ({ s with left := t₁.root, right := t₂.root }.setLeaf 0) := by
  have hdone := h (.joinRope r t₁.root t₂.root) (by simp [calls])
  simpa [Call.target, Call.result, hs] using hdone.rope

theorem Made.leaf_rope {str : CString} {p : Addr} (h : (leaf r str p).Made m m') {s : Rope}
    (hs : m.ropes r = some s) : m'.ropes r = some { s with pstr := p } := by
  have hdone := h (.setRope r str p) (by simp [calls])
  simpa [Call.target, Call.result, hs] using hdone.rope

theorem Made.leaf_heap {str : CString} {p : Addr} (h : (leaf r str p).Made m m') :
    m'.heap p = some (str.val ++ [0]) :=
  (h (.setRope r str p) (by simp [calls])).string (p, str) rfl

/-- However the calls are ordered, the tree is made. -/
theorem made_of_build {calls : List Call} (ht : t.Legal) (hcalls : calls.Perm t.calls)
    (hvars : ∀ r ∈ t.vars, (m.ropes r).isSome) : Ends (build calls) m fun _ m' => t.Made m m' := by
  have htargets : (calls.map Call.target).Perm t.vars :=
    (hcalls.map _).trans t.calls_target
  have hblocks : ((calls.filterMap Call.block).map Prod.fst).Perm t.blocks := by
    rw [← t.calls_block]
    exact (hcalls.filterMap _).map _
  refine (build_ends (htargets.nodup_iff.mpr ht.vars_nodup)
    (hblocks.nodup_iff.mpr ht.blocks_nodup) fun c hc => ?_).mono ?_
  · exact hvars _ (htargets.mem_iff.mp (List.mem_map_of_mem hc))
  · intro _ m' h c hc
    obtain ⟨hdone, -⟩ := h
    exact hdone c (hcalls.mem_iff.mpr hc)

end Tree

/-! ### Printing -/

theorem CString.takeWhile_terminated (str : CString) :
    (str.val ++ [0]).takeWhile (· ≠ 0) = str.val := by
  have hall : ∀ b ∈ str.val, decide (b ≠ 0) = true := by
    intro b hb
    refine decide_eq_true fun h0 => str.property ?_
    exact h0 ▸ hb
  rw [List.takeWhile_append_of_pos hall]
  simp

theorem printRope_of_leaf {m : Memory} {r : Addr} {s : Rope} (hr : r ≠ 0)
    (hs : m.ropes r = some s) (hl : s.leaf ≠ 0) (fuel : Nat) :
    printRope m (fuel + 1) r = printString m s.pstr := by
  rw [printRope, if_neg hr, hs]
  exact if_pos hl

theorem printRope_of_join {m : Memory} {r : Addr} {s : Rope} (hr : r ≠ 0)
    (hs : m.ropes r = some s) (hl : s.leaf = 0) (fuel : Nat) :
    printRope m (fuel + 1) r =
      (do printRope m fuel s.left; printRope m fuel s.right) := by
  rw [printRope, if_neg hr, hs]
  exact if_neg (not_not_intro hl)

section Print

variable {t : Tree} {m m' : Memory}

/-- One leaf, taken for what it is. -/
theorem printRope_leaf {r : Addr} {str : CString} {p : Addr} (h : (Tree.leaf r str p).Made m m')
    (hr : r ≠ 0) {s : Rope} (hs : m.ropes r = some s) (hp : p.toUInt8 ≠ 0) (fuel : Nat)
    (out : List UInt8) :
    Ends (printRope m' (fuel + 1) r) out fun _ out' => out' = out ++ str.val := by
  rw [printRope_of_leaf hr (h.leaf_rope hs) hp]
  unfold printString
  rw [h.leaf_heap]
  refine Ends.modify ?_
  rw [CString.takeWhile_terminated]

/-- A rope whose leaves are all taken for what they are is printed in full. -/
theorem printRope_ends (hmade : t.Made m m')
    (hvars : ∀ r ∈ t.vars, r ≠ 0 ∧ (m.ropes r).isSome)
    (hleaf : ∀ p ∈ t.blocks, p.toUInt8 ≠ 0) : ∀ (fuel : Nat) (out : List UInt8), t.height < fuel →
    Ends (printRope m' fuel t.root) out fun _ out' => out' = out ++ t.string := by
  induction t with
  | leaf r str p =>
      intro fuel out hfuel
      obtain ⟨hr, hsome⟩ := hvars r (by simp [Tree.vars])
      obtain ⟨s, hs⟩ := Option.isSome_iff_exists.mp hsome
      obtain ⟨fuel, rfl⟩ : ∃ n, fuel = n + 1 := ⟨fuel - 1, by omega⟩
      exact printRope_leaf hmade hr hs (hleaf p (by simp [Tree.blocks])) fuel out
  | join r t₁ t₂ ih₁ ih₂ =>
      intro fuel out hfuel
      obtain ⟨hr, hsome⟩ := hvars r (by simp [Tree.vars])
      obtain ⟨s, hs⟩ := Option.isSome_iff_exists.mp hsome
      obtain ⟨fuel, rfl⟩ : ∃ n, fuel = n + 1 := ⟨fuel - 1, by omega⟩
      simp only [Tree.height] at hfuel
      rw [Tree.root, printRope_of_join hr (hmade.join_rope hs) (Rope.leaf_setLeaf _ _)]
      refine Ends.bind ((ih₁ hmade.join_left (fun r' hr' => hvars r' (by simp [Tree.vars, hr']))
        (fun p hp => hleaf p (by simp [Tree.blocks, hp])) fuel out (by omega)).mono ?_)
      intro _ out₁ heq
      obtain rfl := heq
      refine (ih₂ hmade.join_right (fun r' hr' => hvars r' (by simp [Tree.vars, hr']))
        (fun p hp => hleaf p (by simp [Tree.blocks, hp])) fuel _ (by omega)).mono ?_
      intro _ out₂ heq
      obtain rfl := heq
      simp [Tree.string]

/-! ### A leaf taken for an inner node -/

/-- Variables that happen to hold their own address as `left`. -/
def selfLoops : Memory := ⟨fun r => some ⟨r, r, 0⟩, fun _ => none⟩

/-- A leaf that is taken for an inner node and points to itself is followed for ever. -/
theorem printRope_selfLoop {r : Addr} {str : CString} {p : Addr}
    (h : (Tree.leaf r str p).Made selfLoops m') (hr : r ≠ 0) (hp : p.toUInt8 = 0)
    {Q : PUnit → List UInt8 → Prop} : ∀ (fuel : Nat) (out : List UInt8),
    ¬ Ends (printRope m' fuel r) out Q := by
  intro fuel
  induction fuel generalizing Q with
  | zero =>
      intro out hex
      obtain ⟨a, out', hrun, -⟩ := hex
      exact absurd hrun nofun
  | succ fuel ih =>
      intro out hends
      rw [printRope_of_join hr (h.leaf_rope rfl) hp] at hends
      exact ih out (Ends.of_bind hends)

/-- If printing ever ends then no leaf was taken for an inner node. -/
theorem leaf_of_printRope_ends (hmade : t.Made selfLoops m') (hvars : ∀ r ∈ t.vars, r ≠ 0) :
    ∀ {fuel : Nat} {out : List UInt8} {Q : PUnit → List UInt8 → Prop},
      Ends (printRope m' fuel t.root) out Q → ∀ p ∈ t.blocks, p.toUInt8 ≠ 0 := by
  induction t with
  | leaf r str p =>
      intro fuel out Q hends q hq hzero
      obtain rfl : q = p := by simpa [Tree.blocks] using hq
      exact printRope_selfLoop hmade (hvars r (by simp [Tree.vars])) hzero fuel out hends
  | join r t₁ t₂ ih₁ ih₂ =>
      intro fuel out Q hends
      have hr := hvars r (by simp [Tree.vars])
      cases fuel with
      | zero =>
          obtain ⟨a, out', hrun, -⟩ := hends
          exact absurd hrun nofun
      | succ fuel =>
          rw [Tree.root, printRope_of_join hr (hmade.join_rope rfl) (Rope.leaf_setLeaf _ _)]
            at hends
          have hboth := Ends.of_bind hends
          obtain ⟨-, out₁, -, hends₂⟩ := Ends.of_bind hends
          intro p hp
          rcases List.mem_append.mp hp with hp | hp
          · exact ih₁ hmade.join_left (fun r' hr' => hvars r' (by simp [Tree.vars, hr'])) hboth p hp
          · exact ih₂ hmade.join_right (fun r' hr' => hvars r' (by simp [Tree.vars, hr'])) hends₂ p hp

end Print

/-! ### Exactly when a rope is printed -/

/-- Whatever the variables held before and in whatever order the calls that build the
tree are made, printing its root writes the leaf strings from left to right. -/
def PrintsConcatenation (t : Tree) : Prop :=
  ∀ (m : Memory) (calls : List Call), (∀ r ∈ t.vars, (m.ropes r).isSome) →
    calls.Perm t.calls → Ends (build calls) m fun _ m' =>
      ∃ fuel, Ends (printRope m' fuel t.root) [] fun _ out => out = t.string

/-- **Exactly when printing is concatenation**: no leaf string sits at a multiple of
256. -/
theorem prints_iff {t : Tree} (ht : t.Legal) :
    PrintsConcatenation t ↔ ∀ p ∈ t.blocks, ¬ 256 ∣ p.toNat := by
  simp only [← toUInt8_eq_zero_iff]
  constructor
  · intro h
    have hvars : ∀ r ∈ t.vars, (selfLoops.ropes r).isSome := fun _ _ => rfl
    have hbuild := Ends.and (h selfLoops t.calls hvars (List.Perm.refl _))
      (Tree.made_of_build ht (List.Perm.refl _) hvars)
    obtain ⟨-, m', -, ⟨fuel, hprint⟩, hmade⟩ := hbuild
    exact leaf_of_printRope_ends hmade ht.vars_ne_null hprint
  · intro hleaf m calls hvars hcalls
    refine (Tree.made_of_build ht hcalls hvars).mono ?_
    intro _ m' hmade
    refine ⟨t.height + 1, ?_⟩
    simpa using printRope_ends hmade (fun r hr => ⟨ht.vars_ne_null r hr, hvars r hr⟩) hleaf _ []
      (Nat.lt_succ_self _)

/-- `main`, with the blocks for `hello` and `world` at `p` and `q`. -/
def helloWorld (p q : Addr) : Tree :=
  .join 0x7FFD0060 (.leaf 0x7FFD0020 ⟨[104, 101, 108, 108, 111], by decide⟩ p)
    (.leaf 0x7FFD0040 ⟨[119, 111, 114, 108, 100], by decide⟩ q)

theorem helloWorld_legal {p q : Addr} (hne : p ≠ q) (hp : p ≠ 0 ∧ 16 ∣ p.toNat)
    (hq : q ≠ 0 ∧ 16 ∣ q.toNat) : (helloWorld p q).Legal := by
  constructor <;> simp [helloWorld, Tree.vars, Tree.blocks, hne, hp, hq]

theorem prints_iff_helloWorld : PrintsConcatenation (helloWorld 0x5512A0 0x5512C0) ↔
    ∀ p ∈ (helloWorld 0x5512A0 0x5512C0).blocks, ¬ 256 ∣ p.toNat :=
  prints_iff (helloWorld_legal (by decide) (by decide) (by decide))

/-- Variables that hold zeros. -/
def zeroed : Memory := ⟨fun _ => some ⟨0, 0, 0⟩, fun _ => none⟩

/-- **A word is lost**: with `hello` at `0x551300` and zeros in the variables `main`
prints `world`. -/
theorem hello_not_printed : ¬ ∀ t : Tree, t.Legal → PrintsConcatenation t := by
  intro hall
  obtain ⟨_, m', hbuild, fuel, _, out, hprint, hout⟩ :=
    hall (helloWorld 0x551300 0x551320)
      (helloWorld_legal (by decide) (by decide) (by decide)) zeroed _ (fun _ _ => rfl)
      (List.Perm.refl _)
  obtain ⟨-, rfl⟩ := Prod.mk.inj (Except.ok.inj hbuild)
  have hne : out ≠ [104, 101, 108, 108, 111, 119, 111, 114, 108, 100] := by
    intro heq
    obtain rfl := heq
    -- three calls below one another are enough, fewer are not
    obtain _ | _ | _ | n := fuel
    · exact absurd hprint nofun
    · exact absurd hprint nofun
    · exact absurd hprint nofun
    · exact absurd (Prod.mk.inj (Except.ok.inj hprint)).2 (by decide)
  exact hne hout

/-! ### Joining is associative -/

/-- Two ways to join three ropes print the same. -/
theorem Tree.string_join_assoc (r r' s s' : Addr) (t₁ t₂ t₃ : Tree) :
    (join r (join r' t₁ t₂) t₃).string = (join s t₁ (join s' t₂ t₃)).string :=
  List.append_assoc _ _ _

end Codelib.ClRope
