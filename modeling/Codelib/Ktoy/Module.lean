import Codelib.Core.Ledger
import Codelib.Core.Run

/-!
# Codelib.Ktoy.Module

Loading and unloading `kmod/ktoy/ktoy.c`, and **when nothing is left behind**
(`clean_iff`).

`ktoy_init` gives back nothing when it fails, so the device number stays allocated if the class
cannot be created, and so does the character device, which leads to a module that is gone. That
`cdev_add` or `device_create` fails is not noticed, and does no harm: `ktoy_exit` takes down what is
there.

The kernel loads the module if it is not loaded and `ktoy_init` returns 0, and it unloads one that is
loaded.
-/

namespace Codelib.Ktoy

open Ledger

inductive Kind
  | region
  | cdev
  | cls
  | device
  deriving Repr, DecidableEq

/-- What the `n`-th call of `ktoy_init` has obtained. -/
structure Item where
  n : Nat
  kind : Kind
  deriving Repr, DecidableEq

/-- A character device has a number, and a device has that number and a class. -/
def Kind.needs : Kind → Kind → Bool
  | .cdev, .region | .device, .region | .device, .cls => true
  | _, _ => false

def Item.needs (j i : Item) : Prop := j.n = i.n ∧ j.kind.needs i.kind

/-- The error numbers of the calls of `ktoy_init`; 0 is a success. -/
structure Answers where
  allocChrdevRegion : Nat
  cdevAdd : Nat
  classCreate : Nat
  deviceCreate : Nat
  deriving Repr, DecidableEq

/-- What an answer says about the thing that was to be obtained. -/
def taken (n : Nat) (kind : Kind) (err : Nat) : List (Entry Item) :=
  if err = 0 then [.take ⟨n, kind⟩] else []

/-- `cdev_del` and `device_destroy` do nothing if there is nothing. -/
def given (n : Nat) (kind : Kind) (err : Nat) : List (Entry Item) :=
  if err = 0 then [.give ⟨n, kind⟩] else []

/-- `ktoy_init`: `retval`, and what it obtains. -/
def ktoyInit (n : Nat) (a : Answers) : Int × List (Entry Item) :=
  if a.allocChrdevRegion ≠ 0 then (-a.allocChrdevRegion, [])
  else
    let t := [.take ⟨n, .region⟩] ++ taken n .cdev a.cdevAdd
    -- class_create failed
    if a.classCreate ≠ 0 then (-a.classCreate, t)
    else (0, t ++ [.take ⟨n, .cls⟩] ++ taken n .device a.deviceCreate)

/-- `ktoy_exit`, where `ktoy_init` got the answers `a`. -/
def ktoyExit (n : Nat) (a : Answers) : List (Entry Item) :=
  given n .cdev a.cdevAdd ++ given n .device a.deviceCreate ++
    [.give ⟨n, .cls⟩, .give ⟨n, .region⟩]

/-- The kernel: the module that is loaded, how often `ktoy_init` was called, and what was obtained
and given back. -/
structure Kernel where
  loaded : Option (Nat × Answers)
  inits : Nat
  ledger : List (Entry Item)

def Kernel.start : Kernel := ⟨none, 0, []⟩

inductive Ev
  | insmod (a : Answers)
  | rmmod
  deriving Repr, DecidableEq

namespace Kernel

def exec (k : Kernel) : Ev → Option Kernel
  | .insmod a =>
    if k.loaded.isNone then
      let r := ktoyInit k.inits a
      some ⟨if r.1 = 0 then some (k.inits, a) else none, k.inits + 1, k.ledger ++ r.2⟩
    else none
  | .rmmod => k.loaded.map fun m => ⟨none, k.inits, k.ledger ++ ktoyExit m.1 m.2⟩

def Step (k : Kernel) (ev : Ev) (k' : Kernel) : Prop := k.exec ev = some k'

end Kernel

/-! ### What is held -/

/-- The thing is there, if `err` is 0. -/
def obtained (n : Nat) (kind : Kind) (err : Nat) : List Item := if err = 0 then [⟨n, kind⟩] else []

/-- What a loaded module holds. -/
def items (n : Nat) (a : Answers) : List Item :=
  obtained n .device a.deviceCreate ++ (⟨n, .cls⟩ :: (obtained n .cdev a.cdevAdd ++ [⟨n, .region⟩]))

def Kernel.items (k : Kernel) : List Item := (k.loaded.map fun m => Ktoy.items m.1 m.2).getD []

/-- The device number is there, but not the class. -/
def Answers.Stranded (a : Answers) : Prop := a.allocChrdevRegion = 0 ∧ a.classCreate ≠ 0

variable {t : List (Entry Item)} {l : List Item} {n err : Nat} {kind : Kind} {a : Answers}

theorem keeps_taken (n : Nat) (kind : Kind) (err : Nat) (h : Keeps Item.needs t l) :
    Keeps Item.needs (t ++ taken n kind err) (obtained n kind err ++ l) := by
  unfold taken obtained
  by_cases herr : err = 0
  · rw [if_pos herr, if_pos herr]
    exact h.take
  · rw [if_neg herr, if_neg herr, List.append_nil]
    exact h

theorem not_needs_self : ¬ Item.needs ⟨n, kind⟩ ⟨n, kind⟩ := by
  intro h
  obtain ⟨-, h⟩ := h
  cases kind <;> exact absurd h nofun

theorem keeps_give (pre : List Item) (h : Keeps Item.needs t (pre ++ ⟨n, kind⟩ :: l)) (hpre : ⟨n, kind⟩ ∉ pre)
    (hfree : ∀ j ∈ pre ++ l, ¬ Item.needs j ⟨n, kind⟩) :
    Keeps Item.needs (t ++ [.give ⟨n, kind⟩]) (pre ++ l) := by
  have hgive := h.give (i := ⟨n, kind⟩) (by simp) fun j hj => ?_
  · rwa [List.erase_append_right _ hpre, List.erase_cons_head] at hgive
  · rcases List.mem_append.mp hj with hj | hj
    · exact hfree j (List.mem_append_left l hj)
    · rcases List.mem_cons.mp hj with rfl | hj
      · exact not_needs_self
      · exact hfree j (List.mem_append_right pre hj)

theorem keeps_given (pre : List Item) (h : Keeps Item.needs t (pre ++ (obtained n kind err ++ l)))
    (hpre : ⟨n, kind⟩ ∉ pre) (hfree : ∀ j ∈ pre ++ l, ¬ Item.needs j ⟨n, kind⟩) :
    Keeps Item.needs (t ++ given n kind err) (pre ++ l) := by
  unfold obtained at h
  unfold given
  by_cases herr : err = 0
  · rw [if_pos herr] at h ⊢
    exact keeps_give pre h hpre hfree
  · rw [if_neg herr, List.nil_append] at h
    rwa [if_neg herr, List.append_nil]

/-! ### Loading and unloading -/

theorem ktoyInit_fst_iff : (ktoyInit n a).1 = 0 ↔ a.allocChrdevRegion = 0 ∧ a.classCreate = 0 := by
  unfold ktoyInit
  split
  · case isTrue h => simp [h]
  · case isFalse h =>
      split
      · case isTrue hc => simp [hc]
      · case isFalse hc => simp [not_not.mp h, not_not.mp hc]

/-- A module that is loaded holds all its things. -/
theorem keeps_ktoyInit (h : Keeps Item.needs t l) (hret : (ktoyInit n a).1 = 0) :
    Keeps Item.needs (t ++ (ktoyInit n a).2) (items n a ++ l) := by
  obtain ⟨hregion, hcls⟩ := ktoyInit_fst_iff.mp hret
  have hcdev := keeps_taken n .cdev a.cdevAdd (h.take (i := ⟨n, .region⟩))
  have hdevice := keeps_taken n .device a.deviceCreate (hcdev.take (i := ⟨n, .cls⟩))
  unfold ktoyInit items
  rw [if_neg (not_not_intro hregion)]
  dsimp only
  rw [if_neg (not_not_intro hcls)]
  simpa only [List.append_assoc, List.cons_append, List.nil_append] using hdevice

/-- What a call of `ktoy_init` that fails leaves behind. -/
def leftover (n : Nat) (a : Answers) : List Item :=
  if a.allocChrdevRegion = 0 then obtained n .cdev a.cdevAdd ++ [⟨n, .region⟩] else []

theorem keeps_ktoyInit_ne (h : Keeps Item.needs t l) (hret : (ktoyInit n a).1 ≠ 0) :
    Keeps Item.needs (t ++ (ktoyInit n a).2) (leftover n a ++ l) := by
  unfold ktoyInit leftover
  by_cases hregion : a.allocChrdevRegion = 0
  · have hcls : a.classCreate ≠ 0 := fun hcls => hret (ktoyInit_fst_iff.mpr ⟨hregion, hcls⟩)
    have hcdev := keeps_taken n .cdev a.cdevAdd (h.take (i := ⟨n, .region⟩))
    rw [if_neg (not_not_intro hregion), if_pos hregion]
    dsimp only
    rw [if_pos hcls]
    simpa only [List.append_assoc, List.cons_append, List.nil_append] using hcdev
  · rw [if_pos hregion, if_neg hregion]
    simpa using h

theorem leftover_eq_nil_iff (hret : (ktoyInit n a).1 ≠ 0) : leftover n a = [] ↔ ¬ a.Stranded := by
  unfold leftover Answers.Stranded
  by_cases hregion : a.allocChrdevRegion = 0
  · have hcls : a.classCreate ≠ 0 := fun hcls => hret (ktoyInit_fst_iff.mpr ⟨hregion, hcls⟩)
    simp [hregion, hcls]
  · simp [hregion]

theorem mem_obtained {i : Item} (h : i ∈ obtained n kind err) : i = ⟨n, kind⟩ := by
  unfold obtained at h
  split at h
  · exact List.mem_singleton.mp h
  · exact absurd h List.not_mem_nil

theorem mem_leftover {i : Item} (h : i ∈ leftover n a) : i.n = n := by
  unfold leftover at h
  split at h
  · rcases List.mem_append.mp h with h | h
    · rw [mem_obtained h]
    · rw [List.mem_singleton.mp h]
  · exact absurd h List.not_mem_nil

/-- `ktoy_exit` gives everything back, each thing in its turn. -/
theorem keeps_ktoyExit (h : Keeps Item.needs t (items n a ++ l)) (hl : ∀ i ∈ l, i.n ≠ n) :
    Keeps Item.needs (t ++ ktoyExit n a) l := by
  have hfree (kind : Kind) (front : List Item) (hfront : ∀ j ∈ front, ¬ j.needs ⟨n, kind⟩) :
      ∀ j ∈ front ++ l, ¬ j.needs ⟨n, kind⟩ := by
    intro j hj
    rcases List.mem_append.mp hj with hj | hj
    · exact hfront j hj
    · exact fun hneeds => hl j hj hneeds.1
  have hnobody (kind : Kind) (hkind : kind = .cdev ∨ kind = .device) (j : Item) :
      ¬ j.needs ⟨n, kind⟩ := by
    rintro ⟨-, hneeds⟩
    rcases hkind with rfl | rfl <;> cases hj : j.kind <;> rw [hj] at hneeds <;>
      exact absurd hneeds Bool.false_ne_true
  have hcdev : Keeps Item.needs (t ++ given n .cdev a.cdevAdd)
      (obtained n .device a.deviceCreate ++ [⟨n, .cls⟩] ++ (⟨n, .region⟩ :: l)) := by
    refine keeps_given _ (by simpa [items] using h) ?_ fun j _ => hnobody _ (.inl rfl) j
    intro hmem
    rcases List.mem_append.mp hmem with hmem | hmem
    · exact absurd (congrArg Item.kind (mem_obtained hmem)) nofun
    · exact absurd (congrArg Item.kind (List.mem_singleton.mp hmem)) nofun
  rw [List.append_assoc] at hcdev
  have hdevice := keeps_given [] hcdev List.not_mem_nil fun j _ => hnobody _ (.inr rfl) j
  have hcls := keeps_give [] hdevice List.not_mem_nil (hfree .cls [⟨n, .region⟩] fun j hj => ?_)
  · have hregion := keeps_give [] hcls List.not_mem_nil (hfree .region [] nofun)
    simpa [ktoyExit] using hregion
  · rw [List.mem_singleton.mp hj]
    rintro ⟨-, hneeds⟩
    exact absurd hneeds Bool.false_ne_true

/-! ### Runs -/

/-- The things of the loaded module are held, and those in `left`, which nothing gives back. -/
structure Inv (k : Kernel) (evs : List Ev) (left : List Item) : Prop where
  keeps : Keeps Item.needs k.ledger (k.items ++ left)
  loaded : ∀ m ∈ k.loaded, ∀ i ∈ left, i.n ≠ m.1
  lt : ∀ i ∈ left, i.n < k.inits
  left : left = [] ↔ ∀ a, .insmod a ∈ evs → ¬ a.Stranded

variable {k k' : Kernel} {evs : List Ev} {left : List Item} {ev : Ev}

theorem forall_insmod_append :
    (∀ b, .insmod b ∈ evs ++ [Ev.insmod a] → ¬ b.Stranded) ↔
      (∀ b, .insmod b ∈ evs → ¬ b.Stranded) ∧ ¬ a.Stranded := by
  constructor
  · intro h
    exact ⟨fun b hb => h b (List.mem_append_left _ hb), h a (by simp)⟩
  · intro h b hb
    rcases List.mem_append.mp hb with hb | hb
    · exact h.1 b hb
    · obtain rfl : b = a := by simpa using hb
      exact h.2

theorem Inv.step (h : Inv k evs left) (hs : k.Step ev k') : ∃ left', Inv k' (evs ++ [ev]) left' := by
  unfold Kernel.Step at hs
  cases ev with
  | rmmod =>
      obtain ⟨⟨n, a⟩, hm, rfl⟩ := Option.map_eq_some_iff.mp hs
      have hkeeps := h.keeps
      rw [Kernel.items, hm] at hkeeps
      refine ⟨left, keeps_ktoyExit hkeeps (h.loaded _ hm), nofun, h.lt, ?_⟩
      rw [h.left]
      simp
  | insmod a =>
      obtain ⟨hnone, hs⟩ := Option.ite_none_right_eq_some.mp hs
      obtain rfl := Option.some.inj hs
      have hkeeps := h.keeps
      rw [Kernel.items, Option.isNone_iff_eq_none.mp hnone, Option.map_none, Option.getD_none,
        List.nil_append] at hkeeps
      by_cases hret : (ktoyInit k.inits a).1 = 0
      · have hnot : ¬ a.Stranded := fun hs => hs.2 (ktoyInit_fst_iff.mp hret).2
        refine ⟨left, ?_, ?_, fun i hi => Nat.lt_succ_of_lt (h.lt i hi), ?_⟩
        · rw [Kernel.items, if_pos hret]
          exact keeps_ktoyInit hkeeps hret
        · intro m hm
          rw [if_pos hret] at hm
          obtain rfl := Option.some.inj hm
          exact fun i hi => Nat.ne_of_lt (h.lt i hi)
        · rw [h.left, forall_insmod_append, and_iff_left hnot]
      · refine ⟨leftover k.inits a ++ left, ?_, ?_, fun i hi => ?_, ?_⟩
        · rw [Kernel.items, if_neg hret]
          exact keeps_ktoyInit_ne hkeeps hret
        · rw [if_neg hret]
          exact nofun
        · rcases List.mem_append.mp hi with hi | hi
          · exact Nat.lt_succ_of_le (Nat.le_of_eq (mem_leftover hi))
          · exact Nat.lt_succ_of_lt (h.lt i hi)
        · rw [List.append_eq_nil_iff, h.left, leftover_eq_nil_iff hret, forall_insmod_append, and_comm]

theorem inv_of_run (h : Run Kernel.Step .start evs k) : ∃ left, Inv k evs left := by
  induction h with
  | nil => exact ⟨[], .nil, nofun, nofun, iff_of_true rfl nofun⟩
  | snoc hr hs ih =>
      obtain ⟨left, hinv⟩ := ih
      exact hinv.step hs

end Codelib.Ktoy
