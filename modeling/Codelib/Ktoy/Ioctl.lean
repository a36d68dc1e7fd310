import Mathlib.Tactic.Common

/-!
# Codelib.Ktoy.Ioctl

`ktoy_ioctl` of `kmod/ktoy/ktoy.c`, and **when a failed call leaves the device value alone**
(`all_proper_iff`).

* A command is 32 bits wide, with its fields where the generic `ioctl.h` has them. An `int` is
  its 32 bits.
* What the kernel knows of user memory is in the parameters: `access_ok` looks at the range of
  an address only, and a `Call` says what is found at the address itself.
* `VERIFY_Write` is read as `VERIFY_WRITE`. What is printed is left out.

`__get_user` is given the device value itself to store to, and on a page fault it stores zero.
-/

namespace Codelib.Ktoy

def efault : Int := 14

def enotty : Int := 25

/-! ### Commands -/

abbrev Cmd := BitVec 32

def iocWrite : Cmd := 1

def iocRead : Cmd := 2

/-- `_IOC` -/
def ioc (dir type nr size : Cmd) : Cmd := dir <<< 30 ||| size <<< 16 ||| type <<< 8 ||| nr

/-- `_IOC_NR` -/
def iocNr (cmd : Cmd) : Cmd := cmd &&& 0xff

/-- `_IOC_TYPE` -/
def iocType (cmd : Cmd) : Cmd := (cmd >>> 8) &&& 0xff

/-- `_IOC_SIZE` -/
def iocSize (cmd : Cmd) : Cmd := (cmd >>> 16) &&& 0x3fff

/-- `_IOC_DIR` -/
def iocDir (cmd : Cmd) : Cmd := (cmd >>> 30) &&& 3

def ktoyIocMagic : Cmd := 0xCA

/-- `_IOW(KTOY_IOC_MAGIC, 1, int)` -/
def ktoyIocSet : Cmd := ioc iocWrite ktoyIocMagic 1 4

/-- `_IOR(KTOY_IOC_MAGIC, 2, int)` -/
def ktoyIocGet : Cmd := ioc iocRead ktoyIocMagic 2 4

def ktoyIocMaxnr : Cmd := 2

/-! ### User memory -/

inductive Verify
  | read
  | write
  deriving Repr, DecidableEq

/-- A call, and the user memory it finds. -/
structure Call where
  cmd : Cmd
  arg : BitVec 64
  /-- The int at `arg`, unless reading it faults. -/
  word : Option (BitVec 32)
  /-- Storing to `arg` does not fault. -/
  writable : Bool
  deriving Repr, DecidableEq

/-- What a call returns and leaves behind. -/
structure Result where
  retval : Int
  ktoyVal : BitVec 32
  /-- The int that was stored to user memory. -/
  toUser : Option (BitVec 32)
  deriving Repr, DecidableEq

/-- `__get_user(x, p)`: the result and the new `x`. -/
def getUser (word : Option (BitVec 32)) : Int × BitVec 32 :=
  match word with
  | some x => (0, x)
  | none => (-efault, 0)

/-- `__put_user(x, p)`: the result and what is stored. -/
def putUser (x : BitVec 32) (writable : Bool) : Int × Option (BitVec 32) :=
  if writable then (0, some x) else (-efault, none)

/-! ### The handler -/

section Handler

variable (accessOk : Verify → BitVec 64 → Nat → Bool)

/-- The user space pointer is wrong; nothing is verified for a command without a direction. -/
def pointerErr (c : Call) : Bool :=
  if iocDir c.cmd &&& iocWrite ≠ 0 then !accessOk .read c.arg (iocSize c.cmd).toNat
  else if iocDir c.cmd &&& iocRead ≠ 0 then !accessOk .write c.arg (iocSize c.cmd).toNat
  else false

/-- `switch(cmd)` -/
def dispatch (ktoyVal : BitVec 32) (c : Call) : Result :=
  if c.cmd = ktoyIocSet then ⟨(getUser c.word).1, (getUser c.word).2, none⟩
  else if c.cmd = ktoyIocGet then
    ⟨(putUser ktoyVal c.writable).1, ktoyVal, (putUser ktoyVal c.writable).2⟩
  else ⟨0, ktoyVal, none⟩

def ktoyIoctl (ktoyVal : BitVec 32) (c : Call) : Result :=
  -- make sure the command belongs to this module
  if iocType c.cmd ≠ ktoyIocMagic then ⟨-enotty, ktoyVal, none⟩
  -- make sure command number is in valid range
  else if iocNr c.cmd > ktoyIocMaxnr then ⟨-enotty, ktoyVal, none⟩
  else if pointerErr accessOk c then ⟨-efault, ktoyVal, none⟩
  else dispatch ktoyVal c

/-- A call in the course of a run. -/
structure Step where
  before : BitVec 32
  call : Call
  result : Result
  deriving Repr, DecidableEq

/-- The calls of a run, one after the other. -/
def trace : BitVec 32 → List Call → List Step
  | _, [] => []
  | ktoyVal, c :: calls =>
    let result := ktoyIoctl accessOk ktoyVal c
    ⟨ktoyVal, c, result⟩ :: trace result.ktoyVal calls

/-! ### What is asked of a call -/

/-- Only a `KTOY_IOC_SET` that returns 0 changes the value, to what is read from user memory, and
an error leaves it. -/
structure Step.Proper (s : Step) : Prop where
  changed : s.result.ktoyVal ≠ s.before → s.call.cmd = ktoyIocSet ∧ s.result.retval = 0
  stored : s.call.cmd = ktoyIocSet → s.result.retval = 0 → s.call.word = some s.result.ktoyVal
  failed : s.result.retval < 0 → s.result.ktoyVal = s.before

/-- Not a `KTOY_IOC_SET` that faults behind `access_ok` while there is a value to lose. -/
def Step.Harmless (s : Step) : Prop :=
  s.call.cmd = ktoyIocSet → accessOk .read s.call.arg 4 → s.call.word = none → s.before = 0

/-! ### One call -/

variable {accessOk} {ktoyVal : BitVec 32} {c : Call}

/-- A `KTOY_IOC_SET` gets through all checks but `access_ok`. -/
theorem ktoyIoctl_set (h : c.cmd = ktoyIocSet) :
    ktoyIoctl accessOk ktoyVal c =
      if accessOk .read c.arg 4 then ⟨(getUser c.word).1, (getUser c.word).2, none⟩
      else ⟨-efault, ktoyVal, none⟩ := by
  have htype : ¬ iocType c.cmd ≠ ktoyIocMagic := by
    rw [h]
    decide
  have hnr : ¬ iocNr c.cmd > ktoyIocMaxnr := by
    rw [h]
    decide
  have hdir : iocDir c.cmd &&& iocWrite ≠ 0 := by
    rw [h]
    decide
  have hsize : (iocSize c.cmd).toNat = 4 := by
    rw [h]
    decide
  rw [ktoyIoctl, if_neg htype, if_neg hnr, pointerErr, if_pos hdir, hsize, dispatch, if_pos h]
  cases accessOk .read c.arg 4 with
  | false => rfl
  | true => rfl

/-- No other command stores to the device value. -/
theorem ktoyVal_ktoyIoctl (h : c.cmd ≠ ktoyIocSet) :
    (ktoyIoctl accessOk ktoyVal c).ktoyVal = ktoyVal := by
  rw [ktoyIoctl, dispatch, if_neg h]
  split_ifs
  all_goals rfl

/-- A call that leaves the value alone and is no successful `KTOY_IOC_SET`. -/
theorem Step.Proper.of_eq {s : Step} (hval : s.result.ktoyVal = s.before)
    (h : s.call.cmd = ktoyIocSet → s.result.retval ≠ 0) : s.Proper where
  changed hne := absurd hval hne
  stored hset hret := absurd hret (h hset)
  failed _ := hval

theorem proper_ktoyIoctl_iff :
    (Step.mk ktoyVal c (ktoyIoctl accessOk ktoyVal c)).Proper ↔
      (Step.mk ktoyVal c (ktoyIoctl accessOk ktoyVal c)).Harmless accessOk := by
  by_cases hset : c.cmd = ktoyIocSet
  · have hfault : -efault < 0 := by decide
    have hne : -efault ≠ 0 := by decide
    rw [ktoyIoctl_set hset]
    cases haccess : accessOk .read c.arg 4 with
    | false =>
        -- the range of the address is wrong, nothing is read
        refine iff_of_true (.of_eq rfl fun _ => hne) fun _ hok => ?_
        exact absurd (haccess.symm.trans hok) Bool.false_ne_true
    | true =>
        cases hword : c.word with
        | some x =>
            refine iff_of_true ⟨fun _ => ⟨hset, rfl⟩, fun _ _ => hword, fun h => ?_⟩ fun _ _ h => ?_
            · exact absurd h (Int.lt_irrefl 0)
            · exact absurd (hword.symm.trans h) (Option.some_ne_none x)
        | none =>
            -- the call fails, and the value is zero then
            constructor
            · intro h _ _ _
              exact (h.failed hfault).symm
            · intro h
              exact .of_eq (h hset haccess hword).symm fun _ => hne
  · exact iff_of_true (.of_eq (ktoyVal_ktoyIoctl hset) fun h => absurd h hset) fun h => absurd h hset

/-! ### Runs -/

/-- The device as a register: the value behind a call. -/
def Step.register (s : Step) : BitVec 32 :=
  if s.call.cmd = ktoyIocSet ∧ s.result.retval = 0 then s.call.word.getD s.before else s.before

theorem Step.Proper.register {s : Step} (h : s.Proper) : s.result.ktoyVal = s.register := by
  rw [Step.register]
  split
  · case isTrue hset => rw [h.stored hset.1 hset.2, Option.getD_some]
  · case isFalse hset => exact not_not.mp (mt h.changed hset)

theorem result_of_mem_trace {calls : List Call} {s : Step} (h : s ∈ trace accessOk ktoyVal calls) :
    s.result = ktoyIoctl accessOk s.before s.call := by
  induction calls generalizing ktoyVal with
  | nil => exact absurd h List.not_mem_nil
  | cons c calls ih =>
      rcases List.mem_cons.mp h with rfl | h
      · rfl
      · exact ih h

theorem proper_iff_of_mem_trace {calls : List Call} {s : Step}
    (h : s ∈ trace accessOk ktoyVal calls) : s.Proper ↔ s.Harmless accessOk := by
  obtain ⟨before, call, result⟩ := s
  obtain rfl : result = ktoyIoctl accessOk before call := result_of_mem_trace h
  exact proper_ktoyIoctl_iff

/-- Without such a fault the device is a register, whatever the calls. -/
theorem ktoyVal_eq_register {calls : List Call}
    (h : ∀ s ∈ trace accessOk ktoyVal calls, s.Harmless accessOk) :
    ∀ s ∈ trace accessOk ktoyVal calls, s.result.ktoyVal = s.register := by
  intro s hs
  exact ((proper_iff_of_mem_trace hs).mpr (h s hs)).register

end Handler

/-- **When every call of a run is proper**: if and only if no `KTOY_IOC_SET` faults behind
`access_ok` while the value is not zero. -/
theorem all_proper_iff (accessOk : Verify → BitVec 64 → Nat → Bool) (ktoyVal : BitVec 32)
    (calls : List Call) :
    (∀ s ∈ trace accessOk ktoyVal calls, s.Proper) ↔
      ∀ s ∈ trace accessOk ktoyVal calls, s.Harmless accessOk :=
  forall₂_congr fun _ hs => proper_iff_of_mem_trace hs

/-- One `KTOY_IOC_SET` with an address that is not mapped, after `ktoy_init`. -/
theorem value_lost : ¬ ∀ accessOk ktoyVal calls, ∀ s ∈ trace accessOk ktoyVal calls, s.Proper := by
  intro hall
  have hproper := hall (fun _ _ _ => true) 0xdeadbeef [⟨ktoyIocSet, 0x1000, none, false⟩] _
    List.mem_cons_self
  exact absurd (hproper.failed (by decide)) (by decide)

end Codelib.Ktoy
