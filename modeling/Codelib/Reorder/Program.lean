import Mathlib.Algebra.Group.Nat.Defs
import Mathlib.Tactic.Common
import Codelib.Core.Run
import Codelib.Core.StoreBuffer

/-!
# Codelib.Reorder.Program

The three threads of `c/reorder/reorder.c`, as a program over shared memory.

`main` resets `X` and `Y`, lets the two routines run one round — each stores to its
own variable and reads the other's — and then looks at what they read. Rounds are
separated by two barriers (`sync_thread`), one on the counter `start` and one on
`end`. Every access to a global variable is one instruction; `pthread_create` waits
for the stores of its caller like a fence does, since POSIX has it synchronise
memory.

Two fields of `Local` are ghosts that no instruction depends on: `passed` counts the
barriers a thread has passed, and `iter` counts the rounds of a routine (in `main` it
is the variable `i`). `i` and `detected` are `int` in the source; no step depends on
them, so they are natural numbers here.
-/

namespace Codelib.Reorder

open StoreBuffer (Instr Model Event State)

/-- The global variables. -/
inductive Var
  | X
  | Y
  | r1
  | r2
  | start
  | «end»
  deriving Repr, DecidableEq

inductive Routine
  | one
  | two
  deriving Repr, DecidableEq

inductive Thread
  | main
  | routine (r : Routine)
  deriving Repr, DecidableEq

/-- Where a thread is: the instruction it performs next. -/
inductive Pc
  -- `sync_thread(&start)` and `sync_thread(&end)`
  | arriveStart
  | spinStart
  | arriveEnd
  | spinEnd
  -- `main`
  | zeroStart
  | zeroEnd
  | create1
  | create2
  | resetX
  | resetY
  | testR1
  | testR2
  | report
  -- the routines
  | notCreated
  | storeOwn
  | fence
  | loadOther
  | storeR
  deriving Repr, DecidableEq

/-- `int` and `unsigned long` values. -/
abbrev Val := Nat

/-- The local state of a thread; `reg` is the value it loaded on its way to `r1` or
`r2`. -/
structure Local where
  pc : Pc
  reg : Val
  iter : Nat
  passed : Nat
  detected : Nat
  deriving Repr, DecidableEq

abbrev Ins := Instr Thread Var Val Local

/-! ### `sync_thread` -/

def nthr : Nat := 3

/-- `__sync_fetch_and_add(flag, 1)`. -/
def arrive (flag : Var) (l : Local) : Ins :=
  .rmw flag (fun v => (v + 1) % 2 ^ 64) fun _ => l

/-- One look at the counter; the thread goes on from `l'` if it need not wait. -/
def spin (flag : Var) (l l' : Local) : Ins :=
  .load flag fun v => if v % nthr ≠ 0 then l else { l' with passed := l.passed + 1 }

/-! ### The threads -/

/-- `thread_routine1` and `thread_routine2`: store to `own`, read `other` into `res`. -/
def threadRoutine (useCpuFence : Bool) (own other res : Var) (l : Local) : Option Ins :=
  match l.pc with
  | .arriveStart => some (arrive .start { l with pc := .spinStart })
  | .spinStart => some (spin .start l { l with pc := .storeOwn })
  | .storeOwn => some (.store own 1 { l with pc := .fence })
  | .fence =>
    if useCpuFence then
      -- Prevent CPU reordering
      some (.fence { l with pc := .loadOther })
    else
      -- Prevent compiler reordering
      some (.skip { l with pc := .loadOther })
  | .loadOther => some (.load other fun v => { l with pc := .storeR, reg := v })
  | .storeR => some (.store res l.reg { l with pc := .arriveEnd })
  | .arriveEnd => some (arrive .«end» { l with pc := .spinEnd })
  | .spinEnd => some (spin .«end» l { l with pc := .arriveStart, iter := l.iter + 1 })
  | _ => none

def threadRoutine1 (useCpuFence : Bool) : Local → Option Ins :=
  threadRoutine useCpuFence .X .Y .r1

def threadRoutine2 (useCpuFence : Bool) : Local → Option Ins :=
  threadRoutine useCpuFence .Y .X .r2

/-- A routine comes to life. -/
def create (l : Local) : Local := { l with pc := .arriveStart }

/-- `main`. -/
def mainThread (l : Local) : Option Ins :=
  match l.pc with
  | .zeroStart => some (.store .start 0 { l with pc := .zeroEnd })
  | .zeroEnd => some (.store .«end» 0 { l with pc := .create1 })
  | .create1 => some (.spawn (.routine .one) create { l with pc := .create2 })
  | .create2 => some (.spawn (.routine .two) create { l with pc := .resetX })
  -- Reset X and Y
  | .resetX => some (.store .X 0 { l with pc := .resetY })
  | .resetY => some (.store .Y 0 { l with pc := .arriveStart })
  -- Signal both threads
  | .arriveStart => some (arrive .start { l with pc := .spinStart })
  | .spinStart => some (spin .start l { l with pc := .arriveEnd })
  -- Wait for both threads
  | .arriveEnd => some (arrive .«end» { l with pc := .spinEnd })
  | .spinEnd => some (spin .«end» l { l with pc := .testR1 })
  -- Check if there was a simultaneous reorder
  | .testR1 => some (.load .r1 fun v =>
      if v = 0 then { l with pc := .testR2 } else { l with pc := .resetX, iter := l.iter + 1 })
  | .testR2 => some (.load .r2 fun v =>
      if v = 0 then { l with pc := .report } else { l with pc := .resetX, iter := l.iter + 1 })
  | .report => some (.skip
      { l with pc := .resetX, iter := l.iter + 1, detected := l.detected + 1 })
  | _ => none

def program (useCpuFence : Bool) : Thread → Local → Option Ins
  | .main => mainThread
  | .routine .one => threadRoutine1 useCpuFence
  | .routine .two => threadRoutine2 useCpuFence

/-! ### Runs -/

abbrev World := State Thread Var Val Local

/-- Global variables start at zero, and only `main` runs. -/
def init : World where
  loc
    | .main => ⟨.zeroStart, 0, 1, 0, 0⟩
    | .routine _ => ⟨.notCreated, 0, 1, 0, 0⟩
  mem _ := 0
  buf _ := []

abbrev Ev := Event Thread Local

/-- The step does not wrap a counter round to zero. -/
def NoWrap (s : World) : Ev → Prop
  | .issue _ l => (l.pc = .arriveStart → s.mem .start + 1 < 2 ^ 64) ∧
      (l.pc = .arriveEnd → s.mem .«end» + 1 < 2 ^ 64)
  | .flush _ => True

instance (s : World) (e : Ev) : Decidable (NoWrap s e) := by
  cases e <;> unfold NoWrap <;> infer_instance

/-- One step of the three threads, short of a counter that wraps. -/
def next (useCpuFence : Bool) (m : Model) (s : World) (e : Ev) : Option World :=
  if NoWrap s e then s.exec m (program useCpuFence) e else none

def Step (useCpuFence : Bool) (m : Model) (s : World) (e : Ev) (s' : World) : Prop :=
  next useCpuFence m s e = some s'

end Codelib.Reorder
