import Mathlib.Algebra.Group.Nat.Defs
import Mathlib.Algebra.Group.Int.Defs
import Codelib.Core.Prog

/-!
# Codelib.Qsort.Uclibc

`uclibc_qsort` and `cmp` of `c/cl_qsort.c`, on bytes.

* Memory is a function from offsets to bytes; `base` is offset 0, and offsets from
  `nel * width` on are whatever lies behind the array.
* `size_t` values are `Nat`s below `2 ^ 64` and every operation on them is taken
  modulo `2 ^ 64`, as C has it. Nothing is checked: whether an operation wrapped,
  whether a division by 3 was exact and which bytes were touched is read off the
  `log` the operations leave behind.
* The comparator may do anything a C function can: it sees the memory and its two
  pointers, keeps a state of its own and may answer inconsistently.
* `passes` records each gap together with the memory its pass left, for the
  statements about the passes. Neither it nor `log` is ever read by the code.
-/

namespace Codelib.Qsort

/-- `(size_t)(-1)`. -/
def sizeMax : Nat := 2 ^ 64 - 1

/-- What an operation on `size_t` values or on memory did. -/
inductive Event
  | add (x y : Nat)
  | sub (x y : Nat)
  | mul (x y : Nat)
  | divThree (x : Nat)
  | load (off : Nat)
  | store (off : Nat)
  /-- The comparator is given the `width` bytes at `off`. -/
  | record (off width : Nat)
  deriving Repr, DecidableEq

/-- Memory from `base` on. -/
abbrev Mem := Nat → UInt8

/-- The state of a call; the most recent event and the most recent pass come first. -/
structure Machine (σ : Type) where
  mem : Mem
  cmpState : σ
  log : List Event
  passes : List (Nat × Mem)

/-- `assert` failed. -/
inductive Fault
  | assertion
  deriving Repr, DecidableEq

/-- The comparator: a C function of two pointers, with a state of its own. -/
abbrev Comparator (σ : Type) := σ → Mem → Nat → Nat → Int × σ

variable {σ : Type}

abbrev M (σ α : Type) := Prog (Machine σ) Fault α

/-! ### `size_t` and memory operations -/

/-- Append to the log. -/
def Machine.note (s : Machine σ) (e : Event) : Machine σ := { s with log := e :: s.log }

def add (x y : Nat) : M σ Nat := fun s => .ok ((x + y) % 2 ^ 64, s.note (.add x y))

def sub (x y : Nat) : M σ Nat := fun s => .ok ((x + 2 ^ 64 - y) % 2 ^ 64, s.note (.sub x y))

def mul (x y : Nat) : M σ Nat := fun s => .ok (x * y % 2 ^ 64, s.note (.mul x y))

/-- `x / 3`, where the code relies on `x` being a multiple of 3. -/
def divThree (x : Nat) : M σ Nat := fun s => .ok (x / 3, s.note (.divThree x))

/-- `*p` -/
def load (off : Nat) : M σ UInt8 := fun s => .ok (s.mem off, s.note (.load off))

/-- `*p = b` -/
def store (off : Nat) (b : UInt8) : M σ PUnit := fun s =>
  .ok (⟨⟩, { s with mem := Function.update s.mem off b }.note (.store off))

/-- `(*comp)(a, b)`, which reads the records of `width` bytes at `a` and `b`. -/
def compare (comp : Comparator σ) (width a b : Nat) : M σ Int := fun s =>
  .ok ((comp s.cmpState s.mem a b).1,
    ({ s with cmpState := (comp s.cmpState s.mem a b).2 }.note (.record a width)).note
      (.record b width))

/-- The pass over gap `wgap` is over. -/
def endPass (wgap : Nat) : M σ PUnit := fun s =>
  .ok (⟨⟩, { s with passes := (wgap, s.mem) :: s.passes })

/-! ### `uclibc_qsort` -/

/-- `wgap = 3 * wgap + 1; … while (wgap < (nel-1)/3)` -/
def gapBody (nel wgap : Nat) : M σ (Nat ⊕ Nat) := do
  let wgap ← add (← mul 3 wgap) 1
  if wgap < (← sub nel 1) / 3 then
    pure (.inl wgap)
  else
    pure (.inr wgap)

/-- `tmp = *a; *a++ = *b; *b++ = tmp; … while (--k)` -/
def swapBody (v : Nat × Nat × Nat) : M σ ((Nat × Nat × Nat) ⊕ PUnit) := do
  let (a, b, k) := v
  let tmp ← load a
  store a (← load b)
  let a ← add a 1
  store b tmp
  let b ← add b 1
  let k ← sub k 1
  if k ≠ 0 then
    pure (.inl (a, b, k))
  else
    pure (.inr ⟨⟩)

/-- The innermost comparison loop: sift the record at `j` down in steps of `wgap`. -/
def siftBody (fuel : Nat) (comp : Comparator σ) (width wgap j : Nat) : M σ (Nat ⊕ PUnit) := do
  let j ← sub j wgap
  let a := j
  let b ← add a wgap
  if (← compare comp width a b) ≤ 0 then
    pure (.inr ⟨⟩)
  else
    loop swapBody fuel (a, b, width)
    if j ≥ wgap then
      pure (.inl j)
    else
      pure (.inr ⟨⟩)

/-- One record of a pass; `nel` is the array size in bytes by now. -/
def sweepBody (fuel : Nat) (comp : Comparator σ) (nel width wgap i : Nat) : M σ (Nat ⊕ PUnit) := do
  let j := i
  loop (siftBody fuel comp width wgap) fuel j
  let i ← add i width
  if i < nel then
    pure (.inl i)
  else
    pure (.inr ⟨⟩)

/-- One pass, and the gap of the next one. -/
def passBody (fuel : Nat) (comp : Comparator σ) (nel width wgap : Nat) : M σ (Nat ⊕ PUnit) := do
  loop (sweepBody fuel comp nel width wgap) fuel wgap
  endPass wgap
  let wgap ← divThree (← sub wgap width)
  if wgap ≠ 0 then
    pure (.inl wgap)
  else
    pure (.inr ⟨⟩)

/-- `uclibc_qsort(base, nel, width, comp)`, each loop having `fuel` rounds. -/
def uclibcQsort (fuel nel width : Nat) (comp : Comparator σ) : M σ PUnit := do
  if nel > 1 ∧ width > 0 then
    -- check for overflow
    if nel ≤ sizeMax / width then
      let wgap ← loop (gapBody nel) fuel 0
      let wgap ← mul wgap width
      let nel ← mul nel width
      loop (passBody fuel comp nel width) fuel wgap
    else
      fail .assertion
  else
    pure ⟨⟩

/-- A call starts with nothing logged. -/
def start (mem : Mem) (cmpState : σ) : Machine σ :=
  { mem, cmpState, log := [], passes := [] }

/-! ### Records and comparators -/

/-- The `width` bytes at `off`. -/
def bytesAt (mem : Mem) (off width : Nat) : List UInt8 :=
  (List.range width).map fun k => mem (off + k)

/-- Record `i` of the array. -/
def record (mem : Mem) (width i : Nat) : List UInt8 := bytesAt mem (i * width) width

/-- The array, record by record. -/
def records (mem : Mem) (nel width : Nat) : List (List UInt8) :=
  (List.range nel).map (record mem width)

/-- The comparator that applies `f` to the two records. -/
def ofRecords (width : Nat) (f : List UInt8 → List UInt8 → Int) : Comparator PUnit :=
  fun _ mem a b => (f (bytesAt mem a width) (bytesAt mem b width), ⟨⟩)

/-- `*(unsigned int *)p`, on a little-endian machine. -/
def readUInt (mem : Mem) (p : Nat) : Nat :=
  (mem p).toNat + 2 ^ 8 * (mem (p + 1)).toNat + 2 ^ 16 * (mem (p + 2)).toNat +
    2 ^ 24 * (mem (p + 3)).toNat

/-- An `unsigned int` converted to `int`. -/
def toInt (x : Nat) : Int := if x < 2 ^ 31 then x else (x : Int) - 2 ^ 32

/-- `cmp`, as the preprocessor leaves it for either value of `WRONG_CMP`. -/
def cmp (wrongCmp : Bool) : Comparator PUnit := fun _ mem a b =>
  let aa := readUInt mem a
  let bb := readUInt mem b
  if wrongCmp then
    -- It's wrong to simply return the *aa - *bb
    (toInt ((aa + 2 ^ 32 - bb) % 2 ^ 32), ⟨⟩)
  else if aa > bb then
    (1, ⟨⟩)
  else if aa = bb then
    (0, ⟨⟩)
  else
    (-1, ⟨⟩)

end Codelib.Qsort
