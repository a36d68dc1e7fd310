import Mathlib.Algebra.Group.Nat.Defs
import Codelib.Core.Abrupt

/-!
# Codelib.Pbar.PBar

The progress bar of `go/pbar/pbar.go`: `settotal`, `check`, `updateBar` and `Start`.

* `uint64` and `uint16` are Lean's, which wrap the same way; `int` has 64 bits.
* The channel of `Start` is the list of what is received from it until it is closed,
  and `getWindowSize` may answer anything each time it is asked, so each increment
  comes with the window size it is drawn for.
* A panic keeps the state, since what was printed and stored before it stays.
* `log` is a ghost: each operation leaves an entry when it returns, `check` also when
  `Start` made the call. No operation reads it.
-/

namespace Codelib.Pbar

/-! ### Types -/

/-- `winsize` of `sys/ioctl.h`. -/
structure Winsize where
  tsLines : UInt16
  tsCols : UInt16
  tsXxx : UInt16
  tsYyy : UInt16
  deriving Repr, DecidableEq

structure PBar where
  total : UInt64
  finish : UInt64
  termsz : Winsize
  deriving Repr, DecidableEq

/-- `PBar{}`. -/
def PBar.zero : PBar := ⟨0, 0, ⟨0, 0, 0, 0⟩⟩

structure PBarError where
  why : String
  deriving Repr, DecidableEq

inductive Panic
  | divideByZero
  | negativeRepeatCount
  deriving Repr, DecidableEq

/-- A call of one of the operations. -/
inductive Op
  | start (target : UInt64) (c : List (Winsize × UInt64))
  | settotal (target : UInt64)
  | check (inc : UInt64)
  deriving Repr, DecidableEq

/-- An operation that returned `result`. -/
structure Entry where
  op : Op
  before : PBar
  after : PBar
  result : Option PBarError
  deriving Repr, DecidableEq

/-- The bar, what has been printed, and the operations that have returned. -/
structure Proc where
  bar : PBar
  out : List Char
  log : List Entry
  deriving Repr, DecidableEq

/-- A process that has done nothing to a zero `PBar` yet. -/
def Proc.fresh : Proc := ⟨.zero, [], []⟩

abbrev M := Abrupt Panic Proc

/-! ### Library functions -/

/-- `int(x)`. -/
def toInt (x : UInt64) : Int := if x.toNat < 2 ^ 63 then x.toNat else (x.toNat : Int) - 2 ^ 64

/-- `strings.Repeat`. -/
def stringsRepeat (s : List Char) (count : Int) : M (List Char) :=
  if count < 0 then throw .negativeRepeatCount else pure (List.replicate count.toNat s).flatten

/-- `fmt.Print`. -/
def fmtPrint (s : List Char) : M PUnit := modify fun p => { p with out := p.out ++ s }

/-- The digits of `n`, after a sign. -/
def decimal (n : Int) : List Char :=
  if n < 0 then '-' :: Nat.toDigits 10 n.natAbs else Nat.toDigits 10 n.natAbs

/-- `%*d`. -/
def padded (width : Nat) (n : Int) : List Char := (decimal n).leftpad width ' '

/-! ### The operations -/

def barBox : UInt16 := 3
def percent : UInt16 := 5
def fraction : UInt16 := 24
def minw : UInt16 := barBox + percent + fraction

/-- Assign to fields of `bar`. -/
def assign (f : PBar → PBar) : M PUnit := modify fun p => { p with bar := f p.bar }

/-- Run the body of `op` and log what it returns. -/
def logged (op : Op) (body : M (Option PBarError)) : M (Option PBarError) := do
  let before := (← get).bar
  let result ← body
  modify fun p => { p with log := p.log ++ [⟨op, before, p.bar, result⟩] }
  return result

/-- `updateBar`; its fall back to text mode does nothing. -/
def updateBar : M PUnit := do
  let bar := (← get).bar
  if bar.total = 0 then
    throw .divideByZero
  let bw := bar.finish * (bar.termsz.tsCols - minw).toUInt64 / bar.total
  let done ← stringsRepeat ['='] (toInt bw)
  let rest ← stringsRepeat [' '] (bar.termsz.tsCols - minw - bw.toUInt16).toNat
  -- percentage number includes the '%' and a space
  fmtPrint (['\r'] ++ padded (percent - 2).toNat (toInt (bar.finish * 100 / bar.total)) ++
    ['%', ' '] ++ ['['] ++ done ++ ['>'] ++ rest ++ [']'])
  if bar.finish = bar.total then
    fmtPrint ['\n']

def settotal (target : UInt64) : M (Option PBarError) := logged (.settotal target) do
  if target < (← get).bar.finish then
    return some ⟨"total is less than finish"⟩
  assign fun bar => { bar with total := target }
  return none

def check (inc : UInt64) : M (Option PBarError) := logged (.check inc) do
  assign fun bar => { bar with finish := bar.finish + inc }
  let bar := (← get).bar
  if bar.finish > bar.total then
    return some ⟨"Task already done"⟩
  updateBar
  return none

/-- The body of the loop in `Start`, which ignores what `check` returns. -/
def receive (x : Winsize × UInt64) : M PUnit := do
  assign fun bar => { bar with termsz := x.1 }
  let _ ← check x.2

def start (target : UInt64) (c : List (Winsize × UInt64)) : M (Option PBarError) :=
  logged (.start target c) do
    assign fun bar => { bar with total := target }
    c.forM receive
    return none

def Op.exec : Op → M (Option PBarError)
  | .start target c => Pbar.start target c
  | .settotal target => Pbar.settotal target
  | .check inc => Pbar.check inc

/-- Make the calls one after the other, until one of them panics. -/
def runOps (ops : List Op) : M PUnit := ops.forM fun op => do let _ ← op.exec

end Codelib.Pbar
