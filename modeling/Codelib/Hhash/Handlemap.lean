import Mathlib.Algebra.Group.Nat.Defs
import Codelib.Core.Prog
import Codelib.Core.Run

/-!
# Codelib.Hhash.Handlemap

The **handle table** of `go/hhash/hhash.go`: `Handlemap`, `Init` and
`AllocString`, as the Go code computes them.

* `last` is a *package* variable, so a method call sees it next to its receiver:
  `Pkg` is that pair, and `World` is the whole process — one `last` and any number
  of maps. A method of one map runs in a `World` by `World.call`.
* The search loop of `AllocString` is `for { … }`; its body is `searchBody` and it
  runs under `loop`, so a search that never ends is one no fuel suffices for.
* An index expression out of range and a division by zero panic in Go; both are
  faults here.
* `make([]string, n)` gives a slice whose length and capacity are both `n`, and
  nothing else builds a `tab`, so `cap(hm.tab)` is the length of the list.
* `int` is `Nat`: every length is that of a table that exists in memory, and `make`
  crashes long before one overflows; `last` is 0 or was an index into some table.
-/

namespace Codelib.Hhash

/-- A Go string: its bytes. -/
abbrev GoString := List UInt8

/-- The runtime panics the code could raise. -/
inductive Panic
  | indexOutOfRange
  | divideByZero
  deriving Repr, DecidableEq

/-- `type Handlemap struct`. A map that was never `Init`-ed has the nil slice. -/
structure Handlemap where
  tab : List GoString
  deriving Repr, DecidableEq

/-- What a method call sees: the package variable `last` and its receiver. -/
structure Pkg where
  last : Nat
  hm : Handlemap
  deriving Repr, DecidableEq

/-- `make([]string, n)`: `n` empty strings. -/
def make (n : Nat) : List GoString := List.replicate n []

/-- `cap(hm.tab)`. -/
def Handlemap.cap (hm : Handlemap) : Nat := hm.tab.length

/-- `Init`. It does not touch `last`. -/
def init : Prog Pkg Panic PUnit :=
  modify fun p => { p with hm := { tab := make 4 } }

/-- `for i, j := range tab { newmap[i] = j }`. -/
def copyTab (tab newmap : List GoString) : List GoString :=
  tab.zipIdx.foldl (fun acc ji => acc.set ji.2 ji.1) newmap

/-- The closure `next_wrap`. -/
def nextWrap (next size : Nat) : Nat := (next + 1) % size

/-- One round of the search loop, over the local variables `next` and `size`. -/
def searchBody (s : GoString) (v : Nat × Nat) : Prog Pkg Panic ((Nat × Nat) ⊕ Nat) := do
  let (next, size) := v
  let p ← get
  -- don't allow 0, use 0 to be an invalid id
  if next = 0 then
    pure (.inl (nextWrap next size, size))
  -- if already wrap around, double length
  else if next = p.last then
    let newmap := copyTab p.hm.tab (make (p.hm.cap * 2))
    set { p with hm := { tab := newmap } }
    let size := newmap.length
    pure (.inl (nextWrap next size, size))
  else
    match p.hm.tab[next]? with
    | none => fail .indexOutOfRange
    | some old =>
        if old ≠ [] then
          pure (.inl (nextWrap next size, size))
        else
          set { p with hm := { tab := p.hm.tab.set next s } }
          pure (.inr next)

/-- `AllocString`, with `fuel` rounds for its search loop. -/
def allocString (fuel : Nat) (s : GoString) : Prog Pkg Panic Nat := do
  let p ← get
  let size := p.hm.cap
  if size = 0 then
    fail .divideByZero
  else
    let next := (p.last + 1) % size
    let next ← loop (searchBody s) fuel (nextWrap next size, size)
    modify fun p => { p with last := next }
    pure next

/-- The call `AllocString(s)` made in `p` returns `h` and leaves `p'`. -/
def AllocReturns (p : Pkg) (s : GoString) (h : Nat) (p' : Pkg) : Prop :=
  ∃ fuel, allocString fuel s p = .ok (h, p')

/-! ### The process -/

variable {ι : Type} [DecidableEq ι]

/-- A process that uses the package: its variable `last` and the maps in use. -/
structure World (ι : Type) where
  last : Nat
  maps : ι → Handlemap

/-- A fresh process: `last` is 0 and no map was `Init`-ed. -/
def World.fresh : World ι := { last := 0, maps := fun _ => { tab := [] } }

/-- What a call on the map `m` sees. -/
def World.pkg (w : World ι) (m : ι) : Pkg := { last := w.last, hm := w.maps m }

/-- Write back what a call on the map `m` left. -/
def World.put (w : World ι) (m : ι) (p : Pkg) : World ι :=
  { last := p.last, maps := Function.update w.maps m p.hm }

/-- A finished call: `Init` on a map, or `AllocString` on a map with the handle it
returned. -/
inductive Call (ι : Type)
  | init (m : ι)
  | allocString (m : ι) (s : GoString) (h : Nat)
  deriving Repr, DecidableEq

/-- A call to be made. -/
inductive Request (ι : Type)
  | init (m : ι)
  | allocString (m : ι) (s : GoString)
  deriving Repr, DecidableEq

/-- The request a finished call answers. -/
def Call.request : Call ι → Request ι
  | .init m => .init m
  | .allocString m s _ => .allocString m s

/-- One call made in the process, from its entry to its return. -/
inductive World.Step : World ι → Call ι → World ι → Prop
  | init {w : World ι} {m : ι} {p : Pkg} :
      Hhash.init (w.pkg m) = .ok (⟨⟩, p) → World.Step w (.init m) (w.put m p)
  | allocString {w : World ι} {m : ι} {s : GoString} {h : Nat} {p : Pkg} :
      AllocReturns (w.pkg m) s h p → World.Step w (.allocString m s h) (w.put m p)

end Codelib.Hhash
