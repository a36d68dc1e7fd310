import Mathlib.Logic.Function.Basic
import Codelib.Core.Prog

/-!
# Codelib.ClRope.Rope

The ropes of `c/cl_rope`: `struct rope` variables that point to one another and, at
the leaves, to strings on the heap.

```
struct rope { struct rope *left; struct rope *right;
              union { char *pstr; char leaf; }; };
```

The `char` `leaf` and the pointer `pstr` **share their storage**. On a
little-endian machine `leaf` is the low byte of `pstr` (`Rope.leaf`), and assigning
to `leaf` leaves the other seven bytes as they were (`Rope.setLeaf`).

`set_rope` and `join_rope` change the memory; `print_rope` only reads it and writes
to the standard output. What `strdup` returns is up to the allocator, so `set_rope`
takes that address as an argument.
-/

namespace Codelib.ClRope

/-- A pointer. -/
abbrev Addr := UInt64

/-- `struct rope`; `pstr` is the union read as a pointer. -/
structure Rope where
  left : Addr
  right : Addr
  pstr : Addr
  deriving Repr, DecidableEq

/-- `r->leaf`: the byte of the union at the lowest address. -/
def Rope.leaf (r : Rope) : UInt8 := r.pstr.toUInt8

/-- `r->leaf = c`. -/
def Rope.setLeaf (r : Rope) (c : UInt8) : Rope :=
  { r with pstr := (r.pstr &&& 0xFFFFFFFFFFFFFF00) ||| c.toUInt64 }

/-- A string of C without its terminator. -/
abbrev CString := { bs : List UInt8 // 0 ∉ bs }

/-- The `struct rope` variables, and the blocks `malloc` has handed out. -/
structure Memory where
  ropes : Addr → Option Rope
  heap : Addr → Option (List UInt8)

/-- A pointer to neither a variable nor a block was followed. -/
inductive Fault
  | wild (p : Addr)
  deriving Repr, DecidableEq

/-! ### Building -/

/-- Assign to fields of `*r`. -/
def assign (r : Addr) (f : Rope → Rope) : Prog Memory Fault PUnit := do
  let m ← get
  match m.ropes r with
  | some s => set { m with ropes := Function.update m.ropes r (some (f s)) }
  | none => fail (.wild r)

/-- `strdup`, with the block at `p`. -/
def strdup (str : CString) (p : Addr) : Prog Memory Fault Addr := do
  modify fun m => { m with heap := Function.update m.heap p (some (str.val ++ [0])) }
  return p

/-- `set_rope`; `strdup` returns `p`. -/
def setRope (r : Addr) (str : CString) (p : Addr) : Prog Memory Fault PUnit := do
  let p ← strdup str p
  assign r fun s => { s with pstr := p }

def joinRope (r r1 r2 : Addr) : Prog Memory Fault PUnit := do
  assign r fun s => { s with left := r1 }
  assign r fun s => { s with right := r2 }
  assign r fun s => s.setLeaf 0

/-! ### Printing -/

/-- `printf("%s", p)`, onto the bytes printed so far. -/
def printString (m : Memory) (p : Addr) : Prog (List UInt8) Fault PUnit :=
  match m.heap p with
  | some bs => modify fun out => out ++ bs.takeWhile (· ≠ 0)
  | none => fail (.wild p)

/-- `print_rope`, with at most `fuel` calls below one another. -/
def printRope (m : Memory) : Nat → Addr → Prog (List UInt8) Fault PUnit
  | 0, _ => fun _ => .error .fuel
  | fuel + 1, r =>
    if r = 0 then pure ⟨⟩
    else
      match m.ropes r with
      | none => fail (.wild r)
      | some s =>
        if s.leaf ≠ 0 then printString m s.pstr
        else do
          printRope m fuel s.left
          printRope m fuel s.right

/-! ### Programs that build a tree -/

/-- A call that fills the variable at `r`. -/
inductive Call
  | setRope (r : Addr) (str : CString) (p : Addr)
  | joinRope (r r1 r2 : Addr)

def Call.exec : Call → Prog Memory Fault PUnit
  | .setRope r str p => ClRope.setRope r str p
  | .joinRope r r1 r2 => ClRope.joinRope r r1 r2

/-- Make the calls one after the other. -/
def build (calls : List Call) : Prog Memory Fault PUnit :=
  calls.forM Call.exec

/-- A rope tree: at each node the address of its variable, at each leaf also the
string and the address `strdup` returns for it. -/
inductive Tree
  | leaf (r : Addr) (str : CString) (p : Addr)
  | join (r : Addr) (t₁ t₂ : Tree)

namespace Tree

/-- `&r` of the root. -/
def root : Tree → Addr
  | leaf r _ _ => r
  | join r _ _ => r

/-- The addresses of the variables. -/
def vars : Tree → List Addr
  | leaf r _ _ => [r]
  | join r t₁ t₂ => r :: (t₁.vars ++ t₂.vars)

/-- The addresses of the strings. -/
def blocks : Tree → List Addr
  | leaf _ _ p => [p]
  | join _ t₁ t₂ => t₁.blocks ++ t₂.blocks

/-- The leaf strings from left to right. -/
def string : Tree → List UInt8
  | leaf _ str _ => str.val
  | join _ t₁ t₂ => t₁.string ++ t₂.string

/-- One call for each node, the operands of a `join_rope` first. -/
def calls : Tree → List Call
  | leaf r str p => [.setRope r str p]
  | join r t₁ t₂ => t₁.calls ++ t₂.calls ++ [.joinRope r t₁.root t₂.root]

def height : Tree → Nat
  | leaf _ _ _ => 0
  | join _ t₁ t₂ => max t₁.height t₂.height + 1

/-- What the language and `malloc` see to: the variables are different ones, and the
blocks are different ones, none of them at `NULL`, aligned to 16 bytes. -/
structure Legal (t : Tree) : Prop where
  vars_nodup : t.vars.Nodup
  vars_ne_null : ∀ r ∈ t.vars, r ≠ 0
  blocks_nodup : t.blocks.Nodup
  blocks_ne_null : ∀ p ∈ t.blocks, p ≠ 0
  blocks_aligned : ∀ p ∈ t.blocks, 16 ∣ p.toNat

end Tree

end Codelib.ClRope
