import Mathlib.Tactic.Common

/-!
# Codelib.Renum.Macros

The macros of `c/include/csnip_renum.h`, which make an enumeration and its decoder from a table,
and the meaning of what they expand to.

* A macro gives a list of tokens. `RENUM_MAP0`, `RENUM_MAP1` and so on are one function; with
  too few rows a macro lacks arguments.
* `table(RENUM_EXPAND)` puts the rows behind one another, so the arguments are taken in threes.
* The names of enumerators are kept apart from the names which the decoder uses itself.

A string is what stands in front of its NUL, so `strcmp` tells any two apart.
-/

namespace Codelib.Renum

/-! ### Preprocessing -/

inductive Token
  | enumerator (name : String)
  | literal (value : String)
  | number (n : Nat)
  | str
  | strcmp
  | null
  | eq
  | question
  | colon
  | comma
  | lpar
  | rpar
  deriving Repr, DecidableEq

open Token

/-- A row `ENTRY(a, b, c)` of a table. -/
structure Row where
  a : String
  b : String
  c : List Token
  deriving Repr, DecidableEq

/-- A macro with the parameters `prefix, a, b, c, tail`. -/
abbrev Handler := String → Row → List Token → List Token

/-- `RENUM_MAPn`: `m` for the first rows and `m1` for the last. -/
def renumMap (m m1 : Handler) (pre : String) : Nat → List Row → Option (List Token)
  | 0, _ => some []
  | 1, r :: rows => (renumMap m m1 pre 0 rows).map (m1 pre r)
  | n + 2, r :: rows => (renumMap m m1 pre (n + 1) rows).map (m pre r)
  | _ + 1, [] => none

def renumJoinPrefix1 : Handler := fun pre r tail => [enumerator (pre ++ r.a), comma] ++ tail

def renumJoinPrefix : Handler := fun pre r tail => [enumerator (pre ++ r.a), comma] ++ tail

/-- `RENUM_DEF`, between the braces. -/
def renumDef (n : Nat) (pre : String) (table : List Row) : Option (List Token) :=
  renumMap renumJoinPrefix renumJoinPrefix1 pre n table

def renumLast1 : Handler := fun pre r _ => [lpar, enumerator (pre ++ r.a), rpar]

def renumLast : Handler := fun _ _ tail => tail

def renumEnd (n : Nat) (pre : String) (table : List Row) : Option (List Token) :=
  renumMap renumLast renumLast1 pre n table

def renumCond1 : Handler := fun pre r _ => [lpar, enumerator (pre ++ r.a), rpar]

def renumCond : Handler := fun pre r tail =>
  [lpar, lpar, strcmp, lpar, str, comma, literal r.b, rpar, eq, number 0, rpar, question,
    enumerator (pre ++ r.a), colon] ++ tail ++ [rpar]

def renumCmp (n : Nat) (pre : String) (table : List Row) : Option (List Token) :=
  renumMap renumCond renumCond1 pre n table

/-- `RENUM_FROM_STR`, the expression that is returned. -/
def renumFromStr (n : Nat) (pre : String) (table : List Row) : Option (List Token) := do
  let last ← renumEnd n pre table
  let cmp ← renumCmp n pre table
  return [lpar, lpar, str, eq, null, rpar, question] ++ last ++ [colon] ++ cmp ++ [rpar]

/-! ### Enumerations -/

/-- The enumerators that are declared between the braces, in order; the last may be followed by a
comma. -/
def enumerators : List Token → Option (List String)
  | [] => some []
  | [enumerator x] => some [x]
  | enumerator x :: comma :: ts => (enumerators ts).map (x :: ·)
  | _ => none

/-! ### Expressions -/

inductive Cond
  | isNull
  | equals (b : String)
  deriving Repr, DecidableEq

inductive Expr
  | enumerator (name : String)
  | ite (cond : Cond) (x y : Expr)
  deriving Repr, DecidableEq

/-- A condition in parentheses, and the question mark. -/
def parseCond : List Token → Option (Cond × List Token)
  | lpar :: str :: eq :: null :: rpar :: question :: ts => some (.isNull, ts)
  | lpar :: strcmp :: lpar :: str :: comma :: literal b :: rpar :: eq :: number 0 :: rpar ::
      question :: ts => some (.equals b, ts)
  | _ => none

/-- The given token comes next. -/
def expect (t : Token) : List Token → Option (List Token)
  | [] => none
  | u :: ts => if u = t then some ts else none

/-- Read an expression from the front of the tokens. -/
def parse : Nat → List Token → Option (Expr × List Token)
  | _ + 1, enumerator x :: ts => some (.enumerator x, ts)
  | k + 1, lpar :: ts =>
    match parseCond ts with
    | some (cond, ts) => do
      let (x, ts) ← parse k ts
      let (y, ts) ← parse k (← expect colon ts)
      return (.ite cond x y, ← expect rpar ts)
    | none => do
      let (e, ts) ← parse k ts
      return (e, ← expect rpar ts)
  | _, _ => none

/-- The enumerator that an expression evaluates to, where `str` may be `NULL`; `strcmp` of `NULL` is
undefined. -/
def Expr.eval (str : Option String) : Expr → Option String
  | enumerator x => some x
  | ite .isNull x y => if str = none then x.eval str else y.eval str
  | ite (.equals b) x y => do
    let s ← str
    if s = b then x.eval str else y.eval str

/-- `__renum_name_from_str` -/
def fromStr (n : Nat) (pre : String) (table : List Row) (str : Option String) : Option String := do
  let ts ← renumFromStr n pre table
  let (e, rest) ← parse ts.length ts
  if rest = [] then e.eval str else none

/-! ### The example -/

/-- `EX_ENUM_TABLE` -/
def exEnumTable : List Row :=
  [⟨"ENT0", "ENT0", [number 0]⟩, ⟨"ENT1", "ENT1", [number 1]⟩, ⟨"ENT2", "ENT2", [number 2]⟩,
    ⟨"ENT3", "ENT3", [number 3]⟩, ⟨"ENT4", "ENT4", [number 4]⟩, ⟨"ENTMAX", "EX_ENTMAX", [number 5]⟩]

example : fromStr 6 "EX_" exEnumTable (some "ENT3") = some "EX_ENT3" := by decide +kernel

end Codelib.Renum
