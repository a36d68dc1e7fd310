import Mathlib.Data.List.Basic
import Codelib.Renum.Macros

/-!
# Codelib.Renum.Decode

**The enumeration and its decoder agree** (`renum_agrees`).

All expansions come from one recursion over the rows, with a macro for the first rows and
another one for the last (`renumMap_eq`). What the decoder returns is read off its tokens: they
denote an expression (`Denotes`), which is evaluated.
-/

namespace Codelib.Renum

open Token

variable {pre : String} {front rest : List Row} {r : Row}

/-- The expansion for a table whose row `r` is the last that is taken. -/
theorem renumMap_eq (m m1 : Handler) :
    renumMap m m1 pre (front.length + 1) (front ++ r :: rest) =
      some (front.foldr (m pre) (m1 pre r [])) := by
  induction front with
  | nil => rfl
  | cons s front ih =>
      rw [List.length_cons, List.cons_append, renumMap, ih, Option.map_some, List.foldr_cons]

/-! ### The enumerators -/

theorem enumerators_renumDef :
    (renumDef (front.length + 1) pre (front ++ r :: rest)).bind enumerators =
      some ((front ++ [r]).map fun s => pre ++ s.a) := by
  rw [renumDef, renumMap_eq, Option.bind_some]
  induction front with
  | nil => rfl
  | cons s front ih =>
      rw [List.foldr_cons, renumJoinPrefix, List.cons_append, List.cons_append, List.nil_append,
        enumerators, ih]
      rfl

/-! ### The decoder -/

/-- The tokens are read as the expression, whatever follows. -/
def Denotes (ts : List Token) (e : Expr) : Prop :=
  ∀ k rest, ts.length ≤ k → parse k (ts ++ rest) = some (e, rest)

theorem denotes_enumerator (x : String) : Denotes [enumerator x] (.enumerator x) := by
  intro k rest hk
  obtain ⟨k, rfl⟩ : ∃ j, k = j + 1 := ⟨k - 1, by simp at hk; omega⟩
  rfl

theorem denotes_paren (x : String) : Denotes [lpar, enumerator x, rpar] (.enumerator x) := by
  intro k rest hk
  obtain ⟨k, rfl⟩ : ∃ j, k = j + 2 := ⟨k - 2, by simp at hk; omega⟩
  rfl

/-- The tokens of a condition. -/
def Cond.tokens : Cond → List Token
  | isNull => [lpar, str, eq, null, rpar, question]
  | equals b => [lpar, strcmp, lpar, str, comma, literal b, rpar, eq, number 0, rpar, question]

theorem parseCond_tokens (cond : Cond) (ts : List Token) :
    parseCond (cond.tokens ++ ts) = some (cond, ts) := by
  cases cond with
  | isNull => rfl
  | equals b => rfl

theorem denotes_ite (cond : Cond) {tx ty : List Token} {x y : Expr} (hx : Denotes tx x)
    (hy : Denotes ty y) :
    Denotes (lpar :: (cond.tokens ++ tx ++ [colon] ++ ty ++ [rpar])) (.ite cond x y) := by
  intro k rest hk
  obtain ⟨k, rfl⟩ : ∃ j, k = j + 1 := ⟨k - 1, by simp at hk; omega⟩
  have hlength : tx.length ≤ k ∧ ty.length ≤ k := by
    simp at hk
    omega
  have htokens : cond.tokens ++ tx ++ [colon] ++ ty ++ [rpar] ++ rest =
      cond.tokens ++ (tx ++ colon :: (ty ++ rpar :: rest)) := by simp
  rw [List.cons_append, htokens, parse, parseCond_tokens]
  simp only [hx k _ hlength.1, hy k _ hlength.2, expect, Option.bind_eq_bind, Option.bind_some,
    if_true, Option.pure_def]

/-- The comparisons of the decoder. -/
def cmpExpr (pre : String) (front : List Row) (r : Row) : Expr :=
  front.foldr (fun s e => .ite (.equals s.b) (.enumerator (pre ++ s.a)) e) (.enumerator (pre ++ r.a))

theorem denotes_renumCmp (pre : String) (front : List Row) (r : Row) :
    Denotes (front.foldr (renumCond pre) (renumCond1 pre r [])) (cmpExpr pre front r) := by
  induction front with
  | nil => exact denotes_paren _
  | cons s front ih =>
      exact denotes_ite (.equals s.b) (denotes_enumerator (pre ++ s.a)) ih

theorem foldr_renumLast (ts : List Token) : front.foldr (renumLast pre) ts = ts := by
  induction front with
  | nil => rfl
  | cons s front ih => exact ih

/-- What the decoder is, as an expression. -/
theorem fromStr_eq (str : Option String) :
    fromStr (front.length + 1) pre (front ++ r :: rest) str =
      (Expr.ite .isNull (.enumerator (pre ++ r.a)) (cmpExpr pre front r)).eval str := by
  have hdenotes :=
    denotes_ite .isNull (denotes_paren (pre ++ r.a)) (denotes_renumCmp pre front r)
  have htokens : renumFromStr (front.length + 1) pre (front ++ r :: rest) = some
      (lpar :: (Cond.isNull.tokens ++ [lpar, enumerator (pre ++ r.a), rpar] ++ [colon] ++
        front.foldr (renumCond pre) (renumCond1 pre r []) ++ [rpar])) := by
    rw [renumFromStr, renumEnd, renumCmp, renumMap_eq, renumMap_eq, foldr_renumLast]
    rfl
  have hparse := hdenotes _ [] (Nat.le_refl _)
  rw [List.append_nil] at hparse
  rw [fromStr, htokens]
  simp only [Option.bind_eq_bind, Option.bind_some, hparse, if_true]

theorem eval_cmpExpr (s : String) :
    (cmpExpr pre front r).eval (some s) =
      some (pre ++ ((front.find? fun t => t.b = s).getD r).a) := by
  induction front with
  | nil => rfl
  | cons t front ih =>
      rw [cmpExpr, List.foldr_cons, ← cmpExpr, Expr.eval, List.find?_cons]
      by_cases h : s = t.b
      · simp [h, Expr.eval]
      · simp [h, Ne.symm h, ih]

/-- The first row with the name, or else the last row. -/
theorem fromStr_some (s : String) :
    fromStr (front.length + 1) pre (front ++ r :: rest) (some s) =
      some (pre ++ ((front.find? fun t => t.b = s).getD r).a) := by
  rw [fromStr_eq, Expr.eval, if_neg (Option.some_ne_none s), eval_cmpExpr]

/-- `NULL` is never compared. -/
theorem fromStr_none :
    fromStr (front.length + 1) pre (front ++ r :: rest) none = some (pre ++ r.a) := by
  rw [fromStr_eq, Expr.eval, if_pos rfl, Expr.eval]

/-- Of distinct names, each is found in its own row. -/
theorem find?_b (h : ((front ++ [r]).map Row.b).Nodup) {t : Row} (ht : t ∈ front ++ [r]) :
    (front.find? fun s => s.b = t.b).getD r = t := by
  induction front with
  | nil => exact (List.mem_singleton.mp ht).symm
  | cons s front ih =>
      rw [List.cons_append, List.map_cons, List.nodup_cons] at h
      rw [List.find?_cons]
      rcases List.mem_cons.mp ht with rfl | ht
      · simp
      · have hne : s.b ≠ t.b := fun heq => h.1 (heq ▸ List.mem_map_of_mem ht)
        simpa [hne] using ih h.2 ht

/-- The last row that is taken, and the rows around it. -/
theorem exists_split {n : Nat} {table : List Row} (hn : 1 ≤ n) (hlen : n ≤ table.length) :
    ∃ front r rest, table = front ++ r :: rest ∧ n = front.length + 1 := by
  have hlt : n - 1 < table.length := by omega
  refine ⟨table.take (n - 1), table[n - 1], table.drop (n - 1 + 1), ?_, ?_⟩
  · rw [← List.drop_eq_getElem_cons hlt, List.take_append_drop]
  · rw [List.length_take]
    omega

/-- **The enumeration and its decoder agree**, for any table with enough rows: the enumerators are
those of the first `n` rows; a string is decoded to the first of the first `n - 1` rows with this
name, and else to the last enumerator, as `NULL` is. -/
theorem renum_agrees (pre : String) {n : Nat} (hn : 1 ≤ n) {table : List Row}
    (hlen : n ≤ table.length) :
    (renumDef n pre table).bind enumerators = some ((table.take n).map fun r => pre ++ r.a) ∧
    (∀ s, fromStr n pre table (some s) =
      some (pre ++ (((table.take (n - 1)).find? fun r => r.b = s).getD table[n - 1]).a)) ∧
    fromStr n pre table none = some (pre ++ table[n - 1].a) ∧
    (((table.take n).map Row.b).Nodup → ∀ i (hi : i < n),
      fromStr n pre table (some table[i].b) = some (pre ++ table[i].a)) := by
  obtain ⟨front, r, rest, rfl, rfl⟩ := exists_split hn hlen
  have htake : (front ++ r :: rest).take (front.length + 1) = front ++ [r] :=
    List.take_length_add_append 1
  have hfront : (front ++ r :: rest).take (front.length + 1 - 1) = front := List.take_left
  have hlast : (front ++ r :: rest)[front.length + 1 - 1] = r := List.getElem_of_append rfl rfl
  rw [htake, hfront, hlast]
  refine ⟨enumerators_renumDef, fromStr_some, fromStr_none, fun hnodup i hi => ?_⟩
  have hmem : (front ++ r :: rest)[i] ∈ front ++ [r] := by
    rw [List.getElem_take' _ hi, ← htake]
    exact List.getElem_mem _
  rw [fromStr_some, find?_b hnodup hmem]

/-- The table of the header, with all its rows. -/
theorem renum_agrees_ex :
    fromStr 6 "EX_" exEnumTable (some "ENT3") = some "EX_ENT3" ∧
      fromStr 6 "EX_" exEnumTable (some "ENTMAX") = some "EX_ENTMAX" := by
  obtain ⟨-, hfirst, -, hdistinct⟩ :=
    @renum_agrees "EX_" 6 (by decide) exEnumTable (by decide)
  exact ⟨hdistinct (by decide) 3 (by decide), hfirst "ENTMAX"⟩

end Codelib.Renum
