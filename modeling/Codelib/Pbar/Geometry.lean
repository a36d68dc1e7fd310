import Codelib.Pbar.PBar

/-!
# Codelib.Pbar.Geometry

**What `updateBar` prints, whatever wraps** (`updateBar_geometry`): 64-bit products that
wrap only get smaller, so a quotient by a total that is not below the count stays what a
frame has room for. The room is a 16-bit difference, which wraps on its own in a terminal
of less than 32 columns (`updateBar_fits_iff`).
-/

namespace Codelib.Pbar

open Abrupt

/-! ### Running -/

section Run

variable {s : Proc}

theorem fmtPrint_ok (t : List Char) :
    fmtPrint t s = (.ok ⟨⟩, { s with out := s.out ++ t }) := rfl

theorem assign_ok (f : PBar → PBar) :
    assign f s = (.ok ⟨⟩, { s with bar := f s.bar }) := rfl

theorem logged_ok {op : Op} {body : M (Option PBarError)} (r : Option PBarError) (s' : Proc)
    (h : body s = (.ok r, s')) :
    logged op body s = (.ok r, { s' with log := s'.log ++ [⟨op, s.bar, s'.bar, r⟩] }) := by
  unfold logged
  rw [bind_ok _ get_ok, bind_ok _ h]
  rfl

theorem stringsRepeat_ok {c : Char} {count : Int} (h : 0 ≤ count) :
    stringsRepeat [c] count s = (.ok (List.replicate count.toNat c), s) := by
  unfold stringsRepeat
  rw [if_neg (Int.not_lt.mpr h)]
  simp only [List.flatten_replicate_singleton]
  rfl

end Run

/-! ### Numbers in decimal -/

theorem decimal_ofNat (n : Nat) : decimal n = Nat.toDigits 10 n := by
  unfold decimal
  rw [if_neg (by omega), Int.natAbs_natCast]

/-- Up to 999 a number takes three columns. -/
theorem length_padded {n : Nat} (h : n < 1000) : (padded 3 n).length = 3 := by
  have hlen : (Nat.toDigits 10 n).length ≤ 3 :=
    (Nat.length_toDigits_le_iff (by decide) (by decide)).mpr h
  rw [padded, List.length_leftpad, decimal_ofNat]
  omega

theorem mem_padded {n : Nat} {c : Char} (h : c ∈ padded 3 n) : c = ' ' ∨ c.isDigit := by
  rw [padded, List.leftpad, decimal_ofNat] at h
  rcases List.mem_append.mp h with h | h
  · exact .inl (List.eq_of_mem_replicate h)
  · exact .inr (Nat.isDigit_of_mem_toDigits (by decide) (by decide) h)

theorem not_mem_padded {n : Nat} {c : Char} (h : c ≠ ' ') (hdigit : c.isDigit = false) :
    c ∉ padded 3 n := by
  intro hmem
  rcases mem_padded hmem with hc | hc
  · exact h hc
  · rw [hdigit] at hc
    exact absurd hc (by decide)

/-! ### The numbers of a frame -/

/-- The columns left for the bar. -/
def PBar.width (bar : PBar) : UInt16 := bar.termsz.tsCols - minw

/-- `bw`, the number of signs. -/
def PBar.bw (bar : PBar) : UInt64 := bar.finish * bar.width.toUInt64 / bar.total

/-- The percentage. -/
def PBar.pct (bar : PBar) : UInt64 := bar.finish * 100 / bar.total

theorem toInt_of_lt {x : UInt64} (h : x.toNat < 2 ^ 63) : toInt x = x.toNat :=
  if_pos h

/-- At most `n` of `n` signs are drawn. -/
theorem mul_div_le_of_le {f T n : Nat} (h : f ≤ T) : f * n / T ≤ n :=
  Nat.div_le_of_le_mul (Nat.mul_le_mul_right n h)

/-- A product that wraps is smaller than it should be, and its quotient too. -/
theorem toNat_mul_div_le {a b c : UInt64} (h : a ≤ c) : (a * b / c).toNat ≤ b.toNat := by
  rw [UInt64.toNat_div, UInt64.toNat_mul]
  exact Nat.le_trans (Nat.div_le_div_right (Nat.mod_le _ _))
    (mul_div_le_of_le (UInt64.le_iff_toNat_le.mp h))

section Numbers

variable {bar : PBar}

theorem PBar.toNat_width (bar : PBar) :
    bar.width.toNat = (bar.termsz.tsCols.toNat + 2 ^ 16 - 32) % 2 ^ 16 := by
  rw [PBar.width, UInt16.toNat_sub, Nat.add_comm, ← Nat.add_sub_assoc (by decide)]
  rfl

theorem PBar.bw_le (h : bar.finish ≤ bar.total) : bar.bw.toNat ≤ bar.width.toNat := by
  rw [← UInt16.toNat_toUInt64]
  exact toNat_mul_div_le h

theorem PBar.pct_le (h : bar.finish ≤ bar.total) : bar.pct.toNat ≤ 100 :=
  toNat_mul_div_le h

theorem PBar.bw_lt (h : bar.finish ≤ bar.total) : bar.bw.toNat < 2 ^ 16 :=
  Nat.lt_of_le_of_lt (PBar.bw_le h) bar.width.toNat_lt

theorem PBar.toInt_bw (h : bar.finish ≤ bar.total) : toInt bar.bw = bar.bw.toNat := by
  have := PBar.bw_lt h
  exact toInt_of_lt (by omega)

theorem PBar.toInt_pct (h : bar.finish ≤ bar.total) : toInt bar.pct = bar.pct.toNat := by
  have := PBar.pct_le h
  exact toInt_of_lt (by omega)

/-- What is left of the room is not below zero. -/
theorem PBar.toNat_rest (h : bar.finish ≤ bar.total) :
    (bar.width - bar.bw.toUInt16).toNat = bar.width.toNat - bar.bw.toNat := by
  have hcast : bar.bw.toUInt16.toNat = bar.bw.toNat := by
    rw [UInt64.toNat_toUInt16, Nat.mod_eq_of_lt (PBar.bw_lt h)]
  rw [UInt16.toNat_sub_of_le _ _ (by rw [UInt16.le_iff_toNat_le, hcast]; exact PBar.bw_le h), hcast]

end Numbers

/-! ### `updateBar` and `check` -/

/-- A frame with `bw` signs and `rest` spaces. -/
def line (pct bw rest : Nat) : List Char :=
  padded 3 pct ++ ['%', ' ', '['] ++ List.replicate bw '=' ++ ['>'] ++ List.replicate rest ' ' ++
    [']']

theorem length_line {pct bw rest : Nat} (h : pct < 1000) :
    (line pct bw rest).length = bw + rest + 8 := by
  simp only [line, List.length_append, List.length_cons, List.length_nil, List.length_replicate,
    length_padded h]
  omega

/-- All that is printed for `bar`. -/
def PBar.drawn (bar : PBar) : List Char :=
  '\r' :: line bar.pct.toNat bar.bw.toNat (bar.width.toNat - bar.bw.toNat) ++
    if bar.finish = bar.total then ['\n'] else []

/-- **`updateBar`** with a count up to a total that is not zero. -/
theorem updateBar_ok {s : Proc} (hpos : s.bar.total ≠ 0) (hle : s.bar.finish ≤ s.bar.total) :
    updateBar s = (.ok ⟨⟩, { s with out := s.out ++ s.bar.drawn }) := by
  have hbw := PBar.bw_lt hle
  have hpct := PBar.pct_le hle
  have hrest := PBar.toNat_rest hle
  unfold updateBar
  rw [bind_ok _ get_ok]
  dsimp only
  rw [if_neg hpos]
  change (stringsRepeat ['='] (toInt s.bar.bw) >>= fun done =>
    stringsRepeat [' '] (s.bar.width - s.bar.bw.toUInt16).toNat >>= fun rest =>
      fmtPrint (['\r'] ++ padded 3 (toInt s.bar.pct) ++ ['%', ' '] ++ ['['] ++ done ++ ['>'] ++
        rest ++ [']']) >>= fun _ =>
      if s.bar.finish = s.bar.total then fmtPrint ['\n'] else pure ⟨⟩) s = _
  rw [PBar.toInt_bw hle, PBar.toInt_pct hle, PBar.toNat_rest hle,
    bind_ok _ (stringsRepeat_ok (by omega)), bind_ok _ (stringsRepeat_ok (by omega)),
    bind_ok _ (fmtPrint_ok _)]
  simp only [PBar.drawn, line, Int.toNat_natCast]
  split
  · rw [fmtPrint_ok]
    simp
  · rw [pure_ok]
    simp

/-- The bar after an increment. -/
def PBar.plus (bar : PBar) (inc : UInt64) : PBar := { bar with finish := bar.finish + inc }

/-- **`check`**, unless a sum of zero has reached a total of zero. -/
theorem check_ok {s : Proc} {inc : UInt64} (h : s.bar.total = 0 → s.bar.finish + inc ≠ 0) :
    ∃ r s', check inc s = (.ok r, s') ∧ s'.bar = s.bar.plus inc ∧
      s'.out = s.out ++
        if s.bar.finish + inc ≤ s.bar.total then (s.bar.plus inc).drawn else [] := by
  by_cases hle : s.bar.finish + inc ≤ s.bar.total
  · have hne : s.bar.total ≠ 0 := by
      intro h0
      rw [h0] at hle
      exact h h0 (UInt64.le_zero_iff.mp hle)
    rw [if_pos hle]
    refine ⟨_, _, logged_ok none { s with
      bar := s.bar.plus inc, out := s.out ++ (s.bar.plus inc).drawn } ?_, rfl, rfl⟩
    rw [bind_ok _ (assign_ok _), bind_ok _ get_ok]
    dsimp only
    rw [if_neg (UInt64.not_lt.mpr hle)]
    exact bind_ok _ (updateBar_ok (s := { s with bar := s.bar.plus inc }) hne hle)
  · rw [if_neg hle, List.append_nil]
    refine ⟨_, _, logged_ok (some ⟨"Task already done"⟩) { s with bar := s.bar.plus inc } ?_, rfl, rfl⟩
    rw [bind_ok _ (assign_ok _), bind_ok _ get_ok]
    dsimp only
    rw [if_pos (UInt64.not_le.mp hle)]
    rfl

theorem ne_zero_of_one_le {x : UInt64} (h : 1 ≤ x) : x ≠ 0 := by
  intro heq
  obtain rfl := heq
  exact absurd h (by decide)

/-- **The geometry of a frame** survives wrap-around. -/
theorem updateBar_geometry {s : Proc} (hpos : 1 ≤ s.bar.total)
    (hle : s.bar.finish ≤ s.bar.total) :
    ∃ pct bw rest : Nat,
      toInt (s.bar.finish * 100 / s.bar.total) = pct ∧ pct ≤ 100 ∧
      toInt (s.bar.finish * (s.bar.termsz.tsCols - minw).toUInt64 / s.bar.total) = bw ∧
      bw < 2 ^ 16 ∧ bw + rest = (s.bar.termsz.tsCols.toNat + 2 ^ 16 - 32) % 2 ^ 16 ∧
      updateBar s = (.ok ⟨⟩, { s with
        out := s.out ++ ('\r' :: line pct bw rest ++
          if s.bar.finish = s.bar.total then ['\n'] else []) }) ∧
      (line pct bw rest).length = (s.bar.termsz.tsCols.toNat + 2 ^ 16 - 32) % 2 ^ 16 + 8 := by
  have hbw := PBar.bw_le hle
  have hpct := PBar.pct_le hle
  rw [← PBar.toNat_width]
  refine ⟨s.bar.pct.toNat, s.bar.bw.toNat, s.bar.width.toNat - s.bar.bw.toNat, PBar.toInt_pct hle,
    hpct, PBar.toInt_bw hle, PBar.bw_lt hle, by omega,
    updateBar_ok (ne_zero_of_one_le hpos) hle, ?_⟩
  rw [length_line (by omega)]
  omega

/-- A billion short of the largest total, in ten columns: both products wrap. -/
theorem updateBar_geometry_ten :
    let s : Proc := ⟨⟨18446744073709551615, 18446744072709551615, ⟨24, 10, 0, 0⟩⟩, [], []⟩
    ∃ pct bw rest : Nat, pct ≤ 100 ∧ bw < 2 ^ 16 ∧ bw + rest = 65514 ∧
      updateBar s = (.ok ⟨⟩, { s with out := '\r' :: line pct bw rest }) ∧
      (line pct bw rest).length = 65522 := by
  intro s
  obtain ⟨pct, bw, rest, -, hpct, -, hbw, hsum, hrun, hlen⟩ :=
    updateBar_geometry (s := s) (by decide) (by decide)
  refine ⟨pct, bw, rest, hpct, hbw, hsum.trans (by decide), ?_, hlen.trans (by decide)⟩
  rw [hrun, if_neg (by decide), List.append_nil, List.nil_append]

/-! ### Narrow terminals -/

/-- The cells of the bar that `t` shows. -/
def cells (t : List Char) : Nat := (t.dropWhile (· ≠ '[')).countP fun c => c = '=' ∨ c = ' '

theorem cells_drawn {bar : PBar} (h : bar.finish ≤ bar.total) :
    cells bar.drawn = (bar.termsz.tsCols.toNat + 2 ^ 16 - 32) % 2 ^ 16 := by
  have hbw := PBar.bw_le h
  have hnot : ∀ c ∈ padded 3 bar.pct.toNat, decide (c ≠ '[') = true := fun c hc =>
    decide_eq_true fun heq => not_mem_padded (by decide) (by decide) (heq ▸ hc)
  have hline : (if bar.finish = bar.total then ['\n'] else []).countP
      (fun c => decide (c = '=') || decide (c = ' ')) = 0 := by
    split <;> rfl
  rw [← PBar.toNat_width, cells, PBar.drawn, line, List.cons_append, List.dropWhile_cons_of_pos rfl]
  simp only [List.append_assoc, List.dropWhile_append_of_pos hnot]
  simp [List.countP_replicate, hline]
  omega

theorem cells_printed {s : Proc} {t : List Char} (hpos : 1 ≤ s.bar.total)
    (hle : s.bar.finish ≤ s.bar.total)
    (ht : updateBar s = (.ok ⟨⟩, { s with out := s.out ++ t })) :
    cells t = (s.bar.termsz.tsCols.toNat + 2 ^ 16 - 32) % 2 ^ 16 := by
  rw [updateBar_ok (ne_zero_of_one_le hpos) hle] at ht
  have hout := congrArg (fun x => x.2.out) ht
  rw [← List.append_cancel_left hout, cells_drawn hle]

/-- **Where the bar fits into the terminal.** -/
theorem updateBar_fits_iff {s : Proc} (hpos : 1 ≤ s.bar.total) (hle : s.bar.finish ≤ s.bar.total) :
    (∃ t, updateBar s = (.ok ⟨⟩, { s with out := s.out ++ t }) ∧
      cells t ≤ s.bar.termsz.tsCols.toNat) ↔ 32 ≤ s.bar.termsz.tsCols.toNat := by
  have hlt := s.bar.termsz.tsCols.toNat_lt
  constructor
  · intro h
    obtain ⟨t, ht, hfit⟩ := h
    rw [cells_printed hpos hle ht] at hfit
    omega
  · intro h32
    have hrun := updateBar_ok (ne_zero_of_one_le hpos) hle
    refine ⟨_, hrun, ?_⟩
    rw [cells_printed hpos hle hrun]
    omega

theorem updateBar_fits_eighty :
    let s : Proc := ⟨⟨3, 1, ⟨24, 80, 0, 0⟩⟩, [], []⟩
    ∃ t, updateBar s = (.ok ⟨⟩, { s with out := s.out ++ t }) ∧ cells t ≤ 80 :=
  (updateBar_fits_iff (s := ⟨⟨3, 1, ⟨24, 80, 0, 0⟩⟩, [], []⟩) (by decide) (by decide)).mpr
    (by decide)

/-- Without a terminal the bar has 65504 cells. -/
theorem updateBar_unbounded :
    ¬ ∀ s : Proc, 1 ≤ s.bar.total → s.bar.finish ≤ s.bar.total →
      ∃ t, updateBar s = (.ok ⟨⟩, { s with out := s.out ++ t }) ∧
        cells t ≤ s.bar.termsz.tsCols.toNat := by
  intro hall
  obtain ⟨t, ht, hfit⟩ := hall ⟨⟨1, 0, ⟨0, 0, 0, 0⟩⟩, [], []⟩ (by decide) (by decide)
  rw [cells_printed (by decide) (by decide) ht] at hfit
  exact absurd hfit (by decide)

end Codelib.Pbar
