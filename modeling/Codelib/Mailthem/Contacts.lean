import Codelib.Core.ReadLine

/-!
# Codelib.Mailthem.Contacts

`readStudentInfo` of `go/mailthem/mailthem.go`, and **when it reads back the contacts of a file**
(`readStudentInfo_write_iff`).

The file is the one that was opened; a panic is an error. Only LF is trimmed from a line, so with
CRLF the CR stays in the address. `oneLiner`, which reads the same file's name from the terminal,
trims both (`oneLiner_line`).
-/

namespace Codelib.Mailthem

/-- Student information. -/
@[ext]
structure SInfo where
  snum : Text
  name : Text
  addr : Text
  deriving Repr, DecidableEq

/-- `oneLiner`, without the prompt. -/
def oneLiner (stop : ReadError) (stdin : Text) : Except ReadError Text :=
  let r := readLine stop stdin
  match r.err with
  | some err => .error err
  | none => .ok (trim [13, 10] r.line)

/-- What is appended to `sl` for a line. -/
def parseLine (line : Text) : List SInfo :=
  let entry := (trim [10] line).splitOn 32
  -- make sure the line indeed has 3 parts
  match entry with
  | [snum, name, addr] => [⟨snum, name, addr⟩]
  | _ => []

/-- The loop of `readStudentInfo`. -/
def readStudents (stop : ReadError) (sl : List SInfo) (addrListBuf : Text) :
    Except ReadError (List SInfo) :=
  match _h : (readLine stop addrListBuf).err with
  | some (.failed message) => .error (.failed message)
  -- the last line will return io.EOF
  | some .eof => .ok (sl ++ parseLine (readLine stop addrListBuf).line)
  | none =>
    readStudents stop (sl ++ parseLine (readLine stop addrListBuf).line)
      (readLine stop addrListBuf).rest
termination_by addrListBuf.length
decreasing_by exact rest_readLine_lt _h

def readStudentInfo (stop : ReadError) (addrListFile : Text) : Except ReadError (List SInfo) :=
  readStudents stop [] addrListFile

/-! ### Contact files -/

/-- Neither space nor line end. -/
structure Plain (t : Text) : Prop where
  space : 32 ∉ t
  cr : 13 ∉ t
  lf : 10 ∉ t

/-- A line of a contact file. -/
inductive Line
  | contact (info : SInfo) (snum : Plain info.snum) (name : Plain info.name) (addr : Plain info.addr)
  /-- A line that has not exactly three fields. -/
  | other (line : Text) (lf : 10 ∉ line) (fields : (line.splitOn 32).length ≠ 3)

inductive LineEnd
  | lf
  | crlf
  deriving Repr, DecidableEq

def LineEnd.text : LineEnd → Text
  | .lf => [10]
  | .crlf => [13, 10]

namespace Line

def text : Line → Text
  | contact info .. => info.snum ++ 32 :: info.name ++ 32 :: info.addr
  | other line .. => line

def contacts : Line → List SInfo
  | contact info .. => [info]
  | other .. => []

end Line

/-- Write lines, and perhaps a last one without a line end. -/
def write (lines : List (Line × LineEnd)) (last : Option Line) : Text :=
  lines.flatMap (fun l => l.1.text ++ l.2.text) ++ (last.map Line.text).getD []

/-- The contacts that were written. -/
def contacts (lines : List (Line × LineEnd)) (last : Option Line) : List SInfo :=
  lines.flatMap (fun l => l.1.contacts) ++ (last.map Line.contacts).getD []

/-- What is read for a contact on a line that ends with `e`. -/
def LineEnd.readBack (e : LineEnd) (info : SInfo) : SInfo :=
  match e with
  | .lf => info
  | .crlf => { info with addr := info.addr ++ [13] }

/-! ### One line -/

variable {stop : ReadError}

/-- What stands in front of the LF. -/
def LineEnd.front : LineEnd → Text
  | .lf => []
  | .crlf => [13]

theorem LineEnd.text_eq (e : LineEnd) : e.text = e.front ++ [10] := by
  cases e with
  | lf => rfl
  | crlf => rfl

/-- The line end of a line, up to the LF. -/
theorem LineEnd.lf_not_mem_append {t : Text} (h : 10 ∉ t) (e : LineEnd) : 10 ∉ t ++ e.front := by
  cases e with
  | lf => simpa [LineEnd.front] using h
  | crlf => simpa [LineEnd.front] using h

theorem readLine_lineEnd (stop : ReadError) {t : Text} (h : 10 ∉ t) (e : LineEnd) (rest : Text) :
    readLine stop (t ++ e.text ++ rest) = ⟨t ++ e.text, none, rest⟩ := by
  have hread := readLine_line stop (e.lf_not_mem_append h) rest
  simpa only [e.text_eq, List.append_assoc, List.singleton_append] using hread

/-- The name of the file is read for either line end. -/
theorem oneLiner_line {t : Text} (hcr : 13 ∉ t) (hlf : 10 ∉ t) (e : LineEnd) (rest : Text) :
    oneLiner stop (t ++ e.text ++ rest) = .ok t := by
  have hplain : ∀ c ∈ t, c ∉ [13, 10] := by
    intro c hc hmem
    rcases List.mem_cons.mp hmem with rfl | hmem
    · exact hcr hc
    · exact hlf (List.mem_singleton.mp hmem ▸ hc)
  have hends : ∀ c ∈ e.text, c ∈ [13, 10] := by
    cases e with
    | lf => exact fun _ hc => List.mem_cons_of_mem 13 hc
    | crlf => exact fun _ hc => hc
  rw [oneLiner, readLine_lineEnd stop hlf, trim_append hplain hends]

theorem Line.lf_not_mem (l : Line) : 10 ∉ l.text := by
  cases l with
  | contact info snum name addr => simp [Line.text, snum.lf, name.lf, addr.lf]
  | other line lf fields => exact lf

theorem trim_lf {t : Text} (h : 10 ∉ t) : trim [10] t = t ∧ trim [10] (t ++ [10]) = t := by
  have hlf : ∀ c ∈ t, c ∉ [10] := by
    intro c hc hmem
    exact h (List.mem_singleton.mp hmem ▸ hc)
  exact ⟨trim_of_forall hlf, trim_append hlf fun _ hc => hc⟩

/-- The line end of a line is not looked at. -/
theorem parseLine_concat {t : Text} (h : 10 ∉ t) : parseLine (t ++ [10]) = parseLine t := by
  rw [parseLine, parseLine, (trim_lf h).1, (trim_lf h).2]

theorem parseLine_three {snum name addr : Text} (hsnum : 32 ∉ snum) (hname : 32 ∉ name)
    (haddr : 32 ∉ addr) (h : 10 ∉ snum ++ 32 :: name ++ 32 :: addr) :
    parseLine (snum ++ 32 :: name ++ 32 :: addr) = [⟨snum, name, addr⟩] := by
  have hsplit : (snum ++ 32 :: name ++ 32 :: addr).splitOn 32 = [snum, name, addr] := by
    rw [List.append_assoc, List.cons_append, List.splitOn_append_cons_self_of_not_mem hsnum,
      List.splitOn_append_cons_self_of_not_mem hname, List.splitOn_eq_singleton haddr]
  simp only [parseLine, (trim_lf h).1, hsplit]

theorem parseLine_skip {t : Text} (hlf : 10 ∉ t) (h : (t.splitOn 32).length ≠ 3) :
    parseLine t = [] := by
  simp only [parseLine, (trim_lf hlf).1]
  split
  · case h_1 heq => exact absurd (congrArg List.length heq) h
  · rfl

theorem parseLine_text (l : Line) : parseLine l.text = l.contacts := by
  cases l with
  | contact info snum name addr =>
      exact parseLine_three snum.space name.space addr.space
        (Line.lf_not_mem (.contact info snum name addr))
  | other line lf fields => exact parseLine_skip lf fields

/-- With CRLF the CR is part of the last field. -/
theorem parseLine_line (l : Line) (e : LineEnd) :
    parseLine (l.text ++ e.text) = l.contacts.map e.readBack := by
  have hlf := e.lf_not_mem_append l.lf_not_mem
  rw [e.text_eq, ← List.append_assoc, parseLine_concat hlf]
  cases e with
  | lf =>
      rw [LineEnd.front, List.append_nil, parseLine_text]
      exact (List.map_id _).symm
  | crlf =>
      rw [LineEnd.front] at hlf ⊢
      cases l with
      | contact info snum name addr =>
          have haddr : 32 ∉ info.addr ++ [13] := by simpa using addr.space
          have htext : Line.text (.contact info snum name addr) ++ [13] =
              info.snum ++ 32 :: info.name ++ 32 :: (info.addr ++ [13]) := by simp [Line.text]
          rw [htext] at hlf ⊢
          exact parseLine_three snum.space name.space haddr hlf
      | other line lf fields =>
          refine parseLine_skip hlf ?_
          rw [length_splitOn] at fields ⊢
          simpa [Line.text, List.count_append] using fields

/-! ### The file -/

theorem readStudents_line (sl : List SInfo) (l : Line) (e : LineEnd) (rest : Text) :
    readStudents stop sl (l.text ++ e.text ++ rest) =
      readStudents stop (sl ++ l.contacts.map e.readBack) rest := by
  have hread := readLine_lineEnd stop l.lf_not_mem e rest
  rw [readStudents]
  split
  · case h_1 heq => exact absurd (hread ▸ heq) (by simp)
  · case h_2 heq => exact absurd (hread ▸ heq) (by simp)
  · rw [hread, parseLine_line]

theorem readStudents_last (sl : List SInfo) {t : Text} (h : 10 ∉ t) :
    readStudents .eof sl t = .ok (sl ++ parseLine t) := by
  have hread := readLine_last .eof h
  rw [readStudents]
  split
  · case h_1 heq => exact absurd (hread ▸ heq) (by simp)
  · rw [hread]
  · case h_3 heq => exact absurd (hread ▸ heq) (by simp)

/-- What is read of a file. -/
theorem readStudents_write (sl : List SInfo) (lines : List (Line × LineEnd)) (last : Option Line) :
    readStudents .eof sl (write lines last) =
      .ok (sl ++ (lines.flatMap (fun l => l.1.contacts.map l.2.readBack) ++
        (last.map Line.contacts).getD [])) := by
  induction lines generalizing sl with
  | nil =>
      cases last with
      | none => exact readStudents_last sl (t := []) List.not_mem_nil
      | some l =>
          have := readStudents_last sl l.lf_not_mem
          rw [parseLine_text] at this
          exact this
  | cons l lines ih =>
      have hwrite : write (l :: lines) last = l.1.text ++ l.2.text ++ write lines last := by
        simp [write]
      rw [hwrite, readStudents_line, ih]
      simp

theorem flatMap_eq_flatMap_iff {α β : Type} {f g : α → List β}
    (hlength : ∀ a, (f a).length = (g a).length) (as : List α) :
    as.flatMap f = as.flatMap g ↔ ∀ a ∈ as, f a = g a := by
  induction as with
  | nil => simp
  | cons a as ih =>
      rw [List.flatMap_cons, List.flatMap_cons, List.forall_mem_cons, ← ih]
      constructor
      · exact fun h => List.append_inj h (hlength a)
      · intro ⟨ha, has⟩
        rw [ha, has]

theorem map_readBack_eq_iff (l : Line) (e : LineEnd) :
    l.contacts.map e.readBack = l.contacts ↔ (l.contacts ≠ [] → e = .lf) := by
  cases l with
  | contact info =>
      cases e with
      | lf => simp [Line.contacts, LineEnd.readBack]
      | crlf => simp [Line.contacts, LineEnd.readBack, SInfo.ext_iff]
  | other line => simp [Line.contacts]

/-- **When the contacts are read back**: if and only if no line of a contact ends with CRLF. The
last line may have no line end at all. -/
theorem readStudentInfo_write_iff (lines : List (Line × LineEnd)) (last : Option Line) :
    readStudentInfo .eof (write lines last) = .ok (contacts lines last) ↔
      ∀ l ∈ lines, l.1.contacts ≠ [] → l.2 = .lf := by
  have hlength (l : Line × LineEnd) :
      (l.1.contacts.map l.2.readBack).length = l.1.contacts.length := List.length_map _
  rw [readStudentInfo, readStudents_write, List.nil_append, contacts, Except.ok.injEq,
    List.append_cancel_right_eq, flatMap_eq_flatMap_iff hlength]
  exact forall₂_congr fun l _ => map_readBack_eq_iff l.1 l.2

/-- The contact `1 a b`, with CRLF. -/
theorem carriage_return_kept : ¬ ∀ lines last,
    readStudentInfo .eof (write lines last) = .ok (contacts lines last) := by
  intro hall
  have hplain (c : UInt8) (h : c = 49 ∨ c = 97 ∨ c = 98) : Plain [c] := by
    constructor
    all_goals rcases h with rfl | rfl | rfl <;> decide
  have hline := hall [(.contact ⟨[49], [97], [98]⟩ (hplain 49 (by decide)) (hplain 97 (by decide))
    (hplain 98 (by decide)), .crlf)] none
  rw [readStudentInfo, readStudents_write] at hline
  exact absurd hline (by simp [contacts, Line.contacts, LineEnd.readBack])

end Codelib.Mailthem
