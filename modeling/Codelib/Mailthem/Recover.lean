import Codelib.Core.Mime
import Codelib.Mailthem.Message

/-!
# Codelib.Mailthem.Recover

**What a mail reader recovers from a message** (`recovers_iff`).

Two things are missing from a message. No empty line ends its header block, so that the
block goes on into the body, and no `--boundary--` closes a multipart. What can be
recovered is the empty body of a message without attachments: its own line end is the
empty line.
-/

namespace Codelib.Mailthem

open Mime

/-! ### What is asked of the inputs -/

/-- No NUL, and no line that begins with the boundary. -/
structure Clean (t : Text) : Prop where
  nul : 0 ∉ t
  line : ¬ LineStart (openingLine boundary) t

/-- No NUL and no line end. -/
structure OneLine (t : Text) : Prop where
  nul : 0 ∉ t
  cr : 13 ∉ t
  lf : 10 ∉ t

theorem clean_line {t : Text} (h0 : 0 ∉ t) (h : 10 ∉ t) (hb : ¬ openingLine boundary <+: t) :
    Clean t :=
  ⟨h0, fun hl => hl.elim hb fun ha => h ha.lf_mem⟩

/-- What a message is made from. -/
structure Inputs (header : List (Text × Text)) (body : Text) (attachments : List (Text × Text)) :
    Prop where
  header : ∀ h ∈ header, OneLine h.1 ∧ OneLine h.2
  body : Clean body
  attachments : ∀ a ∈ attachments, Clean a.1 ∧ Clean a.2

/-- The reader gets the body, and the files by their base names, and nothing else. -/
def Recovers (isMultipart : List Text → Bool) (header : List (Text × Text)) (body : Text)
    (attachments : List (Text × Text)) : Prop :=
  ∃ mail, readMail isMultipart boundary (makeMessage header body attachments) = some mail ∧
    mail.texts = [body] ∧ mail.files.Perm (attachments.map fun a => (base a.1, a.2))

/-! ### The lines of a message -/

/-- The lines of an attachment, if its name is a single line. -/
def attachmentLines (name content : Text) : List Text :=
  [text "--" ++ boundary ++ text "\r\n", text "Content-Type: application/octet-stream\n",
    text "Content-Transfer-Encoding: base64\n",
    text "Content-Disposition: attachment; filename=\"" ++ base name ++ [34] ++ [10], [10],
    Base64.encode content ++ [10], text "--" ++ boundary ++ text "\r\n"]

theorem attachment_eq (name content : Text) :
    attachment name content = (attachmentLines name content).flatten := by
  have hquote : text "\"\n\n" = [34] ++ [10] ++ [10] := by decide
  have hdelim : text "\n--" = [10] ++ text "--" := by decide
  simp only [attachment, attachmentLines, hquote, hdelim, List.flatten_cons, List.flatten_nil,
    List.append_assoc, List.append_nil]

/-- What is written behind the header map. -/
def tailLines (body : Text) (attachments : List (Text × Text)) : List Text :=
  (if attachments.length > 0 then
    [text "Content-Type: multipart/mixed; boundary=" ++ boundary ++ text "\r\n",
      text "--" ++ boundary ++ text "\r\n"]
  else []) ++
  [text "Content-Type: text/plain; charset=\"utf-8\"\r\n", body ++ [13] ++ [10]] ++
  attachments.flatMap fun a => attachmentLines a.1 a.2

/-- A line that does not close the multipart, or several. -/
structure Quiet (p : Text) : Prop where
  ends : EndsLine p
  line : ¬ LineStart (closingLine boundary) p
  nul : 0 ∉ p

theorem closing_ne : 10 ∉ closingLine boundary ∧ closingLine boundary ≠ [] := by decide

theorem quiet_concat {t : Text} (h : ¬ LineStart (closingLine boundary) t) (h0 : 0 ∉ t) :
    Quiet (t ++ [10]) where
  ends := ⟨t, rfl⟩
  line hl := h (hl.of_concat closing_ne.1 closing_ne.2)
  nul := by simpa using h0

/-- A single line is looked at as it is. -/
theorem quiet_line {t : Text} (h : 10 ∉ t) (hc : ¬ closingLine boundary <+: t) (h0 : 0 ∉ t) :
    Quiet (t ++ [10]) :=
  quiet_concat (fun hl => hl.elim hc fun ha => h ha.lf_mem) h0

theorem opening_prefix : openingLine boundary <+: closingLine boundary := List.prefix_append ..

/-- The last element of a path is part of it, unless the path has none. -/
theorem base_infix (path : Text) :
    base path <:+: path ∨ base path = text "." ∨ base path = text "/" := by
  unfold base
  split
  · exact .inr (.inl rfl)
  · simp only
    split
    · exact .inr (.inr rfl)
    · -- what is taken from the end of a list in reverse is a suffix of it
      have hfront : (path.reverse.dropWhile (· = 47)).reverse <+: path :=
        List.reverse_suffix.mp (by simpa using List.dropWhile_suffix _)
      have hlast (t : Text) : (t.reverse.takeWhile (· ≠ 47)).reverse <:+ t :=
        List.reverse_prefix.mp (by simpa using List.takeWhile_prefix _)
      exact .inl ((hlast _).isInfix.trans hfront.isInfix)

theorem not_mem_base {name : Text} (h : 0 ∉ name) : 0 ∉ base name := by
  rcases base_infix name with hb | hb | hb
  · exact fun h0 => h (hb.subset h0)
  · rw [hb]
    decide
  · rw [hb]
    decide

theorem not_afterLineEnd_base {name : Text} (h : Clean name) :
    ¬ AfterLineEnd (closingLine boundary) (base name) := by
  rcases base_infix name with hb | hb | hb
  · exact fun hl => h.line (.mono (.inr (hl.of_infix hb)) opening_prefix)
  · rw [hb]
    exact fun hl => absurd hl.lf_mem (by decide)
  · rw [hb]
    exact fun hl => absurd hl.lf_mem (by decide)

/-- A file name, or all the lines of it, stands between the quotes. -/
theorem quiet_disposition {name : Text} (h : Clean name) :
    Quiet (text "Content-Disposition: attachment; filename=\"" ++ base name ++ [34] ++ [10]) := by
  refine quiet_concat (fun hl => ?_) ?_
  · have hl := hl.of_concat (by decide) closing_ne.2
    refine not_afterLineEnd_base h (hl.of_append (by decide) fun hp => ?_)
    -- the header field begins with a letter, the boundary line with a hyphen
    exact absurd (List.cons_prefix_cons.mp hp).1 (by decide)
  · simp only [List.mem_append, not_or]
    exact ⟨⟨by decide, not_mem_base h.nul⟩, by decide⟩

theorem quiet_base64 (content : Text) : Quiet (Base64.encode content ++ [10]) := by
  have hnot {c : UInt8} (hc : c ∉ Base64.alphabet) (he : c ≠ 61) : c ∉ Base64.encode content :=
    fun h => (Base64.mem_encode h).elim hc he
  refine quiet_line (hnot (by decide) (by decide)) (fun hp => ?_) (hnot (by decide) (by decide))
  exact hnot (by decide) (by decide) (hp.subset (show 45 ∈ closingLine boundary by decide))

theorem quiet_body {body : Text} (h : Clean body) : Quiet (body ++ [13] ++ [10]) := by
  refine quiet_concat (fun hl => ?_) ?_
  · exact h.line ((hl.of_concat (by decide) closing_ne.2).mono opening_prefix)
  · simpa using h.nul

theorem quiet_delimiter : Quiet (text "--" ++ boundary ++ text "\r\n") :=
  quiet_line (t := text "--" ++ boundary ++ [13]) (by decide) (by decide) (by decide)

theorem quiet_attachmentLines {name : Text} (h : Clean name) (content : Text) :
    ∀ p ∈ attachmentLines name content, Quiet p := by
  have htype : Quiet (text "Content-Type: application/octet-stream\n") :=
    quiet_line (t := text "Content-Type: application/octet-stream")
      (by decide) (by decide) (by decide)
  have hencoding : Quiet (text "Content-Transfer-Encoding: base64\n") :=
    quiet_line (t := text "Content-Transfer-Encoding: base64") (by decide) (by decide) (by decide)
  have hempty : Quiet [10] := quiet_line (t := []) (by decide) (by decide) (by decide)
  simp only [attachmentLines, List.forall_mem_cons]
  exact ⟨quiet_delimiter, htype, hencoding, quiet_disposition h, hempty, quiet_base64 content,
    quiet_delimiter, by simp⟩

theorem quiet_tailLines {header attachments : List (Text × Text)} {body : Text}
    (hin : Inputs header body attachments) : ∀ p ∈ tailLines body attachments, Quiet p := by
  intro p hp
  have htype : Quiet (text "Content-Type: text/plain; charset=\"utf-8\"\r\n") :=
    quiet_line (t := text "Content-Type: text/plain; charset=\"utf-8\"\r")
      (by decide) (by decide) (by decide)
  have hannounce :
      Quiet (text "Content-Type: multipart/mixed; boundary=" ++ boundary ++ text "\r\n") :=
    quiet_line (t := text "Content-Type: multipart/mixed; boundary=" ++ boundary ++ [13])
      (by decide) (by decide) (by decide)
  simp only [tailLines, List.mem_append, List.mem_cons, List.not_mem_nil, or_false, List.mem_flatMap,
    or_assoc] at hp
  rcases hp with hp | rfl | rfl | ⟨a, ha, hp⟩
  · split at hp
    · simp only [List.mem_cons, List.not_mem_nil, or_false] at hp
      rcases hp with rfl | rfl
      · exact hannounce
      · exact quiet_delimiter
    · exact absurd hp (by simp)
  · exact htype
  · exact quiet_body hin.body
  · exact quiet_attachmentLines (hin.attachments a ha).1 a.2 p hp

/-! ### The message as its lines -/

theorem readString_eq_self {delim : UInt8} {buf : Text} (h : delim ∉ buf) :
    readString delim buf = buf := by
  induction buf with
  | nil => rfl
  | cons c buf ih =>
      obtain ⟨hc, hbuf⟩ : delim ≠ c ∧ delim ∉ buf := by simpa using h
      rw [readString, if_neg (Ne.symm hc), ih hbuf]

theorem headerLine_eq (k v : Text) : headerLine k v = k ++ text ": " ++ v ++ [13] ++ [10] := by
  have hcrlf : text "\r\n" = [13] ++ [10] := by decide
  rw [headerLine, hcrlf, ← List.append_assoc]

theorem not_mem_headerLine {k v : Text} (hk : OneLine k) (hv : OneLine v) : 0 ∉ headerLine k v := by
  simp only [headerLine, List.mem_append, not_or]
  exact ⟨⟨⟨hk.nul, by decide⟩, hv.nul⟩, by decide⟩

section Message

variable {header attachments : List (Text × Text)} {body : Text}

theorem makeMessage_eq (hin : Inputs header body attachments) :
    makeMessage header body attachments =
      (header.map fun h => headerLine h.1 h.2).flatten ++ (tailLines body attachments).flatten := by
  have hbuf : makeMessage header body attachments = readString 0
      ((header.map fun h => headerLine h.1 h.2).flatten ++ (tailLines body attachments).flatten) := by
    have hcrlf : text "\r\n" = [13] ++ [10] := by decide
    have hfiles : attachments.flatMap (fun a => attachment a.1 a.2) =
        (attachments.flatMap fun a => attachmentLines a.1 a.2).flatten := by
      simp only [List.flatMap_def, attachment_eq, List.flatten_flatten, List.map_map]
      rfl
    unfold makeMessage tailLines
    rw [hfiles, ← List.flatMap_def]
    split
    · simp only [List.flatten_append, List.flatten_cons, List.flatten_nil, List.append_assoc,
        List.append_nil, hcrlf]
    · simp only [List.flatten_append, List.flatten_cons, List.flatten_nil, List.append_assoc,
        List.append_nil, List.nil_append, hcrlf]
  rw [hbuf, readString_eq_self]
  intro h0
  rcases List.mem_append.mp h0 with h0 | h0
  · obtain ⟨l, hl, h0⟩ := List.mem_flatten.mp h0
    obtain ⟨h, hh, rfl⟩ := List.mem_map.mp hl
    exact not_mem_headerLine (hin.header h hh).1 (hin.header h hh).2 h0
  · obtain ⟨l, hl, h0⟩ := List.mem_flatten.mp h0
    exact (quiet_tailLines hin l hl).nul h0

theorem splitLines_makeMessage (hin : Inputs header body attachments) :
    splitLines (makeMessage header body attachments) =
      (header.map fun h => headerLine h.1 h.2) ++ splitLines (tailLines body attachments).flatten := by
  rw [makeMessage_eq hin]
  refine splitLines_flatten_append (fun l hl => ?_) _
  obtain ⟨h, hh, rfl⟩ := List.mem_map.mp hl
  obtain ⟨hk, hv⟩ := hin.header h hh
  refine ⟨h.1 ++ text ": " ++ h.2 ++ [13], ?_, headerLine_eq h.1 h.2⟩
  simp only [List.mem_append, not_or]
  exact ⟨⟨⟨hk.lf, by decide⟩, hv.lf⟩, by decide⟩

/-- The header block of a message without body and attachments. -/
def headerBlock (header : List (Text × Text)) : List Text :=
  header.map (fun h => h.1 ++ text ": " ++ h.2) ++
    [text "Content-Type: text/plain; charset=\"utf-8\""]

theorem dropLineEnd_headerLine (k v : Text) : dropLineEnd (headerLine k v) = k ++ text ": " ++ v :=
  dropLineEnd_crlf _

/-- The header map makes no empty line. -/
theorem headerLine_ne (k v : Text) : dropLineEnd (headerLine k v) ≠ [] := by
  rw [dropLineEnd_headerLine]
  intro h
  exact absurd (List.append_eq_nil_iff.mp (List.append_eq_nil_iff.mp h).1).2 (by decide)

/-- No line of a message closes a multipart. -/
theorem splitParts_makeMessage (hin : Inputs header body attachments) (front : List Text)
    {lines : List Text} (h : splitLines (tailLines body attachments).flatten = front ++ lines)
    (part : Option (List Text)) : splitParts boundary part lines = none := by
  refine splitParts_eq_none (fun l hl hclose => ?_) part
  have hmem : l ∈ splitLines (tailLines body attachments).flatten := by
    rw [h]
    exact List.mem_append_right front hl
  refine not_lineStart_flatten closing_ne.1 closing_ne.2
    (fun p hp => ⟨(quiet_tailLines hin p hp).ends, (quiet_tailLines hin p hp).line⟩)
    (lineStart_of_mem hmem ?_)
  rw [← hclose]
  exact dropLineEnd_prefix l

/-! ### What is recovered -/

theorem splitHeader_makeMessage (hin : Inputs header body attachments) :
    splitHeader (splitLines (makeMessage header body attachments)) =
      (splitHeader (splitLines (tailLines body attachments).flatten)).map fun r =>
        (header.map (fun h => h.1 ++ text ": " ++ h.2) ++ r.1, r.2) := by
  have hdrop : (header.map fun h => headerLine h.1 h.2).map dropLineEnd =
      header.map fun h => h.1 ++ text ": " ++ h.2 := by
    rw [List.map_map]
    exact List.map_congr_left fun h _ => dropLineEnd_headerLine h.1 h.2
  rw [splitLines_makeMessage hin, splitHeader_append, hdrop]
  intro l hl
  obtain ⟨h, -, rfl⟩ := List.mem_map.mp hl
  exact headerLine_ne h.1 h.2

/-- With nothing behind it, the line end of the body is the empty line. -/
theorem splitHeader_empty (hin : Inputs header [] []) :
    splitHeader (splitLines (makeMessage header [] [])) = some (headerBlock header, []) := by
  have htail : splitHeader (splitLines (tailLines [] []).flatten) =
      some ([text "Content-Type: text/plain; charset=\"utf-8\""], []) := by decide +kernel
  rw [splitHeader_makeMessage hin, htail]
  rfl

/-- What an empty line leaves of a body is less than the body. -/
theorem body_eq_nil {front rest : Text} (h : body ++ [13] ++ [10] = front ++ rest)
    (hfront : front ≠ []) (hrest : dropLineEnd rest = body) : body = [] := by
  rw [List.append_assoc] at h
  rcases List.append_eq_append_iff.mp h with ⟨c, rfl, hc⟩ | ⟨c, hbody, rfl⟩
  · -- the rest is a part of the line end
    have hall : ∀ t ∈ List.tails [13, 10], dropLineEnd t = [] := by decide
    rw [← hrest]
    exact hall rest ((List.mem_tails ..).mpr ⟨c, hc.symm⟩)
  · -- the body would be a part of itself
    have hc : c = body := (dropLineEnd_crlf c).symm.trans hrest
    rw [hc] at hbody
    exact absurd (List.append_left_eq_self.mp hbody.symm) hfront

/-- Without attachments the header block ends somewhere in the body, and what is left can be
the body only if there is none. -/
theorem eq_nil_of_texts {front rest : List Text} {line : Text}
    (h : splitLines (tailLines body []).flatten = front ++ line :: rest)
    (hline : dropLineEnd line = []) (hrest : content rest = body) : body = [] := by
  have htail : splitLines (tailLines body []).flatten =
      text "Content-Type: text/plain; charset=\"utf-8\"\r\n" :: splitLines (body ++ [13] ++ [10]) := by
    have hflat : (tailLines body []).flatten =
        [text "Content-Type: text/plain; charset=\"utf-8\"\r" ++ [10]].flatten ++
          (body ++ [13] ++ [10]) := by
      have htype : text "Content-Type: text/plain; charset=\"utf-8\"\r\n" =
        text "Content-Type: text/plain; charset=\"utf-8\"\r" ++ [10] := by decide
      simp [tailLines, htype]
    rw [hflat, splitLines_flatten_append]
    · rfl
    · intro p hp
      exact ⟨_, by decide, List.mem_singleton.mp hp⟩
  rw [htail] at h
  rcases front with _ | ⟨l, front⟩
  · obtain ⟨rfl, -⟩ := List.cons.inj h
    exact absurd hline (by decide)
  · rw [List.cons_append] at h
    obtain ⟨-, hbody⟩ := List.cons.inj h
    have hmem : line ∈ splitLines (body ++ [13] ++ [10]) := by
      rw [hbody]
      simp
    have hflat := congrArg List.flatten hbody
    rw [flatten_splitLines, List.flatten_append, List.flatten_cons, ← List.append_assoc] at hflat
    exact body_eq_nil hflat (by simp [ne_nil_of_mem_splitLines hmem]) hrest

end Message

/-- **What a mail reader recovers.** Whatever the order of the maps and whatever the reader
takes for the announcement of a multipart, it gets back what the message was made from
if and only if there is nothing in it, and the header map announces no multipart. -/
theorem recovers_iff (isMultipart : List Text → Bool) {header attachments : List (Text × Text)}
    {body : Text} (hin : Inputs header body attachments) :
    Recovers isMultipart header body attachments ↔
      attachments = [] ∧ body = [] ∧ isMultipart (headerBlock header) = false := by
  constructor
  · intro h
    obtain ⟨mail, hread, htexts, hfiles⟩ := h
    rw [readMail, splitHeader_makeMessage hin] at hread
    rcases hsplit : splitHeader (splitLines (tailLines body attachments).flatten) with
      _ | ⟨block, rest⟩
    · simp [hsplit] at hread
    obtain ⟨front, line, hlines, hline⟩ := splitHeader_suffix hsplit
    have hparts : splitParts boundary none rest = none := by
      refine splitParts_makeMessage hin (front ++ [line]) ?_ none
      rw [hlines, List.append_assoc, List.singleton_append]
    simp only [hsplit, Option.map_some, Option.bind_eq_bind, Option.bind_some, hparts] at hread
    split at hread
    · case isTrue =>
        -- a multipart that is never closed is not read
        exact absurd hread (by simp)
    · case isFalse hplain =>
        obtain rfl := Option.some.inj hread
        obtain rfl : attachments = [] := by simpa using hfiles.length_eq.symm
        obtain rfl : body = [] := eq_nil_of_texts hlines hline (by simpa using htexts)
        have hblock := splitHeader_makeMessage hin
        rw [splitHeader_empty hin, hsplit, Option.map_some] at hblock
        rw [(Prod.mk.inj (Option.some.inj hblock)).1]
        exact ⟨rfl, rfl, by simpa using hplain⟩
  · intro h
    obtain ⟨rfl, rfl, hplain⟩ := h
    refine ⟨⟨[[]], []⟩, ?_, rfl, .nil⟩
    simp only [readMail, splitHeader_empty hin, Option.bind_eq_bind, Option.bind_some, hplain]
    rfl

/-- An empty mail, with a reader that looks for the line that announces a multipart. -/
theorem recovers_iff_empty :
    Recovers (fun block => (text "Content-Type: multipart/mixed; boundary=" ++ boundary) ∈ block)
      [(text "To", text "x")] [] [] := by
  have hto : OneLine (text "To") := ⟨by decide, by decide, by decide⟩
  have hx : OneLine (text "x") := ⟨by decide, by decide, by decide⟩
  have hbody : Clean [] := clean_line (by decide) (by decide) (by decide)
  exact (recovers_iff _ ⟨by simp [hto, hx], hbody, by simp⟩).mpr ⟨rfl, rfl, by decide⟩

/-- No reader finds the body `hi`: nothing ends the header block. -/
theorem body_lost :
    Inputs [(text "To", text "x")] (text "hi") [] ∧
      ∀ isMultipart, ¬ Recovers isMultipart [(text "To", text "x")] (text "hi") [] := by
  have hto : OneLine (text "To") := ⟨by decide, by decide, by decide⟩
  have hx : OneLine (text "x") := ⟨by decide, by decide, by decide⟩
  have hbody : Clean (text "hi") := clean_line (by decide) (by decide) (by decide)
  refine ⟨⟨by simp [hto, hx], hbody, by simp⟩, ?_⟩
  intro isMultipart h
  obtain ⟨mail, hread, -, -⟩ := h
  have hsplit :
      splitHeader (splitLines (makeMessage [(text "To", text "x")] (text "hi") [])) = none := by
    decide +kernel
  rw [readMail, hsplit] at hread
  exact absurd hread (by simp)

end Codelib.Mailthem
