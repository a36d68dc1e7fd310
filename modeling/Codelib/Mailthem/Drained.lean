import Codelib.Mailthem.Recover

/-!
# Codelib.Mailthem.Drained

**When `makeMessage` returns all that it has written** (`makeMessage_eq_written_iff`).

The buffer is drained by reading up to a NUL. The line that follows the body ends the buffer, or
the boundary line of the last attachment does, so a NUL anywhere loses something. Base64 has
none, and of the name of an attachment only the base is written.
-/

namespace Codelib.Mailthem

/-- What is written to the buffer. -/
def written (header : List (Text × Text)) (body : Text) (attachments : List (Text × Text)) : Text :=
  header.flatMap (fun h => headerLine h.1 h.2) ++
  (if attachments.length > 0 then
    text "Content-Type: multipart/mixed; boundary=" ++ boundary ++ text "\r\n" ++
      text "--" ++ boundary ++ text "\r\n"
  else []) ++
  text "Content-Type: text/plain; charset=\"utf-8\"\r\n" ++ body ++ text "\r\n" ++
  attachments.flatMap (fun a => attachment a.1 a.2)

/-- No NUL in what the message is made from. -/
structure NulFree (header : List (Text × Text)) (body : Text) (attachments : List (Text × Text)) :
    Prop where
  header : ∀ h ∈ header, 0 ∉ h.1 ∧ 0 ∉ h.2
  body : 0 ∉ body
  attachments : ∀ a ∈ attachments, 0 ∉ base a.1

/-! ### Reading up to a delimiter -/

/-- Nothing is lost if the delimiter is at the end, or nowhere. -/
theorem readString_eq_self_iff (delim : UInt8) (buf : Text) :
    readString delim buf = buf ↔ delim ∉ buf.dropLast := by
  induction buf with
  | nil => simp [readString]
  | cons c buf ih =>
      rw [readString]
      rcases eq_or_ne buf [] with rfl | hne
      · simp [readString]
      · rw [List.dropLast_cons_of_ne_nil hne, List.mem_cons, not_or]
        split
        · case isTrue heq =>
            -- the first byte alone is not all
            simp [heq, Ne.symm hne]
        · case isFalse heq => simp [ih, Ne.symm heq]

theorem readString_concat_eq_self_iff {delim c : UInt8} (hc : delim ≠ c) (buf : Text) :
    readString delim (buf ++ [c]) = buf ++ [c] ↔ delim ∉ buf ++ [c] := by
  simp [readString_eq_self_iff, hc]

/-! ### NUL in the buffer -/

section Written

variable {header attachments : List (Text × Text)} {body : Text}

theorem nul_mem_headerLine (k v : Text) : 0 ∈ headerLine k v ↔ 0 ∈ k ∨ 0 ∈ v := by
  have hcolon : 0 ∉ text ": " := by decide
  have hcrlf : 0 ∉ text "\r\n" := by decide
  simp only [headerLine, List.mem_append, hcolon, hcrlf, or_false]

theorem nul_not_mem_encode (content : Text) : 0 ∉ Base64.encode content :=
  fun h => (Base64.mem_encode h).elim (by decide) (by decide)

theorem nul_mem_attachment (name content : Text) : 0 ∈ attachment name content ↔ 0 ∈ base name := by
  have hdelim : 0 ∉ text "--" ∧ 0 ∉ boundary ∧ 0 ∉ text "\r\n" ∧ 0 ∉ text "\n--" := by decide
  have hfields : 0 ∉ text "Content-Type: application/octet-stream\n" ∧
      0 ∉ text "Content-Transfer-Encoding: base64\n" ∧
      0 ∉ text "Content-Disposition: attachment; filename=\"" ∧ 0 ∉ text "\"\n\n" := by decide
  obtain ⟨hhyphens, hboundary, hcrlf, hend⟩ := hdelim
  obtain ⟨htype, hencoding, hdisposition, hquote⟩ := hfields
  simp only [attachment, List.mem_append, hhyphens, hboundary, hcrlf, hend, htype, hencoding,
    hdisposition, hquote, nul_not_mem_encode content, or_false, false_or]

theorem nul_not_mem_written_iff :
    0 ∉ written header body attachments ↔ NulFree header body attachments := by
  have hannounce : 0 ∉ (if attachments.length > 0 then
      text "Content-Type: multipart/mixed; boundary=" ++ boundary ++ text "\r\n" ++
        text "--" ++ boundary ++ text "\r\n"
      else []) := by
    split
    · decide
    · exact List.not_mem_nil
  have htype : 0 ∉ text "Content-Type: text/plain; charset=\"utf-8\"\r\n" := by decide
  have hcrlf : 0 ∉ text "\r\n" := by decide
  simp only [written, List.mem_append, List.mem_flatMap, nul_mem_headerLine, nul_mem_attachment,
    hannounce, htype, hcrlf, or_false, not_or, not_exists, not_and]
  constructor
  · intro h
    exact ⟨h.1.1, h.1.2, h.2⟩
  · intro h
    exact ⟨⟨h.header, h.body⟩, h.attachments⟩

theorem endsLine_append {b : Text} (h : EndsLine b) (a : Text) : EndsLine (a ++ b) := by
  obtain ⟨c, rfl⟩ := h
  exact ⟨a ++ c, (List.append_assoc ..).symm⟩

theorem endsLine_crlf : EndsLine (text "\r\n") := ⟨[13], by decide⟩

/-- Whatever is written, a line end is written last. -/
theorem endsLine_written (header : List (Text × Text)) (body : Text)
    (attachments : List (Text × Text)) : EndsLine (written header body attachments) := by
  rcases List.eq_nil_or_concat' attachments with rfl | ⟨attachments, a, rfl⟩
  · rw [written, List.flatMap_nil, List.append_nil]
    exact endsLine_append endsLine_crlf _
  · rw [written, List.flatMap_append, List.flatMap_singleton, ← List.append_assoc]
    exact endsLine_append (endsLine_append endsLine_crlf _) _

theorem makeMessage_eq_readString (header : List (Text × Text)) (body : Text)
    (attachments : List (Text × Text)) :
    makeMessage header body attachments = readString 0 (written header body attachments) := by
  unfold makeMessage written
  split
  · simp only [List.append_assoc]
  · simp only [List.append_assoc, List.nil_append]

end Written

/-- **When all is returned**: if and only if no header field, no base name of an attachment and
no body has a NUL, in whatever order the maps are gone through. -/
theorem makeMessage_eq_written_iff (header : List (Text × Text)) (body : Text)
    (attachments : List (Text × Text)) :
    makeMessage header body attachments = written header body attachments ↔
      NulFree header body attachments := by
  obtain ⟨front, hfront⟩ := endsLine_written header body attachments
  rw [makeMessage_eq_readString, ← nul_not_mem_written_iff, hfront]
  exact readString_concat_eq_self_iff (by decide) front

/-- A body with a NUL in front: the line end behind it is lost. -/
theorem written_lost : ¬ ∀ (header : List (Text × Text)) (body : Text)
    (attachments : List (Text × Text)),
      makeMessage header body attachments = written header body attachments := by
  intro hall
  exact absurd (hall [] [0] []) (by decide +kernel)

end Codelib.Mailthem
