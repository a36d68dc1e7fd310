import Codelib.Core.Base64

/-!
# Codelib.Core.Mime

**Reading a mail** by the rules of MIME, as far as texts and attached files go.

* The header block ends at the first empty line.
* A multipart body consists of parts, each opened by a line `--boundary`, and is closed
  by a line `--boundary--`; what stands in front of the first part and behind the last
  one is skipped. The line end in front of either line belongs to that line.
* Each part has its own header block, ended by an empty line. It is a file if its header
  block names one, and a text otherwise.

How a reader finds out from the header block that the body is a multipart is left open:
it is a parameter. Line ends may be mixed.

Nothing here names a program of the repository.
-/

namespace Codelib.Mime

/-- What a mail contains; a file has a name and bytes. -/
structure Mail where
  texts : List Text
  files : List (Text × Text)
  deriving Repr, DecidableEq

/-! ### Reading -/

/-- The lines of the header block, and what follows the empty line. -/
def splitHeader : List Text → Option (List Text × List Text)
  | [] => none
  | line :: lines =>
    if dropLineEnd line = [] then some ([], lines)
    else (splitHeader lines).map fun r => (dropLineEnd line :: r.1, r.2)

def openingLine (boundary : Text) : Text := text "--" ++ boundary

def closingLine (boundary : Text) : Text := text "--" ++ boundary ++ text "--"

/-- The lines of each part. `part` is the one that has been opened last. -/
def splitParts (boundary : Text) : Option (List Text) → List Text → Option (List (List Text))
  | _, [] => none
  | part, line :: lines =>
    if dropLineEnd line = closingLine boundary then
      some part.toList
    else if dropLineEnd line = openingLine boundary then
      (splitParts boundary (some []) lines).map (part.toList ++ ·)
    else
      splitParts boundary (part.map (· ++ [line])) lines

/-- Some lines as a text, without the last line end. -/
def content (lines : List Text) : Text := dropLineEnd lines.flatten

/-- The name of the file in a part. -/
def fileName (header : List Text) : Option Text :=
  header.findSome? fun line =>
    let disposition := text "Content-Disposition: attachment; filename=\""
    if disposition.isPrefixOf line ∧ line.getLast? = some 34 then
      some (line.drop disposition.length).dropLast
    else
      none

/-- A text, or a file. -/
def readPart (part : List Text) : Option (Text ⊕ Text × Text) := do
  let (header, body) ← splitHeader part
  if let some name := fileName header then
    if text "Content-Transfer-Encoding: base64" ∈ header then
      let bytes ← Base64.decode ((content body).filter fun c => c ≠ 10 ∧ c ≠ 13)
      return .inr (name, bytes)
    else
      return .inr (name, content body)
  else
    return .inl (content body)

def readMail (isMultipart : List Text → Bool) (boundary msg : Text) : Option Mail := do
  let (header, body) ← splitHeader (splitLines msg)
  if isMultipart header then
    let parts ← (← splitParts boundary none body).mapM readPart
    return ⟨parts.filterMap Sum.getLeft?, parts.filterMap Sum.getRight?⟩
  else
    return ⟨[content body], []⟩

example :
    readMail (· ≠ []) (text "b") (text "To: x\r\n\r\n--b\n\nhi\r\n--b\r\n" ++
      text "Content-Disposition: attachment; filename=\"f\"\n" ++
      text "Content-Transfer-Encoding: base64\n\nbGlnaHQgdw==\n--b--\r\n") =
    some ⟨[text "hi"], [(text "f", text "light w")]⟩ := by decide +kernel

/-! ### Header blocks and parts -/

/-- Lines that are not empty belong to the header block. -/
theorem splitHeader_append {front : List Text} (h : ∀ l ∈ front, dropLineEnd l ≠ [])
    (lines : List Text) :
    splitHeader (front ++ lines) =
      (splitHeader lines).map fun r => (front.map dropLineEnd ++ r.1, r.2) := by
  induction front with
  | nil => simp
  | cons l front ih =>
      rw [List.cons_append, splitHeader, if_neg (h l List.mem_cons_self),
        ih fun l' hl' => h l' (List.mem_cons_of_mem l hl'), Option.map_map]
      rfl

/-- What follows the header block is the end of the message, by a line at least. -/
theorem splitHeader_suffix {lines header body : List Text}
    (h : splitHeader lines = some (header, body)) :
    ∃ front line, lines = front ++ line :: body ∧ dropLineEnd line = [] := by
  induction lines generalizing header with
  | nil => exact absurd h (by simp [splitHeader])
  | cons l lines ih =>
      rw [splitHeader] at h
      split at h
      · case isTrue hempty =>
          obtain ⟨-, rfl⟩ := Prod.mk.inj (Option.some.inj h)
          exact ⟨[], l, rfl, hempty⟩
      · obtain ⟨⟨header', body'⟩, hrest, hr⟩ := Option.map_eq_some_iff.mp h
        obtain ⟨-, rfl⟩ := Prod.mk.inj hr
        obtain ⟨front, line, rfl, hempty⟩ := ih hrest
        exact ⟨l :: front, line, rfl, hempty⟩

/-- A multipart that is never closed. -/
theorem splitParts_eq_none {boundary : Text} {lines : List Text}
    (h : ∀ l ∈ lines, dropLineEnd l ≠ closingLine boundary) (part : Option (List Text)) :
    splitParts boundary part lines = none := by
  induction lines generalizing part with
  | nil => rfl
  | cons l lines ih =>
      have hrest := ih fun l' hl' => h l' (List.mem_cons_of_mem l hl')
      rw [splitParts, if_neg (h l List.mem_cons_self), hrest, hrest]
      split <;> rfl

end Codelib.Mime
