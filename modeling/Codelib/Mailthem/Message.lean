import Codelib.Core.Base64

/-!
# Codelib.Mailthem.Message

`makeMessage` of `go/mailthem/mailthem.go`.

* Strings and byte slices are bytes. A map is the list of its entries, in the order in
  which `range` happens to go through it.
* `path.Base` and `ReadString` follow their documentation.
* The student `each` is not used, and the message is also printed.
-/

namespace Codelib.Mailthem

def boundary : Text := text "f46d043c813270fc6b04c2d223da"

/-- `path.Base` -/
def base (path : Text) : Text :=
  if path = [] then
    text "."
  else
    -- strip trailing slashes, and find the last element
    let path := (path.reverse.dropWhile (· = 47)).reverse
    let path := (path.reverse.takeWhile (· ≠ 47)).reverse
    -- if empty now, it had only slashes
    if path = [] then text "/" else path

/-- `buf.ReadString(delim)`, which returns all there is if it does not find `delim`. -/
def readString (delim : UInt8) : Text → Text
  | [] => []
  | c :: buf => if c = delim then [c] else c :: readString delim buf

/-- The body of the loop over the header. -/
def headerLine (k v : Text) : Text := k ++ text ": " ++ v ++ text "\r\n"

/-- The body of the loop over the attachments. -/
def attachment (name content : Text) : Text :=
  text "--" ++ boundary ++ text "\r\n" ++
  text "Content-Type: application/octet-stream\n" ++
  text "Content-Transfer-Encoding: base64\n" ++
  text "Content-Disposition: attachment; filename=\"" ++ base name ++ text "\"\n\n" ++
  Base64.encode content ++
  text "\n--" ++ boundary ++ text "\r\n"

def makeMessage (header : List (Text × Text)) (body : Text)
    (attachments : List (Text × Text)) : Text :=
  let buf := header.flatMap fun h => headerLine h.1 h.2
  let buf := if attachments.length > 0 then
      buf ++ text "Content-Type: multipart/mixed; boundary=" ++ boundary ++ text "\r\n" ++
        text "--" ++ boundary ++ text "\r\n"
    else buf
  let buf := buf ++ text "Content-Type: text/plain; charset=\"utf-8\"\r\n"
  -- start of body
  let buf := buf ++ body ++ text "\r\n"
  -- start of attachment
  let buf := buf ++ attachments.flatMap fun a => attachment a.1 a.2
  readString 0 buf

end Codelib.Mailthem
