import Codelib.Mailthem.Drained
import Codelib.Mailthem.Prompts

/-!
# Codelib.Mailthem.Deliver

`main` of `go/mailthem/mailthem.go`, and **what it sends** (`delivers`).

Everything is asked for before the first mail is sent, so a panic sends nothing. A mail that cannot
be sent does not keep the next ones from being sent.

What the program is run in is the `Host`: files, the password, the mail server, and the order in
which `range` goes through a map.
-/

namespace Codelib.Mailthem

/-- What `smtp.PlainAuth` is given. -/
structure Auth where
  username : Text
  password : Text
  host : Text
  deriving Repr, DecidableEq

/-- What `smtp.SendMail` is given, but for the server. -/
structure Mail where
  «from» : Text
  «to» : List Text
  msg : Text
  deriving Repr, DecidableEq

/-- An order in which `range` goes through maps. -/
abbrev Order := { f : List (Text × Text) → List (Text × Text) // ∀ m, (f m).Perm m }

structure Host where
  /-- What the reads of standard input end with. -/
  stop : ReadError
  /-- `gopass.GetPass` -/
  getPass : Except Text Text
  /-- `os.Open`, and what is read of the file. -/
  file : Text → Except Text (Text × ReadError)
  /-- The orders for the mail behind so many others. -/
  header : Nat → Order
  attachments : Nat → Order
  /-- `smtp.SendMail`, behind other mails. -/
  sendMail : Auth → List Mail → Mail → Option Text

inductive Panic
  | read (err : ReadError)
  | password (message : Text)
  | file (message : Text)
  deriving Repr, DecidableEq

/-- A mail, and the error of `smtp.SendMail`. -/
structure Sent where
  mail : Mail
  err : Option Text
  deriving Repr, DecidableEq

theorem mapError_eq_ok {ε ε' α : Type} {x : Except ε α} {f : ε → ε'} {a : α} :
    x.mapError f = .ok a ↔ x = .ok a := by
  cases x with
  | error e => simp [Except.mapError]
  | ok b => simp [Except.mapError]

/-! ### The program -/

namespace Host

variable (host : Host)

def oneLiner (stdin : List Text) : Except Panic (Text × List Text) :=
  (oneLinerFrom host.stop stdin).mapError .read

/-- `ioutil.ReadFile` -/
def readFile (filename : Text) : Except Panic Text := do
  match ← (host.file filename).mapError .file with
  | (content, .eof) => return content
  | (_, .failed message) => throw (.file message)

/-- `getAuthInfo` -/
def getAuthInfo (stdin : List Text) : Except Panic (Text × Text × List Text) := do
  let (username, stdin) ← host.oneLiner stdin
  let password ← host.getPass.mapError .password
  return (username, password, stdin)

/-- What `readStudentInfo` makes of the file. -/
def students (addrListPath : Text) : Except Panic (List SInfo) := do
  let (addrListFile, stop) ← (host.file addrListPath).mapError .file
  (readStudentInfo stop addrListFile).mapError .read

/-- `attachments[filename] = content` -/
def insert (attachments : List (Text × Text)) (filename content : Text) : List (Text × Text) :=
  attachments.filter (·.1 ≠ filename) ++ [(filename, content)]

theorem oneLiner_eq_ok {stdin : List Text} {r : Text × List Text} :
    host.oneLiner stdin = .ok r ↔ oneLinerFrom host.stop stdin = .ok r := by
  rw [oneLiner, mapError_eq_ok]

theorem oneLiner_lt {stdin stdin' : List Text} {line : Text}
    (h : host.oneLiner stdin = .ok (line, stdin')) : stdin'.length < stdin.length := by
  rw [oneLiner_eq_ok] at h
  by_cases hlf : 10 ∈ stdin.flatten
  · obtain ⟨pre, a, b, post, rfl, hpre, ha⟩ := exists_piece hlf
    rw [oneLinerFrom_line hpre ha, Except.ok.injEq, Prod.mk.injEq] at h
    rw [← h.2, List.length_append, List.length_cons]
    exact Nat.lt_add_left _ (Nat.lt_succ_self _)
  · rw [oneLinerFrom_last hlf] at h
    exact absurd h nofun

/-- The loop of `readAttachInfo`. -/
def readAttachInfo (attachments : List (Text × Text)) (stdin : List Text) :
    Except Panic (List (Text × Text) × List Text) :=
  match _h : host.oneLiner stdin with
  | .error err => .error err
  | .ok (filename, stdin') =>
    if filename = [] then .ok (attachments, stdin')
    else
      match host.readFile filename with
      | .error err => .error err
      | .ok content => readAttachInfo (insert attachments filename content) stdin'
termination_by stdin.length
decreasing_by exact host.oneLiner_lt _h

/-- The header of the message to `each`. -/
def headerFor (username title : Text) (each : SInfo) : List (Text × Text) :=
  [(text "From", username), (text "To", each.addr), (text "Subject", title),
    (text "MIME-Version", text "1.0")]

/-- The loop of `main` over the students; `sent` has been sent. -/
def deliver (auth : Auth) (title body : Text) (attachments : List (Text × Text)) :
    List Sent → List SInfo → List Sent
  | sent, [] => sent
  | sent, each :: sl =>
    let header := headerFor auth.username title each
    let msgstr := makeMessage ((host.header sent.length).1 header) body
      ((host.attachments sent.length).1 attachments)
    let mail : Mail := ⟨auth.username, [each.addr], msgstr⟩
    let err := host.sendMail auth (sent.map Sent.mail) mail
    deliver auth title body attachments (sent ++ [⟨mail, err⟩]) sl

def main (stdin : List Text) : Except Panic (List Sent) := do
  let (username, password, stdin) ← host.getAuthInfo stdin
  let (addrListPath, stdin) ← host.oneLiner stdin
  let sl ← host.students addrListPath
  let (attachments, stdin) ← host.readAttachInfo [] stdin
  let (title, stdin) ← host.oneLiner stdin
  let (filename, _) ← host.oneLiner stdin
  let body ← host.readFile filename
  -- to avoid server recognition, use gmail as default
  let auth : Auth := ⟨username, password, text "smtp.gmail.com"⟩
  return host.deliver auth title body attachments [] sl

/-! ### What was asked for -/

end Host

/-! ### What cannot be in a field -/

/-- An answer is one line. -/
theorem lf_not_mem_of_oneLiner {stop : ReadError} {stdin rest : List Text} {line : Text}
    (h : oneLinerFrom stop stdin = .ok (line, rest)) : 10 ∉ line := by
  by_cases hlf : 10 ∈ stdin.flatten
  · obtain ⟨pre, a, b, post, rfl, hpre, ha⟩ := exists_piece hlf
    rw [oneLinerFrom_line hpre ha, Except.ok.injEq, Prod.mk.injEq] at h
    obtain ⟨rfl, -⟩ := h
    intro hmem
    have hline := (isInfix_trim_line (pre.flatten ++ a)).subset hmem
    exact (List.mem_append.mp hline).elim hpre ha
  · rw [oneLinerFrom_last hlf] at h
    exact absurd h nofun

theorem lf_not_mem_of_answers {stop : ReadError} {n : Nat} {stdin rest lines : List Text}
    (h : answers stop n stdin = .ok (lines, rest)) : ∀ l ∈ lines, 10 ∉ l := by
  induction n generalizing stdin lines with
  | zero =>
      obtain ⟨rfl, -⟩ := Prod.mk.inj (Except.ok.inj h)
      exact List.forall_mem_nil _
  | succ n ih =>
      obtain ⟨line, stdin', lines', hline, hlines, rfl⟩ := answers_succ.mp h
      exact List.forall_mem_cons.mpr ⟨lf_not_mem_of_oneLiner hline, ih hlines⟩

end Codelib.Mailthem
