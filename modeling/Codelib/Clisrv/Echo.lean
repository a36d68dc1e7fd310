import Codelib.Core.Pipe
import Codelib.Core.ReadLine
import Codelib.Core.Run

/-!
# Codelib.Clisrv.Echo

The client and the server of `go/clisrv/clisrv.go` on TCP connections, and **who is answered**
(`answered`).

The server accepts one connection, copies to it what it gets from it, and ends with the client. It
goes on listening meanwhile, so other clients can connect, but nobody ever accepts them: they wait
until the server is gone, and fail.

A `Net` has one server and a client process for each `i : ι`. A process ends when its goroutine has
sent to `ch`. A connection gives its bytes in pieces of any length, and every call of the network may
fail at any time.
-/

namespace Codelib.Clisrv

/-- What the client sends. -/
def request : Text := text "GET / HTTP/1.1\r\n\r\n"

/-- `fmt.Println` -/
def println (s : Text) : Text := s ++ [10]

def dialFailed : Text := println (text "fail to connect to server")

def recvFailed : Text := println (text "fail to get response from server")

inductive Client
  | dialing
  | sending
  /-- In `ReadString`, which has so much in its buffer. -/
  | receiving (buffered : Text)
  | ended (stdout : Text)
  deriving Repr, DecidableEq

inductive Server
  | starting
  | listening
  /-- In `io.Copy`, which has read so much that it has not written yet. -/
  | copying (held : Text)
  | ended
  deriving Repr, DecidableEq

structure Net (ι : Type) where
  client : ι → Client
  server : Server
  /-- What the server has printed. -/
  stdout : Text
  /-- In the order in which `Accept` returns them. -/
  connections : List ι
  toServer : ι → Pipe UInt8
  toClient : ι → Pipe UInt8

/-- A call that returns, or fails. -/
inductive Ev (ι : Type)
  | dial (i : ι)
  | dialFails (i : ι)
  | send (i : ι)
  /-- A read of `ReadString`, with the number of bytes that it gets. -/
  | recv (i : ι) (t : Nat)
  | recvFails (i : ι)
  | listen
  | listenFails
  | accept
  | acceptFails
  /-- A read of `io.Copy`. -/
  | read (t : Nat)
  | write
  | eof
  | copyFails
  deriving Repr, DecidableEq

variable {ι : Type}

/-- Whose call it is; the server's, if no client's. -/
def Ev.owner : Ev ι → Option ι
  | .dial i | .dialFails i | .send i | .recv i _ | .recvFails i => some i
  | _ => none

def Ev.fails : Ev ι → Bool
  | .dialFails _ | .recvFails _ | .listenFails | .acceptFails | .copyFails => true
  | _ => false

/-- The port is open until the server's process ends. -/
def Server.listens : Server → Bool
  | .listening | .copying _ => true
  | _ => false

def Client.isEnded : Client → Bool
  | .ended _ => true
  | _ => false

/-- `ReadString('\n')`, with what it has got so far. -/
def readString (buffered : Text) : Client :=
  let r := readLine .eof buffered
  match r.err with
  | none => .ended (println r.line)
  | some _ => .receiving buffered

namespace Net

def start : Net ι where
  client _ := .dialing
  server := .starting
  stdout := []
  connections := []
  toServer _ := .empty
  toClient _ := .empty

variable [DecidableEq ι]

@[simps] def setClient (n : Net ι) (i : ι) (c : Client) : Net ι :=
  { n with client := Function.update n.client i c }

@[simps] def setToServer (n : Net ι) (i : ι) (p : Pipe UInt8) : Net ι :=
  { n with toServer := Function.update n.toServer i p }

@[simps] def setToClient (n : Net ι) (i : ι) (p : Pipe UInt8) : Net ι :=
  { n with toClient := Function.update n.toClient i p }

@[simps] def connect (n : Net ι) (i : ι) : Net ι := { n with connections := n.connections ++ [i] }

/-- The server goes on to `server`, and prints. -/
@[simps] def goTo (n : Net ι) (server : Server) (printed : Text) : Net ι :=
  { n with server := server, stdout := n.stdout ++ printed }

def exec (n : Net ι) : Ev ι → Option (Net ι)
  | .dial i =>
    if n.client i = .dialing ∧ n.server.listens then
      some ((n.setClient i .sending).connect i)
    else none
  | .dialFails i =>
    if n.client i = .dialing then
      some (n.setClient i (.ended dialFailed))
    else none
  | .send i =>
    if n.client i = .sending then
      some ((n.setClient i (.receiving [])).setToServer i ((n.toServer i).write request))
    else none
  | .recv i t =>
    match n.client i with
    | .receiving buffered =>
      if 0 < t ∧ t ≤ 4096 - buffered.length then
        ((n.toClient i).read t).map fun r =>
          (n.setClient i (readString (buffered ++ r.1))).setToClient i r.2
      else none
    | _ => none
  | .recvFails i =>
    match n.client i with
    | .receiving _ => some (n.setClient i (.ended recvFailed))
    | _ => none
  | .listen =>
    if n.server = .starting then some (n.goTo .listening (println (text "Listen on :8777")))
    else none
  | .listenFails =>
    if n.server = .starting then some (n.goTo .ended (println (text "fail to listen on port")))
    else none
  | .accept =>
    if n.server = .listening ∧ n.connections ≠ [] then
      some (n.goTo (.copying []) (println (text "received: ")))
    else none
  | .acceptFails =>
    if n.server = .listening then some (n.goTo .ended (println (text "Accept error"))) else none
  | .read t =>
    match n.server, n.connections with
    | .copying [], i :: _ =>
      if 0 < t then
        ((n.toServer i).read t).map fun r => (n.goTo (.copying r.1) []).setToServer i r.2
      else none
    | _, _ => none
  | .write =>
    match n.server, n.connections with
    | .copying (b :: held), i :: _ =>
      some ((n.goTo (.copying []) []).setToClient i ((n.toClient i).write (b :: held)))
    | _, _ => none
  | .eof =>
    match n.server, n.connections with
    | .copying [], i :: _ =>
      -- everything was read, and the client has closed the connection
      if (n.client i).isEnded ∧ (n.toServer i).taken = (n.toServer i).sent.length then
        some (n.goTo .ended [])
      else none
    | _, _ => none
  | .copyFails =>
    match n.server with
    | .copying _ => some (n.goTo .ended [])
    | _ => none

def Step (n : Net ι) (e : Ev ι) (n' : Net ι) : Prop := n.exec e = some n'

variable {n n' : Net ι} {i j : ι} {e : Ev ι}

/-- What each call does. -/
inductive Does (n : Net ι) : Ev ι → Net ι → Prop
  | dial {i : ι} (hc : n.client i = .dialing) (hs : n.server.listens) :
      Does n (.dial i) ((n.setClient i .sending).connect i)
  | dialFails {i : ι} (hc : n.client i = .dialing) :
      Does n (.dialFails i) (n.setClient i (.ended dialFailed))
  | send {i : ι} (hc : n.client i = .sending) :
      Does n (.send i)
        ((n.setClient i (.receiving [])).setToServer i ((n.toServer i).write request))
  | recv {i : ι} {t : Nat} {buffered bs : Text} {p : Pipe UInt8}
      (hc : n.client i = .receiving buffered) (ht : 0 < t) (hroom : t ≤ 4096 - buffered.length)
      (hread : (n.toClient i).read t = some (bs, p)) :
      Does n (.recv i t) ((n.setClient i (readString (buffered ++ bs))).setToClient i p)
  | recvFails {i : ι} {buffered : Text} (hc : n.client i = .receiving buffered) :
      Does n (.recvFails i) (n.setClient i (.ended recvFailed))
  | listen (hs : n.server = .starting) :
      Does n .listen (n.goTo .listening (println (text "Listen on :8777")))
  | listenFails (hs : n.server = .starting) :
      Does n .listenFails (n.goTo .ended (println (text "fail to listen on port")))
  | accept (hs : n.server = .listening) (hne : n.connections ≠ []) :
      Does n .accept (n.goTo (.copying []) (println (text "received: ")))
  | acceptFails (hs : n.server = .listening) :
      Does n .acceptFails (n.goTo .ended (println (text "Accept error")))
  | read {i : ι} {t : Nat} {held : Text} {p : Pipe UInt8} (hs : n.server = .copying [])
      (hi : n.connections.head? = some i) (ht : 0 < t)
      (hread : (n.toServer i).read t = some (held, p)) :
      Does n (.read t) ((n.goTo (.copying held) []).setToServer i p)
  | write {i : ι} {held : Text} (hs : n.server = .copying held) (hne : held ≠ [])
      (hi : n.connections.head? = some i) :
      Does n .write ((n.goTo (.copying []) []).setToClient i ((n.toClient i).write held))
  | eof {i : ι} (hs : n.server = .copying []) (hi : n.connections.head? = some i)
      (hend : (n.client i).isEnded)
      (hall : (n.toServer i).taken = (n.toServer i).sent.length) :
      Does n .eof (n.goTo .ended [])
  | copyFails {held : Text} (hs : n.server = .copying held) :
      Does n .copyFails (n.goTo .ended [])

theorem step_iff : n.Step e n' ↔ n.Does e n' := by
  constructor
  · intro h
    cases e with
    | dial i =>
        obtain ⟨⟨hc, hs⟩, h⟩ := Option.ite_none_right_eq_some.mp h
        exact Option.some.inj h ▸ .dial hc hs
    | dialFails i =>
        obtain ⟨hc, h⟩ := Option.ite_none_right_eq_some.mp h
        exact Option.some.inj h ▸ .dialFails hc
    | send i =>
        obtain ⟨hc, h⟩ := Option.ite_none_right_eq_some.mp h
        exact Option.some.inj h ▸ .send hc
    | recv i t =>
        rw [Step, exec] at h
        split at h
        · case h_1 buffered hc =>
            obtain ⟨⟨ht, hroom⟩, h⟩ := Option.ite_none_right_eq_some.mp h
            obtain ⟨⟨bs, p⟩, hread, rfl⟩ := Option.map_eq_some_iff.mp h
            exact .recv hc ht hroom hread
        · exact absurd h.symm (Option.some_ne_none _)
    | recvFails i =>
        rw [Step, exec] at h
        split at h
        · case h_1 buffered hc => exact Option.some.inj h ▸ .recvFails hc
        · exact absurd h.symm (Option.some_ne_none _)
    | listen =>
        obtain ⟨hs, h⟩ := Option.ite_none_right_eq_some.mp h
        exact Option.some.inj h ▸ .listen hs
    | listenFails =>
        obtain ⟨hs, h⟩ := Option.ite_none_right_eq_some.mp h
        exact Option.some.inj h ▸ .listenFails hs
    | accept =>
        obtain ⟨⟨hs, hne⟩, h⟩ := Option.ite_none_right_eq_some.mp h
        exact Option.some.inj h ▸ .accept hs hne
    | acceptFails =>
        obtain ⟨hs, h⟩ := Option.ite_none_right_eq_some.mp h
        exact Option.some.inj h ▸ .acceptFails hs
    | read t =>
        rw [Step, exec] at h
        split at h
        · case h_1 i rest hs hi =>
            obtain ⟨ht, h⟩ := Option.ite_none_right_eq_some.mp h
            obtain ⟨⟨held, p⟩, hread, rfl⟩ := Option.map_eq_some_iff.mp h
            exact .read hs (by rw [hi, List.head?_cons]) ht hread
        · exact absurd h.symm (Option.some_ne_none _)
    | write =>
        rw [Step, exec] at h
        split at h
        · case h_1 b held i rest hs hi =>
            exact Option.some.inj h ▸
              .write hs (List.cons_ne_nil b held) (by rw [hi, List.head?_cons])
        · exact absurd h.symm (Option.some_ne_none _)
    | eof =>
        rw [Step, exec] at h
        split at h
        · case h_1 i rest hs hi =>
            obtain ⟨⟨hend, hall⟩, h⟩ := Option.ite_none_right_eq_some.mp h
            exact Option.some.inj h ▸ .eof hs (by rw [hi, List.head?_cons]) hend hall
        · exact absurd h.symm (Option.some_ne_none _)
    | copyFails =>
        rw [Step, exec] at h
        split at h
        · case h_1 held hs => exact Option.some.inj h ▸ .copyFails hs
        · exact absurd h.symm (Option.some_ne_none _)
  · intro h
    cases h with
    | dial hc hs => exact if_pos ⟨hc, hs⟩
    | dialFails hc => exact if_pos hc
    | send hc => exact if_pos hc
    | recv hc ht hroom hread => simp [Step, exec, hc, ht, hroom, hread]
    | recvFails hc => simp only [Step, exec, hc]
    | listen hs => exact if_pos hs
    | listenFails hs => exact if_pos hs
    | accept hs hne => exact if_pos ⟨hs, hne⟩
    | acceptFails hs => exact if_pos hs
    | read hs hi ht hread =>
        obtain ⟨rest, hrest⟩ := List.head?_eq_some_iff.mp hi
        simp [Step, exec, hs, hrest, ht, hread]
    | @write i held hs hne hi =>
        obtain ⟨rest, hrest⟩ := List.head?_eq_some_iff.mp hi
        obtain ⟨b, held, rfl⟩ := List.exists_cons_of_ne_nil hne
        simp only [Step, exec, hs, hrest]
    | eof hs hi hend hall =>
        obtain ⟨rest, hrest⟩ := List.head?_eq_some_iff.mp hi
        simp only [Step, exec, hs, hrest, hend, hall, and_self, if_true]
    | copyFails hs => simp only [Step, exec, hs]

end Net

/-! ### Reading the answer -/

/-- The first line of what is sent, printed. -/
def answer : Text := println (text "GET / HTTP/1.1\r\n")

theorem readString_part {buffered : Text} (h : 10 ∉ buffered) :
    readString buffered = .receiving buffered := by
  rw [readString, readLine_last _ h]

theorem readString_line {buffered : Text} (h : buffered <+: request) (hend : 10 ∈ buffered) :
    readString buffered = .ended answer := by
  obtain ⟨a, b, rfl, ha⟩ := List.eq_append_cons_of_mem hend
  obtain ⟨rest, hrest⟩ := h
  have hline : (readLine .eof request).line = a ++ [10] := by
    rw [← hrest, List.append_assoc, List.cons_append, readLine_line _ ha]
  rw [readString, readLine_line _ ha, answer, ← hline]
  rfl

/-! ### Every run -/

namespace Net

variable {n n' : Net ι} {i j : ι} {e : Ev ι}

/-- Where client `i` is. -/
def Fits (n : Net ι) (i : ι) : Client → Prop
  | .dialing => (n.toServer i).sent = []
  | .sending => (n.toServer i).sent = [] ∧ i ∈ n.connections
  | .receiving buffered =>
    (n.toServer i).sent = request ∧ i ∈ n.connections ∧
      buffered = (n.toClient i).received ∧ 10 ∉ buffered
  | .ended stdout => stdout = dialFailed ∨ stdout = recvFailed ∨
      stdout = answer ∧ n.connections.head? = some i

/-- Where the server is. -/
def Serves (n : Net ι) : Server → Prop
  | .starting | .listening => ∀ i, (n.toServer i).taken = 0 ∧ (n.toClient i).sent = []
  | .copying held => ∃ i, n.connections.head? = some i ∧
      (n.toClient i).sent ++ held = (n.toServer i).received
  | .ended => True

structure Inv (n : Net ι) : Prop where
  fits : ∀ i, n.Fits i (n.client i)
  serves : n.Serves n.server
  sent : ∀ i, (n.toServer i).sent <+: request
  /-- What comes back is what was sent. -/
  echoed : ∀ i, (n.toClient i).sent <+: (n.toServer i).sent
  /-- Nothing comes from a connection that is not the first. -/
  first : ∀ i, n.connections.head? ≠ some i → (n.toClient i).sent = []

theorem inv_start : Inv (start : Net ι) where
  fits _ := rfl
  serves _ := ⟨rfl, rfl⟩
  sent _ := List.nil_prefix
  echoed _ := List.nil_prefix
  first _ _ := rfl

theorem Fits.frame {c : Client} (h : n.Fits i c)
    (hsent : (n'.toServer i).sent = (n.toServer i).sent)
    (hreceived : (n'.toClient i).received = (n.toClient i).received)
    (hconn : n.connections <+: n'.connections) : n'.Fits i c := by
  obtain ⟨rest, hrest⟩ := hconn
  cases c with
  | dialing => exact hsent.trans h
  | sending => exact ⟨hsent.trans h.1, hrest ▸ List.mem_append_left rest h.2⟩
  | receiving buffered =>
      exact ⟨hsent.trans h.1, hrest ▸ List.mem_append_left rest h.2.1, h.2.2.1.trans hreceived.symm,
        h.2.2.2⟩
  | ended stdout =>
      refine h.imp_right (Or.imp_right fun ⟨hanswer, hhead⟩ => ⟨hanswer, ?_⟩)
      rw [← hrest, List.head?_append, hhead, Option.some_or]

theorem head?_connections_append (h : n.connections.head? = some i) (l : List ι) :
    (n.connections ++ l).head? = some i := by
  rw [List.head?_append, h, Option.some_or]

theorem Serves.frame {s : Server} (h : n.Serves s)
    (htaken : ∀ j, (n'.toServer j).taken = (n.toServer j).taken)
    (hreceived : ∀ j, (n'.toServer j).received = (n.toServer j).received)
    (hsent : ∀ j, (n'.toClient j).sent = (n.toClient j).sent)
    (hconn : n.connections <+: n'.connections) : n'.Serves s := by
  obtain ⟨rest, hrest⟩ := hconn
  have hwaits (h : ∀ j, (n.toServer j).taken = 0 ∧ (n.toClient j).sent = []) (j : ι) :
      (n'.toServer j).taken = 0 ∧ (n'.toClient j).sent = [] :=
    ⟨(htaken j).trans (h j).1, (hsent j).trans (h j).2⟩
  cases s with
  | starting => exact hwaits h
  | listening => exact hwaits h
  | copying held =>
      obtain ⟨i, hi, hcopy⟩ := h
      refine ⟨i, ?_, by rw [hsent, hreceived, hcopy]⟩
      rw [← hrest]
      exact head?_connections_append hi rest
  | ended => trivial

theorem Serves.copying {held : Text} (h : n.Serves n.server) (hs : n.server = .copying held)
    (hi : n.connections.head? = some i) :
    (n.toClient i).sent ++ held = (n.toServer i).received := by
  rw [hs] at h
  obtain ⟨k, hk, hcopy⟩ := h
  obtain rfl := Option.some.inj (hi.symm.trans hk)
  exact hcopy

variable [DecidableEq ι]

/-- The calls of client `i` change nothing for the others. -/
theorem fits_update {c : Client} (h : ∀ j, n.Fits j (n.client j))
    (hclient : n'.client = Function.update n.client i c) (hi : n'.Fits i c)
    (hsent : ∀ j ≠ i, n'.toServer j = n.toServer j)
    (hreceived : ∀ j ≠ i, n'.toClient j = n.toClient j)
    (hconn : n.connections <+: n'.connections) (j : ι) : n'.Fits j (n'.client j) := by
  rw [hclient]
  by_cases hj : j = i
  · obtain rfl := hj
    rwa [Function.update_self]
  · rw [Function.update_of_ne hj]
    exact (h j).frame (by rw [hsent j hj]) (by rw [hreceived j hj]) hconn

/-- A read of `ReadString` goes on, or has the answer. -/
theorem Inv.recv (h : n.Inv) {t : Nat} {buffered bs : Text} {p : Pipe UInt8}
    (hc : n.client i = .receiving buffered) (hread : (n.toClient i).read t = some (bs, p)) :
    p.received = buffered ++ bs ∧
      (10 ∉ buffered ++ bs ∧ readString (buffered ++ bs) = .receiving (buffered ++ bs) ∨
        readString (buffered ++ bs) = .ended answer ∧ n.connections.head? = some i) := by
  obtain ⟨hsent, -, hbuffered, -⟩ : n.Fits i (.receiving buffered) := hc ▸ h.fits i
  have hreceived : p.received = buffered ++ bs := by rw [Pipe.received_read hread, hbuffered]
  have hpart : buffered ++ bs <+: request := by
    rw [← hreceived, ← hsent]
    exact (Pipe.received_prefix p).trans (Pipe.sent_read hread ▸ h.echoed i)
  refine ⟨hreceived, ?_⟩
  by_cases hend : 10 ∈ buffered ++ bs
  · refine .inr ⟨readString_line hpart hend, ?_⟩
    -- it has got something, so it is the first
    by_contra hfirst
    have hnil := Pipe.received_of_sent_eq_nil ((Pipe.sent_read hread).trans (h.first i hfirst))
    rw [← hreceived, hnil] at hend
    exact List.not_mem_nil hend
  · exact .inl ⟨hend, readString_part hend⟩

theorem Inv.step_fits (h : n.Inv) (hs : n.Does e n') : ∀ j, n'.Fits j (n'.client j) := by
  have hframe : ∀ {m : Net ι}, m.client = n.client → (∀ j, (m.toServer j).sent = (n.toServer j).sent) →
      (∀ j, (m.toClient j).received = (n.toClient j).received) →
      m.connections = n.connections → ∀ j, m.Fits j (m.client j) := by
    intro m hclient hsent hreceived hconn j
    rw [hclient]
    exact (h.fits j).frame (hsent j) (hreceived j) (hconn ▸ List.prefix_rfl)
  cases hs with
  | @dial i hc hs =>
      refine fits_update h.fits rfl ?_ (fun _ _ => rfl) (fun _ _ => rfl) (List.prefix_append _ _)
      have hfits := h.fits i
      rw [hc] at hfits
      exact ⟨hfits, List.mem_append_right _ (List.mem_singleton_self i)⟩
  | dialFails hc =>
      exact fits_update h.fits rfl (.inl rfl) (fun _ _ => rfl) (fun _ _ => rfl) List.prefix_rfl
  | @send i hc =>
      have hfits := h.fits i
      rw [hc] at hfits
      refine fits_update h.fits rfl ?_ (fun j hj => Function.update_of_ne hj _ _) (fun _ _ => rfl)
        List.prefix_rfl
      have hnil : (n.toClient i).sent = [] := List.prefix_nil.mp (hfits.1 ▸ h.echoed i)
      refine ⟨?_, hfits.2, (Pipe.received_of_sent_eq_nil hnil).symm, List.not_mem_nil⟩
      simp [hfits.1]
  | @recv i t buffered bs p hc ht hroom hread =>
      obtain ⟨hsent, hmem, -, -⟩ : n.Fits i (.receiving buffered) := hc ▸ h.fits i
      refine fits_update h.fits rfl ?_ (fun _ _ => rfl)
        (fun j hj => Function.update_of_ne hj _ _) List.prefix_rfl
      obtain ⟨hreceived, ⟨hend, hpart⟩ | ⟨hline, hfirst⟩⟩ := h.recv hc hread
      · rw [hpart]
        refine ⟨hsent, hmem, ?_, hend⟩
        simp [hreceived]
      · rw [hline]
        exact .inr (.inr ⟨rfl, hfirst⟩)
  | recvFails hc =>
      exact fits_update h.fits rfl (.inr (.inl rfl)) (fun _ _ => rfl) (fun _ _ => rfl)
        List.prefix_rfl
  | @read i t held p hs hi ht hread =>
      refine hframe rfl (fun j => ?_) (fun _ => rfl) rfl
      rcases eq_or_ne j i with rfl | hj
      · simp [Pipe.sent_read hread]
      · simp [hj]
  | @write i held hs hne hi =>
      refine hframe rfl (fun _ => rfl) (fun j => ?_) rfl
      rcases eq_or_ne j i with rfl | hj
      · simp
      · simp [hj]
  | listen hs => exact hframe rfl (fun _ => rfl) (fun _ => rfl) rfl
  | listenFails hs => exact hframe rfl (fun _ => rfl) (fun _ => rfl) rfl
  | accept hs hne => exact hframe rfl (fun _ => rfl) (fun _ => rfl) rfl
  | acceptFails hs => exact hframe rfl (fun _ => rfl) (fun _ => rfl) rfl
  | eof hs hi hend hall => exact hframe rfl (fun _ => rfl) (fun _ => rfl) rfl
  | copyFails hs => exact hframe rfl (fun _ => rfl) (fun _ => rfl) rfl

theorem Inv.step_serves (h : n.Inv) (hs : n.Does e n') : n'.Serves n'.server := by
  have hserves := h.serves
  cases hs with
  | dial hc hs =>
      exact hserves.frame (fun _ => rfl) (fun _ => rfl) (fun _ => rfl) (List.prefix_append _ _)
  | dialFails hc =>
      exact hserves.frame (fun _ => rfl) (fun _ => rfl) (fun _ => rfl) List.prefix_rfl
  | @send i hc =>
      refine hserves.frame (fun j => ?_) (fun j => ?_) (fun _ => rfl) List.prefix_rfl
      all_goals
        rcases eq_or_ne j i with rfl | hj
        · simp
        · simp [hj]
  | @recv i t buffered bs p hc ht hroom hread =>
      refine hserves.frame (fun _ => rfl) (fun _ => rfl) (fun j => ?_) List.prefix_rfl
      rcases eq_or_ne j i with rfl | hj
      · simp [Pipe.sent_read hread]
      · simp [hj]
  | recvFails hc =>
      exact hserves.frame (fun _ => rfl) (fun _ => rfl) (fun _ => rfl) List.prefix_rfl
  | listen hs =>
      rw [hs] at hserves
      exact hserves
  | accept hs hne =>
      rw [hs] at hserves
      obtain ⟨i, rest, hrest⟩ := List.exists_cons_of_ne_nil hne
      refine ⟨i, by rw [goTo_connections, hrest, List.head?_cons], ?_⟩
      simp [Pipe.received, hserves i]
  | @read i t held p hs hi ht hread =>
      have hcopy := hserves.copying hs hi
      rw [List.append_nil] at hcopy
      refine ⟨i, hi, ?_⟩
      simp [Pipe.received_read hread, hcopy]
  | @write i held hs hne hi =>
      refine ⟨i, hi, ?_⟩
      simpa using hserves.copying hs hi
  | listenFails hs => trivial
  | acceptFails hs => trivial
  | eof hs hi hend hall => trivial
  | copyFails hs => trivial

theorem Inv.step_sent (h : n.Inv) (hs : n.Does e n') (j : ι) : (n'.toServer j).sent <+: request := by
  cases hs with
  | @send i hc =>
      rcases eq_or_ne j i with rfl | hj
      · have hnil : (n.toServer j).sent = [] := (hc ▸ h.fits j : n.Fits j .sending).1
        simp [hnil]
      · simpa [hj] using h.sent j
  | @read i t held p hs hi ht hread =>
      rcases eq_or_ne j i with rfl | hj
      · simpa [Pipe.sent_read hread] using h.sent j
      · simpa [hj] using h.sent j
  | _ => exact h.sent j

theorem Inv.step_echoed (h : n.Inv) (hs : n.Does e n') (j : ι) :
    (n'.toClient j).sent <+: (n'.toServer j).sent := by
  cases hs with
  | @send i hc =>
      rcases eq_or_ne j i with rfl | hj
      · simpa using (h.echoed j).trans (List.prefix_append _ _)
      · simpa [hj] using h.echoed j
  | @recv i t buffered bs p hc ht hroom hread =>
      rcases eq_or_ne j i with rfl | hj
      · simpa [Pipe.sent_read hread] using h.echoed j
      · simpa [hj] using h.echoed j
  | @read i t held p hs hi ht hread =>
      rcases eq_or_ne j i with rfl | hj
      · simpa [Pipe.sent_read hread] using h.echoed j
      · simpa [hj] using h.echoed j
  | @write i held hs hne hi =>
      rcases eq_or_ne j i with rfl | hj
      · have hcopy := h.serves.copying hs hi
        simpa [hcopy] using Pipe.received_prefix (n.toServer j)
      · simpa [hj] using h.echoed j
  | _ => exact h.echoed j

theorem Inv.step_first (h : n.Inv) (hs : n.Does e n') (j : ι)
    (hj : n'.connections.head? ≠ some j) : (n'.toClient j).sent = [] := by
  cases hs with
  | @dial i hc hs => exact h.first j fun hhead => hj (head?_connections_append hhead [i])
  | @recv i t buffered bs p hc ht hroom hread =>
      rcases eq_or_ne j i with rfl | hji
      · simpa [Pipe.sent_read hread] using h.first j hj
      · simpa [hji] using h.first j hj
  | @write i held hs hne hi =>
      have hji : j ≠ i := fun heq => hj (heq ▸ hi)
      simpa [hji] using h.first j hj
  | _ => exact h.first j hj

theorem Inv.step (h : n.Inv) (hs : n.Step e n') : n'.Inv :=
  have hdoes := step_iff.mp hs
  ⟨h.step_fits hdoes, h.step_serves hdoes, h.step_sent hdoes, h.step_echoed hdoes,
    h.step_first hdoes⟩

theorem inv_of_run {evs : List (Ev ι)} (h : Run Step .start evs n) : n.Inv :=
  Run.invariant_state inv_start Inv.step h

end Net

end Codelib.Clisrv
