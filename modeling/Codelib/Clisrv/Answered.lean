import Codelib.Clisrv.Echo

/-!
# Codelib.Clisrv.Answered

**Who is answered**: the client that connects first, and no other (`answered`). Each process makes a
bounded number of calls, and without failures there is always one to make until the first client and
the server have ended.
-/

namespace Codelib.Clisrv

variable {ι : Type}

/-! ### How many calls there are -/

/-- The calls that a client has before it at most. -/
def Client.remaining : Client → Nat
  | .dialing => request.length + 3
  | .sending => request.length + 2
  | .receiving buffered => request.length + 1 - buffered.length
  | .ended _ => 0

theorem remaining_readString (buffered : Text) :
    (readString buffered).remaining ≤ request.length + 1 - buffered.length := by
  unfold readString
  dsimp only
  split
  · exact Nat.zero_le _
  · exact Nat.le_refl _

namespace Net

variable {n n' : Net ι} {i j : ι} {e : Ev ι}

/-- What the server has read. -/
def copied (n : Net ι) : Nat :=
  match n.connections with
  | [] => 0
  | i :: _ => (n.toServer i).taken

/-- The calls that the server has before it at most: two for each byte. -/
def serverRemaining (n : Net ι) : Nat :=
  match n.server with
  | .starting => 2 * request.length + 3
  | .listening => 2 * request.length + 2
  | .copying held => 2 * (request.length - n.copied) + (if held = [] then 0 else 1) + 1
  | .ended => 0

def remaining (n : Net ι) : Option ι → Nat
  | none => n.serverRemaining
  | some i => (n.client i).remaining

theorem copied_eq (h : n.connections.head? = some i) : n.copied = (n.toServer i).taken := by
  obtain ⟨rest, hrest⟩ := List.head?_eq_some_iff.mp h
  rw [copied, hrest]

theorem serverRemaining_pos (h : n.server ≠ .ended) : 0 < n.serverRemaining := by
  unfold serverRemaining
  split
  · exact Nat.succ_pos _
  · exact Nat.succ_pos _
  · exact Nat.succ_pos _
  · case h_4 hs => exact absurd hs h

variable [DecidableEq ι]

theorem step_copied (hs : n.Does e n') : n.copied ≤ n'.copied := by
  cases hs with
  | @dial i hc hs =>
      unfold copied
      simp only [connect_connections, setClient_connections, connect_toServer, setClient_toServer]
      cases n.connections with
      | nil => exact Nat.zero_le _
      | cons k rest => exact Nat.le_refl _
  | @send i hc =>
      unfold copied
      simp only [setToServer_connections, setClient_connections, setToServer_toServer]
      cases n.connections with
      | nil => exact Nat.le_refl _
      | cons k rest =>
          rcases eq_or_ne k i with rfl | hk
          · simp
          · simp [hk]
  | @read i t held p hs hi ht hread =>
      rw [copied_eq hi, copied_eq (n := (n.goTo _ _).setToServer i p) hi]
      simp [Pipe.taken_read hread]
  | _ => exact Nat.le_refl _

theorem Inv.step_client (h : n.Inv) (hs : n.Does e n') (j : ι) :
    (n'.client j).remaining + (if e.owner = some j then 1 else 0) ≤ (n.client j).remaining := by
  have hupdate {i : ι} {c : Client} (hlt : c.remaining < (n.client i).remaining) :
      (Function.update n.client i c j).remaining + (if some i = some j then 1 else 0) ≤
        (n.client j).remaining := by
    rcases eq_or_ne j i with rfl | hj
    · rw [Function.update_self, if_pos rfl]
      exact hlt
    · rw [Function.update_of_ne hj, if_neg fun heq => hj (Option.some.inj heq).symm]
      exact Nat.le_refl _
  have hroom {i : ι} {buffered : Text} (hc : n.client i = .receiving buffered) :
      buffered.length ≤ request.length := by
    obtain ⟨hsent, -, hbuffered, -⟩ : n.Fits i (.receiving buffered) := hc ▸ h.fits i
    rw [hbuffered, ← hsent]
    exact ((Pipe.received_prefix _).trans (h.echoed i)).length_le
  cases hs with
  | dial hc hs => exact hupdate (by rw [hc]; exact Nat.lt_succ_self _)
  | dialFails hc => exact hupdate (by rw [hc]; exact Nat.succ_pos _)
  | send hc => exact hupdate (by rw [hc]; exact Nat.lt_succ_self _)
  | recvFails hc =>
      have hle := hroom hc
      exact hupdate (by rw [hc, Client.remaining, Client.remaining]; omega)
  | @recv i t buffered bs p hc ht _ hread =>
      have hle := hroom hc
      have hlength := Pipe.length_read hread
      have hle' := remaining_readString (buffered ++ bs)
      rw [List.length_append] at hle'
      exact hupdate (by rw [hc, Client.remaining]; omega)
  | _ => simp [Ev.owner]

theorem Inv.step_server (h : n.Inv) (hs : n.Does e n') :
    n'.serverRemaining + (if e.owner = none then 1 else 0) ≤ n.serverRemaining := by
  have hcopied := step_copied hs
  have hended (hne : n.server ≠ .ended) (hown : e.owner = none) (printed : Text) :
      (n.goTo .ended printed).serverRemaining + (if e.owner = none then 1 else 0) ≤
        n.serverRemaining := by
    rw [if_pos hown]
    exact (Nat.zero_add 1).le.trans (serverRemaining_pos hne)
  have hclient (hsrv : n'.server = n.server) (hown : e.owner ≠ none) :
      n'.serverRemaining + (if e.owner = none then 1 else 0) ≤ n.serverRemaining := by
    rw [if_neg hown, Nat.add_zero, serverRemaining, serverRemaining, hsrv]
    cases n.server with
    | copying held =>
        simp only
        omega
    | _ => exact Nat.le_refl _
  cases hs with
  | listen hs => exact Nat.le_of_eq (by rw [serverRemaining, serverRemaining, hs]; rfl)
  | listenFails hs => exact hended (by simp [hs]) rfl _
  | accept hs hne =>
      rw [serverRemaining, serverRemaining, hs]
      simp only [goTo_server, Ev.owner, if_true]
      omega
  | acceptFails hs => exact hended (by simp [hs]) rfl _
  | @read i t held p hs hi ht hread =>
      have hold : n.copied + t ≤ request.length := by
        have hle := (h.sent i).length_le
        have htaken := p.taken_le
        rw [Pipe.taken_read hread, Pipe.sent_read hread] at htaken
        rw [copied_eq hi]
        omega
      have hnew : ((n.goTo (.copying held) []).setToServer i p).copied = n.copied + t := by
        rw [copied_eq hi, copied_eq (n := (n.goTo _ _).setToServer i p) hi]
        simp [Pipe.taken_read hread]
      rw [serverRemaining, serverRemaining, hs]
      simp only [setToServer_server, goTo_server, Ev.owner, if_true, hnew]
      split <;> omega
  | @write i held hs hne hi =>
      rw [serverRemaining, serverRemaining, hs]
      simp only [setToClient_server, goTo_server, Ev.owner, if_true, if_neg hne]
      omega
  | eof hs hi hend hall => exact hended (by simp [hs]) rfl _
  | copyFails hs => exact hended (by simp [hs]) rfl _
  | _ => exact hclient rfl (Option.some_ne_none _)

theorem countP_of_run {evs : List (Ev ι)} (h : Run Step .start evs n) (o : Option ι) :
    evs.countP (·.owner = o) + n.remaining o ≤ 2 * request.length + 3 := by
  induction h with
  | nil =>
      rw [List.countP_nil, Nat.zero_add]
      cases o with
      | none => exact Nat.le_refl _
      | some i => exact Nat.add_le_add_right (Nat.le_mul_of_pos_left _ Nat.two_pos) 3
  | @snoc evs m n' e hr hs ih =>
      have hdoes := step_iff.mp hs
      have hstep : n'.remaining o + (if e.owner = o then 1 else 0) ≤ m.remaining o := by
        cases o with
        | none => exact (inv_of_run hr).step_server hdoes
        | some j => exact (inv_of_run hr).step_client hdoes j
      rw [List.countP_append, List.countP_singleton]
      simp only [decide_eq_true_eq]
      omega

/-! ### Without failures -/

/-- Where the server is if nothing has failed, and what it has printed. -/
def ServesUnfailing (n : Net ι) : Server → Prop
  | .starting => n.stdout = []
  | .listening => n.stdout = println (text "Listen on :8777")
  | .copying _ => n.stdout = println (text "Listen on :8777") ++ println (text "received: ")
  | .ended => n.stdout = println (text "Listen on :8777") ++ println (text "received: ") ∧
      ∃ i, n.connections.head? = some i ∧ n.client i = .ended answer

/-- Nothing has failed. -/
structure Unfailing (n : Net ι) : Prop where
  client : ∀ i stdout, n.client i = .ended stdout →
    stdout = answer ∧ n.connections.head? = some i
  server : n.ServesUnfailing n.server

theorem Unfailing.step_client (h : n.Unfailing) (hinv : n.Inv) (hs : n.Does e n')
    (he : e.fails = false) (j : ι) (stdout : Text) (hj : n'.client j = .ended stdout) :
    stdout = answer ∧ n'.connections.head? = some j := by
  have hold {i : ι} {c : Client} (hne : ∀ stdout, c ≠ .ended stdout)
      (hj : Function.update n.client i c j = .ended stdout) : n.client j = .ended stdout := by
    rcases eq_or_ne j i with rfl | hji
    · rw [Function.update_self] at hj
      exact absurd hj (hne stdout)
    · rwa [Function.update_of_ne hji] at hj
  cases hs with
  | @dial i hc hs =>
      obtain ⟨hanswer, hhead⟩ := h.client j stdout (hold (fun _ => Client.noConfusion) hj)
      exact ⟨hanswer, head?_connections_append hhead [i]⟩
  | send hc => exact h.client j stdout (hold (fun _ => Client.noConfusion) hj)
  | @recv i t buffered bs p hc ht hroom hread =>
      obtain ⟨-, ⟨-, hpart⟩ | ⟨hline, hfirst⟩⟩ := hinv.recv hc hread
      · rw [hpart] at hj
        exact h.client j stdout (hold (fun _ => Client.noConfusion) hj)
      · rw [hline] at hj
        rcases eq_or_ne j i with rfl | hji
        · have hanswer : Client.ended answer = .ended stdout := by simpa using hj
          exact ⟨(Client.ended.inj hanswer).symm, hfirst⟩
        · exact h.client j stdout (by simpa [hji] using hj)
  | dialFails hc => exact absurd he.symm Bool.false_ne_true
  | recvFails hc => exact absurd he.symm Bool.false_ne_true
  | _ => exact h.client j stdout hj

theorem ended_of_does (hs : n.Does e n') {stdout : Text} (hj : n.client j = .ended stdout) :
    n'.client j = .ended stdout := by
  have hother {i : ι} {c c' : Client} (hc : n.client i = c) (hne : ∀ stdout, c ≠ .ended stdout) :
      Function.update n.client i c' j = .ended stdout := by
    rcases eq_or_ne j i with rfl | hji
    · exact absurd (hc.symm.trans hj) (hne stdout)
    · rwa [Function.update_of_ne hji]
  cases hs with
  | dial hc hs => exact hother hc fun _ => Client.noConfusion
  | dialFails hc => exact hother hc fun _ => Client.noConfusion
  | send hc => exact hother hc fun _ => Client.noConfusion
  | recv hc ht hroom hread => exact hother hc fun _ => Client.noConfusion
  | recvFails hc => exact hother hc fun _ => Client.noConfusion
  | _ => exact hj

theorem connections_of_does (hs : n.Does e n') : n.connections <+: n'.connections := by
  cases hs with
  | dial hc hs => exact List.prefix_append _ _
  | _ => exact List.prefix_rfl

theorem Unfailing.step_server (h : n.Unfailing) (hs : n.Does e n') (he : e.fails = false) :
    n'.ServesUnfailing n'.server := by
  have hserver := h.server
  obtain ⟨rest, hrest⟩ := connections_of_does hs
  have hsame (hsrv : n'.server = n.server) (hout : n'.stdout = n.stdout) :
      n'.ServesUnfailing n'.server := by
    rw [hsrv]
    revert hserver
    cases n.server with
    | ended =>
        exact fun ⟨hstdout, i, hi, hanswer⟩ => ⟨hout.trans hstdout, i,
          hrest ▸ head?_connections_append hi rest, ended_of_does hs hanswer⟩
    | _ => exact hout.trans
  cases hs with
  | listen hs =>
      rw [hs] at hserver
      exact (congrArg (· ++ _) hserver).trans (List.nil_append _)
  | accept hs hne =>
      rw [hs] at hserver
      exact congrArg (· ++ _) hserver
  | read hs hi ht hread =>
      rw [hs] at hserver
      exact (List.append_nil _).trans hserver
  | write hs hne hi =>
      rw [hs] at hserver
      exact (List.append_nil _).trans hserver
  | @eof i hs hi hend hall =>
      rw [hs] at hserver
      refine ⟨(List.append_nil _).trans hserver, i, hi, ?_⟩
      cases hc : n.client i with
      | ended stdout =>
          obtain ⟨rfl, -⟩ := h.client i stdout hc
          exact hc
      | _ =>
          rw [hc] at hend
          exact absurd hend Bool.false_ne_true
  | listenFails hs => exact absurd he.symm Bool.false_ne_true
  | acceptFails hs => exact absurd he.symm Bool.false_ne_true
  | copyFails hs => exact absurd he.symm Bool.false_ne_true
  | _ => exact hsame rfl rfl

theorem unfailing_of_run {evs : List (Ev ι)} (h : Run Step .start evs n)
    (hevs : ∀ e ∈ evs, e.fails = false) : n.Unfailing := by
  induction h with
  | nil => exact ⟨fun _ _ => Client.noConfusion, rfl⟩
  | @snoc evs m n' e hr hs ih =>
      have hm := ih fun e he => hevs e (List.mem_append_left _ he)
      have he := hevs e (List.mem_append_right _ (List.mem_singleton_self e))
      have hdoes := step_iff.mp hs
      exact ⟨hm.step_client (inv_of_run hr) hdoes he, hm.step_server hdoes he⟩

/-! ### What there is to do -/

/-- Only failures are possible. -/
def Stuck (n : Net ι) : Prop := ∀ e, e.fails = false → n.exec e = none

theorem Stuck.not_does (h : n.Stuck) (he : e.fails = false) : ¬ n.Does e n' := fun hs =>
  Option.some_ne_none _ ((step_iff.mpr hs).symm.trans (h e he))

theorem Stuck.client_ne_sending (h : n.Stuck) (i : ι) : n.client i ≠ .sending := fun hc =>
  h.not_does rfl (.send hc)

theorem Stuck.received (h : n.Stuck) (hinv : n.Inv) {buffered : Text}
    (hc : n.client i = .receiving buffered) : buffered = (n.toClient i).sent := by
  obtain ⟨hsent, -, hbuffered, -⟩ : n.Fits i (.receiving buffered) := hc ▸ hinv.fits i
  rw [hbuffered]
  refine Pipe.received_eq_sent fun hlt => ?_
  obtain ⟨⟨bs, p⟩, hread⟩ := Pipe.exists_read hlt
  have hle : buffered.length ≤ request.length := by
    rw [hbuffered, ← hsent]
    exact ((Pipe.received_prefix _).trans (hinv.echoed i)).length_le
  have hlength : request.length = 18 := by decide
  exact h.not_does rfl (.recv hc Nat.one_pos (by omega) hread)

/-- While the server copies, it or its client has something to do. -/
theorem Stuck.server_ne_copying (h : n.Stuck) (hinv : n.Inv) (held : Text) :
    n.server ≠ .copying held := by
  intro hs
  obtain ⟨i, hi, hcopy⟩ : n.Serves (.copying held) := hs ▸ hinv.serves
  have hheld : held = [] := by
    by_contra hne
    exact h.not_does rfl (.write hs hne hi)
  obtain rfl := hheld
  have hall : ¬ (n.toServer i).taken < (n.toServer i).sent.length := fun hlt => by
    obtain ⟨⟨bs, p⟩, hread⟩ := Pipe.exists_read hlt
    exact h.not_does rfl (.read hs hi Nat.one_pos hread)
  rw [List.append_nil, Pipe.received_eq_sent hall] at hcopy
  cases hc : n.client i with
  | dialing => exact h.not_does rfl (.dial hc (by rw [hs]; rfl))
  | sending => exact h.client_ne_sending i hc
  | receiving buffered =>
      obtain ⟨hsent, -, -, hline⟩ : n.Fits i (.receiving buffered) := hc ▸ hinv.fits i
      rw [h.received hinv hc, hcopy, hsent] at hline
      exact hline (by decide)
  | ended stdout =>
      refine h.not_does rfl (.eof hs hi (by rw [hc]; rfl) ?_)
      exact Nat.le_antisymm (n.toServer i).taken_le (Nat.le_of_not_lt hall)

/-- The server waits only where nobody is left. -/
theorem Stuck.server (h : n.Stuck) (hinv : n.Inv) : n.server = .ended ∨
    n.server = .listening ∧ n.connections = [] ∧ ∀ i, (n.client i).isEnded := by
  cases hs : n.server with
  | starting => exact absurd (.listen hs) (h.not_does rfl)
  | copying held => exact absurd hs (h.server_ne_copying hinv held)
  | ended => exact .inl rfl
  | listening =>
      have hconn : n.connections = [] := by
        by_contra hne
        exact h.not_does rfl (.accept hs hne)
      refine .inr ⟨rfl, hconn, fun i => ?_⟩
      cases hc : n.client i with
      | dialing => exact absurd (.dial hc (by rw [hs]; rfl)) (h.not_does rfl)
      | sending => exact absurd hc (h.client_ne_sending i)
      | receiving buffered =>
          obtain ⟨-, hmem, -⟩ : n.Fits i (.receiving buffered) := hc ▸ hinv.fits i
          rw [hconn] at hmem
          exact absurd hmem List.not_mem_nil
      | ended stdout => rfl

/-- **Who is answered.** No client prints anything but the first line of what it has sent, or a
failure, and only the first one to connect prints the line. Each process makes at most so many calls.
If nothing fails, the first client gets its answer and the server ends; all the others wait until they
fail. -/
theorem answered {evs : List (Ev ι)} (h : Run Step .start evs n) :
    (∀ i stdout, n.client i = .ended stdout → stdout = dialFailed ∨ stdout = recvFailed ∨
      stdout = answer ∧ n.connections.head? = some i) ∧
    (∀ o, evs.countP (·.owner = o) ≤ 2 * request.length + 3) ∧
    ((∀ e ∈ evs, e.fails = false) → n.Stuck → Nonempty ι →
      n.server = .ended ∧
        n.stdout = println (text "Listen on :8777") ++ println (text "received: ") ∧
      ∃ i, n.connections.head? = some i ∧ n.client i = .ended answer ∧
        ∀ j ≠ i, n.client j = .dialing ∨ n.client j = .receiving []) := by
  have hinv := inv_of_run h
  refine ⟨fun i stdout hc => (hc ▸ hinv.fits i : n.Fits i (.ended stdout)),
    fun o => (Nat.le_add_right _ _).trans (countP_of_run h o), fun hevs hstuck ⟨k⟩ => ?_⟩
  have hunfailing := unfailing_of_run h hevs
  rcases hstuck.server hinv with hs | ⟨-, hconn, hended⟩
  · obtain ⟨hstdout, i, hi, hanswer⟩ : n.ServesUnfailing .ended := hs ▸ hunfailing.server
    refine ⟨hs, hstdout, i, hi, hanswer, fun j hj => ?_⟩
    have hfirst : n.connections.head? ≠ some j := fun heq =>
      hj (Option.some.inj (heq.symm.trans hi))
    cases hc : n.client j with
    | dialing => exact .inl rfl
    | sending => exact absurd hc (hstuck.client_ne_sending j)
    | receiving buffered =>
        exact .inr (by rw [hstuck.received hinv hc, hinv.first j hfirst])
    | ended stdout => exact absurd (hunfailing.client j stdout hc).2 hfirst
  · -- whoever is at the end has connected
    have hk := hended k
    cases hc : n.client k with
    | ended stdout =>
        have hfirst := (hunfailing.client k stdout hc).2
        rw [hconn] at hfirst
        exact absurd hfirst.symm (Option.some_ne_none k)
    | _ =>
        rw [hc] at hk
        exact absurd hk Bool.false_ne_true

/-- Two clients, and the second has sent its request. -/
def twoClients : List (Ev Bool) :=
  [.listen, .dial false, .dial true, .send false, .send true, .accept, .read 10, .write,
    .recv false 10, .read 8, .write, .recv false 7, .eof]

theorem answered_twoClients : ∃ n, Run Step .start twoClients n ∧ n.server = .ended ∧
    n.client false = .ended answer ∧ n.client true = .receiving [] := by
  have hrun : (replay exec start twoClients).isSome := by decide
  obtain ⟨n, hn⟩ := Option.isSome_iff_exists.mp hrun
  have hanswered := answered (Run.of_replay hn)
  have hend : n.server = .ended ∧ n.client false = .ended answer ∧ n.client true = .receiving [] ∧
      n.connections.head? = some false ∧ (n.toClient true).sent = [] := by
    obtain rfl := Option.some.inj hn
    decide
  obtain ⟨hs, hc, hc', hfirst, hnothing⟩ := hend
  have hstuck : n.Stuck := by
    intro e he
    cases e with
    | dial i => cases i <;> simp [exec, hc, hc']
    | send i => cases i <;> simp [exec, hc, hc']
    | recv i t =>
        cases i with
        | false => simp [exec, hc]
        | true =>
            simp [exec, hc', Pipe.read, hnothing]
            omega
    | listen => simp [exec, hs]
    | accept => simp [exec, hs]
    | read t => simp [exec, hs]
    | write => simp [exec, hs]
    | eof => simp [exec, hs]
    | _ => exact absurd he.symm Bool.false_ne_true
  obtain ⟨-, -, i, hi, hanswer, hothers⟩ := hanswered.2.2 (by decide) hstuck ⟨false⟩
  obtain rfl := Option.some.inj (hi.symm.trans hfirst)
  exact ⟨n, Run.of_replay hn, hs, hanswer, (hothers true (by decide)).resolve_left (by simp [hc'])⟩

end Net

end Codelib.Clisrv
