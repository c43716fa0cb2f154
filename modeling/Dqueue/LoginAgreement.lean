import Dqueue.SessionBooks

/-!
Client and server agree on the login of the client's connection, as long as a
LOGIN_CONFIRM is handled while the connection it was read on is the current one
and has not failed.
-/

set_option autoImplicit false

namespace Dqueue
open Std Effects RawMem Queries

theorem Client.handle_other {m : Message} (hm : ∀ lc, m ≠ .loginConfirm lc) (c : Client) :
    (final (Client.handle m c)).loginConfirmed = c.loginConfirmed ∧
      (final (Client.handle m c)).id = c.id := by
  cases m with
  | ok cs =>
    simp only [Client.handle,bind_apply,get_apply]
    cases c.queries[cs.id]? with
    | none => exact ⟨rfl,rfl⟩
    | some locker => exact ⟨rfl,rfl⟩
  | publish cs => exact ⟨rfl,rfl⟩
  | loginConfirm lc => exact absurd rfl (hm lc)
  | login q => exact ⟨rfl,rfl⟩
  | createQueue q => exact ⟨rfl,rfl⟩
  | subscribe q => exact ⟨rfl,rfl⟩
  | unsubscribe q => exact ⟨rfl,rfl⟩

namespace Session

def peer (s : Session) (c : Connection) : Option ClientConnection :=
  c.sock.bind (fun n => (s.links n).place.bind (fun k => s.log.accepted[k]?))

/-- The current connection is established, the server has the client's login for
it, and the client has the id that the server gave to it. -/
def Agreed (s : Session) : Prop :=
  ∃ c ∈ s.current, c.errors = 0 ∧ c.beginStoping = false ∧
    ∃ i ∈ s.peer c, i.socket ∉ s.log.server.closed ∧
      s.log.server.users.users[i.id]?.map User.login = some s.machine.client.login ∧
      s.machine.client.id = i.id

def confirms (s : Session) (a : Nat) : Bool :=
  match s.next a with
  | some (_,.loginConfirm _,_) => true
  | _ => false

/-- A LOGIN_CONFIRM is handled while its connection is the current one and is
up, and a connection on which the client has logged in is not closed by either
side behind the client's back. -/
def Timely (s : Session) : SessionEvent → Prop
  | .receive a => s.confirms a = true → s.machine.client.asyncConnection = some a ∧
    ∀ c ∈ s.current, c.errors = 0 ∧ c.beginStoping = false ∧
      ∀ i ∈ s.peer c, i.socket ∉ s.log.server.closed
  | .connection .disconnect => s.machine.client.loginConfirmed = true → s.machine.isStoped = true
  | .server (.error k) => s.machine.client.loginConfirmed = true →
    ∀ c ∈ s.current, ∀ i ∈ s.peer c, i.socket ≠ k
  | .server .stopServer => s.machine.client.loginConfirmed = true → s.log.isStoped = true
  | _ => True

instance (s : Session) : ∀ e, Decidable (s.Timely e)
  | .receive a => inferInstanceAs (Decidable (s.confirms a = true →
      s.machine.client.asyncConnection = some a ∧ ∀ c ∈ s.current, c.errors = 0 ∧
        c.beginStoping = false ∧ ∀ i ∈ s.peer c, i.socket ∉ s.log.server.closed))
  | .connection .disconnect => inferInstanceAs
      (Decidable (s.machine.client.loginConfirmed = true → s.machine.isStoped = true))
  | .server (.error k) => inferInstanceAs (Decidable (s.machine.client.loginConfirmed = true →
      ∀ c ∈ s.current, ∀ i ∈ s.peer c, i.socket ≠ k))
  | .server .stopServer => inferInstanceAs
      (Decidable (s.machine.client.loginConfirmed = true → s.log.isStoped = true))
  | .call _ | .lose _ _ _ | .accept _ | .serve _ | .connection .asyncConnect
  | .connection (.connected _) | .connection (.connectError _) | .connection (.header _)
  | .connection (.message _ _) | .connection (.readError _) | .connection (.written _)
  | .connection (.writeError _) | .connection .send | .server .accept | .server (.message _ _)
  | .server (.createQueue _) | .server (.subscribe _) | .server (.unsubscribe _)
  | .server (.publish _ _) => isTrue trivial

theorem mem_peer {s : Session} {c : Connection} {i : ClientConnection} :
    i ∈ s.peer c ↔ ∃ n k, c.sock = some n ∧ (s.links n).place = some k ∧
      s.log.accepted[k]? = some i := by
  simp [peer,Option.mem_def,Option.bind_eq_some_iff]

def Confirmed (s : Session) : Prop := s.machine.client.loginConfirmed = true → s.Agreed

namespace Confirmed

variable {regex : RegexCompiler} {s : Session} (h : s.Confirmed)
include h

theorem keep {s' : Session} (hlogin : s'.machine.client.login = s.machine.client.login)
    (hold : s.machine.Holds s'.machine) (hplace : ∀ n, (s'.links n).place = (s.links n).place)
    (hlog : s'.log = s.log) : s'.Confirmed := by
  intro hc'
  obtain ⟨hc,hid,hasync,hconn⟩ := hold hc'
  obtain ⟨c,hcur,herr,hstop,i,hi,hopen,hreg,hagree⟩ := h hc
  obtain ⟨a,ha,hca⟩ := mem_current.mp hcur
  obtain ⟨c',hca',hsock,herr',hstop'⟩ := hconn a c hca
  obtain ⟨n,k,hn,hk,hi⟩ := mem_peer.mp hi
  refine ⟨c',mem_current.mpr ⟨a,hasync.trans ha,hca'⟩,herr'.trans herr,hstop'.trans hstop,i,
    mem_peer.mpr ⟨n,k,hsock.trans hn,(hplace n).trans hk,?_⟩,?_,?_,hid.trans hagree⟩
  · rw [hlog]
    exact hi
  · rw [hlog]
    exact hopen
  · rw [hlog,hlogin]
    exact hreg

theorem deliver (hs : s.Sound) {e : ServerEvent} (few : (s.log.step regex e).Few)
    (hlogin : ∀ n i lg, (s.links n).place = some i.socket →
      s.log.Calls e (.message i (.login lg)) → lg.login = s.machine.client.login)
    (herror : s.machine.client.loginConfirmed = true →
      ∀ c ∈ s.current, ∀ i ∈ s.peer c, e ≠ .error i.socket)
    (hstop : s.machine.client.loginConfirmed = true → e = .stopServer → s.log.isStoped = true) :
    (s.deliver (s.log.step regex e)).Confirmed := by
  intro hc
  obtain ⟨c,hcur,herr,hstopc,i,hi,hopen,hreg,hagree⟩ := h hc
  have herror' := herror hc c hcur i hi
  obtain ⟨n,k,hn,hk,hi⟩ := mem_peer.mp hi
  have hmem := List.mem_of_getElem? hi
  have hsock : i.socket = k := by rw [hs.counted.numbered k i hi]
  have hopen' := hs.counted.closed_step regex hopen herror' (hstop hc)
  have hreg' := ServerLog.Registered.step (.inl hreg) hs.counted hmem few
    fun lg hcall => hlogin n i lg (by rw [hk,hsock]) hcall
  refine ⟨c,hcur,herr,hstopc,i,mem_peer.mpr ⟨n,k,hn,?_,ServerLog.accepted_kept hi e⟩,hopen',
    hreg'.resolve_right hopen',hagree⟩
  exact (SocketLink.answer_place _ _ _).trans hk

theorem call (r : Request) : (s.call r).Confirmed := by
  unfold Session.call
  simp only
  split
  · exact h
  · refine h.keep rfl (fun hc => ?_) (s.put_place _) (s.put_log _)
    obtain ⟨-,-,-,hconn⟩ := s.machine.send_stays.confirmed (s.machine.send_client.1 ▸ hc)
    exact ⟨hc,rfl,rfl,hconn⟩

theorem connected (n : Nat) : (s.connected n).Confirmed := by
  rcases s.connected_cases n with hs | ⟨-,-,hs⟩
  · rw [hs]
    exact h
  · have hst := s.machine.connected_stays n
    rw [hs]
    refine h.keep ?_ ?_ (puts_place _ _) (puts_log _ _)
    · rw [puts_machine]
      exact hst.login
    · rw [puts_machine]
      exact hst.confirmed

theorem stays {machine : AbstractClient} (hst : s.machine.Stays machine) :
    Confirmed { s with machine := machine } :=
  h.keep hst.login hst.confirmed (fun _ => rfl) rfl

theorem connection (e : ConnectionEvent) (ht : s.Timely (.connection e)) :
    (s.connection e).Confirmed := by
  cases e with
  | connected n => exact h.connected n
  | send => exact h
  | message a m => exact h
  | disconnect => exact h.stays (s.machine.step_stays (by simp) fun _ => ht)
  | asyncConnect => exact h.stays (s.machine.step_stays (by simp) (by simp))
  | connectError n => exact h.stays (s.machine.step_stays (by simp) (by simp))
  | header a => exact h.stays (s.machine.step_stays (by simp) (by simp))
  | readError a => exact h.stays (s.machine.step_stays (by simp) (by simp))
  | written a => exact h.stays (s.machine.step_stays (by simp) (by simp))
  | writeError a => exact h.stays (s.machine.step_stays (by simp) (by simp))

theorem receive (hs : s.Sound) (a : Nat) (ht : s.Timely (.receive a)) :
    (s.receive a).Confirmed := by
  unfold Session.receive
  cases hnext : s.next a with
  | none => exact h
  | some x =>
    obtain ⟨n,m,down⟩ := x
    obtain ⟨c,hc,hn,hr,hdown⟩ := next_cases hnext
    have hplace : ∀ n', ((s.setLink n { s.links n with down := down }).links n').place =
        (s.links n').place := setLink_place rfl
    obtain ⟨hclient,hconn,-⟩ := s.machine.message_run m hc hr
    obtain ⟨hlogin,hasync⟩ := Client.handle_login m s.machine.client
    have hsame : AbstractClient.SameErrors s.machine.connections
        (s.machine.message a m).connections := by
      rw [hconn]
      exact .set hc rfl rfl rfl
    by_cases hm : ∃ lc, m = .loginConfirm lc
    · obtain ⟨lc,rfl⟩ := hm
      obtain ⟨hcur,hup⟩ := ht (by simp [confirms,hnext])
      have hmem : c ∈ s.current := mem_current.mpr ⟨a,hcur,hc⟩
      obtain ⟨herr,hstop,hopen⟩ := hup c hmem
      obtain ⟨k,i,hk,hi,hid,hreg⟩ := (hs.links n).confirms lc (by rw [hdown]; simp)
      have hopen' := hopen i (mem_peer.mpr ⟨n,k,hn,hk,hi⟩)
      obtain ⟨c',hc',hsock,herr',hstop'⟩ := hsame a c hc
      intro _
      refine ⟨c',mem_current.mpr ⟨a,?_,hc'⟩,herr'.trans herr,hstop'.trans hstop,i,
        mem_peer.mpr ⟨n,k,hsock.trans hn,(hplace n).trans hk,hi⟩,hopen',?_,?_⟩
      · show (s.machine.message a _).client.asyncConnection = some a
        rw [hclient,hasync]
        exact hcur
      · show _ = some (s.machine.message a _).client.login
        rw [hclient,hlogin]
        exact hreg.resolve_right hopen'
      · show (s.machine.message a _).client.id = i.id
        rw [hclient]
        exact hid
    · obtain ⟨hconf,hid⟩ := Client.handle_other (fun lc he => hm ⟨lc,he⟩) s.machine.client
      show Confirmed { s.setLink n { s.links n with down := down } with
        machine := s.machine.message a m }
      refine h.keep (by rw [hclient]; exact hlogin) (fun hc' => ?_) hplace rfl
      rw [hclient,hconf] at hc'
      exact ⟨hc',by rw [hclient]; exact hid,by rw [hclient]; exact hasync,hsame⟩

theorem lose (n up down : Nat) : (s.lose n up down).Confirmed := by
  unfold Session.lose
  split
  · exact h.keep rfl (AbstractClient.Stays.refl s.machine).confirmed (setLink_place rfl) rfl
  · exact h

theorem accept (hs : s.Sound) (n : Nat) (few : (s.log.step regex .accept).Few) :
    (s.accept regex n).Confirmed := by
  unfold Session.accept
  split
  · rename_i hn
    have hd := h.deliver hs few (fun _ _ _ _ hc => by cases hc) (by simp) (by simp)
    intro hc
    obtain ⟨c,hcur,herr,hstop,i,hi,hrest⟩ := hd hc
    obtain ⟨n',k,hsock,hk,hi⟩ := mem_peer.mp hi
    refine ⟨c,hcur,herr,hstop,i,mem_peer.mpr ⟨n',k,hsock,?_,hi⟩,hrest⟩
    -- the socket of the current connection has its place already
    have hne : n' ≠ n := by
      rintro rfl
      rw [show ((s.deliver (s.log.step regex .accept)).links n').place = (s.links n').place from
        SocketLink.answer_place _ _ _,hn.2] at hk
      cases hk
    rw [setLink_links,if_neg hne]
    exact hk
  · exact h

theorem serve (hs : s.Sound) (n : Nat) (few : (s.serve regex n).log.Few) :
    (s.serve regex n).Confirmed := by
  unfold Session.serve at few ⊢
  split
  · rename_i k m up hk hup
    rw [hk,hup] at few
    have hset : (s.setLink n { s.links n with up := up }).Sound :=
      hs.setLink ((hs.links n).less rfl
        (fun m' hm' => by rw [hup]; exact List.mem_cons_of_mem m hm') fun _ hm => hm) rfl
    have hconf : (s.setLink n { s.links n with up := up }).Confirmed :=
      h.keep rfl (AbstractClient.Stays.refl s.machine).confirmed (setLink_place rfl) rfl
    exact hconf.deliver hset few (fun _ _ _ _ hcall => hs.serve_logins hup hcall)
      (by simp) (by simp)
  · exact h

theorem server (hs : s.Sound) (e : ServerEvent) (few : (s.server regex e).log.Few)
    (ht : s.Timely (.server e)) : (s.server regex e).Confirmed := by
  rcases s.server_cases regex e with he | ⟨hmine,he⟩
  · rw [he]
    exact h
  · rw [he] at few ⊢
    refine h.deliver hs few (fun n i lg hn hcall => absurd hcall (hs.server_logins hmine hn))
      (fun hc c hcur i hi heq => ?_) fun hc heq => ?_
    · subst heq
      exact ht hc c hcur i hi rfl
    · subst heq
      exact ht hc

theorem step (hs : s.Sound) (e : SessionEvent) (few : (s.step regex e).log.Few) (ht : s.Timely e) :
    (s.step regex e).Confirmed := by
  cases e with
  | call r => exact h.call r
  | connection e => exact h.connection e ht
  | receive a => exact h.receive hs a ht
  | lose n up down => exact h.lose n up down
  | accept n =>
    by_cases hn : n < s.machine.sockets ∧ (s.links n).place = none
    · simp only [Session.step,Session.accept,if_pos hn] at few
      exact h.accept hs n few
    · simpa only [Session.step,Session.accept,hn,if_false] using h
  | serve n => exact h.serve hs n few
  | server e => exact h.server hs e few ht

end Confirmed

end Session

/-- A client that is connected and its server agree on the login and on the id of
its connection, in every run in which each LOGIN_CONFIRM is handled while its
connection is the current one and is up. -/
theorem login_agreement (login : Str) (autoReconnection : Bool) (cache : ReCache)
    (regex : RegexCompiler) (events : List SessionEvent) {s : Session}
    (run : s = (Session.start login autoReconnection cache).run regex events)
    (timely : Runs.Along (Session.step regex) Session.Timely
      (Session.start login autoReconnection cache) events)
    (few : s.log.accepted.length < 2^31-1)
    (isConnected : s.machine.client.loginConfirmed = true) : s.Agreed := by
  have hinv : s.log.Few → s.Sound ∧ s.Confirmed := by
    rw [run]
    refine timely.invariant (P := fun s => s.log.Few → s.Sound ∧ s.Confirmed)
      (fun s e h ht few => ?_) fun _ => ⟨.start login autoReconnection cache,fun h => by cases h⟩
    obtain ⟨hs,hc⟩ := h (Session.few_of_step few)
    exact ⟨hs.step e few,hc.step hs e few ht⟩
  exact (hinv few).2 isConnected

def loginAgain : List SessionEvent :=
  [.connection .asyncConnect,.connection (.connected 0),.accept 0,.serve 0,
    .connection (.readError 0),.connection (.connected 1),.accept 1,.serve 1,
    .connection (.header 1),.receive 1]

theorem login_agreement_again :
    ((Session.start [97] true ∅).run literal loginAgain).machine.client.id = 1 ∧
    ((Session.start [97] true ∅).run literal loginAgain).Agreed := by
  refine ⟨by decide +kernel,?_⟩
  exact login_agreement [97] true ∅ literal loginAgain rfl (by decide +kernel) (by decide +kernel)
    (by decide +kernel)

/-- A publish is lost and its write fails while the LOGIN_CONFIRM is being read, and the
client connects anew; then the message is handled. -/
def staleConfirm : List SessionEvent :=
  [.connection .asyncConnect,.connection (.connected 0),.accept 0,.serve 0,.connection (.header 0),
    .call (.publish ⟨[113],[]⟩ [7]),.lose 0 0 1,.connection (.writeError 0),
    .connection (.connected 1),.receive 0]

/-- The client takes itself for connected, with the id of the connection that was
lost; the server has not yet accepted the current one. -/
theorem stale_login_confirm :
    ¬ (∀ events : List SessionEvent,
      ((Session.start [97] true ∅).run literal events).machine.client.loginConfirmed = true →
      ((Session.start [97] true ∅).run literal events).Agreed) := by
  intro h
  obtain ⟨c,hc,-,-,i,hi,-⟩ := h staleConfirm (by decide +kernel)
  have hcur : ((Session.start [97] true ∅).run literal staleConfirm).current =
      some ⟨some 1,.header,2,false,0,0⟩ := by decide +kernel
  have hpeer : ((Session.start [97] true ∅).run literal staleConfirm).peer
      ⟨some 1,.header,2,false,0,0⟩ = none := by decide +kernel
  rw [hcur,Option.mem_some_iff] at hc
  subst hc
  rw [hpeer] at hi
  cases hi

end Dqueue
