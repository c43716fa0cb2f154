import Dqueue.Session
import Dqueue.ServerUsers

/-!
What holds of the messages in flight between the client and the server in every
run: each LOGIN has the client's login, and each LOGIN_CONFIRM the id of its
connection.
-/

set_option autoImplicit false

namespace Dqueue
open Std Effects RawMem AsyncIO Queries

namespace AbstractClient

def SameErrors (cs cs' : List Connection) : Prop :=
  ∀ (a : Nat) (c : Connection), cs[a]? = some c → ∃ c', cs'[a]? = some c' ∧
    c'.sock = c.sock ∧ c'.errors = c.errors ∧ c'.beginStoping = c.beginStoping

theorem SameErrors.refl (cs : List Connection) : SameErrors cs cs :=
  fun _ c hc => ⟨c,hc,rfl,rfl,rfl⟩

theorem SameErrors.set {cs : List Connection} {a : Nat} {c c' : Connection} (hc : cs[a]? = some c)
    (hsock : c'.sock = c.sock) (herr : c'.errors = c.errors)
    (hstop : c'.beginStoping = c.beginStoping) : SameErrors cs (cs.set a c') := by
  intro b d hd
  rw [List.getElem?_set]
  by_cases hb : a = b
  · subst hb
    obtain rfl : c = d := Option.some.inj (hc.symm.trans hd)
    have hlt := (List.getElem?_eq_some_iff.mp hc).1
    exact ⟨c',by simp [hlt],hsock,herr,hstop⟩
  · exact ⟨d,by simp [hb,hd],rfl,rfl,rfl⟩

/-- A client that is still logged in holds the connection that it held before,
and no error was reported on it since. -/
def Holds (s s' : AbstractClient) : Prop :=
  s'.client.loginConfirmed = true → s.client.loginConfirmed = true ∧
    s'.client.id = s.client.id ∧ s'.client.asyncConnection = s.client.asyncConnection ∧
    SameErrors s.connections s'.connections

structure Stays (s s' : AbstractClient) : Prop where
  client : ∃ a b, s'.client = { s.client with asyncConnection := a, loginConfirmed := b }
  sockets : s.sockets ≤ s'.sockets
  confirmed : s.Holds s'

variable {s : AbstractClient}

theorem Stays.refl (s : AbstractClient) : s.Stays s :=
  ⟨⟨_,_,rfl⟩,Nat.le_refl _,fun h => ⟨h,rfl,rfl,.refl _⟩⟩

theorem Stays.login {s' : AbstractClient} (h : s.Stays s') :
    s'.client.login = s.client.login := by
  obtain ⟨a,b,hc⟩ := h.client
  rw [hc]

theorem Stays.pool {s' : AbstractClient} (h : s.Stays s') :
    s'.client.messagePool = s.client.messagePool := by
  obtain ⟨a,b,hc⟩ := h.client
  rw [hc]

theorem setConnection_stays {a : Nat} {c : Connection} (c' : Connection)
    (hc : s.connections[a]? = some c)
    (hsock : c'.sock = c.sock) (herr : c'.errors = c.errors)
    (hstop : c'.beginStoping = c.beginStoping) : s.Stays (s.setConnection a c') :=
  ⟨⟨_,_,rfl⟩,Nat.le_refl _,fun h => ⟨h,rfl,rfl,.set hc hsock herr hstop⟩⟩

theorem target_cases {a : Nat} {c : Connection} (h : s.target = some (a,c)) :
    s.client.asyncConnection = some a ∧ s.connections[a]? = some c := by
  unfold target at h
  split at h
  · cases h
  · rename_i a' ha
    split at h
    · cases h
    · rename_i hc
      split at h
      · cases h
      · cases h
        exact ⟨ha,hc⟩

theorem send_stays (s : AbstractClient) : s.Stays s.send := by
  unfold send
  split
  · exact .refl s
  · rename_i a c ht
    exact setConnection_stays { c with writing := c.writing+1 } (target_cases ht).2 rfl rfl rfl

theorem disconnect_client (s : AbstractClient) :
    s.disconnect.client = s.client ∧ s.disconnect.sockets = s.sockets := by
  unfold disconnect
  split
  · exact ⟨rfl,rfl⟩
  · split <;> exact ⟨rfl,rfl⟩

theorem reconnectOnError_stays {s s' : AbstractClient} (hl : s'.client = s.client)
    (hs : s.sockets ≤ s'.sockets) : s.Stays s'.reconnectOnError := by
  unfold reconnectOnError
  split
  · exact ⟨⟨s.client.asyncConnection,false,by simp [asyncConnect,hl]⟩,by simp [asyncConnect]; omega,
      fun h => by simp [asyncConnect] at h⟩
  · exact ⟨⟨s.client.asyncConnection,false,by simp [hl]⟩,hs,fun h => by simp at h⟩

theorem connected_stays (s : AbstractClient) (n : Nat) : s.Stays (s.connected n) := by
  unfold connected
  split
  · obtain ⟨hc,hs⟩ := onConnect_client { s with
      client := { s.client with asyncConnection := some s.connections.length }
      connecting := s.connecting.erase n
      connections := s.connections ++
        [⟨s.socket,if s.socket.isSome then .header else .idle,0,false,0,0⟩]
      isConnected := true
      effects := s.effects ++ [.asyncConnection,.isConnected] }
    exact ⟨⟨_,_,hc⟩,by rw [hs],fun h => by simp [hc] at h⟩
  · exact .refl s

theorem step_stays (s : AbstractClient) {e : ConnectionEvent} (hm : ∀ a m, e ≠ .message a m)
    (hd : e = .disconnect → s.client.loginConfirmed = true → s.isStoped = true) :
    s.Stays (s.step e) := by
  have hone : ∀ a (f : Connection → AbstractClient),
      (∀ c, s.connections[a]? = some c → s.Stays (f c)) → s.Stays (s.onConnection a f) := by
    intro a f hf
    unfold onConnection
    split
    · exact .refl s
    · rename_i hc
      exact hf _ hc
  cases e with
  | asyncConnect =>
    exact ⟨⟨_,_,rfl⟩,by simp [step,asyncConnect],fun h => ⟨h,rfl,rfl,.refl s.connections⟩⟩
  | connected n => exact s.connected_stays n
  | connectError n =>
    rw [step,connectError]
    split
    · exact reconnectOnError_stays rfl (Nat.le_refl _)
    · exact .refl s
  | header a =>
    refine hone a _ fun c hc => ?_
    split
    · exact setConnection_stays _ hc rfl rfl rfl
    · exact .refl s
  | message a m => exact absurd rfl (hm a m)
  | readError a =>
    refine hone a _ fun c hc => ?_
    split
    · exact reconnectOnError_stays rfl (Nat.le_refl _)
    · exact .refl s
  | written a =>
    refine hone a _ fun c hc => ?_
    split
    · exact setConnection_stays _ hc rfl rfl rfl
    · exact .refl s
  | writeError a =>
    refine hone a _ fun c hc => ?_
    split
    · exact reconnectOnError_stays rfl (Nat.le_refl _)
    · exact .refl s
  | send => exact s.send_stays
  | disconnect =>
    rw [step,disconnect]
    split
    · exact .refl s
    · rename_i hstop
      split
      · exact .refl s
      · refine ⟨⟨_,_,rfl⟩,Nat.le_refl _,fun h => ?_⟩
        exact absurd (hd rfl h) hstop

theorem message_run {a : Nat} {c : Connection} (m : Message) (hc : s.connections[a]? = some c)
    (hr : c.reading = .body) : (s.message a m).client = final (Client.handle m s.client) ∧
      (s.message a m).connections = s.connections.set a { c with
        reading := if (Effects.thrown (Client.handle m s.client)).isNone && s.alive c.sock
          then .header else .idle } ∧
      (s.message a m).sockets = s.sockets := by
  simp only [message,onConnection,hc,if_pos hr]
  exact ⟨trivial,rfl,rfl⟩

end AbstractClient

structure SocketLink.Sound (log : ServerLog) (login : Str) (l : SocketLink) : Prop where
  placed : ∀ k ∈ l.place, k < log.accepted.length
  sendable : ∀ m ∈ l.up, m.Sendable
  logins : ∀ lg, .login lg ∈ l.up → lg.login = login
  confirms : ∀ lc, .loginConfirm lc ∈ l.down → ∃ k i, l.place = some k ∧
    log.accepted[k]? = some i ∧ lc.id = i.id ∧ log.Registered i login

namespace SocketLink

variable {log : ServerLog} {login : Str} {l : SocketLink}

theorem Sound.fresh : SocketLink.fresh.Sound log login where
  placed k h := by cases h
  sendable m h := by cases h
  logins lg h := by cases h
  confirms lc h := by cases h

theorem send_place (l : SocketLink) (m : Message) : (l.send m).place = l.place := by
  unfold send
  split <;> rfl

theorem Sound.send (h : l.Sound log login) {m : Message} (hs : m.Sendable)
    (hm : ∀ lg, m = .login lg → lg.login = login) : (l.send m).Sound log login := by
  unfold SocketLink.send
  split
  · exact h
  · refine ⟨h.placed,fun m' hm' => ?_,fun lg hlg => ?_,h.confirms⟩
    · rcases List.mem_append.mp hm' with hm' | hm'
      · exact h.sendable m' hm'
      · rwa [List.mem_singleton.mp hm']
    · rcases List.mem_append.mp hlg with hlg | hlg
      · exact h.logins lg hlg
      · exact hm lg (List.mem_singleton.mp hlg).symm

theorem Sound.less (h : l.Sound log login) {l' : SocketLink} (hp : l'.place = l.place)
    (hup : ∀ m ∈ l'.up, m ∈ l.up) (hdown : ∀ m ∈ l'.down, m ∈ l.down) : l'.Sound log login where
  placed := by
    rw [hp]
    exact h.placed
  sendable m hm := h.sendable m (hup m hm)
  logins lg hlg := h.logins lg (hup _ hlg)
  confirms lc hlc := by
    rw [hp]
    exact h.confirms lc (hdown _ hlc)

theorem answer_place (l : SocketLink) (s s' : Server) : (l.answer s s').place = l.place := by
  unfold answer
  split
  · rfl
  · split <;> rfl

theorem answer_up (l : SocketLink) (s s' : Server) : (l.answer s s').up = l.up := by
  unfold answer
  split
  · rfl
  · split <;> rfl

theorem mem_answer {l : SocketLink} {s s' : Server} {m : Message} (h : m ∈ (l.answer s s').down) :
    m ∈ l.down ∨ ∃ k, l.place = some k ∧ m ∈ Server.sentTo k s s' := by
  unfold answer at h
  split at h
  · exact .inl h
  · rename_i k hk
    split at h
    · exact .inl h
    · exact (List.mem_append.mp h).imp_right fun hm => ⟨k,hk,hm⟩

theorem Sound.answer {regex : RegexCompiler} {e : ServerEvent} (h : l.Sound log login)
    (hc : log.Counted) (few : (log.step regex e).Few)
    (hlogin : ∀ i lg, l.place = some i.socket → log.Calls e (.message i (.login lg)) →
      lg.login = login) :
    (l.answer log.server (log.step regex e).server).Sound (log.step regex e) login := by
  refine ⟨?_,?_,?_,?_⟩
  · rw [answer_place]
    intro k hk
    exact Nat.lt_of_lt_of_le (h.placed k hk) (log.accepted_step e)
  · rw [answer_up]
    exact h.sendable
  · rw [answer_up]
    exact h.logins
  · intro lc hlc
    rw [answer_place]
    rcases mem_answer hlc with hlc | ⟨k,hk,hlc⟩
    · obtain ⟨k,i,hk,hi,hid,hr⟩ := h.confirms lc hlc
      have hmem := List.mem_of_getElem? hi
      have hs : i.socket = k := by rw [hc.numbered k i hi]
      exact ⟨k,i,hk,ServerLog.accepted_kept hi e,hid,hr.step hc hmem few fun lg hcall =>
        hlogin i lg (by rw [hk,hs]) hcall⟩
    · obtain ⟨i,lg,hcall,hs,hid,hr⟩ := ServerLog.step_confirms hlc
      have hl := hlogin i lg (by rw [hk,hs]) hcall
      have hi : i ∈ log.accepted := by
        cases hcall with
        | message sender decoded => exact List.mem_of_getElem? sender
      refine ⟨k,i,hk,ServerLog.accepted_kept ?_ e,hid,hl ▸ hr⟩
      rw [← hs]
      exact (hc.mem_accepted hi).1

end SocketLink

theorem ServerLog.Calls.served {l : ServerLog} {k : Nat} {m m' : Message} {i : ClientConnection}
    (hs : m.Sendable) (h : l.Calls (.message k (received m.wire)) (.message i m')) :
    l.accepted[k]? = some i ∧ m' = m := by
  cases h with
  | message sender decoded =>
    rw [Message.ofFrame_run hs (received_frame m)] at decoded
    split at decoded
    · cases decoded
      exact ⟨sender,rfl⟩
    · cases decoded

namespace Session

def current (s : Session) : Option Connection :=
  s.machine.client.asyncConnection.bind (fun a => s.machine.connections[a]?)

theorem mem_current {s : Session} {c : Connection} :
    c ∈ s.current ↔ ∃ a, s.machine.client.asyncConnection = some a ∧
      s.machine.connections[a]? = some c := by
  simp [current,Option.mem_def,Option.bind_eq_some_iff]

theorem setLink_links (s : Session) (n : Nat) (l : SocketLink) (n' : Nat) :
    (s.setLink n l).links n' = if n' = n then l else s.links n' :=
  Function.update_apply s.links n l n'

theorem setLink_place {s : Session} {n : Nat} {l : SocketLink}
    (hp : l.place = (s.links n).place) (n' : Nat) :
    ((s.setLink n l).links n').place = (s.links n').place := by
  rw [setLink_links]
  split
  · rename_i he
    rw [he,hp]
  · rfl

theorem next_cases {s : Session} {a n : Nat} {m : Message} {down : List Message}
    (h : s.next a = some (n,m,down)) : ∃ c, s.machine.connections[a]? = some c ∧
      c.sock = some n ∧ c.reading = .body ∧ (s.links n).down = m :: down := by
  unfold next at h
  cases hc : s.machine.connections[a]? with
  | none => simp [hc] at h
  | some c =>
    cases hn : c.sock with
    | none => simp [hc,hn] at h
    | some n' =>
      cases hd : (s.links n').down with
      | nil => simp [hc,hn,hd] at h
      | cons m' down' =>
        by_cases hr : c.reading = .body
        · simp only [hc,hn,hd,hr,if_true,Option.some.injEq,Prod.mk.injEq] at h
          obtain ⟨rfl,rfl,rfl⟩ := h
          exact ⟨c,rfl,hn,hr,hd⟩
        · simp [hc,hn,hd,hr] at h

theorem connected_cases (s : Session) (n : Nat) : s.connected n = s ∨
    Message.Sendable (.login ⟨s.machine.client.login⟩) ∧ n ∈ s.machine.connecting ∧
      s.connected n = (.login ⟨s.machine.client.login⟩ ::
        s.machine.client.messagePool.all.map .publish).foldl put
          { s with machine := s.machine.connected n } := by
  unfold connected
  simp only
  split
  · exact .inl rfl
  · rename_i nd hok
    split
    · rename_i hn
      exact .inr ⟨Message.sendable_of_ok hok,hn,rfl⟩
    · exact .inl rfl

theorem server_cases (regex : RegexCompiler) (s : Session) (e : ServerEvent) :
    s.server regex e = s ∨ (∀ k d, e = .message k d → s.mine k = false) ∧
      s.server regex e = s.deliver (s.log.step regex e) := by
  cases e with
  | message k d =>
    simp only [server]
    split
    · exact .inl rfl
    · rename_i hmine
      refine .inr ⟨fun k' d' he => ?_,rfl⟩
      cases he
      exact Bool.eq_false_iff.mpr hmine
  | accept => exact .inr ⟨by simp,rfl⟩
  | error k => exact .inr ⟨by simp,rfl⟩
  | createQueue settings => exact .inr ⟨by simp,rfl⟩
  | subscribe settings => exact .inr ⟨by simp,rfl⟩
  | unsubscribe qname => exact .inr ⟨by simp,rfl⟩
  | publish settings data => exact .inr ⟨by simp,rfl⟩
  | stopServer => exact .inr ⟨by simp,rfl⟩

structure Sound (s : Session) : Prop where
  counted : s.log.Counted
  links : ∀ n, (s.links n).Sound s.log s.machine.client.login
  mine : ∀ n, (s.links n).place ≠ none → n < s.machine.sockets
  apart : ∀ n n' k, (s.links n).place = some k → (s.links n').place = some k → n = n'
  pool : ∀ (n : UInt64) p, s.machine.client.messagePool[n]? = some p → Message.Sendable (.publish p)

theorem Sound.start (login : Str) (autoReconnection : Bool) (cache : ReCache) :
    (Session.start login autoReconnection cache).Sound where
  counted := .start cache
  links n := .fresh
  mine n h := absurd rfl h
  apart n n' k h := by cases h
  pool n p h := by simp [Session.start,AbstractClient.create,Client.create] at h

namespace Sound

variable {regex : RegexCompiler} {s : Session} (h : s.Sound)
include h

theorem setLink {n : Nat} {l : SocketLink} (hl : l.Sound s.log s.machine.client.login)
    (hp : l.place = (s.links n).place) : (s.setLink n l).Sound := by
  have hplace := setLink_place (s := s) hp
  refine ⟨h.counted,fun n' => ?_,fun n' => ?_,fun n' n'' k => ?_,h.pool⟩
  · rw [setLink_links]
    split
    · exact hl
    · exact h.links n'
  · rw [hplace]
    exact h.mine n'
  · rw [hplace,hplace]
    exact h.apart n' n'' k

theorem setMachine {machine : AbstractClient} {issued : List Message}
    (hl : machine.client.login = s.machine.client.login) (hs : s.machine.sockets ≤ machine.sockets)
    (hp : ∀ (n : UInt64) p, machine.client.messagePool[n]? = some p →
      Message.Sendable (.publish p)) :
    Sound { s with machine := machine, issued := issued } where
  counted := h.counted
  links n := by
    show (s.links n).Sound s.log machine.client.login
    rw [hl]
    exact h.links n
  mine n hn := Nat.lt_of_lt_of_le (h.mine n hn) hs
  apart := h.apart
  pool := hp

theorem put {m : Message} (hs : m.Sendable)
    (hm : ∀ lg, m = .login lg → lg.login = s.machine.client.login) : (s.put m).Sound := by
  unfold Session.put
  split
  · exact h
  · split
    · exact h
    · exact h.setLink ((h.links _).send hs hm) (SocketLink.send_place _ _)

end Sound

theorem put_machine (s : Session) (m : Message) : (s.put m).machine = s.machine := by
  unfold put
  split
  · rfl
  · split <;> rfl

theorem puts_machine (ms : List Message) (s : Session) : (ms.foldl put s).machine = s.machine := by
  induction ms generalizing s with
  | nil => rfl
  | cons m ms ih => exact (ih (s.put m)).trans (s.put_machine m)

theorem Sound.puts {s : Session} (h : s.Sound) {ms : List Message}
    (hms : ∀ m ∈ ms, m.Sendable ∧ ∀ lg, m = .login lg → lg.login = s.machine.client.login) :
    (ms.foldl Session.put s).Sound := by
  induction ms generalizing s with
  | nil => exact h
  | cons m ms ih =>
    refine ih (h.put (hms m (by simp)).1 (hms m (by simp)).2) fun m' hm' => ?_
    rw [put_machine]
    exact hms m' (by simp [hm'])

namespace Sound

variable {regex : RegexCompiler} {s : Session} (h : s.Sound)
include h

theorem call (r : Request) : (s.call r).Sound := by
  unfold Session.call
  simp only
  split
  · exact h
  · rename_i nd hok
    have hs := Message.sendable_of_ok hok
    have hput := h.put hs (fun lg he => by cases r <;> cases he)
    refine hput.setMachine ?_ ?_ fun n p hp => ?_
    · rw [put_machine]
      rfl
    · rw [put_machine]
      exact Nat.le_of_eq s.machine.send_client.2.symm
    · rcases Client.issue_pool_cases hp with hp | ⟨-,hp⟩
      · exact h.pool n p hp
      · rwa [hp] at hs

theorem setStays {machine : AbstractClient} (hst : s.machine.Stays machine) :
    Sound { s with machine := machine } :=
  h.setMachine hst.login hst.sockets (by rw [hst.pool]; exact h.pool)

theorem connected (n : Nat) : (s.connected n).Sound := by
  rcases s.connected_cases n with hs | ⟨hok,-,hs⟩
  · rw [hs]
    exact h
  · have hst := s.machine.connected_stays n
    rw [hs]
    refine (h.setStays hst).puts fun m hm => ?_
    rcases List.mem_cons.mp hm with rfl | hm
    · refine ⟨hok,fun lg he => ?_⟩
      cases he
      exact hst.login.symm
    · obtain ⟨p,hp,rfl⟩ := List.mem_map.mp hm
      obtain ⟨n,hp⟩ := MemoryMessagePool.mem_all hp
      exact ⟨h.pool n p hp,fun lg he => by cases he⟩

theorem connection (e : ConnectionEvent) : (s.connection e).Sound := by
  cases e with
  | connected n => exact h.connected n
  | send => exact h
  | message a m => exact h
  | disconnect =>
    have hd := s.machine.disconnect_client
    exact h.setMachine (congrArg Client.login hd.1) (Nat.le_of_eq hd.2.symm)
      (by show ∀ (n : UInt64) p, s.machine.disconnect.client.messagePool[n]? = some p → _
          rw [hd.1]
          exact h.pool)
  | asyncConnect => exact h.setStays (s.machine.step_stays (by simp) (by simp))
  | connectError n => exact h.setStays (s.machine.step_stays (by simp) (by simp))
  | header a => exact h.setStays (s.machine.step_stays (by simp) (by simp))
  | readError a => exact h.setStays (s.machine.step_stays (by simp) (by simp))
  | written a => exact h.setStays (s.machine.step_stays (by simp) (by simp))
  | writeError a => exact h.setStays (s.machine.step_stays (by simp) (by simp))

theorem message {a : Nat} {c : Connection} (m : Message) (hc : s.machine.connections[a]? = some c)
    (hr : c.reading = .body) : Sound { s with machine := s.machine.message a m } := by
  obtain ⟨hclient,-,hs⟩ := s.machine.message_run m hc hr
  refine h.setMachine ?_ (Nat.le_of_eq hs.symm) fun n p hp => ?_
  · rw [hclient]
    exact (Client.handle_login m s.machine.client).1
  · rw [hclient] at hp
    exact h.pool n p ((Client.handle_cases m s.machine.client).pool_kept hp)

theorem receive (a : Nat) : (s.receive a).Sound := by
  unfold Session.receive
  split
  · exact h
  · rename_i n m down hnext
    obtain ⟨c,hc,-,hr,hdown⟩ := next_cases hnext
    have hset : (s.setLink n { s.links n with down := down }).Sound := by
      refine h.setLink ((h.links n).less rfl (fun _ hm => hm) fun m' hm' => ?_) rfl
      rw [hdown]
      exact List.mem_cons_of_mem m hm'
    exact hset.message m hc hr

theorem lose (n up down : Nat) : (s.lose n up down).Sound := by
  unfold Session.lose
  split
  · exact h.setLink ((h.links n).less rfl (fun _ => List.mem_of_mem_take)
      fun _ => List.mem_of_mem_take) rfl
  · exact h

theorem deliver {e : ServerEvent} (few : (s.log.step regex e).Few)
    (hlogin : ∀ n i lg, (s.links n).place = some i.socket →
      s.log.Calls e (.message i (.login lg)) → lg.login = s.machine.client.login) :
    (s.deliver (s.log.step regex e)).Sound where
  counted := h.counted.step few
  links n := (h.links n).answer h.counted few (hlogin n)
  mine n := by
    show (SocketLink.answer _ _ _).place ≠ none → _
    rw [SocketLink.answer_place]
    exact h.mine n
  apart n n' k := by
    show (SocketLink.answer _ _ _).place = _ → (SocketLink.answer _ _ _).place = _ → _
    rw [SocketLink.answer_place,SocketLink.answer_place]
    exact h.apart n n' k
  pool := h.pool

theorem accept (n : Nat) (few : (s.log.step regex .accept).Few) : (s.accept regex n).Sound := by
  unfold Session.accept
  split
  · rename_i hn
    have hd : (s.deliver (s.log.step regex .accept)).Sound :=
      h.deliver few fun _ _ _ _ hc => by cases hc
    have hlen : (s.log.step regex .accept).accepted.length = s.log.accepted.length+1 := by
      simp [ServerLog.step,ServerLog.exec,ServerLog.handleAccept,ServerLog.onServer_final]
    have hold : ∀ n', ∀ k ∈ (s.links n').place, k < s.log.accepted.length := fun n' =>
      (h.links n').placed
    have hplace : ∀ n', ((s.deliver (s.log.step regex .accept)).links n').place =
        (s.links n').place := fun n' => SocketLink.answer_place _ _ _
    refine ⟨hd.counted,fun n' => ?_,fun n' => ?_,fun n' n'' k => ?_,h.pool⟩
    · rw [setLink_links]
      split
      · refine ⟨?_,(h.links n).sendable,(h.links n).logins,fun lc hlc => ?_⟩
        · rintro k ⟨⟩
          show s.log.accepted.length < (s.log.step regex .accept).accepted.length
          omega
        · obtain ⟨k,i,hk,-⟩ := (h.links n).confirms lc hlc
          rw [hn.2] at hk
          cases hk
      · exact hd.links n'
    · rw [setLink_links]
      split
      · rename_i he
        intro _
        rw [he]
        exact hn.1
      · exact hd.mine n'
    · rw [setLink_links,setLink_links]
      split
      · rename_i he
        split
        · rename_i he'
          intro _ _
          rw [he,he']
        · rintro ⟨⟩ hk
          rw [hplace] at hk
          exact absurd (hold n'' _ hk) (by omega)
      · rename_i he
        split
        · rintro hk ⟨⟩
          rw [hplace] at hk
          exact absurd (hold n' _ hk) (by omega)
        · exact hd.apart n' n'' k
  · exact h

theorem serve_logins {n k : Nat} {m : Message} {up : List Message}
    (hup : (s.links n).up = m :: up) {i : ClientConnection} {lg : Login}
    (hcall : s.log.Calls (.message k (received m.wire)) (.message i (.login lg))) :
    lg.login = s.machine.client.login := by
  have hs : m.Sendable := (h.links n).sendable m (by rw [hup]; simp)
  obtain ⟨-,he⟩ := ServerLog.Calls.served hs hcall
  refine (h.links n).logins lg ?_
  rw [hup,he]
  simp

theorem serve (n : Nat) (few : (s.serve regex n).log.Few) : (s.serve regex n).Sound := by
  unfold Session.serve at few ⊢
  split
  · rename_i k m up hk hup
    rw [hk,hup] at few
    have hset : (s.setLink n { s.links n with up := up }).Sound :=
      h.setLink ((h.links n).less rfl (fun m' hm' => by rw [hup]; exact List.mem_cons_of_mem m hm')
        fun _ hm => hm) rfl
    exact hset.deliver few fun _ _ _ _ hcall => h.serve_logins hup hcall
  · exact h

theorem server_logins {e : ServerEvent} (hmine : ∀ k d, e = .message k d → s.mine k = false)
    {n : Nat} {i : ClientConnection} {m : Message} (hn : (s.links n).place = some i.socket) :
    ¬ s.log.Calls e (.message i m) := by
  intro hcall
  cases hcall with
  | @message k d _ _ sender decoded =>
    have hs : i.socket = k := by rw [h.counted.numbered k i sender]
    rw [hs] at hn
    have hyes : s.mine k = true := by
      rw [Session.mine,List.any_eq_true]
      exact ⟨n,List.mem_range.mpr (h.mine n (by rw [hn]; simp)),by simp [hn]⟩
    rw [hmine k d rfl] at hyes
    cases hyes

theorem server (e : ServerEvent) (few : (s.server regex e).log.Few) :
    (s.server regex e).Sound := by
  rcases s.server_cases regex e with hs | ⟨hmine,hs⟩
  · rw [hs]
    exact h
  · rw [hs] at few ⊢
    exact h.deliver few fun n i lg hn hcall => absurd hcall (h.server_logins hmine hn)

end Sound

theorem put_log (s : Session) (m : Message) : (s.put m).log = s.log := by
  unfold put
  split
  · rfl
  · split <;> rfl

theorem connection_client (s : Session) (e : ConnectionEvent) :
    ∃ a b, (s.connection e).machine.client =
      { s.machine.client with asyncConnection := a, loginConfirmed := b } := by
  cases e with
  | connected n =>
    rcases s.connected_cases n with hs | ⟨-,-,hs⟩
    · rw [connection,hs]
      exact ⟨_,_,rfl⟩
    · rw [connection,hs,puts_machine]
      exact (s.machine.connected_stays n).client
  | send => exact ⟨_,_,rfl⟩
  | message a m => exact ⟨_,_,rfl⟩
  | disconnect => exact ⟨_,_,s.machine.disconnect_client.1⟩
  | asyncConnect => exact (s.machine.step_stays (by simp) (by simp)).client
  | connectError n => exact (s.machine.step_stays (by simp) (by simp)).client
  | header a => exact (s.machine.step_stays (by simp) (by simp)).client
  | readError a => exact (s.machine.step_stays (by simp) (by simp)).client
  | written a => exact (s.machine.step_stays (by simp) (by simp)).client
  | writeError a => exact (s.machine.step_stays (by simp) (by simp)).client

theorem put_links (s : Session) (m : Message) (n : Nat) :
    (s.put m).links n = s.links n ∨ (s.put m).links n = (s.links n).send m := by
  unfold put
  split
  · exact .inl rfl
  · split
    · exact .inl rfl
    · rw [setLink_links]
      split
      · rename_i he
        rw [he]
        exact .inr rfl
      · exact .inl rfl

theorem put_place (s : Session) (m : Message) (n : Nat) :
    ((s.put m).links n).place = (s.links n).place := by
  rcases s.put_links m n with hl | hl
  · rw [hl]
  · rw [hl,SocketLink.send_place]

theorem puts_log (ms : List Message) (s : Session) : (ms.foldl put s).log = s.log := by
  induction ms generalizing s with
  | nil => rfl
  | cons m ms ih => exact (ih (s.put m)).trans (s.put_log m)

theorem puts_place (ms : List Message) (s : Session) (n : Nat) :
    ((ms.foldl put s).links n).place = (s.links n).place := by
  induction ms generalizing s with
  | nil => rfl
  | cons m ms ih => exact (ih (s.put m)).trans (s.put_place m n)

theorem step_log (regex : RegexCompiler) (s : Session) (e : SessionEvent) :
    (s.step regex e).log = s.log ∨ ∃ e', (s.step regex e).log = s.log.step regex e' := by
  cases e with
  | call r =>
    left
    simp only [step,call]
    split
    · rfl
    · exact s.put_log _
  | connection e =>
    left
    cases e with
    | connected n =>
      rcases s.connected_cases n with hs | ⟨-,-,hs⟩
      · rw [step,connection,hs]
      · rw [step,connection,hs,puts_log]
    | asyncConnect => rfl
    | connectError n => rfl
    | header a => rfl
    | message a m => rfl
    | readError a => rfl
    | written a => rfl
    | writeError a => rfl
    | send => rfl
    | disconnect => rfl
  | receive a =>
    left
    simp only [step,receive]
    split <;> rfl
  | lose n up down =>
    left
    simp only [step,lose]
    split <;> rfl
  | accept n =>
    simp only [step,accept]
    split
    · exact .inr ⟨.accept,rfl⟩
    · exact .inl rfl
  | serve n =>
    simp only [step,serve]
    split
    · exact .inr ⟨_,rfl⟩
    · exact .inl rfl
  | server e =>
    rcases s.server_cases regex e with hs | ⟨-,hs⟩
    · exact .inl (by rw [step,hs])
    · exact .inr ⟨e,by rw [step,hs]; rfl⟩

theorem few_of_step {regex : RegexCompiler} {s : Session} {e : SessionEvent}
    (few : (s.step regex e).log.Few) : s.log.Few := by
  rcases s.step_log regex e with hl | ⟨e',hl⟩
  · rwa [hl] at few
  · rw [hl] at few
    exact Nat.lt_of_le_of_lt (s.log.accepted_step e') few

theorem Sound.step {regex : RegexCompiler} {s : Session} (h : s.Sound) (e : SessionEvent)
    (few : (s.step regex e).log.Few) : (s.step regex e).Sound := by
  cases e with
  | call r => exact h.call r
  | connection e => exact h.connection e
  | receive a => exact h.receive a
  | lose n up down => exact h.lose n up down
  | accept n =>
    by_cases hn : n < s.machine.sockets ∧ (s.links n).place = none
    · simp only [Session.step,Session.accept,if_pos hn] at few
      exact h.accept n few
    · simpa only [Session.step,Session.accept,hn,if_false] using h
  | serve n => exact h.serve n few
  | server e => exact h.server e few

end Session

end Dqueue
