import Dqueue.Inboxes
import Dqueue.PublishOnce

/-!
A server and any number of clients, each with its connection. The code of a client may do
whatever it does, and a client that connects again is behind a new connection: of what it
does, the messages that it writes count, and what its handler makes of the frames that it
reads. Each direction of a connection is a pipe: frames go in whole and come out in order,
as they do on a channel where no partial write has to queue up behind another, and the end
of what is in flight may be lost.
-/

set_option autoImplicit false

namespace Dqueue
open Std Effects RawMem Framing AsyncIO Queries

/-- A client behind a connection. `before` has what it had consumed when it connected, and
`written` the messages it has handed to `AsyncIO::send`. -/
structure Peer where
  client : Client
  before : List Publish
  written : List Message
  up : Pipe UInt8
  down : Pipe UInt8
  clientReads : Bool
  serverReads : Bool

/-- The `k`-th peer is behind the connection that is accepted as the `k`-th. `handled` has
the events that the server has handled. -/
structure Deployment where
  log : ServerLog
  peers : List Peer
  handled : List ServerEvent

inductive DeploymentEvent where
  | connects (client : Client)
  | accepts
  | writes (k : Nat) (m : Message)
  /-- Whatever the code of a client does to it besides. -/
  | changes (k : Nat) (client : Client)
  /-- A read completes on the client's side. -/
  | receive (k : Nat)
  /-- A read completes on the server's side. -/
  | serve (k : Nat)
  | error (k : Nat)
  /-- A call of the server's own interface; other events are none. -/
  | server (e : ServerEvent)
  | loseUp (k n : Nat)
  | loseDown (k n : Nat)

namespace Peer

def connected (client : Client) : Peer :=
  ⟨client,client.consumed,[],.fresh,.fresh,true,true⟩

def writes (p : Peer) (m : Message) : Peer :=
  match m.encode with
  | .error _ => p
  | .ok bytes => { p with written := p.written ++ [m], up := p.up.send bytes }

def receive (p : Peer) : Peer :=
  match readNextAsync p.down.inFlight with
  | .item d bytes =>
    if p.clientReads then
      let r := Client.onNewMessage d p.client
      if defined r then
        { p with
          client := final r
          down := p.down.rest bytes
          clientReads := (Effects.thrown r).isNone }
      else p
    else p
  | _ => p

def readUp (p : Peer) (bytes : Bytes) (goesOn : Bool) : Peer :=
  { p with up := p.up.rest bytes, serverReads := goesOn }

def take (p : Peer) (m : Message) : Peer :=
  match m.encode with
  | .error _ => p
  | .ok bytes => { p with down := p.down.send bytes }

end Peer

namespace Deployment

def start (cache : ReCache) : Deployment := ⟨ServerLog.start cache,[],[]⟩

def onPeer (s : Deployment) (k : Nat) (f : Peer → Peer) : Deployment :=
  { s with peers := s.peers.modify k f }

variable (regex : RegexCompiler)

def handles (s : Deployment) (e : ServerEvent) : Deployment where
  log := s.log.step regex e
  peers := s.peers.mapIdx fun k p =>
    (Server.sentTo k s.log.server (s.log.step regex e).server).foldl Peer.take p
  handled := s.handled ++ [e]

def serve (s : Deployment) (k : Nat) : Deployment :=
  match s.peers[k]? with
  | none => s
  | some p =>
    match readNextAsync p.up.inFlight with
    | .item d bytes =>
      let r := ServerLog.exec regex (.message k d) s.log
      if k < s.log.accepted.length ∧ p.serverReads = true ∧ defined r = true then
        (s.onPeer k (·.readUp bytes (Effects.thrown r).isNone)).handles regex (.message k d)
      else s
    | _ => s

def step (s : Deployment) : DeploymentEvent → Deployment
  | .connects client => { s with peers := s.peers ++ [.connected client] }
  | .accepts => if s.log.accepted.length < s.peers.length then s.handles regex .accept else s
  | .writes k m => s.onPeer k (·.writes m)
  | .changes k client => s.onPeer k fun p => { p with client := client }
  | .receive k => s.onPeer k Peer.receive
  | .serve k => s.serve regex k
  | .error k => s.handles regex (.error k)
  | .server .accept => s
  | .server (.message _ _) => s
  | .server (.error _) => s
  | .server e => s.handles regex e
  | .loseUp k n => s.onPeer k fun p => { p with up := p.up.cut n }
  | .loseDown k n => s.onPeer k fun p => { p with down := p.down.cut n }

def run (s : Deployment) (events : List DeploymentEvent) : Deployment := events.foldl (step regex) s

/-- Clients write requests and logins and consume only what they read; messages of closed
connections are not handled; and what the server publishes fits into a frame. -/
def Permitted (s : Deployment) : DeploymentEvent → Prop
  | .writes _ m => m.kind ∈ [.CREATE_QUEUE,.SUBSCRIBE,.UNSUBSCRIBE,.PUBLISH,.LOGIN]
  | .changes k client => ∀ p ∈ s.peers[k]?, client.consumed = p.client.consumed
  | .serve k => k ∉ s.log.server.closed
  | .server e => ∀ op ∈ s.log.operation e, op.Sendable
  | _ => True

instance (s : Deployment) : (e : DeploymentEvent) → Decidable (s.Permitted e)
  | .writes _ m => inferInstanceAs (Decidable (m.kind ∈ _))
  | .changes k client => inferInstanceAs (Decidable (∀ p ∈ s.peers[k]?,
      client.consumed = p.client.consumed))
  | .serve k => inferInstanceAs (Decidable (k ∉ s.log.server.closed))
  | .server e => inferInstanceAs (Decidable (∀ op ∈ s.log.operation e, _))
  | .connects _ => isTrue trivial
  | .accepts => isTrue trivial
  | .receive _ => isTrue trivial
  | .error _ => isTrue trivial
  | .loseUp _ _ => isTrue trivial
  | .loseDown _ _ => isTrue trivial

/-- What the interface of a client does under its lock are two such steps, and what
`onConnect` writes is permitted too. -/
theorem call_permitted {s : Deployment} {k : Nat} {p : Peer} (hp : s.peers[k]? = some p)
    (r : Request) (locker : Nat) :
    Runs.Along (step regex) Permitted s [.changes k (p.client.issue r locker),
      .writes k (r.message p.client.nextMessageId)] := by
  refine ⟨fun q hq => ?_,?_,trivial⟩
  · obtain rfl := Option.some.inj (hp.symm.trans hq)
    rfl
  · cases r <;> simp [Permitted,Request.message,Message.kind]

theorem onConnect_permitted (s : Deployment) (k : Nat) (login : Str) (pool : List Publish) :
    Runs.Along (step regex) Permitted s
      (.writes k (.login ⟨login⟩) :: pool.map fun pb => .writes k (.publish pb)) := by
  refine .of_mem fun e he s => ?_
  rcases List.mem_cons.mp he with rfl | he
  · simp [Permitted,Message.kind]
  · obtain ⟨pb,-,rfl⟩ := List.mem_map.mp he
    simp [Permitted,Message.kind]

end Deployment

section Steps

variable {regex : RegexCompiler} {l l' : ServerLog} {e : ServerEvent}

theorem ServerLog.step_sendable (l : ServerLog) (e : ServerEvent) :
    ∃ out, (l.step regex e).server.outbox = l.server.outbox ++ out ∧ ∀ x ∈ out, x.2.Sendable := by
  have hreplies : ∀ {done : List (ClientConnection × Message)} {s' : Server},
      Server.Replies done l.server s' →
        ∃ out, s'.outbox = l.server.outbox ++ out ∧ ∀ x ∈ out, x.2.Sendable := by
    intro done s' h
    obtain ⟨out,hout,hgood⟩ := h.outbox
    exact ⟨out,hout,fun x hx => (hgood x hx).1⟩
  have hstep := l.step_cases regex e
  generalize l.step regex e = l' at hstep
  cases hstep with
  | same => exact ⟨[],by simp,by simp⟩
  | accept => exact ⟨[],by simp [handleAccept_final],by simp⟩
  | close sender => exact ⟨[],by simp [close_outbox],by simp⟩
  | stop running => exact ⟨[],by simp [stop_outbox],by simp⟩
  | call calls =>
    cases calls with
    | message sender decoded => exact hreplies (Server.handle_replies _ _ l.server)
    | createQueue settings => exact hreplies (Server.step_replies l.server (by simp))
    | subscribe settings => exact hreplies (Server.step_replies l.server (by simp))
    | unsubscribe qname => exact hreplies (Server.step_replies l.server (by simp))
    | publish settings data => exact hreplies (Server.step_replies l.server (by simp))

theorem ServerLog.accepted_other (l : ServerLog) {e : ServerEvent} (he : e ≠ .accept) :
    (l.step regex e).accepted = l.accepted := by
  have hstep := l.step_cases regex e
  generalize l.step regex e = l' at hstep
  cases hstep with
  | same => rfl
  | accept => exact absurd rfl he
  | call calls => rfl
  | close sender => exact close_sameAccepted _ l
  | stop running =>
    exact stopServer_within SameAccepted.refl SameAccepted.trans close_sameAccepted (fun _ => rfl) l

theorem Message.operation_sendable {m : Message} {c : Id} {op : Op} (hm : m.Sendable)
    (h : m.operation c = some op) : op.Sendable := by
  cases m with
  | publish cs =>
    cases h
    exact Server.sendable_id hm
  | createQueue cq =>
    cases h
    trivial
  | subscribe cs =>
    cases h
    trivial
  | unsubscribe cs =>
    cases h
    trivial
  | login lg => cases h
  | ok q => cases h
  | loginConfirm q => cases h

theorem Server.sentOn_append {s s' : Server} {out : List (Nat × Message)}
    (h : s'.outbox = s.outbox ++ out) (k : Nat) :
    s'.sentOn k = s.sentOn k ++ Server.sentTo k s s' := by
  simp [Server.sentOn,Server.sentTo,h]

def ServerLog.requestOf (k : Nat) (l : ServerLog) (e : ServerEvent) : List Message :=
  ((l.request e).toList.filter (fun r => r.1.socket == k)).map Prod.snd

def ServerLog.requests (regex : RegexCompiler) (cache : ReCache) (k : Nat)
    (events : List ServerEvent) : List Message :=
  Runs.collect (step regex) (requestOf k) (ServerLog.start cache) events

theorem ServerLog.request_sender {r : ClientConnection × Message} (h : l.request e = some r) :
    r.1 ∈ l.accepted := by
  cases e with
  | message k d =>
    obtain ⟨i,hi,hm⟩ := Option.bind_eq_some_iff.mp h
    split at hm
    · cases hm
      exact List.mem_of_getElem? hi
    · cases hm
  | _ => cases h

theorem ServerLog.Books.requestOf_later (books : l.Books) (e : ServerEvent) {k : Nat}
    (hk : l.accepted.length ≤ k) : l.requestOf k e = [] := by
  unfold ServerLog.requestOf
  cases hr : l.request e with
  | none => rfl
  | some r =>
    have hlt := (books.mem_accepted (ServerLog.request_sender hr)).2
    have hne : r.1.socket ≠ k := by omega
    simp [hne]

theorem Answered.sentOn_later {b : Broker Str Id Str} (h : Answered regex b l e l')
    (books : l.Books) {k : Nat} (hk : l.accepted.length ≤ k) :
    l'.server.sentOn k = l.server.sentOn k := by
  obtain ⟨out,heard,replies,hout,houtbox,-,-,hreply,hsilent⟩ := h
  have hother : ∀ x ∈ out ++ replies, x.1 ≠ k := by
    intro x hx
    rcases List.mem_append.mp hx with hx | hx
    · obtain ⟨j,hj⟩ := List.mem_iff_getElem?.mp hx
      obtain ⟨i,hi,cs,rfl,-⟩ := hout.published j _ hj
      have hlt := (books.mem_accepted (books.mem_connections.mp hi).1).2
      show i.socket ≠ k
      omega
    · have hreplied : l.reply e = some x := by
        by_cases hrefused : ∃ call ∈ l.asks e, (b.answer (brokerTags regex) call).refused
        · rw [hsilent hrefused] at hx
          cases hx
        · rw [hreply fun call hcall hr => hrefused ⟨call,hcall,hr⟩] at hx
          exact Option.mem_toList.mp hx
      obtain ⟨r,hr,hm⟩ := Option.bind_eq_some_iff.mp hreplied
      obtain ⟨m,-,rfl⟩ := Option.map_eq_some_iff.mp hm
      have hlt := (books.mem_accepted (ServerLog.request_sender hr)).2
      show r.1.socket ≠ k
      omega
  have hnone : (out ++ replies).filter (fun x => x.1 == k) = [] := by
    rw [List.filter_eq_nil_iff]
    intro x hx
    simpa using hother x hx
  rw [Server.sentOn,Server.sentOn,houtbox,List.append_assoc,List.filter_append,hnone,
    List.append_nil]

end Steps

theorem Client.onNewMessage_consumed {m : Message} (hm : m.Sendable) (c : Client) :
    ∃ got, (final (Client.onNewMessage (received m.wire) c)).consumed = c.consumed ++ got ∧
      got.map Publish.content = m.content.toList := by
  have hrun : Client.onNewMessage (received m.wire) c =
      if m.kind ∈ [.PUBLISH,.OK,.LOGIN_CONFIRM] then Client.handle m c
      else .error (.thrown ⟨s!"{c.unknowKind}{m.kind.toNat}"⟩) c := by
    rw [Client.onNewMessage,bind_apply,get_apply]
    simp only [bind_apply,Message.ofFrame_run hm (received_frame m)]
    by_cases hk : m.kind ∈ [.PUBLISH,.OK,.LOGIN_CONFIRM]
    · simp only [if_pos hk]
    · simp only [if_neg hk]
  rw [hrun]
  cases m with
  | publish cs => exact ⟨[cs],rfl,rfl⟩
  | ok cs =>
    refine ⟨[],?_,rfl⟩
    rw [if_pos (by simp [Message.kind]),List.append_nil]
    simp only [Client.handle,bind_apply,get_apply]
    cases c.queries[cs.id]? <;> rfl
  | loginConfirm lc => exact ⟨[],(List.append_nil _).symm,rfl⟩
  | login lg => exact ⟨[],(List.append_nil _).symm,rfl⟩
  | createQueue cq => exact ⟨[],(List.append_nil _).symm,rfl⟩
  | subscribe cs => exact ⟨[],(List.append_nil _).symm,rfl⟩
  | unsubscribe cs => exact ⟨[],(List.append_nil _).symm,rfl⟩

/-- The server has handled `requests` of what was written, and the client has consumed what
it has read of `sent`. -/
structure Peer.Exchanged (requests sent : List Message) (p : Peer) : Prop where
  fits : ∀ m ∈ p.written, m.Sendable ∧
    m.kind ∈ [.CREATE_QUEUE,.SUBSCRIBE,.UNSUBSCRIBE,.PUBLISH,.LOGIN]
  up : p.up.Transfers Message.wire p.written requests
  down : ∃ ms, p.down.Transfers Message.wire sent ms ∧ ∃ got,
    p.client.consumed = p.before ++ got ∧ got.map Publish.content = ms.filterMap Message.content

namespace Peer.Exchanged

variable {requests sent : List Message} {p : Peer}

theorem connected (client : Client) : (Peer.connected client).Exchanged [] [] where
  fits m hm := by cases hm
  up := Pipe.transfers_fresh
  down := ⟨[],Pipe.transfers_fresh,[],(List.append_nil _).symm,rfl⟩

variable (h : p.Exchanged requests sent)
include h

theorem writes {m : Message}
    (hm : m.kind ∈ [.CREATE_QUEUE,.SUBSCRIBE,.UNSUBSCRIBE,.PUBLISH,.LOGIN]) :
    (p.writes m).Exchanged requests sent := by
  unfold Peer.writes
  cases he : m.encode with
  | error f => exact h
  | ok bytes =>
    obtain ⟨hs,rfl⟩ := Message.encode_ok he
    refine ⟨fun m' hm' => ?_,h.up.send m,h.down⟩
    rcases List.mem_append.mp hm' with hm' | hm'
    · exact h.fits m' hm'
    · rw [List.mem_singleton.mp hm']
      exact ⟨hs,hm⟩

theorem take {m : Message} (hm : m.Sendable) : (p.take m).Exchanged requests (sent ++ [m]) := by
  obtain ⟨nd,hnd,-⟩ := Message.toNetworkMessage_ok m hm
  have henc : m.encode = .ok m.wire := by
    simp [Message.encode,hnd,Message.asBuffer_of_ok hnd,bind,Except.bind]
  simp only [Peer.take,henc]
  obtain ⟨ms,hdown,hgot⟩ := h.down
  exact ⟨h.fits,h.up,ms,hdown.send m,hgot⟩

theorem takes {ms : List Message} (hms : ∀ m ∈ ms, m.Sendable) :
    (ms.foldl Peer.take p).Exchanged requests (sent ++ ms) := by
  induction ms generalizing p sent with
  | nil => simpa using h
  | cons m ms ih =>
    have hrest := ih (h.take (hms m (by simp))) fun m' hm' => hms m' (by simp [hm'])
    simpa using hrest

theorem receive (hsent : ∀ m ∈ sent, m.Sendable) : p.receive.Exchanged requests sent := by
  unfold Peer.receive
  split
  · rename_i d bytes hread
    split
    · dsimp only
      split
      · obtain ⟨ms,hdown,got,hconsumed,hgot⟩ := h.down
        obtain ⟨m,hm,rfl,hrest⟩ := hdown.receive readNextAsync_frames hsent hread
        obtain ⟨got',hconsumed',hgot'⟩ := Client.onNewMessage_consumed (hsent m hm) p.client
        refine ⟨h.fits,h.up,ms ++ [m],hrest,got ++ got',?_,?_⟩
        · rw [hconsumed',hconsumed,List.append_assoc]
        · rw [List.map_append,hgot,hgot',List.filterMap_append]
          cases hc : m.content <;> simp [hc]
      · exact h
    · exact h
  · exact h

theorem readUp {d : NetworkMessage} {bytes : Bytes}
    (hread : readNextAsync p.up.inFlight = .item d bytes) :
    ∃ m : Message, d = received m.wire ∧ m.Sendable ∧
      m.kind ∈ [.CREATE_QUEUE,.SUBSCRIBE,.UNSUBSCRIBE,.PUBLISH,.LOGIN] ∧
      ∀ goesOn, (p.readUp bytes goesOn).Exchanged (requests ++ [m]) sent := by
  obtain ⟨m,hm,hd,hrest⟩ := h.up.receive readNextAsync_frames (fun m hm => (h.fits m hm).1) hread
  exact ⟨m,hd,(h.fits m hm).1,(h.fits m hm).2,fun _ => ⟨h.fits,hrest,h.down⟩⟩

theorem loseUp (n : Nat) : Peer.Exchanged requests sent { p with up := p.up.cut n } :=
  ⟨h.fits,h.up.cut n,h.down⟩

theorem loseDown (n : Nat) : Peer.Exchanged requests sent { p with down := p.down.cut n } := by
  obtain ⟨ms,hdown,hgot⟩ := h.down
  exact ⟨h.fits,h.up,ms,hdown.cut n,hgot⟩

end Peer.Exchanged

structure Deployment.Accounted (regex : RegexCompiler) (cache : ReCache) (s : Deployment) :
    Prop where
  log : s.log = (ServerLog.start cache).run regex s.handled
  served : Runs.Along (ServerLog.step regex) ServerLog.Served (ServerLog.start cache) s.handled
  accepted : s.log.accepted.length ≤ s.peers.length
  later : ∀ k, s.log.accepted.length ≤ k →
    ServerLog.requests regex cache k s.handled = [] ∧ s.log.server.sentOn k = []
  sendable : ∀ x ∈ s.log.server.outbox, x.2.Sendable
  peers : ∀ (k : Nat) (p : Peer), s.peers[k]? = some p →
    p.Exchanged (ServerLog.requests regex cache k s.handled) (s.log.server.sentOn k)

namespace Deployment.Accounted

variable {regex : RegexCompiler} {cache : ReCache} {s : Deployment}

theorem start (cache : ReCache) : (Deployment.start cache).Accounted regex cache where
  log := rfl
  served := trivial
  accepted := Nat.le_refl _
  later k _ := ⟨rfl,rfl⟩
  sendable x hx := by cases hx
  peers k p hp := by simp [Deployment.start] at hp

variable (h : s.Accounted regex cache)
include h

theorem requests_concat (k : Nat) (e : ServerEvent) :
    ServerLog.requests regex cache k (s.handled ++ [e]) =
      ServerLog.requests regex cache k s.handled ++ s.log.requestOf k e := by
  rw [ServerLog.requests,ServerLog.requests,Runs.collect_concat,h.log]
  rfl

theorem onPeer {k : Nat} {f : Peer → Peer}
    (hf : ∀ p, s.peers[k]? = some p → ∀ requests sent, p.Exchanged requests sent →
      (∀ m ∈ sent, m.Sendable) → (f p).Exchanged requests sent) :
    (s.onPeer k f).Accounted regex cache := by
  refine ⟨h.log,h.served,by simpa [Deployment.onPeer] using h.accepted,h.later,h.sendable,
    fun j p hp => ?_⟩
  simp only [Deployment.onPeer,List.getElem?_modify] at hp
  cases hj : s.peers[j]? with
  | none => simp [hj] at hp
  | some p₀ =>
    have hright := h.peers j p₀ hj
    by_cases hk : k = j
    · subst hk
      simp only [hj,if_true] at hp
      obtain rfl : f p₀ = p := Option.some.inj hp
      refine hf p₀ hj _ _ hright fun m hm => ?_
      obtain ⟨x,hx,rfl⟩ := List.mem_map.mp hm
      exact h.sendable x (List.mem_of_mem_filter hx)
    · simp only [hj,hk,if_false] at hp
      obtain rfl : p₀ = p := Option.some.inj hp
      exact hright

theorem handles (sound : ReCache.Sound regex cache) {e : ServerEvent} {ps : List Peer}
    (he : s.log.Served e) (few : (s.log.step regex e).Few)
    (accepted : (s.log.step regex e).accepted.length ≤ ps.length)
    (peers : ∀ (k : Nat) (p : Peer), ps[k]? = some p →
      p.Exchanged (ServerLog.requests regex cache k (s.handled ++ [e])) (s.log.server.sentOn k)) :
    (Deployment.handles regex { s with peers := ps } e).Accounted regex cache := by
  have hlog : s.log.step regex e = (ServerLog.start cache).run regex (s.handled ++ [e]) := by
    rw [ServerLog.run,List.foldl_append,List.foldl_cons,List.foldl_nil,h.log]
    rfl
  have few₀ : s.log.Few := Nat.lt_of_le_of_lt (s.log.accepted_step e) few
  have hrefines := ServerLog.run_refines sound h.served (h.log ▸ few₀)
  have hsound : ReCache.Sound regex s.log.server.cache := by
    rw [h.log]
    exact ServerLog.run_sound sound s.handled
  have books : s.log.Books := h.log ▸ hrefines.books
  obtain ⟨-,hanswered⟩ := books.step_answered few hsound he
  obtain ⟨out,hout,hgood⟩ := @ServerLog.step_sendable regex s.log e
  refine ⟨hlog,?_,by simpa [Deployment.handles] using accepted,fun k hk => ?_,fun x hx => ?_,
    fun k p hp => ?_⟩
  · refine Runs.along_append.mpr ⟨h.served,?_,trivial⟩
    have hfold : s.handled.foldl (ServerLog.step regex) (ServerLog.start cache) = s.log :=
      h.log.symm
    rw [hfold]
    exact he
  · have hk' : s.log.accepted.length ≤ k := Nat.le_trans (s.log.accepted_step e) hk
    refine ⟨?_,?_⟩
    · show ServerLog.requests regex cache k (s.handled ++ [e]) = []
      rw [h.requests_concat,(h.later k hk').1,books.requestOf_later e hk']
      rfl
    · exact (hanswered.sentOn_later books hk').trans (h.later k hk').2
  · have hx' : x ∈ s.log.server.outbox ++ out := hout ▸ hx
    rcases List.mem_append.mp hx' with hx' | hx'
    · exact h.sendable x hx'
    · exact hgood x hx'
  · simp only [Deployment.handles,List.getElem?_mapIdx] at hp
    obtain ⟨p₀,hp₀,rfl⟩ := Option.map_eq_some_iff.mp hp
    show Peer.Exchanged _ ((s.log.step regex e).server.sentOn k) _
    rw [Server.sentOn_append hout]
    refine (peers k p₀ hp₀).takes fun m hm => ?_
    obtain ⟨x,hx,rfl⟩ := List.mem_map.mp hm
    have hx' := List.mem_of_mem_filter hx
    rw [hout,List.drop_left] at hx'
    exact hgood x hx'

theorem event (sound : ReCache.Sound regex cache) {e : ServerEvent}
    (message : s.log.request e = none) (he : s.log.Served e) (few : (s.log.step regex e).Few)
    (accepted : (s.log.step regex e).accepted.length ≤ s.peers.length) :
    (s.handles regex e).Accounted regex cache := by
  refine h.handles sound he few accepted fun k p hp => ?_
  have hnone : s.log.requestOf k e = [] := by simp [ServerLog.requestOf,message]
  rw [h.requests_concat,hnone,List.append_nil]
  exact h.peers k p hp

theorem serve (sound : ReCache.Sound regex cache) {k : Nat} (isOpen : k ∉ s.log.server.closed)
    (few : (s.serve regex k).log.Few) : (s.serve regex k).Accounted regex cache := by
  unfold Deployment.serve at few ⊢
  cases hk : s.peers[k]? with
  | none => exact h
  | some p =>
    simp only [hk] at few ⊢
    split
    · rename_i d bytes hread
      simp only [hread] at few
      split
      · rename_i hcond
        rw [if_pos hcond] at few
        have hlt := hcond.1
        have few' : (s.log.step regex (.message k d)).Few := few
        have few₀ : s.log.Few := Nat.lt_of_le_of_lt (s.log.accepted_step _) few'
        have books : s.log.Books := h.log ▸
          (ServerLog.run_refines sound h.served (h.log ▸ few₀)).books
        obtain ⟨m,rfl,hm,hkind,hright⟩ := (h.peers k p hk).readUp hread
        have hi := List.getElem?_eq_getElem hlt
        have hnumber := books.numbered k _ hi
        have hrequest : s.log.request (.message k (received m.wire)) =
            some (⟨UInt64.ofNat k,k⟩,m) := by
          simp only [ServerLog.request,hi,hnumber,Option.bind_eq_bind,Option.bind_some,
            Message.ofFrame_run hm (received_frame m),if_pos hkind]
        have hserved : s.log.Served (.message k (received m.wire)) := by
          refine ⟨fun i hi' => ?_,fun op hop => ?_⟩
          · have hi'' : s.log.accepted[k]? = some i := hi'
            rw [books.numbered k i hi'']
            exact isOpen
          · have hop' : m.operation (UInt64.ofNat k) = some op := by
              simpa [ServerLog.operation,hrequest] using hop
            exact Message.operation_sendable hm hop'
        refine h.handles sound hserved few' ?_ fun j p' hp' => ?_
        · rw [s.log.accepted_other (by simp),List.length_modify]
          exact h.accepted
        · rw [h.requests_concat,ServerLog.requestOf,hrequest]
          rw [List.getElem?_modify] at hp'
          by_cases hj : k = j
          · subst hj
            simp only [hk,if_true] at hp'
            obtain rfl := Option.some.inj hp'
            have hone : ([(⟨UInt64.ofNat k,k⟩,m)] : List (ClientConnection × Message)).filter
                (fun r => r.1.socket == k) = [(⟨UInt64.ofNat k,k⟩,m)] := by simp
            rw [Option.toList_some,hone]
            exact hright _
          · simp only [hj,if_false] at hp'
            have hnone : ([(⟨UInt64.ofNat k,k⟩,m)] : List (ClientConnection × Message)).filter
                (fun r => r.1.socket == j) = [] := by simp [hj]
            rw [Option.toList_some,hnone,List.map_nil,List.append_nil]
            refine h.peers j p' ?_
            cases hp : s.peers[j]? with
            | none => simp [hp] at hp'
            | some q =>
              rw [hp] at hp'
              exact hp'
      · exact h
    · exact h

theorem connects (client : Client) :
    Accounted regex cache { s with peers := s.peers ++ [.connected client] } := by
  refine ⟨h.log,h.served,?_,h.later,h.sendable,fun k p hp => ?_⟩
  · have haccepted := h.accepted
    simp only [List.length_append,List.length_singleton]
    omega
  · simp only [List.getElem?_append] at hp
    split at hp
    · exact h.peers k p hp
    · rename_i hk
      rw [List.getElem?_singleton] at hp
      split at hp
      · obtain rfl := Option.some.inj hp
        obtain ⟨hrequests,hsent⟩ := h.later k (by have := h.accepted; omega)
        show Peer.Exchanged (ServerLog.requests regex cache k s.handled) (s.log.server.sentOn k) _
        rw [hrequests,hsent]
        exact .connected client
      · cases hp

theorem step (sound : ReCache.Sound regex cache) {e : DeploymentEvent} (permitted : s.Permitted e)
    (few : (s.step regex e).log.Few) : (s.step regex e).Accounted regex cache := by
  -- a call of the server's own interface
  have hown : ∀ e : ServerEvent, (∀ op ∈ s.log.operation e, op.Sendable) →
      s.log.sender e = none → s.log.request e = none → e ≠ .accept → (s.handles regex e).log.Few →
      (s.handles regex e).Accounted regex cache := by
    intro e hop hsender hrequest hne few'
    refine h.event sound hrequest ⟨by simp [hsender],hop⟩ few' ?_
    rw [s.log.accepted_other hne]
    exact h.accepted
  cases e with
  | connects client => exact h.connects client
  | accepts =>
    simp only [Deployment.step] at few ⊢
    split at few
    · rename_i hlt
      rw [if_pos hlt]
      refine h.event sound rfl ⟨by simp [ServerLog.sender],by simp [ServerLog.operation,
        ServerLog.request]⟩ few ?_
      have hlen : (s.log.step regex .accept).accepted.length = s.log.accepted.length+1 := by
        simp [ServerLog.step,ServerLog.exec,ServerLog.handleAccept_final]
      omega
    · rename_i hlt
      rw [if_neg hlt]
      exact h
  | writes k m => exact h.onPeer fun p _ _ _ hp _ => hp.writes permitted
  | changes k client =>
    refine h.onPeer fun p hk _ _ hp _ => ?_
    obtain ⟨ms,hdown,got,hconsumed,hgot⟩ := hp.down
    exact ⟨hp.fits,hp.up,ms,hdown,got,(permitted p hk).trans hconsumed,hgot⟩
  | receive k => exact h.onPeer fun p _ _ _ hp hsent => hp.receive hsent
  | serve k => exact h.serve sound permitted few
  | error k => exact hown _ (by simp [ServerLog.operation,ServerLog.request]) rfl rfl (by simp) few
  | server e =>
    cases e with
    | accept => exact h
    | message k d => exact h
    | error k => exact h
    | createQueue settings => exact hown _ permitted rfl rfl (by simp) few
    | subscribe settings => exact hown _ permitted rfl rfl (by simp) few
    | unsubscribe qname => exact hown _ permitted rfl rfl (by simp) few
    | publish settings data => exact hown _ permitted rfl rfl (by simp) few
    | stopServer => exact hown _ permitted rfl rfl (by simp) few
  | loseUp k n => exact h.onPeer fun p _ _ _ hp _ => hp.loseUp n
  | loseDown k n => exact h.onPeer fun p _ _ _ hp _ => hp.loseDown n

end Deployment.Accounted

namespace Deployment

variable {regex : RegexCompiler} {cache : ReCache}

variable (regex) in
theorem step_log (s : Deployment) (e : DeploymentEvent) :
    (s.step regex e).log = s.log ∨ ∃ e', (s.step regex e).log = s.log.step regex e' := by
  cases e with
  | connects client => exact .inl rfl
  | accepts =>
    simp only [step]
    split
    · exact .inr ⟨.accept,rfl⟩
    · exact .inl rfl
  | writes k m => exact .inl rfl
  | changes k client => exact .inl rfl
  | receive k => exact .inl rfl
  | serve k =>
    simp only [step,serve]
    split
    · exact .inl rfl
    · split
      · split
        · exact .inr ⟨_,rfl⟩
        · exact .inl rfl
      · exact .inl rfl
  | error k => exact .inr ⟨_,rfl⟩
  | server e =>
    cases e with
    | accept => exact .inl rfl
    | message k d => exact .inl rfl
    | error k => exact .inl rfl
    | _ => exact .inr ⟨_,rfl⟩
  | loseUp k n => exact .inl rfl
  | loseDown k n => exact .inl rfl

theorem run_accounted (sound : ReCache.Sound regex cache) {events : List DeploymentEvent}
    (permitted : Runs.Along (step regex) Permitted (start cache) events)
    (few : ((start cache).run regex events).log.Few) :
    ((start cache).run regex events).Accounted regex cache := by
  refine permitted.invariant (P := fun s => s.log.Few → s.Accounted regex cache)
    (fun s e h hp few' => ?_) (fun _ => .start cache) few
  have few₀ : s.log.Few := by
    rcases s.step_log regex e with hlog | ⟨e',hlog⟩
    · rwa [hlog] at few'
    · rw [hlog] at few'
      exact Nat.lt_of_le_of_lt (s.log.accepted_step e') few'
  exact (h few₀).step sound hp few'

end Deployment

/-- Whatever the clients do, they are all served by one broker. The requests of a
connection are handled in the order in which they were written, and the client behind it
consumes what the broker has for it in the broker's order; nothing is left out where
nothing was lost and nothing is in flight. -/
theorem clients_see_broker (cache : ReCache) (regex : RegexCompiler)
    (sound : ReCache.Sound regex cache) (events : List DeploymentEvent) {s : Deployment}
    (run : s = (Deployment.start cache).run regex events)
    (permitted : Runs.Along (Deployment.step regex) Deployment.Permitted (Deployment.start cache)
      events)
    (few : s.log.accepted.length < 2^31-1) :
    s.log = (ServerLog.start cache).run regex s.handled ∧
    s.log.server.broker = (Broker.machine ServerID (brokerTags regex)).run (.start {ServerID})
      (ServerLog.asked regex (ServerLog.start cache) s.handled) ∧
    ∀ (k : Nat) (p : Peer), s.peers[k]? = some p → k < s.log.accepted.length →
      ServerLog.requests regex cache k s.handled <+: p.written ∧
      (p.up.isOpen = true → p.up.inFlight = [] →
        ServerLog.requests regex cache k s.handled = p.written) ∧
      ∃ got, p.client.consumed = p.before ++ got ∧
        got.map Publish.content <+: ServerLog.inbox regex cache k s.handled ∧
        (p.down.isOpen = true → p.down.inFlight = [] →
          got.map Publish.content = ServerLog.inbox regex cache k s.handled) := by
  have h : s.Accounted regex cache := run ▸ Deployment.run_accounted sound permitted (run ▸ few)
  have few' : ((ServerLog.start cache).run regex s.handled).Few := by
    rw [← h.log]
    exact few
  have hrefines := ServerLog.run_refines sound h.served few'
  refine ⟨h.log,by rw [h.log]; exact hrefines.broker,fun k p hp hk => ?_⟩
  have hright := h.peers k p hp
  have hinbox : (s.log.server.sentOn k).filterMap Message.content =
      ServerLog.inbox regex cache k s.handled := by
    rw [h.log]
    exact ServerLog.run_inbox sound h.served few' (Nat.lt_trans hk few)
  obtain ⟨ms,hdown,got,hconsumed,hgot⟩ := hright.down
  refine ⟨hright.up.begins,hright.up.all Message.wire_ne_nil,got,hconsumed,?_,
    fun isOpen empty => ?_⟩
  · rw [hgot,← hinbox]
    exact hdown.begins.filterMap Message.content
  · rw [hgot,← hinbox,hdown.all Message.wire_ne_nil isOpen empty]

/-- The second client subscribes to the queue of the first, which publishes. -/
def twoPeers : List DeploymentEvent :=
  [.connects (.create [97]),.connects (.create [98]),.accepts,.accepts,
    .writes 0 (.createQueue ⟨[113],0⟩),.serve 0,
    .changes 1 ((Client.create [98]).issue (.subscribe ⟨[113],[]⟩) 0),
    .writes 1 (.subscribe ⟨[113],[],0⟩),.serve 1,.receive 1,
    .writes 0 (.publish ⟨[113],[],1,[7]⟩),.serve 0,.receive 1]

theorem clients_see_broker_two_peers :
    ServerLog.inbox literal ∅ 1 ((Deployment.start ∅).run literal twoPeers).handled =
      [(⟨[113],[]⟩,[7])] := by
  have hpermitted : Runs.Along (Deployment.step literal) Deployment.Permitted (Deployment.start ∅)
      twoPeers := by
    decide +kernel
  have hacc : ((Deployment.start ∅).run literal twoPeers).log.accepted.length = 2 := by
    decide +kernel
  have hpeer : ((Deployment.start ∅).run literal twoPeers).peers[1]?.map
      (fun p => (p.client.consumed,p.before,p.down.isOpen,p.down.inFlight)) =
        some ([⟨[113],[],0,[7]⟩],[],true,[]) := by decide +kernel
  have hbroker := clients_see_broker ∅ literal .empty twoPeers rfl hpermitted
    (by rw [hacc]; decide)
  obtain ⟨p,hp,hfields⟩ := Option.map_eq_some_iff.mp hpeer
  obtain ⟨-,-,got,hconsumed,-,hall⟩ := hbroker.2.2 1 p hp (by rw [hacc]; decide)
  simp only [Prod.mk.injEq] at hfields
  obtain ⟨hc,hb,ho,hi⟩ := hfields
  rw [← hall ho hi]
  rw [hc,hb,List.nil_append] at hconsumed
  rw [← hconsumed]
  rfl

end Dqueue
