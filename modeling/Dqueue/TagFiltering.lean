import Dqueue.Consumers
import Dqueue.PublishRace

/-!
Tags are checked twice: by the server, which keeps one subscription for each
client and queue, and by the client, which keeps one for each of its consumers.
-/

set_option autoImplicit false

namespace Dqueue
open Std Effects RawMem AsyncIO Queries

structure Subscriber where
  log : ServerLog
  consumers : Consumers

inductive SubscriberEvent where
  /-- The client calls `subscribe`, and the server handles the request. -/
  | subscribe (settings : SubscriptionParams) (handler : Option EventConsumer) (msgId : UInt64)
  /-- The server handles another message of the client. -/
  | send (m : Message)
  | server (e : ServerEvent)
  deriving DecidableEq, Repr

def SubscriberEvent.event (k : Nat) : SubscriberEvent → ServerEvent
  | .subscribe settings _ msgId =>
    .message k (received (Message.wire (.subscribe ⟨settings.queueName,settings.tag,msgId⟩)))
  | .send m => .message k (received m.wire)
  | .server e => e

def SubscriberEvent.register : SubscriberEvent → EStateM Failure Consumers Unit
  | .subscribe settings handler _ => Consumers.addHandler settings handler
  | _ => pure ()

def SubscriberEvent.call : SubscriberEvent → Option (SubscriptionParams × Option EventConsumer)
  | .subscribe settings handler _ => some (settings,handler)
  | _ => none

section Subscriber

variable (regex : RegexCompiler) (k : Nat) (id : Id)

/-- `Client::onNewMessage`, as far as the consumers are concerned. -/
def Consumers.onNewMessage : Message → EStateM Failure Consumers Unit
  | .publish cs => callConsumer regex ⟨cs.qname,cs.tag⟩ cs.data id
  | _ => pure ()

def Consumers.onNewMessages : List Message → EStateM Failure Consumers Unit
  | [] => pure ()
  | m :: ms => do
    onNewMessage regex id m
    onNewMessages ms

/-- The client handles at once what it is sent. -/
def Subscriber.step (w : Subscriber) (e : SubscriberEvent) : Subscriber :=
  let log := w.log.step regex (e.event k)
  ⟨log,final (Consumers.onNewMessages regex id (Server.sentTo k w.log.server log.server)
    (final (e.register w.consumers)))⟩

def Subscriber.run (w : Subscriber) (events : List SubscriberEvent) : Subscriber :=
  events.foldl (step regex k id) w

/-- The client stays connected and does not unsubscribe, and its consumers are
used with their own queue. -/
def SubscriberEvent.Plain (queue : EventConsumer → Str) : SubscriberEvent → Prop
  | .subscribe settings handler msgId =>
    Message.Sendable (.subscribe ⟨settings.queueName,settings.tag,msgId⟩) ∧
      ∀ h ∈ handler, settings.queueName = queue h
  | .send m => m.Sendable ∧ m.kind ≠ .SUBSCRIBE ∧ m.kind ≠ .UNSUBSCRIBE
  | .server e => (∀ d, e ≠ .message k d) ∧ e ≠ .error k ∧ e ≠ .stopServer

def Subscriber.Plain (queue : EventConsumer → Str) (w : Subscriber) (e : SubscriberEvent) : Prop :=
  e.Plain k queue ∧ w.log.LateRefused regex (e.event k)

def SubscriberEvent.Publishes (l : ServerLog) (p : PublishParams) (rd : Bytes) :
    SubscriberEvent → Prop
  | .subscribe _ _ _ => False
  | .send m => ∃ n, m = .publish ⟨p.queueName,p.tag,n,rd⟩
  | .server (.publish settings data) => settings = p ∧ data = rd
  | .server (.message j d) => ∃ i n, l.accepted[j]? = some i ∧
      d = received (Message.wire (.publish ⟨p.queueName,p.tag,n,rd⟩))
  | .server _ => False

end Subscriber

def Consumers.latestTo (q : Str) (calls : Calls) : Option Str :=
  (calls.reverse.find? (fun x => x.1.queueName == q)).map (fun x => x.1.tag)

theorem Consumers.latestTo_append (q : Str) (calls : Calls)
    (x : SubscriptionParams × Option EventConsumer) :
    latestTo q (calls ++ [x]) = if x.1.queueName = q then some x.1.tag else latestTo q calls := by
  by_cases hx : x.1.queueName = q
  · simp [latestTo,hx]
  · have hne : (x.1.queueName == q) = false := by simpa using hx
    simp [latestTo,hx,hne]

section Server

variable {regex : RegexCompiler} {l : ServerLog} (h : l.Books) (few : l.Few)
include h few

theorem ServerLog.Books.other {k : Nat} {i j : ClientConnection} (hi : i ∈ l.accepted)
    (hj : l.accepted[k]? = some j) (hk : k ≠ i.socket) : j.id ≠ i.id := by
  intro hid
  have heq := h.id_inj few (List.mem_of_getElem? hj) hi hid
  rw [h.numbered k j hj] at heq
  exact hk (congrArg ClientConnection.socket heq)

theorem ServerLog.Books.stays {e : ServerEvent} {i : ClientConnection}
    (hi : i ∈ l.server.connections) (he : e ≠ .error i.socket) (hs : e ≠ .stopServer) :
    i ∈ (l.step regex e).server.connections := by
  have hstep := l.step_cases regex e
  generalize l.step regex e = l' at hstep ⊢
  cases hstep with
  | same => exact hi
  | accept =>
    simp [ServerLog.handleAccept,ServerLog.onServer_final,Server.handleAccept,
      Server.onNewConnection,hi]
  | call calls => exact (calls.keeps regex).connections ▸ hi
  | @close k j sender =>
    have hne : j.id ≠ i.id :=
      h.other few (h.mem_connections.mp hi).1 sender fun hk => he (by rw [hk])
    rw [ServerLog.close_server,Server.close_final]
    split
    · exact hi
    · cases l.server.users.erase j.id with
      | error e => exact hi
      | ok users => exact (List.mem_eraseP_of_neg (by simpa using hne.symm)).mpr hi
  | stop running => exact absurd rfl hs

theorem ServerLog.Books.listener_kept {e : ServerEvent} {i : ClientConnection}
    (hi : i ∈ l.server.connections) (hm : ∀ d, e ≠ .message i.socket d) (he : e ≠ .error i.socket)
    (hs : e ≠ .stopServer) {q : Str} {ql : QueueListener}
    (hl : l.server.node.listener q i.id = some ql) :
    (l.step regex e).server.node.listener q i.id = some ql := by
  have hacc := (h.mem_connections.mp hi).1
  have hserver : ServerID ≠ i.id := (h.id_ne_server few hacc).symm
  -- a call of the server that says nothing about the client
  have hcall : ∀ call : ServerCall, (∀ op ∈ call.op, op.event q i.id = none) →
      (l.server.step regex call).node.listener q i.id = some ql := by
    intro call hop
    rcases Server.step_node regex l.server call with hsame | ⟨op,ho,hstep⟩
    · rw [hsame.listeners,hl]
    · exact hstep.listener_untouched (hop op ho) hl
  have hstep := l.step_cases regex e
  generalize l.step regex e = l' at hstep ⊢
  cases hstep with
  | same => exact hl
  | accept => exact hl
  | call calls =>
    refine hcall _ fun op hop => ?_
    cases calls with
    | @message k d j m sender decoded =>
      have hne : j.id ≠ i.id :=
      h.other few hacc sender fun hk => hm d (by rw [hk])
      cases m <;> simp [ServerCall.op] at hop <;> subst hop <;> simp [Op.event,hne]
    | createQueue settings =>
      cases hop
      rfl
    | subscribe settings =>
      cases hop
      simp [Op.event,hserver]
    | unsubscribe qname =>
      cases hop
      simp [Op.event,hserver]
    | publish settings data => cases hop
  | @close k j sender =>
    have hne : j.id ≠ i.id :=
      h.other few hacc sender fun hk => he (by rw [hk])
    rw [ServerLog.close_server]
    refine hcall (.close j) fun op hop => ?_
    cases hop
    simp [Op.event,hne]
  | stop running => exact absurd rfl hs

omit few in
theorem ServerLog.Books.step_message {i : ClientConnection} (hi : i ∈ l.accepted)
    (d : NetworkMessage) : l.step regex (.message i.socket d) =
      { l with server := final (Server.onNewMessage regex i d l.server) } := by
  obtain ⟨k,hk,he⟩ := List.mem_iff_getElem.mp hi
  have hget : l.accepted[k]? = some i := by rw [List.getElem?_eq_getElem hk,he]
  have hsock : i.socket = k := by rw [h.numbered k i hget]
  rw [hsock]
  exact ServerLog.step_message hget d

omit few in
theorem ServerLog.Books.listener_subscribe {i : ClientConnection} (hi : i ∈ l.server.connections)
    {settings : SubscriptionParams} {n : UInt64}
    (hs : Message.Sendable (.subscribe ⟨settings.queueName,settings.tag,n⟩)) (q : Str) :
    (l.step regex (.message i.socket (received (Message.wire
      (.subscribe ⟨settings.queueName,settings.tag,n⟩))))).server.node.listener q i.id =
      if settings.queueName = q then
        some (Node.joined .Subscribe settings (l.server.node.listener q i.id))
      else l.server.node.listener q i.id := by
  obtain ⟨hacc,hopen⟩ := h.mem_connections.mp hi
  have hu := h.user_of_open hacc hopen
  rw [h.step_message hacc,Server.onNewMessage_wire regex hs,if_pos (by simp [Message.kind])]
  have hnode : (final (Server.handle regex i
      (.subscribe ⟨settings.queueName,settings.tag,n⟩) l.server)).node = final
        (Node.changeSubscription l.server.users .Subscribe settings i.id l.server.node) :=
    Server.request_node _ i _ n l.server
  show (final (Server.handle regex i _ l.server)).node.listener q i.id = _
  rw [hnode]
  cases changeSubscription_cases l.server.users .Subscribe settings i.id l.server.node with
  | quiet queues listeners create change erase =>
    rcases change _ _ _ rfl with ⟨ha,-⟩ | hno
    · cases ha
    · rw [hu] at hno
      cases hno
  | joined action user queues listeners =>
    rw [listeners]
    simp

omit few in
theorem ServerLog.Books.listener_send {i : ClientConnection} (hi : i ∈ l.server.connections)
    {m : Message} (hs : m.Sendable) (hsub : m.kind ≠ .SUBSCRIBE) (huns : m.kind ≠ .UNSUBSCRIBE)
    {q : Str} {ql : QueueListener} (hl : l.server.node.listener q i.id = some ql) :
    (l.step regex (.message i.socket (received m.wire))).server.node.listener q i.id =
      some ql := by
  rw [h.step_message (h.mem_connections.mp hi).1,Server.onNewMessage_wire regex hs]
  split
  · rcases Server.step_node regex l.server (.message i m) with hsame | ⟨op,ho,hstep⟩
    · exact (hsame.listeners q i.id).trans hl
    · refine hstep.listener_untouched ?_ hl
      cases m with
      | subscribe cs => exact absurd rfl hsub
      | unsubscribe cs => exact absurd rfl huns
      | createQueue cq =>
        cases ho
        rfl
      | publish cs => cases ho
      | login lg => cases ho
      | ok cs => cases ho
      | loginConfirm cs => cases ho
  · exact hl

end Server

section Client

variable {regex : RegexCompiler} {queue : EventConsumer → Str} {calls : Consumers.Calls}
  {hs : List EventConsumer} {id : Id}

theorem Consumers.Registered.onNewMessages (id : Id) (few : calls.length < 2^64-1)
    (ms : List Message)
    {c : Consumers} (r : Registered queue calls hs c) (sound : ReCache.Sound regex c.cache) :
    Registered queue calls hs (final (Consumers.onNewMessages regex id ms c)) ∧
      ReCache.Sound regex (final (Consumers.onNewMessages regex id ms c)).cache := by
  induction ms generalizing c with
  | nil => exact ⟨r,sound⟩
  | cons m ms ih =>
    have hone : Registered queue calls hs (final (Consumers.onNewMessage regex id m c)) ∧
        ReCache.Sound regex (final (Consumers.onNewMessage regex id m c)).cache := by
      cases m with
      | publish cs =>
        obtain ⟨cache,calls',hsound,hrun,-⟩ :=
          r.callConsumer few sound ⟨cs.qname,cs.tag⟩ cs.data id
        rw [Consumers.onNewMessage,hrun]
        exact ⟨r.congr rfl rfl rfl rfl,hsound⟩
      | ok cs => exact ⟨r,sound⟩
      | loginConfirm cs => exact ⟨r,sound⟩
      | createQueue cs => exact ⟨r,sound⟩
      | subscribe cs => exact ⟨r,sound⟩
      | unsubscribe cs => exact ⟨r,sound⟩
      | login cs => exact ⟨r,sound⟩
    rw [Consumers.onNewMessages,bind_apply]
    cases hm : Consumers.onNewMessage regex id m c with
    | ok a c' =>
      rw [hm] at hone
      exact ih hone.1 hone.2
    | error f c' =>
      rw [hm] at hone
      exact hone

theorem Consumers.onNewMessages_other {ms : List Message} (hms : ∀ m ∈ ms, ∃ n, m = .ok n)
    (c : Consumers) : final (Consumers.onNewMessages regex id ms c) = c := by
  induction ms with
  | nil => rfl
  | cons m ms ih =>
    obtain ⟨n,rfl⟩ := hms m (by simp)
    rw [Consumers.onNewMessages]
    exact ih fun m' hm' => hms m' (by simp [hm'])

theorem Consumers.onNewMessages_publish {ms : List Message} (hms : ∀ m ∈ ms, ∃ n, m = .ok n)
    (cs : Publish) (c : Consumers) :
    final (Consumers.onNewMessages regex id (.publish cs :: ms) c) =
      final (callConsumer regex ⟨cs.qname,cs.tag⟩ cs.data id c) := by
  rw [Consumers.onNewMessages,Consumers.onNewMessage,bind_apply]
  cases callConsumer regex ⟨cs.qname,cs.tag⟩ cs.data id c with
  | ok a c' => exact onNewMessages_other hms c'
  | error f c' => rfl

end Client

structure Subscriber.Agree (regex : RegexCompiler) (i : ClientConnection)
    (queue : EventConsumer → Str) (calls : Consumers.Calls) (w : Subscriber) : Prop where
  books : w.log.Books
  connected : i ∈ w.log.server.connections
  serverCache : ReCache.Sound regex w.log.server.cache
  clientCache : ReCache.Sound regex w.consumers.cache
  registered : ∃ hs, Consumers.Registered queue calls hs w.consumers
  listener : ∀ q tag, Consumers.latestTo q calls = some tag →
    ∃ ql, w.log.server.node.listener q i.id = some ql ∧ ql.settings = ⟨q,tag⟩ ∧
      (!ql.isowner || ql.issubscribed) = true

section Publish

variable {regex : RegexCompiler} {p : PublishParams} {rd : Bytes}

theorem Server.reached_eq (tag_ : Str) (ls : List (Id × QueueListener)) :
    Server.reached regex tag_ ls = (Scan.reached (fun x => x.2.Broken regex)
      (fun x => x.2.isTarget regex tag_ = true) ls).map Prod.fst := by
  induction ls with
  | nil => rfl
  | cons x ls ih =>
    unfold Server.reached Scan.reached
    split
    · rfl
    · split
      · rw [ih,List.map_cons]
      · exact ih

/-- A client is sent a message: it is a target, and no listener with a smaller
id has a tag that cannot be compiled. -/
def Node.Serves (regex : RegexCompiler) (n : Node) (p : PublishParams) (c : Id) : Prop :=
  n.HasQueue p.queueName ∧ (∃ ql, n.listener p.queueName c = some ql ∧
    ql.isTarget regex p.tag = true) ∧
    ∀ d ql, n.listener p.queueName d = some ql → d < c → ¬ ql.Broken regex

theorem QueueListener.isTarget_not_broken {ql : QueueListener} {tag_ : Str}
    (h : ql.isTarget regex tag_ = true) : ¬ ql.Broken regex := by
  rintro ⟨-,hu⟩
  rw [QueueListener.isTarget,Bool.and_eq_true] at h
  exact Consumers.tagMatches_compilable h.2 hu

theorem Server.reached_localCopy (regex : RegexCompiler) (p : PublishParams) (n : Node) (c : Id) :
    (Server.reached regex p.tag (n.localCopy p.queueName).2).Nodup ∧
      (c ∈ Server.reached regex p.tag (n.localCopy p.queueName).2 ↔ n.Serves regex p c) := by
  rw [Server.reached_eq]
  have hnodup := Node.nodup_localCopy n p.queueName
  refine ⟨((Scan.reached_sublist _).map Prod.fst).nodup hnodup,?_⟩
  by_cases hq : n.HasQueue p.queueName
  · have hmem : ∀ x, x ∈ (n.listeners p.queueName).toList ↔ n.listener p.queueName x.1 = some x.2 :=
      fun x => ExtTreeMap.mem_toList_iff_getElem?_eq_some
    have hordered : (n.listeners p.queueName).toList.Pairwise (fun x y => x.1 < y.1) :=
      ExtTreeMap.ordered_keys_toList.imp compare_eq_lt.mp
    have hscan : ∀ x, x ∈ Scan.reached (fun x : Id × QueueListener => x.2.Broken regex)
        (fun x => x.2.isTarget regex p.tag = true) (n.listeners p.queueName).toList ↔ _ := fun x =>
      Scan.mem_reached (fun x y => UInt64.lt_asymm) hordered
    rw [Node.localCopy_of_queue hq,List.mem_map]
    constructor
    · rintro ⟨x,hx,rfl⟩
      obtain ⟨hx,ht,-,hbefore⟩ := (hscan x).mp hx
      exact ⟨hq,⟨x.2,(hmem x).mp hx,ht⟩,fun d ql hd hlt => hbefore (d,ql) ((hmem _).mpr hd) hlt⟩
    · rintro ⟨-,⟨ql,hl,ht⟩,hbefore⟩
      refine ⟨(c,ql),(hscan _).mpr ⟨(hmem _).mpr hl,ht,ql.isTarget_not_broken ht,?_⟩,rfl⟩
      exact fun y hy hlt => hbefore y.1 y.2 ((hmem y).mp hy) hlt
  · simp [Node.localCopy_of_missing hq,Scan.reached,Node.Serves,hq]

theorem ServerLog.Books.publish_outbox (regex : RegexCompiler) {l : ServerLog} (h : l.Books)
    {i : ClientConnection}
    (hi : i ∈ l.accepted) {n₀ : UInt64}
    (hs : Message.Sendable (.publish ⟨p.queueName,p.tag,n₀,rd⟩)) {e : SubscriberEvent}
    (he : e.Publishes l p rd) :
    ∃ oks, (l.step regex (e.event i.socket)).server.outbox =
        (final (Server.nodePublish regex p rd l.server)).outbox ++ oks ∧
      ∀ x ∈ oks, ∃ n, x.2 = .ok n := by
  have hrequest : ∀ (j : ClientConnection) (n : UInt64), ∃ oks,
      (final (Server.onNewMessage regex j (received (Message.wire
        (.publish ⟨p.queueName,p.tag,n,rd⟩))) l.server)).outbox =
          (final (Server.nodePublish regex p rd l.server)).outbox ++ oks ∧
      ∀ x ∈ oks, ∃ n, x.2 = .ok n := by
    intro j n
    rw [Server.onNewMessage_wire regex (Server.sendable_id hs),if_pos (by simp [Message.kind]),
      Server.handle,bind_apply]
    cases Server.nodePublish regex p rd l.server with
    | error f s => exact ⟨[],by simp,by simp⟩
    | ok a s =>
      obtain ⟨oks,hf,hoks⟩ := Server.acknowledge_final j (.publish ⟨p.queueName,p.tag,n,rd⟩) n s
      refine ⟨oks,?_,fun x hx => ⟨⟨n⟩,?_⟩⟩
      · show (final (Server.acknowledge j _ n s)).outbox = _
        rw [hf]
        rfl
      · rw [(hoks x hx).1]
  cases e with
  | subscribe settings handler n => exact he.elim
  | send m =>
    obtain ⟨n,rfl⟩ := he
    rw [SubscriberEvent.event,h.step_message hi]
    exact hrequest i n
  | server e =>
    cases e with
    | publish settings data =>
      obtain ⟨rfl,rfl⟩ := he
      refine ⟨[],?_,by simp⟩
      simp only [SubscriberEvent.event,ServerLog.step,ServerLog.exec,ServerLog.onServer_final,
        List.append_nil]
      rfl
    | message j d =>
      obtain ⟨i',n,hj,rfl⟩ := he
      have hsock : i'.socket = j := by rw [h.numbered j i' hj]
      rw [SubscriberEvent.event,← hsock,h.step_message (List.mem_of_getElem? hj)]
      exact hrequest i' n
    | accept => exact he.elim
    | error j => exact he.elim
    | createQueue settings => exact he.elim
    | subscribe settings => exact he.elim
    | unsubscribe qname => exact he.elim
    | stopServer => exact he.elim

theorem copies_to {s : Server} {c : Id} {socket : Nat}
    (hsock : ∀ id i, s.Reachable id i → (i.socket = socket ↔ id = c)) {ids : List Id}
    {out : List (Nat × Message)}
    (hout : List.Forall₂ (fun id x => ∃ i n, s.Reachable id i ∧
      x = (i.socket,.publish ⟨p.queueName,p.tag,n,rd⟩)) ids out) :
    ∃ ns : List UInt64, (out.filter (fun x => x.1 == socket)).map Prod.snd =
        ns.map (fun n => .publish ⟨p.queueName,p.tag,n,rd⟩) ∧ ns.length = ids.count c := by
  induction hout with
  | nil => exact ⟨[],rfl,rfl⟩
  | @cons id x ids out hx hout ih =>
    obtain ⟨ns,hns,hlen⟩ := ih
    obtain ⟨i,n,hr,rfl⟩ := hx
    by_cases hid : id = c
    · refine ⟨n :: ns,?_,?_⟩
      · simp [(hsock id i hr).mpr hid,hns]
      · simp [hid,hlen]
    · have hne : i.socket ≠ socket := fun he => hid ((hsock id i hr).mp he)
      refine ⟨ns,?_,?_⟩
      · simp [hne,hns]
      · simp [hid,hlen]

theorem ServerLog.Books.publish_sentTo {l : ServerLog} (h : l.Books) (few : l.Few)
    (sound : ReCache.Sound regex l.server.cache) {i : ClientConnection}
    (hi : i ∈ l.server.connections) {n₀ : UInt64}
    (hs : Message.Sendable (.publish ⟨p.queueName,p.tag,n₀,rd⟩)) {e : SubscriberEvent}
    (he : e.Publishes l p rd) :
    ∃ oks, (∀ m ∈ oks, ∃ n, m = .ok n) ∧
      ((l.server.node.Serves regex p i.id ∧ ∃ n, Server.sentTo i.socket l.server
          (l.step regex (e.event i.socket)).server = .publish ⟨p.queueName,p.tag,n,rd⟩ :: oks) ∨
        (¬ l.server.node.Serves regex p i.id ∧ Server.sentTo i.socket l.server
          (l.step regex (e.event i.socket)).server = oks)) := by
  have hacc := (h.mem_connections.mp hi).1
  have hreach : ∀ x ∈ (l.server.node.localCopy p.queueName).2, x.1 ≠ ServerID →
      ∃ c, Server.Reachable { l.server with node := (l.server.node.localCopy p.queueName).1 }
        x.1 c := by
    intro x hx hne
    obtain ⟨j,-,-,hr⟩ := h.reachable few (h.localCopy_user hx) hne
    exact ⟨j,hr⟩
  obtain ⟨s',hsent,hrun⟩ := Server.deliver_sent regex p rd
    (s := { l.server with node := (l.server.node.localCopy p.queueName).1 }) hs sound _ hreach
  have hfinal : final (Server.nodePublish regex p rd l.server) = s' := by
    rw [Server.nodePublish_run]
    rcases hrun with ⟨hd,-⟩ | ⟨⟨f,hd⟩,-⟩
    · rw [hd]
      rfl
    · rw [hd]
      rfl
  obtain ⟨out,hout,hforall⟩ := hsent.outbox
  have hsock : ∀ id j, Server.Reachable { l.server with
      node := (l.server.node.localCopy p.queueName).1 } id j →
      (j.socket = i.socket ↔ id = i.id) := by
    intro id j hr
    have hj := List.mem_of_find?_eq_some hr.1
    have hid : j.id = id := by simpa using List.find?_some hr.1
    rw [h.socket_eq few hj hi,hid]
  obtain ⟨ns,hns,hlen⟩ := copies_to hsock hforall
  obtain ⟨oks,hbox,hoks⟩ := h.publish_outbox regex hacc hs he
  have hto : Server.sentTo i.socket l.server (l.step regex (e.event i.socket)).server =
      ns.map (fun n => .publish ⟨p.queueName,p.tag,n,rd⟩) ++
        (oks.filter (fun x => x.1 == i.socket)).map Prod.snd := by
    have houtbox : (l.step regex (e.event i.socket)).server.outbox =
        l.server.outbox ++ (out ++ oks) := by
      rw [hbox,hfinal,hout,List.append_assoc]
    rw [Server.sentTo,houtbox,List.drop_left,List.filter_append,List.map_append,hns]
  refine ⟨(oks.filter (fun x => x.1 == i.socket)).map Prod.snd,fun m hm => ?_,?_⟩
  · obtain ⟨x,hx,rfl⟩ := List.mem_map.mp hm
    exact hoks x (List.mem_of_mem_filter hx)
  have hne : (i.id != ServerID) = true := by simpa using h.id_ne_server few hacc
  obtain ⟨hnodup,hserves⟩ := Server.reached_localCopy regex p l.server.node i.id
  rw [List.count_filter (p := fun id => id != ServerID) hne] at hlen
  by_cases hmem : i.id ∈ Server.reached regex p.tag (l.server.node.localCopy p.queueName).2
  · rw [List.count_eq_one_of_mem hnodup hmem,List.length_eq_one_iff] at hlen
    obtain ⟨n,rfl⟩ := hlen
    exact .inl ⟨hserves.mp hmem,n,hto⟩
  · rw [List.count_eq_zero_of_not_mem hmem,List.length_eq_zero_iff] at hlen
    rw [hlen] at hto
    exact .inr ⟨fun hsv => hmem (hserves.mpr hsv),hto⟩

end Publish

section Run

variable {regex : RegexCompiler} {i : ClientConnection} {id : Id} {queue : EventConsumer → Str}

theorem SubscriberEvent.Plain.event_ne {e : SubscriberEvent} (h : e.Plain i.socket queue) :
    e.event i.socket ≠ .error i.socket ∧ e.event i.socket ≠ .stopServer := by
  cases e with
  | subscribe settings handler n =>
    exact ⟨by simp [SubscriberEvent.event],by simp [SubscriberEvent.event]⟩
  | send m => exact ⟨by simp [SubscriberEvent.event],by simp [SubscriberEvent.event]⟩
  | server e => exact h.2

theorem Node.joined_subscribe (settings : SubscriptionParams) (old : Option QueueListener) :
    (Node.joined .Subscribe settings old).settings = settings ∧
      (!(Node.joined .Subscribe settings old).isowner ||
        (Node.joined .Subscribe settings old).issubscribed) = true := by
  cases old with
  | none => exact ⟨rfl,rfl⟩
  | some ql => simp [Node.joined]

theorem Subscriber.Agree.listener_step {calls : Consumers.Calls} {w : Subscriber}
    {e : SubscriberEvent} (a : w.Agree regex i queue calls) (few : w.log.Few)
    (hp : e.Plain i.socket queue) (q tag : Str)
    (hl : Consumers.latestTo q (calls ++ e.call.toList) = some tag) :
    ∃ ql, (w.log.step regex (e.event i.socket)).server.node.listener q i.id = some ql ∧
      ql.settings = ⟨q,tag⟩ ∧ (!ql.isowner || ql.issubscribed) = true := by
  cases e with
  | subscribe settings handler n =>
    have hl' : Consumers.latestTo q (calls ++ [(settings,handler)]) = some tag := hl
    rw [Consumers.latestTo_append] at hl'
    rw [SubscriberEvent.event,a.books.listener_subscribe a.connected hp.1]
    by_cases hq : settings.queueName = q
    · rw [if_pos hq] at hl' ⊢
      obtain ⟨hset,hon⟩ := Node.joined_subscribe settings (w.log.server.node.listener q i.id)
      refine ⟨_,rfl,?_,hon⟩
      rw [hset,← hq,← Option.some.inj hl']
    · rw [if_neg hq] at hl' ⊢
      exact a.listener q tag hl'
  | send m =>
    have hl' : Consumers.latestTo q (calls ++ []) = some tag := hl
    rw [List.append_nil] at hl'
    obtain ⟨ql,hql,hrest⟩ := a.listener q tag hl'
    exact ⟨ql,a.books.listener_send a.connected hp.1 hp.2.1 hp.2.2 hql,hrest⟩
  | server e =>
    have hl' : Consumers.latestTo q (calls ++ []) = some tag := hl
    rw [List.append_nil] at hl'
    obtain ⟨ql,hql,hrest⟩ := a.listener q tag hl'
    exact ⟨ql,a.books.listener_kept few a.connected hp.1 hp.2.1 hp.2.2 hql,hrest⟩

theorem Subscriber.Agree.step {calls : Consumers.Calls} {w : Subscriber} {e : SubscriberEvent}
    (a : w.Agree regex i queue calls) (few : w.log.Few)
    (few' : (w.step regex i.socket id e).log.Few)
    (bound : (calls ++ e.call.toList).length < 2^64-1) (hp : w.Plain regex i.socket queue e) :
    (w.step regex i.socket id e).Agree regex i queue (calls ++ e.call.toList) := by
  obtain ⟨hs,hr⟩ := a.registered
  obtain ⟨herr,hstop⟩ := hp.1.event_ne
  have hreg : ∃ hs', Consumers.Registered queue (calls ++ e.call.toList) hs'
      (final (e.register w.consumers)) ∧
      ReCache.Sound regex (final (e.register w.consumers)).cache := by
    cases e with
    | subscribe settings handler n =>
      have hb : calls.length < 2^64-1 := by
        rw [List.length_append] at bound
        omega
      obtain ⟨c',hs',hrun,hr',hcache,-⟩ := hr.addHandler hb hp.1.2
      refine ⟨hs',?_⟩
      rw [SubscriberEvent.register,hrun]
      exact ⟨hr',hcache ▸ a.clientCache⟩
    | send m =>
      exact ⟨hs,by simpa [SubscriberEvent.call,SubscriberEvent.register] using hr,a.clientCache⟩
    | server e =>
      exact ⟨hs,by simpa [SubscriberEvent.call,SubscriberEvent.register] using hr,a.clientCache⟩
  obtain ⟨hs',hr',hsound⟩ := hreg
  obtain ⟨hreg,hclient⟩ := hr'.onNewMessages id bound (Server.sentTo i.socket w.log.server
    (w.log.step regex (e.event i.socket)).server) hsound
  exact ⟨a.books.step_late few' few hp.2,a.books.stays few a.connected herr hstop,
    w.log.step_keepsSound _ a.serverCache,hclient,⟨hs',hreg⟩,a.listener_step few hp.1⟩

def SubscriberEvent.calls (events : List SubscriberEvent) : Consumers.Calls :=
  events.filterMap SubscriberEvent.call

theorem SubscriberEvent.calls_append (d : List SubscriberEvent) (e : SubscriberEvent) :
    SubscriberEvent.calls (d ++ [e]) = SubscriberEvent.calls d ++ e.call.toList := by
  simp only [SubscriberEvent.calls,List.filterMap_append]
  cases h : e.call with
  | none => simp [h]
  | some x => simp [h]

theorem Subscriber.Agree.run {w₀ : Subscriber} (a : w₀.Agree regex i queue [])
    {events : List SubscriberEvent}
    (hrun : Runs.Along (Subscriber.step regex i.socket id)
      (Subscriber.Plain regex i.socket queue) w₀ events)
    (few : (w₀.run regex i.socket id events).log.Few) (bound : events.length < 2^64-1) :
    (w₀.run regex i.socket id events).Agree regex i queue (SubscriberEvent.calls events) := by
  have h := hrun.history (P := fun d w => w.log.Few → d.length < 2^64-1 →
    w.Agree regex i queue (SubscriberEvent.calls d)) (d := []) (fun d w e ih hp few' hb => ?_)
    (fun _ _ => a)
  · exact h few (by simpa using bound)
  have few₀ : w.log.Few := Nat.lt_of_le_of_lt (w.log.accepted_step _) few'
  have hcalls : (SubscriberEvent.calls (d ++ [e])).length < 2^64-1 :=
    Nat.lt_of_le_of_lt (List.length_filterMap_le _ _) hb
  rw [SubscriberEvent.calls_append] at hcalls ⊢
  refine (ih few₀ ?_).step few₀ few' hcalls hp
  simp only [List.length_append,List.length_singleton] at hb
  omega

variable (regex) in
def Consumers.Wants (calls : Calls) (p : PublishParams) (h : EventConsumer) : Prop :=
  ∃ tag, latest h calls = some ⟨p.queueName,tag⟩ ∧ tagMatches regex tag p.tag = true

variable (regex) in
/-- Between two states of its client, each consumer has consumed the message
exactly once if it wants it and not at all otherwise. -/
def Consumers.Filtered (calls : Calls) (p : PublishParams) (rd : Bytes) (id : Id)
    (c c' : Consumers) : Prop :=
  ∀ h, (Wants regex calls p h →
      c'.consumed.count (h,p,rd,id) = c.consumed.count (h,p,rd,id)+1) ∧
    (¬ Wants regex calls p h → c'.consumed.count (h,p,rd,id) = c.consumed.count (h,p,rd,id))

/-- The message gets to a consumer that wants it: its queue exists, the latest
subscription of the whole client to that queue lets the message too, and no tag
that cannot be compiled stands before it, in the listeners of the queue or among
the consumers. -/
structure Subscriber.GetsTo (regex : RegexCompiler) (c : Id) (calls : Consumers.Calls)
    (p : PublishParams) (w : Subscriber) (h : EventConsumer) : Prop where
  present : w.log.server.node.HasQueue p.queueName
  client : ∀ tag, Consumers.latestTo p.queueName calls = some tag →
    tagMatches regex tag p.tag = true
  listeners : ∀ d ql, w.log.server.node.listener p.queueName d = some ql → d < c →
    ¬ ql.Broken regex
  consumers : ∀ g sp, Consumers.latest g calls = some sp → sp.queueName = p.queueName →
    w.consumers.getId g < w.consumers.getId h → ¬ Uncompilable regex sp.tag

theorem Consumers.latestTo_of_latest {h : EventConsumer} {calls : Calls} {sp : SubscriptionParams}
    (hl : latest h calls = some sp) : ∃ tag, latestTo sp.queueName calls = some tag := by
  obtain ⟨x,hx,rfl⟩ := Option.map_eq_some_iff.mp hl
  have hmem := List.mem_of_find?_eq_some hx
  cases hf : calls.reverse.find? (fun y => y.1.queueName == x.1.queueName) with
  | none => exact absurd (List.find?_eq_none.mp hf x hmem) (by simp)
  | some y => exact ⟨y.1.tag,by simp [latestTo,hf]⟩

variable {calls : Consumers.Calls} {w : Subscriber} {p : PublishParams} {rd : Bytes}

theorem Subscriber.Agree.getsTo_iff (a : w.Agree regex i queue calls) {h : EventConsumer}
    (hw : Consumers.Wants regex calls p h) :
    (w.log.server.node.Serves regex p i.id ∧ w.consumers.Passes regex calls p h) ↔
      w.GetsTo regex i.id calls p h := by
  obtain ⟨tag,hl,ht⟩ := hw
  obtain ⟨tag',hto⟩ := Consumers.latestTo_of_latest hl
  obtain ⟨ql,hql,hset,hon⟩ := a.listener _ _ hto
  have htarget : ql.isTarget regex p.tag = tagMatches regex tag' p.tag := by
    rw [QueueListener.isTarget,hon,hset,Bool.true_and]
  constructor
  · rintro ⟨⟨hq,⟨ql',hql',ht'⟩,hls⟩,-,-,-,-,hcs⟩
    cases hql.symm.trans hql'
    refine ⟨hq,fun tag'' hto' => ?_,hls,hcs⟩
    cases hto.symm.trans hto'
    exact htarget ▸ ht'
  · intro hg
    exact ⟨⟨hg.present,⟨ql,hql,htarget.trans (hg.client tag' hto)⟩,hg.listeners⟩,
      _,hl,rfl,ht,hg.consumers⟩

theorem Subscriber.Agree.filtered_iff (a : w.Agree regex i queue calls) (few : w.log.Few)
    (bound : calls.length < 2^64-1) {n : UInt64}
    (hs : Message.Sendable (.publish ⟨p.queueName,p.tag,n,rd⟩)) {e : SubscriberEvent}
    (he : e.Publishes w.log p rd) :
    Consumers.Filtered regex calls p rd id w.consumers (w.step regex i.socket id e).consumers ↔
      ∀ h, Consumers.Wants regex calls p h → w.GetsTo regex i.id calls p h := by
  obtain ⟨hs',hr⟩ := a.registered
  have hcall : final (e.register w.consumers) = w.consumers := by
    cases e with
    | subscribe settings handler n => exact he.elim
    | send m => rfl
    | server e => rfl
  have hstep : (w.step regex i.socket id e).consumers = final (Consumers.onNewMessages regex id
      (Server.sentTo i.socket w.log.server (w.log.step regex (e.event i.socket)).server)
      w.consumers) := by
    rw [Subscriber.step,hcall]
  -- how often a consumer was called
  have hcount : ∀ h, ((w.log.server.node.Serves regex p i.id ∧ w.consumers.Passes regex calls p h) →
      (w.step regex i.socket id e).consumers.consumed.count (h,p,rd,id) =
        w.consumers.consumed.count (h,p,rd,id)+1) ∧
      (¬ (w.log.server.node.Serves regex p i.id ∧ w.consumers.Passes regex calls p h) →
        (w.step regex i.socket id e).consumers.consumed.count (h,p,rd,id) =
          w.consumers.consumed.count (h,p,rd,id)) := by
    intro h
    rw [hstep]
    obtain ⟨oks,hoks,⟨hserves,n',hsent⟩ | ⟨hserves,hsent⟩⟩ :=
      a.books.publish_sentTo few a.serverCache a.connected hs he
    · obtain ⟨cache,calls',-,hrun,hnodup,hmem⟩ := hr.callConsumer bound a.clientCache p rd id
      rw [hsent,Consumers.onNewMessages_publish hoks,hrun]
      simp only [List.count_append,hserves,true_and,← hmem h]
      refine ⟨fun hin => ?_,fun hin => ?_⟩
      · rw [List.count_eq_one_of_mem hnodup hin]
      · rw [List.count_eq_zero_of_not_mem hin,Nat.add_zero]
    · rw [hsent,Consumers.onNewMessages_other hoks]
      exact ⟨fun hin => absurd hin.1 hserves,fun _ => rfl⟩
  constructor
  · intro hf h hw
    rw [← a.getsTo_iff hw]
    by_contra hn
    have h₁ := (hf h).1 hw
    have h₂ := (hcount h).2 hn
    omega
  · intro hg h
    refine ⟨fun hw => (hcount h).1 ((a.getsTo_iff hw).mpr (hg h hw)),fun hw => (hcount h).2 ?_⟩
    rintro ⟨-,sp,hl,hq,ht,-⟩
    refine hw ⟨sp.tag,?_,ht⟩
    rw [hl,← hq]

end Run

/-- For a client that stays connected and subscribes consumers to queues, each
with its own: a published message is filtered as the consumers' own subscriptions
say exactly when it gets to all that want it. -/
theorem tag_filtering {regex : RegexCompiler} (cache : ReCache)
    (sound : ReCache.Sound regex cache) (before : List ServerEvent) {l : ServerLog}
    (reached : l = (ServerLog.start cache).run regex before)
    (refused : Runs.Along (ServerLog.step regex) (ServerLog.LateRefused regex)
      (ServerLog.start cache) before) {i : ClientConnection}
    (connected : i ∈ l.server.connections) (queue : EventConsumer → Str) (id : Id)
    (cache' : ReCache) (sound' : ReCache.Sound regex cache')
    (events : List SubscriberEvent) {w : Subscriber}
    (run : w = Subscriber.run regex i.socket id ⟨l,Consumers.start cache'⟩ events)
    (plain : Runs.Along (Subscriber.step regex i.socket id)
      (Subscriber.Plain regex i.socket queue) ⟨l,Consumers.start cache'⟩ events)
    (few : w.log.accepted.length < 2^31-1) (bound : events.length < 2^64-1)
    {p : PublishParams} {rd : Bytes} {n : UInt64}
    (sendable : Message.Sendable (.publish ⟨p.queueName,p.tag,n,rd⟩)) {e : SubscriberEvent}
    (publishes : e.Publishes w.log p rd) :
    Consumers.Filtered regex (SubscriberEvent.calls events) p rd id w.consumers
        (w.step regex i.socket id e).consumers ↔
      ∀ h, Consumers.Wants regex (SubscriberEvent.calls events) p h →
        w.GetsTo regex i.id (SubscriberEvent.calls events) p h := by
  have hfew : l.Few := by
    refine Nat.lt_of_le_of_lt ?_ few
    rw [run]
    exact plain.invariant (P := fun w => l.accepted.length ≤ w.log.accepted.length)
      (fun w e h _ => Nat.le_trans h (w.log.accepted_step _)) (Nat.le_refl _)
  have hbooks : l.Books := reached ▸ ServerLog.run_late refused (reached ▸ hfew)
  have hstart : Subscriber.Agree regex i queue [] ⟨l,Consumers.start cache'⟩ :=
    ⟨hbooks,connected,reached ▸ ServerLog.run_sound sound before,sound',
      ⟨[],.start queue cache'⟩,fun q tag h => by cases h⟩
  have hagree := hstart.run plain (run ▸ few) bound
  rw [← run] at hagree
  exact hagree.filtered_iff few
    (Nat.lt_of_le_of_lt (List.length_filterMap_le _ _) bound) sendable publishes

def oneQueue : List ServerEvent :=
  [.accept,.message 0 (received (Message.wire (.createQueue ⟨[113],0⟩)))]

def creator : Subscriber := ⟨(ServerLog.start ∅).run literal oneQueue,Consumers.start ∅⟩

theorem literal_compiles (tag : Str) : ¬ Uncompilable literal tag := fun h => by cases h.2

/-- One consumer is subscribed to one tag, and a second one to every tag. -/
theorem tag_filtering_two_consumers :
    Consumers.Filtered literal [(⟨[113],[97]⟩,some 1),(⟨[113],[]⟩,some 2)] ⟨[113],[97]⟩ [5] 0
      (creator.run literal 0 0 [.subscribe ⟨[113],[97]⟩ (some 1) 1,
        .subscribe ⟨[113],[]⟩ (some 2) 2]).consumers
      (creator.run literal 0 0 [.subscribe ⟨[113],[97]⟩ (some 1) 1,
        .subscribe ⟨[113],[]⟩ (some 2) 2,.server (.publish ⟨[113],[97]⟩ [5])]).consumers := by
  have hopen : Runs.Along (ServerLog.step literal) ServerLog.Open (ServerLog.start ∅) oneQueue := by
    decide +kernel
  have hlate : ∀ (w : Subscriber) (d : NetworkMessage), w.log.Open (.message 0 d) →
      w.log.LateRefused literal (.message 0 d) := fun w d hw => hw.lateRefused
  refine (tag_filtering (i := ⟨0,0⟩) (n := 0) ∅ .empty oneQueue rfl
    (hopen.imp fun l e h => h.lateRefused) (by decide +kernel) (fun _ => [113]) 0 ∅ .empty
    [.subscribe ⟨[113],[97]⟩ (some 1) 1,.subscribe ⟨[113],[]⟩ (some 2) 2] rfl
    ⟨⟨⟨by decide,fun _ _ => rfl⟩,hlate _ _ (by decide +kernel)⟩,
      ⟨⟨by decide,fun _ _ => rfl⟩,hlate _ _ (by decide +kernel)⟩,trivial⟩
    (by decide +kernel) (by decide) (by decide) (e := .server (.publish ⟨[113],[97]⟩ [5]))
    ⟨rfl,rfl⟩).mpr fun h _ => ?_
  refine ⟨by decide +kernel,fun tag ht => ?_,fun d ql _ hd => absurd hd (by simp),
    fun g sp _ _ _ => literal_compiles _⟩
  cases ht
  decide

/-- The second consumer's subscription replaces the first one's at the server, so
that the first consumer does not get the message it is subscribed to. -/
theorem second_consumer_hides_first :
    ¬ (∀ (queue : EventConsumer → Str) (events : List SubscriberEvent),
      Runs.Along (Subscriber.step literal 0 0) (Subscriber.Plain literal 0 queue) creator events →
      ∀ (p : PublishParams) (rd : Bytes), Message.Sendable (.publish ⟨p.queueName,p.tag,0,rd⟩) →
        Consumers.Filtered literal (SubscriberEvent.calls events) p rd 0
          (creator.run literal 0 0 events).consumers
          (creator.run literal 0 0 (events ++ [.server (.publish p rd)])).consumers) ∧
    ((creator.run literal 0 0 [.subscribe ⟨[113],[97]⟩ (some 1) 1,
      .subscribe ⟨[113],[98]⟩ (some 2) 2,
      .server (.publish ⟨[113],[97]⟩ [5])]).consumers.consumed = []) := by
  have hnone : (creator.run literal 0 0 [.subscribe ⟨[113],[97]⟩ (some 1) 1,
      .subscribe ⟨[113],[98]⟩ (some 2) 2,.server (.publish ⟨[113],[97]⟩ [5])]).consumers.consumed =
      [] := by decide +kernel
  refine ⟨fun h => ?_,hnone⟩
  have hlate : ∀ (w : Subscriber) (d : NetworkMessage), w.log.Open (.message 0 d) →
      w.log.LateRefused literal (.message 0 d) := fun w d hw => hw.lateRefused
  have hf := h (fun _ => [113]) [.subscribe ⟨[113],[97]⟩ (some 1) 1,
    .subscribe ⟨[113],[98]⟩ (some 2) 2]
    ⟨⟨⟨by decide,fun _ _ => rfl⟩,hlate _ _ (by decide +kernel)⟩,
      ⟨⟨by decide,fun _ _ => rfl⟩,hlate _ _ (by decide +kernel)⟩,trivial⟩
    ⟨[113],[97]⟩ [5] (by decide)
  have hone := (hf 1).1 ⟨[97],by decide,by decide⟩
  rw [List.cons_append,List.cons_append,List.nil_append,hnone] at hone
  simp at hone

end Dqueue
