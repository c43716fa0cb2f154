import Dqueue.NodeRefinement
import Dqueue.ServerUsers
import Dqueue.PublishRace

/-!
The server is a broker for its connections. A connection is a client from its acceptance
to its end; what the broker sends to a client goes out on its socket, and what it does not
refuse is answered.
-/

set_option autoImplicit false

namespace Dqueue
open Std Effects RawMem AsyncIO Queries

def Server.broker (s : Server) : Broker Str Id Str := s.node.broker s.users

def Message.operation (c : Id) : Message → Option Op
  | .createQueue cq => some (.createQueue ⟨cq.name⟩ c)
  | .subscribe cs => some (.changeSubscription .Subscribe ⟨cs.qname,cs.tag⟩ c)
  | .unsubscribe cs => some (.changeSubscription .Unsubscribe ⟨cs.qname,cs.tag⟩ c)
  | .publish cs => some (.publish ⟨cs.qname,cs.tag⟩ cs.data c)
  | _ => none

def Message.reply (c : Id) : Message → Option Message
  | .login _ => some (.loginConfirm ⟨c⟩)
  | m => m.requestId.map fun n => .ok ⟨n⟩

def Op.Sendable : Op → Prop
  | .publish p rd _ => Message.Sendable (.publish ⟨p.queueName,p.tag,0,rd⟩)
  | _ => True

instance : (op : Op) → Decidable op.Sendable
  | .publish _ _ _ => inferInstanceAs (Decidable (Message.Sendable _))
  | .append _ => isTrue trivial
  | .setLogin _ _ => isTrue trivial
  | .eraseUser _ => isTrue trivial
  | .compile _ => isTrue trivial
  | .createQueue _ _ => isTrue trivial
  | .changeSubscription _ _ _ => isTrue trivial
  | .eraseClient _ => isTrue trivial

def ClientConnection.departs (i : ClientConnection) :
    List (BrokerCall Str Id Str (PublishParams × Bytes)) := [.dismisses i.id,.leaves i.id]

namespace ServerLog

def request (l : ServerLog) : ServerEvent → Option (ClientConnection × Message)
  | .message k d => do
    let i ← l.accepted[k]?
    match Message.ofFrame [.CREATE_QUEUE,.SUBSCRIBE,.UNSUBSCRIBE,.PUBLISH,.LOGIN]
        "unknow message kind: " d l.server with
    | .ok m _ => some (i,m)
    | .error _ _ => none
  | _ => none

def operation (l : ServerLog) : ServerEvent → Option Op
  | .createQueue settings => some (.createQueue settings ServerID)
  | .subscribe settings => some (.changeSubscription .Subscribe settings ServerID)
  | .unsubscribe qname => some (.changeSubscription .Subscribe ⟨qname,[]⟩ ServerID)
  | .publish settings data => some (.publish settings data ServerID)
  | e => (l.request e).bind fun r => r.2.operation r.1.id

/-- What an event asks of the broker. -/
def asks (l : ServerLog) (e : ServerEvent) : List (BrokerCall Str Id Str (PublishParams × Bytes)) :=
  match e with
  | .accept => [.admits (UInt64.ofNat l.accepted.length)]
  | .error k => (l.accepted[k]?.toList.filter (fun i => i.socket ∉ l.server.closed)).flatMap
      ClientConnection.departs
  | .stopServer => if l.isStoped then [] else l.server.connections.flatMap ClientConnection.departs
  | e => ((l.operation e).map Op.call).toList

def asked (regex : RegexCompiler) (l : ServerLog) (events : List ServerEvent) :
    List (BrokerCall Str Id Str (PublishParams × Bytes)) :=
  Runs.collect (step regex) asks l events

def reply (l : ServerLog) (e : ServerEvent) : Option (Nat × Message) :=
  (l.request e).bind fun r => (r.2.reply r.1.id).map fun m => (r.1.socket,m)

/-- Messages come from connections that have not been closed, and what is published fits
into a frame. -/
def Served (l : ServerLog) (e : ServerEvent) : Prop :=
  (∀ i ∈ l.sender e, i.socket ∉ l.server.closed) ∧ ∀ op ∈ l.operation e, op.Sendable

instance (l : ServerLog) (e : ServerEvent) : Decidable (l.Served e) :=
  inferInstanceAs (Decidable (_ ∧ _))

end ServerLog

/-- The messages of the broker's answers, under the next numbers and in the order of the
connections to which they go. -/
structure Outgoing (regex : RegexCompiler) (b : Broker Str Id Str) (l : ServerLog)
    (calls : List (BrokerCall Str Id Str (PublishParams × Bytes))) (out : List (Nat × Message))
    (heard : List Call) : Prop where
  published : ∀ (j : Nat) (x : Nat × Message), out[j]? = some x → ∃ i ∈ l.server.connections,
    ∃ cs, x = (i.socket,.publish cs) ∧ cs.messageId = l.server.nextMessageId+UInt64.ofNat j
  order : out.Pairwise fun x y => x.1 < y.1
  sent : ∀ i ∈ l.accepted, ∀ p rd, (∃ n, (i.socket,.publish ⟨p.queueName,p.tag,n,rd⟩) ∈ out) ↔
    ∃ call ∈ calls, (i.id,(p,rd)) ∈ (b.answer (brokerTags regex) call).sent
  consumed : ∀ p rd c, (p,rd,c) ∈ heard ↔
    c = ServerID ∧ ∃ call ∈ calls, (c,(p,rd)) ∈ (b.answer (brokerTags regex) call).sent
  once : heard.Nodup

/-- All that a step sends: the messages of the broker, and then the reply unless the broker
refuses. -/
def Answered (regex : RegexCompiler) (b : Broker Str Id Str) (l : ServerLog) (e : ServerEvent)
    (l' : ServerLog) : Prop :=
  ∃ out heard replies, Outgoing regex b l (l.asks e) out heard ∧
    l'.server.outbox = l.server.outbox ++ out ++ replies ∧
    l'.server.nextMessageId = l.server.nextMessageId+UInt64.ofNat out.length ∧
    l'.server.consumed = l.server.consumed ++ heard ∧
    ((∀ call ∈ l.asks e, ¬ (b.answer (brokerTags regex) call).refused) →
      replies = (l.reply e).toList) ∧
    ((∃ call ∈ l.asks e, (b.answer (brokerTags regex) call).refused) → replies = [])

def Server.Still (s s' : Server) : Prop :=
  s'.nextMessageId = s.nextMessageId ∧ s'.consumed = s.consumed

theorem forall₂_mem {α β : Type} {R : α → β → Prop} {as : List α} {bs : List β}
    (h : List.Forall₂ R as bs) :
    (∀ b ∈ bs, ∃ a ∈ as, R a b) ∧ ∀ a ∈ as, ∃ b ∈ bs, R a b := by
  induction h with
  | nil => simp
  | cons hab _ ih =>
    simp only [List.mem_cons,forall_eq_or_imp,exists_eq_or_imp]
    exact ⟨⟨.inl hab,fun b hb => .inr (ih.1 b hb)⟩,.inl hab,fun a ha => .inr (ih.2 a ha)⟩

namespace Server

variable {regex : RegexCompiler}

def performs (regex : RegexCompiler) : Op → ServerM Unit
  | .createQueue qsettings ownerId => do
    let s ← get
    onNode (Node.createQueue s.users qsettings ownerId)
  | .changeSubscription action settings clientId => do
    let s ← get
    onNode (Node.changeSubscription s.users action settings clientId)
  | .publish pubParam rd _ => nodePublish regex pubParam rd
  | _ => pure ()

variable (regex) in
theorem handle_request {i : ClientConnection} {m : Message} {op : Op}
    (h : m.operation i.id = some op) (s : Server) :
    ∃ n, m.reply i.id = some (.ok ⟨n⟩) ∧
      handle regex i m s = (do performs regex op; acknowledge i m n) s := by
  cases m with
  | createQueue cq =>
    cases h
    exact ⟨cq.msgId,rfl,rfl⟩
  | subscribe cs =>
    cases h
    exact ⟨cs.msgId,rfl,rfl⟩
  | unsubscribe cs =>
    cases h
    exact ⟨cs.msgId,rfl,rfl⟩
  | publish cs =>
    cases h
    exact ⟨cs.messageId,rfl,rfl⟩
  | login lg => cases h
  | ok q => cases h
  | loginConfirm q => cases h

def Numbers (s s' : Server) : Prop :=
  ∃ out, s'.outbox = s.outbox ++ out ∧
    s'.nextMessageId = s.nextMessageId+UInt64.ofNat out.length ∧
    ∀ (j : Nat) (x : Nat × Message), out[j]? = some x →
      ∃ cs, x.2 = .publish cs ∧ cs.messageId = s.nextMessageId+UInt64.ofNat j

theorem Numbers.of_eq {s s' : Server} (outbox : s'.outbox = s.outbox)
    (next : s'.nextMessageId = s.nextMessageId) : s.Numbers s' :=
  ⟨[],by simp [outbox],by simp [next],by simp⟩

theorem Numbers.trans {s s₁ s₂ : Server} (h : s.Numbers s₁) (h' : s₁.Numbers s₂) :
    s.Numbers s₂ := by
  obtain ⟨out,hout,hnext,hids⟩ := h
  obtain ⟨out',hout',hnext',hids'⟩ := h'
  refine ⟨out ++ out',by rw [hout',hout,List.append_assoc],?_,fun j x hx => ?_⟩
  · rw [hnext',hnext,List.length_append,UInt64.ofNat_add,UInt64.add_assoc]
  · rw [List.getElem?_append] at hx
    split at hx
    · exact hids j x hx
    · rename_i hj
      obtain ⟨cs,hcs,hid⟩ := hids' _ x hx
      refine ⟨cs,hcs,?_⟩
      rw [hid,hnext,UInt64.add_assoc,← UInt64.ofNat_add]
      congr 2
      omega

theorem deliver_numbers {p : PublishParams} {rd : Bytes} {n : UInt64} {s : Server}
    (hs : Message.Sendable (.publish ⟨p.queueName,p.tag,n,rd⟩))
    (sound : ReCache.Sound regex s.cache) (ls : List (Id × QueueListener))
    (hr : ∀ x ∈ ls, x.1 ≠ ServerID → ∃ c, s.Reachable x.1 c) :
    s.Numbers (final (deliver regex p rd ls s)) := by
  induction ls generalizing s with
  | nil => exact .of_eq rfl rfl
  | cons x ls ih =>
    have hrest : ∀ y ∈ ls, y.1 ≠ ServerID → ∃ c, s.Reachable y.1 c :=
      fun y hy => hr y (by simp [hy])
    have hone := deliver_one sound p rd x
    rw [deliver_cons]
    generalize deliver regex p rd [x] s = res at hone
    cases hone with
    | skipped hsound target tag => exact ih hsound hrest
    | broken target tag => exact .of_eq rfl rfl
    | @sent cache hsound target tag =>
      by_cases hid : x.1 = ServerID
      · rw [hid,onSendToClient_server]
        exact ih hsound hrest
      · obtain ⟨c,hc,hopen⟩ := hr x (by simp) hid
        have hrun := onSendToClient_run hid (sendable_id hs) (s := { s with cache := cache })
        simp only [hc,hopen,if_false] at hrun
        rw [hrun]
        have hsent : s.Numbers { s with
            nextMessageId := s.nextMessageId+1
            outbox := s.outbox ++
              [(c.socket,.publish ⟨p.queueName,p.tag,s.nextMessageId,rd⟩)] } := by
          refine ⟨[_],rfl,rfl,fun j y hy => ?_⟩
          rw [List.getElem?_singleton] at hy
          split at hy
          · rename_i hj
            cases hy
            exact ⟨_,rfl,by simp [hj]⟩
          · cases hy
        exact hsent.trans (ih hsound hrest)

end Server

structure Performed (regex : RegexCompiler) (l : ServerLog) (op : Op)
    (r : EStateM.Result Failure Server Unit) : Prop where
  users : (final r).users = l.server.users
  closed : (final r).closed = l.server.closed
  broker : (final r).broker = l.server.broker.next ServerID op.call
  refused : (thrown r).isSome ↔ (l.server.broker.answer (brokerTags regex) op.call).refused
  sent : ∃ out heard, Outgoing regex l.server.broker l [op.call] out heard ∧
    (final r).outbox = l.server.outbox ++ out ∧
    (final r).nextMessageId = l.server.nextMessageId+UInt64.ofNat out.length ∧
    (final r).consumed = l.server.consumed ++ heard

section Performing

variable {regex : RegexCompiler} {l : ServerLog}

theorem Outgoing.none {b : Broker Str Id Str}
    {calls : List (BrokerCall Str Id Str (PublishParams × Bytes))}
    (h : ∀ call ∈ calls, (b.answer (brokerTags regex) call).sent = ∅) :
    Outgoing regex b l calls [] [] := by
  have hnone : ∀ c m, ¬ ∃ call ∈ calls, (c,m) ∈ (b.answer (brokerTags regex) call).sent := by
    rintro c m ⟨call,hcall,hm⟩
    rw [h call hcall] at hm
    exact hm
  exact ⟨by simp,.nil,fun i _ p rd => by simp [hnone],fun p rd c => by simp [hnone],.nil⟩

theorem Performed.node {op : Op} {x : EStateM Exception Node Unit}
    (broker : (final (x l.server.node)).broker l.server.users =
      l.server.broker.next ServerID op.call)
    (refused : (thrown (x l.server.node)).isSome ↔
      (l.server.broker.answer (brokerTags regex) op.call).refused)
    (silent : (l.server.broker.answer (brokerTags regex) op.call).sent = ∅) :
    Performed regex l op (Server.onNode x l.server) := by
  have hout : Outgoing regex l.server.broker l [op.call] [] [] := .none (by simpa using silent)
  rw [Server.onNode_run]
  cases hx : x l.server.node with
  | ok a n =>
    rw [hx] at broker refused
    exact ⟨rfl,rfl,broker,refused,[],[],hout,by simp,by simp,by simp⟩
  | error e n =>
    rw [hx] at broker refused
    exact ⟨rfl,rfl,broker,refused,[],[],hout,by simp,by simp,by simp⟩

namespace ServerLog.Books

variable (h : l.Books) (few : l.Few)
include h few

theorem reachable_socket {c : Id} {i : ClientConnection} (hr : l.server.Reachable c i) :
    i ∈ l.server.connections ∧ i.id = c ∧ i.socket = c.toNat := by
  have hi := List.mem_of_find?_eq_some hr.1
  have hid : i.id = c := by simpa using List.find?_some hr.1
  obtain ⟨hnumber,hlt⟩ := h.mem_accepted (h.mem_connections.mp hi).1
  refine ⟨hi,hid,?_⟩
  unfold ServerLog.Few at few
  rw [← hid,hnumber,UInt64.toNat_ofNat_of_lt' (by simp [UInt64.size]; omega)]

theorem outgoing {p : PublishParams} {rd : Bytes} {b : Broker Str Id Str} {ids : List Id}
    {out : List (Nat × Message)} (order : ids.Pairwise (· < ·))
    (mem : ∀ c, c ∈ ids ↔
      (c,(p,rd)) ∈ (b.answer (brokerTags regex) (.publishes p.queueName (p,rd))).sent)
    (hout : List.Forall₂ (fun id x => ∃ i n, l.server.Reachable id i ∧
      x = (i.socket,.publish ⟨p.queueName,p.tag,n,rd⟩)) (ids.filter (fun id => id != ServerID)) out)
    (numbers : ∀ (j : Nat) (x : Nat × Message), out[j]? = some x →
      ∃ cs, x.2 = .publish cs ∧ cs.messageId = l.server.nextMessageId+UInt64.ofNat j) :
    Outgoing regex b l [.publishes p.queueName (p,rd)] out
      ((ids.filter (fun id => id == ServerID)).map fun id => (p,rd,id)) := by
  have hmessage : ∀ {c : Id} {p' : PublishParams} {rd' : Bytes},
      (c,(p',rd')) ∈ (b.answer (brokerTags regex) (.publishes p.queueName (p,rd))).sent →
        p' = p ∧ rd' = rd := by
    rintro c p' rd' ⟨he,-⟩
    cases he
    exact ⟨rfl,rfl⟩
  obtain ⟨hright,hleft⟩ := forall₂_mem hout
  constructor
  · intro j x hx
    obtain ⟨c,-,i,n,hr,rfl⟩ := hright x (List.mem_of_getElem? hx)
    obtain ⟨cs,hcs,hid⟩ := numbers j _ hx
    exact ⟨i,(h.reachable_socket few hr).1,cs,by rw [← hcs],hid⟩
  · have hsockets : List.Forall₂ (fun c x => c.toNat = x.1)
        (ids.filter (fun id => id != ServerID)) out := by
      refine hout.imp fun c x hx => ?_
      obtain ⟨i,n,hr,rfl⟩ := hx
      exact (h.reachable_socket few hr).2.2.symm
    have heq : (ids.filter (fun id => id != ServerID)).map UInt64.toNat = out.map Prod.fst := by
      rw [← List.forall₂_eq_eq_eq,List.forall₂_map_left_iff,List.forall₂_map_right_iff]
      exact hsockets
    rw [← List.pairwise_map (f := Prod.fst),← heq,List.pairwise_map]
    exact (order.filter _).imp UInt64.lt_iff_toNat_lt.mp
  · intro i hi p' rd'
    simp only [List.mem_singleton,exists_eq_left]
    constructor
    · rintro ⟨n,hx⟩
      obtain ⟨c,hc,j,n',hr,he⟩ := hright _ hx
      obtain ⟨hj,rfl,-⟩ := h.reachable_socket few hr
      simp only [Prod.mk.injEq,Message.publish.injEq,Publish.mk.injEq] at he
      obtain ⟨hsocket,hq,ht,-,rfl⟩ := he
      have hp : p' = p := by
        cases p
        cases p'
        simp_all
      have hij : i = j := by
        rw [(h.mem_accepted hi).1,(h.mem_accepted (h.mem_connections.mp hj).1).1,hsocket]
      rw [hij,hp]
      exact (mem _).mp (List.mem_of_mem_filter hc)
    · intro hsent
      obtain ⟨rfl,rfl⟩ := hmessage hsent
      have hc : i.id ∈ ids.filter (fun id => id != ServerID) := by
        rw [List.mem_filter]
        exact ⟨(mem _).mpr hsent,by simpa using h.id_ne_server few hi⟩
      obtain ⟨x,hx,j,n,hr,rfl⟩ := hleft _ hc
      obtain ⟨hj,hid,-⟩ := h.reachable_socket few hr
      have hij := h.id_inj few (h.mem_connections.mp hj).1 hi hid
      exact ⟨n,hij ▸ hx⟩
  · intro p' rd' c
    simp only [List.mem_singleton,exists_eq_left,List.mem_map,List.mem_filter,beq_iff_eq]
    constructor
    · rintro ⟨c',⟨hc,rfl⟩,he⟩
      cases he
      exact ⟨rfl,(mem _).mp hc⟩
    · rintro ⟨rfl,hsent⟩
      obtain ⟨rfl,rfl⟩ := hmessage hsent
      exact ⟨ServerID,⟨(mem _).mpr hsent,rfl⟩,rfl⟩
  · refine List.Nodup.map (fun c c' he => ?_) ((order.imp UInt64.ne_of_lt).filter _)
    simpa using he

theorem performs_publish (sound : ReCache.Sound regex l.server.cache) {p : PublishParams}
    {rd : Bytes} (hs : Message.Sendable (.publish ⟨p.queueName,p.tag,0,rd⟩)) (c : Id) :
    Performed regex l (.publish p rd c) (Server.nodePublish regex p rd l.server) := by
  have hreach : ∀ x ∈ (l.server.node.localCopy p.queueName).2, x.1 ≠ ServerID →
      ∃ i, l.server.Reachable x.1 i := by
    intro x hx hne
    obtain ⟨i,-,-,hr⟩ := h.reachable few (h.localCopy_user hx) hne
    exact ⟨i,hr⟩
  obtain ⟨s',hsent,hres⟩ := Server.deliver_sent regex p rd
    (s := { l.server with node := (l.server.node.localCopy p.queueName).1 }) hs sound
    (l.server.node.localCopy p.queueName).2 hreach
  obtain ⟨out,hout,htargets⟩ := hsent.outbox
  obtain ⟨out',hout',hnext,hnumbers⟩ := Server.deliver_numbers
    (s := { l.server with node := (l.server.node.localCopy p.queueName).1 }) hs sound
    (l.server.node.localCopy p.queueName).2 hreach
  have hrun : final (Server.nodePublish regex p rd l.server) = s' ∧
      ((thrown (Server.nodePublish regex p rd l.server)).isSome ↔
        ∃ x ∈ (l.server.node.localCopy p.queueName).2, x.2.Broken regex) := by
    rw [Server.nodePublish_run]
    rcases hres with ⟨hok,hb⟩ | ⟨⟨e,he⟩,hb⟩
    · rw [hok]
      simpa using hb
    · rw [he]
      simpa using hb
  have hs' : final (Server.deliver regex p rd (l.server.node.localCopy p.queueName).2
      { l.server with node := (l.server.node.localCopy p.queueName).1 }) = s' := hrun.1
  have hsame : out' = out := by
    rw [hs',hout] at hout'
    exact (List.append_cancel_left hout').symm
  obtain ⟨hviews,hlisteners⟩ := localCopy_views l.server.node p.queueName
  refine ⟨?_,?_,?_,hrun.2.trans (Node.broken_localCopy p rd l.server.users l.server.node),
    out,_,h.outgoing few (Server.reached_ordered regex l.server.node p.queueName p.tag)
      (Node.mem_reached p rd l.server.users l.server.node) htargets (hsame ▸ hnumbers),?_,?_,?_⟩
  · rw [hrun.1,hsent.users]
  · rw [hrun.1,hsent.closed]
  · rw [hrun.1,Server.broker,hsent.users,hsent.node]
    exact Node.broker_congr (fun _ => rfl) hviews hlisteners
  · rw [hrun.1,hout]
  · rw [← hsame,← hnext]
    rfl
  · rw [hrun.1,hsent.consumed]

omit h few in
theorem operation_cases {e : ServerEvent} {op : Op} (hop : l.operation e = some op) :
    (∃ qs c, op = .createQueue qs c) ∨ (∃ a sp c, op = .changeSubscription a sp c) ∨
      ∃ p rd c, op = .publish p rd c := by
  have hrequest : ∀ c m, Message.operation c m = some op →
      (∃ qs c, op = .createQueue qs c) ∨ (∃ a sp c, op = .changeSubscription a sp c) ∨
        ∃ p rd c, op = .publish p rd c := by
    intro c m hm
    cases m <;> cases hm <;> simp
  cases e with
  | createQueue settings => cases hop; simp
  | subscribe settings => cases hop; simp
  | unsubscribe qname => cases hop; simp
  | publish settings data => cases hop; simp
  | accept => cases hop
  | error k => cases hop
  | stopServer => cases hop
  | message k d =>
    obtain ⟨r,-,hm⟩ := Option.bind_eq_some_iff.mp hop
    exact hrequest _ _ hm

theorem performs (sound : ReCache.Sound regex l.server.cache) {e : ServerEvent} {op : Op}
    (hop : l.operation e = some op) (hs : op.Sendable) :
    Performed regex l op (Server.performs regex op l.server) := by
  have hanswer := World.shows_answer (w := ⟨l.server.users,l.server.node,l.server.cache⟩) sound op
  rcases operation_cases hop with ⟨qs,c,rfl⟩ | ⟨a,sp,c,rfl⟩ | ⟨p,rd,c,rfl⟩
  · exact .node (Node.broker_create (createQueue_cases l.server.users qs c l.server.node))
      hanswer.refused rfl
  · refine .node (Node.broker_change (changeSubscription_cases l.server.users a sp c l.server.node))
      hanswer.refused ?_
    cases a <;> rfl
  · exact h.performs_publish few sound hs c

omit few in
theorem close_broker {i : ClientConnection} (hi : i ∈ l.accepted)
    (hc : i.socket ∉ l.server.closed) (tags : Tags Str (PublishParams × Bytes)) :
    (final (ServerLog.close i l)).server.broker =
        (Broker.machine ServerID tags).run l.server.broker i.departs ∧
      l.server.Still (final (ServerLog.close i l)).server := by
  obtain ⟨users,hu⟩ := UserBase.erase_of_exists (h.user_of_open hi hc)
  rw [close_run hc hu]
  refine ⟨?_,rfl,rfl⟩
  have hdismissed : l.server.node.broker users =
      l.server.broker.next ServerID (Op.eraseUser i.id).call := by
    refine Broker.ext (Set.ext fun c => ?_) rfl rfl
    show users.exists c = true ↔ l.server.users.exists c = true ∧ c ≠ i.id
    rw [UserBase.exists_erase hu c,and_comm]
  show (l.server.node.eraseClient i.id).broker users = _
  rw [Node.broker_eraseClient,hdismissed]
  rfl

theorem closeAll_broker (tags : Tags Str (PublishParams × Bytes)) {cons : List ClientConnection}
    (nodup : cons.Nodup) (hcons : ∀ i ∈ cons, i ∈ l.accepted ∧ i.socket ∉ l.server.closed) :
    (final (ServerLog.closeAll cons l)).server.broker = (Broker.machine ServerID tags).run
        l.server.broker (cons.flatMap ClientConnection.departs) ∧
      l.server.Still (final (ServerLog.closeAll cons l)).server := by
  induction cons generalizing l with
  | nil => exact ⟨rfl,rfl,rfl⟩
  | cons i cons ih =>
    obtain ⟨hi,hopen⟩ := hcons i (by simp)
    obtain ⟨hnew,nodup⟩ := List.nodup_cons.mp nodup
    obtain ⟨hbroker,hstill⟩ := h.close_broker hi hopen tags
    obtain ⟨l₁,hr,books,haccepted,-,hclosed⟩ := h.close few hi
    rw [hr,final_ok] at hbroker hstill
    have few₁ : l₁.Few := by
      unfold ServerLog.Few
      rwa [haccepted]
    obtain ⟨hrest,hstill'⟩ := ih books few₁ nodup fun j hj => by
      obtain ⟨hj',hjopen⟩ := hcons j (by simp [hj])
      refine ⟨haccepted ▸ hj',?_⟩
      rw [hclosed,if_neg hopen,List.mem_cons,not_or]
      refine ⟨fun hs => hnew ?_,hjopen⟩
      have hij : j = i := by rw [(h.mem_accepted hj').1,(h.mem_accepted hi).1,hs]
      exact hij ▸ hj
    have hrun : final (ServerLog.closeAll (i :: cons) l) = final (ServerLog.closeAll cons l₁) := by
      rw [ServerLog.closeAll,bind_apply,hr]
    rw [hrun]
    refine ⟨hrest.trans ?_,hstill'.1.trans hstill.1,hstill'.2.trans hstill.2⟩
    rw [hbroker,List.flatMap_cons,Machine.run,Machine.run,Machine.run,List.foldl_append]

end ServerLog.Books

section Steps

variable {e : ServerEvent} {l' : ServerLog}

theorem Answered.silent {b : Broker Str Id Str}
    (sent : ∀ call ∈ l.asks e, (b.answer (brokerTags regex) call).sent = ∅)
    (accepted : ∀ call ∈ l.asks e, ¬ (b.answer (brokerTags regex) call).refused)
    (outbox : l'.server.outbox = l.server.outbox ++ (l.reply e).toList)
    (still : l.server.Still l'.server) : Answered regex b l e l' :=
  ⟨[],[],_,.none sent,by simpa using outbox,by simpa using still.1,by simpa using still.2,
    fun _ => rfl,
    fun ⟨call,hcall,hr⟩ => absurd hr (accepted call hcall)⟩

theorem Performed.own {op : Op} {s' : Server}
    (h : Performed regex l op (Server.performs regex op l.server))
    (asks : l.asks e = [op.call]) (reply : l.reply e = none)
    (hs' : s' = final (Server.performs regex op l.server)) :
    s'.broker = (Broker.machine ServerID (brokerTags regex)).run l.server.broker (l.asks e) ∧
      Answered regex l.server.broker l e { l with server := s' } := by
  obtain ⟨out,heard,hout,houtbox,hnext,hconsumed⟩ := h.sent
  subst hs'
  rw [asks]
  refine ⟨h.broker,out,heard,[],asks.symm ▸ hout,by simpa using houtbox,hnext,hconsumed,?_,
    fun _ => rfl⟩
  simp [reply]

theorem Performed.request {op : Op} {i : ClientConnection} {m : Message} {n : UInt64}
    (h : Performed regex l op (Server.performs regex op l.server))
    (asks : l.asks e = [op.call]) (reply : l.reply e = some (i.socket,.ok ⟨n⟩))
    (isOpen : i.socket ∉ l.server.closed) {s' : Server}
    (hs' : s' = final ((do Server.performs regex op; Server.acknowledge i m n) l.server)) :
    s'.broker = (Broker.machine ServerID (brokerTags regex)).run l.server.broker (l.asks e) ∧
      Answered regex l.server.broker l e { l with server := s' } := by
  obtain ⟨out,heard,hout,houtbox,hnext,hconsumed⟩ := h.sent
  rw [bind_apply] at hs'
  unfold Answered
  rw [asks,reply]
  have hbroker := h.broker
  have hclosed := h.closed
  have hrefused := h.refused
  generalize Server.performs regex op l.server = r at *
  cases r with
  | ok a s₁ =>
    rw [final_ok] at houtbox hnext hconsumed hbroker hclosed
    have hrun := Server.acknowledge_run (s := s₁) (by rwa [hclosed]) m n (i := i)
    simp only [hrun,final_ok] at hs'
    subst hs'
    have hnot : ¬ (l.server.broker.answer (brokerTags regex) op.call).refused :=
      fun hr => absurd (hrefused.mpr hr) (by simp)
    refine ⟨hbroker,out,heard,_,hout,?_,hnext,hconsumed,fun _ => rfl,?_⟩
    · simp [houtbox]
    · simp [hnot]
  | error f s₁ =>
    rw [final_error] at houtbox hnext hconsumed hbroker hclosed
    have hs₁ : s' = s₁ := hs'
    subst hs₁
    have hyes := hrefused.mp rfl
    refine ⟨hbroker,out,heard,[],hout,by simpa using houtbox,hnext,hconsumed,?_,fun _ => rfl⟩
    simp [hyes]

end Steps

namespace ServerLog.Books

variable (h : l.Books)
include h

theorem accept_answered (few : l.accepted.length+1 < 2^31-1) :
    (final (handleAccept l)).server.broker =
        (Broker.machine ServerID (brokerTags regex)).run l.server.broker (l.asks .accept) ∧
      Answered regex l.server.broker l .accept (final (handleAccept l)) := by
  have hid : l.server.nextClientId = UInt64.ofNat l.accepted.length :=
    Server.nextClientId_ofNat h.next (by omega)
  refine ⟨?_,.silent (by simp [asks,Broker.answer]) (by simp [asks,Broker.answer]) ?_ ⟨rfl,rfl⟩⟩
  · rw [handleAccept_final,hid]
    refine Broker.ext (Set.ext fun c => ?_) rfl rfl
    exact UserBase.exists_append l.server.users _ c
  · simp [handleAccept_final,reply,request]

variable (regex) in
theorem departs_quiet {cons : List ClientConnection}
    (hcons : ∀ i ∈ cons, i ∈ l.accepted ∧ i.socket ∉ l.server.closed) :
    ∀ call ∈ cons.flatMap ClientConnection.departs,
      (l.server.broker.answer (brokerTags regex) call).sent = ∅ ∧
        ¬ (l.server.broker.answer (brokerTags regex) call).refused := by
  intro call hcall
  obtain ⟨i,hi,hmem⟩ := List.mem_flatMap.mp hcall
  obtain ⟨hi,hopen⟩ := hcons i hi
  simp only [ClientConnection.departs,List.mem_cons,List.not_mem_nil,or_false] at hmem
  rcases hmem with rfl | rfl
  · refine ⟨rfl,fun hr => hr ?_⟩
    exact h.user_of_open hi hopen
  · exact ⟨rfl,fun hr => hr⟩

theorem error_answered (k : Nat) :
    (l.step regex (.error k)).server.broker =
        (Broker.machine ServerID (brokerTags regex)).run l.server.broker (l.asks (.error k)) ∧
      Answered regex l.server.broker l (.error k) (l.step regex (.error k)) := by
  have hsame : l.asks (.error k) = [] → l.step regex (.error k) = l →
      (l.step regex (.error k)).server.broker =
          (Broker.machine ServerID (brokerTags regex)).run l.server.broker (l.asks (.error k)) ∧
        Answered regex l.server.broker l (.error k) (l.step regex (.error k)) := by
    intro hasks hstep
    rw [hstep,hasks]
    exact ⟨rfl,.silent (by simp [hasks]) (by simp [hasks]) (by simp [reply,request]) ⟨rfl,rfl⟩⟩
  cases hk : l.accepted[k]? with
  | none =>
    exact hsame (by simp [asks,hk]) (by simp [ServerLog.step,exec,onConnection,hk])
  | some i =>
    have hi := List.mem_of_getElem? hk
    have hstep : l.step regex (.error k) = final (ServerLog.close i l) := by
      simp [ServerLog.step,exec,onConnection,hk]
    by_cases hc : i.socket ∈ l.server.closed
    · exact hsame (by simp [asks,hk,hc]) (by rw [hstep,close_closed hc,final_ok])
    · have hasks : l.asks (.error k) = [i].flatMap ClientConnection.departs := by
        simp [asks,hk,hc]
      have hquiet := @departs_quiet regex l h [i] (by simpa using ⟨hi,hc⟩)
      obtain ⟨hbroker,hstill⟩ := h.close_broker hi hc (brokerTags regex)
      rw [hstep]
      refine ⟨?_,.silent (fun call hcall => (hquiet call (hasks ▸ hcall)).1)
        (fun call hcall => (hquiet call (hasks ▸ hcall)).2) ?_ hstill⟩
      · rw [hbroker,hasks]
        simp
      · rw [close_outbox]
        simp [reply,request]

theorem stop_answered (few : l.Few) :
    (l.step regex .stopServer).server.broker =
        (Broker.machine ServerID (brokerTags regex)).run l.server.broker (l.asks .stopServer) ∧
      Answered regex l.server.broker l .stopServer (l.step regex .stopServer) := by
  cases hs : l.isStoped with
  | true =>
    have hasks : l.asks .stopServer = [] := by simp [asks,hs]
    have hstep : l.step regex .stopServer = l := by
      simp [ServerLog.step,exec,ServerLog.stopServer,hs]
    rw [hstep,hasks]
    exact ⟨rfl,.silent (by simp [hasks]) (by simp [hasks]) (by simp [reply,request]) ⟨rfl,rfl⟩⟩
  | false =>
    have hall : ∀ i ∈ l.server.connections, i ∈ l.accepted ∧ i.socket ∉ l.server.closed :=
      fun i hi => h.mem_connections.mp hi
    have hasks : l.asks .stopServer = l.server.connections.flatMap ClientConnection.departs := by
      simp [asks,hs]
    have hnodup : l.server.connections.Nodup := by
      rw [h.connections]
      exact h.accepted_nodup.filter _
    obtain ⟨l₁,hr,-⟩ := h.closeAll few l.server.connections fun i hi => (hall i hi).1
    obtain ⟨hbroker,hstill⟩ := h.closeAll_broker few (brokerTags regex) hnodup hall
    have hstep : l.step regex .stopServer = { l₁ with
        server := { l₁.server with connections := [] }, isStoped := true } := by
      simp [ServerLog.step,exec,ServerLog.stopServer,hs,hr]
    rw [hr,final_ok] at hbroker hstill
    have hquiet := h.departs_quiet regex hall
    refine ⟨?_,.silent (fun call hcall => (hquiet call (hasks ▸ hcall)).1)
      (fun call hcall => (hquiet call (hasks ▸ hcall)).2) ?_ ?_⟩
    · rw [hstep,hasks]
      exact hbroker
    · have hout := stop_outbox l
      have hfinal : l.step regex .stopServer = final (ServerLog.stopServer l) := rfl
      rw [hfinal,hout]
      simp [reply,request]
    · rw [hstep]
      exact hstill

theorem login_answered {i : ClientConnection} (hi : i ∈ l.accepted)
    (hc : i.socket ∉ l.server.closed) (lg : Login) :
    (final (Server.handle regex i (.login lg) l.server)).broker = l.server.broker ∧
      (final (Server.handle regex i (.login lg) l.server)).outbox =
        l.server.outbox ++ [(i.socket,.loginConfirm ⟨i.id⟩)] ∧
      l.server.Still (final (Server.handle regex i (.login lg) l.server)) := by
  obtain ⟨nd,hnd,-⟩ := Message.toNetworkMessage_ok _ (loginConfirm_sendable i.id)
  simp only [Server.handle,bind_apply,modify_apply,Server.sendTo_run,hnd,if_neg hc,final_ok]
  refine ⟨Node.broker_congr (fun c => ?_) (fun _ => Iff.rfl) fun _ _ => rfl,trivial,rfl,rfl⟩
  rw [Bool.eq_iff_iff,UserBase.exists_setLogin]
  refine or_iff_right_of_imp ?_
  rintro rfl
  exact h.user_of_open hi hc

theorem message_answered (few : l.Few) (sound : ReCache.Sound regex l.server.cache) {k : Nat}
    {d : NetworkMessage} (served : l.Served (.message k d)) :
    (l.step regex (.message k d)).server.broker = (Broker.machine ServerID (brokerTags regex)).run
        l.server.broker (l.asks (.message k d)) ∧
      Answered regex l.server.broker l (.message k d) (l.step regex (.message k d)) := by
  have hsame : l.request (.message k d) = none → l.step regex (.message k d) = l →
      (l.step regex (.message k d)).server.broker =
          (Broker.machine ServerID (brokerTags regex)).run l.server.broker
            (l.asks (.message k d)) ∧
        Answered regex l.server.broker l (.message k d) (l.step regex (.message k d)) := by
    intro hrequest hstep
    have hasks : l.asks (.message k d) = [] := by simp [asks,operation,hrequest]
    rw [hstep,hasks]
    exact ⟨rfl,.silent (by simp [hasks]) (by simp [hasks]) (by simp [reply,hrequest]) ⟨rfl,rfl⟩⟩
  cases hk : l.accepted[k]? with
  | none => exact hsame (by simp [request,hk]) (by simp [ServerLog.step,exec,onConnection,hk])
  | some i =>
    have hi := List.mem_of_getElem? hk
    have hc : i.socket ∉ l.server.closed := served.1 i hk
    rcases Message.ofFrame_state [.CREATE_QUEUE,.SUBSCRIBE,.UNSUBSCRIBE,.PUBLISH,.LOGIN]
      "unknow message kind: " d l.server with ⟨m,hm⟩ | ⟨e,he⟩
    · have hrequest : l.request (.message k d) = some (i,m) := by simp [request,hk,hm]
      have hstep : l.step regex (.message k d) =
          { l with server := final (Server.handle regex i m l.server) } := by
        rw [ServerLog.step_message hk,Server.onNewMessage,bind_apply,hm]
      cases hop : m.operation i.id with
      | some op =>
        obtain ⟨n,hreply,hrun⟩ := Server.handle_request regex hop l.server
        have hoperation : l.operation (.message k d) = some op := by
          simp [operation,hrequest,hop]
        have hperformed := h.performs few sound hoperation (served.2 op hoperation)
        rw [hstep]
        exact hperformed.request (by simp [asks,hoperation]) (by simp [reply,hrequest,hreply]) hc
          (congrArg final hrun)
      | none =>
        have hasks : l.asks (.message k d) = [] := by simp [asks,operation,hrequest,hop]
        have hquiet : (final (Server.handle regex i m l.server)).broker = l.server.broker ∧
            (final (Server.handle regex i m l.server)).outbox = l.server.outbox ++
              (l.reply (.message k d)).toList ∧
            l.server.Still (final (Server.handle regex i m l.server)) := by
          simp only [reply,hrequest]
          cases m with
          | login lg => exact h.login_answered hi hc lg
          | ok q => exact ⟨rfl,(List.append_nil _).symm,rfl,rfl⟩
          | loginConfirm q => exact ⟨rfl,(List.append_nil _).symm,rfl,rfl⟩
          | createQueue cq => cases hop
          | subscribe cs => cases hop
          | unsubscribe cs => cases hop
          | publish cs => cases hop
        rw [hstep]
        refine ⟨?_,.silent (by simp [hasks]) (by simp [hasks]) hquiet.2.1 hquiet.2.2⟩
        rw [hasks]
        exact hquiet.1
    · refine hsame (by simp [request,hk,he]) ?_
      rw [ServerLog.step_message hk,Server.onNewMessage,bind_apply,he]
      rfl

theorem step_answered {e : ServerEvent} (few : (l.step regex e).Few)
    (sound : ReCache.Sound regex l.server.cache) (served : l.Served e) :
    (l.step regex e).server.broker =
        (Broker.machine ServerID (brokerTags regex)).run l.server.broker (l.asks e) ∧
      Answered regex l.server.broker l e (l.step regex e) := by
  have few₀ : l.Few := Nat.lt_of_le_of_lt (l.accepted_step e) few
  have hown : ∀ op x, l.operation e = some op → l.asks e = [op.call] → l.reply e = none →
      l.step regex e = final (onServer x l) → x l.server = Server.performs regex op l.server →
      (l.step regex e).server.broker =
          (Broker.machine ServerID (brokerTags regex)).run l.server.broker (l.asks e) ∧
        Answered regex l.server.broker l e (l.step regex e) := by
    intro op x hop hasks hreply hstep hx
    have hperformed := h.performs few₀ sound hop (served.2 op hop)
    rw [hstep,onServer_final,hx]
    exact hperformed.own hasks hreply rfl
  cases e with
  | accept =>
    refine h.accept_answered ?_
    have hlen : (l.step regex .accept).accepted.length = l.accepted.length+1 := by
      simp [ServerLog.step,exec,handleAccept_final]
    unfold ServerLog.Few at few
    omega
  | message k d => exact h.message_answered few₀ sound served
  | error k => exact h.error_answered k
  | stopServer => exact h.stop_answered few₀
  | createQueue settings => exact hown _ _ rfl rfl rfl rfl rfl
  | subscribe settings => exact hown _ _ rfl rfl rfl rfl rfl
  | unsubscribe qname => exact hown _ _ rfl rfl rfl rfl rfl
  | publish settings data => exact hown _ _ rfl rfl rfl rfl rfl

end ServerLog.Books

end Performing

def Message.publishedId : Message → Option UInt64
  | .publish cs => some cs.messageId
  | _ => none

def Server.published (s : Server) : List UInt64 := s.outbox.filterMap fun x => x.2.publishedId

structure Server.Counted (s : Server) : Prop where
  next : s.nextMessageId = UInt64.ofNat s.published.length
  numbers : ∀ (k : Nat) (n : UInt64), s.published[k]? = some n → n = UInt64.ofNat k

section Runs

variable {regex : RegexCompiler} {l l' : ServerLog} {b : Broker Str Id Str} {e : ServerEvent}

theorem ServerLog.replies_unpublished {replies : List (Nat × Message)}
    (accepted : (∀ call ∈ l.asks e, ¬ (b.answer (brokerTags regex) call).refused) →
      replies = (l.reply e).toList)
    (refused : (∃ call ∈ l.asks e, (b.answer (brokerTags regex) call).refused) → replies = []) :
    replies.filterMap (fun x => x.2.publishedId) = [] := by
  by_cases hrefused : ∃ call ∈ l.asks e, (b.answer (brokerTags regex) call).refused
  · rw [refused hrefused]
    rfl
  · rw [accepted fun call hcall hr => hrefused ⟨call,hcall,hr⟩,ServerLog.reply]
    cases l.request e with
    | none => rfl
    | some r =>
      obtain ⟨i,m⟩ := r
      cases m <;> rfl

theorem Outgoing.publishedIds {calls : List (BrokerCall Str Id Str (PublishParams × Bytes))}
    {out : List (Nat × Message)} {heard : List Call} (h : Outgoing regex b l calls out heard) :
    (out.filterMap fun x => x.2.publishedId).length = out.length ∧
      ∀ (j : Nat) (n : UInt64), (out.filterMap fun x => x.2.publishedId)[j]? = some n →
        n = l.server.nextMessageId+UInt64.ofNat j := by
  have hall : out.filterMap (fun x => x.2.publishedId) =
      out.map fun x => x.2.publishedId.getD 0 := by
    rw [← List.filterMap_eq_map]
    refine List.filterMap_congr fun x hx => ?_
    obtain ⟨j,hj⟩ := List.mem_iff_getElem?.mp hx
    obtain ⟨i,-,cs,rfl,-⟩ := h.published j x hj
    rfl
  rw [hall]
  refine ⟨List.length_map _,fun j n hn => ?_⟩
  rw [List.getElem?_map,Option.map_eq_some_iff] at hn
  obtain ⟨x,hx,rfl⟩ := hn
  obtain ⟨i,-,cs,rfl,hid⟩ := h.published j x hx
  exact hid

theorem Answered.counted (h : Answered regex b l e l') (counted : l.server.Counted) :
    l'.server.Counted := by
  obtain ⟨out,heard,replies,hout,houtbox,hnext,-,hreply,hsilent⟩ := h
  obtain ⟨hlength,hids⟩ := hout.publishedIds
  have hreplies := ServerLog.replies_unpublished hreply hsilent
  have hpublished : l'.server.published =
      l.server.published ++ out.filterMap fun x => x.2.publishedId := by
    simp [Server.published,houtbox,hreplies]
  refine ⟨?_,fun k n hn => ?_⟩
  · rw [hnext,hpublished,List.length_append,hlength,counted.next,UInt64.ofNat_add]
  · rw [hpublished,List.getElem?_append] at hn
    split at hn
    · exact counted.numbers k n hn
    · rename_i hk
      rw [hids _ n hn,counted.next,← UInt64.ofNat_add]
      congr 1
      omega

theorem ServerLog.start_broker (cache : ReCache) :
    (ServerLog.start cache).server.broker = .start {ServerID} := by
  refine Broker.ext (Set.ext fun c => ?_) (Set.ext fun q => ?_) ?_
  · refine ((Books.start cache).users c).trans ?_
    simp [ServerLog.start,Server.start,Broker.start]
  · exact iff_of_false (by simp [Server.broker,Node.broker,ServerLog.start,Server.start,Node.empty,
      Node.HasQueue]) (Set.notMem_empty q)
  · rfl

variable (regex) in
structure ServerLog.Refines (cache : ReCache) (d : List ServerEvent) (l : ServerLog) : Prop where
  books : l.Books
  broker : l.server.broker = (Broker.machine ServerID (brokerTags regex)).run (.start {ServerID})
    (asked regex (ServerLog.start cache) d)
  answered : ∀ pre e post, d = pre ++ e :: post →
    Answered regex ((Broker.machine ServerID (brokerTags regex)).run (.start {ServerID})
        (asked regex (ServerLog.start cache) pre)) ((ServerLog.start cache).run regex pre) e
      ((ServerLog.start cache).run regex (pre ++ [e]))
  counted : l.server.Counted

theorem ServerLog.run_refines {cache : ReCache} (sound : ReCache.Sound regex cache)
    {events : List ServerEvent}
    (served : Runs.Along (step regex) Served (ServerLog.start cache) events)
    (few : ((ServerLog.start cache).run regex events).Few) :
    Refines regex cache events ((ServerLog.start cache).run regex events) := by
  have hinv := served.history (d := [])
    (P := fun d l => l = (ServerLog.start cache).run regex d ∧
      (l.Few → Refines regex cache d l)) (fun d l e h hs => ?_) ⟨rfl,fun _ => ?_⟩
  · exact hinv.2 few
  · obtain ⟨rfl,h⟩ := h
    have hrun : (ServerLog.start cache).run regex (d ++ [e]) =
        ((ServerLog.start cache).run regex d).step regex e := by simp [ServerLog.run]
    refine ⟨hrun.symm,fun few' => ?_⟩
    have few₀ := Nat.lt_of_le_of_lt (accepted_step ((ServerLog.start cache).run regex d) e) few'
    have hd := h few₀
    obtain ⟨hbroker,hanswered⟩ := hd.books.step_answered few' (run_sound sound d) hs
    rw [hd.broker] at hbroker hanswered
    refine ⟨hd.books.step few' few₀ hs.1,?_,?_,hanswered.counted hd.counted⟩
    · rw [hbroker,asked,asked,Runs.collect_concat,Machine.run,Machine.run,Machine.run,
        List.foldl_append]
      rfl
    · refine Runs.places_concat.mpr ⟨hd.answered,?_⟩
      rw [hrun]
      exact hanswered
  · refine ⟨.start cache,start_broker cache,by simp,rfl,fun k n hn => ?_⟩
    have hn' : ([] : List UInt64)[k]? = some n := hn
    simp at hn'

end Runs

/-- The server is a broker for its connections: its state is the broker's after what its
events have asked for, each event sends what the broker answers to it and the reply that
it does not refuse, and the messages it has sent are numbered from 0. -/
theorem server_refines_broker (cache : ReCache) (regex : RegexCompiler)
    (sound : ReCache.Sound regex cache) (events : List ServerEvent) {l : ServerLog}
    (run : l = (ServerLog.start cache).run regex events)
    (served : Runs.Along (ServerLog.step regex) ServerLog.Served (ServerLog.start cache) events)
    (few : l.accepted.length < 2^31-1) :
    l.server.broker = (Broker.machine ServerID (brokerTags regex)).run (.start {ServerID})
      (ServerLog.asked regex (ServerLog.start cache) events) ∧
    (∀ pre e post, events = pre ++ e :: post →
      Answered regex ((Broker.machine ServerID (brokerTags regex)).run (.start {ServerID})
          (ServerLog.asked regex (ServerLog.start cache) pre))
        ((ServerLog.start cache).run regex pre) e
        ((ServerLog.start cache).run regex (pre ++ [e]))) ∧
    ∀ (k : Nat) (n : UInt64), l.server.published[k]? = some n → n = UInt64.ofNat k := by
  subst run
  have h := ServerLog.run_refines sound served few
  exact ⟨h.broker,h.answered,h.counted.numbers⟩

def publishedTo : List ServerEvent :=
  [.accept,.accept,.message 0 (received (Message.wire (.createQueue ⟨[113],0⟩))),
    .message 1 (received (Message.wire (.subscribe ⟨[113],[],0⟩))),
    .message 0 (received (Message.wire (.publish ⟨[113],[],1,[7]⟩)))]

theorem server_refines_broker_published_to :
    ((ServerLog.start ∅).run literal publishedTo).server.published = [0] ∧
      (1,(⟨[113],[]⟩,[7])) ∈ (((Broker.machine ServerID (brokerTags literal)).run
        (.start {ServerID}) (ServerLog.asked literal (ServerLog.start ∅)
          (publishedTo.take 4))).answer (brokerTags literal)
        (.publishes [113] (⟨[113],[]⟩,[7]))).sent := by
  have hserved : Runs.Along (ServerLog.step literal) ServerLog.Served (ServerLog.start ∅)
      publishedTo := by
    decide +kernel
  have hacc : ((ServerLog.start ∅).run literal publishedTo).accepted.length = 2 := by
    decide +kernel
  have hrefines := server_refines_broker ∅ literal .empty publishedTo rfl hserved
    (by rw [hacc]; decide)
  refine ⟨by decide +kernel,?_⟩
  obtain ⟨out,heard,replies,hout,houtbox,-,-,hreply,hsilent⟩ := hrefines.2.1 (publishedTo.take 4)
    (.message 0 (received (Message.wire (.publish ⟨[113],[],1,[7]⟩)))) [] rfl
  have hsent : ((ServerLog.start ∅).run literal publishedTo).server.outbox =
      ((ServerLog.start ∅).run literal (publishedTo.take 4)).server.outbox ++
        [(1,.publish ⟨[113],[],0,[7]⟩),(0,.ok ⟨1⟩)] := by decide +kernel
  have hall : out ++ replies = [(1,.publish ⟨[113],[],0,[7]⟩),(0,.ok ⟨1⟩)] := by
    rw [List.append_assoc] at houtbox
    exact List.append_cancel_left (houtbox.symm.trans hsent)
  have hmem : (1,.publish ⟨[113],[],0,[7]⟩) ∈ out := by
    rcases List.mem_append.mp (hall ▸ List.mem_cons_self) with hmem | hmem
    · exact hmem
    · have hnone := ServerLog.replies_unpublished hreply hsilent
      rw [List.filterMap_eq_nil_iff] at hnone
      cases hnone _ hmem
  have hop : ((ServerLog.start ∅).run literal (publishedTo.take 4)).operation
      (.message 0 (received (Message.wire (.publish ⟨[113],[],1,[7]⟩)))) =
        some (.publish ⟨[113],[]⟩ [7] 0) := by decide +kernel
  obtain ⟨call,hcall,hsent⟩ := (hout.sent ⟨1,1⟩ (by decide +kernel) ⟨[113],[]⟩ [7]).mp ⟨0,hmem⟩
  simp only [ServerLog.asks,hop,Option.map_some,Option.toList_some,List.mem_singleton] at hcall
  subst hcall
  exact hsent

end Dqueue
