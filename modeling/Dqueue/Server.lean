import Dqueue.NodeRuns

/-!
The server: its user base and its node, the connections it has accepted, and
the handlers that run when a message has been read from one of them.
-/

set_option autoImplicit false

namespace Dqueue
open Std Effects RawMem Queries

theorem ok_sendable (n : UInt64) : Message.Sendable (.ok ⟨n⟩) := by
  show 6+8 < 2^31
  omega

theorem loginConfirm_sendable (id : Id) : Message.Sendable (.loginConfirm ⟨id⟩) := ok_sendable id

/-- A connection object. The socket stands for its `_async_connection`. -/
structure ClientConnection where
  id : Id
  socket : Nat
  deriving DecidableEq, Repr

/-- `closed` has the sockets whose connection object has reset its
`_async_connection`; `outbox` the messages handed to `AsyncIO::send`, `consumed`
the calls of the server's own consumers, and `executed` the requests whose
operation on the node has returned. -/
structure Server where
  users : UserBase
  node : Node
  cache : ReCache
  nextMessageId : UInt64
  nextId : Int32
  connections : List ClientConnection
  closed : List Nat
  outbox : List (Nat × Message)
  consumed : List Call
  executed : List (ClientConnection × Message)

abbrev ServerM := EStateM Failure Server

namespace Server

/-- The constructor; the cache of expressions belongs to the process. -/
def start (cache : ReCache) : Server where
  users := UserBase.create.append ⟨[115,101,114,118,101,114],ServerID⟩
  node := Node.empty
  cache := cache
  nextMessageId := 0
  nextId := 0
  connections := []
  closed := []
  outbox := []
  consumed := []
  executed := []

def onNode {α : Type} (x : EStateM Exception Node α) : ServerM α :=
  (on node (fun n s => { s with node := n }) x).adaptExcept .thrown

def onCache {α : Type} (x : EStateM Exception ReCache α) : ServerM α :=
  (on cache (fun c s => { s with cache := c }) x).adaptExcept .thrown

/-- `sendTo(ClientConnection_Ptr, ...)`, with the frame that its callers make. -/
def sendTo (i : ClientConnection) (m : Message) : ServerM Unit := do
  let _ ← attempt m.toNetworkMessage
  let s ← get
  if i.socket ∈ s.closed then
    throw .nullDereference
  set { s with outbox := s.outbox ++ [(i.socket,m)] }

/-- `sendTo(Id, ...)`: the first connection with that id. -/
def sendToId (id : Id) (m : Message) : ServerM Unit := do
  let _ ← attempt m.toNetworkMessage
  let s ← get
  match s.connections.find? (fun c => c.id == id) with
  | some c => sendTo c m
  | none => throw (.thrown ⟨s!"server: unknow client #{id}"⟩)

def sendOk (i : ClientConnection) (messageId : UInt64) : ServerM Unit := sendTo i (.ok ⟨messageId⟩)

def onSendToClient (info : PublishParams) (rd : Bytes) (id : Id) : ServerM Unit := do
  if id == ServerID then
    modify (fun s => { s with consumed := s.consumed ++ [(info,rd,id)] })
  else
    let s ← get
    set { s with nextMessageId := s.nextMessageId+1 }
    sendToId id (.publish ⟨info.queueName,info.tag,s.nextMessageId,rd⟩)

variable (regex : RegexCompiler)

def nodePublish (pubParam : PublishParams) (rd : Bytes) : ServerM Unit := do
  let s ← get
  let (n,localCpy) := s.node.localCopy pubParam.queueName
  set { s with node := n }
  Node.deliver (fun sp tag => onCache (sp.checkTag regex tag)) onSendToClient pubParam rd localCpy

def acknowledge (i : ClientConnection) (m : Message) (messageId : UInt64) : ServerM Unit := do
  modify (fun s => { s with executed := s.executed ++ [(i,m)] })
  sendOk i messageId

def handle (i : ClientConnection) : Message → ServerM Unit
  | .createQueue cq => do
    let s ← get
    onNode (Node.createQueue s.users ⟨cq.name⟩ i.id)
    acknowledge i (.createQueue cq) cq.msgId
  | .subscribe cs => do
    let s ← get
    onNode (Node.changeSubscription s.users .Subscribe ⟨cs.qname,cs.tag⟩ i.id)
    acknowledge i (.subscribe cs) cs.msgId
  | .unsubscribe cs => do
    let s ← get
    onNode (Node.changeSubscription s.users .Unsubscribe ⟨cs.qname,cs.tag⟩ i.id)
    acknowledge i (.unsubscribe cs) cs.msgId
  | .publish cs => do
    nodePublish regex ⟨cs.qname,cs.tag⟩ cs.data
    acknowledge i (.publish cs) cs.messageId
  | .login lg => do
    modify (fun s => { s with users := s.users.setLogin i.id lg.login })
    sendTo i (.loginConfirm ⟨i.id⟩)
  | .ok _ => throw (.thrown ⟨s!"unknow message kind: {MessageKinds.OK.toNat}"⟩)
  | .loginConfirm _ => throw (.thrown ⟨s!"unknow message kind: {MessageKinds.LOGIN_CONFIRM.toNat}"⟩)

def onNewMessage (i : ClientConnection) (d : NetworkMessage) : ServerM Unit := do
  let m ← Message.ofFrame [.CREATE_QUEUE,.SUBSCRIBE,.UNSUBSCRIBE,.PUBLISH,.LOGIN]
    "unknow message kind: " d
  handle regex i m

def onNewConnection (i : ClientConnection) : ServerM Unit :=
  modify (fun s => { s with users := s.users.append ⟨[110,111,116,32,115,101,116],i.id⟩ })

/-- `(Id)_next_id`: the sign of the counter is extended. -/
def nextClientId (s : Server) : Id := s.nextId.toInt64.toUInt64

def handleAccept (socket : Nat) : ServerM Unit := do
  let s ← get
  let new_client : ClientConnection := ⟨s.nextClientId,socket⟩
  set { s with nextId := s.nextId+1 }
  onNewConnection new_client
  modify (fun s => { s with connections := s.connections ++ [new_client] })

def onDisconnect (i : ClientConnection) : ServerM Unit := do
  let s ← get
  match s.users.erase i.id with
  | .error e => throw (.thrown e)
  | .ok users => set { s with users := users, node := s.node.eraseClient i.id }

def eraseClientDescription (client : ClientConnection) : ServerM Unit := do
  onDisconnect client
  modify (fun s => { s with connections := s.connections.eraseP (fun c => c.id == client.id) })

def close (i : ClientConnection) : ServerM Unit := do
  let s ← get
  if i.socket ∉ s.closed then
    set { s with closed := i.socket :: s.closed }
    eraseClientDescription i

end Server

inductive ServerCall where
  | accept (socket : Nat)
  | message (i : ClientConnection) (m : Message)
  | close (i : ClientConnection)
  | createQueue (settings : QueueSettings)
  | subscribe (settings : SubscriptionParams)
  | unsubscribe (qname : Str)
  | publish (settings : PublishParams) (data : Bytes)
  deriving DecidableEq, Repr

namespace Server

variable (regex : RegexCompiler)

/-- `Server::unsubscribe` calls the node with Subscribe, as the source does. -/
def exec : ServerCall → ServerM Unit
  | .accept socket => handleAccept socket
  | .message i m => handle regex i m
  | .close i => close i
  | .createQueue settings => do
    let s ← get
    onNode (Node.createQueue s.users settings ServerID)
  | .subscribe settings => do
    let s ← get
    onNode (Node.changeSubscription s.users .Subscribe settings ServerID)
  | .unsubscribe qname => do
    let s ← get
    onNode (Node.changeSubscription s.users .Subscribe ⟨qname,[]⟩ ServerID)
  | .publish settings data => nodePublish regex settings data

def step (s : Server) (call : ServerCall) : Server := final (exec regex call s)

variable {regex}

theorem onNode_run (x : EStateM Exception Node Unit) (s : Server) :
    onNode x s = match x s.node with
      | .ok a n => .ok a { s with node := n }
      | .error e n => .error (.thrown e) { s with node := n } := by
  simp only [onNode,EStateM.adaptExcept,on]
  cases x s.node <;> rfl

theorem onCache_run {α : Type} (x : EStateM Exception ReCache α) (s : Server) :
    onCache x s = match x s.cache with
      | .ok a c => .ok a { s with cache := c }
      | .error e c => .error (.thrown e) { s with cache := c } := by
  simp only [onCache,EStateM.adaptExcept,on]
  cases x s.cache <;> rfl

theorem sendTo_run (i : ClientConnection) (m : Message) (s : Server) :
    sendTo i m s = match m.toNetworkMessage with
      | .error f => .error (.fault f) s
      | .ok _ =>
        if i.socket ∈ s.closed then .error .nullDereference s
        else .ok () { s with outbox := s.outbox ++ [(i.socket,m)] } := by
  simp only [sendTo,bind_apply]
  cases m.toNetworkMessage with
  | error f => rfl
  | ok nd => by_cases hc : i.socket ∈ s.closed <;> simp [attempt,hc]

theorem sendTo_final (i : ClientConnection) (m : Message) (s : Server) :
    final (sendTo i m s) = s ∨
      (m.Sendable ∧ final (sendTo i m s) = { s with outbox := s.outbox ++ [(i.socket,m)] }) := by
  rw [sendTo_run]
  cases h : m.toNetworkMessage with
  | error f => exact .inl rfl
  | ok nd =>
    by_cases hc : i.socket ∈ s.closed
    · simp [hc]
    · exact .inr ⟨Message.sendable_of_ok h,by simp [hc]⟩

theorem sendToId_final (id : Id) (m : Message) (s : Server) :
    final (sendToId id m s) = s ∨ ∃ socket,
      m.Sendable ∧ final (sendToId id m s) = { s with outbox := s.outbox ++ [(socket,m)] } := by
  simp only [sendToId,bind_apply]
  cases m.toNetworkMessage with
  | error f => exact .inl rfl
  | ok nd =>
    cases hc : s.connections.find? (fun c => c.id == id) with
    | none => simp [attempt,hc]
    | some c =>
      simp only [attempt,pure_apply,get_apply,hc]
      exact (sendTo_final c m s).imp_right fun h => ⟨c.socket,h⟩

/-- Deliveries: publish frames go out, and nothing else that others can see
happens. -/
structure Delivers (s s' : Server) : Prop where
  users : s'.users = s.users
  node : s'.node = s.node
  nextId : s'.nextId = s.nextId
  connections : s'.connections = s.connections
  closed : s'.closed = s.closed
  executed : s'.executed = s.executed
  outbox : ∃ out, s'.outbox = s.outbox ++ out ∧ ∀ x ∈ out, x.2.Sendable ∧ ∃ p, x.2 = .publish p

theorem Delivers.refl (s : Server) : Delivers s s :=
  ⟨rfl,rfl,rfl,rfl,rfl,rfl,[],by simp,by simp⟩

theorem Delivers.trans (s₁ s₂ s₃ : Server) (h : Delivers s₁ s₂) (h' : Delivers s₂ s₃) :
    Delivers s₁ s₃ := by
  obtain ⟨out,ho,hout⟩ := h.outbox
  obtain ⟨out',ho',hout'⟩ := h'.outbox
  refine ⟨h'.users.trans h.users,h'.node.trans h.node,h'.nextId.trans h.nextId,
    h'.connections.trans h.connections,h'.closed.trans h.closed,h'.executed.trans h.executed,
    out ++ out',by simp [ho,ho'],fun x hx => ?_⟩
  rcases List.mem_append.mp hx with hx | hx
  · exact hout x hx
  · exact hout' x hx

theorem onSendToClient_delivers (info : PublishParams) (rd : Bytes) (id : Id) :
    Within Delivers (onSendToClient info rd id) := by
  intro s
  unfold onSendToClient
  split
  · exact ⟨rfl,rfl,rfl,rfl,rfl,rfl,[],by simp,by simp⟩
  · simp only [bind_apply,get_apply,set_apply]
    rcases sendToId_final id (.publish ⟨info.queueName,info.tag,s.nextMessageId,rd⟩)
      { s with nextMessageId := s.nextMessageId+1 } with h | ⟨socket,hs,h⟩
    · rw [h]
      exact ⟨rfl,rfl,rfl,rfl,rfl,rfl,[],by simp,by simp⟩
    · rw [h]
      exact ⟨rfl,rfl,rfl,rfl,rfl,rfl,[_],rfl,by simpa using hs⟩

theorem deliver_delivers (p : PublishParams) (rd : Bytes) (ls : List (Id × QueueListener)) :
    Within Delivers (Node.deliver (fun sp tag => onCache (sp.checkTag regex tag)) onSendToClient
      p rd ls) := by
  refine Node.deliver_within Delivers.refl Delivers.trans (fun sp tag s => ?_)
    (onSendToClient_delivers p rd) ls
  rw [onCache_run]
  cases sp.checkTag regex tag s.cache with
  | ok b c => exact ⟨rfl,rfl,rfl,rfl,rfl,rfl,[],by simp,by simp⟩
  | error e c => exact ⟨rfl,rfl,rfl,rfl,rfl,rfl,[],by simp,by simp⟩

theorem nodePublish_delivers (regex : RegexCompiler) (p : PublishParams) (rd : Bytes) (s : Server) :
    Delivers { s with node := (s.node.localCopy p.queueName).1 }
      (final (nodePublish regex p rd s)) :=
  deliver_delivers p rd (s.node.localCopy p.queueName).2 _

theorem acknowledge_final (i : ClientConnection) (m : Message) (n : UInt64) (s : Server) :
    ∃ oks, final (acknowledge i m n s) =
        { s with executed := s.executed ++ [(i,m)], outbox := s.outbox ++ oks } ∧
      ∀ x ∈ oks, x = (i.socket,.ok ⟨n⟩) ∧ x.2.Sendable := by
  simp only [acknowledge,sendOk,bind_apply,modify_apply]
  rcases sendTo_final i (.ok ⟨n⟩) { s with executed := s.executed ++ [(i,m)] } with h | ⟨hs,h⟩
  · exact ⟨[],by rw [h]; simp,by simp⟩
  · exact ⟨[(i.socket,.ok ⟨n⟩)],h,by simpa using hs⟩

theorem acknowledge_run {i : ClientConnection} {s : Server} (hc : i.socket ∉ s.closed) (m : Message)
    (n : UInt64) : acknowledge i m n s = .ok () { s with
      executed := s.executed ++ [(i,m)]
      outbox := s.outbox ++ [(i.socket,.ok ⟨n⟩)] } := by
  obtain ⟨nd,hnd,-⟩ := Message.toNetworkMessage_ok _ (ok_sendable n)
  simp only [acknowledge,sendOk,bind_apply,modify_apply,sendTo_run,hnd]
  rw [if_neg hc]

theorem close_final (i : ClientConnection) (s : Server) :
    final (close i s) =
      if i.socket ∈ s.closed then s
      else match s.users.erase i.id with
        | .error _ => { s with closed := i.socket :: s.closed }
        | .ok users =>
          { s with
            users := users
            node := s.node.eraseClient i.id
            closed := i.socket :: s.closed
            connections := s.connections.eraseP (fun c => c.id == i.id) } := by
  by_cases hc : i.socket ∈ s.closed
  · simp [close,hc]
  · simp only [close,bind_apply,get_apply,hc,not_false_eq_true,if_true,set_apply,
      eraseClientDescription,onDisconnect,if_false]
    cases s.users.erase i.id with
    | error e => rfl
    | ok users => rfl

/-- What a call does to the record of executed requests and to the outbox:
every OK that goes out answers an executed request of its connection. -/
structure Replies (done : List (ClientConnection × Message)) (s s' : Server) : Prop where
  kept : ∀ x ∈ s.executed, x ∈ s'.executed
  fresh : ∀ x ∈ s'.executed, x ∈ s.executed ∨ (x ∈ done ∧ x.2.requestId ≠ none)
  outbox : ∃ out, s'.outbox = s.outbox ++ out ∧ ∀ x ∈ out, x.2.Sendable ∧
    ∀ n, x.2 = .ok ⟨n⟩ → ∃ i m, (i,m) ∈ s'.executed ∧ i.socket = x.1 ∧ m.requestId = some n

/-- A rule for `handle`: what each of its statements stays within, it does. Only
a LOGIN needs what follows `hack`. -/
theorem handle_within_request {R : Server → Server → Prop} (hr : ∀ s, R s s)
    (ht : ∀ s₁ s₂ s₃, R s₁ s₂ → R s₂ s₃ → R s₁ s₃) {i : ClientConnection} {m : Message}
    (hnode : ∀ x : EStateM Exception Node Unit, Within R (onNode x))
    (hpub : ∀ p rd, Within R (nodePublish regex p rd))
    (hack : ∀ n, m.requestId = some n → Within R (acknowledge i m n))
    (hm : ∀ lg, m ≠ .login lg) : Within R (handle regex i m) := by
  have hop : ∀ (x : UserBase → EStateM Exception Node Unit) (n : UInt64), m.requestId = some n →
      Within R (do
        let s ← get
        onNode (x s.users)
        acknowledge i m n) := fun x n hn =>
    .bind ht (.get hr) fun s => .bind ht (hnode _) fun _ => hack n hn
  cases m with
  | createQueue cq => exact hop (fun users => Node.createQueue users ⟨cq.name⟩ i.id) _ rfl
  | subscribe cs =>
    exact hop (fun users => Node.changeSubscription users .Subscribe ⟨cs.qname,cs.tag⟩ i.id) _ rfl
  | unsubscribe cs =>
    exact hop (fun users => Node.changeSubscription users .Unsubscribe ⟨cs.qname,cs.tag⟩ i.id) _ rfl
  | publish cs => exact .bind ht (hpub _ _) fun _ => hack _ rfl
  | login lg => exact absurd rfl (hm lg)
  | ok q => exact .throw hr _
  | loginConfirm q => exact .throw hr _

theorem handle_within {R : Server → Server → Prop} (hr : ∀ s, R s s)
    (ht : ∀ s₁ s₂ s₃, R s₁ s₂ → R s₂ s₃ → R s₁ s₃) {i : ClientConnection} {m : Message}
    (hnode : ∀ x : EStateM Exception Node Unit, Within R (onNode x))
    (hpub : ∀ p rd, Within R (nodePublish regex p rd))
    (hack : ∀ n, m.requestId = some n → Within R (acknowledge i m n))
    (hset : ∀ login s, R s { s with users := s.users.setLogin i.id login })
    (hlogin : Within R (sendTo i (.loginConfirm ⟨i.id⟩))) : Within R (handle regex i m) := by
  by_cases hm : ∃ lg, m = .login lg
  · obtain ⟨lg,rfl⟩ := hm
    exact .bind ht (.modify (hset lg.login)) fun _ => hlogin
  · exact handle_within_request hr ht hnode hpub hack fun lg he => hm ⟨lg,he⟩

section Replies

variable {done : List (ClientConnection × Message)}

theorem Replies.refl (s : Server) : Replies done s s :=
  ⟨fun _ h => h,fun _ h => .inl h,[],by simp,by simp⟩

theorem Replies.trans (s₁ s₂ s₃ : Server) (h : Replies done s₁ s₂) (h' : Replies done s₂ s₃) :
    Replies done s₁ s₃ := by
  obtain ⟨out,ho,hout⟩ := h.outbox
  obtain ⟨out',ho',hout'⟩ := h'.outbox
  refine ⟨fun x hx => h'.kept x (h.kept x hx),fun x hx => ?_,out ++ out',by simp [ho,ho'],?_⟩
  · rcases h'.fresh x hx with hx | hx
    · exact h.fresh x hx
    · exact .inr hx
  · intro x hx
    rcases List.mem_append.mp hx with hx | hx
    · refine ⟨(hout x hx).1,fun n hn => ?_⟩
      obtain ⟨i,m,hm,hi,hid⟩ := (hout x hx).2 n hn
      exact ⟨i,m,h'.kept _ hm,hi,hid⟩
    · exact hout' x hx

theorem Replies.of_eq {s s' : Server} (he : s'.executed = s.executed)
    (ho : s'.outbox = s.outbox) : Replies done s s' :=
  ⟨fun x hx => by rwa [he],fun x hx => .inl (by rwa [he] at hx),[],by simp [ho],by simp⟩

theorem Replies.of_delivers {s s' : Server} (h : Delivers s s') : Replies done s s' := by
  obtain ⟨out,ho,hout⟩ := h.outbox
  refine ⟨fun x hx => by rwa [h.executed],fun x hx => .inl (by rwa [h.executed] at hx),out,ho,?_⟩
  intro x hx
  obtain ⟨hs,p,hp⟩ := hout x hx
  exact ⟨hs,fun n hn => by rw [hp] at hn; cases hn⟩

theorem onNode_replies (x : EStateM Exception Node Unit) : Within (Replies done) (onNode x) := by
  intro s
  rw [onNode_run]
  cases x s.node with
  | ok a n => exact .of_eq rfl rfl
  | error e n => exact .of_eq rfl rfl

theorem nodePublish_replies (p : PublishParams) (rd : Bytes) :
    Within (Replies done) (nodePublish regex p rd) := by
  intro s
  have hcopy : Replies done s { s with node := (s.node.localCopy p.queueName).1 } := .of_eq rfl rfl
  exact hcopy.trans _ _ _ (.of_delivers (nodePublish_delivers regex p rd s))

theorem acknowledge_replies {i : ClientConnection} {m : Message} {n : UInt64}
    (h : m.requestId = some n) : Within (Replies [(i,m)]) (acknowledge i m n) := by
  intro s
  obtain ⟨oks,hf,hoks⟩ := acknowledge_final i m n s
  rw [hf]
  refine ⟨fun x hx => by simp [hx],fun x hx => ?_,oks,rfl,fun x hx => ?_⟩
  · rcases List.mem_append.mp hx with hx | hx
    · exact .inl hx
    · refine .inr ⟨hx,?_⟩
      rw [List.mem_singleton.mp hx,h]
      simp
  obtain ⟨rfl,hs⟩ := hoks x hx
  refine ⟨hs,fun n' hn => ⟨i,m,by simp,rfl,?_⟩⟩
  cases hn
  exact h

theorem handle_replies (i : ClientConnection) (m : Message) :
    Within (Replies [(i,m)]) (handle regex i m) := by
  refine handle_within Replies.refl Replies.trans onNode_replies nodePublish_replies
    (fun n => acknowledge_replies) (fun login s => .of_eq rfl rfl) fun s => ?_
  rcases sendTo_final i (.loginConfirm ⟨i.id⟩) s with h | ⟨hs,h⟩
  · rw [h]
    exact .refl s
  · rw [h]
    refine ⟨fun x hx => hx,fun x hx => .inl hx,[_],rfl,fun x hx => ?_⟩
    obtain rfl := List.mem_singleton.mp hx
    exact ⟨hs,by simp⟩

theorem onNewMessage_replies {i : ClientConnection} {m : Message} {d : NetworkMessage}
    (h : m.Sendable) (hf : d.Frame m.kind.toNat m.body) :
    Within (Replies [(i,m)]) (onNewMessage regex i d) := by
  intro s
  rw [onNewMessage,bind_apply,Message.ofFrame_run h hf]
  split
  · rename_i m' s' he
    split at he
    · cases he
      exact handle_replies i m s
    · cases he
  · rename_i e s' he
    split at he
    · cases he
    · cases he
      exact .refl s

variable (regex) in
/-- The same for bytes that need not come from a client of this library. -/
theorem onNewMessage_replies_any (i : ClientConnection) (d : NetworkMessage) (s : Server) :
    ∃ done, (∀ x ∈ done, x.1 = i) ∧ Replies done s (final (onNewMessage regex i d s)) := by
  rw [onNewMessage,bind_apply]
  rcases Message.ofFrame_state [.CREATE_QUEUE,.SUBSCRIBE,.UNSUBSCRIBE,.PUBLISH,.LOGIN]
    "unknow message kind: " d s with ⟨m,hm⟩ | ⟨e,he⟩
  · rw [hm]
    exact ⟨[(i,m)],by simp,handle_replies i m s⟩
  · rw [he]
    exact ⟨[],by simp,.refl s⟩

theorem step_replies (s : Server) {call : ServerCall} (hc : ∀ i m, call ≠ .message i m) :
    Replies [] s (s.step regex call) := by
  cases call with
  | accept socket => exact .of_eq rfl rfl
  | message i m => exact absurd rfl (hc i m)
  | close i =>
    rw [step,exec,close_final]
    split
    · exact .refl s
    · cases s.users.erase i.id with
      | error e => exact .of_eq rfl rfl
      | ok users => exact .of_eq rfl rfl
  | createQueue settings => exact onNode_replies _ s
  | subscribe settings => exact onNode_replies _ s
  | unsubscribe qname => exact onNode_replies _ s
  | publish settings data => exact nodePublish_replies settings data s

end Replies

end Server

end Dqueue
