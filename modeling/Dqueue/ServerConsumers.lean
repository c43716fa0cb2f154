import Dqueue.TagFiltering

/-!
The server as a client of its own queues. Its consumers run inside the delivery
loop, and what they call of the server's interface runs there too.
-/

set_option autoImplicit false

namespace Dqueue
open Std Effects RawMem AsyncIO Queries

/-- A call that a consumer of the server makes while it consumes a message. On a
message that it sets off itself, the consumer with id `v` makes the calls `react v 0`,
... `react v (count v-1)`. A `subscribe` has no handler: `addHandler` would wait for
the lock that `callConsumer` holds. -/
inductive ConsumerCall where
  | publish (settings : PublishParams) (data : Bytes) (count : Id → Nat)
      (react : Id → Nat → ConsumerCall)
  | createQueue (settings : QueueSettings)
  | subscribe (settings : SubscriptionParams)
  | unsubscribe (qname : Str)

/-- Where a call stands: the consumers and the numbers of their calls that lead to it. -/
abbrev Path := List (Id × Nat)

/-- A server with its consumers; `sent` has the calls of `publish` whose message was
sent to a client. The expressions are those of the server's cache. -/
structure QueueServer where
  log : ServerLog
  consumers : Consumers
  sent : List (Path × Id)

abbrev QueueServerM := EStateM Failure QueueServer

namespace QueueServer

def start (cache : ReCache) : QueueServer := ⟨ServerLog.start cache,Consumers.start cache,[]⟩

def onLog {α : Type} (x : EStateM Failure ServerLog α) : QueueServerM α :=
  on log (fun l w => { w with log := l }) x

def onServer {α : Type} (x : ServerM α) : QueueServerM α :=
  on (fun w => w.log.server) (fun s w => { w with log := { w.log with server := s } }) x

def onConsumers {α : Type} (x : EStateM Failure Consumers α) : QueueServerM α :=
  on consumers (fun c w => { w with consumers := c }) x

section Publish

variable (regex : RegexCompiler) (path : Path) (react : Id → QueueServerM Unit)

def checkTag (settings : SubscriptionParams) (tag_ : Str) : QueueServerM Bool :=
  onServer (Server.onCache (settings.checkTag regex tag_))

/-- The loop of `callConsumer`; `react v` is what the consumer with id `v` does when it
has got the message. -/
def callEach (info : PublishParams) (d : Bytes) (id : Id) : List Id → QueueServerM Unit
  | [] => pure ()
  | v :: vs => do
    let w ← get
    let es := w.consumers.eventHandlers[v]?.getD (none,⟨[],[]⟩)
    set { w with consumers := { w.consumers with
      eventHandlers := w.consumers.eventHandlers.insert v es } }
    let isTarget ← checkTag regex es.2 info.tag
    if isTarget then
      match es.1 with
      | none => throw .nullDereference
      | some handler =>
        modify (fun w => { w with consumers := { w.consumers with
          consumed := w.consumers.consumed ++ [(handler,info,d,id)] } })
        react v
    callEach info d id vs

def callConsumer (info : PublishParams) (d : Bytes) (id : Id) : QueueServerM Unit := do
  let w ← get
  callEach regex react info d id (w.consumers.handlers info.queueName).toList

def onSendToClient (info : PublishParams) (rd : Bytes) (id : Id) : QueueServerM Unit := do
  if id == ServerID then
    callConsumer regex react info rd id
  else
    onServer (Server.onSendToClient info rd id)
    modify (fun w => { w with sent := w.sent ++ [(path,id)] })

def nodePublish (pubParam : PublishParams) (rd : Bytes) : QueueServerM Unit := do
  let w ← get
  let (n,localCpy) := w.log.server.node.localCopy pubParam.queueName
  set { w with log := { w.log with server := { w.log.server with node := n } } }
  Node.deliver (checkTag regex) (onSendToClient regex path react) pubParam rd localCpy

end Publish

section Exec

variable (regex : RegexCompiler)

def call : ConsumerCall → Path → QueueServerM Unit
  | .publish settings data count react, path =>
    nodePublish regex path (fun v => times (count v) fun j => call (react v j) (path ++ [(v,j)]))
      settings data
  | .createQueue settings, _ => onServer (Server.exec regex (.createQueue settings))
  | .subscribe settings, _ => onServer (Server.exec regex (.subscribe settings))
  | .unsubscribe qname, _ => onServer (Server.exec regex (.unsubscribe qname))

def reactions (count : Id → Nat) (react : Id → Nat → ConsumerCall) (v : Id) : QueueServerM Unit :=
  times (count v) fun j => call regex (react v j) [(v,j)]

def handle (react : Id → QueueServerM Unit) (i : ClientConnection) : Message → QueueServerM Unit
  | .publish cs => do
    nodePublish regex [] react ⟨cs.qname,cs.tag⟩ cs.data
    onServer (Server.acknowledge i (.publish cs) cs.messageId)
  | m => onServer (Server.handle regex i m)

def onNewMessage (react : Id → QueueServerM Unit) (i : ClientConnection) (d : NetworkMessage) :
    QueueServerM Unit := do
  let m ← Message.ofFrame [.CREATE_QUEUE,.SUBSCRIBE,.UNSUBSCRIBE,.PUBLISH,.LOGIN]
    "unknow message kind: " d
  handle regex react i m

end Exec

end QueueServer

/-- What runs on the server: completions on its sockets, and calls of its own
interface from outside of its consumers. -/
inductive QueueServerEvent where
  | accept
  | message (k : Nat) (d : NetworkMessage) (count : Id → Nat) (react : Id → Nat → ConsumerCall)
  | error (k : Nat)
  | createQueue (settings : QueueSettings)
  | subscribe (settings : SubscriptionParams) (handler : Option EventConsumer)
  | unsubscribe (qname : Str)
  | publish (settings : PublishParams) (data : Bytes) (count : Id → Nat)
      (react : Id → Nat → ConsumerCall)
  | stopServer

namespace QueueServer

section Exec

variable (regex : RegexCompiler)

def subscribe (settings : SubscriptionParams) (handler : Option EventConsumer) :
    QueueServerM Unit := do
  onConsumers (Consumers.addHandler settings handler)
  onServer (Server.exec regex (.subscribe settings))

def exec : QueueServerEvent → QueueServerM Unit
  | .accept => onLog ServerLog.handleAccept
  | .message k d count react => do
    let w ← get
    match w.log.accepted[k]? with
    | none => pure ()
    | some i => onNewMessage regex (reactions regex count react) i d
  | .error k => onLog (ServerLog.exec regex (.error k))
  | .createQueue settings => call regex (.createQueue settings) []
  | .subscribe settings handler => subscribe regex settings handler
  | .unsubscribe qname => call regex (.unsubscribe qname) []
  | .publish settings data count react => call regex (.publish settings data count react) []
  | .stopServer => onLog ServerLog.stopServer

def step (w : QueueServer) (e : QueueServerEvent) : QueueServer := final (exec regex e w)

def run (w : QueueServer) (events : List QueueServerEvent) : QueueServer :=
  events.foldl (step regex) w

end Exec

end QueueServer

inductive ServerCall.Own : ServerCall → Prop where
  | createQueue (settings : QueueSettings) : Own (.createQueue settings)
  | subscribe (settings : SubscriptionParams) : Own (.subscribe settings)
  | unsubscribe (qname : Str) : Own (.unsubscribe qname)

theorem Server.own_final (regex : RegexCompiler) {call : ServerCall} (own : call.Own)
    (s : Server) : ∃ n, final (Server.exec regex call s) = { s with node := n } := by
  have hnode : ∀ x : EStateM Exception Node Unit, ∃ n,
      final (Server.onNode x s) = { s with node := n } := by
    intro x
    rw [Server.onNode_run]
    cases x s.node with
    | ok a n => exact ⟨n,rfl⟩
    | error e n => exact ⟨n,rfl⟩
  cases own with
  | createQueue settings => exact hnode _
  | subscribe settings => exact hnode _
  | unsubscribe qname => exact hnode _

namespace QueueServer

section Within

variable {regex : RegexCompiler} {R : QueueServer → QueueServer → Prop}

theorem onServer_final {α : Type} (x : ServerM α) (w : QueueServer) :
    final (onServer x w) = { w with log := { w.log with server := final (x w.log.server) } } := by
  unfold onServer on
  cases x w.log.server <;> rfl

theorem onServer_run {α : Type} (x : ServerM α) (w : QueueServer) :
    onServer x w = match x w.log.server with
      | .ok a s => .ok a { w with log := { w.log with server := s } }
      | .error f s => .error f { w with log := { w.log with server := s } } := by
  unfold onServer on
  cases x w.log.server <;> rfl

theorem onLog_final (x : ServerLogM Unit) (w : QueueServer) :
    final (onLog x w) = { w with log := final (x w.log) } := by
  unfold onLog on
  cases x w.log <;> rfl

theorem checkTag_final (regex : RegexCompiler) (sp : SubscriptionParams) (tag_ : Str)
    (w : QueueServer) :
    ∃ cache, final (checkTag regex sp tag_ w) =
      { w with log := { w.log with server := { w.log.server with cache := cache } } } := by
  rw [checkTag,onServer_final,Server.onCache_run]
  cases sp.checkTag regex tag_ w.log.server.cache with
  | ok b cache => exact ⟨cache,rfl⟩
  | error e cache => exact ⟨cache,rfl⟩

theorem callEach_within (hr : ∀ w, R w w) (ht : ∀ w₁ w₂ w₃, R w₁ w₂ → R w₂ w₃ → R w₁ w₃)
    (hcheck : ∀ sp tag, Within R (checkTag regex sp tag)) {vs : List Id}
    (hentry : ∀ v ∈ vs, ∀ w : QueueServer, R w { w with consumers := { w.consumers with
      eventHandlers := w.consumers.eventHandlers.insert v
        (w.consumers.eventHandlers[v]?.getD (none,⟨[],[]⟩)) } })
    {info : PublishParams} {d : Bytes} {id : Id}
    (hconsume : ∀ (w : QueueServer) h, R w { w with consumers := { w.consumers with
      consumed := w.consumers.consumed ++ [(h,info,d,id)] } })
    {react : Id → QueueServerM Unit} (hreact : ∀ v, Within R (react v)) :
    Within R (callEach regex react info d id vs) := by
  induction vs with
  | nil => exact .pure hr ()
  | cons v vs ih =>
    have hrest := ih fun u hu => hentry u (by simp [hu])
    intro w
    refine ht _ _ _ (hentry v (by simp) w) (Within.bind ht (hcheck _ _) (fun isTarget => ?_) _)
    cases isTarget with
    | false => exact hrest
    | true =>
      simp only [if_true]
      cases (w.consumers.eventHandlers[v]?.getD (none,⟨[],[]⟩)).1 with
      | none => exact .bind ht (.throw hr _) fun _ => hrest
      | some h =>
        exact .bind ht (.modify fun w => hconsume w h) fun _ => .bind ht (hreact v) fun _ => hrest

variable (regex R) in
/-- A relation that every statement under a call of a consumer stays within. -/
structure Steps : Prop where
  refl : ∀ w, R w w
  trans : ∀ w₁ w₂ w₃, R w₁ w₂ → R w₂ w₃ → R w₁ w₃
  copy : ∀ (w : QueueServer) q, R w { w with log := { w.log with
    server := { w.log.server with node := (w.log.server.node.localCopy q).1 } } }
  check : ∀ sp tag, Within R (checkTag regex sp tag)
  send : ∀ path p rd id, id ≠ ServerID → Within R (do
    onServer (Server.onSendToClient p rd id)
    modify (fun w : QueueServer => { w with sent := w.sent ++ [(path,id)] }))
  consumers : ∀ react : Id → QueueServerM Unit, (∀ v, Within R (react v)) → ∀ info d id,
    Within R (callConsumer regex react info d id)
  node : ∀ call : ServerCall, call.Own → Within R (onServer (Server.exec regex call))

theorem Steps.nodePublish (h : Steps regex R) (path : Path) {react : Id → QueueServerM Unit}
    (hreact : ∀ v, Within R (react v)) (p : PublishParams) (rd : Bytes) :
    Within R (nodePublish regex path react p rd) := by
  intro w
  refine h.trans _ _ _ (h.copy w p.queueName) (Node.deliver_within h.refl h.trans h.check
    (fun id => ?_) _ _)
  unfold onSendToClient
  split
  · exact h.consumers react hreact p rd id
  · rename_i hid
    exact h.send path p rd id (by simpa using hid)

theorem Steps.call (h : Steps regex R) (c : ConsumerCall) (path : Path) :
    Within R (call regex c path) := by
  induction c generalizing path with
  | publish settings data count react ih =>
    exact h.nodePublish path (fun v => .times h.refl h.trans (fun j => ih v j _) _) settings data
  | createQueue settings => exact h.node _ (.createQueue settings)
  | subscribe settings => exact h.node _ (.subscribe settings)
  | unsubscribe qname => exact h.node _ (.unsubscribe qname)

theorem Steps.reactions (h : Steps regex R) (count : Id → Nat)
    (react : Id → Nat → ConsumerCall) (v : Id) : Within R (reactions regex count react v) :=
  .times h.refl h.trans (fun _ => h.call _ _) _

theorem Steps.onNewMessage (h : Steps regex R)
    (hserver : ∀ x : ServerM Unit, Within R (onServer x)) (count : Id → Nat)
    (react : Id → Nat → ConsumerCall) (i : ClientConnection) (d : NetworkMessage) :
    Within R (onNewMessage regex (QueueServer.reactions regex count react) i d) := by
  have hhandle : ∀ m, Within R (handle regex (QueueServer.reactions regex count react) i m) := by
    intro m
    cases m with
    | publish cs =>
      exact .bind h.trans (h.nodePublish [] (h.reactions count react) _ _) fun _ => hserver _
    | createQueue cs => exact hserver _
    | subscribe cs => exact hserver _
    | unsubscribe cs => exact hserver _
    | login cs => exact hserver _
    | ok cs => exact hserver _
    | loginConfirm cs => exact hserver _
  intro w
  rw [QueueServer.onNewMessage,bind_apply]
  rcases Message.ofFrame_state [.CREATE_QUEUE,.SUBSCRIBE,.UNSUBSCRIBE,.PUBLISH,.LOGIN]
    "unknow message kind: " d w with ⟨m,hm⟩ | ⟨e,he⟩
  · rw [hm]
    exact hhandle m w
  · rw [he]
    exact h.refl w

end Within

end QueueServer

end Dqueue
