import Dqueue.Server
import Dqueue.NodeQueues

/-!
The queues of a server over whole runs of its connections and of its own
interface.
-/

set_option autoImplicit false

namespace Dqueue
open Std Effects RawMem Queries

def ServerCall.op : ServerCall → Option Op
  | .message i (.createQueue cq) => some (.createQueue ⟨cq.name⟩ i.id)
  | .message i (.subscribe cs) => some (.changeSubscription .Subscribe ⟨cs.qname,cs.tag⟩ i.id)
  | .message i (.unsubscribe cs) => some (.changeSubscription .Unsubscribe ⟨cs.qname,cs.tag⟩ i.id)
  | .close i => some (.eraseClient i.id)
  | .createQueue settings => some (.createQueue settings ServerID)
  | .subscribe settings => some (.changeSubscription .Subscribe settings ServerID)
  | .unsubscribe qname => some (.changeSubscription .Subscribe ⟨qname,[]⟩ ServerID)
  | _ => none

structure Node.Same (n n' : Node) : Prop where
  queues : ∀ q, n'.HasQueue q ↔ n.HasQueue q
  listeners : ∀ q c, n'.listener q c = n.listener q c

theorem Node.Same.of_eq {n n' : Node} (h : n' = n) : n.Same n' := by
  subst h
  exact ⟨fun _ => Iff.rfl,fun _ _ => rfl⟩

namespace Server

variable {regex : RegexCompiler}

theorem onNode_node (x : EStateM Exception Node Unit) (s : Server) :
    (final (onNode x s)).node = final (x s.node) := by
  rw [onNode_run]
  cases x s.node <;> rfl

theorem acknowledged_node (x : ServerM Unit) (i : ClientConnection) (m : Message) (n : UInt64)
    (s : Server) : (final ((do x; acknowledge i m n) s)).node = (final (x s)).node := by
  rw [bind_apply]
  cases x s with
  | ok a s' =>
    obtain ⟨oks,hf,-⟩ := acknowledge_final i m n s'
    show (final (acknowledge i m n s')).node = s'.node
    rw [hf]
  | error e s' => rfl

theorem request_node (x : EStateM Exception Node Unit) (i : ClientConnection) (m : Message)
    (n : UInt64) (s : Server) :
    (final ((do onNode x; acknowledge i m n) s)).node = final (x s.node) := by
  rw [acknowledged_node,onNode_node]

theorem publish_node (p : PublishParams) (rd : Bytes) (s : Server) :
    s.node.Same (final (nodePublish regex p rd s)).node := by
  obtain ⟨hq,hl⟩ := localCopy_views s.node p.queueName
  rw [(nodePublish_delivers regex p rd s).node]
  exact ⟨hq,hl⟩

theorem close_node (i : ClientConnection) (s : Server) :
    (final (close i s)).node = s.node ∨
      (final (close i s)).node = s.node.eraseClient i.id := by
  rw [close_final]
  split
  · exact .inl rfl
  · cases s.users.erase i.id with
    | error e => exact .inl rfl
    | ok users => exact .inr rfl

variable (regex) in
theorem step_node (s : Server) (call : ServerCall) :
    s.node.Same (s.step regex call).node ∨
      ∃ op, call.op = some op ∧ NodeStep s.users s.node op (s.step regex call).node := by
  cases call with
  | accept socket => exact .inl (.of_eq rfl)
  | message i m =>
    cases m with
    | createQueue cq =>
      refine .inr ⟨_,rfl,?_⟩
      have hnode := request_node (Node.createQueue s.users ⟨cq.name⟩ i.id) i (.createQueue cq)
        cq.msgId s
      exact hnode ▸ createQueue_cases s.users ⟨cq.name⟩ i.id s.node
    | subscribe cs =>
      refine .inr ⟨_,rfl,?_⟩
      have hnode := request_node (Node.changeSubscription s.users .Subscribe ⟨cs.qname,cs.tag⟩ i.id)
        i (.subscribe cs) cs.msgId s
      exact hnode ▸ changeSubscription_cases s.users .Subscribe ⟨cs.qname,cs.tag⟩ i.id s.node
    | unsubscribe cs =>
      refine .inr ⟨_,rfl,?_⟩
      have hnode := request_node
        (Node.changeSubscription s.users .Unsubscribe ⟨cs.qname,cs.tag⟩ i.id)
        i (.unsubscribe cs) cs.msgId s
      exact hnode ▸ changeSubscription_cases s.users .Unsubscribe ⟨cs.qname,cs.tag⟩ i.id s.node
    | publish cs =>
      left
      have hnode := acknowledged_node (nodePublish regex ⟨cs.qname,cs.tag⟩ cs.data) i (.publish cs)
        cs.messageId s
      exact hnode ▸ publish_node ⟨cs.qname,cs.tag⟩ cs.data s
    | login lg =>
      refine .inl (.of_eq ?_)
      simp only [step,exec,handle,bind_apply,modify_apply]
      rcases sendTo_final i (.loginConfirm ⟨i.id⟩)
        { s with users := s.users.setLogin i.id lg.login } with h | ⟨_,h⟩ <;> rw [h]
    | ok q => exact .inl (.of_eq rfl)
    | loginConfirm q => exact .inl (.of_eq rfl)
  | close i =>
    rcases close_node i s with h | h
    · exact .inl (.of_eq h)
    · refine .inr ⟨_,rfl,?_⟩
      rw [step,exec,h]
      exact .erased (Node.hasQueue_eraseClient i.id s.node) (Node.listener_eraseClient i.id s.node)
  | createQueue settings =>
    refine .inr ⟨_,rfl,?_⟩
    have hnode := onNode_node (Node.createQueue s.users settings ServerID) s
    exact hnode ▸ createQueue_cases s.users settings ServerID s.node
  | subscribe settings =>
    refine .inr ⟨_,rfl,?_⟩
    have hnode := onNode_node (Node.changeSubscription s.users .Subscribe settings ServerID) s
    exact hnode ▸ changeSubscription_cases s.users .Subscribe settings ServerID s.node
  | unsubscribe qname =>
    refine .inr ⟨_,rfl,?_⟩
    have hnode := onNode_node (Node.changeSubscription s.users .Subscribe ⟨qname,[]⟩ ServerID) s
    exact hnode ▸ changeSubscription_cases s.users .Subscribe ⟨qname,[]⟩ ServerID s.node
  | publish settings data => exact .inl (publish_node settings data s)

end Server

/-- The connections concerned belong to clients: their id is not the server's. -/
def ServerCall.Proper : ServerCall → Prop
  | .message i _ => i.id ≠ ServerID
  | .close i => i.id ≠ ServerID
  | _ => True

/-- What clients can do, and `Server::subscribe`. -/
def ServerCall.Outside : ServerCall → Prop
  | .accept _ => True
  | .message i _ => i.id ≠ ServerID
  | .close i => i.id ≠ ServerID
  | .subscribe _ => True
  | _ => False

section Persistence

variable {regex : RegexCompiler}

def Op.Harmless : Op → Prop
  | .createQueue _ c => c ≠ ServerID
  | .changeSubscription .Unsubscribe _ c => c ≠ ServerID
  | .eraseClient c => c ≠ ServerID
  | _ => True

theorem ServerCall.Outside.harmless {call : ServerCall} (h : call.Outside) {op : Op}
    (hop : call.op = some op) : op.Harmless := by
  cases call with
  | accept socket => cases hop
  | message i m => cases m <;> cases hop <;> first | exact h | trivial
  | close i => cases hop; exact h
  | createQueue settings => exact h.elim
  | subscribe settings => cases hop; trivial
  | unsubscribe qname => exact h.elim
  | publish settings data => cases hop

theorem NodeStep.keeps_owned {users : UserBase} {n n' : Node} {op : Op}
    (h : NodeStep users n op n') (harmless : op.Harmless) {q : Str}
    (hq : n.HasQueue q ∧ n.ServerOwns q) : n'.HasQueue q ∧ n'.ServerOwns q := by
  obtain ⟨hq,ql,hl,how⟩ := hq
  cases h with
  | quiet queues listeners create change erase =>
    exact ⟨(queues q).mpr hq,ql,by rw [listeners,hl],how⟩
  | created missing user queues listeners =>
    refine ⟨(queues q).mpr (.inr hq),ql,?_,how⟩
    rw [listeners,if_neg (fun h => harmless h.2),hl]
  | @joined a sp c _ action user queues listeners =>
    refine ⟨(queues q).mpr hq,?_⟩
    unfold Node.ServerOwns
    rw [listeners,hl]
    split
    · exact ⟨_,rfl,by rw [Node.joined_isowner,how]⟩
    · exact ⟨ql,rfl,how⟩
  | left present user queues listeners =>
    refine ⟨(queues q).mpr hq,ql,?_,how⟩
    rw [listeners,if_neg (fun h => harmless h.2),hl]
  | @erased id _ queues listeners =>
    have hid : id ≠ ServerID := harmless
    refine ⟨(queues q).mpr ⟨hq,fun hr => ?_⟩,ql,by rw [listeners,if_neg hid.symm,hl],how⟩
    obtain ⟨-,halone | ⟨-,ql',hl',how'⟩⟩ := (Node.removed_iff id n q).mp hr
    · rw [halone ServerID hid.symm] at hl
      cases hl
    · rw [hl] at hl'
      cases hl'
      rw [how] at how'
      cases how'

theorem Server.step_keeps_owned {s : Server} {call : ServerCall} (outside : call.Outside) {q : Str}
    (hq : s.node.HasQueue q ∧ s.node.ServerOwns q) :
    (s.step regex call).node.HasQueue q ∧ (s.step regex call).node.ServerOwns q := by
  rcases Server.step_node regex s call with hs | ⟨op,hop,hstep⟩
  · simpa only [Node.ServerOwns,hs.queues,hs.listeners] using hq
  · exact hstep.keeps_owned (outside.harmless hop) hq

def Server.KeepsServer (s s' : Server) : Prop :=
  s.users.exists ServerID = true → s'.users.exists ServerID = true

theorem Server.KeepsServer.of_eq {s s' : Server} (h : s'.users = s.users) : s.KeepsServer s' :=
  fun hs => by rwa [h]

theorem Server.KeepsServer.refl (s : Server) : s.KeepsServer s := .of_eq rfl

theorem Server.KeepsServer.trans (s₁ s₂ s₃ : Server) (h : s₁.KeepsServer s₂)
    (h' : s₂.KeepsServer s₃) : s₁.KeepsServer s₃ := fun hs => h' (h hs)

theorem Server.onNode_keepsServer (x : EStateM Exception Node Unit) :
    Within KeepsServer (onNode x) := by
  intro s
  rw [onNode_run]
  cases x s.node <;> exact .of_eq rfl

theorem Server.acknowledge_keepsServer (i : ClientConnection) (m : Message) (n : UInt64) :
    Within KeepsServer (acknowledge i m n) := by
  intro s
  obtain ⟨oks,hf,-⟩ := acknowledge_final i m n s
  exact .of_eq (by rw [hf])

theorem Server.handle_keepsServer (i : ClientConnection) (m : Message) :
    Within KeepsServer (handle regex i m) := by
  refine handle_within KeepsServer.refl KeepsServer.trans onNode_keepsServer
    (fun p rd s => .of_eq (nodePublish_delivers regex p rd s).users)
    (fun n _ => acknowledge_keepsServer i m n)
    (fun login s hs => (UserBase.exists_setLogin _ _ _ _).mpr (.inr hs)) fun s => ?_
  rcases sendTo_final i (.loginConfirm ⟨i.id⟩) s with h | ⟨-,h⟩ <;> exact .of_eq (by rw [h])

theorem Server.step_keepsServer (s : Server) {call : ServerCall} (proper : call.Proper) :
    s.KeepsServer (s.step regex call) := by
  cases call with
  | accept socket => exact fun hs => (UserBase.exists_append _ _ _).mpr (.inr hs)
  | message i m => exact handle_keepsServer i m s
  | close i =>
    intro hs
    rw [step,exec,close_final]
    split
    · exact hs
    · cases h : s.users.erase i.id with
      | error e => exact hs
      | ok users => exact (UserBase.exists_erase h _).mpr ⟨Ne.symm proper,hs⟩
  | createQueue settings => exact onNode_keepsServer _ s
  | subscribe settings => exact onNode_keepsServer _ s
  | unsubscribe qname => exact onNode_keepsServer _ s
  | publish settings data => exact .of_eq (nodePublish_delivers regex _ _ s).users

variable (regex) in
theorem Server.step_createQueue {s : Server} {q : Str} (user : s.users.exists ServerID = true)
    (absent : ¬ s.node.HasQueue q) :
    (s.step regex (.createQueue ⟨q⟩)).node.HasQueue q ∧
      (s.step regex (.createQueue ⟨q⟩)).node.listener q ServerID =
        some (Node.joined .Create ⟨q,[]⟩ (s.node.listener q ServerID)) := by
  have hnode := onNode_node (Node.createQueue s.users ⟨q⟩ ServerID) s
  have hstep : NodeStep s.users s.node (.createQueue ⟨q⟩ ServerID)
      (s.step regex (.createQueue ⟨q⟩)).node :=
    hnode ▸ createQueue_cases s.users ⟨q⟩ ServerID s.node
  cases hstep with
  | quiet queues listeners create change erase =>
    rcases create ⟨q⟩ ServerID rfl with h | h
    · exact absurd h absent
    · rw [user] at h
      cases h
  | created _ _ queues listeners =>
    exact ⟨(queues q).mpr (.inl rfl),by rw [listeners,if_pos ⟨rfl,rfl⟩]⟩

def visit (i : ClientConnection) (q : Str) : List ServerCall :=
  [.accept i.socket,.message i (.subscribe ⟨q,[],0⟩),.close i]

variable (regex) in
theorem Server.subscribe_run {s : Server} (i : ClientConnection) (q : Str)
    (user : s.users.exists i.id = true) :
    (s.step regex (.message i (.subscribe ⟨q,[],0⟩))).users = s.users ∧
    (s.step regex (.message i (.subscribe ⟨q,[],0⟩))).closed = s.closed ∧
    (s.step regex (.message i (.subscribe ⟨q,[],0⟩))).node =
      s.node.changed .Subscribe ⟨q,[]⟩ i.id := by
  have hrun : onNode (Node.changeSubscription s.users .Subscribe ⟨q,[]⟩ i.id) s =
      .ok () { s with node := s.node.changed .Subscribe ⟨q,[]⟩ i.id } := by
    rw [onNode_run,Node.changeSubscription,Node.changeSubscriptionImpl_run]
    simp [user]
  obtain ⟨oks,hf,-⟩ := acknowledge_final i (.subscribe ⟨q,[],0⟩) 0
    { s with node := s.node.changed .Subscribe ⟨q,[]⟩ i.id }
  simp [step,exec,handle,hrun,hf]

variable (regex) in
theorem Server.visit_removes {s : Server} {q : Str} (hl : s.node.ServerListens q) {socket : Nat}
    (hid : s.nextClientId ≠ ServerID) (hs : socket ∉ s.closed) :
    ¬ ((visit ⟨s.nextClientId,socket⟩ q).foldl (step regex) s).node.HasQueue q := by
  obtain ⟨ql,hql,how⟩ := hl
  have huser : (s.step regex (.accept socket)).users.exists s.nextClientId = true :=
    (UserBase.exists_append _ _ _).mpr (.inl rfl)
  obtain ⟨hu,hc,hn⟩ := subscribe_run regex ⟨s.nextClientId,socket⟩ q huser
  obtain ⟨users,hgone⟩ := UserBase.erase_of_exists (hu ▸ huser)
  have hopen : socket ∉ ((s.step regex (.accept socket)).step regex
      (.message ⟨s.nextClientId,socket⟩ (.subscribe ⟨q,[],0⟩))).closed := hc ▸ hs
  simp only [visit,List.foldl_cons,List.foldl_nil]
  rw [step,exec,close_final,if_neg hopen,hgone,Node.hasQueue_eraseClient,hn]
  rintro ⟨-,hr⟩
  apply hr
  rw [Node.removed_iff]
  refine ⟨?_,.inr ⟨hid,ql,?_,how⟩⟩
  · rw [Node.listener_changed]
    simp
  · rw [Node.listener_changed,if_neg (fun h => hid h.2)]
    exact hql

theorem Server.visit_outside {i : ClientConnection} (hid : i.id ≠ ServerID) (q : Str) :
    ∀ call ∈ visit i q, call.Outside := by
  simp [visit,ServerCall.Outside,hid]

variable (regex) in
theorem Server.nextClientId_accept {s : Server} (h : s.nextClientId = ServerID) (socket : Nat) :
    (s.step regex (.accept socket)).nextClientId ≠ ServerID := by
  have h64 : s.nextId.toInt64 = 2147483647 := congrArg UInt64.toInt64 h
  have hint : s.nextId.toInt = 2147483647 := by
    rw [← Int32.toInt_toInt64,h64]
    rfl
  have h32 : s.nextId = 2147483647 := Int32.toInt_inj.mp hint
  show (s.nextId+1).toInt64.toUInt64 ≠ ServerID
  rw [h32]
  decide

/-- The queue stays, whatever clients and `Server::subscribe` do from here on. -/
def Server.Persists (regex : RegexCompiler) (s : Server) (q : Str) : Prop :=
  ∀ later : List ServerCall, (∀ call ∈ later, call.Outside) →
    (later.foldl (Server.step regex) s).node.HasQueue q

theorem Server.not_persists {s : Server} {q : Str} (hl : s.node.ServerListens q) :
    ¬ s.Persists regex q := by
  intro hp
  obtain ⟨socket,hs⟩ := Infinite.exists_notMem_finset s.closed.toFinset
  rw [List.mem_toFinset] at hs
  by_cases hid : s.nextClientId = ServerID
  · -- the first connection takes the server's id, so that the second one is the client's
    have hid' := nextClientId_accept regex hid socket
    refine visit_removes regex (s := s.step regex (.accept socket)) hl hid' hs
      (hp (.accept socket :: visit _ q) ?_)
    intro call hcall
    rcases List.mem_cons.mp hcall with rfl | hcall
    · trivial
    · exact visit_outside hid' q call hcall
  · exact visit_removes regex hl hid hs (hp _ (visit_outside hid q))

theorem Server.persists_of_owned {s : Server} {q : Str}
    (h : s.node.HasQueue q ∧ s.node.ServerOwns q) : s.Persists regex q := by
  intro later hlater
  have hrun : Runs.Along (Server.step regex) (fun _ call => call.Outside) s later :=
    .of_mem fun call hcall _ => hlater call hcall
  exact (hrun.invariant (P := fun s : Server => s.node.HasQueue q ∧ s.node.ServerOwns q)
    (fun _ _ hq ho => step_keeps_owned ho hq) h).1

/-- A queue that the server creates persists exactly when the server was not
already listed under its name without owning it. -/
theorem created_queue_persists_iff (cache : ReCache) (pre : List ServerCall)
    (proper : ∀ call ∈ pre, call.Proper) {s : Server}
    (run : s = pre.foldl (Server.step regex) (Server.start cache)) (q : Str)
    (absent : ¬ s.node.HasQueue q) :
    (s.step regex (.createQueue ⟨q⟩)).Persists regex q ↔ ¬ s.node.ServerListens q := by
  have huser : s.users.exists ServerID = true := by
    have hrun :
        Runs.Along (Server.step regex) (fun _ call => call.Proper) (Server.start cache) pre :=
      .of_mem fun call hcall _ => proper call hcall
    rw [run]
    exact hrun.invariant (P := fun s : Server => s.users.exists ServerID = true)
      (fun s _ hs hp => s.step_keepsServer hp hs) ((UserBase.exists_append _ _ _).mpr (.inl rfl))
  obtain ⟨hq,hl⟩ := Server.step_createQueue regex huser absent
  constructor
  · rintro hp ⟨ql,hql,how⟩
    rw [hql] at hl
    exact Server.not_persists ⟨ql,by simpa [Node.joined] using hl,how⟩ hp
  · intro hn
    refine Server.persists_of_owned ⟨hq,_,hl,?_⟩
    cases ho : s.node.listener q ServerID with
    | none => rfl
    | some ql =>
      cases how : ql.isowner with
      | true => rw [Node.joined_isowner,how]
      | false => exact absurd ⟨ql,ho,how⟩ hn

/-- The server creates a queue that a client had under the same name and took with it. -/
theorem created_queue_persists_created_before :
    (([.accept 0,.message ⟨0,0⟩ (.createQueue ⟨[113],0⟩),.close ⟨0,0⟩].foldl (Server.step literal)
      (Server.start ∅)).step literal (.createQueue ⟨[113]⟩)).Persists literal [113] := by
  refine (created_queue_persists_iff ∅ [.accept 0,.message ⟨0,0⟩ (.createQueue ⟨[113],0⟩),
    .close ⟨0,0⟩] (by simp [ServerCall.Proper,ServerID]) rfl [113] (by decide +kernel)).mpr ?_
  rintro ⟨ql,hql,-⟩
  have hnone : ([.accept 0,.message ⟨0,0⟩ (.createQueue ⟨[113],0⟩),.close ⟨0,0⟩].foldl
      (Server.step literal) (Server.start ∅)).node.listener [113] ServerID = none := by
    decide +kernel
  exact absurd (hnone.symm.trans hql) (by simp)

/-- The server subscribes to a queue before it creates it; the first client that
subscribes and disconnects takes the queue away. -/
theorem created_queue_removed :
    ¬ (∀ (pre : List ServerCall) (q : Str), (∀ call ∈ pre, call.Proper) →
      ¬ (pre.foldl (Server.step literal) (Server.start ∅)).node.HasQueue q →
      ((pre.foldl (Server.step literal) (Server.start ∅)).step literal
        (.createQueue ⟨q⟩)).Persists literal q) := by
  intro h
  have hp := h [.subscribe ⟨[113],[]⟩] [113] (by simp [ServerCall.Proper]) (by decide)
  have hq := hp (visit ⟨0,0⟩ [113]) (Server.visit_outside (by decide) [113])
  exact absurd hq (by decide)

end Persistence

end Dqueue
