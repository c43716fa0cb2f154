import Dqueue.ServerBooks

/-!
The delivery loop of `Node::publish` with the server as its handler: what one
listener makes of a message, and what the loop as a whole sends.
-/

set_option autoImplicit false

namespace Dqueue
open Std Effects RawMem Queries

theorem Node.deliver_cons {ε σ : Type} (checkTag : SubscriptionParams → Str → EStateM ε σ Bool)
    (handler : PublishParams → Bytes → Id → EStateM ε σ Unit) (p : PublishParams) (rd : Bytes)
    (x : Id × QueueListener) (ls : List (Id × QueueListener)) (s : σ) :
    deliver checkTag handler p rd (x :: ls) s =
      match deliver checkTag handler p rd [x] s with
      | .ok _ s' => deliver checkTag handler p rd ls s'
      | .error e s' => .error e s' := by
  obtain ⟨clientId,ql⟩ := x
  simp only [deliver]
  split
  · split
    · simp only [bind_apply,pure_apply,if_true]
      cases handler p rd clientId s <;> rfl
    · simp only [bind_apply]
      cases checkTag ql.settings p.tag s with
      | error e s' => rfl
      | ok isTarget s' =>
        cases isTarget with
        | false => rfl
        | true =>
          simp only [if_true,bind_apply]
          cases handler p rd clientId s' <;> rfl
  · rfl

/-- The tag of a listener that is not a mere owner cannot be compiled. -/
def QueueListener.Broken (regex : RegexCompiler) (ql : QueueListener) : Prop :=
  (!ql.isowner || ql.issubscribed) = true ∧ ql.settings.tag ≠ [] ∧ regex ql.settings.tag = none

instance (regex : RegexCompiler) (ql : QueueListener) : Decidable (ql.Broken regex) :=
  inferInstanceAs (Decidable (_ ∧ _ ∧ _))

namespace Server

variable {regex : RegexCompiler}

def deliver (regex : RegexCompiler) (p : PublishParams) (rd : Bytes) :
    List (Id × QueueListener) → ServerM Unit :=
  Node.deliver (fun sp tag => onCache (sp.checkTag regex tag)) onSendToClient p rd

theorem deliver_cons (p : PublishParams) (rd : Bytes) (x : Id × QueueListener)
    (ls : List (Id × QueueListener)) (s : Server) :
    deliver regex p rd (x :: ls) s =
      match deliver regex p rd [x] s with
      | .ok _ s' => deliver regex p rd ls s'
      | .error e s' => .error e s' := by
  have h := Node.deliver_cons (fun sp tag => onCache (sp.checkTag regex tag)) onSendToClient p rd
    x ls s
  unfold deliver
  rw [h]
  cases Node.deliver (fun sp tag => onCache (sp.checkTag regex tag)) onSendToClient p rd [x] s
    <;> rfl

theorem nodePublish_run (p : PublishParams) (rd : Bytes) (s : Server) :
    nodePublish regex p rd s = deliver regex p rd (s.node.localCopy p.queueName).2
      { s with node := (s.node.localCopy p.queueName).1 } := rfl

inductive OneListener (regex : RegexCompiler) (p : PublishParams) (rd : Bytes) (s : Server)
    (x : Id × QueueListener) : EStateM.Result Failure Server Unit → Prop where
  | skipped {cache : ReCache} (sound : ReCache.Sound regex cache)
      (target : x.2.isTarget regex p.tag = false) (tag : ¬ x.2.Broken regex) :
      OneListener regex p rd s x (.ok () { s with cache := cache })
  | broken {e : Exception} (target : x.2.isTarget regex p.tag = false) (tag : x.2.Broken regex) :
      OneListener regex p rd s x (.error (.thrown e) s)
  | sent {cache : ReCache} (sound : ReCache.Sound regex cache)
      (target : x.2.isTarget regex p.tag = true) (tag : ¬ x.2.Broken regex) :
      OneListener regex p rd s x (onSendToClient p rd x.1 { s with cache := cache })

theorem deliver_one {s : Server} (hs : ReCache.Sound regex s.cache) (p : PublishParams)
    (rd : Bytes) (x : Id × QueueListener) :
    OneListener regex p rd s x (deliver regex p rd [x] s) := by
  obtain ⟨clientId,ql⟩ := x
  cases hx : (!ql.isowner || ql.issubscribed) with
  | false =>
    have hr : deliver regex p rd [(clientId,ql)] s = .ok () s := by
      simp [deliver,Node.deliver,hx]
    rw [hr]
    exact .skipped hs (by simp [QueueListener.isTarget,hx])
      (fun h => absurd (hx.symm.trans h.1) (by simp))
  | true =>
    by_cases he : ql.settings.tag = []
    · have hr : deliver regex p rd [(clientId,ql)] s = onSendToClient p rd clientId s := by
        simp [deliver,Node.deliver,hx,he]
      rw [hr]
      exact .sent hs (by simp [QueueListener.isTarget,hx,tagMatches,he])
        (fun h => h.2.1 he)
    · obtain ⟨cre,cache,hre,hsound,hc⟩ | ⟨e,hre,hc⟩ := ReCache.compile_run hs ql.settings.tag
      · have hcheck : onCache (ql.settings.checkTag regex p.tag) s =
            .ok (cre p.tag) { s with cache := cache } := by
          rw [onCache_run]
          simp [SubscriptionParams.checkTag,he,hc]
        have hm : ql.isTarget regex p.tag = cre p.tag := by
          simp [QueueListener.isTarget,hx,tagMatches,he,hre]
        have hb : ¬ ql.Broken regex := fun h => absurd (hre.symm.trans h.2.2) (by simp)
        cases ht : cre p.tag with
        | false =>
          have hr : deliver regex p rd [(clientId,ql)] s = .ok () { s with cache := cache } := by
            simp [deliver,Node.deliver,hx,he,hcheck,ht]
          rw [hr]
          exact .skipped hsound (hm.trans ht) hb
        | true =>
          have hr : deliver regex p rd [(clientId,ql)] s =
              onSendToClient p rd clientId { s with cache := cache } := by
            simp [deliver,Node.deliver,hx,he,hcheck,ht]
          rw [hr]
          exact .sent hsound (hm.trans ht) hb
      · have hcheck : onCache (ql.settings.checkTag regex p.tag) s = .error (.thrown e) s := by
          rw [onCache_run]
          simp [SubscriptionParams.checkTag,he,hc]
        have hr : deliver regex p rd [(clientId,ql)] s = .error (.thrown e) s := by
          simp [deliver,Node.deliver,hx,he,hcheck]
        rw [hr]
        exact .broken (by simp [QueueListener.isTarget,hx,tagMatches,he,hre]) ⟨hx,he,hre⟩

theorem onSendToClient_run {p : PublishParams} {rd : Bytes} {id : Id} {s : Server}
    (hid : id ≠ ServerID)
    (hs : Message.Sendable (.publish ⟨p.queueName,p.tag,s.nextMessageId,rd⟩)) :
    onSendToClient p rd id s =
      match s.connections.find? (fun c => c.id == id) with
      | none => .error (.thrown ⟨s!"server: unknow client #{id}"⟩)
          { s with nextMessageId := s.nextMessageId+1 }
      | some c =>
        if c.socket ∈ s.closed then
          .error .nullDereference { s with nextMessageId := s.nextMessageId+1 }
        else .ok () { s with
          nextMessageId := s.nextMessageId+1
          outbox := s.outbox ++
            [(c.socket,.publish ⟨p.queueName,p.tag,s.nextMessageId,rd⟩)] } := by
  obtain ⟨nd,hnd,-⟩ := Message.toNetworkMessage_ok _ hs
  have hencode : ∀ s' : Server, attempt (σ := Server) (Message.toNetworkMessage
      (.publish ⟨p.queueName,p.tag,s.nextMessageId,rd⟩)) s' = .ok nd s' := by
    intro s'
    rw [hnd]
    rfl
  have hne : (id == ServerID) = false := by simpa using hid
  simp only [onSendToClient,hne,Bool.false_eq_true,if_false,sendToId,bind_apply,get_apply,
    set_apply,hencode]
  cases hf : s.connections.find? (fun c => c.id == id) with
  | none => rfl
  | some c => simp only [sendTo_run,hnd]

theorem onSendToClient_server (p : PublishParams) (rd : Bytes) (s : Server) :
    onSendToClient p rd ServerID s = .ok () { s with
      consumed := s.consumed ++ [(p,rd,ServerID)] } := by
  simp [onSendToClient]

/-- The clients that the loop gets to: the targets up to the first listener whose
tag cannot be compiled. -/
def reached (regex : RegexCompiler) (tag_ : Str) : List (Id × QueueListener) → List Id
  | [] => []
  | x :: ls =>
    if x.2.Broken regex then []
    else if x.2.isTarget regex tag_ then x.1 :: reached regex tag_ ls
    else reached regex tag_ ls

/-- A connection through which `sendTo(Id, ...)` reaches the client. -/
def Reachable (s : Server) (id : Id) (c : ClientConnection) : Prop :=
  s.connections.find? (fun c => c.id == id) = some c ∧ c.socket ∉ s.closed

/-- The message has been sent to `ids`, once to each, and nothing else that
others can see has happened. -/
structure Sent (regex : RegexCompiler) (p : PublishParams) (rd : Bytes) (ids : List Id)
    (s s' : Server) : Prop where
  users : s'.users = s.users
  node : s'.node = s.node
  connections : s'.connections = s.connections
  closed : s'.closed = s.closed
  executed : s'.executed = s.executed
  sound : ReCache.Sound regex s'.cache
  consumed : s'.consumed = s.consumed ++ (ids.filter (fun id => id == ServerID)).map
    (fun id => (p,rd,id))
  outbox : ∃ out, s'.outbox = s.outbox ++ out ∧
    List.Forall₂ (fun id x => ∃ c n, s.Reachable id c ∧
      x = (c.socket,.publish ⟨p.queueName,p.tag,n,rd⟩)) (ids.filter (fun id => id != ServerID)) out

section Loop

variable {p : PublishParams} {rd : Bytes}

theorem Sent.nil {s : Server} {cache : ReCache} (h : ReCache.Sound regex cache) :
    Sent regex p rd [] s { s with cache := cache } :=
  ⟨rfl,rfl,rfl,rfl,rfl,h,by simp,[],by simp,by simp⟩

theorem Sent.reachable {ids : List Id} {s s' : Server} (h : Sent regex p rd ids s s') (id : Id)
    (c : ClientConnection) : s'.Reachable id c ↔ s.Reachable id c := by
  unfold Reachable
  rw [h.connections,h.closed]

theorem Sent.append {ids ids' : List Id} {s s' s'' : Server} (h : Sent regex p rd ids s s')
    (h' : Sent regex p rd ids' s' s'') : Sent regex p rd (ids ++ ids') s s'' := by
  obtain ⟨out,ho,hf⟩ := h.outbox
  obtain ⟨out',ho',hf'⟩ := h'.outbox
  refine ⟨h'.users.trans h.users,h'.node.trans h.node,h'.connections.trans h.connections,
    h'.closed.trans h.closed,h'.executed.trans h.executed,h'.sound,?_,out ++ out',?_,?_⟩
  · rw [h'.consumed,h.consumed]
    simp
  · rw [ho',ho,List.append_assoc]
  · rw [List.filter_append]
    refine List.rel_append hf (hf'.imp fun id x hx => ?_)
    obtain ⟨c,n,hc,rfl⟩ := hx
    exact ⟨c,n,(h.reachable id c).mp hc,rfl⟩

theorem sendable_id {m n : UInt64}
    (h : Message.Sendable (.publish ⟨p.queueName,p.tag,m,rd⟩)) :
    Message.Sendable (.publish ⟨p.queueName,p.tag,n,rd⟩) := h

theorem onSendToClient_sent {s : Server} {id : Id} {n : UInt64}
    (hs : Message.Sendable (.publish ⟨p.queueName,p.tag,n,rd⟩))
    (sound : ReCache.Sound regex s.cache)
    (hr : id ≠ ServerID → ∃ c, s.Reachable id c) :
    ∃ s', onSendToClient p rd id s = .ok () s' ∧ Sent regex p rd [id] s s' := by
  by_cases hid : id = ServerID
  · subst hid
    exact ⟨_,onSendToClient_server p rd s,rfl,rfl,rfl,rfl,rfl,sound,by simp,[],by simp,by simp⟩
  · obtain ⟨c,hc,hopen⟩ := hr hid
    have hrun := onSendToClient_run hid (sendable_id hs) (s := s)
    simp only [hc,hopen,if_false] at hrun
    refine ⟨_,hrun,rfl,rfl,rfl,rfl,rfl,sound,by simp [hid],[_],rfl,?_⟩
    have hne : ([id].filter fun id => id != ServerID) = [id] := by simp [hid]
    rw [hne]
    exact .cons ⟨c,_,⟨hc,hopen⟩,rfl⟩ .nil

/-- The loop over listeners that can all be reached sends to the targets up to
the first tag that cannot be compiled, where it throws. -/
theorem deliver_sent (regex : RegexCompiler) (p : PublishParams) (rd : Bytes) {s : Server}
    {n : UInt64}
    (hs : Message.Sendable (.publish ⟨p.queueName,p.tag,n,rd⟩))
    (sound : ReCache.Sound regex s.cache) (ls : List (Id × QueueListener))
    (hr : ∀ x ∈ ls, x.1 ≠ ServerID → ∃ c, s.Reachable x.1 c) :
    ∃ s', Sent regex p rd (reached regex p.tag ls) s s' ∧
      ((deliver regex p rd ls s = .ok () s' ∧ ∀ x ∈ ls, ¬ x.2.Broken regex) ∨
        ((∃ e, deliver regex p rd ls s = .error (.thrown e) s') ∧ ∃ x ∈ ls, x.2.Broken regex)) := by
  induction ls generalizing s with
  | nil => exact ⟨s,.nil sound,.inl ⟨rfl,by simp⟩⟩
  | cons x ls ih =>
    -- the rest of the loop, after the first listener was passed over or served
    have hrest : ∀ {ids : List Id} {s₁ : Server}, deliver regex p rd [x] s = .ok () s₁ →
        Sent regex p rd ids s s₁ → ¬ x.2.Broken regex →
        ∃ s', Sent regex p rd (ids ++ reached regex p.tag ls) s s' ∧
          ((deliver regex p rd (x :: ls) s = .ok () s' ∧ ∀ y ∈ x :: ls, ¬ y.2.Broken regex) ∨
            ((∃ e, deliver regex p rd (x :: ls) s = .error (.thrown e) s') ∧
              ∃ y ∈ x :: ls, y.2.Broken regex)) := by
      intro ids s₁ hone hsent hb
      have hr₁ : ∀ y ∈ ls, y.1 ≠ ServerID → ∃ c, s₁.Reachable y.1 c := by
        intro y hy hne
        obtain ⟨c,hc⟩ := hr y (by simp [hy]) hne
        exact ⟨c,(hsent.reachable _ _).mpr hc⟩
      obtain ⟨s',hs',hres⟩ := ih hsent.sound hr₁
      have hcons : deliver regex p rd (x :: ls) s = deliver regex p rd ls s₁ := by
        rw [deliver_cons,hone]
      refine ⟨s',hsent.append hs',?_⟩
      rw [hcons]
      refine hres.imp (fun h => ⟨h.1,fun y hy => ?_⟩)
        (fun ⟨he,y,hy,hyb⟩ => ⟨he,y,by simp [hy],hyb⟩)
      rcases List.mem_cons.mp hy with rfl | hy
      · exact hb
      · exact h.2 y hy
    have hone := deliver_one sound p rd x
    generalize hres : deliver regex p rd [x] s = res at hone
    cases hone with
    | skipped hsound target tag =>
      have h := hrest hres (.nil hsound) tag
      simpa [reached,tag,target] using h
    | @broken e target tag =>
      have hthrow : deliver regex p rd (x :: ls) s = .error (.thrown e) s := by
        rw [deliver_cons,hres]
      refine ⟨s,?_,.inr ⟨⟨e,hthrow⟩,x,by simp,tag⟩⟩
      simpa [reached,tag] using Sent.nil sound
    | @sent cache hsound target tag =>
      obtain ⟨s₁,h₁,hsent⟩ := onSendToClient_sent (s := { s with cache := cache }) hs hsound
        (hr x (by simp))
      have hsent' : Sent regex p rd [x.1] s s₁ :=
        (Sent.nil (s := s) hsound).append hsent
      have h := hrest (hres.trans h₁) hsent' tag
      simpa [reached,tag,target] using h

end Loop

end Server

section Sound

variable {regex : RegexCompiler}

def Server.KeepsSound (regex : RegexCompiler) (s s' : Server) : Prop :=
  ReCache.Sound regex s.cache → ReCache.Sound regex s'.cache

theorem Server.KeepsSound.refl (s : Server) : s.KeepsSound regex s := fun h => h

theorem Server.KeepsSound.trans (s₁ s₂ s₃ : Server) (h : s₁.KeepsSound regex s₂)
    (h' : s₂.KeepsSound regex s₃) : s₁.KeepsSound regex s₃ := fun hs => h' (h hs)

theorem Server.KeepsSound.of_eq {s s' : Server} (h : s'.cache = s.cache) : s.KeepsSound regex s' :=
  fun hs => h ▸ hs

theorem Server.onNode_keepsSound (x : EStateM Exception Node Unit) :
    Within (Server.KeepsSound regex) (onNode x) := by
  intro s
  rw [onNode_run]
  cases x s.node with
  | ok a n => exact .of_eq rfl
  | error e n => exact .of_eq rfl

theorem Server.onSendToClient_cache (p : PublishParams) (rd : Bytes) (id : Id) (s : Server) :
    (final (onSendToClient p rd id s)).cache = s.cache := by
  unfold onSendToClient
  split
  · rfl
  · simp only [bind_apply,get_apply,set_apply]
    rcases sendToId_final id (.publish ⟨p.queueName,p.tag,s.nextMessageId,rd⟩)
      { s with nextMessageId := s.nextMessageId+1 } with h | ⟨socket,-,h⟩
    · rw [h]
    · rw [h]

theorem Server.nodePublish_keepsSound (p : PublishParams) (rd : Bytes) :
    Within (Server.KeepsSound regex) (nodePublish regex p rd) := by
  intro s hs
  refine Node.deliver_within (R := KeepsSound regex) .refl .trans (fun sp tag s' hs' => ?_)
    (fun id s' => .of_eq (onSendToClient_cache p rd id s')) _ _ hs
  have hsound := checkTag_sound hs' sp tag
  rw [onCache_run]
  cases hc : sp.checkTag regex tag s'.cache with
  | ok b cache =>
    rw [hc] at hsound
    exact hsound
  | error e cache =>
    rw [hc] at hsound
    exact hsound

theorem Server.handle_keepsSound (i : ClientConnection) (m : Message) :
    Within (Server.KeepsSound regex) (handle regex i m) := by
  refine handle_within .refl .trans onNode_keepsSound nodePublish_keepsSound (fun n _ s => ?_)
    (fun login s => .of_eq rfl) fun s => ?_
  · obtain ⟨oks,hf,-⟩ := acknowledge_final i m n s
    rw [hf]
    exact .of_eq rfl
  · rcases sendTo_final i (.loginConfirm ⟨i.id⟩) s with h | ⟨-,h⟩
    · rw [h]
      exact .refl s
    · rw [h]
      exact .of_eq rfl

def ServerLog.KeepsSound (regex : RegexCompiler) (l l' : ServerLog) : Prop :=
  l.server.KeepsSound regex l'.server

theorem ServerLog.close_keepsSound (i : ClientConnection) :
    Within (ServerLog.KeepsSound regex) (close i) := by
  intro l
  show l.server.KeepsSound regex _
  rw [close_server,Server.close_final]
  split
  · exact .refl _
  · cases l.server.users.erase i.id with
    | error e => exact .of_eq rfl
    | ok users => exact .of_eq rfl

theorem ServerLog.step_keepsSound (l : ServerLog) (e : ServerEvent) :
    l.KeepsSound regex (l.step regex e) := by
  have hstep := l.step_cases regex e
  generalize l.step regex e = l' at hstep ⊢
  cases hstep with
  | same => exact .refl _
  | accept => exact .of_eq rfl
  | call calls =>
    cases calls with
    | @message k d i m sender decoded => exact Server.handle_keepsSound i m l.server
    | createQueue settings => exact Server.onNode_keepsSound _ l.server
    | subscribe settings => exact Server.onNode_keepsSound _ l.server
    | unsubscribe qname => exact Server.onNode_keepsSound _ l.server
    | publish settings data => exact Server.nodePublish_keepsSound _ _ l.server
  | close sender => exact close_keepsSound _ l
  | stop running =>
    exact stopServer_within (R := ServerLog.KeepsSound regex) (fun _ => .refl _)
      (fun _ _ _ h h' hs => h' (h hs)) close_keepsSound (fun _ => .of_eq rfl) l

theorem ServerLog.run_sound {l : ServerLog} (h : ReCache.Sound regex l.server.cache)
    (events : List ServerEvent) : ReCache.Sound regex (l.run regex events).server.cache :=
  Runs.invariant (P := fun l : ServerLog => ReCache.Sound regex l.server.cache)
    (fun l e h => l.step_keepsSound e h) h events

end Sound

/-- With the books in order, every listener but the server's own is reached
through its connection. -/
theorem ServerLog.Books.reachable {l : ServerLog} (h : l.Books) (few : l.Few) {c : Id}
    (hu : l.server.users.exists c = true) (hc : c ≠ ServerID) :
    ∃ i ∈ l.server.connections, i.id = c ∧ l.server.Reachable c i := by
  rcases (h.users c).mp hu with rfl | ⟨i,hi,rfl⟩
  · exact absurd rfl hc
  · refine ⟨i,hi,rfl,?_,(h.mem_connections.mp hi).2⟩
    cases hf : l.server.connections.find? (fun c => c.id == i.id) with
    | none => exact absurd (List.find?_eq_none.mp hf i hi) (by simp)
    | some j =>
      have hj := h.mem_connections.mp (List.mem_of_find?_eq_some hf)
      have hid : j.id = i.id := by simpa using List.find?_some hf
      rw [h.id_inj few hj.1 (h.mem_connections.mp hi).1 hid]

end Dqueue
