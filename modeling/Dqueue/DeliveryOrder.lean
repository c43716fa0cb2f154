import Dqueue.ServerConsumers
import Dqueue.Lib.Ordered

/-!
The order in which the messages of nested calls of `publish` are sent. The server
comes last among the listeners of a queue, so that a message has been sent to all
clients before a consumer of the server can answer it.
-/

set_option autoImplicit false

namespace Dqueue
open Std Effects RawMem AsyncIO Queries Ordered

def Node.Capped (n : Node) : Prop := ∀ q c, n.listener q c ≠ none → c ≤ ServerID

/-- The order of calls: a call comes before the calls that it leads to, and the
calls that a message leads to are made for one consumer after the other. -/
def Path.Precedes (a b : Path) : Prop := List.Lex (Prod.Lex (· < ·) (· < ·)) a b

/-- The order of sends: by calls, and for one call by clients. -/
def Earlier (x y : Path × Id) : Prop := Path.Precedes x.1 y.1 ∨ (x.1 = y.1 ∧ x.2 < y.2)

section Paths

variable {path : Path}

theorem Path.Precedes.asymm {a b : Path} (h : Path.Precedes a b) : ¬ Path.Precedes b a :=
  Std.Asymm.asymm (r := List.Lex (Prod.Lex (· < ·) (· < ·))) a b h

theorem Earlier.asymm (x y : Path × Id) (h : Earlier x y) : ¬ Earlier y x := by
  rintro (h' | ⟨he,hlt'⟩)
  · rcases h with h | ⟨he,-⟩
    · exact h.asymm h'
    · rw [he] at h'
      exact h'.asymm h'
  · rcases h with h | ⟨-,hlt⟩
    · rw [he] at h
      exact h.asymm h
    · exact UInt64.lt_asymm hlt hlt'

theorem Path.precedes_append (path : Path) (x : Id × Nat) (rest : Path) :
    Path.Precedes path (path ++ x :: rest) := by
  induction path with
  | nil => exact .nil
  | cons y path ih => exact .cons ih

theorem Path.append_precedes (path : Path) {x y : Id × Nat}
    (h : Prod.Lex (· < ·) (· < ·) x y) (rest rest' : Path) :
    Path.Precedes (path ++ x :: rest) (path ++ y :: rest') := by
  induction path with
  | nil => exact .rel h
  | cons z path ih => exact .cons ih

def Under (path : Path) (v : Id) (x : Path × Id) : Prop := ∃ j rest, x.1 = path ++ (v,j) :: rest

theorem Under.earlier {v v' : Id} {x y : Path × Id} (hv : v < v') (hx : Under path v x)
    (hy : Under path v' y) : Earlier x y := by
  obtain ⟨j,rest,hx⟩ := hx
  obtain ⟨j',rest',hy⟩ := hy
  refine .inl ?_
  rw [hx,hy]
  exact Path.append_precedes path (.left _ _ hv) rest rest'

end Paths

section Capped

variable {regex : RegexCompiler} {n : Node}

theorem Node.Capped.localCopy (h : n.Capped) (q : Str) : (n.localCopy q).1.Capped := by
  intro q' c hc
  rw [(localCopy_views n q).2] at hc
  exact h q' c hc

theorem Node.Capped.ordered (h : n.Capped) (q : Str) :
    (n.localCopy q).2.Pairwise (fun x y => x.1 < y.1) ∧
      ∀ x ∈ (n.localCopy q).2, x.1 ≤ ServerID := by
  unfold Node.localCopy
  split
  · refine ⟨ExtTreeMap.ordered_keys_toList.imp compare_eq_lt.mp,fun x hx => h q x.1 ?_⟩
    have hl : n.listener q x.1 = some x.2 := ExtTreeMap.mem_toList_iff_getElem?_eq_some.mp hx
    simp [hl]
  · exact ⟨.nil,by simp⟩

theorem Server.own_capped {s : Server} (h : s.node.Capped) {call : ServerCall} (own : call.Own) :
    (final (Server.exec regex call s)).node.Capped := by
  have hstep := Server.step_node regex s call
  intro q c hc
  -- the entry is an old one, or that of the server
  have hjoined : ∀ {x : Str} {l : Option QueueListener},
      (if x = q ∧ ServerID = c then l else s.node.listener q c) ≠ none → c ≤ ServerID := by
    intro x l hl
    split at hl
    · rename_i he
      exact he.2 ▸ UInt64.le_refl _
    · exact h q c hl
  rcases hstep with hsame | ⟨op,hop,hstep⟩
  · exact h q c (hsame.listeners q c ▸ hc)
  · cases own with
    | createQueue settings =>
      cases hop
      cases hstep with
      | quiet queues listeners create change erase => exact h q c (listeners q c ▸ hc)
      | created missing user queues listeners => exact hjoined (listeners q c ▸ hc)
    | subscribe settings =>
      cases hop
      cases hstep with
      | quiet queues listeners create change erase => exact h q c (listeners q c ▸ hc)
      | joined action user queues listeners => exact hjoined (listeners q c ▸ hc)
    | unsubscribe qname =>
      cases hop
      cases hstep with
      | quiet queues listeners create change erase => exact h q c (listeners q c ▸ hc)
      | joined action user queues listeners => exact hjoined (listeners q c ▸ hc)

end Capped

namespace QueueServer

section Emits

variable {regex : RegexCompiler} {path : Path} {react : Id → QueueServerM Unit}

abbrev Sends {α : Type} (S : Path × Id → Prop) (x : QueueServerM α) : Prop :=
  Emits (fun w : QueueServer => w.sent) (fun w => w.log.server.node.Capped) Earlier S x

theorem checkTag_sends {S : Path × Id → Prop} (sp : SubscriptionParams) (tag_ : Str) :
    Sends S (checkTag regex sp tag_) := by
  refine .silent fun w hw => ?_
  obtain ⟨cache,hf⟩ := checkTag_final regex sp tag_ w
  rw [hf]
  exact ⟨hw,rfl⟩

theorem callEach_sends (hreact : ∀ v, Sends (Under path v) (react v)) (info : PublishParams)
    (d : Bytes) (id : Id) (vs : List Id) (hvs : vs.Pairwise (· < ·)) :
    Sends (fun x => ∃ v ∈ vs, Under path v x) (callEach regex react info d id vs) := by
  induction vs with
  | nil => exact .pure ()
  | cons v vs ih =>
    obtain ⟨hv,hvs⟩ := List.pairwise_cons.mp hvs
    have hrest : Sends (fun x => ∃ u ∈ v :: vs, Under path u x)
        (callEach regex react info d id vs) :=
      (ih hvs).mono fun x ⟨u,hu,hx⟩ => ⟨u,by simp [hu],hx⟩
    have hreacts : Sends (fun x => ∃ u ∈ v :: vs, Under path u x) (do
        react v
        callEach regex react info d id vs) := by
      refine ((hreact v).bind (fun _ => ih hvs) fun x y hx hy => ?_).mono fun x hx => ?_
      · obtain ⟨u,hu,hy⟩ := hy
        exact hx.earlier (hv u hu) hy
      · rcases hx with hx | ⟨u,hu,hx⟩
        · exact ⟨v,by simp,hx⟩
        · exact ⟨u,by simp [hu],hx⟩
    intro w hw
    refine Emits.after (checkTag_sends (S := fun _ => False) _ info.tag) (fun isTarget => ?_)
      { w with consumers := { w.consumers with
        eventHandlers := w.consumers.eventHandlers.insert v
          (w.consumers.eventHandlers[v]?.getD (none,⟨[],[]⟩)) } } hw
    cases isTarget with
    | false => exact hrest
    | true =>
      simp only [if_true]
      cases (w.consumers.eventHandlers[v]?.getD (none,⟨[],[]⟩)).1 with
      | none => exact .after (.throw _) fun _ => hrest
      | some h => exact .after (.silent fun w hw => ⟨hw,rfl⟩) fun _ => hreacts

theorem callConsumer_sends (hreact : ∀ v, Sends (Under path v) (react v)) (info : PublishParams)
    (d : Bytes) (id : Id) :
    Sends (fun x => ∃ v, Under path v x) (callConsumer regex react info d id) := by
  intro w hw
  have hordered : (w.consumers.handlers info.queueName).toList.Pairwise (· < ·) :=
    ExtTreeSet.ordered_toList.imp compare_eq_lt.mp
  exact (callEach_sends hreact info d id _ hordered).mono (fun x ⟨v,_,hx⟩ => ⟨v,hx⟩) w hw

def Serves (path : Path) (ls : List (Id × QueueListener)) (x : Path × Id) : Prop :=
  (x.1 = path ∧ ∃ y ∈ ls, x.2 = y.1) ∨ (∃ y ∈ ls, y.1 = ServerID) ∧ ∃ v, Under path v x

theorem onSendToClient_sends (hreact : ∀ v, Sends (Under path v) (react v)) (p : PublishParams)
    (rd : Bytes) (y : Id × QueueListener) :
    Sends (Serves path [y]) (onSendToClient regex path react p rd y.1) := by
  unfold onSendToClient
  by_cases hid : y.1 = ServerID
  · simp only [hid,beq_self_eq_true,if_true]
    exact (callConsumer_sends hreact p rd ServerID).mono fun x hx => .inr ⟨⟨y,by simp,hid⟩,hx⟩
  · simp only [beq_iff_eq,hid,if_false]
    refine .after (.silent fun w hw => ?_) fun _ w hw => ?_
    · rw [onServer_final]
      have hsame := (Server.onSendToClient_delivers p rd y.1 w.log.server).node
      exact ⟨by simpa only [hsame] using hw,rfl⟩
    · exact ⟨hw,[(path,y.1)],rfl,by simp,fun x hx => .inl (by simp [List.mem_singleton.mp hx])⟩

theorem Serves.earlier {y : Id × QueueListener} {ls : List (Id × QueueListener)}
    (hy : ∀ z ∈ ls, y.1 < z.1) (hcap : ∀ z ∈ ls, z.1 ≤ ServerID) {a b : Path × Id}
    (ha : Serves path [y] a) (hb : Serves path ls b) : Earlier a b := by
  rcases ha with ⟨hpath,z,hz,hid⟩ | ⟨⟨z,hz,hserver⟩,-⟩
  · obtain rfl := List.mem_singleton.mp hz
    rcases hb with ⟨hpath',u,hu,hid'⟩ | ⟨-,v,j,rest,hv⟩
    · exact .inr ⟨hpath.trans hpath'.symm,by rw [hid,hid']; exact hy u hu⟩
    · refine .inl ?_
      rw [hpath,hv]
      exact Path.precedes_append path _ rest
  · -- nothing comes after the server
    obtain rfl := List.mem_singleton.mp hz
    obtain ⟨u,hu⟩ : ∃ u, u ∈ ls := by
      rcases hb with ⟨-,u,hu,-⟩ | ⟨⟨u,hu,-⟩,-⟩
      · exact ⟨u,hu⟩
      · exact ⟨u,hu⟩
    have hlt := hy u hu
    rw [hserver] at hlt
    exact absurd hlt (UInt64.not_lt.mpr (hcap u hu))

theorem deliver_sends (hreact : ∀ v, Sends (Under path v) (react v)) (p : PublishParams)
    (rd : Bytes) (ls : List (Id × QueueListener)) (hls : ls.Pairwise (fun x y => x.1 < y.1))
    (hcap : ∀ x ∈ ls, x.1 ≤ ServerID) :
    Sends (Serves path ls)
      (Node.deliver (checkTag regex) (onSendToClient regex path react) p rd ls) := by
  induction ls with
  | nil => exact .pure ()
  | cons y ls ih =>
    obtain ⟨hy,hls⟩ := List.pairwise_cons.mp hls
    have hcap' : ∀ x ∈ ls, x.1 ≤ ServerID := fun x hx => hcap x (by simp [hx])
    have hrest := ih hls hcap'
    have htail : ∀ x, Serves path ls x → Serves path (y :: ls) x := by
      rintro x (⟨hp,z,hz,hid⟩ | ⟨⟨z,hz,hs⟩,hv⟩)
      · exact .inl ⟨hp,z,by simp [hz],hid⟩
      · exact .inr ⟨⟨z,by simp [hz],hs⟩,hv⟩
    have hhead : ∀ x, Serves path [y] x → Serves path (y :: ls) x := by
      rintro x (⟨hp,z,hz,hid⟩ | ⟨⟨z,hz,hs⟩,hv⟩)
      · exact .inl ⟨hp,z,by simp [List.mem_singleton.mp hz],hid⟩
      · exact .inr ⟨⟨z,by simp [List.mem_singleton.mp hz],hs⟩,hv⟩
    have hserved : Sends (Serves path (y :: ls)) (do
        onSendToClient regex path react p rd y.1
        Node.deliver (checkTag regex) (onSendToClient regex path react) p rd ls) :=
      ((onSendToClient_sends hreact p rd y).bind (fun _ => hrest)
        fun a b ha hb => ha.earlier hy hcap' hb).mono fun x hx => hx.elim (hhead x) (htail x)
    have htarget : ∀ isTarget : Bool, Sends (Serves path (y :: ls)) (if isTarget = true then do
        onSendToClient regex path react p rd y.1
        Node.deliver (checkTag regex) (onSendToClient regex path react) p rd ls
        else Node.deliver (checkTag regex) (onSendToClient regex path react) p rd ls) := by
      intro isTarget
      cases isTarget with
      | false => exact hrest.mono htail
      | true => exact hserved
    obtain ⟨clientId,ql⟩ := y
    unfold Node.deliver
    split
    · split
      · exact .after (.pure true) htarget
      · exact .after (checkTag_sends _ _) htarget
    · exact hrest.mono htail

theorem nodePublish_sends (hreact : ∀ v, Sends (Under path v) (react v)) (p : PublishParams)
    (rd : Bytes) : Sends (fun x => path <+: x.1) (nodePublish regex path react p rd) := by
  intro w hw
  obtain ⟨hordered,hcap⟩ := hw.ordered p.queueName
  refine (deliver_sends hreact p rd _ hordered hcap).mono (fun x hx => ?_) _
    (hw.localCopy p.queueName)
  rcases hx with ⟨hp,-⟩ | ⟨-,v,j,rest,hp⟩
  · rw [hp]
  · rw [hp]
    exact List.prefix_append _ _

theorem times_sends (path : Path) (v : Id) {x : Nat → QueueServerM Unit}
    (hx : ∀ j, Sends (fun y => (path ++ [(v,j)]) <+: y.1) (x j)) (n : Nat) :
    Sends (Under path v) (times n x) := by
  refine (Emits.times hx (fun i j x y hij hx hy => ?_) n).mono fun x hx => ?_
  · obtain ⟨rest,hx⟩ := hx
    obtain ⟨rest',hy⟩ := hy
    refine .inl ?_
    rw [← hx,← hy,List.append_assoc,List.append_assoc]
    exact Path.append_precedes path (.right _ hij) rest rest'
  · obtain ⟨j,-,rest,hx⟩ := hx
    exact ⟨j,rest,by rw [← hx]; simp⟩

theorem call_sends (regex : RegexCompiler) (c : ConsumerCall) (path : Path) :
    Sends (fun x => path <+: x.1) (call regex c path) := by
  have hown : ∀ (call : ServerCall), call.Own → ∀ S : Path × Id → Prop,
      Sends S (onServer (Server.exec regex call)) := by
    intro call own S
    refine .silent fun w hw => ?_
    rw [onServer_final]
    exact ⟨Server.own_capped hw own,rfl⟩
  induction c generalizing path with
  | publish settings data count react ih =>
    exact nodePublish_sends (fun v => times_sends path v (fun j => ih v j _) _) settings data
  | createQueue settings => exact hown _ (.createQueue settings) _
  | subscribe settings => exact hown _ (.subscribe settings) _
  | unsubscribe qname => exact hown _ (.unsubscribe qname) _

theorem reactions_sends (count : Id → Nat) (react : Id → Nat → ConsumerCall) (v : Id) :
    Sends (Under [] v) (reactions regex count react v) :=
  times_sends [] v (fun _ => call_sends regex _ _) _

end Emits

end QueueServer

theorem Server.onSendToClient_outbox {id : Id} (hid : id ≠ ServerID) (p : PublishParams)
    (rd : Bytes) (s : Server) :
    (∃ f s', Server.onSendToClient p rd id s = .error f s' ∧ s'.outbox = s.outbox) ∨
      ∃ c n s', Server.onSendToClient p rd id s = .ok () s' ∧ s.Reachable id c ∧
        s'.outbox = s.outbox ++ [(c.socket,.publish ⟨p.queueName,p.tag,n,rd⟩)] := by
  cases hm : Message.toNetworkMessage (.publish ⟨p.queueName,p.tag,s.nextMessageId,rd⟩) with
  | error f =>
    refine .inl ⟨.fault f,{ s with nextMessageId := s.nextMessageId+1 },?_,rfl⟩
    simp [onSendToClient,hid,sendToId,hm,attempt]
  | ok nd =>
    have hrun := onSendToClient_run hid (Message.sendable_of_ok hm)
    cases hf : s.connections.find? (fun c => c.id == id) with
    | none =>
      rw [hf] at hrun
      exact .inl ⟨_,_,hrun,rfl⟩
    | some c =>
      simp only [hf] at hrun
      by_cases hc : c.socket ∈ s.closed
      · rw [if_pos hc] at hrun
        exact .inl ⟨_,_,hrun,rfl⟩
      · rw [if_neg hc] at hrun
        exact .inr ⟨c,_,_,hrun,⟨hf,hc⟩,rfl⟩

namespace QueueServer

section Tied

variable {regex : RegexCompiler}

structure Tied (w w' : QueueServer) : Prop where
  connections : w'.log.server.connections = w.log.server.connections
  closed : w'.log.server.closed = w.log.server.closed
  outbox : ∃ new out, w'.sent = w.sent ++ new ∧
    w'.log.server.outbox = w.log.server.outbox ++ out ∧
    List.Forall₂ (fun x y => ∃ c m, w.log.server.Reachable x.2 c ∧ y = (c.socket,.publish m))
      new out

theorem Tied.of_eq {w w' : QueueServer}
    (connections : w'.log.server.connections = w.log.server.connections)
    (closed : w'.log.server.closed = w.log.server.closed) (sent : w'.sent = w.sent)
    (outbox : w'.log.server.outbox = w.log.server.outbox) : Tied w w' :=
  ⟨connections,closed,[],[],by simp [sent],by simp [outbox],.nil⟩

theorem Tied.trans (w₁ w₂ w₃ : QueueServer) (h : Tied w₁ w₂) (h' : Tied w₂ w₃) : Tied w₁ w₃ := by
  obtain ⟨new,out,hs,ho,hf⟩ := h.outbox
  obtain ⟨new',out',hs',ho',hf'⟩ := h'.outbox
  refine ⟨h'.connections.trans h.connections,h'.closed.trans h.closed,new ++ new',out ++ out',
    by simp [hs',hs],by simp [ho',ho],List.rel_append hf (hf'.imp ?_)⟩
  rintro x y ⟨c,m,hr,rfl⟩
  rw [Server.Reachable,h.connections,h.closed] at hr
  exact ⟨c,m,hr,rfl⟩

theorem tied_steps : Steps regex Tied where
  refl _ := .of_eq rfl rfl rfl rfl
  trans := Tied.trans
  copy _ _ := .of_eq rfl rfl rfl rfl
  check sp tag w := by
    obtain ⟨cache,hf⟩ := checkTag_final regex sp tag w
    rw [hf]
    exact .of_eq rfl rfl rfl rfl
  send path p rd id hid w := by
    have hdelivers := Server.onSendToClient_delivers p rd id w.log.server
    rw [bind_apply,onServer_run]
    rcases Server.onSendToClient_outbox hid p rd w.log.server with ⟨f,s',hrun,hout⟩ |
      ⟨c,n,s',hrun,hreach,hout⟩
    · rw [hrun] at hdelivers ⊢
      exact .of_eq hdelivers.connections hdelivers.closed rfl hout
    · rw [hrun] at hdelivers ⊢
      exact ⟨hdelivers.connections,hdelivers.closed,[(path,id)],_,rfl,hout,
        .cons ⟨c,_,hreach,rfl⟩ .nil⟩
  consumers react hreact info d id w :=
    callEach_within (fun _ => .of_eq rfl rfl rfl rfl) Tied.trans
      (fun sp tag w => by
        obtain ⟨cache,hf⟩ := checkTag_final regex sp tag w
        rw [hf]
        exact .of_eq rfl rfl rfl rfl)
      (fun _ _ _ => .of_eq rfl rfl rfl rfl) (fun _ _ => .of_eq rfl rfl rfl rfl) hreact w
  node call own w := by
    obtain ⟨n,hn⟩ := Server.own_final regex own w.log.server
    rw [onServer_final,hn]
    exact .of_eq rfl rfl rfl rfl

end Tied

end QueueServer

/-- Any two clients are sent the messages of nested calls of `publish` in the same
order, and a message that a consumer publishes is sent to a client after the message
that it answers. -/
theorem delivery_order (regex : RegexCompiler) (w : QueueServer)
    (capped : ∀ q c, w.log.server.node.listener q c ≠ none → c = ServerID ∨ c < ServerID)
    (p : PublishParams) (rd : Bytes) (count : Id → Nat) (react : Id → Nat → ConsumerCall)
    {w' : QueueServer} (run : w' = final (QueueServer.nodePublish regex []
      (QueueServer.reactions regex count react) p rd w)) :
    ∃ new out, w'.sent = w.sent ++ new ∧
      w'.log.server.outbox = w.log.server.outbox ++ out ∧
      List.Forall₂ (fun x y => ∃ c m, w.log.server.Reachable x.2 c ∧
        y = (c.socket,.publish m)) new out ∧ new.Nodup ∧
      (∀ m₁ m₂ c d, (m₁,c) ∈ new → (m₂,c) ∈ new → (m₁,d) ∈ new → (m₂,d) ∈ new →
        ([(m₁,c),(m₂,c)].Sublist new ↔ [(m₁,d),(m₂,d)].Sublist new)) ∧
      ∀ m answer c, m <+: answer → m ≠ answer → (m,c) ∈ new → (answer,c) ∈ new →
        [(m,c),(answer,c)].Sublist new ∧ ¬ [(answer,c),(m,c)].Sublist new := by
  have hcapped : w.log.server.node.Capped := by
    intro q c hc
    rcases capped q c hc with rfl | hlt
    · exact UInt64.le_refl _
    · exact UInt64.le_of_lt hlt
  obtain ⟨-,new,hnew,hordered,-⟩ :=
    QueueServer.call_sends regex (.publish p rd count react) [] w hcapped
  have htied : QueueServer.Tied w w' := run ▸ QueueServer.tied_steps.call
    (.publish p rd count react) [] w
  obtain ⟨new',out,hnew',hout,hforall⟩ := htied.outbox
  have hsame : new' = new := by
    have hsent : w'.sent = w.sent ++ new := run ▸ hnew
    exact List.append_cancel_left (hnew'.symm.trans hsent)
  subst hsame
  have hirrefl : ∀ x, ¬ Earlier x x := fun x h => Earlier.asymm x x h h
  have hpath : ∀ m₁ m₂ c, [(m₁,c),(m₂,c)].Sublist new' → Path.Precedes m₁ m₂ := by
    intro m₁ m₂ c hsub
    rcases before_of_sublist hordered hsub with h | ⟨-,hlt⟩
    · exact h
    · exact absurd hlt (UInt64.lt_irrefl c)
  have hsub : ∀ m₁ m₂ c, (m₁,c) ∈ new' → (m₂,c) ∈ new' → Path.Precedes m₁ m₂ →
      [(m₁,c),(m₂,c)].Sublist new' := fun m₁ m₂ c h₁ h₂ h =>
    sublist_of_before hordered Earlier.asymm h₁ h₂ (.inl h)
  refine ⟨new',out,hnew',hout,hforall,?_,?_,?_⟩
  · refine hordered.imp fun {x y} h => ?_
    rintro rfl
    exact hirrefl x h
  · intro m₁ m₂ c d h₁ h₂ h₁' h₂'
    exact ⟨fun h => hsub m₁ m₂ d h₁' h₂' (hpath m₁ m₂ c h),
      fun h => hsub m₁ m₂ c h₁ h₂ (hpath m₁ m₂ d h)⟩
  · intro m answer c hprefix hne hm ha
    have hprecedes : Path.Precedes m answer := by
      obtain ⟨rest,rfl⟩ := hprefix
      cases rest with
      | nil => exact absurd (by simp) hne
      | cons x rest => exact Path.precedes_append m x rest
    exact ⟨hsub m answer c hm ha hprecedes,fun h => hprecedes.asymm (hpath answer m c h)⟩

/-- A message of a client that sets no consumer to work. -/
def QueueServerEvent.request (k : Nat) (m : Message) : QueueServerEvent :=
  .message k (received m.wire) (fun _ => 0) (fun _ _ => .unsubscribe [])

/-- Two clients and the server listen to one queue, and the clients to another. -/
def echoServer : QueueServer :=
  (QueueServer.start ∅).run literal [.accept,.accept,.request 0 (.createQueue ⟨[113],0⟩),
    .request 0 (.subscribe ⟨[113],[],1⟩),.request 1 (.subscribe ⟨[113],[],0⟩),
    .request 1 (.createQueue ⟨[114],1⟩),.request 1 (.subscribe ⟨[114],[],2⟩),
    .request 0 (.subscribe ⟨[114],[],2⟩),.subscribe ⟨[113],[]⟩ (some 1)]

/-- The server's consumer answers a message with one to the other queue. -/
def echo : QueueServer :=
  final (QueueServer.nodePublish literal [] (QueueServer.reactions literal (fun _ => 1)
    (fun _ _ => .publish ⟨[114],[]⟩ [6] (fun _ => 0) (fun _ _ => .unsubscribe []))) ⟨[113],[]⟩ [5]
    echoServer)

theorem Node.listener_mem {n : Node} {q : Str} {c : Id} {ql : QueueListener}
    (h : n.listener q c = some ql) : ∃ x ∈ n.subscriptions.toList, (c,ql) ∈ x.2.toList := by
  cases hs : n.subscriptions[q]? with
  | none => simp [Node.listener,Node.listeners,hs] at h
  | some ls =>
    refine ⟨(q,ls),ExtTreeMap.mem_toList_iff_getElem?_eq_some.mpr hs,?_⟩
    refine ExtTreeMap.mem_toList_iff_getElem?_eq_some.mpr ?_
    simpa [Node.listener,Node.listeners,hs] using h

theorem delivery_order_echo :
    echo.sent = [([],0),([],1),([(0,0)],0),([(0,0)],1)] ∧
    ([([],0),([(0,0)],0)].Sublist echo.sent ∧ ¬ [([(0,0)],0),([],0)].Sublist echo.sent) := by
  have hcap : ∀ x ∈ echoServer.log.server.node.subscriptions.toList, ∀ y ∈ x.2.toList,
      y.1 = ServerID ∨ y.1 < ServerID := by decide +kernel
  have hsent : echo.sent = [([],0),([],1),([(0,0)],0),([(0,0)],1)] := by decide +kernel
  have hnone : echoServer.sent = [] := by decide +kernel
  obtain ⟨new,out,hnew,-,-,-,-,hafter⟩ := delivery_order literal echoServer (fun q c hc => by
    obtain ⟨ql,hql⟩ := Option.ne_none_iff_exists'.mp hc
    obtain ⟨x,hx,hy⟩ := Node.listener_mem hql
    exact hcap x hx (c,ql) hy) ⟨[113],[]⟩ [5] (fun _ => 1)
    (fun _ _ => .publish ⟨[114],[]⟩ [6] (fun _ => 0) (fun _ _ => .unsubscribe [])) (rfl : echo = _)
  rw [hnone,List.nil_append] at hnew
  subst hnew
  refine ⟨hsent,hafter [] [(0,0)] 0 (by simp) (by simp) ?_ ?_⟩
  · rw [hsent]
    simp
  · rw [hsent]
    simp

end Dqueue
