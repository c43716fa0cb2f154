import Dqueue.Answers

/-!
What the tag of one subscriber means for the others: two states of the server that
differ in one tag, and the same message in both. A tag is compiled in the delivery
loop, where it may stop the loop.
-/

set_option autoImplicit false

namespace Dqueue
open Std Effects RawMem AsyncIO Queries

structure Node.DifferIn (c : Id) (q : Str) (n n' : Node) : Prop where
  queues : n'.queues = n.queues
  others : ∀ x d, ¬ (x = q ∧ d = c) → n'.listener x d = n.listener x d
  tag : ∃ ql tag', n.listener q c = some ql ∧
    n'.listener q c = some { ql with settings := { ql.settings with tag := tag' } }

namespace QueueServer

section Loop

variable {regex : RegexCompiler} {w₀ : QueueServer}

theorem Ready.capped (ready : w₀.Ready regex) (few : w₀.log.Few) :
    w₀.log.server.node.Capped := by
  intro q c hc
  rcases (ready.books.users c).mp (ready.books.listeners q c hc) with rfl | ⟨i,hi,rfl⟩
  · exact UInt64.le_refl _
  · obtain ⟨he,hlt⟩ := ready.books.mem_accepted (ready.books.mem_connections.mp hi).1
    unfold ServerLog.Few at few
    rw [he,UInt64.le_iff_toNat_le,UInt64.toNat_ofNat_of_lt' (by simp [UInt64.size]; omega)]
    show i.socket ≤ 2147483647
    omega

/-- A frame for an entry of `sent`; those of the call itself have its message. -/
def Frame (p : PublishParams) (rd : Bytes) (w : QueueServer) (x : Path × Id)
    (y : Nat × Message) : Prop :=
  ∃ c m, w.log.server.Reachable x.2 c ∧ y = (c.socket,.publish m) ∧
    (x.1 = [] → m.qname = p.queueName ∧ m.tag = p.tag ∧ m.data = rd)

structure Relays (p : PublishParams) (rd : Bytes) (w w' : QueueServer) : Prop where
  capped : w'.log.server.node.Capped
  connections : w'.log.server.connections = w.log.server.connections
  closed : w'.log.server.closed = w.log.server.closed
  frames : ∃ new out, w'.sent = w.sent ++ new ∧
    w'.log.server.outbox = w.log.server.outbox ++ out ∧ List.Forall₂ (Frame p rd w) new out

variable {p : PublishParams} {rd : Bytes}

theorem Relays.of_eq {w w' : QueueServer} (capped : w'.log.server.node.Capped)
    (connections : w'.log.server.connections = w.log.server.connections)
    (closed : w'.log.server.closed = w.log.server.closed) (sent : w'.sent = w.sent)
    (outbox : w'.log.server.outbox = w.log.server.outbox) : Relays p rd w w' :=
  ⟨capped,connections,closed,[],[],by simp [sent],by simp [outbox],.nil⟩

theorem Relays.trans {w₁ w₂ w₃ : QueueServer} (h : Relays p rd w₁ w₂) (h' : Relays p rd w₂ w₃) :
    Relays p rd w₁ w₃ := by
  obtain ⟨new,out,hs,ho,hf⟩ := h.frames
  obtain ⟨new',out',hs',ho',hf'⟩ := h'.frames
  refine ⟨h'.capped,h'.connections.trans h.connections,h'.closed.trans h.closed,new ++ new',
    out ++ out',by simp [hs',hs],by simp [ho',ho],List.rel_append hf (hf'.imp ?_)⟩
  rintro x y ⟨c,m,hr,hy⟩
  rw [Server.Reachable,h.connections,h.closed] at hr
  exact ⟨c,m,hr,hy⟩

section Handler

variable {count : Id → Nat} {react : Id → Nat → ConsumerCall}

theorem callConsumer_relays {w : QueueServer} (hw : w.log.server.node.Capped) (id : Id) :
    Relays p rd w (final (callConsumer regex (reactions regex count react) p rd id w)) ∧
      ∃ new, (final (callConsumer regex (reactions regex count react) p rd id w)).sent =
        w.sent ++ new ∧ ∀ x ∈ new, x.1 ≠ [] := by
  have hsends : Sends (fun x => ∃ v, Under [] v x)
      (callConsumer regex (reactions regex count react) p rd id) :=
    callConsumer_sends (reactions_sends count react) p rd id
  obtain ⟨hcap,new,hnew,-,hunder⟩ := hsends w hw
  have htied : Tied w (final (callConsumer regex (reactions regex count react) p rd id w)) :=
    tied_steps.consumers _ (tied_steps.reactions count react) p rd id w
  obtain ⟨new',out,hnew',hout,hforall⟩ := htied.outbox
  obtain rfl : new' = new := List.append_cancel_left (hnew'.symm.trans hnew)
  have hpath : ∀ x ∈ new', x.1 ≠ [] := by
    intro x hx he
    obtain ⟨v,j,rest,hp⟩ := hunder x hx
    simp [he] at hp
  refine ⟨⟨hcap,htied.connections,htied.closed,new',out,hnew',hout,?_⟩,new',hnew',hpath⟩
  refine List.Forall₂.imp (fun x y h => ?_) ((List.forall₂_and_left _ _).mpr ⟨hpath,hforall⟩)
  obtain ⟨hne,c,m,hr,rfl⟩ := h
  exact ⟨c,m,hr,rfl,fun he => absurd he hne⟩

theorem onSendToClient_relays {w : QueueServer} (hw : w.log.server.node.Capped) (id : Id) :
    Relays p rd w
      (final (onSendToClient regex [] (reactions regex count react) p rd id w)) := by
  unfold onSendToClient
  by_cases hid : id = ServerID
  · simp only [hid,beq_self_eq_true,if_true]
    exact (callConsumer_relays hw ServerID).1
  · simp only [beq_iff_eq,hid,if_false]
    have hdelivers := Server.onSendToClient_delivers p rd id w.log.server
    rw [bind_apply,onServer_run]
    rcases Server.onSendToClient_outbox hid p rd w.log.server with ⟨f,s',hrun,hout⟩ |
      ⟨c,n,s',hrun,hreach,hout⟩
    · rw [hrun] at hdelivers ⊢
      have hnode : s'.node = w.log.server.node := hdelivers.node
      refine .of_eq ?_ hdelivers.connections hdelivers.closed rfl hout
      show s'.node.Capped
      rwa [hnode]
    · rw [hrun] at hdelivers ⊢
      have hnode : s'.node = w.log.server.node := hdelivers.node
      refine ⟨?_,hdelivers.connections,hdelivers.closed,[([],id)],_,rfl,hout,
        .cons ⟨c,_,hreach,rfl,fun _ => ⟨rfl,rfl,rfl⟩⟩ .nil⟩
      show s'.node.Capped
      rwa [hnode]

theorem nodePublish_relays {w : QueueServer} (hw : w.log.server.node.Capped) :
    Relays p rd w (final (nodePublish regex [] (reactions regex count react) p rd w)) := by
  have hcopy : Relays p rd w { w with log := { w.log with server := { w.log.server with
      node := (w.log.server.node.localCopy p.queueName).1 } } } :=
    .of_eq (hw.localCopy p.queueName) rfl rfl rfl rfl
  refine hcopy.trans (Node.deliver_within
    (R := fun a b : QueueServer => a.log.server.node.Capped → Relays p rd a b)
    (fun _ h => .of_eq h rfl rfl rfl rfl) (fun _ _ _ h h' ha => (h ha).trans (h' (h ha).capped))
    (fun sp tag w hw => ?_) (fun id w hw => onSendToClient_relays hw id) _ _ hcopy.capped)
  obtain ⟨cache,hf⟩ := checkTag_final regex sp tag w
  rw [hf]
  exact .of_eq hw rfl rfl rfl rfl

variable (ready : w₀.Ready regex)
include ready

theorem callEach_ok (info : PublishParams) (d : Bytes) (id : Id) (vs : List Id)
    (hvs : ∀ v ∈ vs, ∃ h sp, w₀.consumers.eventHandlers[v]? = some (some h,sp)) {w w' : QueueServer}
    (hq : Quiet regex w₀ w)
    (hrun : callEach regex (reactions regex count react) info d id vs w = .ok () w') :
    ∀ v ∈ vs, ∀ es : Option EventConsumer × SubscriptionParams,
      w₀.consumers.eventHandlers[v]? = some es → ¬ Uncompilable regex es.2.tag := by
  induction vs generalizing w with
  | nil => simp
  | cons u vs ih =>
    obtain ⟨h,sp,hes⟩ := hvs u (by simp)
    rw [callEach_cons ready _ info d id vs hq hes] at hrun
    rcases checkTag_run (ready.quiet hq).sound sp info.tag with ⟨-,e,hcheck⟩ |
      ⟨htag,cache,hsound,hcheck⟩
    · rw [hcheck] at hrun
      cases hrun
    · rw [hcheck] at hrun
      have hq' := hq.trans _ _ _ (.recached w hsound)
      have hrest : ∀ v ∈ vs, ∀ es : Option EventConsumer × SubscriptionParams,
          w₀.consumers.eventHandlers[v]? = some es → ¬ Uncompilable regex es.2.tag := by
        cases ht : tagMatches regex sp.tag info.tag with
        | false =>
          rw [ht] at hrun
          exact ih (fun v hv => hvs v (by simp [hv])) hq' hrun
        | true =>
          rw [ht] at hrun
          have hq₁ := hq'.trans _ _ _ (.consumed _ (w.consumers.consumed ++ [(h,info,d,id)]))
          have hreact : Within (Quiet regex) (reactions regex count react u) :=
            quiet_steps.reactions count react u
          obtain ⟨a,w₁,hrun₁,hrun⟩ := bind_ok hrun
          exact ih (fun v hv => hvs v (by simp [hv])) (hq₁.trans _ _ _ (hreact.of_ok hrun₁)) hrun
      intro v hv es hes'
      rcases List.mem_cons.mp hv with rfl | hv
      · rw [hes] at hes'
        cases hes'
        exact htag
      · exact hrest v hv es hes'

variable (few : w₀.log.Few)
include few

omit ready few in
theorem onServer_sent (x : ServerM Unit) (w : QueueServer) :
    (final (onServer x w)).sent = w.sent := by
  rw [onServer_final]

theorem onSendToClient_ok {id : Id} {w w' : QueueServer} (hq : Quiet regex w₀ w)
    (hrun : onSendToClient regex [] (reactions regex count react) p rd id w = .ok () w') :
    Quiet regex w₀ w' ∧ (id = ServerID → w₀.Compile regex p.queueName) ∧
      ∃ new, w'.sent = w.sent ++ new ∧ ∀ d, ([],d) ∈ new ↔ d ≠ ServerID ∧ d = id := by
  unfold onSendToClient at hrun
  by_cases hid : id = ServerID
  · simp only [hid,beq_self_eq_true,if_true] at hrun
    have hquiet : Within (Quiet regex) (callConsumer regex (reactions regex count react) p rd
        ServerID) := quiet_steps.consumers _ (quiet_steps.reactions count react) p rd ServerID
    have few' : w.log.Few := by
      rw [hq.log]
      exact few
    have hrelays : ∃ new, (final (callConsumer regex (reactions regex count react) p rd ServerID
        w)).sent = w.sent ++ new ∧ ∀ x ∈ new, x.1 ≠ [] :=
      (callConsumer_relays ((ready.quiet hq).capped few') ServerID).2
    obtain ⟨new,hnew,hpath⟩ := hrelays
    rw [hrun] at hnew
    refine ⟨hq.trans _ _ _ (hquiet.of_ok hrun),fun _ => ?_,new,hnew,
      fun d => ⟨fun hd => absurd rfl (hpath _ hd),fun hd => absurd (hd.2.trans hid) hd.1⟩⟩
    have hhandlers : w.consumers.handlers p.queueName = w₀.consumers.handlers p.queueName := by
      rw [Consumers.handlers,(hq.registry ready.present).queues]
      rfl
    rw [callConsumer,bind_apply,get_apply] at hrun
    simp only [hhandlers] at hrun
    have hok := callEach_ok ready p rd ServerID _
      (fun v hv => ready.entry (ExtTreeSet.mem_toList.mp hv)) hq hrun
    exact fun v hv => hok v (ExtTreeSet.mem_toList.mpr hv)
  · simp only [beq_iff_eq,hid,if_false] at hrun
    have hquiet : Within (Quiet regex) (do
        onServer (Server.onSendToClient p rd id)
        modify (fun w : QueueServer => { w with sent := w.sent ++ [([],id)] })) :=
      quiet_steps.send [] p rd id hid
    refine ⟨hq.trans _ _ _ (hquiet.of_ok hrun),fun he => absurd he hid,[([],id)],?_,fun d => ?_⟩
    · obtain ⟨a,w₁,hsend,hnote⟩ := bind_ok hrun
      have hsame := onServer_sent (Server.onSendToClient p rd id) w
      rw [hsend] at hsame
      cases hnote
      rw [← hsame]
      rfl
    · constructor
      · intro hd
        have he : d = id := by simpa using hd
        exact ⟨he ▸ hid,he⟩
      · rintro ⟨-,rfl⟩
        simp

theorem deliver_ok (ls : List (Id × QueueListener)) {w w' : QueueServer} (hq : Quiet regex w₀ w)
    (hrun : Node.deliver (checkTag regex) (onSendToClient regex [] (reactions regex count react))
      p rd ls w = .ok () w') :
    (∀ x ∈ ls, w₀.Passes regex p x) ∧ ∃ new, w'.sent = w.sent ++ new ∧
      ∀ d, ([],d) ∈ new ↔ d ≠ ServerID ∧ ∃ x ∈ ls, d = x.1 ∧ x.2.isTarget regex p.tag = true := by
  induction ls generalizing w with
  | nil =>
    cases hrun
    exact ⟨by simp,[],by simp,by simp⟩
  | cons x ls ih =>
    rw [Node.deliver_cons] at hrun
    rcases deliver_one (ready.quiet hq).sound [] (reactions regex count react) p rd x with
      ⟨-,e,hone⟩ | ⟨hb,cache,hsound,hone⟩
    · rw [hone] at hrun
      cases hrun
    · rw [hone] at hrun
      have hq' := hq.trans _ _ _ (.recached w hsound)
      cases ht : x.2.isTarget regex p.tag with
      | false =>
        rw [ht] at hrun
        obtain ⟨hpass,new,hnew,hmem⟩ := ih hq' hrun
        refine ⟨fun y hy => ?_,new,hnew,fun d => ?_⟩
        · rcases List.mem_cons.mp hy with rfl | hy
          · exact ⟨hb,fun _ ht' => absurd (ht.symm.trans ht') (by simp)⟩
          · exact hpass y hy
        · rw [hmem]
          simp [ht]
      | true =>
        rw [ht,if_pos rfl] at hrun
        split at hrun
        · rename_i a w₁ hsend
          obtain ⟨hq₁,hserver,new₁,hnew₁,hmem₁⟩ := onSendToClient_ok ready few hq' hsend
          obtain ⟨hpass,new,hnew,hmem⟩ := ih hq₁ hrun
          refine ⟨fun y hy => ?_,new₁ ++ new,?_,fun d => ?_⟩
          · rcases List.mem_cons.mp hy with rfl | hy
            · exact ⟨hb,fun he _ => hserver he⟩
            · exact hpass y hy
          · rw [hnew,hnew₁,List.append_assoc]
            rfl
          · rw [List.mem_append,hmem₁,hmem]
            constructor
            · rintro (⟨hd,rfl⟩ | ⟨hd,y,hy,hty⟩)
              · exact ⟨hd,x,by simp,rfl,ht⟩
              · exact ⟨hd,y,by simp [hy],hty⟩
            · rintro ⟨hd,y,hy,rfl,hty⟩
              rcases List.mem_cons.mp hy with rfl | hy
              · exact .inl ⟨hd,rfl⟩
              · exact .inr ⟨hd,y,hy,rfl,hty⟩
        · cases hrun

def Unhindered (regex : RegexCompiler) (w : QueueServer) (p : PublishParams) : Prop :=
  ∀ d ql, w.log.server.node.listener p.queueName d = some ql → w.Passes regex p (d,ql)

theorem nodePublish_ok {w' : QueueServer}
    (hrun : nodePublish regex [] (reactions regex count react) p rd w₀ = .ok () w') :
    (¬ w₀.log.server.node.HasQueue p.queueName ∨ w₀.Unhindered regex p) ∧
      ∃ new, w'.sent = w₀.sent ++ new ∧ ∀ d, ([],d) ∈ new ↔ d ≠ ServerID ∧
        w₀.log.server.node.HasQueue p.queueName ∧
        ∃ ql, w₀.log.server.node.listener p.queueName d = some ql ∧
          ql.isTarget regex p.tag = true := by
  obtain ⟨hpass,new,hnew,hmem⟩ := deliver_ok ready few _ (quiet_steps.copy w₀ p.queueName) hrun
  refine ⟨?_,new,hnew,fun d => ?_⟩
  · by_cases hq : w₀.log.server.node.HasQueue p.queueName
    · exact .inr fun d ql hl => hpass (d,ql) (Node.mem_localCopy.mpr ⟨hq,hl⟩)
    · exact .inl hq
  · rw [hmem]
    refine and_congr_right fun _ => ?_
    constructor
    · rintro ⟨⟨c,ql⟩,hx,rfl,ht⟩
      obtain ⟨hq,hl⟩ := Node.mem_localCopy.mp hx
      exact ⟨hq,ql,hl,ht⟩
    · rintro ⟨hq,ql,hl,ht⟩
      exact ⟨(d,ql),Node.mem_localCopy.mpr ⟨hq,hl⟩,rfl,ht⟩

def ConsumersReturn (regex : RegexCompiler) (count : Id → Nat) (react : Id → Nat → ConsumerCall)
    (w₀ : QueueServer) : Prop :=
  ∀ v w, Quiet regex w₀ w → thrown (reactions regex count react v w) = none

theorem nodePublish_returns_of (hreturns : ConsumersReturn regex count react w₀)
    (hs : Message.Sendable (.publish ⟨p.queueName,p.tag,0,rd⟩))
    (hpass : ¬ w₀.log.server.node.HasQueue p.queueName ∨ w₀.Unhindered regex p) :
    ∃ w', nodePublish regex [] (reactions regex count react) p rd w₀ = .ok () w' := by
  have hreact : ∀ v, Returns regex (fun _ => True) w₀ (reactions regex count react v) := by
    intro v
    refine .of_quiet (quiet_steps.reactions count react v) fun w hq _ => ?_
    have hnone := hreturns v w hq
    cases hrun : reactions regex count react v w with
    | ok a w' => exact ⟨a,w',rfl,trivial⟩
    | error e w' =>
      rw [hrun] at hnone
      cases hnone
  have hls : ∀ x ∈ (w₀.log.server.node.localCopy p.queueName).2,
      w₀.log.server.users.exists x.1 = true ∧ w₀.Passes regex p x := by
    intro x hx
    obtain ⟨hq,hl⟩ := Node.mem_localCopy.mp hx
    exact ⟨ready.books.listeners p.queueName x.1 (by simp [hl]),
      (hpass.resolve_left fun h => h hq) x.1 x.2 hl⟩
  obtain ⟨a,w',hrun,-,-⟩ := deliver_returns ready few hreact [] hs _ hls _
    (quiet_steps.copy w₀ p.queueName) trivial
  exact ⟨w',hrun⟩

end Handler

/-- The outcome of a client's PUBLISH: the entries of `sent` with their frames, followed
by the OK or by nothing. -/
structure Handled (regex : RegexCompiler) (count : Id → Nat) (react : Id → Nat → ConsumerCall)
    (i : ClientConnection) (cs : Publish) (w : QueueServer) (new : List (Path × Id))
    (oks : List (Nat × Message)) : Prop where
  sent : (final (onNewMessage regex (reactions regex count react) i
    (received (Message.wire (.publish cs))) w)).sent = w.sent ++ new
  outbox : ∃ out, (final (onNewMessage regex (reactions regex count react) i
      (received (Message.wire (.publish cs))) w)).log.server.outbox =
        w.log.server.outbox ++ (out ++ oks) ∧
    List.Forall₂ (Frame ⟨cs.qname,cs.tag⟩ cs.data w) new out
  oks : oks = [] ∨ oks = [(i.socket,.ok ⟨cs.messageId⟩)]

theorem handled_publish {count : Id → Nat} {react : Id → Nat → ConsumerCall}
    (ready : w₀.Ready regex) (few : w₀.log.Few) (hreturns : ConsumersReturn regex count react w₀)
    {i : ClientConnection} (hopen : i.socket ∉ w₀.log.server.closed) {cs : Publish}
    (hs : Message.Sendable (.publish cs)) :
    ∃ new oks, Handled regex count react i cs w₀ new oks ∧
      (oks ≠ [] ↔ ¬ w₀.log.server.node.HasQueue cs.qname ∨
        w₀.Unhindered regex ⟨cs.qname,cs.tag⟩) ∧
      (oks ≠ [] → ∀ d, ([],d) ∈ new ↔ d ≠ ServerID ∧ w₀.log.server.node.HasQueue cs.qname ∧
        ∃ ql, w₀.log.server.node.listener cs.qname d = some ql ∧
          ql.isTarget regex cs.tag = true) := by
  have hmessage : onNewMessage regex (reactions regex count react) i
      (received (Message.wire (.publish cs))) w₀ =
      handle regex (reactions regex count react) i (.publish cs) w₀ := by
    rw [onNewMessage,bind_apply,Message.ofFrame_run hs (received_frame _),
      if_pos (by simp [Message.kind])]
  have hrelays : Relays ⟨cs.qname,cs.tag⟩ cs.data w₀ (final (nodePublish regex []
      (reactions regex count react) ⟨cs.qname,cs.tag⟩ cs.data w₀)) :=
    nodePublish_relays (ready.capped few)
  obtain ⟨new,out,hnew,hout,hforall⟩ := hrelays.frames
  cases hrun : nodePublish regex [] (reactions regex count react) ⟨cs.qname,cs.tag⟩ cs.data w₀ with
  | error f w' =>
    rw [hrun] at hnew hout
    have hhandle : handle regex (reactions regex count react) i (.publish cs) w₀ = .error f w' := by
      rw [handle,bind_apply,hrun]
    refine ⟨new,[],⟨?_,⟨out,?_,hforall⟩,.inl rfl⟩,?_,fun h => absurd rfl h⟩
    · rw [hmessage,hhandle]
      exact hnew
    · rw [hmessage,hhandle,List.append_nil]
      exact hout
    · refine ⟨fun h => absurd rfl h,fun hpass => ?_⟩
      have hreturns' : ∃ w₁, nodePublish regex [] (reactions regex count react)
          ⟨cs.qname,cs.tag⟩ cs.data w₀ = .ok () w₁ :=
        nodePublish_returns_of ready few hreturns hs hpass
      obtain ⟨w₁,hok⟩ := hreturns'
      rw [hrun] at hok
      cases hok
  | ok a w' =>
    rw [hrun] at hnew hout
    obtain ⟨hpass,new',hnew',hmem⟩ := nodePublish_ok ready few hrun
    obtain rfl : new' = new := List.append_cancel_left (hnew'.symm.trans hnew)
    have hclosed : w'.log.server.closed = w₀.log.server.closed := by
      have hc := hrelays.closed
      rwa [hrun] at hc
    have hhandle : handle regex (reactions regex count react) i (.publish cs) w₀ = .ok ()
        { w' with log := { w'.log with server := { w'.log.server with
          executed := w'.log.server.executed ++ [(i,.publish cs)]
          outbox := w'.log.server.outbox ++ [(i.socket,.ok ⟨cs.messageId⟩)] } } } := by
      rw [handle,bind_apply,hrun]
      show onServer (Server.acknowledge i (.publish cs) cs.messageId) w' = _
      rw [onServer_run,Server.acknowledge_run (by rwa [hclosed])]
    refine ⟨new',[(i.socket,.ok ⟨cs.messageId⟩)],⟨?_,⟨out,?_,hforall⟩,.inr rfl⟩,?_,fun _ => hmem⟩
    · rw [hmessage,hhandle]
      exact hnew
    · rw [hmessage,hhandle]
      show w'.log.server.outbox ++ _ = _
      rw [← List.append_assoc,← hout]
      rfl
    · exact ⟨fun _ => hpass,fun _ => by simp⟩

end Loop

end QueueServer

/-- A message of another client is delivered alike in two states that differ in the
tag of `c`'s subscription, and answered in both, exactly when the queue does not exist
or no tag that the delivery compiles is invalid in either. -/
theorem subscribers_separate_iff (regex : RegexCompiler) {cache₁ cache₂ : ReCache}
    (sound₁ : ReCache.Sound regex cache₁) (sound₂ : ReCache.Sound regex cache₂)
    (events₁ events₂ : List QueueServerEvent) {w₁ w₂ : QueueServer}
    (run₁ : w₁ = (QueueServer.start cache₁).run regex events₁)
    (run₂ : w₂ = (QueueServer.start cache₂).run regex events₂)
    (defined₁ : Runs.Along (QueueServer.step regex) (QueueServer.Defined regex)
      (QueueServer.start cache₁) events₁)
    (defined₂ : Runs.Along (QueueServer.step regex) (QueueServer.Defined regex)
      (QueueServer.start cache₂) events₂)
    (few₁ : w₁.log.accepted.length < 2^31-1) (few₂ : w₂.log.accepted.length < 2^31-1)
    {c : Id} {q : Str} (differ : w₁.log.server.node.DifferIn c q w₂.log.server.node)
    (count : Id → Nat) (react : Id → Nat → ConsumerCall)
    (returns₁ : QueueServer.ConsumersReturn regex count react w₁)
    (returns₂ : QueueServer.ConsumersReturn regex count react w₂)
    {i : ClientConnection} (open₁ : i.socket ∉ w₁.log.server.closed)
    (open₂ : i.socket ∉ w₂.log.server.closed) (cs : Publish) (queue : cs.qname = q)
    (sendable : Message.Sendable (.publish cs)) :
    ∃ new₁ oks₁ new₂ oks₂, QueueServer.Handled regex count react i cs w₁ new₁ oks₁ ∧
      QueueServer.Handled regex count react i cs w₂ new₂ oks₂ ∧
      (((∀ d, d ≠ c → (([],d) ∈ new₁ ↔ ([],d) ∈ new₂)) ∧ oks₁ ≠ [] ∧ oks₂ ≠ []) ↔
        ¬ w₁.log.server.node.HasQueue q ∨ (w₁.Unhindered regex ⟨q,cs.tag⟩ ∧
          w₂.Unhindered regex ⟨q,cs.tag⟩)) := by
  subst queue
  have ready₁ : w₁.Ready regex := run₁ ▸ QueueServer.run_ready sound₁ defined₁ (run₁ ▸ few₁)
  have ready₂ : w₂.Ready regex := run₂ ▸ QueueServer.run_ready sound₂ defined₂ (run₂ ▸ few₂)
  obtain ⟨new₁,oks₁,handled₁,hok₁,hnew₁⟩ :=
    QueueServer.handled_publish ready₁ few₁ returns₁ open₁ sendable
  obtain ⟨new₂,oks₂,handled₂,hok₂,hnew₂⟩ :=
    QueueServer.handled_publish ready₂ few₂ returns₂ open₂ sendable
  have hqueue : w₂.log.server.node.HasQueue cs.qname ↔ w₁.log.server.node.HasQueue cs.qname := by
    rw [Node.HasQueue,Node.HasQueue,differ.queues]
  refine ⟨new₁,oks₁,new₂,oks₂,handled₁,handled₂,?_⟩
  constructor
  · rintro ⟨-,h₁,h₂⟩
    by_cases hq : w₁.log.server.node.HasQueue cs.qname
    · exact .inr ⟨(hok₁.mp h₁).resolve_left fun h => h hq,
        (hok₂.mp h₂).resolve_left fun h => h (hqueue.mpr hq)⟩
    · exact .inl hq
  · intro h
    have h₁ : oks₁ ≠ [] := hok₁.mpr (h.imp_right And.left)
    have h₂ : oks₂ ≠ [] := hok₂.mpr (h.imp (fun hn h => hn (hqueue.mp h)) And.right)
    refine ⟨fun d hd => ?_,h₁,h₂⟩
    rw [hnew₁ h₁,hnew₂ h₂,hqueue,differ.others cs.qname d fun he => hd he.2]

def strict : RegexCompiler := fun re => if re = [91] then none else literal re

def twoListeners : List QueueServerEvent :=
  [.accept,.accept,.accept,.request 2 (.createQueue ⟨[113],0⟩),
    .request 1 (.subscribe ⟨[113],[],0⟩)]

def tagged (tag : Str) : List QueueServerEvent :=
  twoListeners ++ [.request 0 (.subscribe ⟨[113],tag,0⟩)]

theorem Node.changed_differIn (n : Node) (c : Id) (q tag tag' : Str) :
    (n.changed .Subscribe ⟨q,tag⟩ c).DifferIn c q (n.changed .Subscribe ⟨q,tag'⟩ c) := by
  refine ⟨rfl,fun x d hne => ?_,?_⟩
  · have hne' : ¬ (q = x ∧ c = d) := fun h => hne ⟨h.1.symm,h.2.symm⟩
    rw [Node.listener_changed,Node.listener_changed,if_neg hne',if_neg hne']
  · simp only [Node.listener_changed,and_self,if_true,reduceCtorEq,if_false]
    cases n.listener q c with
    | none => exact ⟨_,tag',rfl,rfl⟩
    | some ql => exact ⟨_,tag',rfl,rfl⟩

theorem tagged_node {tag : Str} (hs : Message.Sendable (.subscribe ⟨[113],tag,0⟩)) :
    ((QueueServer.start ∅).run strict (tagged tag)).log.server.node =
      ((QueueServer.start ∅).run strict twoListeners).log.server.node.changed .Subscribe
        ⟨[113],tag⟩ 0 := by
  have hk : ((QueueServer.start ∅).run strict twoListeners).log.accepted[0]? = some ⟨0,0⟩ := by
    decide +kernel
  have hu : ((QueueServer.start ∅).run strict twoListeners).log.server.users.exists 0 = true := by
    decide +kernel
  rw [tagged,QueueServer.run,List.foldl_append]
  show (QueueServer.step strict ((QueueServer.start ∅).run strict twoListeners)
    _).log.server.node = _
  generalize (QueueServer.start ∅).run strict twoListeners = w at hk hu
  rw [QueueServer.step,QueueServerEvent.request,QueueServer.exec,bind_apply,get_apply]
  simp only [hk]
  rw [QueueServer.onNewMessage,bind_apply,Message.ofFrame_run hs (received_frame _),
    if_pos (by simp [Message.kind])]
  simp only [QueueServer.handle,QueueServer.onServer_final,Server.handle,bind_apply,get_apply,
    Server.onNode_run,Node.changeSubscription,Node.changeSubscriptionImpl_run,hu,reduceCtorEq,
    false_and,if_false]
  obtain ⟨oks,hf,-⟩ := Server.acknowledge_final ⟨0,0⟩ (.subscribe ⟨[113],tag,0⟩) 0
    { w.log.server with node := w.log.server.node.changed .Subscribe ⟨[113],tag⟩ 0 }
  rw [hf]

theorem unhindered_of_tags {w : QueueServer} {p : PublishParams}
    (htags : ∀ x ∈ w.log.server.node.subscriptions.toList, ∀ y ∈ x.2.toList,
      y.2.settings.tag ≠ [91])
    (hnone : (w.consumers.handlers p.queueName).toList = []) : w.Unhindered strict p := by
  intro d ql hl
  refine ⟨fun hb => ?_,fun _ _ v hv => ?_⟩
  · obtain ⟨x,hx,hy⟩ := Node.listener_mem hl
    have htag : ql.settings.tag ≠ [91] := htags x hx (d,ql) hy
    refine absurd hb.2.2 ?_
    simp [strict,htag,literal]
  · rw [← ExtTreeSet.mem_toList,hnone] at hv
    cases hv

theorem subscribers_separate_iff_other_tag :
    ∃ new₁ oks₁ new₂ oks₂,
      QueueServer.Handled strict (fun _ => 0) (fun _ _ => .unsubscribe []) ⟨2,2⟩
        ⟨[113],[98],7,[5]⟩ ((QueueServer.start ∅).run strict (tagged [97])) new₁ oks₁ ∧
      QueueServer.Handled strict (fun _ => 0) (fun _ _ => .unsubscribe []) ⟨2,2⟩
        ⟨[113],[98],7,[5]⟩ ((QueueServer.start ∅).run strict (tagged [98])) new₂ oks₂ ∧
      (∀ d, d ≠ 0 → (([],d) ∈ new₁ ↔ ([],d) ∈ new₂)) ∧ oks₁ ≠ [] ∧ oks₂ ≠ [] := by
  have hdiffer : ((QueueServer.start ∅).run strict (tagged [97])).log.server.node.DifferIn 0 [113]
      ((QueueServer.start ∅).run strict (tagged [98])).log.server.node := by
    rw [tagged_node (by decide),tagged_node (by decide)]
    exact Node.changed_differIn _ 0 [113] [97] [98]
  obtain ⟨new₁,oks₁,new₂,oks₂,h₁,h₂,hiff⟩ := subscribers_separate_iff strict ReCache.Sound.empty
    ReCache.Sound.empty (tagged [97]) (tagged [98]) rfl rfl (by decide +kernel) (by decide +kernel)
    (by decide +kernel) (by decide +kernel) hdiffer (fun _ => 0) (fun _ _ => .unsubscribe [])
    (fun _ _ _ => rfl) (fun _ _ _ => rfl) (i := ⟨2,2⟩) (by decide +kernel) (by decide +kernel)
    ⟨[113],[98],7,[5]⟩ rfl (by decide)
  exact ⟨new₁,oks₁,new₂,oks₂,h₁,h₂,hiff.mpr (.inr
    ⟨unhindered_of_tags (by decide +kernel) (by decide +kernel),
      unhindered_of_tags (by decide +kernel) (by decide +kernel)⟩)⟩

/-- The first client subscribes with a tag that is no expression, and neither does the
second get the message nor the publisher its OK. -/
theorem invalid_tag_disturbs :
    ¬ (∀ events₁ events₂ : List QueueServerEvent,
      Runs.Along (QueueServer.step strict) (QueueServer.Defined strict) (QueueServer.start ∅)
        events₁ →
      Runs.Along (QueueServer.step strict) (QueueServer.Defined strict) (QueueServer.start ∅)
        events₂ →
      ∀ c, ((QueueServer.start ∅).run strict events₁).log.server.node.DifferIn c [113]
        ((QueueServer.start ∅).run strict events₂).log.server.node →
      ∀ new₁ oks₁ new₂ oks₂,
        QueueServer.Handled strict (fun _ => 0) (fun _ _ => .unsubscribe []) ⟨2,2⟩
          ⟨[113],[98],7,[5]⟩ ((QueueServer.start ∅).run strict events₁) new₁ oks₁ →
        QueueServer.Handled strict (fun _ => 0) (fun _ _ => .unsubscribe []) ⟨2,2⟩
          ⟨[113],[98],7,[5]⟩ ((QueueServer.start ∅).run strict events₂) new₂ oks₂ →
        (∀ d, d ≠ c → (([],d) ∈ new₁ ↔ ([],d) ∈ new₂)) ∧ oks₁ ≠ [] ∧ oks₂ ≠ []) := by
  intro h
  have hdiffer : ((QueueServer.start ∅).run strict (tagged [97])).log.server.node.DifferIn 0 [113]
      ((QueueServer.start ∅).run strict (tagged [91])).log.server.node := by
    rw [tagged_node (by decide),tagged_node (by decide)]
    exact Node.changed_differIn _ 0 [113] [97] [91]
  have hframe : QueueServer.Frame ⟨[113],[98]⟩ [5] ((QueueServer.start ∅).run strict (tagged [97]))
      ([],1) (1,.publish ⟨[113],[98],0,[5]⟩) :=
    ⟨⟨1,1⟩,⟨[113],[98],0,[5]⟩,⟨by decide +kernel,by decide +kernel⟩,rfl,fun _ => ⟨rfl,rfl,rfl⟩⟩
  obtain ⟨hreceived,-,-⟩ := h (tagged [97]) (tagged [91]) (by decide +kernel) (by decide +kernel) 0
    hdiffer [([],1)] [(2,.ok ⟨7⟩)] [] []
    ⟨by decide +kernel,⟨[(1,.publish ⟨[113],[98],0,[5]⟩)],by decide +kernel,.cons hframe .nil⟩,
      .inr rfl⟩
    ⟨by decide +kernel,⟨[],by decide +kernel,.nil⟩,.inl rfl⟩
  have hone := hreceived 1 (by decide)
  simp at hone

end Dqueue
