import Dqueue.DeliveryOrder

/-!
Every request is answered once. The node's operations and the sends after them do
not throw, because the stores of the server agree: every listener is a user, every
user but the server has an open connection, and every id of a consumer has its
entry.
-/

set_option autoImplicit false

namespace Dqueue
open Std Effects RawMem AsyncIO Queries

structure Consumers.Present (c : Consumers) : Prop where
  consumers : ∀ (v : Id) (es : Option EventConsumer × SubscriptionParams),
    c.eventHandlers[v]? = some es → es.1 ≠ none
  entries : ∀ q v, v ∈ c.handlers q → v ∈ c.eventHandlers

structure Consumers.SameRegistry (c c' : Consumers) : Prop where
  entries : c'.eventHandlers = c.eventHandlers
  queues : c'.queue2handler = c.queue2handler

theorem Consumers.SameRegistry.trans {c₁ c₂ c₃ : Consumers} (h : c₁.SameRegistry c₂)
    (h' : c₂.SameRegistry c₃) : c₁.SameRegistry c₃ :=
  ⟨h'.entries.trans h.entries,h'.queues.trans h.queues⟩

theorem Consumers.Present.same {c c' : Consumers} (h : c.Present) (hs : c.SameRegistry c') :
    c'.Present := by
  refine ⟨hs.entries ▸ h.consumers,fun q v hv => ?_⟩
  rw [Consumers.handlers,hs.queues] at hv
  exact hs.entries ▸ h.entries q v hv

theorem Consumers.insert_entry {c : Consumers} {v : Id} (h : v ∈ c.eventHandlers) :
    c.eventHandlers.insert v (c.eventHandlers[v]?.getD (none,⟨[],[]⟩)) = c.eventHandlers := by
  rw [ExtTreeMap.mem_iff_isSome_getElem?] at h
  refine ExtTreeMap.ext_getElem? fun k => ?_
  rw [ExtTreeMap.getElem?_insert]
  split
  · rename_i hk
    rw [← LawfulEqCmp.compare_eq_iff_eq.mp hk]
    cases he : c.eventHandlers[v]? with
    | none => simp [he] at h
    | some es => rfl
  · rfl

namespace QueueServer

/-- What the calls of consumers leave as it is: nothing but PUBLISH frames goes out. -/
structure Quiet (regex : RegexCompiler) (w w' : QueueServer) : Prop where
  log : w'.log = { w.log with server := w'.log.server }
  users : w'.log.server.users = w.log.server.users
  connections : w'.log.server.connections = w.log.server.connections
  closed : w'.log.server.closed = w.log.server.closed
  nextId : w'.log.server.nextId = w.log.server.nextId
  executed : w'.log.server.executed = w.log.server.executed
  known : w.log.server.users.exists ServerID = true → w.log.server.ListenersKnown →
    w'.log.server.ListenersKnown
  sound : ReCache.Sound regex w.log.server.cache → ReCache.Sound regex w'.log.server.cache
  registry : w.consumers.Present → w.consumers.SameRegistry w'.consumers
  frames : ∃ frames, w'.log.server.outbox = w.log.server.outbox ++ frames ∧
    ∀ x ∈ frames, ∃ p, x.2 = .publish p

section Quiet

variable {regex : RegexCompiler}

theorem Quiet.refl (w : QueueServer) : Quiet regex w w :=
  ⟨rfl,rfl,rfl,rfl,rfl,rfl,fun _ h => h,fun h => h,fun _ => ⟨rfl,rfl⟩,[],by simp,by simp⟩

theorem Quiet.trans (w₁ w₂ w₃ : QueueServer) (h : Quiet regex w₁ w₂) (h' : Quiet regex w₂ w₃) :
    Quiet regex w₁ w₃ := by
  obtain ⟨frames,ho,hf⟩ := h.frames
  obtain ⟨frames',ho',hf'⟩ := h'.frames
  refine ⟨?_,h'.users.trans h.users,h'.connections.trans h.connections,h'.closed.trans h.closed,
    h'.nextId.trans h.nextId,h'.executed.trans h.executed,fun hu hk => ?_,
    fun hs => h'.sound (h.sound hs),fun hp => ?_,frames ++ frames',by simp [ho',ho],fun x hx => ?_⟩
  · rw [h'.log,h.log]
  · exact h'.known (by rwa [h.users]) (h.known hu hk)
  · have hsame := h.registry hp
    exact hsame.trans (h'.registry (hp.same hsame))
  · exact (List.mem_append.mp hx).elim (hf x) (hf' x)

theorem checkTag_quiet (sp : SubscriptionParams) (tag_ : Str) :
    Within (Quiet regex) (checkTag regex sp tag_) := by
  intro w
  have hsound := fun hs : ReCache.Sound regex w.log.server.cache => checkTag_sound hs sp tag_
  rw [checkTag,onServer_final,Server.onCache_run]
  cases hc : sp.checkTag regex tag_ w.log.server.cache with
  | ok b cache =>
    rw [hc] at hsound
    exact ⟨rfl,rfl,rfl,rfl,rfl,rfl,fun _ h => h,hsound,fun _ => ⟨rfl,rfl⟩,[],by simp,by simp⟩
  | error e cache =>
    rw [hc] at hsound
    exact ⟨rfl,rfl,rfl,rfl,rfl,rfl,fun _ h => h,hsound,fun _ => ⟨rfl,rfl⟩,[],by simp,by simp⟩

theorem callConsumer_quiet {react : Id → QueueServerM Unit}
    (hreact : ∀ v, Within (Quiet regex) (react v)) (info : PublishParams) (d : Bytes) (id : Id) :
    Within (Quiet regex) (callConsumer regex react info d id) := by
  intro w
  -- the loop begins in `w`, so that the registry is still that of `w` at each consumer
  have hfrom : ∀ {α : Type} {x : QueueServerM α}, Within (Quiet regex) x →
      Within (fun a b => Quiet regex w a → Quiet regex w b) x :=
    fun hx s hs => hs.trans _ _ _ (hx s)
  refine callEach_within (R := fun a b => Quiet regex w a → Quiet regex w b) (fun _ h => h)
    (fun _ _ _ h h' hw => h' (h hw)) (fun sp tag => hfrom (checkTag_quiet sp tag))
    (fun v hv s hs => ?_) (fun s h hs => ?_) (fun v => hfrom (hreact v)) w (.refl w)
  · refine ⟨hs.log,hs.users,hs.connections,hs.closed,hs.nextId,hs.executed,hs.known,hs.sound,
      fun hp => ⟨?_,(hs.registry hp).queues⟩,hs.frames⟩
    have hentries := (hs.registry hp).entries
    have hmem : v ∈ s.consumers.eventHandlers := by
      rw [hentries]
      exact hp.entries info.queueName v (ExtTreeSet.mem_toList.mp hv)
    exact (Consumers.insert_entry hmem).trans hentries
  · exact hs.trans _ _ _ ⟨rfl,rfl,rfl,rfl,rfl,rfl,fun _ h => h,fun h => h,fun _ => ⟨rfl,rfl⟩,[],
      by simp,by simp⟩

theorem quiet_steps : Steps regex (Quiet regex) where
  refl := Quiet.refl
  trans := Quiet.trans
  copy w q := by
    refine ⟨rfl,rfl,rfl,rfl,rfl,rfl,fun _ hk q' c hc => hk q' c ?_,fun h => h,fun _ => ⟨rfl,rfl⟩,[],
      by simp,by simp⟩
    have hview := (localCopy_views w.log.server.node q).2 q' c
    exact hview ▸ hc
  check := checkTag_quiet
  send path p rd id _ := by
    refine .bind Quiet.trans (fun w => ?_) fun _ => .modify fun w => ?_
    · have h := Server.onSendToClient_delivers p rd id w.log.server
      have hcache := Server.onSendToClient_cache p rd id w.log.server
      obtain ⟨frames,ho,hf⟩ := h.outbox
      rw [onServer_final]
      refine ⟨rfl,h.users,h.connections,h.closed,h.nextId,h.executed,fun _ hk q c hc => ?_,
        fun hs => ?_,fun _ => ⟨rfl,rfl⟩,frames,ho,fun x hx => (hf x hx).2⟩
      · rw [h.users]
        exact hk q c (h.node ▸ hc)
      · show ReCache.Sound regex (final (Server.onSendToClient p rd id w.log.server)).cache
        rw [hcache]
        exact hs
    · exact ⟨rfl,rfl,rfl,rfl,rfl,rfl,fun _ h => h,fun h => h,fun _ => ⟨rfl,rfl⟩,[],by simp,by simp⟩
  consumers react hreact := callConsumer_quiet hreact
  node call own w := by
    obtain ⟨n,hn⟩ := Server.own_final regex own w.log.server
    have hkeeps : Server.Keeps ServerID w.log.server (w.log.server.step regex call) := by
      rw [Server.step,hn]
      exact .of_eq rfl rfl rfl rfl
    have hknown := fun hu (hk : w.log.server.ListenersKnown) => Server.known_of_step hk hu hkeeps
    rw [Server.step,hn] at hknown
    rw [onServer_final,hn]
    exact ⟨rfl,rfl,rfl,rfl,rfl,rfl,hknown,fun h => h,fun _ => ⟨rfl,rfl⟩,[],by simp,by simp⟩

theorem Quiet.books {w w' : QueueServer} (h : Quiet regex w w') (b : w.log.Books) :
    w'.log.Books := by
  rw [h.log]
  exact b.served b.serverUser (.of_eq h.users h.connections h.closed h.nextId)
    (h.known b.serverUser b.listeners)

end Quiet

def Defined (regex : RegexCompiler) (w : QueueServer) (e : QueueServerEvent) : Prop :=
  thrown (exec regex e w) ≠ some .nullDereference

instance (regex : RegexCompiler) (w : QueueServer) (e : QueueServerEvent) :
    Decidable (w.Defined regex e) := inferInstanceAs (Decidable (_ ≠ _))

structure Ready (regex : RegexCompiler) (w : QueueServer) : Prop where
  books : w.log.Books
  sound : ReCache.Sound regex w.log.server.cache
  present : w.consumers.Present

section Ready

variable {regex : RegexCompiler} {w : QueueServer}

theorem Ready.start {cache : ReCache} (sound : ReCache.Sound regex cache) :
    (start cache).Ready regex := by
  refine ⟨.start cache,sound,?_,?_⟩
  · simp [QueueServer.start,Consumers.start]
  · simp [QueueServer.start,Consumers.start,Consumers.handlers]

theorem Ready.quiet {w' : QueueServer} (h : w.Ready regex) (hq : Quiet regex w w') :
    w'.Ready regex :=
  ⟨hq.books h.books,hq.sound h.sound,h.present.same (hq.registry h.present)⟩

theorem Ready.base {e : ServerEvent} (h : w.Ready regex) (few : (w.log.step regex e).Few)
    (few₀ : w.log.Few) (he : w.log.sender e = none) :
    Ready regex { w with log := w.log.step regex e } :=
  ⟨h.books.step few few₀ (by simp [he]),w.log.step_keepsSound e h.sound,h.present⟩

/-- The user of a closed connection is not made anew: the LoginConfirm that follows
cannot be sent. -/
theorem login_closed {i : ClientConnection} (hc : i.socket ∈ w.log.server.closed) (lg : Login)
    (react : Id → QueueServerM Unit) :
    thrown (handle regex react i (.login lg) w) = some .nullDereference := by
  have hsend := Server.sendTo_closed (s := { w.log.server with
    users := w.log.server.users.setLogin i.id lg.login }) hc (loginConfirm_sendable i.id)
  simp only [QueueServer.handle,onServer_run,Server.handle,bind_apply,modify_apply,hsend]
  rfl

theorem Ready.handle (h : w.Ready regex) {react : Id → QueueServerM Unit}
    (hreact : ∀ v, Within (Quiet regex) (react v)) {i : ClientConnection} (hi : i ∈ w.log.accepted)
    {m : Message} (hd : thrown (handle regex react i m w) ≠ some .nullDereference) :
    (final (handle regex react i m w)).Ready regex := by
  -- all but a PUBLISH are handled as without consumers
  have hbase : (final (onServer (Server.handle regex i m) w)).Ready regex := by
    rw [onServer_final]
    refine ⟨?_,Server.handle_keepsSound i m w.log.server h.sound,h.present⟩
    by_cases hc : i.socket ∈ w.log.server.closed
    · refine h.books.late_step fun lg he => ?_
      subst he
      exact hd (login_closed hc lg react)
    · exact h.books.message hi hc m
  cases m with
  | publish cs =>
    have hq : Quiet regex w (final (nodePublish regex [] react ⟨cs.qname,cs.tag⟩ cs.data w)) :=
      quiet_steps.nodePublish [] hreact _ _ w
    have hnext := h.quiet hq
    rw [QueueServer.handle,bind_apply]
    cases hrun : nodePublish regex [] react ⟨cs.qname,cs.tag⟩ cs.data w with
    | error f w' =>
      rw [hrun] at hnext
      exact hnext
    | ok a w' =>
      rw [hrun] at hnext
      obtain ⟨oks,hf,-⟩ := Server.acknowledge_final i (.publish cs) cs.messageId w'.log.server
      show (final (onServer _ w')).Ready regex
      rw [onServer_final,hf]
      exact ⟨hnext.books.served hnext.books.serverUser (.of_eq rfl rfl rfl rfl)
        hnext.books.listeners,hnext.sound,hnext.present⟩
  | createQueue cs => exact hbase
  | subscribe cs => exact hbase
  | unsubscribe cs => exact hbase
  | login cs => exact hbase
  | ok cs => exact hbase
  | loginConfirm cs => exact hbase

theorem Ready.onNewMessage (h : w.Ready regex) {react : Id → QueueServerM Unit}
    (hreact : ∀ v, Within (Quiet regex) (react v)) {i : ClientConnection} (hi : i ∈ w.log.accepted)
    {d : NetworkMessage} (hd : thrown (onNewMessage regex react i d w) ≠ some .nullDereference) :
    (final (onNewMessage regex react i d w)).Ready regex := by
  rw [QueueServer.onNewMessage,bind_apply] at hd ⊢
  rcases Message.ofFrame_state [.CREATE_QUEUE,.SUBSCRIBE,.UNSUBSCRIBE,.PUBLISH,.LOGIN]
    "unknow message kind: " d w with ⟨m,hm⟩ | ⟨e,he⟩
  · rw [hm] at hd ⊢
    exact h.handle hreact hi hd
  · rw [he]
    exact h

theorem addHandler_present {c : Consumers} (h : c.Present) (settings : SubscriptionParams)
    (handler : Option EventConsumer) :
    (final (Consumers.addHandler settings handler c)).Present := by
  rcases Consumers.addHandler_final settings handler c with hsame |
    ⟨hhandler,c',p,id,hc,hentries,hqueues,-,-,hp⟩
  · rw [hsame]
    exact h
  · have hpointer : p ≠ none := by
      rcases hp with rfl | ⟨it,he,rfl⟩
      · exact hhandler
      · exact h.consumers id it he
    have hc' : c'.Present := h.same ⟨hentries,hqueues⟩
    rw [hc]
    refine ⟨fun v es he => ?_,fun q v hv => ?_⟩
    · rw [Consumers.enrol,ExtTreeMap.getElem?_insert] at he
      split at he
      · cases he
        exact hpointer
      · exact hc'.consumers v es he
    · refine ExtTreeMap.mem_insert.mpr ?_
      rcases (Consumers.handlers_enrol _ _ _ _ _ _).mp hv with hv | ⟨-,rfl⟩
      · exact .inr (hc'.entries q v hv)
      · exact .inl (by simp)

theorem onConsumers_run (x : EStateM Failure Consumers Unit) (w : QueueServer) :
    onConsumers x w = match x w.consumers with
      | .ok a c => .ok a { w with consumers := c }
      | .error f c => .error f { w with consumers := c } := by
  unfold onConsumers on
  cases x w.consumers <;> rfl

theorem Ready.subscribe (h : w.Ready regex) (settings : SubscriptionParams)
    (handler : Option EventConsumer) :
    (final (subscribe regex settings handler w)).Ready regex := by
  have hpresent := addHandler_present h.present settings handler
  rw [QueueServer.subscribe,bind_apply,onConsumers_run]
  cases hrun : Consumers.addHandler settings handler w.consumers with
  | error f c =>
    rw [hrun] at hpresent
    exact ⟨h.books,h.sound,hpresent⟩
  | ok a c =>
    rw [hrun] at hpresent
    have hnext : Ready regex { w with consumers := c } := ⟨h.books,h.sound,hpresent⟩
    exact hnext.quiet (quiet_steps.node _ (.subscribe settings) _)

theorem Ready.step (h : w.Ready regex) {e : QueueServerEvent} (few : (w.step regex e).log.Few)
    (few₀ : w.log.Few) (hd : w.Defined regex e) : (w.step regex e).Ready regex := by
  cases e with
  | accept =>
    simp only [QueueServer.step,exec,onLog_final] at few ⊢
    exact h.base (e := .accept) few few₀ rfl
  | message k d count react =>
    simp only [Defined,QueueServer.step,exec,bind_apply,get_apply] at hd ⊢
    cases hk : w.log.accepted[k]? with
    | none => exact h
    | some i =>
      rw [hk] at hd
      exact h.onNewMessage (quiet_steps.reactions count react) (List.mem_of_getElem? hk) hd
  | error k =>
    simp only [QueueServer.step,exec,onLog_final] at few ⊢
    exact h.base few few₀ rfl
  | createQueue settings => exact h.quiet (quiet_steps.call _ _ w)
  | subscribe settings handler => exact h.subscribe settings handler
  | unsubscribe qname => exact h.quiet (quiet_steps.call _ _ w)
  | publish settings data count react => exact h.quiet (quiet_steps.call _ _ w)
  | stopServer =>
    simp only [QueueServer.step,exec,onLog_final] at few ⊢
    exact h.base (e := .stopServer) few few₀ rfl

def SameAccepted (w w' : QueueServer) : Prop := w'.log.accepted = w.log.accepted

theorem SameAccepted.trans (w₁ w₂ w₃ : QueueServer) (h : SameAccepted w₁ w₂)
    (h' : SameAccepted w₂ w₃) : SameAccepted w₁ w₃ := Eq.trans h' h

theorem onServer_sameAccepted {α : Type} (x : ServerM α) :
    Within SameAccepted (onServer x) := by
  intro w
  rw [onServer_final]
  rfl

theorem sameAccepted_steps : Steps regex SameAccepted where
  refl _ := rfl
  trans := SameAccepted.trans
  copy _ _ := rfl
  check _ _ := onServer_sameAccepted _
  send _ _ _ _ _ := .bind SameAccepted.trans (onServer_sameAccepted _) fun _ =>
    .modify fun _ => rfl
  consumers _ hreact _ _ _ w := callEach_within (R := SameAccepted) (fun _ => rfl)
    SameAccepted.trans (fun _ _ => onServer_sameAccepted _) (fun _ _ _ => rfl) (fun _ _ => rfl)
    hreact w
  node _ _ := onServer_sameAccepted _

theorem accepted_step (w : QueueServer) (e : QueueServerEvent) :
    w.log.accepted.length ≤ (w.step regex e).log.accepted.length := by
  have hsame : ∀ w', SameAccepted w w' → w.log.accepted.length ≤ w'.log.accepted.length := by
    intro w' h
    rw [h]
  cases e with
  | accept =>
    rw [QueueServer.step,exec,onLog_final]
    show _ ≤ (w.log.step regex .accept).accepted.length
    exact w.log.accepted_step .accept
  | message k d count react =>
    simp only [QueueServer.step,exec,bind_apply,get_apply]
    cases w.log.accepted[k]? with
    | none => exact Nat.le_refl _
    | some i =>
      exact hsame _ (sameAccepted_steps.onNewMessage onServer_sameAccepted count react i d w)
  | error k =>
    rw [QueueServer.step,exec,onLog_final]
    exact w.log.accepted_step (.error k)
  | createQueue settings => exact hsame _ (sameAccepted_steps.call _ _ w)
  | subscribe settings handler =>
    refine hsame _ (Within.bind SameAccepted.trans (.on fun _ => ?_)
      (fun _ => onServer_sameAccepted _) w)
    rfl
  | unsubscribe qname => exact hsame _ (sameAccepted_steps.call _ _ w)
  | publish settings data count react => exact hsame _ (sameAccepted_steps.call _ _ w)
  | stopServer =>
    rw [QueueServer.step,exec,onLog_final]
    show _ ≤ (w.log.step regex .stopServer).accepted.length
    exact w.log.accepted_step .stopServer

theorem run_ready {cache : ReCache} (sound : ReCache.Sound regex cache)
    {events : List QueueServerEvent}
    (hrun : Runs.Along (QueueServer.step regex) (Defined regex) (QueueServer.start cache) events)
    (few : ((QueueServer.start cache).run regex events).log.Few) :
    ((QueueServer.start cache).run regex events).Ready regex := by
  refine hrun.invariant (P := fun w => w.log.Few → w.Ready regex) (fun w e h hd few' => ?_)
    (fun _ => .start sound) few
  have few₀ : w.log.Few := Nat.lt_of_le_of_lt (w.accepted_step e) few'
  exact (h few₀).step few' few₀ hd

end Ready

end QueueServer

def Node.Compiles (regex : RegexCompiler) (n : Node) : Prop :=
  ∀ q c ql, n.listener q c = some ql → ¬ Uncompilable regex ql.settings.tag

section Compiles

variable {regex : RegexCompiler} {n : Node}

theorem Node.Compiles.changed (h : n.Compiles regex) (action : SubscribeActions)
    {settings : SubscriptionParams} (ht : ¬ Uncompilable regex settings.tag) (c : Id) :
    (n.changed action settings c).Compiles regex := by
  intro q d ql hl
  rw [Node.listener_changed] at hl
  split at hl
  · split at hl
    · cases hl
    · cases ho : n.listener q d with
      | none =>
        rw [ho] at hl
        cases hl
        exact ht
      | some old =>
        rw [ho] at hl
        cases hl
        by_cases ha : action = .Create
        · simpa [Node.joined,ha] using h q d old ho
        · simpa [Node.joined,ha] using ht
  · exact h q d ql hl

theorem Node.Compiles.localCopy (h : n.Compiles regex) (q : Str) :
    (n.localCopy q).1.Compiles regex := by
  intro q' c ql hl
  rw [(localCopy_views n q).2] at hl
  exact h q' c ql hl

theorem Node.createQueue_ok {users : UserBase} {c : Id} (hu : users.exists c = true)
    (h : n.Compiles regex) (qsettings : QueueSettings) :
    ∃ n', Node.createQueue users qsettings c n = .ok () n' ∧ n'.Compiles regex := by
  rw [Node.createQueue_run,if_neg (by simp [hu])]
  cases n.queues[qsettings.name]? with
  | some q => exact ⟨_,rfl,h⟩
  | none =>
    have hadd : (n.addQueue qsettings).Compiles regex := h
    exact ⟨_,rfl,hadd.changed .Create uncompilable_nil c⟩

theorem Node.changeSubscription_returns {users : UserBase} {c : Id} (hu : users.exists c = true)
    (action : SubscribeActions) (settings : SubscriptionParams) (n : Node) :
    ∃ n', Node.changeSubscription users action settings c n = .ok () n' := by
  rw [Node.changeSubscription,Node.changeSubscriptionImpl_run]
  split
  · exact ⟨n,rfl⟩
  · rw [if_neg (by simp [hu])]
    exact ⟨_,rfl⟩

theorem Node.changeSubscription_ok {users : UserBase} {c : Id} (hu : users.exists c = true)
    (h : n.Compiles regex) (action : SubscribeActions) (settings : SubscriptionParams)
    (ht : action ≠ .Unsubscribe → ¬ Uncompilable regex settings.tag) :
    ∃ n', Node.changeSubscription users action settings c n = .ok () n' ∧ n'.Compiles regex := by
  rw [Node.changeSubscription,Node.changeSubscriptionImpl_run]
  split
  · exact ⟨n,rfl,h⟩
  · rw [if_neg (by simp [hu])]
    refine ⟨_,rfl,?_⟩
    by_cases ha : action = .Unsubscribe
    · subst ha
      intro q d ql hl
      rw [Node.listener_changed] at hl
      split at hl
      · cases hl
      · exact h q d ql hl
    · exact h.changed action (ht ha) c

end Compiles

variable (regex : RegexCompiler) in
/-- A consumer returns: what it publishes can be put into a message, and what it
subscribes to can be compiled. -/
def ConsumerCall.Normal : ConsumerCall → Prop
  | .publish settings data _ react =>
    Message.Sendable (.publish ⟨settings.queueName,settings.tag,0,data⟩) ∧
      ∀ v j, (react v j).Normal
  | .createQueue _ => True
  | .subscribe settings => ¬ Uncompilable regex settings.tag
  | .unsubscribe _ => True

namespace QueueServer

def recached (w : QueueServer) (cache : ReCache) : QueueServer :=
  { w with log := { w.log with server := { w.log.server with cache := cache } } }

/-- A program that starts in a state to which consumers lead from `w₀`, with a node
in `J`, returns in such a state. -/
def Returns {α : Type} (regex : RegexCompiler) (J : Node → Prop) (w₀ : QueueServer)
    (x : QueueServerM α) : Prop :=
  ∀ w, Quiet regex w₀ w → J w.log.server.node →
    ∃ a w', x w = .ok a w' ∧ Quiet regex w₀ w' ∧ J w'.log.server.node

section Returns

variable {regex : RegexCompiler} {J : Node → Prop} {w₀ : QueueServer}

theorem Quiet.recached (w : QueueServer) {cache : ReCache} (sound : ReCache.Sound regex cache) :
    Quiet regex w (w.recached cache) :=
  ⟨rfl,rfl,rfl,rfl,rfl,rfl,fun _ h => h,fun _ => sound,fun _ => ⟨rfl,rfl⟩,[],
    by simp [QueueServer.recached],by simp⟩

theorem Quiet.consumed (w : QueueServer)
    (calls : List (EventConsumer × PublishParams × Bytes × Id)) :
    Quiet regex w { w with consumers := { w.consumers with consumed := calls } } :=
  ⟨rfl,rfl,rfl,rfl,rfl,rfl,fun _ h => h,fun h => h,fun _ => ⟨rfl,rfl⟩,[],by simp,by simp⟩

theorem Returns.pure {α : Type} (a : α) : Returns regex J w₀ (pure a : QueueServerM α) :=
  fun w hq hJ => ⟨a,w,rfl,hq,hJ⟩

theorem Returns.bind {α β : Type} {x : QueueServerM α} {f : α → QueueServerM β}
    (hx : Returns regex J w₀ x) (hf : ∀ a, Returns regex J w₀ (f a)) :
    Returns regex J w₀ (x >>= f) := by
  intro w hq hJ
  obtain ⟨a,w₁,h₁,hq₁,hJ₁⟩ := hx w hq hJ
  obtain ⟨b,w₂,h₂,hrest⟩ := hf a w₁ hq₁ hJ₁
  exact ⟨b,w₂,by rw [bind_apply,h₁]; exact h₂,hrest⟩

theorem Returns.times {x : Nat → QueueServerM Unit} (hx : ∀ j, Returns regex J w₀ (x j))
    (n : Nat) : Returns regex J w₀ (times n x) := by
  induction n with
  | zero => exact .pure ()
  | succ n ih => exact .bind ih fun _ => hx n

theorem onNode_run (op : UserBase → EStateM Exception Node Unit) {w : QueueServer} {n : Node}
    (h : op w.log.server.users w.log.server.node = .ok () n) :
    onServer (do
      let s ← get
      Server.onNode (op s.users)) w =
        .ok () { w with log := { w.log with server := { w.log.server with node := n } } } := by
  rw [onServer_run,bind_apply,get_apply]
  simp only [Server.onNode_run,h]

theorem Returns.of_quiet {α : Type} {x : QueueServerM α} (hx : Within (Quiet regex) x)
    (h : ∀ w, Quiet regex w₀ w → J w.log.server.node →
      ∃ a w', x w = .ok a w' ∧ J w'.log.server.node) : Returns regex J w₀ x := by
  intro w hq hJ
  obtain ⟨a,w',hrun,hJ'⟩ := h w hq hJ
  have hnext := hx w
  rw [hrun] at hnext
  exact ⟨a,w',hrun,hq.trans _ _ _ hnext,hJ'⟩

theorem checkTag_run {w : QueueServer} (sound : ReCache.Sound regex w.log.server.cache)
    (sp : SubscriptionParams) (tag_ : Str) :
    (Uncompilable regex sp.tag ∧ ∃ e, checkTag regex sp tag_ w = .error (.thrown e) w) ∨
      (¬ Uncompilable regex sp.tag ∧ ∃ cache, ReCache.Sound regex cache ∧
        checkTag regex sp tag_ w = .ok (tagMatches regex sp.tag tag_) (w.recached cache)) := by
  rw [checkTag,onServer_run,Server.onCache_run]
  rcases sp.checkTag_run sound tag_ with ⟨hu,e,hrun⟩ | ⟨hu,cache,hsound,hrun⟩
  · refine .inl ⟨hu,e,?_⟩
    rw [hrun]
  · refine .inr ⟨hu,cache,hsound,?_⟩
    rw [hrun]
    rfl

theorem deliver_one {w : QueueServer} (sound : ReCache.Sound regex w.log.server.cache)
    (path : Path) (react : Id → QueueServerM Unit) (p : PublishParams) (rd : Bytes)
    (x : Id × QueueListener) :
    (x.2.Broken regex ∧ ∃ e, Node.deliver (checkTag regex) (onSendToClient regex path react) p rd
        [x] w = .error (.thrown e) w) ∨
      (¬ x.2.Broken regex ∧ ∃ cache, ReCache.Sound regex cache ∧
        Node.deliver (checkTag regex) (onSendToClient regex path react) p rd [x] w =
          if x.2.isTarget regex p.tag = true then
            onSendToClient regex path react p rd x.1 (w.recached cache)
          else .ok () (w.recached cache)) := by
  obtain ⟨clientId,ql⟩ := x
  cases hx : (!ql.isowner || ql.issubscribed) with
  | false =>
    refine .inr ⟨fun h => absurd (hx.symm.trans h.1) (by simp),w.log.server.cache,sound,?_⟩
    simp [Node.deliver,hx,QueueListener.isTarget,QueueServer.recached]
  | true =>
    by_cases he : ql.settings.tag = []
    · refine .inr ⟨fun h => h.2.1 he,w.log.server.cache,sound,?_⟩
      simp [Node.deliver,hx,he,QueueListener.isTarget,tagMatches,QueueServer.recached]
    · rcases checkTag_run sound ql.settings p.tag with ⟨hu,e,hrun⟩ | ⟨hu,cache,hsound,hrun⟩
      · refine .inl ⟨⟨hx,hu⟩,e,?_⟩
        simp [Node.deliver,hx,he,hrun]
      · refine .inr ⟨fun h => hu h.2,cache,hsound,?_⟩
        cases ht : tagMatches regex ql.settings.tag p.tag with
        | false => simp [Node.deliver,hx,he,hrun,QueueListener.isTarget,ht]
        | true => simp [Node.deliver,hx,he,hrun,QueueListener.isTarget,ht]

def Compile (regex : RegexCompiler) (w : QueueServer) (q : Str) : Prop :=
  ∀ v ∈ w.consumers.handlers q, ∀ es : Option EventConsumer × SubscriptionParams,
    w.consumers.eventHandlers[v]? = some es → ¬ Uncompilable regex es.2.tag

def Passes (regex : RegexCompiler) (w : QueueServer) (p : PublishParams)
    (x : Id × QueueListener) : Prop :=
  ¬ x.2.Broken regex ∧ (x.1 = ServerID → x.2.isTarget regex p.tag = true →
    w.Compile regex p.queueName)

variable (ready : w₀.Ready regex)
include ready

theorem callEach_cons (react : Id → QueueServerM Unit) (info : PublishParams) (d : Bytes) (id : Id)
    {v : Id} (vs : List Id) {w : QueueServer} (hq : Quiet regex w₀ w)
    {h : EventConsumer} {sp : SubscriptionParams}
    (hes : w₀.consumers.eventHandlers[v]? = some (some h,sp)) :
    callEach regex react info d id (v :: vs) w =
      match checkTag regex sp info.tag w with
      | .error e w' => .error e w'
      | .ok false w' => callEach regex react info d id vs w'
      | .ok true w' => (do
          react v
          callEach regex react info d id vs) { w' with consumers := { w'.consumers with
            consumed := w'.consumers.consumed ++ [(h,info,d,id)] } } := by
  have hentries := (hq.registry ready.present).entries
  have hv : v ∈ w.consumers.eventHandlers := by
    rw [hentries,ExtTreeMap.mem_iff_isSome_getElem?,hes]
    rfl
  have hsame : ({ w with consumers := { w.consumers with
      eventHandlers := w.consumers.eventHandlers.insert v
        (w.consumers.eventHandlers[v]?.getD (none,⟨[],[]⟩)) } } : QueueServer) = w := by
    rw [Consumers.insert_entry hv]
  have hentry : w.consumers.eventHandlers[v]?.getD (none,⟨[],[]⟩) = (some h,sp) := by
    rw [hentries,hes]
    rfl
  simp only [callEach,bind_apply,get_apply,set_apply]
  rw [hsame,hentry]
  cases checkTag regex sp info.tag w with
  | error e w' => rfl
  | ok isTarget w' =>
    cases isTarget with
    | false => rfl
    | true => rfl

theorem Ready.entry {q : Str} {v : Id} (hv : v ∈ w₀.consumers.handlers q) :
    ∃ h sp, w₀.consumers.eventHandlers[v]? = some (some h,sp) := by
  obtain ⟨⟨handler,sp⟩,hes⟩ := Option.isSome_iff_exists.mp
    (ExtTreeMap.mem_iff_isSome_getElem?.mp (ready.present.entries q v hv))
  obtain ⟨h,hh⟩ := Option.ne_none_iff_exists'.mp (ready.present.consumers v _ hes)
  exact ⟨h,sp,by rw [hes,← hh]⟩

theorem callEach_returns {react : Id → QueueServerM Unit}
    (hreact : ∀ v, Returns regex J w₀ (react v)) (info : PublishParams) (d : Bytes) (id : Id)
    (vs : List Id) (hvs : ∀ v ∈ vs, ∃ h sp, w₀.consumers.eventHandlers[v]? = some (some h,sp) ∧
      ¬ Uncompilable regex sp.tag) :
    Returns regex J w₀ (callEach regex react info d id vs) := by
  induction vs with
  | nil => exact .pure ()
  | cons v vs ih =>
    have hrest := ih fun u hu => hvs u (by simp [hu])
    obtain ⟨h,sp,hes,htag⟩ := hvs v (by simp)
    intro w hq hJ
    rw [callEach_cons ready react info d id vs hq hes]
    rcases checkTag_run (ready.quiet hq).sound sp info.tag with ⟨hu,-⟩ | ⟨-,cache,hsound,hrun⟩
    · exact absurd hu htag
    · rw [hrun]
      have hq' := hq.trans _ _ _ (.recached w hsound)
      cases tagMatches regex sp.tag info.tag with
      | false => exact hrest _ hq' hJ
      | true =>
        exact Returns.bind (hreact v) (fun _ => hrest) _ (hq'.trans _ _ _ (.consumed _ _)) hJ

variable (few : w₀.log.Few)
include few

theorem onSendToClient_returns {react : Id → QueueServerM Unit}
    (hreact : ∀ v, Returns regex J w₀ (react v)) (path : Path) {p : PublishParams} {rd : Bytes}
    (hs : Message.Sendable (.publish ⟨p.queueName,p.tag,0,rd⟩)) {id : Id}
    (hid : w₀.log.server.users.exists id = true)
    (hserver : id = ServerID → w₀.Compile regex p.queueName) :
    Returns regex J w₀ (onSendToClient regex path react p rd id) := by
  unfold onSendToClient
  by_cases he : id = ServerID
  · simp only [he,beq_self_eq_true,if_true]
    intro w hq hJ
    have hhandlers : w.consumers.handlers p.queueName = w₀.consumers.handlers p.queueName := by
      rw [Consumers.handlers,(hq.registry ready.present).queues]
      rfl
    rw [callConsumer,bind_apply,get_apply]
    simp only [hhandlers]
    refine callEach_returns ready hreact p rd ServerID _ (fun v hv => ?_) w hq hJ
    have hv' := ExtTreeSet.mem_toList.mp hv
    obtain ⟨h,sp,hes⟩ := ready.entry hv'
    exact ⟨h,sp,hes,hserver he v hv' _ hes⟩
  · simp only [beq_iff_eq,he,if_false]
    obtain ⟨j,-,-,hreach⟩ := ready.books.reachable few hid he
    refine .of_quiet (quiet_steps.send path p rd id he) fun w hq hJ => ?_
    have hreach' : w.log.server.Reachable id j := by
      rw [Server.Reachable,hq.connections,hq.closed]
      exact hreach
    obtain ⟨s',hrun,hsent⟩ := Server.onSendToClient_sent hs (ready.quiet hq).sound
      fun _ => ⟨j,hreach'⟩
    rw [bind_apply,onServer_run,hrun]
    exact ⟨(),_,rfl,by simpa only [hsent.node] using hJ⟩

theorem deliver_returns {react : Id → QueueServerM Unit}
    (hreact : ∀ v, Returns regex J w₀ (react v)) (path : Path) {p : PublishParams} {rd : Bytes}
    (hs : Message.Sendable (.publish ⟨p.queueName,p.tag,0,rd⟩)) (ls : List (Id × QueueListener))
    (hls : ∀ x ∈ ls, w₀.log.server.users.exists x.1 = true ∧ w₀.Passes regex p x) :
    Returns regex J w₀
      (Node.deliver (checkTag regex) (onSendToClient regex path react) p rd ls) := by
  induction ls with
  | nil => exact .pure ()
  | cons x ls ih =>
    have hrest := ih fun y hy => hls y (by simp [hy])
    obtain ⟨hu,hb,hserver⟩ := hls x (by simp)
    intro w hq hJ
    rw [Node.deliver_cons]
    rcases deliver_one (ready.quiet hq).sound path react p rd x with ⟨hb',-⟩ | ⟨-,cache,hsound,hrun⟩
    · exact absurd hb' hb
    · rw [hrun]
      have hq' := hq.trans _ _ _ (.recached w hsound)
      cases ht : x.2.isTarget regex p.tag with
      | false => exact hrest _ hq' hJ
      | true =>
        obtain ⟨a,w₁,hsend,hq₁,hJ₁⟩ := onSendToClient_returns ready few hreact path hs hu
          (fun he => hserver he ht) _ hq' hJ
        simp only [if_true,hsend]
        exact hrest w₁ hq₁ hJ₁

variable (htags : ∀ (v : Id) (es : Option EventConsumer × SubscriptionParams),
  w₀.consumers.eventHandlers[v]? = some es → ¬ Uncompilable regex es.2.tag)
include htags

theorem nodePublish_returns {react : Id → QueueServerM Unit}
    (hreact : ∀ v, Returns regex (Node.Compiles regex) w₀ (react v)) (path : Path)
    {p : PublishParams} {rd : Bytes}
    (hs : Message.Sendable (.publish ⟨p.queueName,p.tag,0,rd⟩)) :
    Returns regex (Node.Compiles regex) w₀ (nodePublish regex path react p rd) := by
  intro w hq hc
  have hcopy := hq.trans _ _ _ (quiet_steps.copy w p.queueName)
  refine deliver_returns ready few hreact path hs _ (fun x hx => ?_) _ hcopy
    (hc.localCopy p.queueName)
  have hl := (Node.mem_localCopy.mp hx).2
  refine ⟨?_,fun hb => hc _ _ _ hl hb.2,fun _ _ v _ => htags v⟩
  rw [← hq.users]
  exact (ready.quiet hq).books.listeners p.queueName x.1 (by simp [hl])

theorem call_returns {c : ConsumerCall} (hc : c.Normal regex) (path : Path) :
    Returns regex (Node.Compiles regex) w₀ (call regex c path) := by
  induction c generalizing path with
  | publish settings data count react ih =>
    exact nodePublish_returns ready few htags
      (fun v => .times (fun j => ih v j (hc.2 v j) _) _) path hc.1
  | createQueue settings =>
    refine .of_quiet (quiet_steps.node _ (.createQueue settings)) fun w hq hcomp => ?_
    obtain ⟨n',hrun,hn'⟩ := Node.createQueue_ok (ready.quiet hq).books.serverUser hcomp settings
    exact ⟨(),_,onNode_run (fun users => Node.createQueue users settings ServerID) hrun,hn'⟩
  | subscribe settings =>
    refine .of_quiet (quiet_steps.node _ (.subscribe settings)) fun w hq hcomp => ?_
    obtain ⟨n',hrun,hn'⟩ := Node.changeSubscription_ok (ready.quiet hq).books.serverUser hcomp
      .Subscribe settings fun _ => hc
    exact ⟨(),_,onNode_run (fun users => Node.changeSubscription users .Subscribe settings ServerID)
      hrun,hn'⟩
  | unsubscribe qname =>
    refine .of_quiet (quiet_steps.node _ (.unsubscribe qname)) fun w hq hcomp => ?_
    obtain ⟨n',hrun,hn'⟩ := Node.changeSubscription_ok (ready.quiet hq).books.serverUser hcomp
      .Subscribe ⟨qname,[]⟩ fun _ => uncompilable_nil
    exact ⟨(),_,onNode_run
      (fun users => Node.changeSubscription users .Subscribe ⟨qname,[]⟩ ServerID) hrun,hn'⟩

end Returns

section Operation

variable (regex : RegexCompiler) (react : Id → QueueServerM Unit) (i : ClientConnection)

/-- The operation on the node that a request asks for, for the client's own id. -/
def operation : Message → QueueServerM Unit
  | .createQueue cq => onServer do
      let s ← get
      Server.onNode (Node.createQueue s.users ⟨cq.name⟩ i.id)
  | .subscribe cs => onServer do
      let s ← get
      Server.onNode (Node.changeSubscription s.users .Subscribe ⟨cs.qname,cs.tag⟩ i.id)
  | .unsubscribe cs => onServer do
      let s ← get
      Server.onNode (Node.changeSubscription s.users .Unsubscribe ⟨cs.qname,cs.tag⟩ i.id)
  | .publish cs => nodePublish regex [] react ⟨cs.qname,cs.tag⟩ cs.data
  | _ => pure ()

theorem handle_request {m : Message} {n : UInt64} (hn : m.requestId = some n) (w : QueueServer) :
    handle regex react i m w = (do
      operation regex react i m
      onServer (Server.acknowledge i m n)) w := by
  have hsplit : ∀ op : UserBase → EStateM Exception Node Unit,
      onServer (do
        let s ← get
        Server.onNode (op s.users)
        Server.acknowledge i m n) w = (do
          onServer (do
            let s ← get
            Server.onNode (op s.users))
          onServer (Server.acknowledge i m n)) w := by
    intro op
    simp only [bind_apply,onServer_run,get_apply,Server.onNode_run]
    cases op w.log.server.users w.log.server.node with
    | ok a n => rfl
    | error e n => rfl
  cases m with
  | createQueue cq =>
    cases hn
    exact hsplit fun users => Node.createQueue users ⟨cq.name⟩ i.id
  | subscribe cs =>
    cases hn
    exact hsplit fun users => Node.changeSubscription users .Subscribe ⟨cs.qname,cs.tag⟩ i.id
  | unsubscribe cs =>
    cases hn
    exact hsplit fun users => Node.changeSubscription users .Unsubscribe ⟨cs.qname,cs.tag⟩ i.id
  | publish cs =>
    cases hn
    rfl
  | login lg => cases hn
  | ok q => cases hn
  | loginConfirm q => cases hn

variable {regex react i} {w : QueueServer}

theorem operation_ok (ready : w.Ready regex) (few : w.log.Few)
    (hcompiles : w.log.server.node.Compiles regex)
    (htags : ∀ (v : Id) (es : Option EventConsumer × SubscriptionParams),
      w.consumers.eventHandlers[v]? = some es → ¬ Uncompilable regex es.2.tag)
    (hreact : ∀ v, Returns regex (Node.Compiles regex) w (react v))
    (hu : w.log.server.users.exists i.id = true)
    {m : Message} (hm : m.Sendable) :
    ∃ w₁, operation regex react i m w = .ok () w₁ ∧
      w₁.log.server.closed = w.log.server.closed ∧
      ∃ frames, w₁.log.server.outbox = w.log.server.outbox ++ frames ∧
        ∀ x ∈ frames, ∃ p, x.2 = .publish p := by
  have hnode : ∀ op : UserBase → EStateM Exception Node Unit,
      (∃ n, op w.log.server.users w.log.server.node = .ok () n) →
      ∃ w₁, onServer (do
          let s ← get
          Server.onNode (op s.users)) w = .ok () w₁ ∧
        w₁.log.server.closed = w.log.server.closed ∧
        ∃ frames, w₁.log.server.outbox = w.log.server.outbox ++ frames ∧
          ∀ x ∈ frames, ∃ p, x.2 = .publish p := by
    rintro op ⟨n,hn⟩
    exact ⟨_,onNode_run op hn,rfl,[],by simp,by simp⟩
  cases m with
  | createQueue cq =>
    obtain ⟨n,hn,-⟩ := Node.createQueue_ok hu hcompiles ⟨cq.name⟩
    exact hnode (fun users => Node.createQueue users ⟨cq.name⟩ i.id) ⟨n,hn⟩
  | subscribe cs =>
    exact hnode (fun users => Node.changeSubscription users .Subscribe ⟨cs.qname,cs.tag⟩ i.id)
      (Node.changeSubscription_returns hu _ _ _)
  | unsubscribe cs =>
    exact hnode (fun users => Node.changeSubscription users .Unsubscribe ⟨cs.qname,cs.tag⟩ i.id)
      (Node.changeSubscription_returns hu _ _ _)
  | publish cs =>
    have hreturns : Returns regex (Node.Compiles regex) w
        (nodePublish regex [] react ⟨cs.qname,cs.tag⟩ cs.data) :=
      nodePublish_returns ready few htags hreact [] hm
    obtain ⟨a,w₁,hrun,hq,-⟩ := hreturns w (.refl w) hcompiles
    exact ⟨w₁,hrun,hq.closed,hq.frames⟩
  | login lg => exact ⟨w,rfl,rfl,[],by simp,by simp⟩
  | ok q => exact ⟨w,rfl,rfl,[],by simp,by simp⟩
  | loginConfirm q => exact ⟨w,rfl,rfl,[],by simp,by simp⟩

end Operation

end QueueServer

/-- In every state of the server a request from an open connection is executed for
that connection and answered with one OK, and a LOGIN with one LoginConfirm. -/
theorem requests_answered (regex : RegexCompiler) (cache : ReCache)
    (sound : ReCache.Sound regex cache) (events : List QueueServerEvent) {w : QueueServer}
    (run : w = (QueueServer.start cache).run regex events)
    (defined : Runs.Along (QueueServer.step regex) (QueueServer.Defined regex)
      (QueueServer.start cache) events)
    (few : w.log.accepted.length < 2^31-1)
    (listenerTags : ∀ q c ql, w.log.server.node.listener q c = some ql →
      ¬ Uncompilable regex ql.settings.tag)
    (consumerTags : ∀ (v : Id) (es : Option EventConsumer × SubscriptionParams),
      w.consumers.eventHandlers[v]? = some es → ¬ Uncompilable regex es.2.tag)
    (count : Id → Nat) {react : Id → Nat → ConsumerCall}
    (normal : ∀ v j, (react v j).Normal regex)
    {i : ClientConnection} (accepted : i ∈ w.log.accepted) (isOpen : i.socket ∉ w.log.server.closed)
    {m : Message} (sendable : m.Sendable) :
    (∀ n, m.requestId = some n → ∃ w₁ frames,
      QueueServer.operation regex (QueueServer.reactions regex count react) i m w = .ok () w₁ ∧
      w₁.log.server.outbox = w.log.server.outbox ++ frames ∧
      (∀ x ∈ frames, ∃ p, x.2 = .publish p) ∧
      QueueServer.onNewMessage regex (QueueServer.reactions regex count react) i
        (received m.wire) w = .ok () { w₁ with log := { w₁.log with server := { w₁.log.server with
          executed := w₁.log.server.executed ++ [(i,m)]
          outbox := w₁.log.server.outbox ++ [(i.socket,.ok ⟨n⟩)] } } }) ∧
    ∀ lg, m = .login lg →
      QueueServer.onNewMessage regex (QueueServer.reactions regex count react) i
        (received m.wire) w = .ok () { w with log := { w.log with server := { w.log.server with
          users := w.log.server.users.setLogin i.id lg.login
          outbox := w.log.server.outbox ++ [(i.socket,.loginConfirm ⟨i.id⟩)] } } } := by
  have ready : w.Ready regex := run ▸ QueueServer.run_ready sound defined (run ▸ few)
  have hreact : ∀ v, QueueServer.Returns regex (Node.Compiles regex) w
      (QueueServer.reactions regex count react v) :=
    fun v => .times (fun j => QueueServer.call_returns ready few consumerTags (normal v j) _) _
  have hhandle : m.kind ∈ [.CREATE_QUEUE,.SUBSCRIBE,.UNSUBSCRIBE,.PUBLISH,.LOGIN] →
      QueueServer.onNewMessage regex (QueueServer.reactions regex count react) i
        (received m.wire) w =
      QueueServer.handle regex (QueueServer.reactions regex count react) i m w := by
    intro hk
    rw [QueueServer.onNewMessage,bind_apply,Message.ofFrame_run sendable (received_frame m),
      if_pos hk]
  refine ⟨fun n hn => ?_,?_⟩
  · have hk : m.kind ∈ [.CREATE_QUEUE,.SUBSCRIBE,.UNSUBSCRIBE,.PUBLISH,.LOGIN] := by
      cases m <;> simp_all [Message.requestId,Message.kind]
    obtain ⟨w₁,hop,hclosed,frames,hout,hframes⟩ := QueueServer.operation_ok ready few listenerTags
      consumerTags hreact (ready.books.user_of_open accepted isOpen) sendable
    refine ⟨w₁,frames,hop,hout,hframes,?_⟩
    have hopen : i.socket ∉ w₁.log.server.closed := by rwa [hclosed]
    rw [hhandle hk,QueueServer.handle_request _ _ _ hn,bind_apply,hop]
    show QueueServer.onServer (Server.acknowledge i m n) w₁ = _
    rw [QueueServer.onServer_run,Server.acknowledge_run hopen]
  · rintro lg rfl
    obtain ⟨nd,hnd,-⟩ := Message.toNetworkMessage_ok _ (loginConfirm_sendable i.id)
    rw [hhandle (by simp [Message.kind])]
    simp only [QueueServer.handle,QueueServer.onServer_run,Server.handle,bind_apply,modify_apply,
      Server.sendTo_run,hnd]
    rw [if_neg isOpen]

def listening : List QueueServerEvent :=
  [.accept,.request 0 (.createQueue ⟨[113],0⟩),.request 0 (.subscribe ⟨[113],[],1⟩),
    .subscribe ⟨[113],[]⟩ (some 1)]

/-- The server's consumer answers each message from outside with one to the same queue. -/
def answered : EStateM.Result Failure QueueServer Unit :=
  QueueServer.onNewMessage literal (QueueServer.reactions literal (fun _ => 1)
    (fun _ _ => .publish ⟨[113],[]⟩ [6] (fun _ => 0) (fun _ _ => .unsubscribe []))) ⟨0,0⟩
    (received (Message.wire (.publish ⟨[113],[],7,[5]⟩)))
    ((QueueServer.start ∅).run literal listening)

theorem requests_answered_publish :
    ∃ w' frames, answered = .ok () w' ∧
      w'.log.server.outbox = [(0,.ok ⟨0⟩),(0,.ok ⟨1⟩)] ++ frames ++ [(0,.ok ⟨7⟩)] ∧
      (∀ x ∈ frames, ∃ p, x.2 = .publish p) ∧ frames.length = 2 := by
  have hdefined : Runs.Along (QueueServer.step literal) (QueueServer.Defined literal)
      (QueueServer.start ∅) listening := by decide +kernel
  have hbefore : ((QueueServer.start ∅).run literal listening).log.server.outbox =
      [(0,.ok ⟨0⟩),(0,.ok ⟨1⟩)] := by decide +kernel
  have hnormal : ∀ (_ : Id) (_ : Nat), (ConsumerCall.publish ⟨[113],[]⟩ [6] (fun _ => 0)
      (fun _ _ => .unsubscribe [])).Normal literal := fun _ _ => ⟨by decide,fun _ _ => trivial⟩
  have hafter : (final answered).log.server.outbox.length = 5 := by decide +kernel
  obtain ⟨w₁,frames,-,hout,hframes,hrun⟩ := (requests_answered literal ∅ ReCache.Sound.empty
    listening rfl hdefined (by decide +kernel) (fun _ _ _ _ => literal_compiles _)
    (fun _ _ _ => literal_compiles _) (fun _ => 1) hnormal (i := ⟨0,0⟩) (by decide +kernel)
    (by decide +kernel) (m := .publish ⟨[113],[],7,[5]⟩) (by decide)).1 7 rfl
  have hans : answered = _ := hrun
  rw [hans,final_ok,hout,hbefore] at hafter
  refine ⟨_,frames,hans,?_,hframes,?_⟩
  · show w₁.log.server.outbox ++ [(0,.ok ⟨7⟩)] = _
    rw [hout,hbefore]
  · simpa using hafter

end Dqueue
