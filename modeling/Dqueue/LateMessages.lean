import Dqueue.ServerDelivery

/-!
Messages that were read before their connection was closed and are handled
afterwards. The read handler keeps the connection object alive, and each kind of
message makes its own checks of the user.
-/

set_option autoImplicit false

namespace Dqueue
open Std Effects RawMem AsyncIO Queries

/-- A handler that ended with `r` has had no effect: the user base, the queues
and the subscriptions are as before, nothing was delivered, and the pointer that
`close` has reset was not followed. -/
structure Server.Unaffected (s : Server) (r : EStateM.Result Failure Server Unit) : Prop where
  users : (final r).users = s.users
  node : s.node.Same (final r).node
  outbox : (final r).outbox = s.outbox
  consumed : (final r).consumed = s.consumed
  pointer : Effects.thrown r ≠ some .nullDereference

/-- The first listener that is a target or has a tag that cannot be compiled is
of the second kind. -/
def StopsFirst (regex : RegexCompiler) (tag_ : Str) (ls : List (Id × QueueListener)) : Prop :=
  ∃ before x after, ls = before ++ x :: after ∧ x.2.Broken regex ∧
    ∀ y ∈ before, ¬ y.2.Broken regex ∧ y.2.isTarget regex tag_ = false

/-- The messages that are refused when their sender is not a user. -/
def Server.Refused (regex : RegexCompiler) (s : Server) : Message → Prop
  | .unsubscribe cs => s.node.HasQueue cs.qname
  | .publish cs => s.node.HasQueue cs.qname ∧
      StopsFirst regex cs.tag (s.node.listeners cs.qname).toList
  | .login _ => False
  | _ => True

def ServerLog.LateRefused (regex : RegexCompiler) (l : ServerLog) : ServerEvent → Prop
  | .message k d => ∀ i ∈ l.accepted[k]?, i.socket ∈ l.server.closed → ∀ m,
      Message.ofFrame [.CREATE_QUEUE,.SUBSCRIBE,.UNSUBSCRIBE,.PUBLISH,.LOGIN]
        "unknow message kind: " d l.server = .ok m l.server → l.server.Refused regex m
  | _ => True

theorem ServerLog.Open.lateRefused {regex : RegexCompiler} {l : ServerLog} {e : ServerEvent}
    (h : l.Open e) : l.LateRefused regex e := by
  cases e with
  | message k d => exact fun i hi hc => absurd hc (h.2 i hi)
  | accept => trivial
  | error k => trivial
  | createQueue settings => trivial
  | subscribe settings => trivial
  | unsubscribe qname => trivial
  | publish settings data => trivial
  | stopServer => trivial

section Late

variable {regex : RegexCompiler} {s : Server} {i : ClientConnection}

theorem Server.sendTo_closed (hc : i.socket ∈ s.closed) {m : Message} (hm : m.Sendable) :
    sendTo i m s = .error .nullDereference s := by
  obtain ⟨nd,hnd,-⟩ := Message.toNetworkMessage_ok m hm
  rw [sendTo_run,hnd]
  simp only [hc,if_true]

theorem Server.acknowledge_closed (hc : i.socket ∈ s.closed) (m : Message) (n : UInt64) :
    acknowledge i m n s =
      .error .nullDereference { s with executed := s.executed ++ [(i,m)] } := by
  have hsend := sendTo_closed (s := { s with executed := s.executed ++ [(i,m)] }) hc
    (ok_sendable n)
  simp only [acknowledge,sendOk,bind_apply,modify_apply,hsend]

theorem Server.Unaffected.thrown (e : Exception) : s.Unaffected (.error (.thrown e) s) :=
  ⟨rfl,.of_eq rfl,rfl,rfl,by simp⟩

theorem Server.Unaffected.not_null {s' : Server} :
    ¬ s.Unaffected (.error .nullDereference s') := fun h => h.pointer rfl

theorem reached_eq_nil {tag_ : Str} {ls : List (Id × QueueListener)}
    (h : ∃ x ∈ ls, x.2.Broken regex) :
    Server.reached regex tag_ ls = [] ↔ StopsFirst regex tag_ ls := by
  induction ls with
  | nil =>
    obtain ⟨x,hx,-⟩ := h
    cases hx
  | cons x ls ih =>
    by_cases hb : x.2.Broken regex
    · simp only [Server.reached,hb,if_true,true_iff]
      exact ⟨[],x,ls,rfl,hb,by simp⟩
    · have hrest : ∃ y ∈ ls, y.2.Broken regex := by
        obtain ⟨y,hy,hyb⟩ := h
        rcases List.mem_cons.mp hy with rfl | hy
        · exact absurd hyb hb
        · exact ⟨y,hy,hyb⟩
      cases ht : x.2.isTarget regex tag_ with
      | true =>
        simp only [Server.reached,hb,if_false,ht,if_true,reduceCtorEq,false_iff]
        rintro ⟨before,y,after,he,hyb,hbefore⟩
        cases before with
        | nil =>
          obtain ⟨rfl,-⟩ := List.cons.inj he
          exact hb hyb
        | cons z before =>
          obtain ⟨rfl,-⟩ := List.cons.inj he
          exact absurd (hbefore x (by simp)).2 (by simp [ht])
      | false =>
        simp only [Server.reached,hb,if_false,ht,Bool.false_eq_true]
        rw [ih hrest]
        constructor
        · rintro ⟨before,y,after,rfl,hyb,hbefore⟩
          refine ⟨x :: before,y,after,rfl,hyb,fun z hz => ?_⟩
          rcases List.mem_cons.mp hz with rfl | hz
          · exact ⟨hb,ht⟩
          · exact hbefore z hz
        · rintro ⟨before,y,after,he,hyb,hbefore⟩
          cases before with
          | nil =>
            obtain ⟨rfl,-⟩ := List.cons.inj he
            exact absurd hyb hb
          | cons z before =>
            obtain ⟨rfl,rfl⟩ := List.cons.inj he
            exact ⟨before,y,after,rfl,hyb,fun w hw => hbefore w (by simp [hw])⟩

theorem Server.Sent.nil_of_same {p : PublishParams} {rd : Bytes} {ids : List Id} {s s' : Server}
    (h : Server.Sent regex p rd ids s s') (outbox : s'.outbox = s.outbox)
    (consumed : s'.consumed = s.consumed) : ids = [] := by
  obtain ⟨out,ho,hf⟩ := h.outbox
  have hout : out = [] := by
    rw [outbox] at ho
    simpa using ho
  have hserver : ids.filter (fun id => id == ServerID) = [] := by
    have hc := h.consumed
    rw [consumed] at hc
    simpa using hc
  have hclient : ids.filter (fun id => id != ServerID) = [] := by
    rw [hout] at hf
    simpa using hf
  cases ids with
  | nil => rfl
  | cons id ids =>
    by_cases hid : id = ServerID
    · simp [hid] at hserver
    · simp [hid] at hclient

end Late

namespace ServerLog.Books

variable {regex : RegexCompiler} {l : ServerLog} (h : l.Books) (few : l.Few)
include h few

theorem gone {i : ClientConnection} (hi : i ∈ l.accepted) (hc : i.socket ∈ l.server.closed) :
    l.server.users.exists i.id = false ∧ ∀ q, l.server.node.listener q i.id = none := by
  have hu : l.server.users.exists i.id = false := by
    rw [Bool.eq_false_iff]
    intro hu
    rcases (h.users i.id).mp hu with he | ⟨j,hj,he⟩
    · exact h.id_ne_server few hi he
    · obtain ⟨hj,hjc⟩ := h.mem_connections.mp hj
      rw [h.id_inj few hj hi he] at hjc
      exact hjc hc
  refine ⟨hu,fun q => ?_⟩
  by_contra hl
  rw [h.listeners q i.id hl] at hu
  cases hu

theorem listeners_reachable (q : Str) :
    ∀ x ∈ (l.server.node.listeners q).toList, x.1 ≠ ServerID → ∃ c, l.server.Reachable x.1 c := by
  intro x hx hne
  have hl : l.server.node.listener q x.1 = some x.2 :=
    ExtTreeMap.mem_toList_iff_getElem?_eq_some.mp hx
  obtain ⟨i,-,-,hr⟩ := h.reachable few (h.listeners q x.1 (by simp [hl])) hne
  exact ⟨i,hr⟩

theorem late_publish (sound : ReCache.Sound regex l.server.cache) {i : ClientConnection}
    (hc : i.socket ∈ l.server.closed) {cs : Publish} (hm : Message.Sendable (.publish cs)) :
    l.server.Unaffected (Server.handle regex i (.publish cs) l.server) ↔
      l.server.Refused regex (.publish cs) := by
  have hviews := localCopy_views l.server.node cs.qname
  -- the loop over the local copy, followed by the answer that follows the pointer
  have hok : ∀ s', Server.deliver regex ⟨cs.qname,cs.tag⟩ cs.data
      (l.server.node.localCopy cs.qname).2
      { l.server with node := (l.server.node.localCopy cs.qname).1 } = .ok () s' →
      Server.handle regex i (.publish cs) l.server =
        Server.acknowledge i (.publish cs) cs.messageId s' := by
    intro s' hr
    simp only [Server.handle,bind_apply,Server.nodePublish_run,hr]
  have herror : ∀ e s', Server.deliver regex ⟨cs.qname,cs.tag⟩ cs.data
      (l.server.node.localCopy cs.qname).2
      { l.server with node := (l.server.node.localCopy cs.qname).1 } = .error e s' →
      Server.handle regex i (.publish cs) l.server = .error e s' := by
    intro e s' hr
    simp only [Server.handle,bind_apply,Server.nodePublish_run,hr]
  by_cases hq : l.server.node.HasQueue cs.qname
  · rw [Node.localCopy_of_queue hq] at hok herror
    obtain ⟨s',hsent,⟨hd,hb⟩ | ⟨⟨e,hd⟩,hb⟩⟩ := Server.deliver_sent regex ⟨cs.qname,cs.tag⟩ cs.data
      (n := cs.messageId) (s := { l.server with node := (l.server.node.localCopy cs.qname).1 })
      hm sound (l.server.node.listeners cs.qname).toList (h.listeners_reachable few cs.qname)
    · rw [hok _ hd,Server.acknowledge_closed (by rw [hsent.closed]; exact hc)]
      refine ⟨fun hu => absurd hu Server.Unaffected.not_null,?_⟩
      rintro ⟨-,before,x,after,he,hx,-⟩
      exact absurd hx (hb x (by simp [he]))
    · rw [herror _ _ hd]
      constructor
      · intro hu
        exact ⟨hq,(reached_eq_nil hb).mp (hsent.nil_of_same hu.outbox hu.consumed)⟩
      · rintro ⟨-,hfirst⟩
        rw [(reached_eq_nil hb).mpr hfirst] at hsent
        obtain ⟨out,ho,hf⟩ := hsent.outbox
        have hout : out = [] := by simpa using hf
        refine ⟨hsent.users,?_,?_,?_,by simp⟩
        · show l.server.node.Same s'.node
          rw [hsent.node]
          exact ⟨hviews.1,hviews.2⟩
        · show s'.outbox = l.server.outbox
          rw [ho,hout]
          simp
        · show s'.consumed = l.server.consumed
          rw [hsent.consumed]
          simp
  · rw [Node.localCopy_of_missing hq] at hok
    rw [hok { l.server with node := (l.server.node.localCopy cs.qname).1 } rfl]
    rw [Server.acknowledge_closed (s := { l.server with
      node := (l.server.node.localCopy cs.qname).1 }) hc]
    exact ⟨fun hu => absurd hu Server.Unaffected.not_null,fun hr => absurd hr.1 hq⟩

theorem late_iff (sound : ReCache.Sound regex l.server.cache) {i : ClientConnection}
    (hi : i ∈ l.accepted) (hc : i.socket ∈ l.server.closed) {m : Message} (hm : m.Sendable) :
    l.server.Unaffected (Server.handle regex i m l.server) ↔ l.server.Refused regex m := by
  obtain ⟨hu,-⟩ := h.gone few hi hc
  cases m with
  | createQueue cq =>
    simp only [Server.handle,bind_apply,get_apply,Server.onNode_run,Node.createQueue_run,hu,
      if_true]
    exact ⟨fun _ => trivial,fun _ => .thrown _⟩
  | subscribe cs =>
    simp only [Server.handle,bind_apply,get_apply,Server.onNode_run,Node.changeSubscription,
      Node.changeSubscriptionImpl_run,hu,if_true,reduceCtorEq,false_and,if_false]
    exact ⟨fun _ => trivial,fun _ => .thrown _⟩
  | unsubscribe cs =>
    simp only [Server.handle,bind_apply,get_apply,Server.onNode_run,Node.changeSubscription,
      Node.changeSubscriptionImpl_run,hu,if_true,true_and]
    by_cases hq : l.server.node.HasQueue cs.qname
    · have hex : ¬ l.server.node.queueIsExists cs.qname = false := by
        rw [(Node.queueIsExists_iff _ _).mpr hq]
        simp
      simp only [hex]
      exact ⟨fun _ => hq,fun _ => .thrown _⟩
    · have hex : l.server.node.queueIsExists cs.qname = false := by
        rw [Bool.eq_false_iff,ne_eq,Node.queueIsExists_iff]
        exact hq
      simp only [hex,if_true]
      rw [Server.acknowledge_closed (s := { l.server with node := l.server.node }) hc]
      exact ⟨fun hu => absurd hu Server.Unaffected.not_null,fun hr => absurd hr hq⟩
  | publish cs => exact h.late_publish few sound hc hm
  | login lg =>
    simp only [Server.handle,bind_apply,modify_apply]
    rw [Server.sendTo_closed (s := { l.server with
      users := l.server.users.setLogin i.id lg.login }) hc (loginConfirm_sendable i.id)]
    exact ⟨fun hu => absurd hu Server.Unaffected.not_null,fun hr => hr.elim⟩
  | ok q => exact ⟨fun _ => trivial,fun _ => .thrown _⟩
  | loginConfirm q => exact ⟨fun _ => trivial,fun _ => .thrown _⟩

omit few in
theorem late_step {i : ClientConnection} {m : Message} (hm : ∀ lg, m ≠ .login lg) :
    Books { l with server := l.server.step regex (.message i m) } := by
  have hack : ∀ n, Within (Server.Keeps ServerID) (Server.acknowledge i m n) := by
    intro n s
    obtain ⟨oks,hf,-⟩ := Server.acknowledge_final i m n s
    rw [hf]
    exact .of_eq rfl rfl rfl rfl
  have hk : Within (Server.Keeps ServerID) (Server.handle regex i m) :=
    Server.handle_within_request Server.Keeps.refl Server.Keeps.trans Server.onNode_keeps
      Server.nodePublish_keeps (fun n _ => hack n) hm
  exact h.interface (.message i m) (hk l.server)

end ServerLog.Books

variable {regex : RegexCompiler}

theorem ServerLog.Books.step_late {l : ServerLog} {e : ServerEvent} (h : l.Books)
    (few : (l.step regex e).Few) (few₀ : l.Few) (hl : l.LateRefused regex e) :
    (l.step regex e).Books := by
  refine h.step_of_message few few₀ fun i m calls => ?_
  cases calls with
  | message sender decoded =>
    by_cases hc : i.socket ∈ l.server.closed
    · have hr := hl i sender hc m decoded
      refine h.late_step fun lg he => ?_
      subst he
      exact hr
    · exact h.message (List.mem_of_getElem? sender) hc m

theorem ServerLog.run_late {cache : ReCache} {events : List ServerEvent}
    (refused : Runs.Along (ServerLog.step regex) (ServerLog.LateRefused regex)
      (ServerLog.start cache) events) (few : ((ServerLog.start cache).run regex events).Few) :
    ((ServerLog.start cache).run regex events).Books := by
  refine refused.invariant (P := fun l => l.Few → l.Books) (fun l e h hr few' => ?_)
    (fun _ => .start cache) few
  have few₀ : l.Few := Nat.lt_of_le_of_lt (l.accepted_step e) few'
  exact (h few₀).step_late few' few₀ hr

/-- In every run in which the late messages are of the refused kinds: these are
exactly the messages of a closed connection that have no effect, and its id is
not among the users or listeners. -/
theorem late_messages_refused (cache : ReCache) (sound : ReCache.Sound regex cache)
    (events : List ServerEvent) {l : ServerLog}
    (run : l = (ServerLog.start cache).run regex events)
    (refused : Runs.Along (ServerLog.step regex) (ServerLog.LateRefused regex)
      (ServerLog.start cache) events)
    (few : l.accepted.length < 2^31-1) {i : ClientConnection} (accepted : i ∈ l.accepted)
    (closed : i.socket ∈ l.server.closed) :
    (∀ m : Message, m.Sendable →
      (l.server.Unaffected (Server.onNewMessage regex i (received m.wire) l.server) ↔
        l.server.Refused regex m)) ∧
    l.server.users.exists i.id = false ∧ ∀ q, l.server.node.listener q i.id = none := by
  have h : l.Books := run ▸ ServerLog.run_late refused (run ▸ few)
  have hsound : ReCache.Sound regex l.server.cache := run ▸ ServerLog.run_sound sound events
  refine ⟨fun m hm => ?_,h.gone few accepted closed⟩
  rw [Server.onNewMessage_wire regex hm]
  split
  · exact h.late_iff few hsound accepted closed hm
  · rename_i hk
    refine ⟨fun _ => ?_,fun _ => .thrown _⟩
    cases m with
    | ok q => trivial
    | loginConfirm q => trivial
    | createQueue q => exact absurd (by simp [Message.kind]) hk
    | subscribe q => exact absurd (by simp [Message.kind]) hk
    | unsubscribe q => exact absurd (by simp [Message.kind]) hk
    | publish q => exact absurd (by simp [Message.kind]) hk
    | login q => exact absurd (by simp [Message.kind]) hk

def brokenOff : List ServerEvent := [.accept,.error 0]

theorem late_messages_refused_createQueue :
    (⟨0,0⟩ : ClientConnection) ∈ ((ServerLog.start ∅).run literal brokenOff).accepted ∧
    ((ServerLog.start ∅).run literal brokenOff).server.Unaffected (Server.onNewMessage literal ⟨0,0⟩
      (received (Message.wire (.createQueue ⟨[113],0⟩)))
      ((ServerLog.start ∅).run literal brokenOff).server) := by
  have hacc : (⟨0,0⟩ : ClientConnection) ∈
      ((ServerLog.start ∅).run literal brokenOff).accepted := by
    decide +kernel
  refine ⟨hacc,?_⟩
  have hr : Runs.Along (ServerLog.step literal) (ServerLog.LateRefused literal) (ServerLog.start ∅)
      brokenOff := ⟨trivial,trivial,trivial⟩
  have hall := late_messages_refused ∅ .empty brokenOff rfl hr (by decide +kernel) hacc
    (by decide +kernel)
  exact (hall.1 (.createQueue ⟨[113],0⟩) (by decide)).mpr trivial

/-- Its LOGIN makes it a user again, and the answer follows the null pointer. -/
theorem late_login_revives :
    ¬ (∀ (events : List ServerEvent) (l : ServerLog),
      l = (ServerLog.start ∅).run literal events → l.accepted.length < 2^31-1 →
      ∀ i ∈ l.accepted, i.socket ∈ l.server.closed → ∀ m : Message, m.Sendable →
        l.server.Unaffected (Server.onNewMessage literal i (received m.wire) l.server)) ∧
    (final (Server.onNewMessage literal ⟨0,0⟩ (received (Message.wire (.login ⟨[97]⟩)))
      ((ServerLog.start ∅).run literal brokenOff).server)).users.exists 0 = true := by
  refine ⟨fun h => ?_,by decide +kernel⟩
  have hu := (h brokenOff _ rfl (by decide +kernel) ⟨0,0⟩ (by decide +kernel) (by decide +kernel)
    (.login ⟨[97]⟩) (by decide)).pointer
  exact hu (by decide +kernel)

end Dqueue
