import Dqueue.ServerConsumers

/-!
`Server::unsubscribe` calls the node with Subscribe. The server goes on listening,
or begins to, and only a queue that none of its consumers was ever subscribed to
stays without calls of a consumer.
-/

set_option autoImplicit false

namespace Dqueue
open Std Effects RawMem AsyncIO Queries

def Consumers.consumedFor (c : Consumers) (q : Str) :
    List (EventConsumer × PublishParams × Bytes × Id) :=
  c.consumed.filter (fun x => x.2.1.queueName == q)

namespace QueueServer

/-- A queue without consumers stays so, and no consumer is called with its messages. -/
def Unused (q : Str) (w w' : QueueServer) : Prop :=
  w.consumers.handlers q = ∅ →
    w'.consumers.handlers q = ∅ ∧ w'.consumers.consumedFor q = w.consumers.consumedFor q

section Unused

variable {regex : RegexCompiler} {q : Str}

theorem Unused.refl (w : QueueServer) : Unused q w w := fun h => ⟨h,rfl⟩

theorem Unused.trans (w₁ w₂ w₃ : QueueServer) (h : Unused q w₁ w₂) (h' : Unused q w₂ w₃) :
    Unused q w₁ w₃ := by
  intro hnone
  obtain ⟨hnone₂,hsame₂⟩ := h hnone
  obtain ⟨hnone₃,hsame₃⟩ := h' hnone₂
  exact ⟨hnone₃,hsame₃.trans hsame₂⟩

theorem Unused.of_eq {w w' : QueueServer} (h : w'.consumers = w.consumers) : Unused q w w' :=
  fun hnone => ⟨h ▸ hnone,by rw [h]⟩

theorem onServer_unused {α : Type} (x : ServerM α) : Within (Unused q) (onServer x) := by
  intro w
  rw [onServer_final]
  exact .of_eq rfl

theorem onLog_unused (x : ServerLogM Unit) : Within (Unused q) (onLog x) := by
  intro w
  rw [onLog_final]
  exact .of_eq rfl

theorem unused_steps : Steps regex (Unused q) where
  refl := Unused.refl
  trans := Unused.trans
  copy _ _ := .of_eq rfl
  check sp tag := onServer_unused _
  send path p rd id _ := .bind Unused.trans (onServer_unused _) fun _ =>
    .modify fun _ => .of_eq rfl
  consumers react hreact info d id w hnone := by
    by_cases hq : info.queueName = q
    · have hnil : (w.consumers.handlers info.queueName).toList = [] := by
        rw [hq,hnone]
        simp
      simp only [callConsumer,bind_apply,get_apply,hnil,callEach,pure_apply]
      exact ⟨hnone,rfl⟩
    · refine callEach_within Unused.refl Unused.trans (fun sp tag => onServer_unused _)
        (fun _ _ _ hn => ⟨hn,rfl⟩) (fun w h hn => ⟨hn,?_⟩) hreact w hnone
      simp [Consumers.consumedFor,hq]
  node call _ := onServer_unused _

theorem addHandler_unused {settings : SubscriptionParams} {handler : Option EventConsumer}
    (h : handler = none ∨ settings.queueName ≠ q) :
    Within (Unused q) (onConsumers (Consumers.addHandler settings handler)) := by
  have henrol : ∀ (w : QueueServer) (c : Consumers) p id, settings.queueName ≠ q →
      c.queue2handler = w.consumers.queue2handler → c.consumed = w.consumers.consumed →
      Unused q w { w with consumers := c.enrol settings p id } := by
    intro w c p id hne hqueues hconsumed hnone
    refine ⟨?_,by simp [Consumers.consumedFor,Consumers.enrol,hconsumed]⟩
    have hsame : c.handlers q = ∅ := by
      rw [Consumers.handlers,hqueues]
      exact hnone
    ext v
    show v ∈ (c.enrol settings p id).handlers q ↔ _
    rw [Consumers.handlers_enrol,hsame]
    simp [hne]
  refine Within.on fun w => ?_
  rcases Consumers.addHandler_final settings handler w.consumers with hsame |
    ⟨hhandler,c,p,id,hc,-,hqueues,-,hconsumed,-⟩
  · rw [hsame]
    exact .refl w
  · rw [hc]
    exact henrol w c p id (h.resolve_left hhandler) hqueues hconsumed

theorem step_unused {e : QueueServerEvent}
    (h : ∀ settings g, e = .subscribe settings (some g) → settings.queueName ≠ q)
    (w : QueueServer) : Unused q w (w.step regex e) := by
  cases e with
  | accept => exact onLog_unused _ w
  | message k d count react =>
    simp only [step,exec,bind_apply,get_apply]
    cases w.log.accepted[k]? with
    | none => exact .refl w
    | some i => exact unused_steps.onNewMessage onServer_unused count react i d w
  | error k => exact onLog_unused _ w
  | createQueue settings => exact unused_steps.call _ _ w
  | subscribe settings handler =>
    have hadd : handler = none ∨ settings.queueName ≠ q := by
      cases handler with
      | none => exact .inl rfl
      | some g => exact .inr (h settings g rfl)
    exact Within.bind Unused.trans (addHandler_unused hadd) (fun _ => onServer_unused _) w
  | unsubscribe qname => exact unused_steps.call _ _ w
  | publish settings data count react => exact unused_steps.call _ _ w
  | stopServer => exact onLog_unused _ w

theorem run_unused {events : List QueueServerEvent}
    (h : ∀ settings g, .subscribe settings (some g) ∈ events → settings.queueName ≠ q)
    (w : QueueServer) : Unused q w (w.run regex events) := by
  induction events generalizing w with
  | nil => exact .refl w
  | cons e events ih =>
    have hone : Unused q w (w.step regex e) :=
      step_unused (fun settings g he => h settings g (by simp [he])) w
    exact hone.trans _ _ _ (ih (fun settings g hm => h settings g (by simp [hm])) _)

end Unused

end QueueServer

/-- A client gets the messages of a queue: it is a listener, and not only as owner. -/
def Node.Subscribed (n : Node) (q : Str) (c : Id) : Prop :=
  ∃ ql, n.listener q c = some ql ∧ (!ql.isowner || ql.issubscribed) = true

theorem QueueServer.subscribed_unsubscribe {regex : RegexCompiler} {w : QueueServer} {q : Str}
    (h : w.log.server.node.Subscribed q ServerID) (q' : Str) :
    (w.step regex (.unsubscribe q)).log.server.node.Subscribed q' ServerID ↔
      w.log.server.node.Subscribed q' ServerID := by
  have hnode : (w.step regex (.unsubscribe q)).log.server =
      w.log.server.step regex (.unsubscribe q) := by
    rw [step,exec,call,onServer_final]
    rfl
  rw [hnode]
  rcases Server.step_node regex w.log.server (.unsubscribe q) with hsame | ⟨op,hop,hstep⟩
  · simp only [Node.Subscribed,hsame.listeners]
  · cases hop
    cases hstep with
    | quiet queues listeners create change erase => simp only [Node.Subscribed,listeners]
    | joined action user queues listeners =>
      by_cases hq : q = q'
      · subst hq
        refine ⟨fun _ => h,fun _ => ?_⟩
        refine ⟨_,?_,(Node.joined_subscribe ⟨q,[]⟩ (w.log.server.node.listener q ServerID)).2⟩
        rw [listeners,if_pos ⟨rfl,rfl⟩]
      · simp only [Node.Subscribed,listeners,hq,false_and,if_false]

/-- After `unsubscribe` and until the next `subscribe` on the queue no consumer of the
server is called with its messages, and the call subscribes the server to nothing: so
it is when the server was subscribed to the queue, and none of its consumers was. -/
theorem server_unsubscribe (regex : RegexCompiler) (cache : ReCache)
    (before : List QueueServerEvent) {w : QueueServer}
    (run : w = (QueueServer.start cache).run regex before) (q : Str)
    (subscribed : w.log.server.node.Subscribed q ServerID)
    (unregistered : ∀ settings h, .subscribe settings (some h) ∈ before → settings.queueName ≠ q) :
    (∀ after, (∀ settings handler, .subscribe settings handler ∈ after → settings.queueName ≠ q) →
      ((w.step regex (.unsubscribe q)).run regex after).consumers.consumedFor q =
        w.consumers.consumedFor q) ∧
    ∀ q', (w.step regex (.unsubscribe q)).log.server.node.Subscribed q' ServerID ↔
      w.log.server.node.Subscribed q' ServerID := by
  have hnone : w.consumers.handlers q = ∅ := by
    rw [run]
    refine (QueueServer.run_unused unregistered (QueueServer.start cache) ?_).1
    simp [QueueServer.start,Consumers.start,Consumers.handlers]
  refine ⟨fun after hafter => ?_,QueueServer.subscribed_unsubscribe subscribed⟩
  have hcall : QueueServer.Unused q w (w.step regex (.unsubscribe q)) :=
    QueueServer.step_unused (fun settings g he => by cases he) w
  have hrest : QueueServer.Unused q (w.step regex (.unsubscribe q))
      ((w.step regex (.unsubscribe q)).run regex after) :=
    QueueServer.run_unused (fun settings g hm => hafter settings (some g) hm) _
  exact (hcall.trans _ _ _ hrest hnone).2

theorem server_unsubscribe_no_consumer :
    ((QueueServer.start ∅).run literal [.createQueue ⟨[113]⟩,.subscribe ⟨[113],[]⟩ none,
      .unsubscribe [113],.publish ⟨[113],[]⟩ [5] (fun _ => 0)
        (fun _ _ => .unsubscribe [])]).consumers.consumedFor [113] = [] := by
  have h := (server_unsubscribe literal ∅ [.createQueue ⟨[113]⟩,.subscribe ⟨[113],[]⟩ none] rfl
    [113] ⟨⟨true,true,⟨[113],[]⟩⟩,by decide +kernel,rfl⟩ (by simp)).1
    [.publish ⟨[113],[]⟩ [5] (fun _ => 0) (fun _ _ => .unsubscribe [])] (by simp)
  have hnone : ((QueueServer.start ∅).run literal
      [.createQueue ⟨[113]⟩,.subscribe ⟨[113],[]⟩ none]).consumers.consumedFor [113] = [] := by
    decide +kernel
  rw [hnone] at h
  exact h

/-- The consumer that the server has subscribed is called after `unsubscribe`, and a
queue that the server was not subscribed to gets it as a listener. -/
theorem server_unsubscribe_subscribes :
    ((QueueServer.start ∅).run literal [.createQueue ⟨[113]⟩,.subscribe ⟨[113],[]⟩ (some 1),
      .unsubscribe [113],.publish ⟨[113],[]⟩ [5] (fun _ => 0)
        (fun _ _ => .unsubscribe [])]).consumers.consumedFor [113] ≠
      ((QueueServer.start ∅).run literal [.createQueue ⟨[113]⟩,.subscribe ⟨[113],[]⟩ (some 1),
        .unsubscribe [113]]).consumers.consumedFor [113] ∧
    ¬ ((QueueServer.start ∅).run literal [.createQueue ⟨[113]⟩]).log.server.node.Subscribed
      [113] ServerID ∧
    ((QueueServer.start ∅).run literal [.createQueue ⟨[113]⟩,
      .unsubscribe [113]]).log.server.node.Subscribed [113] ServerID := by
  refine ⟨by decide +kernel,?_,⟨true,true,⟨[113],[]⟩⟩,by decide +kernel,rfl⟩
  rintro ⟨ql,hql,hon⟩
  have hentry : ((QueueServer.start ∅).run literal
      [.createQueue ⟨[113]⟩]).log.server.node.listener [113] ServerID =
        some ⟨true,false,⟨[113],[]⟩⟩ := by decide +kernel
  rw [hentry] at hql
  cases hql
  cases hon

end Dqueue
