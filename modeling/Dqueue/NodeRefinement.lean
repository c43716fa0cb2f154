import Dqueue.Broker
import Dqueue.TagFiltering

/-!
The node is a broker. What is forgotten on the way are the maps, the ids of the queues,
the logins, the cache of compiled expressions and the flags of a listener that make no
difference; nobody who calls the node can tell.
-/

set_option autoImplicit false

namespace Dqueue
open Std Effects RawMem

def roleOf : Option QueueListener → Role Str
  | none => .absent
  | some ql =>
    if ql.isowner && !ql.issubscribed then .maker else .listens ql.isowner ql.settings.tag

def Node.broker (n : Node) (users : UserBase) : Broker Str Id Str where
  clients := {c | users.exists c = true}
  queues := {q | n.HasQueue q}
  role q c := roleOf (n.listener q c)

def World.broker (w : World) : Broker Str Id Str := w.node.broker w.users

/-- A message goes by its own tag; its data is not looked at. -/
def brokerTags (regex : RegexCompiler) : Tags Str (PublishParams × Bytes) where
  any := []
  compile tag := (regex tag).map fun cre m => cre m.1.tag = true

def Op.call : Op → BrokerCall Str Id Str (PublishParams × Bytes)
  | .append user => .admits user.id
  | .setLogin id _ => .admits id
  | .eraseUser id => .dismisses id
  | .compile re => .compiles re
  | .createQueue qsettings ownerId => .creates qsettings.name ownerId
  | .changeSubscription .Create settings clientId => .makes settings.queueName clientId
  | .changeSubscription .Subscribe settings clientId =>
    .subscribes settings.queueName settings.tag clientId
  | .changeSubscription .Unsubscribe settings clientId => .unsubscribes settings.queueName clientId
  | .eraseClient id => .leaves id
  | .publish pubParam rd _ => .publishes pubParam.queueName (pubParam,rd)

def World.machine (regex : RegexCompiler) : Machine World Op (List Call × Option Exception) where
  next := World.step regex
  answer w op := ((w.exec regex op).calls,(w.exec regex op).thrown)

/-- The calls of the handler are the messages sent, in the order of the clients' ids. -/
structure Shows (e : List Call × Option Exception) (a : BrokerAnswer Id (PublishParams × Bytes)) :
    Prop where
  sent : ∀ p rd c, (p,rd,c) ∈ e.1 ↔ (c,(p,rd)) ∈ a.sent
  order : e.1.Pairwise fun x y => x.2.2 < y.2.2
  refused : e.2.isSome ↔ a.refused

variable {regex : RegexCompiler}

section Roles

variable {o : Option QueueListener}

theorem roleOf_absent : roleOf o = .absent ↔ o = none := by
  cases o with
  | none => simp [roleOf]
  | some ql =>
    simp only [roleOf]
    split <;> simp

theorem roleOf_listens {made : Bool} {tag : Str} : roleOf o = .listens made tag ↔
    ∃ ql, o = some ql ∧ (!ql.isowner || ql.issubscribed) = true ∧ ql.isowner = made ∧
      ql.settings.tag = tag := by
  cases o with
  | none => simp [roleOf]
  | some ql => cases ho : ql.isowner <;> cases hs : ql.issubscribed <;> simp [roleOf,ho,hs]

theorem roleOf_create (sp : SubscriptionParams) :
    roleOf (some (Node.joined .Create sp o)) = Broker.Role.made (roleOf o) := by
  cases o with
  | none => rfl
  | some ql => cases ho : ql.isowner <;> cases hs : ql.issubscribed <;>
      simp [Node.joined,roleOf,Broker.Role.made,ho,hs]

theorem roleOf_subscribe (sp : SubscriptionParams) :
    roleOf (some (Node.joined .Subscribe sp o)) = Broker.Role.listening sp.tag (roleOf o) := by
  cases o with
  | none => rfl
  | some ql => cases ho : ql.isowner <;> cases hs : ql.issubscribed <;>
      simp [Node.joined,roleOf,Broker.Role.listening,ho,hs]

end Roles

namespace Node

variable {users : UserBase} {n n' : Node}

theorem deserted_iff (c : Id) (q : Str) :
    (n.broker users).Deserted ServerID c q ↔ Removed c n q := by
  rw [removed_iff]
  simp only [Broker.Deserted,broker,ne_eq,roleOf_absent,roleOf_listens]
  refine and_congr_right fun _ => or_congr Iff.rfl (and_congr_right fun _ => ?_)
  constructor
  · rintro ⟨tag,ql,hql,-,ho,-⟩
    exact ⟨ql,hql,ho⟩
  · rintro ⟨ql,hql,ho⟩
    exact ⟨ql.settings.tag,ql,hql,by simp [ho],ho,rfl⟩

theorem broker_congr {users' : UserBase} (clients : ∀ c, users'.exists c = users.exists c)
    (queues : ∀ q, n'.HasQueue q ↔ n.HasQueue q)
    (listeners : ∀ q c, n'.listener q c = n.listener q c) : n'.broker users' = n.broker users := by
  refine Broker.ext (Set.ext fun c => ?_) (Set.ext queues) ?_
  · simp [broker,clients]
  · funext q c
    simp [broker,listeners]

theorem role_changed {q₀ : Str} {c₀ : Id} {f : Option QueueListener → Option QueueListener}
    (listeners : ∀ q d, n'.listener q d =
      if q₀ = q ∧ c₀ = d then f (n.listener q d) else n.listener q d) :
    (n'.broker users).role =
      ((n.broker users).setRole q₀ c₀ (roleOf (f (n.listener q₀ c₀)))).role := by
  funext q d
  simp only [broker,Broker.setRole,listeners,eq_comm (a := q₀),eq_comm (a := c₀)]
  split
  · rename_i hqd
    rw [hqd.1,hqd.2]
  · rfl

theorem broker_create {qs : QueueSettings} {c : Id}
    (h : NodeStep users n (.createQueue qs c) n') :
    n'.broker users = (n.broker users).next ServerID (Op.createQueue qs c).call := by
  cases h with
  | quiet queues listeners create change erase =>
    rw [broker_congr (fun _ => rfl) queues listeners]
    refine (if_neg ?_).symm
    rintro ⟨hc,hq⟩
    rcases create qs c rfl with hhas | hnot
    · exact hq hhas
    · exact absurd (hnot.symm.trans hc) (by simp)
  | created missing user queues listeners =>
    refine Eq.trans ?_ (if_pos ⟨user,missing⟩).symm
    refine Broker.ext rfl (Set.ext queues) ?_
    rw [role_changed (f := fun o => some (joined .Create ⟨qs.name,[]⟩ o)) listeners,roleOf_create]
    rfl

theorem broker_change {a : SubscribeActions} {sp : SubscriptionParams} {c : Id}
    (h : NodeStep users n (.changeSubscription a sp c) n') :
    n'.broker users = (n.broker users).next ServerID (Op.changeSubscription a sp c).call := by
  cases h with
  | quiet queues listeners create change erase =>
    rw [broker_congr (fun _ => rfl) queues listeners]
    rcases change a sp c rfl with ⟨rfl,hmissing⟩ | hnot
    · exact (if_neg fun hcond => hmissing hcond.1).symm
    · have hclient : c ∉ (n.broker users).clients := by simp [broker,hnot]
      cases a with
      | Create => exact (if_neg hclient).symm
      | Subscribe => exact (if_neg hclient).symm
      | Unsubscribe => exact (if_neg fun hcond => hclient hcond.2).symm
  | joined action user queues listeners =>
    have hrole : (n'.broker users).role = _ :=
      role_changed (f := fun o => some (joined a sp o)) listeners
    cases a with
    | Create =>
      refine Eq.trans ?_ (if_pos user).symm
      refine Broker.ext rfl (Set.ext queues) ?_
      rw [hrole,roleOf_create]
      rfl
    | Subscribe =>
      refine Eq.trans ?_ (if_pos user).symm
      refine Broker.ext rfl (Set.ext queues) ?_
      rw [hrole,roleOf_subscribe]
      rfl
    | Unsubscribe => exact absurd rfl action
  | left present user queues listeners =>
    refine Eq.trans ?_ (if_pos ⟨present,user⟩).symm
    refine Broker.ext rfl (Set.ext queues) ?_
    exact role_changed (f := fun _ => none) listeners

theorem broker_eraseClient (c : Id) :
    (n.eraseClient c).broker users = (n.broker users).next ServerID (Op.eraseClient c).call := by
  refine Broker.ext rfl (Set.ext fun q => ?_) ?_
  · show (n.eraseClient c).HasQueue q ↔ n.HasQueue q ∧ ¬ (n.broker users).Deserted ServerID c q
    rw [hasQueue_eraseClient,deserted_iff]
  · funext q d
    simp only [broker,Broker.next,Op.call,listener_eraseClient]
    by_cases hd : d = c
    · simp [hd,roleOf]
    · simp [hd]

end Node

theorem UserBase.erase_of_missing {ub : UserBase} {id : Id} (h : ub.exists id = false) :
    ∃ e, ub.erase id = .error e := by
  have hnone : ub.users[id]? = none := by
    rw [Bool.eq_false_iff,ne_eq,exists_iff] at h
    simpa using h
  unfold erase
  rw [hnone]
  exact ⟨_,rfl⟩

namespace World

theorem step_broker (w : World) (op : Op) :
    (w.step regex op).broker = w.broker.next ServerID op.call := by
  have hstep := w.step_cases regex op
  cases op with
  | append user =>
    refine Broker.ext (Set.ext fun c => ?_) rfl rfl
    exact UserBase.exists_append w.users user c
  | setLogin id login =>
    refine Broker.ext (Set.ext fun c => ?_) rfl rfl
    exact UserBase.exists_setLogin w.users id c login
  | eraseUser id =>
    cases hu : w.users.exists id with
    | true =>
      obtain ⟨users,he⟩ := UserBase.erase_of_exists hu
      have hw : w.step regex (.eraseUser id) = { w with users := users } := by
        simp [World.step,World.exec,he]
      rw [hw]
      refine Broker.ext (Set.ext fun c => ?_) rfl rfl
      show users.exists c = true ↔ w.users.exists c = true ∧ c ≠ id
      rw [UserBase.exists_erase he c,and_comm]
    | false =>
      obtain ⟨e,he⟩ := UserBase.erase_of_missing hu
      have hw : w.step regex (.eraseUser id) = w := by simp [World.step,World.exec,he]
      rw [hw]
      refine Broker.ext (Set.ext fun c => ?_) rfl rfl
      show w.users.exists c = true ↔ w.users.exists c = true ∧ c ≠ id
      refine (and_iff_left_of_imp ?_).symm
      rintro hc rfl
      exact absurd (hu.symm.trans hc) (by simp)
  | compile re => rfl
  | createQueue qs c => exact Node.broker_create hstep
  | changeSubscription a sp c => exact Node.broker_change hstep
  | eraseClient id => exact Node.broker_eraseClient id
  | publish p rd author =>
    obtain ⟨hq,hl⟩ := localCopy_views w.node p.queueName
    exact Node.broker_congr (fun _ => rfl) hq hl

end World

section Publish

theorem ReCache.compile_error {re : Str} {cache cache' : ReCache} {e : Exception}
    (h : ReCache.compile regex re cache = .error e cache') : e = ⟨"regex_error"⟩ := by
  unfold ReCache.compile at h
  simp only [bind_apply,get_apply] at h
  cases hc : cache[re]? with
  | some cre => simp [hc] at h
  | none =>
    cases hr : regex re with
    | none =>
      simp [hc,hr] at h
      exact h.1.symm
    | some cre => simp [hc,hr] at h

theorem checkTag_error {sp : SubscriptionParams} {tag_ : Str} {cache cache' : ReCache}
    {e : Exception} (h : sp.checkTag regex tag_ cache = .error e cache') :
    e = ⟨"regex_error"⟩ := by
  unfold SubscriptionParams.checkTag at h
  split at h
  · cases h
  · rw [bind_apply] at h
    cases hc : ReCache.compile regex sp.tag cache with
    | ok cre cache'' => simp [hc] at h
    | error e' cache'' =>
      rw [hc] at h
      cases h
      exact ReCache.compile_error hc

variable (p : PublishParams) (rd : Bytes)

theorem recordCalls_thrown (ls : List (Id × QueueListener)) (cache : ReCache) (log : List Call)
    {e : Exception} (h : thrown (recordCalls regex p rd ls (cache,log)) = some e) :
    e = ⟨"regex_error"⟩ := by
  induction ls generalizing cache log with
  | nil => cases h
  | cons x ls ih =>
    cases hx : (!x.2.isowner || x.2.issubscribed) with
    | false =>
      rw [recordCalls_skip p rd hx] at h
      exact ih cache log h
    | true =>
      cases hc : x.2.settings.checkTag regex p.tag cache with
      | ok b cache' =>
        rw [recordCalls_ok p rd hx ls log hc] at h
        exact ih cache' _ h
      | error e' cache' =>
        rw [recordCalls_error p rd hx ls log hc] at h
        cases h
        exact checkTag_error hc

/-- The loop of `publish` calls the handler for the targets up to the first tag that
cannot be compiled, at which it throws. -/
theorem recordCalls_reached (ls : List (Id × QueueListener)) {cache : ReCache}
    (hs : ReCache.Sound regex cache) (log : List Call) :
    (final (recordCalls regex p rd ls (cache,log))).2 =
        log ++ (Server.reached regex p.tag ls).map (fun c => (p,rd,c)) ∧
      ((thrown (recordCalls regex p rd ls (cache,log))).isSome ↔ ∃ x ∈ ls, x.2.Broken regex) := by
  induction ls generalizing cache log with
  | nil => simp [recordCalls_nil,Server.reached]
  | cons x ls ih =>
    cases hx : (!x.2.isowner || x.2.issubscribed) with
    | false =>
      have hb : ¬ x.2.Broken regex := fun h => absurd (hx.symm.trans h.1) (by simp)
      rw [recordCalls_skip p rd hx]
      simpa [Server.reached,hb,QueueListener.isTarget,hx] using ih hs log
    | true =>
      by_cases hb : x.2.Broken regex
      · obtain ⟨e,cache',hc⟩ : ∃ e cache',
            x.2.settings.checkTag regex p.tag cache = .error e cache' := by
          obtain ⟨cre,cache',hr,-,-⟩ | ⟨e,-,hc⟩ := ReCache.compile_run hs x.2.settings.tag
          · rw [hb.2.2] at hr
            cases hr
          · exact ⟨e,cache,by simp [SubscriptionParams.checkTag,hb.2.1,hc]⟩
        rw [recordCalls_error p rd hx ls log hc]
        simp [Server.reached,hb]
      · have ht : x.2.settings.tag ≠ [] → regex x.2.settings.tag ≠ none :=
          fun hne hnone => hb ⟨hx,hne,hnone⟩
        obtain ⟨cache',hs',hc⟩ := checkTag_run hs x.2.settings p.tag ht
        rw [recordCalls_ok p rd hx ls log hc]
        obtain ⟨hcalls,hthrown⟩ := ih hs' (if tagMatches regex x.2.settings.tag p.tag then
          log ++ [(p,rd,x.1)] else log)
        rw [hcalls,hthrown]
        cases hm : tagMatches regex x.2.settings.tag p.tag <;>
          simp [Server.reached,hb,QueueListener.isTarget,hx,hm]

theorem matches_iff (tag : Str) :
    (brokerTags regex).Matches tag (p,rd) ↔ tagMatches regex tag p.tag = true := by
  simp only [Tags.Matches,brokerTags,tagMatches,Bool.or_eq_true,List.isEmpty_iff]
  refine or_congr Iff.rfl ?_
  cases regex tag with
  | none => simp
  | some cre => simp

variable {users : UserBase} {n : Node} {q : Str} {c : Id}

theorem Node.wants_iff : (n.broker users).Wants (brokerTags regex) q (p,rd) c ↔
    ∃ ql, n.listener q c = some ql ∧ ql.isTarget regex p.tag = true := by
  simp only [Broker.Wants,broker,roleOf_listens,matches_iff,QueueListener.isTarget,
    Bool.and_eq_true]
  constructor
  · rintro ⟨made,tag,⟨ql,hql,hactive,rfl,rfl⟩,hm⟩
    exact ⟨ql,hql,hactive,hm⟩
  · rintro ⟨ql,hql,hactive,hm⟩
    exact ⟨_,_,⟨ql,hql,hactive,rfl,rfl⟩,hm⟩

omit p rd in
theorem Node.brokenAt_iff : (n.broker users).BrokenAt (brokerTags regex) q c ↔
    ∃ ql, n.listener q c = some ql ∧ ql.Broken regex := by
  simp only [Broker.BrokenAt,broker,roleOf_listens,Tags.Broken,brokerTags,
    Option.map_eq_none_iff,QueueListener.Broken]
  constructor
  · rintro ⟨made,tag,⟨ql,hql,hactive,rfl,rfl⟩,hne,hnone⟩
    exact ⟨ql,hql,hactive,hne,hnone⟩
  · rintro ⟨ql,hql,hactive,hne,hnone⟩
    exact ⟨_,_,⟨ql,hql,hactive,rfl,rfl⟩,hne,hnone⟩

omit p rd in
theorem Server.reached_ordered (regex : RegexCompiler) (n : Node) (q tag_ : Str) :
    (Server.reached regex tag_ (n.localCopy q).2).Pairwise (· < ·) := by
  rw [Server.reached_eq,List.pairwise_map]
  by_cases hq : n.HasQueue q
  · rw [Node.localCopy_of_queue hq]
    exact (ExtTreeMap.ordered_keys_toList.imp compare_eq_lt.mp).sublist (Scan.reached_sublist _)
  · rw [Node.localCopy_of_missing hq]
    exact .nil

variable (users n) in
theorem Node.mem_reached (c : Id) :
    c ∈ Server.reached regex p.tag (n.localCopy p.queueName).2 ↔ (c,(p,rd)) ∈
      ((n.broker users).answer (brokerTags regex) (.publishes p.queueName (p,rd))).sent := by
  have hserves : n.Serves regex p c ↔ p.queueName ∈ (n.broker users).queues ∧
      (n.broker users).Wants (brokerTags regex) p.queueName (p,rd) c ∧
        ∀ d, d < c → ¬ (n.broker users).BrokenAt (brokerTags regex) p.queueName d := by
    refine and_congr Iff.rfl (and_congr (Node.wants_iff p rd).symm ?_)
    simp only [Node.brokenAt_iff,not_exists,not_and]
    exact ⟨fun h d hlt ql hql => h d ql hql hlt,fun h d ql hql hlt => h d hlt ql hql⟩
  rw [(Server.reached_localCopy regex p n c).2,hserves]
  exact ⟨fun h => ⟨rfl,h⟩,fun h => h.2⟩

variable (users n) in
theorem Node.broken_localCopy : (∃ x ∈ (n.localCopy p.queueName).2, x.2.Broken regex) ↔
    ((n.broker users).answer (brokerTags regex) (.publishes p.queueName (p,rd))).refused := by
  simp only [Node.mem_localCopy,Broker.answer,Node.brokenAt_iff]
  constructor
  · rintro ⟨x,⟨hq,hx⟩,hb⟩
    exact ⟨hq,x.1,x.2,hx,hb⟩
  · rintro ⟨hq,d,ql,hql,hb⟩
    exact ⟨(d,ql),⟨hq,hql⟩,hb⟩

theorem World.shows_publish {w : World} (hs : ReCache.Sound regex w.cache) :
    Shows ((w.publish regex p rd).calls,(w.publish regex p rd).thrown)
      (w.broker.answer (brokerTags regex) (.publishes p.queueName (p,rd))) := by
  obtain ⟨hcalls,hthrown⟩ := recordCalls_reached p rd (w.node.localCopy p.queueName).2 hs []
  have hpublished : (w.publish regex p rd).calls =
      (Server.reached regex p.tag (w.node.localCopy p.queueName).2).map (fun c => (p,rd,c)) :=
    hcalls
  refine ⟨fun p' rd' c => ?_,?_,hthrown.trans (Node.broken_localCopy p rd w.users w.node)⟩
  · rw [hpublished,List.mem_map]
    constructor
    · rintro ⟨d,hd,he⟩
      cases he
      exact (Node.mem_reached p rd w.users w.node _).mp hd
    · intro hc
      obtain ⟨he,-⟩ := id hc
      cases he
      exact ⟨c,(Node.mem_reached p rd w.users w.node c).mpr hc,rfl⟩
  · rw [hpublished,List.pairwise_map]
    exact Server.reached_ordered regex w.node p.queueName p.tag

end Publish

theorem Shows.silent {r : Prop} {o : Option Exception} (h : o.isSome ↔ r) :
    Shows ([],o) ⟨∅,r⟩ :=
  ⟨fun _ _ _ => ⟨fun hmem => (List.not_mem_nil hmem).elim,fun hmem => hmem.elim⟩,.nil,h⟩

theorem World.shows_answer {w : World} (hs : ReCache.Sound regex w.cache) (op : Op) :
    Shows ((w.exec regex op).calls,(w.exec regex op).thrown)
      (w.broker.answer (brokerTags regex) op.call) := by
  cases op with
  | append user => exact .silent (by simp [World.exec])
  | setLogin id login => exact .silent (by simp [World.exec])
  | eraseUser id =>
    have hmissing : (¬ w.users.exists id = true) ↔ id ∉ w.broker.clients := Iff.rfl
    cases hu : w.users.exists id with
    | true =>
      obtain ⟨users,he⟩ := UserBase.erase_of_exists hu
      rw [World.exec,he]
      exact .silent (by simp [← hmissing,hu])
    | false =>
      obtain ⟨e,he⟩ := UserBase.erase_of_missing hu
      rw [World.exec,he]
      exact .silent (by simp [← hmissing,hu])
  | compile re =>
    refine .silent ?_
    obtain ⟨cre,cache',hr,-,hc⟩ | ⟨e,hr,hc⟩ := ReCache.compile_run hs re
    · simp [World.exec,hc,brokerTags,hr]
    · simp [World.exec,hc,brokerTags,hr]
  | createQueue qs c =>
    refine .silent ?_
    have hmissing : (¬ w.users.exists c = true) ↔ c ∉ w.broker.clients := Iff.rfl
    simp only [World.exec]
    rw [Node.createQueue_run,← hmissing]
    cases hu : w.users.exists c with
    | false => simp
    | true =>
      simp only [Bool.true_eq_false,if_false]
      split <;> simp
  | changeSubscription a sp c =>
    have hmissing : (¬ w.users.exists c = true) ↔ c ∉ w.broker.clients := Iff.rfl
    have hq : w.node.queueIsExists sp.queueName = true ↔ sp.queueName ∈ w.broker.queues :=
      Node.queueIsExists_iff _ _
    have hrun := Node.changeSubscriptionImpl_run w.users a sp c w.node
    cases a with
    | Create =>
      refine .silent ?_
      simp only [World.exec]
      rw [Node.changeSubscription,hrun,← hmissing]
      cases hu : w.users.exists c <;> simp
    | Subscribe =>
      refine .silent ?_
      simp only [World.exec]
      rw [Node.changeSubscription,hrun,← hmissing]
      cases hu : w.users.exists c <;> simp
    | Unsubscribe =>
      refine .silent ?_
      simp only [World.exec]
      rw [Node.changeSubscription,hrun,← hmissing,← hq]
      cases hu : w.users.exists c <;> cases hqe : w.node.queueIsExists sp.queueName <;> simp
  | eraseClient id => exact .silent (by simp [World.exec])
  | publish p rd author => exact shows_publish p rd hs

theorem World.simulates (regex : RegexCompiler) :
    (World.machine regex).Simulates (Broker.machine ServerID (brokerTags regex)) Op.call
      (fun w b => w.broker = b ∧ ReCache.Sound regex w.cache) Shows where
  next := by
    rintro w b op ⟨rfl,hs⟩
    exact ⟨w.step_broker op,World.step_sound hs op⟩
  answer := by
    rintro w b op ⟨rfl,hs⟩
    exact World.shows_answer hs op

theorem World.Fresh.broker {w : World} (h : w.Fresh regex) :
    w.broker = .start {c | w.users.exists c = true} := by
  refine Broker.ext rfl (Set.ext fun q => iff_of_false (h.no_queue q) (Set.notMem_empty q)) ?_
  funext q c
  show roleOf (w.node.listener q c) = .absent
  rw [h.no_listener,roleOf]

/-- A new node answers every sequence of calls as the broker does, and ends where the
broker ends. -/
theorem node_refines_broker {w₀ : World} (fresh : w₀.Fresh regex) (ops : List Op) :
    List.Forall₂ Shows ((World.machine regex).answers w₀ ops)
      ((Broker.machine ServerID (brokerTags regex)).answers
        (.start {c | w₀.users.exists c = true}) (ops.map Op.call)) ∧
    (w₀.run regex ops).broker = (Broker.machine ServerID (brokerTags regex)).run
      (.start {c | w₀.users.exists c = true}) (ops.map Op.call) := by
  have hsim := World.simulates regex
  have hstart : w₀.broker = .start {c | w₀.users.exists c = true} ∧
      ReCache.Sound regex w₀.cache := ⟨fresh.broker,fresh.cache⟩
  exact ⟨hsim.answers hstart ops,(hsim.run hstart ops).1⟩

/-- The second client's subscription cannot be compiled and stops the message before it
gets to the third. -/
def stoppedMessage : List Op :=
  [.append ⟨[99],3⟩,.createQueue ⟨[113]⟩ 1,.changeSubscription .Subscribe ⟨[113],[]⟩ 1,
    .changeSubscription .Subscribe ⟨[113],[40]⟩ 2,.changeSubscription .Subscribe ⟨[113],[]⟩ 3,
    .publish ⟨[113],[]⟩ [7] 1]

def parenthesis : RegexCompiler := fun re => if re = [40] then none else literal re

theorem node_refines_broker_stopped_message :
    List.Forall₂ Shows [([],none),([],none),([],none),([],none),([],none),
        ([(⟨[113],[]⟩,[7],1)],some ⟨"regex_error"⟩)]
      ((Broker.machine ServerID (brokerTags parenthesis)).answers
        (.start {c | started.users.exists c = true}) (stoppedMessage.map Op.call)) := by
  have hanswers : (World.machine parenthesis).answers started stoppedMessage =
      [([],none),([],none),([],none),([],none),([],none),
        ([(⟨[113],[]⟩,[7],1)],some ⟨"regex_error"⟩)] := by decide +kernel
  rw [← hanswers]
  exact (node_refines_broker ⟨rfl,.empty⟩ stoppedMessage).1

section Observers

/-- What the caller of a node can tell: the calls of the handler, and the exception that
came out. -/
def World.observed (regex : RegexCompiler) (w : World) (ops : List Op) :
    List (List Call × Option Exception) :=
  (World.machine regex).answers w ops

/-- The only exception that a call can end with. -/
def Op.complaint : Op → Exception
  | .eraseUser id => ⟨s!"node: user id=#{id}not exists"⟩
  | .createQueue _ ownerId => ⟨s!"node: clientId={ownerId} does not exists"⟩
  | .changeSubscription _ _ clientId => ⟨s!"node: clientId=#{clientId} does not exists"⟩
  | _ => ⟨"regex_error"⟩

/-- The text of an exception depends on the call alone. -/
theorem World.thrown_eq (w : World) (op : Op) {e : Exception}
    (h : (w.exec regex op).thrown = some e) : e = op.complaint := by
  cases op with
  | append user => cases h
  | setLogin id login => cases h
  | eraseUser id =>
    simp only [World.exec,UserBase.erase] at h
    cases hu : w.users.users[id]? <;> rw [hu] at h <;> cases h
    rfl
  | compile re =>
    cases hc : ReCache.compile regex re w.cache with
    | ok cre cache => simp [World.exec,hc] at h
    | error e' cache =>
      simp only [World.exec,hc,thrown_error,Option.some.injEq] at h
      exact h ▸ ReCache.compile_error hc
  | createQueue qs c =>
    simp only [World.exec,Node.createQueue_run] at h
    split at h
    · cases h
      rfl
    · split at h <;> cases h
  | changeSubscription a sp c =>
    simp only [World.exec,Node.changeSubscription,Node.changeSubscriptionImpl_run] at h
    split at h
    · cases h
    · split at h <;> cases h
      rfl
  | eraseClient id => cases h
  | publish p rd author => exact recordCalls_thrown p rd _ _ _ h

theorem thrown_unique {x x' : Option Exception} {complaint : Exception}
    (same : x.isSome ↔ x'.isSome) (h : ∀ e, x = some e → e = complaint)
    (h' : ∀ e, x' = some e → e = complaint) : x = x' := by
  cases x with
  | none =>
    cases x' with
    | none => rfl
    | some e' => simp at same
  | some e =>
    cases x' with
    | none => simp at same
    | some e' => rw [h e rfl,h' e' rfl]

theorem Shows.unique {e e' : List Call × Option Exception}
    {a : BrokerAnswer Id (PublishParams × Bytes)} (h : Shows e a) (h' : Shows e' a)
    {complaint : Exception} (he : ∀ x, e.2 = some x → x = complaint)
    (he' : ∀ x, e'.2 = some x → x = complaint) : e = e' := by
  have hmem : ∀ x, x ∈ e.1 ↔ x ∈ e'.1 := fun x =>
    (h.sent x.1 x.2.1 x.2.2).trans (h'.sent x.1 x.2.1 x.2.2).symm
  have hnodup : ∀ l : List Call, (l.Pairwise fun x y => x.2.2 < y.2.2) → l.Nodup := by
    intro l hl
    refine hl.imp ?_
    rintro x y hlt rfl
    exact UInt64.lt_irrefl _ hlt
  have hperm : e.1.Perm e'.1 :=
    (List.perm_ext_iff_of_nodup (hnodup _ h.order) (hnodup _ h'.order)).mpr hmem
  have hcalls : e.1 = e'.1 :=
    hperm.eq_of_pairwise (fun x y _ _ hxy hyx => absurd hyx (UInt64.lt_asymm hxy)) h.order h'.order
  exact Prod.ext hcalls (thrown_unique (h.refused.trans h'.refused.symm) he he')

open Classical in
theorem exists_observation : ∃ f : Op → BrokerAnswer Id (PublishParams × Bytes) →
    List Call × Option Exception, ∀ op e a, Shows e a → (∀ x, e.2 = some x → x = op.complaint) →
      e = f op a := by
  refine ⟨fun op a => if h : ∃ e, Shows e a ∧ ∀ x, e.2 = some x → x = op.complaint then h.choose
    else default,fun op e a h he => ?_⟩
  have hex : ∃ e, Shows e a ∧ ∀ x, e.2 = some x → x = op.complaint := ⟨e,h,he⟩
  simp only [dif_pos hex]
  exact h.unique hex.choose_spec.1 he hex.choose_spec.2

theorem World.exists_observed (regex : RegexCompiler) :
    ∃ f : Op → BrokerAnswer Id (PublishParams × Bytes) → List Call × Option Exception,
      ∀ w : World, ReCache.Sound regex w.cache → ∀ ops, w.observed regex ops = ops.zipWith f
        ((Broker.machine ServerID (brokerTags regex)).answers w.broker (ops.map Op.call)) := by
  obtain ⟨f,hf⟩ := exists_observation
  refine ⟨f,fun w hs ops => ?_⟩
  refine (World.simulates regex).answers_eq (fun w b op hw => ?_) ⟨rfl,hs⟩ ops
  exact hf op _ _ ((World.simulates regex).answer w b op hw) fun x hx => w.thrown_eq op hx

/-- Nobody can tell apart two states with the same clients and queues in which the clients
are the same to the queues: not by the ids of the queues, not by the logins, and not by
what has been compiled before. -/
theorem same_broker_same_answers {w w' : World} (sound : ReCache.Sound regex w.cache)
    (sound' : ReCache.Sound regex w'.cache) (same : w.broker = w'.broker) (ops : List Op) :
    w.observed regex ops = w'.observed regex ops := by
  obtain ⟨f,hf⟩ := World.exists_observed regex
  rw [hf w sound,hf w' sound',same]

def subscribedByTag : World :=
  started.run literal [.createQueue ⟨[113]⟩ 1,.changeSubscription .Subscribe ⟨[113],[116]⟩ 2,
    .publish ⟨[113],[116]⟩ [6] 1]

theorem same_broker_same_answers_cache_cleared :
    World.observed literal ⟨subscribedByTag.users,subscribedByTag.node,∅⟩
      [.publish ⟨[113],[116]⟩ [7] 1] = [([(⟨[113],[116]⟩,[7],2)],none)] := by
  have hsound : ReCache.Sound literal subscribedByTag.cache :=
    World.run_sound ⟨rfl,.empty⟩ _
  have hsame := same_broker_same_answers (w := ⟨subscribedByTag.users,subscribedByTag.node,∅⟩)
    .empty hsound rfl [.publish ⟨[113],[116]⟩ [7] 1]
  rw [hsame]
  decide +kernel

/-- Calls of which neither changes a client or a queue that the other one looks at may
come in either order. Each is answered as in the other order, and so is everything later. -/
theorem separate_calls_commute {w₀ : World} (fresh : w₀.Fresh regex) {a b : Op}
    (separate : Machine.Separate BrokerCall.reads BrokerCall.writes a.call b.call)
    (pre post : List Op) :
    ∃ before x y after, before.length = pre.length ∧
      w₀.observed regex (pre ++ a :: b :: post) = before ++ x :: y :: after ∧
      w₀.observed regex (pre ++ b :: a :: post) = before ++ y :: x :: after := by
  obtain ⟨f,hf⟩ := World.exists_observed regex
  have hfoot := Broker.footprint (Q := Str) ServerID (brokerTags regex)
  obtain ⟨before,x,y,after,h₁,h₂,hlen⟩ :=
    hfoot.answers_swap separate w₀.broker (pre.map Op.call) (post.map Op.call)
  have hpre : pre.length = before.length := by simpa using hlen.symm
  refine ⟨pre.zipWith f before,f a x,f b y,post.zipWith f after,by simp [hpre],?_,?_⟩
  · rw [hf w₀ fresh.cache,List.map_append,List.map_cons,List.map_cons,h₁,List.zipWith_append hpre]
    rfl
  · rw [hf w₀ fresh.cache,List.map_append,List.map_cons,List.map_cons,h₂,List.zipWith_append hpre]
    rfl

theorem separate_calls_commute_two_queues :
    ∃ before x y after, before.length = 1 ∧
      started.observed literal ([.createQueue ⟨[113]⟩ 1] ++ .createQueue ⟨[112]⟩ 1 ::
        .changeSubscription .Subscribe ⟨[113],[]⟩ 2 :: [.publish ⟨[113],[]⟩ [7] 1]) =
          before ++ x :: y :: after ∧
      started.observed literal ([.createQueue ⟨[113]⟩ 1] ++
        .changeSubscription .Subscribe ⟨[113],[]⟩ 2 :: .createQueue ⟨[112]⟩ 1 ::
          [.publish ⟨[113],[]⟩ [7] 1]) = before ++ y :: x :: after := by
  refine separate_calls_commute ⟨rfl,.empty⟩ ?_ [.createQueue ⟨[113]⟩ 1] _
  simp [Machine.Separate,BrokerCall.reads,BrokerCall.writes,Op.call]

end Observers

end Dqueue
