import Dqueue.Node
import Dqueue.Lib.Runs

/-!
Runs of a node: the calls that its owner makes, in any order, with the user
base that the node reads and the expression cache that the process shares.
-/

set_option autoImplicit false

namespace Dqueue
open Std Effects RawMem

structure World where
  users : UserBase
  node : Node
  cache : ReCache

abbrev Call := PublishParams × Bytes × Id

/-- The calls on the user base and on the node, and compilations made through
the cache by other parts of the process. -/
inductive Op where
  | append (user : User)
  | setLogin (id : Id) (login : Str)
  | eraseUser (id : Id)
  | compile (re : Str)
  | createQueue (qsettings : QueueSettings) (ownerId : Id)
  | changeSubscription (action : SubscribeActions) (settings : SubscriptionParams) (clientId : Id)
  | eraseClient (id : Id)
  | publish (pubParam : PublishParams) (rd : Bytes) (author : Id)
  deriving DecidableEq, Repr

structure Effect where
  world : World
  calls : List Call
  thrown : Option Exception

variable (regex : RegexCompiler)

def recordCalls (pubParam : PublishParams) (rd : Bytes) :
    List (Id × QueueListener) → EStateM Exception (ReCache × List Call) Unit :=
  Node.deliver
    (fun sp tag => on Prod.fst (fun cache s => (cache,s.2)) (sp.checkTag regex tag))
    (fun p d id => modify (fun s => (s.1,s.2 ++ [(p,d,id)]))) pubParam rd

/-- `Node::publish`. An author that is not a user is only logged. -/
def World.publish (w : World) (pubParam : PublishParams) (rd : Bytes) : Effect :=
  let (n,localCpy) := w.node.localCopy pubParam.queueName
  let r := recordCalls regex pubParam rd localCpy (w.cache,[])
  ⟨{ w with node := n, cache := (final r).1 },(final r).2,Effects.thrown r⟩

def World.exec (w : World) : Op → Effect
  | .append user => ⟨{ w with users := w.users.append user },[],none⟩
  | .setLogin id login => ⟨{ w with users := w.users.setLogin id login },[],none⟩
  | .eraseUser id =>
    match w.users.erase id with
    | .ok users => ⟨{ w with users := users },[],none⟩
    | .error e => ⟨w,[],some e⟩
  | .compile re =>
    let r := ReCache.compile regex re w.cache
    ⟨{ w with cache := final r },[],Effects.thrown r⟩
  | .createQueue qsettings ownerId =>
    let r := Node.createQueue w.users qsettings ownerId w.node
    ⟨{ w with node := final r },[],Effects.thrown r⟩
  | .changeSubscription action settings clientId =>
    let r := Node.changeSubscription w.users action settings clientId w.node
    ⟨{ w with node := final r },[],Effects.thrown r⟩
  | .eraseClient id => ⟨{ w with node := w.node.eraseClient id },[],none⟩
  | .publish pubParam rd _ => w.publish regex pubParam rd

def World.step (w : World) (op : Op) : World := (w.exec regex op).world

def World.run (w : World) (ops : List Op) : World := ops.foldl (World.step regex) w

/-- A new node beside any user base and any cache of compiled expressions. -/
structure World.Fresh (w : World) : Prop where
  node : w.node = Node.empty
  cache : ReCache.Sound regex w.cache

/-- Expressions without special characters match only themselves. -/
def literal : RegexCompiler := fun re => some (fun s => s == re)

def started : World :=
  ⟨((UserBase.create.append ⟨[115],ServerID⟩).append ⟨[97],1⟩).append ⟨[98],2⟩,Node.empty,∅⟩

/-- A listener to which `publish` delivers a message tagged `tag_`. -/
def QueueListener.isTarget (tag_ : Str) (ql : QueueListener) : Bool :=
  (!ql.isowner || ql.issubscribed) && tagMatches regex ql.settings.tag tag_

variable {regex}

section Delivery

variable (pubParam : PublishParams) (rd : Bytes)

theorem checkTag_run {cache : ReCache} (h : ReCache.Sound regex cache) (sp : SubscriptionParams)
    (tag_ : Str) (ht : sp.tag ≠ [] → regex sp.tag ≠ none) :
    ∃ cache', ReCache.Sound regex cache' ∧
      sp.checkTag regex tag_ cache = .ok (tagMatches regex sp.tag tag_) cache' := by
  unfold SubscriptionParams.checkTag tagMatches
  by_cases he : sp.tag.isEmpty
  · exact ⟨cache,h,by simp [he]⟩
  · have hne : sp.tag ≠ [] := by simpa using he
    obtain ⟨cre,cache',hr,hs,hc⟩ | ⟨e,hr,_⟩ := ReCache.compile_run h sp.tag
    · exact ⟨cache',hs,by simp [he,hc,hr]⟩
    · exact absurd hr (ht hne)

theorem checkTag_sound {cache : ReCache} (h : ReCache.Sound regex cache) (sp : SubscriptionParams)
    (tag_ : Str) : ReCache.Sound regex (final (sp.checkTag regex tag_ cache)) := by
  unfold SubscriptionParams.checkTag
  by_cases he : sp.tag.isEmpty
  · simpa [he] using h
  · obtain ⟨cre,cache',_,hs,hc⟩ | ⟨e,_,hc⟩ := ReCache.compile_run h sp.tag
    · simpa [he,hc] using hs
    · simpa [he,hc] using h

theorem recordCalls_nil (s : ReCache × List Call) :
    recordCalls regex pubParam rd [] s = .ok () s := rfl

theorem recordCalls_skip {x : Id × QueueListener} (hx : (!x.2.isowner || x.2.issubscribed) = false)
    (ls : List (Id × QueueListener)) (s : ReCache × List Call) :
    recordCalls regex pubParam rd (x :: ls) s = recordCalls regex pubParam rd ls s := by
  simp [recordCalls,Node.deliver,hx]

theorem recordCalls_ok {x : Id × QueueListener} (hx : (!x.2.isowner || x.2.issubscribed) = true)
    (ls : List (Id × QueueListener)) {cache cache' : ReCache} {b : Bool} (log : List Call)
    (hc : x.2.settings.checkTag regex pubParam.tag cache = .ok b cache') :
    recordCalls regex pubParam rd (x :: ls) (cache,log) =
      recordCalls regex pubParam rd ls
        (cache',if b then log ++ [(pubParam,rd,x.1)] else log) := by
  have hb : x.2.settings.tag = [] → b = true ∧ cache' = cache := by
    intro he
    simp [SubscriptionParams.checkTag,he] at hc
    exact ⟨hc.1,hc.2.symm⟩
  by_cases he : x.2.settings.tag = []
  · obtain ⟨rfl,rfl⟩ := hb he
    simp [recordCalls,Node.deliver,hx,he]
  · cases b <;> simp [recordCalls,Node.deliver,hx,he,on,hc]

theorem recordCalls_error {x : Id × QueueListener} (hx : (!x.2.isowner || x.2.issubscribed) = true)
    (ls : List (Id × QueueListener)) {cache cache' : ReCache} {e : Exception} (log : List Call)
    (hc : x.2.settings.checkTag regex pubParam.tag cache = .error e cache') :
    recordCalls regex pubParam rd (x :: ls) (cache,log) = .error e (cache',log) := by
  by_cases he : x.2.settings.tag = []
  · simp [SubscriptionParams.checkTag,he] at hc
  · simp [recordCalls,Node.deliver,hx,he,on,hc]

theorem recordCalls_all (ls : List (Id × QueueListener))
    (ht : ∀ x ∈ ls, x.2.settings.tag ≠ [] → regex x.2.settings.tag ≠ none)
    {cache : ReCache} (hs : ReCache.Sound regex cache) (log : List Call) :
    ∃ cache', recordCalls regex pubParam rd ls (cache,log) =
      .ok () (cache',log ++ (ls.filter (fun x => x.2.isTarget regex pubParam.tag)).map
        (fun x => (pubParam,rd,x.1))) := by
  induction ls generalizing cache log with
  | nil => exact ⟨cache,by simp [recordCalls_nil]⟩
  | cons x ls ih =>
    have hts : ∀ y ∈ ls, y.2.settings.tag ≠ [] → regex y.2.settings.tag ≠ none :=
      fun y hy => ht y (by simp [hy])
    cases hx : (!x.2.isowner || x.2.issubscribed) with
    | false =>
      obtain ⟨cache',hr⟩ := ih hts hs log
      refine ⟨cache',?_⟩
      rw [recordCalls_skip pubParam rd hx,hr]
      simp [QueueListener.isTarget,hx]
    | true =>
      obtain ⟨cache₁,hs₁,hc⟩ := checkTag_run hs x.2.settings pubParam.tag (ht x (by simp))
      rw [recordCalls_ok pubParam rd hx ls log hc]
      cases hm : tagMatches regex x.2.settings.tag pubParam.tag with
      | false =>
        obtain ⟨cache',hr⟩ := ih hts hs₁ log
        exact ⟨cache',by simp [hr,QueueListener.isTarget,hm]⟩
      | true =>
        obtain ⟨cache',hr⟩ := ih hts hs₁ (log ++ [(pubParam,rd,x.1)])
        exact ⟨cache',by simp [hr,QueueListener.isTarget,hx,hm]⟩

/-- However the loop ends, it calls the handler only for clients in the local
copy that are not mere owners, and leaves a sound cache. -/
theorem recordCalls_final (ls : List (Id × QueueListener)) {cache : ReCache}
    (hs : ReCache.Sound regex cache) (log : List Call) :
    ReCache.Sound regex (final (recordCalls regex pubParam rd ls (cache,log))).1 ∧
    ∀ call ∈ (final (recordCalls regex pubParam rd ls (cache,log))).2, call ∈ log ∨
      ∃ x ∈ ls, (!x.2.isowner || x.2.issubscribed) = true ∧ call = (pubParam,rd,x.1) := by
  induction ls generalizing cache log with
  | nil => exact ⟨hs,fun call hc => .inl hc⟩
  | cons x ls ih =>
    cases hx : (!x.2.isowner || x.2.issubscribed) with
    | false =>
      rw [recordCalls_skip pubParam rd hx]
      obtain ⟨h₁,h₂⟩ := ih hs log
      refine ⟨h₁,fun call hc => (h₂ call hc).imp_right ?_⟩
      rintro ⟨y,hy,hr⟩
      exact ⟨y,by simp [hy],hr⟩
    | true =>
      have hsound := checkTag_sound hs x.2.settings pubParam.tag
      cases hc : x.2.settings.checkTag regex pubParam.tag cache with
      | error e cache' =>
        rw [hc] at hsound
        rw [recordCalls_error pubParam rd hx ls log hc]
        exact ⟨hsound,fun call hcall => .inl hcall⟩
      | ok b cache' =>
        rw [hc] at hsound
        rw [recordCalls_ok pubParam rd hx ls log hc]
        obtain ⟨h₁,h₂⟩ := ih hsound (if b then log ++ [(pubParam,rd,x.1)] else log)
        refine ⟨h₁,fun call hcall => ?_⟩
        rcases h₂ call hcall with hlog | ⟨y,hy,hr⟩
        · cases b with
          | false => exact .inl hlog
          | true =>
            rcases List.mem_append.mp hlog with hlog | hnew
            · exact .inl hlog
            · exact .inr ⟨x,by simp,hx,by simpa using hnew⟩
        · exact .inr ⟨y,by simp [hy],hr⟩

end Delivery

inductive NodeStep (users : UserBase) (n : Node) : Op → Node → Prop where
  | quiet {op : Op} {n' : Node}
      (queues : ∀ q, n'.HasQueue q ↔ n.HasQueue q)
      (listeners : ∀ q c, n'.listener q c = n.listener q c)
      (create : ∀ qs c, op = .createQueue qs c → n.HasQueue qs.name ∨ users.exists c = false)
      (change : ∀ a sp c, op = .changeSubscription a sp c →
        (a = .Unsubscribe ∧ ¬ n.HasQueue sp.queueName) ∨ users.exists c = false)
      (erase : ∀ c, op ≠ .eraseClient c) : NodeStep users n op n'
  | created {qs : QueueSettings} {c : Id} {n' : Node}
      (missing : ¬ n.HasQueue qs.name) (user : users.exists c = true)
      (queues : ∀ q, n'.HasQueue q ↔ q = qs.name ∨ n.HasQueue q)
      (listeners : ∀ q d, n'.listener q d =
        if qs.name = q ∧ c = d then some (Node.joined .Create ⟨qs.name,[]⟩ (n.listener q d))
        else n.listener q d) : NodeStep users n (.createQueue qs c) n'
  | joined {a : SubscribeActions} {sp : SubscriptionParams} {c : Id} {n' : Node}
      (action : a ≠ .Unsubscribe) (user : users.exists c = true)
      (queues : ∀ q, n'.HasQueue q ↔ n.HasQueue q)
      (listeners : ∀ q d, n'.listener q d =
        if sp.queueName = q ∧ c = d then some (Node.joined a sp (n.listener q d))
        else n.listener q d) : NodeStep users n (.changeSubscription a sp c) n'
  | left {sp : SubscriptionParams} {c : Id} {n' : Node}
      (present : n.HasQueue sp.queueName) (user : users.exists c = true)
      (queues : ∀ q, n'.HasQueue q ↔ n.HasQueue q)
      (listeners : ∀ q d, n'.listener q d =
        if sp.queueName = q ∧ c = d then none else n.listener q d) :
      NodeStep users n (.changeSubscription .Unsubscribe sp c) n'
  | erased {id : Id} {n' : Node}
      (queues : ∀ q, n'.HasQueue q ↔ n.HasQueue q ∧ ¬ Node.Removed id n q)
      (listeners : ∀ q d, n'.listener q d = if d = id then none else n.listener q d) :
      NodeStep users n (.eraseClient id) n'

theorem quiet_of_eq {users : UserBase} {n n' : Node} {op : Op} (h : n' = n)
    (create : ∀ qs c, op ≠ .createQueue qs c) (change : ∀ a sp c, op ≠ .changeSubscription a sp c)
    (erase : ∀ c, op ≠ .eraseClient c) : NodeStep users n op n' := by
  subst h
  exact .quiet (fun _ => Iff.rfl) (fun _ _ => rfl) (fun qs c h => absurd h (create qs c))
    (fun a sp c h => absurd h (change a sp c)) erase

theorem localCopy_views (n : Node) (name : Str) :
    (∀ q, (n.localCopy name).1.HasQueue q ↔ n.HasQueue q) ∧
    (∀ q c, (n.localCopy name).1.listener q c = n.listener q c) := by
  unfold Node.localCopy
  split
  · refine ⟨fun _ => Iff.rfl,fun q c => ?_⟩
    unfold Node.listener
    rw [Node.listeners_setListeners]
    split
    · rename_i he
      rw [he]
    · rfl
  · exact ⟨fun _ => Iff.rfl,fun _ _ => rfl⟩

theorem Node.localCopy_of_queue {n : Node} {q : Str} (hq : n.HasQueue q) :
    (n.localCopy q).2 = (n.listeners q).toList := by
  simp [Node.localCopy,(Node.queueIsExists_iff _ _).mpr hq]

theorem Node.localCopy_of_missing {n : Node} {q : Str} (hq : ¬ n.HasQueue q) :
    (n.localCopy q).2 = [] := by
  have hne : n.queueIsExists q = false := by
    rw [Bool.eq_false_iff,ne_eq,Node.queueIsExists_iff]
    exact hq
  simp [Node.localCopy,hne]

theorem Node.mem_localCopy {n : Node} {q : Str} {x : Id × QueueListener} :
    x ∈ (n.localCopy q).2 ↔ n.HasQueue q ∧ n.listener q x.1 = some x.2 := by
  by_cases hq : n.HasQueue q
  · rw [localCopy_of_queue hq]
    exact ExtTreeMap.mem_toList_iff_getElem?_eq_some.trans (iff_and_self.mpr fun _ => hq)
  · simp [localCopy_of_missing hq,hq]

theorem createQueue_cases (users : UserBase) (qs : QueueSettings) (c : Id) (n : Node) :
    NodeStep users n (.createQueue qs c) (final (Node.createQueue users qs c n)) := by
  rw [Node.createQueue_run]
  cases hu : users.exists c with
  | false =>
    exact .quiet (fun _ => Iff.rfl) (fun _ _ => rfl)
      (fun qs' c' h => by cases h; exact .inr hu) (fun a sp c' h => by cases h)
      (fun c' h => by cases h)
  | true =>
    cases hq : n.queues[qs.name]? with
    | some old =>
      have hhas : n.HasQueue qs.name := by simp [Node.hasQueue_iff,hq]
      refine .quiet (fun q => ?_) (fun _ _ => rfl)
        (fun qs' c' h => by cases h; exact .inl hhas) (fun a sp c' h => by cases h)
        (fun c' h => by cases h)
      show Node.HasQueue ⟨n.queues.insert qs.name _,n.nextQueueId,n.subscriptions⟩ q ↔ _
      rw [Node.hasQueue_insert]
      exact or_iff_right_of_imp (fun h => h ▸ hhas)
    | none =>
      refine .created (by simp [Node.hasQueue_iff,hq]) hu (fun q => ?_) (fun q d => ?_)
      · exact Node.hasQueue_insert n q qs.name _ (n.nextQueueId+1)
      · exact Node.listener_changed (n.addQueue qs) q c d .Create ⟨qs.name,[]⟩

theorem changeSubscription_cases (users : UserBase) (a : SubscribeActions)
    (sp : SubscriptionParams) (c : Id) (n : Node) :
    NodeStep users n (.changeSubscription a sp c)
      (final (Node.changeSubscription users a sp c n)) := by
  have hq : n.queueIsExists sp.queueName = false ↔ ¬ n.HasQueue sp.queueName := by
    rw [← Node.queueIsExists_iff]; simp
  rw [Node.changeSubscription,Node.changeSubscriptionImpl_run]
  split
  · rename_i h
    exact .quiet (fun _ => Iff.rfl) (fun _ _ => rfl) (fun qs' c' h' => by cases h')
      (fun a' sp' c' h' => by cases h'; exact .inl ⟨h.1,hq.mp h.2⟩) (fun c' h' => by cases h')
  · rename_i h
    cases hu : users.exists c with
    | false =>
      exact .quiet (fun _ => Iff.rfl) (fun _ _ => rfl) (fun qs' c' h' => by cases h')
        (fun a' sp' c' h' => by cases h'; exact .inr hu) (fun c' h' => by cases h')
    | true =>
      by_cases ha : a = .Unsubscribe
      · subst ha
        have hp : n.HasQueue sp.queueName := by
          by_contra hn
          exact h ⟨rfl,hq.mpr hn⟩
        exact .left hp hu (fun _ => Iff.rfl)
          (fun q d => Node.listener_changed n q c d .Unsubscribe sp)
      · refine .joined ha hu (fun _ => Iff.rfl) (fun q d => ?_)
        have hl := Node.listener_changed n q c d a sp
        rwa [if_neg ha] at hl

variable (regex) in
theorem World.step_cases (w : World) (op : Op) :
    NodeStep w.users w.node op (w.step regex op).node := by
  cases op with
  | append user => exact quiet_of_eq rfl (by simp) (by simp) (by simp)
  | setLogin id login => exact quiet_of_eq rfl (by simp) (by simp) (by simp)
  | eraseUser id =>
    refine quiet_of_eq ?_ (by simp) (by simp) (by simp)
    simp only [World.step,World.exec]
    split <;> rfl
  | compile re => exact quiet_of_eq rfl (by simp) (by simp) (by simp)
  | createQueue qs c => exact createQueue_cases w.users qs c w.node
  | changeSubscription a sp c => exact changeSubscription_cases w.users a sp c w.node
  | eraseClient id =>
    exact .erased (Node.hasQueue_eraseClient id w.node) (Node.listener_eraseClient id w.node)
  | publish p rd author =>
    obtain ⟨hq,hl⟩ := localCopy_views w.node p.queueName
    exact .quiet hq hl (by simp) (by simp) (by simp)

theorem World.step_sound {w : World} (h : ReCache.Sound regex w.cache) (op : Op) :
    ReCache.Sound regex (w.step regex op).cache := by
  cases op with
  | eraseUser id =>
    simp only [World.step,World.exec]
    split <;> exact h
  | compile re =>
    obtain ⟨cre,cache',_,hs,hc⟩ | ⟨e,_,hc⟩ := ReCache.compile_run h re
    · simpa [World.step,World.exec,hc] using hs
    · simpa [World.step,World.exec,hc] using h
  | publish p rd author => exact (recordCalls_final p rd _ h []).1
  | append user => exact h
  | setLogin id login => exact h
  | createQueue qs c => exact h
  | changeSubscription a sp c => exact h
  | eraseClient id => exact h

theorem World.Fresh.no_queue {w : World} (h : w.Fresh regex) (q : Str) : ¬ w.node.HasQueue q := by
  rw [h.node]
  simp [Node.HasQueue,Node.empty]

theorem World.Fresh.no_listener {w : World} (h : w.Fresh regex) (q : Str) (c : Id) :
    w.node.listener q c = none := by
  rw [h.node]
  simp [Node.listener,Node.listeners,Node.empty]

end Dqueue
