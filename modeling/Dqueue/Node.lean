import Dqueue.NodeSettings

/-!
The node: queues by name, and for each queue name the listeners by client id.
The two maps have their own life: a queue may be absent from the first while
the second still has listeners under its name.
-/

set_option autoImplicit false

namespace Dqueue
open Std Effects RawMem

structure QueueSettings where
  name : Str
  deriving DecidableEq, Repr

structure Queue where
  queueId : Int32
  settings : QueueSettings
  deriving DecidableEq, Repr

structure QueueListener where
  isowner : Bool
  issubscribed : Bool
  settings : SubscriptionParams
  deriving DecidableEq, Repr

abbrev Listeners := ExtTreeMap Id QueueListener

structure Node where
  queues : ExtTreeMap Str Queue
  nextQueueId : Int32
  subscriptions : ExtTreeMap Str Listeners

namespace Node

def empty : Node := ⟨∅,0,∅⟩

def queueIsExists (n : Node) (name : Str) : Bool := n.queues.contains name

/-- `_subscriptions[queueName]`, with the empty map that `operator[]` inserts. -/
def listeners (n : Node) (queueName : Str) : Listeners := n.subscriptions[queueName]?.getD ∅

def setListeners (n : Node) (queueName : Str) (clients : Listeners) : Node :=
  { n with subscriptions := n.subscriptions.insert queueName clients }

def changeSubscriptionImpl (users : UserBase) (action : SubscribeActions)
    (settings : SubscriptionParams) (clientId : Id) : EStateM Exception Node Unit := do
  let n ← get
  -- a missing queue only stops Unsubscribe; for Subscribe it is logged and the call goes on
  if !n.queueIsExists settings.queueName && action == .Unsubscribe then
    return
  if !users.exists clientId then
    throw ⟨s!"node: clientId=#{clientId} does not exists"⟩
  let isOwner := action == .Create
  let clients := n.listeners settings.queueName
  match action with
  | .Create | .Subscribe =>
    match clients[clientId]? with
    | some ql =>
      if isOwner then
        set (n.setListeners settings.queueName clients)
      else
        set (n.setListeners settings.queueName
          (clients.insert clientId { ql with issubscribed := true, settings := settings }))
    | none =>
      set (n.setListeners settings.queueName
        (clients.insert clientId ⟨isOwner,false,settings⟩))
  | .Unsubscribe => set (n.setListeners settings.queueName (clients.erase clientId))

def changeSubscription (users : UserBase) (action : SubscribeActions)
    (settings : SubscriptionParams) (clientId : Id) : EStateM Exception Node Unit :=
  changeSubscriptionImpl users action settings clientId

def createQueue (users : UserBase) (qsettings : QueueSettings) (ownerId : Id) :
    EStateM Exception Node Unit := do
  if !users.exists ownerId then
    throw ⟨s!"node: clientId={ownerId} does not exists"⟩
  let n ← get
  match n.queues[qsettings.name]? with
  | none =>
    let new_q : Queue := ⟨n.nextQueueId,qsettings⟩
    set { n with
      nextQueueId := n.nextQueueId+1
      queues := n.queues.insert new_q.settings.name new_q }
    changeSubscriptionImpl users .Create ⟨qsettings.name,[]⟩ ownerId
  | some q =>
    set { n with queues := n.queues.insert qsettings.name { q with settings := qsettings } }

/-- The decision taken from the listeners that are left. The source's comment
asks for only the server's subscription; the code asks for that subscription
whether or not there are others. -/
def mustBeRemoved (clients : Listeners) : Bool :=
  clients.isEmpty || (match clients[ServerID]? with
    | some ql => !ql.isowner
    | none => false)

def eraseClientFrom (id : Id) (n : Node) (qname : Str) : Node :=
  let clients := n.listeners qname
  if clients.contains id then
    let clients := clients.erase id
    let n := n.setListeners qname clients
    if mustBeRemoved clients then { n with queues := n.queues.erase qname } else n
  else n

def eraseClient (n : Node) (id : Id) : Node :=
  n.subscriptions.keys.foldl (eraseClientFrom id) n

def localCopy (n : Node) (queueName : Str) : Node × List (Id × QueueListener) :=
  if n.queueIsExists queueName then
    (n.setListeners queueName (n.listeners queueName),(n.listeners queueName).toList)
  else (n,[])

/-- The loop of `publish`: `checkTag` and `handler` act on the state of the
caller, and an exception of either ends the loop. -/
def deliver {ε σ : Type} (checkTag : SubscriptionParams → Str → EStateM ε σ Bool)
    (handler : PublishParams → Bytes → Id → EStateM ε σ Unit)
    (pubParam : PublishParams) (rd : Bytes) :
    List (Id × QueueListener) → EStateM ε σ Unit
  | [] => pure ()
  | (clientId,ql) :: rest => do
      if !ql.isowner || ql.issubscribed then
        let isTarget ←
          if ql.settings.tag.isEmpty then pure true else checkTag ql.settings pubParam.tag
        if isTarget then
          handler pubParam rd clientId
      deliver checkTag handler pubParam rd rest

theorem deliver_within {ε σ : Type} {R : σ → σ → Prop} (hr : ∀ s, R s s)
    (ht : ∀ s₁ s₂ s₃, R s₁ s₂ → R s₂ s₃ → R s₁ s₃)
    {checkTag : SubscriptionParams → Str → EStateM ε σ Bool}
    {handler : PublishParams → Bytes → Id → EStateM ε σ Unit}
    (hc : ∀ sp tag, Within R (checkTag sp tag)) {pubParam : PublishParams} {rd : Bytes}
    (hh : ∀ id, Within R (handler pubParam rd id)) (ls : List (Id × QueueListener)) :
    Within R (deliver checkTag handler pubParam rd ls) := by
  induction ls with
  | nil => exact .pure hr ()
  | cons x ls ih =>
    obtain ⟨clientId,ql⟩ := x
    have hafter : ∀ isTarget : Bool, Within R (if isTarget = true then do
        handler pubParam rd clientId
        deliver checkTag handler pubParam rd ls
        else deliver checkTag handler pubParam rd ls) := by
      intro isTarget
      cases isTarget with
      | false => exact ih
      | true => exact .bind ht (hh _) fun _ => ih
    unfold deliver
    split
    · split
      · exact .bind ht (.pure hr true) hafter
      · exact .bind ht (hc _ _) hafter
    · exact ih

def listener (n : Node) (q : Str) (c : Id) : Option QueueListener := (n.listeners q)[c]?

def HasQueue (n : Node) (q : Str) : Prop := q ∈ n.queues

instance (n : Node) (q : Str) : Decidable (n.HasQueue q) := inferInstanceAs (Decidable (_ ∈ _))

def joined (action : SubscribeActions) (settings : SubscriptionParams) :
    Option QueueListener → QueueListener
  | some ql =>
    if action = .Create then ql else { ql with issubscribed := true, settings := settings }
  | none => ⟨action == .Create,false,settings⟩

def changed (n : Node) (action : SubscribeActions) (settings : SubscriptionParams)
    (c : Id) : Node :=
  let clients := n.listeners settings.queueName
  n.setListeners settings.queueName
    (if action = .Unsubscribe then clients.erase c
     else clients.insert c (joined action settings clients[c]?))

theorem insert_getElem? {clients : Listeners} {c : Id} {ql : QueueListener}
    (h : clients[c]? = some ql) : clients.insert c ql = clients := by
  apply ExtTreeMap.ext_getElem?
  intro d
  rw [ExtTreeMap.getElem?_insert]
  split
  · rename_i he
    rw [← LawfulEqCmp.compare_eq_iff_eq.mp he,h]
  · rfl

theorem changeSubscriptionImpl_run (users : UserBase) (action : SubscribeActions)
    (settings : SubscriptionParams) (c : Id) (n : Node) :
    changeSubscriptionImpl users action settings c n =
      if action = .Unsubscribe ∧ n.queueIsExists settings.queueName = false then .ok () n
      else if users.exists c = false then
        .error ⟨s!"node: clientId=#{c} does not exists"⟩ n
      else .ok () (n.changed action settings c) := by
  cases hq : n.queueIsExists settings.queueName <;> cases hu : users.exists c <;>
    cases action <;> cases hc : (n.listeners settings.queueName)[c]? <;>
    simp [changeSubscriptionImpl,changed,joined,hq,hu,hc,insert_getElem?]

def addQueue (n : Node) (qsettings : QueueSettings) : Node :=
  { n with
    nextQueueId := n.nextQueueId+1
    queues := n.queues.insert qsettings.name ⟨n.nextQueueId,qsettings⟩ }

def updateQueue (n : Node) (qsettings : QueueSettings) (q : Queue) : Node :=
  { n with queues := n.queues.insert qsettings.name { q with settings := qsettings } }

theorem createQueue_run (users : UserBase) (qsettings : QueueSettings) (c : Id) (n : Node) :
    createQueue users qsettings c n =
      if users.exists c = false then .error ⟨s!"node: clientId={c} does not exists"⟩ n
      else
        match n.queues[qsettings.name]? with
        | some q => .ok () (n.updateQueue qsettings q)
        | none => .ok () ((n.addQueue qsettings).changed .Create ⟨qsettings.name,[]⟩ c) := by
  cases hu : users.exists c <;> cases hq : n.queues[qsettings.name]? <;>
    simp [createQueue,changeSubscriptionImpl_run,addQueue,updateQueue,hu,hq]

section Views

variable (n : Node) (q q' : Str) (c c' : Id)

theorem listeners_setListeners (clients : Listeners) :
    (n.setListeners q clients).listeners q' = if q = q' then clients else n.listeners q' := by
  simp only [setListeners,listeners,ExtTreeMap.getElem?_insert,LawfulEqCmp.compare_eq_iff_eq]
  split <;> rfl

theorem listener_changed (action : SubscribeActions) (settings : SubscriptionParams) :
    (n.changed action settings c).listener q' c' =
      if settings.queueName = q' ∧ c = c' then
        (if action = .Unsubscribe then none
         else some (joined action settings (n.listener q' c')))
      else n.listener q' c' := by
  unfold changed listener
  rw [listeners_setListeners]
  by_cases hq : settings.queueName = q'
  · subst hq
    by_cases ha : action = .Unsubscribe <;> by_cases hc : c = c' <;>
      simp [ha,hc,ExtTreeMap.getElem?_insert,ExtTreeMap.getElem?_erase,
        LawfulEqCmp.compare_eq_iff_eq]
  · simp [hq]

theorem hasQueue_insert (name : Str) (old : Queue) (next : Int32) :
    HasQueue ⟨n.queues.insert name old,next,n.subscriptions⟩ q ↔ q = name ∨ n.HasQueue q := by
  simp only [HasQueue,ExtTreeMap.mem_insert,LawfulEqCmp.compare_eq_iff_eq]
  rw [eq_comm]

theorem queueIsExists_iff : n.queueIsExists q = true ↔ n.HasQueue q := by
  simp [queueIsExists,HasQueue]

theorem mustBeRemoved_iff (clients : Listeners) :
    mustBeRemoved clients = true ↔
      (∀ d : Id, clients[d]? = none) ∨ ∃ ql, clients[ServerID]? = some ql ∧ ql.isowner = false := by
  have he : clients.isEmpty = true ↔ ∀ d : Id, clients[d]? = none := by
    rw [ExtTreeMap.isEmpty_iff]
    constructor
    · rintro rfl d
      simp
    · intro h
      apply ExtTreeMap.ext_getElem?
      intro d
      simp [h d]
  unfold mustBeRemoved
  rw [Bool.or_eq_true,he]
  cases hs : clients[ServerID]? with
  | none => simp
  | some ql => simp

end Views

section EraseClient

variable (id : Id)

theorem erase_of_not_mem {clients : Listeners} (h : id ∉ clients) :
    clients.erase id = clients := by
  apply ExtTreeMap.ext_getElem?
  intro d
  rw [ExtTreeMap.getElem?_erase]
  split
  · rename_i he
    rw [← LawfulEqCmp.compare_eq_iff_eq.mp he]
    simpa using h
  · rfl

theorem eraseClientFrom_listeners (n : Node) (k q : Str) :
    (eraseClientFrom id n k).listeners q =
      if q = k then (n.listeners q).erase id else n.listeners q := by
  by_cases hc : (n.listeners k).contains id
  · have hl : (eraseClientFrom id n k).listeners q =
        (n.setListeners k ((n.listeners k).erase id)).listeners q := by
      simp only [eraseClientFrom,hc,if_true]
      split <;> rfl
    rw [hl,listeners_setListeners]
    by_cases hk : q = k
    · subst hk; simp
    · simp [hk,Ne.symm hk]
  · have hn : eraseClientFrom id n k = n := by simp [eraseClientFrom,hc]
    rw [hn]
    split
    · rename_i hk
      subst hk
      rw [erase_of_not_mem id (by simpa using hc)]
    · rfl

def Removed (n : Node) (q : Str) : Prop :=
  n.listener q id ≠ none ∧ mustBeRemoved ((n.listeners q).erase id) = true

instance (n : Node) (q : Str) : Decidable (Removed id n q) := inferInstanceAs (Decidable (_ ∧ _))

theorem eraseClientFrom_queues (n : Node) (k q : Str) :
    (eraseClientFrom id n k).queues[q]? =
      if q = k ∧ Removed id n k then none else n.queues[q]? := by
  have hmem : (n.listeners k).contains id = true ↔ n.listener k id ≠ none := by
    simp [listener]
  by_cases hc : (n.listeners k).contains id = true
  · by_cases hm : mustBeRemoved ((n.listeners k).erase id) = true
    · have hr : Removed id n k := ⟨hmem.mp hc,hm⟩
      simp only [eraseClientFrom,hc,hm,if_true,ExtTreeMap.getElem?_erase,
        LawfulEqCmp.compare_eq_iff_eq,hr,and_true,setListeners]
      by_cases hk : q = k
      · simp [hk]
      · simp [hk,Ne.symm hk]
    · have hr : ¬ Removed id n k := fun h => hm h.2
      simp [eraseClientFrom,hc,hm,hr,setListeners]
  · have hr : ¬ Removed id n k := fun h => hc (hmem.mpr h.1)
    simp [eraseClientFrom,hc,hr]

theorem foldl_eraseClientFrom (ks : List Str) (hks : ks.Nodup) (n : Node) (q : Str) :
    (ks.foldl (eraseClientFrom id) n).listeners q =
        (if q ∈ ks then (n.listeners q).erase id else n.listeners q) ∧
      (ks.foldl (eraseClientFrom id) n).queues[q]? =
        (if q ∈ ks ∧ Removed id n q then none else n.queues[q]?) := by
  induction ks generalizing n with
  | nil => simp
  | cons k ks ih =>
    obtain ⟨hk,hks⟩ := List.nodup_cons.mp hks
    obtain ⟨hl,hq⟩ := ih hks (eraseClientFrom id n k)
    rw [List.foldl_cons,hl,hq,eraseClientFrom_listeners,eraseClientFrom_queues]
    by_cases he : q = k
    · subst he
      simp [hk]
    · have hrem : Removed id (eraseClientFrom id n k) q ↔ Removed id n q := by
        simp only [Removed,listener,eraseClientFrom_listeners,if_neg he]
      simp [he,hrem]

theorem listeners_of_not_mem {n : Node} {q : Str} (h : q ∉ n.subscriptions.keys) :
    n.listeners q = ∅ := by
  have hn : n.subscriptions[q]? = none := by simpa using h
  simp [listeners,hn]

theorem mem_keys_of_listener {n : Node} {q : Str} {c : Id} (h : n.listener q c ≠ none) :
    q ∈ n.subscriptions.keys := by
  by_contra hq
  simp [listener,listeners_of_not_mem hq] at h

theorem listeners_eraseClient (n : Node) (q : Str) :
    (n.eraseClient id).listeners q = (n.listeners q).erase id := by
  have hf := (foldl_eraseClientFrom id n.subscriptions.keys ExtTreeMap.nodup_keys n q).1
  by_cases hq : q ∈ n.subscriptions.keys
  · rwa [if_pos hq] at hf
  · rw [if_neg hq] at hf
    simpa [eraseClient,listeners_of_not_mem hq] using hf

theorem queues_eraseClient (n : Node) (q : Str) :
    (n.eraseClient id).queues[q]? = if Removed id n q then none else n.queues[q]? := by
  have hf := (foldl_eraseClientFrom id n.subscriptions.keys ExtTreeMap.nodup_keys n q).2
  by_cases hq : q ∈ n.subscriptions.keys
  · simpa [eraseClient,hq] using hf
  · have hr : ¬ Removed id n q := fun h => h.1 (by simp [listener,listeners_of_not_mem hq])
    rw [if_neg (fun h => hr h.2)] at hf
    rw [if_neg hr]
    exact hf

theorem listener_eraseClient (n : Node) (q : Str) (c : Id) :
    (n.eraseClient id).listener q c = if c = id then none else n.listener q c := by
  unfold listener
  rw [listeners_eraseClient,ExtTreeMap.getElem?_erase]
  by_cases hc : c = id
  · simp [hc]
  · simp [hc,Ne.symm hc,LawfulEqCmp.compare_eq_iff_eq]

theorem hasQueue_iff (n : Node) (q : Str) : n.HasQueue q ↔ n.queues[q]? ≠ none := by
  simp [HasQueue]

theorem hasQueue_eraseClient (n : Node) (q : Str) :
    (n.eraseClient id).HasQueue q ↔ n.HasQueue q ∧ ¬ Removed id n q := by
  rw [hasQueue_iff,queues_eraseClient,hasQueue_iff]
  by_cases hr : Removed id n q <;> simp [hr]

/-- The rule of the code, over the listeners other than the one erased. -/
theorem removed_iff (n : Node) (q : Str) :
    Removed id n q ↔ n.listener q id ≠ none ∧
      ((∀ d, d ≠ id → n.listener q d = none) ∨
        (id ≠ ServerID ∧ ∃ ql, n.listener q ServerID = some ql ∧ ql.isowner = false)) := by
  unfold Removed listener
  rw [mustBeRemoved_iff]
  simp only [ExtTreeMap.getElem?_erase,LawfulEqCmp.compare_eq_iff_eq]
  refine and_congr_right fun _ => or_congr ?_ ?_
  · refine forall_congr' fun d => ?_
    by_cases hd : id = d
    · simp [hd]
    · simp [hd,Ne.symm hd]
  · by_cases hs : id = ServerID
    · simp [hs]
    · simp [hs]

end EraseClient

end Node

end Dqueue
