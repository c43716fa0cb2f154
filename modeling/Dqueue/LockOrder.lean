import Dqueue.Client
import Dqueue.Consumers
import Dqueue.Lib.Runs

/-!
The two locks of a client. A call of its interface takes `_locker` and, inside of
`subscribe`, the lock of the registry of consumers; the io thread holds the lock of
the registry while its consumers call `publish`, which takes `_locker`.
-/

set_option autoImplicit false

namespace Dqueue
open Std Effects RawMem Queries

inductive Lock where
  | locker
  | eventHandlersLocker
  deriving DecidableEq, Repr

/-- Where the application's thread is: before it takes `_locker`, before it takes the
lock of the registry, in `addHandler`, behind it, and at the lock of the answer. -/
inductive AppThread where
  | idle
  | locking (r : Request) (handler : Option EventConsumer) (ot : OperationType)
  | adding (settings : SubscriptionParams) (handler : EventConsumer) (ot : OperationType)
  | registering (settings : SubscriptionParams) (handler : EventConsumer) (ot : OperationType)
  | issuing (r : Request) (ot : OperationType)
  | waiting (locker : Nat)
  deriving DecidableEq, Repr

/-- Where the io thread is: before `callConsumer` takes the lock of the registry, in its
loop with the consumers that are left, and in a `publish` of a consumer before and
behind `_locker`, with what the consumer is still to publish; or in the handler of an
OK before and behind `_locker`. -/
inductive IoThread where
  | idle
  | entering (info : PublishParams) (d : Bytes)
  | calling (info : PublishParams) (d : Bytes) (vs : List Id)
  | publishing (info : PublishParams) (d : Bytes) (vs : List Id) (settings : PublishParams)
      (data : Bytes) (rest : List (PublishParams × Bytes))
  | issuing (info : PublishParams) (d : Bytes) (vs : List Id) (settings : PublishParams)
      (data : Bytes) (rest : List (PublishParams × Bytes))
  | acknowledging (cs : Ok)
  | unlocking (cs : Ok)
  deriving DecidableEq, Repr

namespace AppThread

def holds : AppThread → Lock → Bool
  | .adding _ _ _, .locker => true
  | .registering _ _ _, _ => true
  | .issuing _ _, .locker => true
  | _, _ => false

def waitsFor : AppThread → Option Lock
  | .locking _ _ _ => some .locker
  | .adding _ _ _ => some .eventHandlersLocker
  | _ => none

end AppThread

namespace IoThread

def holds : IoThread → Lock → Bool
  | .calling _ _ _, .eventHandlersLocker => true
  | .publishing _ _ _ _ _ _, .eventHandlersLocker => true
  | .issuing _ _ _ _ _ _, _ => true
  | .unlocking _, .locker => true
  | _, _ => false

def waitsFor : IoThread → Option Lock
  | .entering _ _ => some .eventHandlersLocker
  | .publishing _ _ _ _ _ _ => some .locker
  | .acknowledging _ => some .locker
  | _ => none

def next (info : PublishParams) (d : Bytes) (vs : List Id) : List (PublishParams × Bytes) → IoThread
  | [] => .calling info d vs
  | (settings,data) :: rest => .publishing info d vs settings data rest

end IoThread

/-- A client with its registry of consumers; `lockers` counts the lockers that were
made, and `sent` has the messages handed to the connection. -/
structure ClientThreads where
  client : Client
  consumers : Consumers
  lockers : Nat
  sent : List Message
  app : AppThread
  io : IoThread

inductive ThreadEvent where
  | call (r : Request) (handler : Option EventConsumer) (ot : OperationType)
  | message (m : Message)
  | app
  | io
  deriving DecidableEq, Repr

def Consumers.callNext (regex : RegexCompiler) (info : PublishParams) (d : Bytes) (id v : Id) :
    EStateM Failure Consumers (Option EventConsumer) := do
  let c ← get
  let es := c.eventHandlers[v]?.getD (none,⟨[],[]⟩)
  set { c with eventHandlers := c.eventHandlers.insert v es }
  let isTarget ← onCache (es.2.checkTag regex info.tag)
  if isTarget then
    match es.1 with
    | none => throw .nullDereference
    | some handler => do
      modify (fun c => { c with consumed := c.consumed ++ [(handler,info,d,id)] })
      pure (some handler)
  else pure none

theorem Consumers.callEach_next (regex : RegexCompiler) (info : PublishParams) (d : Bytes)
    (id v : Id)
    (vs : List Id) (c : Consumers) : Consumers.callEach regex info d id (v :: vs) c = (do
      let _ ← Consumers.callNext regex info d id v
      Consumers.callEach regex info d id vs) c := by
  simp only [callEach,callNext,bind_apply,get_apply,set_apply]
  cases onCache ((c.eventHandlers[v]?.getD (none,⟨[],[]⟩)).2.checkTag regex info.tag) { c with
    eventHandlers := c.eventHandlers.insert v (c.eventHandlers[v]?.getD (none,⟨[],[]⟩)) } with
  | error e c' => rfl
  | ok isTarget c' =>
    cases isTarget with
    | false => rfl
    | true =>
      cases (c.eventHandlers[v]?.getD (none,⟨[],[]⟩)).1 with
      | none => rfl
      | some h => rfl

namespace ClientThreads

def start (client : Client) (cache : ReCache) : ClientThreads :=
  ⟨client,Consumers.start cache,0,[],.idle,.idle⟩

def issue (s : ClientThreads) (r : Request) : ClientThreads :=
  { s with
    client := s.client.issue r s.lockers
    lockers := s.lockers+1
    sent := if s.client.asyncConnection = none then s.sent
      else s.sent ++ [r.message s.client.nextMessageId] }

/-- An exception in `addHandler` releases both locks. -/
def appStep (s : ClientThreads) : ClientThreads :=
  match s.app with
  | .idle => s
  | .locking r handler ot =>
    if s.io.holds .locker then s
    else match r, handler with
      | .subscribe settings, some h => { s with app := .adding settings h ot }
      | _, _ => { s with app := .issuing r ot }
  | .adding settings h ot =>
    if s.io.holds .eventHandlersLocker then s
    else { s with app := .registering settings h ot }
  | .registering settings h ot =>
    match Consumers.addHandler settings (some h) s.consumers with
    | .ok _ c => { s with consumers := c, app := .issuing (.subscribe settings) ot }
    | .error _ c => { s with consumers := c, app := .idle }
  | .issuing r ot =>
    { s.issue r with app := if r.waits ot then .waiting s.lockers else .idle }
  | .waiting locker => if locker ∈ s.client.released then { s with app := .idle } else s

section Io

variable (regex : RegexCompiler) (consume : EventConsumer → PublishParams → Bytes →
  List (PublishParams × Bytes))

/-- `consume` has what each consumer publishes, without waiting for the answers, when
it gets a message. An exception in `callConsumer` releases its lock. -/
def ioStep (s : ClientThreads) : ClientThreads :=
  match s.io with
  | .idle => s
  | .entering info d =>
    if s.app.holds .eventHandlersLocker then s
    else { s with io := .calling info d (s.consumers.handlers info.queueName).toList }
  | .calling _ _ [] => { s with io := .idle }
  | .calling info d (v :: vs) =>
    match Consumers.callNext regex info d s.client.id v s.consumers with
    | .ok none c => { s with consumers := c, io := .calling info d vs }
    | .ok (some h) c => { s with consumers := c, io := .next info d vs (consume h info d) }
    | .error _ c => { s with consumers := c, io := .idle }
  | .publishing info d vs settings data rest =>
    if s.app.holds .locker then s
    else { s with io := .issuing info d vs settings data rest }
  | .issuing info d vs settings data rest =>
    { s.issue (.publish settings data) with io := .next info d vs rest }
  | .acknowledging cs =>
    if s.app.holds .locker then s else { s with io := .unlocking cs }
  | .unlocking cs => { s with client := final (Client.handle (.ok cs) s.client), io := .idle }

def onNewMessage (s : ClientThreads) : Message → ClientThreads
  | .publish cs => { s with io := .entering ⟨cs.qname,cs.tag⟩ cs.data }
  | .ok cs => { s with io := .acknowledging cs }
  | m => { s with client := final (Client.handle m s.client) }

def step (s : ClientThreads) : ThreadEvent → ClientThreads
  | .call r handler ot => if s.app = .idle then { s with app := .locking r handler ot } else s
  | .message m => if s.io = .idle then s.onNewMessage m else s
  | .app => s.appStep
  | .io => s.ioStep regex consume

def run (s : ClientThreads) (events : List ThreadEvent) : ClientThreads :=
  events.foldl (step regex consume) s

end Io

section Alone

variable {regex : RegexCompiler} {consume : EventConsumer → PublishParams → Bytes →
  List (PublishParams × Bytes)} {s s' : ClientThreads} {info : PublishParams} {d : Bytes}

def Alone (regex : RegexCompiler) (consume : EventConsumer → PublishParams → Bytes →
    List (PublishParams × Bytes)) (s s' : ClientThreads) : Prop :=
  ∃ n, s.run regex consume (List.replicate n .io) = s'

theorem Alone.step (h : Alone regex consume (s.ioStep regex consume) s') :
    Alone regex consume s s' := by
  obtain ⟨n,hn⟩ := h
  exact ⟨n+1,by rw [List.replicate_succ]; exact hn⟩

theorem Alone.trans {s'' : ClientThreads} (h : Alone regex consume s s')
    (h' : Alone regex consume s' s'') : Alone regex consume s s'' := by
  obtain ⟨n,rfl⟩ := h
  obtain ⟨m,rfl⟩ := h'
  refine ⟨n+m,?_⟩
  rw [List.replicate_add,run,List.foldl_append]
  rfl

variable (regex consume) in
theorem ioStep_callNext {v : Id} {vs : List Id} (hio : s.io = .calling info d (v :: vs)) :
    s.ioStep regex consume =
      match Consumers.callNext regex info d s.client.id v s.consumers with
      | .ok none c => { s with consumers := c, io := .calling info d vs }
      | .ok (some h) c => { s with consumers := c, io := .next info d vs (consume h info d) }
      | .error _ c => { s with consumers := c, io := .idle } := by
  simp only [ioStep,hio]

theorem publishes_alone (happ : s.app = .idle) {vs : List Id} {rest : List (PublishParams × Bytes)}
    (hio : s.io = .next info d vs rest) :
    ∃ s', Alone regex consume s s' ∧ s'.io = .calling info d vs ∧ s'.app = .idle ∧
      s'.consumers = s.consumers ∧ s'.client.id = s.client.id := by
  induction rest generalizing s with
  | nil => exact ⟨s,⟨0,rfl⟩,hio,happ,rfl,rfl⟩
  | cons x rest ih =>
    have hlock : s.ioStep regex consume = { s with io := .issuing info d vs x.1 x.2 rest } := by
      simp [ioStep,hio,IoThread.next,happ,AppThread.holds]
    obtain ⟨s',halone,hrest⟩ := ih (s := { s.issue (.publish x.1 x.2) with
      io := .next info d vs rest }) happ rfl
    refine ⟨s',.step ?_,hrest⟩
    rw [hlock]
    exact .step halone

variable (regex consume) in
theorem callEach_alone (happ : s.app = .idle) {vs : List Id} (hio : s.io = .calling info d vs) :
    ∃ s', Alone regex consume s s' ∧ s'.io = .idle ∧
      s'.consumers = final (Consumers.callEach regex info d s.client.id vs s.consumers) := by
  induction vs generalizing s with
  | nil => exact ⟨s.ioStep regex consume,⟨1,rfl⟩,by simp [ioStep,hio],by simp [ioStep,hio]; rfl⟩
  | cons v vs ih =>
    have hstep := ioStep_callNext regex consume hio
    rw [Consumers.callEach_next,bind_apply]
    cases hrun : Consumers.callNext regex info d s.client.id v s.consumers with
    | error f c =>
      rw [hrun] at hstep
      exact ⟨_,⟨1,hstep⟩,rfl,rfl⟩
    | ok called c =>
      rw [hrun] at hstep
      cases called with
      | none =>
        obtain ⟨s',halone,hrest⟩ := ih (s := { s with consumers := c, io := .calling info d vs })
          happ rfl
        refine ⟨s',.step ?_,hrest⟩
        rw [hstep]
        exact halone
      | some h =>
        obtain ⟨s₁,halone₁,hio₁,happ₁,hcons,hid⟩ := publishes_alone (s := { s with
          consumers := c, io := .next info d vs (consume h info d) }) happ rfl
        obtain ⟨s',halone,hidle,hfinal⟩ := ih happ₁ hio₁
        refine ⟨s',.step ?_,hidle,?_⟩
        · rw [hstep]
          exact halone₁.trans halone
        · rw [hfinal,hcons,hid]

theorem callConsumer_alone (happ : s.app = .idle) (hio : s.io = .entering info d) :
    ∃ s', Alone regex consume s s' ∧ s'.io = .idle ∧
      s'.consumers = final (Consumers.callConsumer regex info d s.client.id s.consumers) := by
  have hstep : s.ioStep regex consume =
      { s with io := .calling info d (s.consumers.handlers info.queueName).toList } := by
    simp [ioStep,hio,happ,AppThread.holds]
  obtain ⟨s',halone,hrest⟩ := callEach_alone regex consume (s := { s with
    io := .calling info d (s.consumers.handlers info.queueName).toList }) happ rfl
  refine ⟨s',.step ?_,hrest⟩
  rw [hstep]
  exact halone

theorem subscribe_alone (hio : s.io = .idle) {settings : SubscriptionParams} {h : EventConsumer}
    {ot : OperationType} (happ : s.app = .locking (.subscribe settings) (some h) ot) {c : Consumers}
    (hadd : Consumers.addHandler settings (some h) s.consumers = .ok () c) :
    s.run regex consume (List.replicate 4 .app) = { s.issue (.subscribe settings) with
      consumers := c
      app := if ot = .Sync then .waiting s.lockers else .idle } := by
  simp only [run,List.replicate,List.foldl_cons,List.foldl_nil,step]
  simp [appStep,happ,hio,IoThread.holds,hadd,issue,Request.waits]

end Alone

/-- Each thread waits for a lock that the other holds. -/
def Deadlocked (s : ClientThreads) : Prop :=
  ∃ l l', s.app.waitsFor = some l ∧ s.io.holds l = true ∧ s.io.waitsFor = some l' ∧
    s.app.holds l' = true

end ClientThreads

structure Consumers.SameEntries (regex : RegexCompiler) (c c' : Consumers) : Prop where
  entries : ∀ v, c'.entry v = c.entry v
  sound : ReCache.Sound regex c'.cache

section Rounds

variable {regex : RegexCompiler} {consume : EventConsumer → PublishParams → Bytes →
  List (PublishParams × Bytes)} {info : PublishParams} {d : Bytes} {c : Consumers}

theorem Consumers.entry_insert (c : Consumers) (v u : Id) :
    ({ c with eventHandlers := c.eventHandlers.insert v (c.entry v) } : Consumers).entry u =
      c.entry u := by
  unfold entry
  rw [ExtTreeMap.getElem?_insert]
  split
  · rename_i hu
    rw [LawfulEqCmp.compare_eq_iff_eq.mp hu]
    rfl
  · rfl

inductive Consumers.Round (regex : RegexCompiler) (info : PublishParams) (c : Consumers) (v : Id) :
    EStateM.Result Failure Consumers (Option EventConsumer) → Prop where
  | broken {f : Failure} {c' : Consumers} (same : c.SameEntries regex c')
      (tag : Uncompilable regex (c.entry v).2.tag) : Round regex info c v (.error f c')
  | passed {c' : Consumers} (same : c.SameEntries regex c')
      (tag : ¬ Uncompilable regex (c.entry v).2.tag)
      (target : tagMatches regex (c.entry v).2.tag info.tag = false) :
      Round regex info c v (.ok none c')
  | null {f : Failure} {c' : Consumers} (same : c.SameEntries regex c')
      (tag : ¬ Uncompilable regex (c.entry v).2.tag)
      (target : tagMatches regex (c.entry v).2.tag info.tag = true)
      (pointer : (c.entry v).1 = none) : Round regex info c v (.error f c')
  | called {h : EventConsumer} {c' : Consumers} (same : c.SameEntries regex c')
      (tag : ¬ Uncompilable regex (c.entry v).2.tag)
      (target : tagMatches regex (c.entry v).2.tag info.tag = true)
      (pointer : (c.entry v).1 = some h) : Round regex info c v (.ok (some h) c')

theorem Consumers.callNext_round (info : PublishParams) (d : Bytes) (id v : Id)
    (sound : ReCache.Sound regex c.cache) :
    c.Round regex info v (callNext regex info d id v c) := by
  have hentry : c.eventHandlers[v]?.getD (none,⟨[],[]⟩) = c.entry v := rfl
  simp only [callNext,bind_apply,get_apply,set_apply,onCache_run,hentry]
  rcases (c.entry v).2.checkTag_run sound info.tag with ⟨hu,e,hc⟩ | ⟨hu,cache,hsound,hc⟩
  · simp only [hc]
    exact .broken ⟨c.entry_insert v,sound⟩ hu
  · simp only [hc]
    cases ht : tagMatches regex (c.entry v).2.tag info.tag with
    | false => exact .passed ⟨c.entry_insert v,hsound⟩ hu ht
    | true =>
      simp only [if_true]
      cases hp : (c.entry v).1 with
      | none => exact .null ⟨c.entry_insert v,hsound⟩ hu ht hp
      | some h => exact .called ⟨c.entry_insert v,hsound⟩ hu ht hp

def Consumers.publishes (regex : RegexCompiler) (consume : EventConsumer → PublishParams → Bytes →
    List (PublishParams × Bytes)) (c : Consumers) (info : PublishParams) (d : Bytes) :
    List Id → Bool
  | [] => false
  | v :: vs =>
    if Uncompilable regex (c.entry v).2.tag then false
    else if tagMatches regex (c.entry v).2.tag info.tag then
      match (c.entry v).1 with
      | none => false
      | some h => !(consume h info d).isEmpty || publishes regex consume c info d vs
    else publishes regex consume c info d vs

theorem Consumers.SameEntries.publishes {c' : Consumers} (h : c.SameEntries regex c')
    (vs : List Id) :
    c'.publishes regex consume info d vs = c.publishes regex consume info d vs := by
  induction vs with
  | nil => rfl
  | cons v vs ih => simp only [Consumers.publishes,h.entries v,ih]

end Rounds

namespace ClientThreads

section Steps

variable {regex : RegexCompiler} {consume : EventConsumer → PublishParams → Bytes →
  List (PublishParams × Bytes)} {s : ClientThreads}

theorem deadlocked_iff : s.Deadlocked ↔ (∃ settings h ot, s.app = .adding settings h ot) ∧
    ∃ info d vs settings data rest, s.io = .publishing info d vs settings data rest := by
  unfold Deadlocked
  cases s.app <;> cases s.io <;> simp [AppThread.waitsFor,AppThread.holds,IoThread.waitsFor,
    IoThread.holds]

theorem appStep_holds {l : Lock} (h : s.appStep.app.holds l = true) :
    s.app.holds l = true ∨ s.io.holds l = false := by
  unfold appStep at h
  cases happ : s.app with
  | idle => simp [happ,AppThread.holds] at h
  | locking r handler ot =>
    cases hio : s.io.holds .locker with
    | true => simp [happ,hio,AppThread.holds] at h
    | false =>
      cases l with
      | locker => exact .inr hio
      | eventHandlersLocker =>
        simp only [happ,hio] at h
        cases r <;> cases handler <;> simp [AppThread.holds] at h
  | adding settings g ot =>
    cases l with
    | locker => exact .inl rfl
    | eventHandlersLocker =>
      cases hio : s.io.holds .eventHandlersLocker with
      | true => simp [happ,hio,AppThread.holds] at h
      | false => exact .inr rfl
  | registering settings g ot => exact .inl (by cases l <;> rfl)
  | issuing r ot =>
    simp only [happ] at h
    split at h <;> simp [AppThread.holds] at h
  | waiting n =>
    simp only [happ] at h
    split at h <;> simp [happ,AppThread.holds] at h

theorem ioStep_holds {l : Lock} (h : (s.ioStep regex consume).io.holds l = true) :
    s.io.holds l = true ∨ s.app.holds l = false := by
  have hnext : ∀ {info : PublishParams} {d : Bytes} {vs : List Id}
      {rest : List (PublishParams × Bytes)}, (IoThread.next info d vs rest).holds l = true →
      l = .eventHandlersLocker := by
    intro info d vs rest hl
    cases l with
    | eventHandlersLocker => rfl
    | locker => cases rest <;> simp [IoThread.next,IoThread.holds] at hl
  unfold ioStep at h
  cases hio : s.io with
  | idle => simp [hio,IoThread.holds] at h
  | entering info d =>
    cases happ : s.app.holds .eventHandlersLocker with
    | true => simp [hio,happ,IoThread.holds] at h
    | false =>
      cases l with
      | eventHandlersLocker => exact .inr happ
      | locker => simp [hio,happ,IoThread.holds] at h
  | calling info d vs =>
    cases l with
    | eventHandlersLocker => exact .inl rfl
    | locker =>
      simp only [hio] at h
      cases vs with
      | nil => simp [IoThread.holds] at h
      | cons v vs =>
        simp only at h
        split at h
        · simp [IoThread.holds] at h
        · cases hnext h
        · simp [IoThread.holds] at h
  | publishing info d vs settings data rest =>
    cases l with
    | eventHandlersLocker => exact .inl rfl
    | locker =>
      cases happ : s.app.holds .locker with
      | true => simp [hio,happ,IoThread.holds] at h
      | false => exact .inr rfl
  | issuing info d vs settings data rest => exact .inl (by cases l <;> rfl)
  | acknowledging cs =>
    cases happ : s.app.holds .locker with
    | true => simp [hio,happ,IoThread.holds] at h
    | false =>
      cases l with
      | locker => exact .inr happ
      | eventHandlersLocker => simp [hio,happ,IoThread.holds] at h
  | unlocking cs => simp [hio,IoThread.holds] at h

theorem appStep_io (s : ClientThreads) : s.appStep.io = s.io := by
  unfold appStep
  split
  · rfl
  · split
    · rfl
    · split <;> rfl
  · split <;> rfl
  · split <;> rfl
  · rfl
  · split <;> rfl

variable (regex consume) in
theorem ioStep_app (s : ClientThreads) : (s.ioStep regex consume).app = s.app := by
  unfold ioStep
  split
  · rfl
  · split <;> rfl
  · rfl
  · split <;> rfl
  · split <;> rfl
  · rfl
  · split <;> rfl
  · rfl

theorem appStep_adding {settings : SubscriptionParams} {g : EventConsumer} {ot : OperationType}
    (h : s.appStep.app = .adding settings g ot) : s.appStep = s ∨
      (s.app = .locking (.subscribe settings) (some g) ot ∧
        s.appStep = { s with app := .adding settings g ot }) := by
  cases happ : s.app with
  | idle => exact .inl (by simp [appStep,happ])
  | locking r handler ot' =>
    cases hio : s.io.holds .locker with
    | true => exact .inl (by simp [appStep,happ,hio])
    | false =>
      have hstep := h
      simp only [appStep,happ,hio] at hstep
      cases r with
      | subscribe settings' =>
        cases handler with
        | none => cases hstep
        | some g' =>
          cases hstep
          exact .inr ⟨rfl,by simp [appStep,happ,hio]⟩
      | createQueue name => cases hstep
      | unsubscribe qname => cases hstep
      | publish settings' data => cases hstep
  | adding settings' g' ot' =>
    cases hio : s.io.holds .eventHandlersLocker with
    | true => exact .inl (by simp [appStep,happ,hio])
    | false => simp [appStep,happ,hio] at h
  | registering settings' g' ot' =>
    simp only [appStep,happ] at h
    split at h <;> cases h
  | issuing r ot' =>
    simp only [appStep,happ] at h
    split at h <;> cases h
  | waiting n =>
    by_cases hn : n ∈ s.client.released
    · simp [appStep,happ,hn] at h
    · exact .inl (by simp [appStep,happ,hn])

variable (regex s) in
structure Sane : Prop where
  exclusive : ∀ l, ¬ (s.app.holds l = true ∧ s.io.holds l = true)
  sound : ReCache.Sound regex s.consumers.cache

theorem Sane.start {cache : ReCache} (sound : ReCache.Sound regex cache) (client : Client) :
    (start client cache).Sane regex :=
  ⟨by simp [ClientThreads.start,AppThread.holds],sound⟩

theorem addHandler_cache (settings : SubscriptionParams) (handler : Option EventConsumer)
    (c : Consumers) : (final (Consumers.addHandler settings handler c)).cache = c.cache := by
  rcases Consumers.addHandler_final settings handler c with hsame | ⟨-,c',p,id,hc,-,-,hcache,-⟩
  · rw [hsame]
  · rw [hc]
    exact hcache

theorem appStep_cache (s : ClientThreads) : s.appStep.consumers.cache = s.consumers.cache := by
  unfold appStep
  split
  · rfl
  · split
    · rfl
    · split <;> rfl
  · split <;> rfl
  · rename_i settings h ot _
    have hcache := addHandler_cache settings (some h) s.consumers
    cases hrun : Consumers.addHandler settings (some h) s.consumers with
    | ok a c =>
      rw [hrun] at hcache
      exact hcache
    | error f c =>
      rw [hrun] at hcache
      exact hcache
  · rfl
  · split <;> rfl

theorem ioStep_sound (sound : ReCache.Sound regex s.consumers.cache) :
    ReCache.Sound regex (s.ioStep regex consume).consumers.cache := by
  cases hio : s.io with
  | calling info d vs =>
    cases vs with
    | nil => simpa only [ioStep,hio] using sound
    | cons v vs =>
      have hround := Consumers.callNext_round info d s.client.id v sound
      simp only [ioStep,hio]
      generalize Consumers.callNext regex info d s.client.id v s.consumers = r at hround
      cases hround with
      | broken same tag => exact same.sound
      | passed same tag target => exact same.sound
      | null same tag target pointer => exact same.sound
      | called same tag target pointer => exact same.sound
  | idle => simpa only [ioStep,hio] using sound
  | entering info d =>
    simp only [ioStep,hio]
    split <;> exact sound
  | publishing info d vs settings data rest =>
    simp only [ioStep,hio]
    split <;> exact sound
  | issuing info d vs settings data rest =>
    simp only [ioStep,hio]
    exact sound
  | acknowledging cs =>
    simp only [ioStep,hio]
    split <;> exact sound
  | unlocking cs => simpa only [ioStep,hio] using sound

theorem onNewMessage_views (s : ClientThreads) (m : Message) :
    (s.onNewMessage m).app = s.app ∧ (s.onNewMessage m).consumers = s.consumers ∧
      ((s.onNewMessage m).io = s.io ∨ ∀ l, (s.onNewMessage m).io.holds l = false) := by
  cases m with
  | publish cs => exact ⟨rfl,rfl,.inr fun l => by cases l <;> rfl⟩
  | ok cs => exact ⟨rfl,rfl,.inr fun l => by cases l <;> rfl⟩
  | login q => exact ⟨rfl,rfl,.inl rfl⟩
  | loginConfirm q => exact ⟨rfl,rfl,.inl rfl⟩
  | createQueue q => exact ⟨rfl,rfl,.inl rfl⟩
  | subscribe q => exact ⟨rfl,rfl,.inl rfl⟩
  | unsubscribe q => exact ⟨rfl,rfl,.inl rfl⟩

theorem Sane.step (h : s.Sane regex) (e : ThreadEvent) : (s.step regex consume e).Sane regex := by
  cases e with
  | call r handler ot =>
    simp only [ClientThreads.step]
    split
    · exact ⟨by simp [AppThread.holds],h.sound⟩
    · exact h
  | message m =>
    simp only [ClientThreads.step]
    split
    · obtain ⟨happ,hcons,hio⟩ := s.onNewMessage_views m
      refine ⟨fun l hl => ?_,hcons ▸ h.sound⟩
      rw [happ] at hl
      rcases hio with hio | hio
      · rw [hio] at hl
        exact h.exclusive l hl
      · rw [hio] at hl
        cases hl.2
    · exact h
  | app =>
    refine ⟨fun l hl => ?_,?_⟩
    · have hio : s.io.holds l = true := s.appStep_io ▸ hl.2
      rcases appStep_holds hl.1 with happ | hfree
      · exact h.exclusive l ⟨happ,hio⟩
      · exact absurd (hio.symm.trans hfree) (by simp)
    · show ReCache.Sound regex s.appStep.consumers.cache
      rw [appStep_cache]
      exact h.sound
  | io =>
    refine ⟨fun l hl => ?_,ioStep_sound h.sound⟩
    have happ : s.app.holds l = true := s.ioStep_app regex consume ▸ hl.1
    rcases ioStep_holds hl.2 with hio | hfree
    · exact h.exclusive l ⟨happ,hio⟩
    · exact absurd (happ.symm.trans hfree) (by simp)

theorem run_sane (h : s.Sane regex) (events : List ThreadEvent) :
    (s.run regex consume events).Sane regex :=
  Runs.invariant (fun _ e h => h.step e) h events

end Steps

section Order

variable (regex : RegexCompiler) (consume : EventConsumer → PublishParams → Bytes →
  List (PublishParams × Bytes))

def willPublish (s : ClientThreads) : Bool :=
  match s.io with
  | .calling info d vs => s.consumers.publishes regex consume info d vs
  | .publishing _ _ _ _ _ _ => true
  | _ => false

/-- A `subscribe` with a handler does not take `_locker` while the io thread is in
`callConsumer` with a consumer that will publish, and `callConsumer` does not take its
lock for such a consumer while a `subscribe` is between the two locks. -/
def apart (s : ClientThreads) : ThreadEvent → Bool
  | .app => match s.app with
    | .locking (.subscribe _) (some _) _ => !s.willPublish regex consume
    | _ => true
  | .io => match s.io, s.app with
    | .entering info d, .adding _ _ _ => !s.consumers.publishes regex consume info d
        (s.consumers.handlers info.queueName).toList
    | _, _ => true
  | _ => true

variable {regex consume} {s : ClientThreads}

/-- While a `subscribe` is between the two locks, no consumer will publish. -/
def Clear (regex : RegexCompiler) (consume : EventConsumer → PublishParams → Bytes →
    List (PublishParams × Bytes)) (s : ClientThreads) : Prop :=
  ∀ settings h ot, s.app = .adding settings h ot → s.willPublish regex consume = false

theorem Clear.not_deadlocked (h : s.Clear regex consume) : ¬ s.Deadlocked := by
  rw [deadlocked_iff]
  rintro ⟨⟨settings,g,ot,happ⟩,info,d,vs,settings',data,rest,hio⟩
  have hwill := h settings g ot happ
  simp [willPublish,hio] at hwill

theorem ioStep_calling (sound : ReCache.Sound regex s.consumers.cache) {info : PublishParams}
    {d : Bytes} {v : Id} {vs : List Id} (hio : s.io = .calling info d (v :: vs))
    (hwill : s.consumers.publishes regex consume info d (v :: vs) = false) :
    (s.ioStep regex consume).willPublish regex consume = false := by
  have hround := Consumers.callNext_round info d s.client.id v sound
  simp only [ioStep,hio]
  generalize Consumers.callNext regex info d s.client.id v s.consumers = r at hround
  cases hround with
  | broken same tag => rfl
  | passed same tag target =>
    simp only [willPublish,same.publishes]
    simpa [Consumers.publishes,tag,target] using hwill
  | null same tag target pointer => rfl
  | @called h c' same tag target pointer =>
    simp only [Consumers.publishes,tag,target,pointer,if_false,if_true,
      Bool.or_eq_false_iff] at hwill
    have hnone : consume h info d = [] := by simpa using hwill.1
    simp only [hnone,IoThread.next,willPublish,same.publishes]
    exact hwill.2

theorem Clear.step (h : s.Clear regex consume) (sane : s.Sane regex) {e : ThreadEvent}
    (he : s.apart regex consume e = true) : (s.step regex consume e).Clear regex consume := by
  intro settings g ot happ
  cases e with
  | call r handler ot' =>
    simp only [ClientThreads.step] at happ ⊢
    split at happ
    · cases happ
    · rename_i hbusy
      rw [if_neg hbusy]
      exact h settings g ot happ
  | message m =>
    simp only [ClientThreads.step] at happ ⊢
    split
    · rename_i hidle
      cases m <;> simp [onNewMessage,willPublish,hidle]
    · rename_i hbusy
      rw [if_neg hbusy] at happ
      exact h settings g ot happ
  | app =>
    rcases appStep_adding happ with hsame | ⟨hlocking,hnext⟩
    · simp only [ClientThreads.step] at happ ⊢
      rw [hsame] at happ ⊢
      exact h settings g ot happ
    · simp only [ClientThreads.step]
      rw [hnext]
      simp only [apart,hlocking,Bool.not_eq_true'] at he
      exact he
  | io =>
    have happ' : s.app = .adding settings g ot := by
      rw [← s.ioStep_app regex consume]
      exact happ
    have hwill := h settings g ot happ'
    have hexclusive : s.io.holds .locker ≠ true := fun hl =>
      sane.exclusive .locker ⟨by simp [happ',AppThread.holds],hl⟩
    simp only [ClientThreads.step]
    cases hio : s.io with
    | idle => simpa only [ioStep,hio] using hwill
    | entering info d =>
      simp only [apart,hio,happ',Bool.not_eq_true'] at he
      simp only [ioStep,hio,happ',AppThread.holds]
      exact he
    | calling info d vs =>
      cases vs with
      | nil => simp [ioStep,hio,willPublish]
      | cons v vs =>
        exact ioStep_calling sane.sound hio (by simpa only [willPublish,hio] using hwill)
    | publishing info d vs settings' data rest => simp [willPublish,hio] at hwill
    | issuing info d vs settings' data rest => simp [hio,IoThread.holds] at hexclusive
    | acknowledging cs => simp [ioStep,hio,happ',AppThread.holds,willPublish]
    | unlocking cs => simp [hio,IoThread.holds] at hexclusive

theorem run_clear {client : Client} {cache : ReCache} (sound : ReCache.Sound regex cache)
    {events : List ThreadEvent}
    (h : Runs.Along (step regex consume) (fun s e => s.apart regex consume e = true)
      (start client cache) events) :
    ((start client cache).run regex consume events).Clear regex consume :=
  (h.invariant (P := fun s : ClientThreads => s.Sane regex ∧ s.Clear regex consume)
    (fun _ e hs he => ⟨hs.1.step e,hs.2.step hs.1 he⟩)
    ⟨.start sound client,fun _ _ _ happ => by cases happ⟩).2

theorem deadlock_follows (sound : ReCache.Sound regex s.consumers.cache)
    {settings : SubscriptionParams}
    {g : EventConsumer} {ot : OperationType} (happ : s.app = .adding settings g ot)
    {info : PublishParams} {d : Bytes} {vs : List Id} (hio : s.io = .calling info d vs)
    (hwill : s.consumers.publishes regex consume info d vs = true) :
    ∃ rest, (s.run regex consume rest).Deadlocked := by
  induction vs generalizing s with
  | nil => cases hwill
  | cons v vs ih =>
    have hround := Consumers.callNext_round info d s.client.id v sound
    have hstep := ioStep_callNext regex consume hio
    generalize Consumers.callNext regex info d s.client.id v s.consumers = r at hround hstep
    cases hround with
    | broken same tag => simp [Consumers.publishes,tag] at hwill
    | @passed c' same tag target =>
      have hrest : c'.publishes regex consume info d vs = true := by
        rw [same.publishes]
        simpa [Consumers.publishes,tag,target] using hwill
      obtain ⟨rest,hdead⟩ := ih (s := { s with consumers := c', io := .calling info d vs })
        same.sound happ rfl hrest
      refine ⟨.io :: rest,?_⟩
      show ((s.ioStep regex consume).run regex consume rest).Deadlocked
      rw [hstep]
      exact hdead
    | null same tag target pointer => simp [Consumers.publishes,tag,target,pointer] at hwill
    | @called h c' same tag target pointer =>
      cases hp : consume h info d with
      | nil =>
        have hrest : c'.publishes regex consume info d vs = true := by
          rw [same.publishes]
          simpa [Consumers.publishes,tag,target,pointer,hp] using hwill
        obtain ⟨rest,hdead⟩ := ih (s := { s with consumers := c', io := .calling info d vs })
          same.sound happ rfl hrest
        refine ⟨.io :: rest,?_⟩
        show ((s.ioStep regex consume).run regex consume rest).Deadlocked
        rw [hstep]
        simp only [hp,IoThread.next]
        exact hdead
      | cons x xs =>
        refine ⟨[.io],deadlocked_iff.mpr ⟨⟨settings,g,ot,?_⟩,info,d,vs,x.1,x.2,xs,?_⟩⟩
        · show (s.ioStep regex consume).app = _
          rw [ioStep_app,happ]
        · show (s.ioStep regex consume).io = _
          rw [hstep]
          simp only [hp,IoThread.next]

theorem deadlock_of_not_apart (sane : s.Sane regex) {e : ThreadEvent}
    (he : s.apart regex consume e = false) :
    ∃ rest, ((s.step regex consume e).run regex consume rest).Deadlocked := by
  cases e with
  | call r handler ot => cases he
  | message m => cases he
  | app =>
    simp only [apart] at he
    split at he
    · rename_i settings g ot happ
      have hwill : s.willPublish regex consume = true := by simpa using he
      -- `_locker` is free, since the io thread has yet to take it
      have hstep : s.io.holds .locker = false →
          s.step regex consume .app = { s with app := .adding settings g ot } := by
        intro hfree
        simp [ClientThreads.step,appStep,happ,hfree]
      cases hio : s.io with
      | calling info d vs =>
        rw [hstep (by simp [hio,IoThread.holds])]
        exact deadlock_follows (s := { s with app := .adding settings g ot }) sane.sound rfl hio
          (by simpa only [willPublish,hio] using hwill)
      | publishing info d vs settings' data rest =>
        rw [hstep (by simp [hio,IoThread.holds])]
        exact ⟨[],deadlocked_iff.mpr ⟨⟨settings,g,ot,rfl⟩,info,d,vs,settings',data,rest,hio⟩⟩
      | idle => simp [willPublish,hio] at hwill
      | entering info d => simp [willPublish,hio] at hwill
      | issuing info d vs settings' data rest => simp [willPublish,hio] at hwill
      | acknowledging cs => simp [willPublish,hio] at hwill
      | unlocking cs => simp [willPublish,hio] at hwill
    · cases he
  | io =>
    simp only [apart] at he
    split at he
    · rename_i info d settings g ot hio happ
      have hstep : s.step regex consume .io =
          { s with io := .calling info d (s.consumers.handlers info.queueName).toList } := by
        simp [ClientThreads.step,ioStep,hio,happ,AppThread.holds]
      rw [hstep]
      exact deadlock_follows sane.sound happ rfl (by simpa using he)
    · cases he

end Order

end ClientThreads

/-- As long as `subscribe` and `callConsumer` stay apart, there is no deadlock; and every
step on which they do not can be continued to one. -/
theorem lock_order (regex : RegexCompiler) (consume : EventConsumer → PublishParams → Bytes →
    List (PublishParams × Bytes)) (client : Client) {cache : ReCache}
    (sound : ReCache.Sound regex cache) (events : List ThreadEvent) :
    (Runs.Along (ClientThreads.step regex consume) (fun s e => s.apart regex consume e = true)
        (ClientThreads.start client cache) events →
      ∀ before after, events = before ++ after →
        ¬ ((ClientThreads.start client cache).run regex consume before).Deadlocked) ∧
    ∀ e, ((ClientThreads.start client cache).run regex consume events).apart regex consume e =
        false →
      ∃ rest, ((ClientThreads.start client cache).run regex consume
        (events ++ e :: rest)).Deadlocked := by
  refine ⟨?_,fun e he => ?_⟩
  · rintro h before after rfl
    exact (ClientThreads.run_clear sound (Runs.along_append.mp h).1).not_deadlocked
  · obtain ⟨rest,hdead⟩ := ClientThreads.deadlock_of_not_apart
      (ClientThreads.run_sane (.start sound client) events) he
    refine ⟨rest,?_⟩
    rw [ClientThreads.run,List.foldl_append]
    exact hdead

def answers (_ : EventConsumer) (info : PublishParams) (d : Bytes) : List (PublishParams × Bytes) :=
  [(⟨info.queueName,[99]⟩,d)]

def messageComes : List ThreadEvent :=
  [.call (.subscribe ⟨[113],[]⟩) (some 1) .Async,.app,.app,.app,.app,
    .message (.publish ⟨[113],[],0,[5]⟩),.io]

theorem lock_order_answered :
    ¬ ((ClientThreads.start (Client.create [97]) ∅).run literal answers (messageComes ++
      [.io,.io,.io,.io,.call (.subscribe ⟨[114],[]⟩) (some 1) .Async,.app,.app])).Deadlocked :=
  (lock_order literal answers (Client.create [97]) ReCache.Sound.empty (messageComes ++
    [.io,.io,.io,.io,.call (.subscribe ⟨[114],[]⟩) (some 1) .Async,.app,.app])).1
    (by decide +kernel) _ [] (by simp)

/-- A `subscribe` takes `_locker` while `callConsumer` holds the lock of the registry, and
then the consumer publishes. -/
theorem subscribe_deadlocks :
    ¬ (∀ events, ¬ ((ClientThreads.start (Client.create [97]) ∅).run literal answers
      events).Deadlocked) := by
  intro h
  refine h (messageComes ++ [.call (.subscribe ⟨[114],[]⟩) (some 1) .Async,.app,.io]) ?_
  exact ⟨.eventHandlersLocker,.locker,by decide +kernel,by decide +kernel,by decide +kernel,
    by decide +kernel⟩

end Dqueue
