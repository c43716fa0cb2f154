import Dqueue.NodeMaps
import Dqueue.NodeRefinement

/-!
Publishes beside other threads. `publish` looks for its queue without a lock, copies the
listeners under the lock of the subscriptions and calls the handler under none; other
threads, and the handler itself, may call the node in between. Even so it does what it
would do alone at the moment of the copy. Only the queue may be gone by then: `eraseClient`
removes it and leaves its other listeners where they are, and these get the message.
-/

set_option autoImplicit false

namespace Dqueue
open Std Effects RawMem

/-- A `publish` is before its look at the queues, before the copy, in the loop over the
copy, or at its end. `place` counts the calls that had taken effect before it did. -/
inductive PublishStage where
  | looks
  | copies
  | delivers (place : Nat) (left : List (Id × QueueListener))
  | returned (place ended : Nat) (thrown : Option Exception)

def PublishStage.place : PublishStage → Option Nat
  | .looks => none
  | .copies => none
  | .delivers place _ => some place
  | .returned place _ _ => some place

structure PublishCall where
  pubParam : PublishParams
  rd : Bytes
  author : Id
  begun : Nat
  stage : PublishStage
  calls : List Call

namespace PublishCall

def op (t : PublishCall) : Op := .publish t.pubParam t.rd t.author

def timed (t : PublishCall) : Option (Machine.Timed Op (List Call × Option Exception)) :=
  match t.stage with
  | .returned place ended thrown => some ⟨t.op,t.begun,place,ended,(t.calls,thrown)⟩
  | _ => none

end PublishCall

/-- `order` has the calls on the node as they have taken effect. -/
structure BusyWorld where
  world : World
  order : List Op
  publishes : List PublishCall

/-- A call begins, and unless it is a `publish` it takes effect at once; a `publish` goes
on to its next statement. -/
inductive BusyEvent where
  | call (op : Op)
  | goesOn (k : Nat)
  deriving DecidableEq, Repr

namespace BusyWorld

variable (regex : RegexCompiler)

def start (w : World) : BusyWorld := ⟨w,[],[]⟩

def call (s : BusyWorld) : Op → BusyWorld
  | .publish p rd author =>
    { s with publishes := s.publishes ++ [⟨p,rd,author,s.order.length,.looks,[]⟩] }
  | op => { s with world := s.world.step regex op, order := s.order ++ [op] }

def advance (s : BusyWorld) (t : PublishCall) : BusyWorld × PublishCall :=
  let name := t.pubParam.queueName
  match t.stage with
  | .looks =>
    if s.world.node.queueIsExists name then (s,{ t with stage := .copies })
    else
      ({ s with order := s.order ++ [t.op] },
        { t with stage := .returned s.order.length (s.order.length+1) none })
  | .copies =>
    let copy := s.world.node.listeners name
    ({ s with
        world := { s.world with node := s.world.node.setListeners name copy }
        order := s.order ++ [t.op] },
      { t with stage := .delivers s.order.length copy.toList })
  | .delivers place (x :: left) =>
    match recordCalls regex t.pubParam t.rd [x] (s.world.cache,t.calls) with
    | .ok _ (cache,calls) =>
      ({ s with world := { s.world with cache := cache } },
        { t with stage := .delivers place left, calls := calls })
    | .error e (cache,calls) =>
      ({ s with world := { s.world with cache := cache } },
        { t with stage := .returned place s.order.length (some e), calls := calls })
  | .delivers place [] => (s,{ t with stage := .returned place s.order.length none })
  | .returned _ _ _ => (s,t)

def goesOn (s : BusyWorld) (k : Nat) : BusyWorld :=
  match s.publishes[k]? with
  | none => s
  | some t =>
    let r := s.advance regex t
    { r.1 with publishes := s.publishes.set k r.2 }

def step (s : BusyWorld) : BusyEvent → BusyWorld
  | .call op => s.call regex op
  | .goesOn k => s.goesOn regex k

def run (s : BusyWorld) (es : List BusyEvent) : BusyWorld := es.foldl (step regex) s

end BusyWorld

section Delivery

variable {regex : RegexCompiler} (p : PublishParams) (rd : Bytes)

def outcome (r : EStateM.Result Exception (ReCache × List Call) Unit) :
    List Call × Option Exception := ((final r).2,thrown r)

variable (regex) in
/-- What the loop of `publish` makes of the listeners under the name, whether or not there
is a queue. -/
def World.delivery (w : World) : List Call × Option Exception :=
  outcome (recordCalls regex p rd (w.node.listeners p.queueName).toList (w.cache,[]))

theorem outcome_cache (ls : List (Id × QueueListener)) {cache cache' : ReCache}
    (hs : ReCache.Sound regex cache) (hs' : ReCache.Sound regex cache') (log : List Call) :
    outcome (recordCalls regex p rd ls (cache,log)) =
      outcome (recordCalls regex p rd ls (cache',log)) := by
  obtain ⟨hcalls,hthrown⟩ := recordCalls_reached p rd ls hs log
  obtain ⟨hcalls',hthrown'⟩ := recordCalls_reached p rd ls hs' log
  exact Prod.ext (hcalls.trans hcalls'.symm) (thrown_unique (hthrown.trans hthrown'.symm)
    (fun _ he => recordCalls_thrown p rd ls cache log he)
    fun _ he => recordCalls_thrown p rd ls cache' log he)

theorem recordCalls_cons (x : Id × QueueListener) (ls : List (Id × QueueListener))
    (s : ReCache × List Call) :
    recordCalls regex p rd (x :: ls) s =
      match recordCalls regex p rd [x] s with
      | .ok _ s' => recordCalls regex p rd ls s'
      | .error e s' => .error e s' := by
  unfold recordCalls
  rw [Node.deliver_cons]
  generalize Node.deliver _ _ p rd [x] s = r
  cases r <;> rfl

theorem outcome_cons (x : Id × QueueListener) (ls : List (Id × QueueListener))
    {cache : ReCache} (hs : ReCache.Sound regex cache) (log : List Call) :
    match recordCalls regex p rd [x] (cache,log) with
    | .ok _ (cache',log') => ReCache.Sound regex cache' ∧
      outcome (recordCalls regex p rd (x :: ls) (∅,log)) =
        outcome (recordCalls regex p rd ls (∅,log'))
    | .error e (cache',log') => ReCache.Sound regex cache' ∧
      outcome (recordCalls regex p rd (x :: ls) (∅,log)) = (log',some e) := by
  have hsound := (recordCalls_final p rd [x] hs log).1
  rw [outcome_cache p rd (x :: ls) .empty hs log,recordCalls_cons p rd x ls]
  cases hr : recordCalls regex p rd [x] (cache,log) with
  | ok u s =>
    rw [hr] at hsound
    exact ⟨hsound,outcome_cache p rd ls hsound .empty s.2⟩
  | error e s =>
    rw [hr] at hsound
    exact ⟨hsound,rfl⟩

theorem World.publish_of_queue {w : World} (author : Id) (hq : w.node.HasQueue p.queueName) :
    (World.machine regex).answer w (.publish p rd author) = w.delivery regex p rd := by
  show outcome (recordCalls regex p rd (w.node.localCopy p.queueName).2 (w.cache,[])) = _
  rw [Node.localCopy_of_queue hq]
  rfl

theorem World.publish_of_missing {w : World} (author : Id) (hq : ¬ w.node.HasQueue p.queueName) :
    (World.machine regex).answer w (.publish p rd author) = ([],none) := by
  show outcome (recordCalls regex p rd (w.node.localCopy p.queueName).2 (w.cache,[])) = _
  rw [Node.localCopy_of_missing hq]
  rfl

end Delivery

section Steps

variable {regex : RegexCompiler}

theorem World.step_keys (w : World) (op : Op) {q : Str} (h : q ∈ w.node.subscriptions) :
    q ∈ (w.step regex op).node.subscriptions := by
  cases op with
  | append user => exact h
  | setLogin id login => exact h
  | eraseUser id =>
    simp only [World.step,World.exec]
    split <;> exact h
  | compile re => exact h
  | createQueue qs c =>
    show q ∈ (final (Node.createQueue w.users qs c w.node)).subscriptions
    rw [Node.createQueue_run]
    split
    · exact h
    · split
      · exact h
      · exact ExtTreeMap.mem_insert.mpr (.inr h)
  | changeSubscription a sp c =>
    show q ∈ (final (Node.changeSubscription w.users a sp c w.node)).subscriptions
    rw [Node.changeSubscription,Node.changeSubscriptionImpl_run]
    split
    · exact h
    · split
      · exact h
      · exact ExtTreeMap.mem_insert.mpr (.inr h)
  | eraseClient id =>
    show q ∈ (w.node.eraseClient id).subscriptions
    rw [← ExtTreeMap.isSome_getElem?_iff_mem] at h ⊢
    rw [Node.subscriptions_eraseClient,Option.isSome_map,h]
  | publish p rd author =>
    show q ∈ (w.node.localCopy p.queueName).1.subscriptions
    unfold Node.localCopy
    split
    · exact ExtTreeMap.mem_insert.mpr (.inr h)
    · exact h

theorem World.run_queue (w : World) (ops : List Op) {q : Str} (h : w.node.HasQueue q) :
    (w.run regex ops).node.HasQueue q ∨ ∃ id, .eraseClient id ∈ ops := by
  by_cases hops : ∃ id, .eraseClient id ∈ ops
  · exact .inr hops
  · have hnone : Runs.Along (World.step regex) (fun _ op => ∀ id, op ≠ .eraseClient id) w ops :=
      .of_mem fun op hop _ id he => hops ⟨id,he ▸ hop⟩
    refine .inl (hnone.invariant (P := fun w : World => w.node.HasQueue q) (fun w op h hne => ?_) h)
    cases World.step_cases regex w op with
    | quiet queues => exact (queues q).mpr h
    | created missing user queues => exact (queues q).mpr (.inr h)
    | joined action user queues => exact (queues q).mpr h
    | left present user queues => exact (queues q).mpr h
    | @erased id => exact absurd rfl (hne id)

theorem World.run_concat (w : World) (order : List Op) (op : Op) :
    w.run regex (order ++ [op]) = (w.run regex order).step regex op := by
  simp [World.run]

variable (regex) in
theorem World.step_maps {w w' : World} (users : w.users = w'.users) (node : w.node = w'.node)
    (op : Op) : (w.step regex op).users = (w'.step regex op).users ∧
      (w.step regex op).node = (w'.step regex op).node := by
  obtain ⟨u,n,cache⟩ := w
  obtain ⟨u',n',cache'⟩ := w'
  cases users
  cases node
  cases op with
  | eraseUser id =>
    simp only [World.step,World.exec]
    split <;> exact ⟨rfl,rfl⟩
  | append user => exact ⟨rfl,rfl⟩
  | setLogin id login => exact ⟨rfl,rfl⟩
  | compile re => exact ⟨rfl,rfl⟩
  | createQueue qs c => exact ⟨rfl,rfl⟩
  | changeSubscription a sp c => exact ⟨rfl,rfl⟩
  | eraseClient id => exact ⟨rfl,rfl⟩
  | publish p rd author => exact ⟨rfl,rfl⟩

end Steps

namespace PublishCall

variable (regex : RegexCompiler) (w₀ : World)

def Looked (t : PublishCall) (order : List Op) (place : Nat) : Prop :=
  ∃ moment, t.begun ≤ moment ∧ moment ≤ place ∧
    (w₀.run regex (order.take moment)).node.HasQueue t.pubParam.queueName

def Disturbed (t : PublishCall) (order : List Op) (place : Nat) : Prop :=
  ∃ id, .eraseClient id ∈ (order.take place).drop t.begun

/-- The queue was there when the call looked and was erased under its hands; it went on with
the listeners that were left. -/
structure Overtaken (order : List Op) (t : PublishCall) (place : Nat)
    (output : List Call × Option Exception) : Prop where
  looked : t.Looked regex w₀ order place
  disturbed : t.Disturbed order place
  gone : ¬ (w₀.run regex (order.take place)).node.HasQueue t.pubParam.queueName
  left : (w₀.run regex (order.take place)).delivery regex t.pubParam t.rd = output

def Settled (order : List Op) (t : PublishCall)
    (c : Machine.Timed Op (List Call × Option Exception)) : Prop :=
  c.Answered (World.machine regex) w₀ order ∨ t.Overtaken regex w₀ order c.place c.output

inductive AtStage (order : List Op) (n : Node) (t : PublishCall) : PublishStage → Prop where
  | looks (begun : t.begun ≤ order.length) (calls : t.calls = []) : AtStage order n t .looks
  | copies (calls : t.calls = []) (key : t.pubParam.queueName ∈ n.subscriptions)
      (looked : t.Looked regex w₀ order order.length) : AtStage order n t .copies
  | delivers {place : Nat} {left : List (Id × QueueListener)} (present : place < order.length)
      (input : order[place]? = some t.op) (looked : t.Looked regex w₀ order place)
      (rest : (w₀.run regex (order.take place)).delivery regex t.pubParam t.rd =
        outcome (recordCalls regex t.pubParam t.rd left (∅,t.calls))) :
      AtStage order n t (.delivers place left)
  | returned {place ended : Nat} {thrown : Option Exception}
      (placed : Machine.Timed.Placed order ⟨t.op,t.begun,place,ended,(t.calls,thrown)⟩)
      (settled : t.Settled regex w₀ order ⟨t.op,t.begun,place,ended,(t.calls,thrown)⟩) :
      AtStage order n t (.returned place ended thrown)

variable {regex w₀} {t : PublishCall} {order : List Op} {place : Nat}

theorem Looked.begun_le (h : t.Looked regex w₀ order place) : t.begun ≤ place := by
  obtain ⟨moment,hbegun,hplace,-⟩ := h
  exact hbegun.trans hplace

theorem Looked.append (h : t.Looked regex w₀ order place) (hp : place ≤ order.length)
    (more : List Op) : t.Looked regex w₀ (order ++ more) place := by
  obtain ⟨moment,hbegun,hplace,hq⟩ := h
  refine ⟨moment,hbegun,hplace,?_⟩
  rwa [List.take_append_of_le_length (hplace.trans hp)]

/-- The queue was not there any more at the place, so somebody erased it. -/
theorem Looked.disturbed (h : t.Looked regex w₀ order place)
    (gone : ¬ (w₀.run regex (order.take place)).node.HasQueue t.pubParam.queueName) :
    t.Disturbed order place := by
  obtain ⟨moment,hbegun,hplace,hq⟩ := h
  have hsplit : order.take place = order.take moment ++ (order.take place).drop moment := by
    conv_lhs => rw [← List.take_append_drop moment (order.take place),List.take_take,
      Nat.min_eq_left hplace]
  rw [hsplit,World.run,List.foldl_append] at gone
  obtain ⟨id,hid⟩ := (World.run_queue _ _ hq).resolve_left gone
  exact ⟨id,List.drop_subset_drop_left _ hbegun hid⟩

theorem Disturbed.append (h : t.Disturbed order place) (hp : place ≤ order.length)
    (more : List Op) : t.Disturbed (order ++ more) place := by
  obtain ⟨id,hid⟩ := h
  refine ⟨id,?_⟩
  rwa [List.take_append_of_le_length hp]

theorem Settled.of_rest {ended : Nat} {output : List Call × Option Exception}
    (looked : t.Looked regex w₀ order place)
    (rest : (w₀.run regex (order.take place)).delivery regex t.pubParam t.rd = output) :
    t.Settled regex w₀ order ⟨t.op,t.begun,place,ended,output⟩ := by
  by_cases hq : (w₀.run regex (order.take place)).node.HasQueue t.pubParam.queueName
  · exact .inl ((World.publish_of_queue _ _ _ hq).trans rest)
  · exact .inr ⟨looked,looked.disturbed hq,hq,rest⟩

theorem AtStage.later {n n' : Node} {stage : PublishStage} (h : t.AtStage regex w₀ order n stage)
    {more : List Op} (keys : ∀ q, q ∈ n.subscriptions → q ∈ n'.subscriptions) :
    t.AtStage regex w₀ (order ++ more) n' stage := by
  have hlength : order.length ≤ (order ++ more).length := by simp
  cases h with
  | looks begun calls => exact .looks (begun.trans hlength) calls
  | copies calls key looked =>
    refine .copies calls (keys _ key) ?_
    obtain ⟨moment,hbegun,hplace,hq⟩ := looked.append le_rfl more
    exact ⟨moment,hbegun,hplace.trans hlength,hq⟩
  | delivers present input looked rest =>
    refine .delivers (present.trans_le hlength) ((List.getElem?_append_left present).trans input)
      (looked.append present.le more) ?_
    rw [List.take_append_of_le_length present.le]
    exact rest
  | returned placed settled =>
    refine .returned (placed.append more) ?_
    have htake := placed.take more
    have hplace := placed.ended.le.trans placed.present
    refine settled.imp (fun hanswer => ?_) fun hover => ?_
    · unfold Machine.Timed.Answered
      rw [htake]
      exact hanswer
    · refine ⟨hover.looked.append hplace more,hover.disturbed.append hplace more,?_,?_⟩
      · rw [htake]
        exact hover.gone
      · rw [htake]
        exact hover.left

theorem AtStage.place_lt {n : Node} {stage : PublishStage} (h : t.AtStage regex w₀ order n stage)
    {place : Nat} (hp : stage.place = some place) : place < order.length := by
  cases h with
  | looks begun calls => cases hp
  | copies calls key looked => cases hp
  | delivers present input looked rest =>
    cases hp
    exact present
  | returned placed settled =>
    cases hp
    exact placed.ended.trans_le placed.present

end PublishCall

namespace BusyWorld

variable (regex : RegexCompiler) (w₀ : World)

structure InOrder (s : BusyWorld) : Prop where
  keyed : s.world.node.Keyed
  sound : ReCache.Sound regex s.world.cache
  users : s.world.users = (w₀.run regex s.order).users
  node : s.world.node = (w₀.run regex s.order).node
  stages : ∀ t ∈ s.publishes, t.AtStage regex w₀ s.order s.world.node t.stage
  apart : ∀ (i j : Nat) (t u : PublishCall) (place : Nat),
    s.publishes[i]? = some t → s.publishes[j]? = some u →
    t.stage.place = some place → u.stage.place = some place → i = j

structure Advanced (s : BusyWorld) (t : PublishCall) (r : BusyWorld × PublishCall) : Prop where
  users : r.1.world.users = s.world.users
  node : r.1.world.node = s.world.node
  sound : ReCache.Sound regex r.1.world.cache
  order : (r.1.order = s.order ∧ r.2.stage.place = t.stage.place) ∨
    (r.1.order = s.order ++ [t.op] ∧ r.2.stage.place = some s.order.length)
  stage : r.2.AtStage regex w₀ r.1.order s.world.node r.2.stage

variable {regex w₀} {s : BusyWorld} {t : PublishCall}

theorem InOrder.start (fresh : w₀.Fresh regex) : (start w₀).InOrder regex w₀ := by
  refine ⟨fun q hq => absurd hq (fresh.no_queue q),fresh.cache,rfl,rfl,?_,?_⟩
  · intro t ht
    cases ht
  · intro i j t u place hi
    cases hi

theorem InOrder.looks (h : s.InOrder regex w₀) (stage : t.stage = .looks)
    (ht : t.AtStage regex w₀ s.order s.world.node .looks) :
    Advanced regex w₀ s t (s.advance regex t) := by
  cases ht with
  | looks begun calls =>
    by_cases hq : s.world.node.HasQueue t.pubParam.queueName
    · have hnext : s.advance regex t = (s,{ t with stage := .copies }) := by
        simp [BusyWorld.advance,stage,(Node.queueIsExists_iff _ _).mpr hq]
      rw [hnext]
      refine ⟨rfl,rfl,h.sound,.inl ⟨rfl,by rw [stage]; rfl⟩,?_⟩
      refine .copies calls (h.keyed _ hq) ⟨s.order.length,begun,le_rfl,?_⟩
      rw [List.take_length]
      exact h.node ▸ hq
    · have hmissing : s.world.node.queueIsExists t.pubParam.queueName = false := by
        rw [Bool.eq_false_iff,ne_eq,Node.queueIsExists_iff]
        exact hq
      have hnext : s.advance regex t = ({ s with order := s.order ++ [t.op] },
          { t with stage := .returned s.order.length (s.order.length+1) none }) := by
        simp [BusyWorld.advance,stage,hmissing]
      rw [hnext]
      refine ⟨rfl,rfl,h.sound,.inr ⟨rfl,rfl⟩,?_⟩
      refine .returned ⟨begun,Nat.lt_succ_self _,by simp,List.getElem?_concat_length⟩ (.inl ?_)
      show (World.machine regex).answer (w₀.run regex ((s.order ++ [t.op]).take s.order.length))
        t.op = (t.calls,none)
      rw [List.take_left,calls]
      exact World.publish_of_missing _ _ _ (h.node ▸ hq)

/-- The copy is made at the place of the call, and the loop starts with all of it. -/
theorem InOrder.copies (h : s.InOrder regex w₀) (fresh : w₀.Fresh regex)
    (stage : t.stage = .copies) (ht : t.AtStage regex w₀ s.order s.world.node .copies) :
    Advanced regex w₀ s t (s.advance regex t) := by
  cases ht with
  | copies calls key looked =>
    have hnext : s.advance regex t = ({ s with order := s.order ++ [t.op] },
        { t with
          stage := .delivers s.order.length
            (s.world.node.listeners t.pubParam.queueName).toList }) := by
      simp [BusyWorld.advance,stage,Node.setListeners_listeners key]
    rw [hnext]
    refine ⟨rfl,rfl,h.sound,.inr ⟨rfl,rfl⟩,?_⟩
    refine .delivers (by simp) List.getElem?_concat_length (looked.append le_rfl [t.op]) ?_
    rw [List.take_left,World.delivery,← h.node]
    show _ = outcome (recordCalls regex t.pubParam t.rd _ (∅,t.calls))
    rw [calls]
    exact outcome_cache _ _ _ (World.run_sound fresh s.order) .empty []

theorem InOrder.delivers (h : s.InOrder regex w₀) {place : Nat}
    {left : List (Id × QueueListener)} (stage : t.stage = .delivers place left)
    (ht : t.AtStage regex w₀ s.order s.world.node (.delivers place left)) :
    Advanced regex w₀ s t (s.advance regex t) := by
  cases ht with
  | delivers present input looked rest =>
    cases left with
    | nil =>
      have hnext : s.advance regex t =
          (s,{ t with stage := .returned place s.order.length none }) := by
        simp [BusyWorld.advance,stage]
      rw [hnext]
      refine ⟨rfl,rfl,h.sound,.inl ⟨rfl,by rw [stage]; rfl⟩,?_⟩
      exact .returned ⟨looked.begun_le,present,le_rfl,input⟩ (.of_rest looked rest)
    | cons x left =>
      have hone := outcome_cons t.pubParam t.rd x left h.sound t.calls
      cases hr : recordCalls regex t.pubParam t.rd [x] (s.world.cache,t.calls) with
      | ok u r =>
        rw [hr] at hone
        have hnext : s.advance regex t = ({ s with world := { s.world with cache := r.1 } },
            { t with stage := .delivers place left, calls := r.2 }) := by
          simp [BusyWorld.advance,stage,hr]
        rw [hnext]
        refine ⟨rfl,rfl,hone.1,.inl ⟨rfl,by rw [stage]; rfl⟩,?_⟩
        exact .delivers present input looked (rest.trans hone.2)
      | error e r =>
        rw [hr] at hone
        have hnext : s.advance regex t = ({ s with world := { s.world with cache := r.1 } },
            { t with stage := .returned place s.order.length (some e), calls := r.2 }) := by
          simp [BusyWorld.advance,stage,hr]
        rw [hnext]
        refine ⟨rfl,rfl,hone.1,.inl ⟨rfl,by rw [stage]; rfl⟩,?_⟩
        exact .returned ⟨looked.begun_le,present,le_rfl,input⟩
          (.of_rest looked (rest.trans hone.2))

theorem InOrder.advance (h : s.InOrder regex w₀) (fresh : w₀.Fresh regex)
    (ht : t.AtStage regex w₀ s.order s.world.node t.stage) :
    Advanced regex w₀ s t (s.advance regex t) := by
  cases hstage : t.stage with
  | looks => exact h.looks hstage (hstage ▸ ht)
  | copies => exact h.copies fresh hstage (hstage ▸ ht)
  | delivers place left => exact h.delivers hstage (hstage ▸ ht)
  | returned place ended thrown =>
    have hnext : s.advance regex t = (s,t) := by simp [BusyWorld.advance,hstage]
    rw [hnext]
    exact ⟨rfl,rfl,h.sound,.inl ⟨rfl,rfl⟩,ht⟩

section GoesOn

variable {r : BusyWorld × PublishCall} {k : Nat}

theorem Advanced.run (hadv : Advanced regex w₀ s t r) (h : s.InOrder regex w₀) :
    ∃ more, r.1.order = s.order ++ more ∧
      (w₀.run regex r.1.order).users = (w₀.run regex s.order).users ∧
      (w₀.run regex r.1.order).node = (w₀.run regex s.order).node := by
  rcases hadv.order with ⟨ho,-⟩ | ⟨ho,-⟩
  · exact ⟨[],by simp [ho],by rw [ho],by rw [ho]⟩
  · refine ⟨[t.op],ho,?_,?_⟩
    · rw [ho,World.run_concat]
      rfl
    · rw [ho,World.run_concat]
      exact (h.node ▸ h.keyed).localCopy t.pubParam.queueName

theorem Advanced.places (hadv : Advanced regex w₀ s t r) (hk : s.publishes[k]? = some t)
    {i : Nat} {u : PublishCall} {place : Nat} (hu : (s.publishes.set k r.2)[i]? = some u)
    (hp : u.stage.place = some place) : (i = k ∧ place = s.order.length) ∨
      ∃ u', s.publishes[i]? = some u' ∧ u'.stage.place = some place := by
  rw [List.getElem?_set] at hu
  split at hu
  · rename_i hi
    split at hu
    · cases hu
      rcases hadv.order with ⟨-,hsame⟩ | ⟨-,hnew⟩
      · exact .inr ⟨t,hi ▸ hk,hsame ▸ hp⟩
      · exact .inl ⟨hi.symm,Option.some.inj (hp.symm.trans hnew)⟩
    · cases hu
  · exact .inr ⟨u,hu,hp⟩

theorem InOrder.new_place (h : s.InOrder regex w₀) {i : Nat} {u : PublishCall}
    (hu : s.publishes[i]? = some u) : u.stage.place ≠ some s.order.length := by
  intro hp
  have hlt := (h.stages u (List.mem_of_getElem? hu)).place_lt hp
  omega

theorem InOrder.advanced (h : s.InOrder regex w₀) (hk : s.publishes[k]? = some t)
    (hadv : Advanced regex w₀ s t r) :
    ({ r.1 with publishes := s.publishes.set k r.2 } : BusyWorld).InOrder regex w₀ := by
  obtain ⟨more,horder,husers,hnode⟩ := hadv.run h
  refine ⟨?_,hadv.sound,?_,?_,fun u hu => ?_,?_⟩
  · rw [hadv.node]
    exact h.keyed
  · exact (hadv.users.trans h.users).trans husers.symm
  · exact (hadv.node.trans h.node).trans hnode.symm
  · rw [hadv.node]
    rcases List.mem_or_eq_of_mem_set hu with hu | rfl
    · rw [horder]
      exact (h.stages u hu).later fun _ hq => hq
    · exact hadv.stage
  · intro i j u v place hu hv hpu hpv
    rcases hadv.places hk hu hpu with ⟨rfl,rfl⟩ | ⟨u',hu',hpu'⟩
    · rcases hadv.places hk hv hpv with ⟨rfl,-⟩ | ⟨v',hv',hpv'⟩
      · rfl
      · exact absurd hpv' (h.new_place hv')
    · rcases hadv.places hk hv hpv with ⟨rfl,rfl⟩ | ⟨v',hv',hpv'⟩
      · exact absurd hpu' (h.new_place hu')
      · exact h.apart i j u' v' place hu' hv' hpu' hpv'

theorem InOrder.goesOn (h : s.InOrder regex w₀) (fresh : w₀.Fresh regex) (k : Nat) :
    (s.goesOn regex k).InOrder regex w₀ := by
  unfold BusyWorld.goesOn
  cases hk : s.publishes[k]? with
  | none => exact h
  | some t => exact h.advanced hk (h.advance fresh (h.stages t (List.mem_of_getElem? hk)))

end GoesOn

theorem InOrder.takes (h : s.InOrder regex w₀) (op : Op) :
    ({ s with world := s.world.step regex op, order := s.order ++ [op] } : BusyWorld).InOrder
      regex w₀ := by
  obtain ⟨husers,hnode⟩ := World.step_maps regex h.users h.node op
  refine ⟨World.step_keyed h.keyed op,World.step_sound h.sound op,?_,?_,fun t ht => ?_,h.apart⟩
  · rw [World.run_concat]
    exact husers
  · rw [World.run_concat]
    exact hnode
  · exact (h.stages t ht).later fun _ hq => World.step_keys s.world op hq

theorem InOrder.begins (h : s.InOrder regex w₀) {t : PublishCall} (stage : t.stage = .looks)
    (begun : t.begun = s.order.length) (calls : t.calls = []) :
    ({ s with publishes := s.publishes ++ [t] } : BusyWorld).InOrder regex w₀ := by
  refine ⟨h.keyed,h.sound,h.users,h.node,fun u hu => ?_,?_⟩
  · rcases List.mem_append.mp hu with hu | hu
    · exact h.stages u hu
    · rw [List.mem_singleton.mp hu,stage]
      exact .looks begun.le calls
  · intro i j u v place hu hv hpu hpv
    have hbefore : ∀ (i : Nat) (u : PublishCall), (s.publishes ++ [t])[i]? = some u →
        u.stage.place = some place → s.publishes[i]? = some u := by
      intro i u hu hp
      rw [List.getElem?_append] at hu
      split at hu
      · exact hu
      · rw [List.mem_singleton.mp (List.mem_of_getElem? hu),stage] at hp
        cases hp
    exact h.apart i j u v place (hbefore i u hu hpu) (hbefore j v hv hpv) hpu hpv

theorem InOrder.call (h : s.InOrder regex w₀) (op : Op) :
    (s.call regex op).InOrder regex w₀ := by
  cases op with
  | publish p rd author => exact h.begins rfl rfl rfl
  | append user => exact h.takes _
  | setLogin id login => exact h.takes _
  | eraseUser id => exact h.takes _
  | compile re => exact h.takes _
  | createQueue qs c => exact h.takes _
  | changeSubscription a sp c => exact h.takes _
  | eraseClient id => exact h.takes _

end BusyWorld

/-- Publishes on any number of threads, mixed with each other and with any calls on the
node and its users: each has a place of its own in one order of all the calls, between its
beginning and its end, and answers as if the calls were made one by one in this order. The
one exception is a publish whose queue is erased between its look and its copy. -/
theorem publishes_linearizable {regex : RegexCompiler} {w₀ : World} (fresh : w₀.Fresh regex)
    (es : List BusyEvent) :
    let s := (BusyWorld.start w₀).run regex es
    (s.world.users = (w₀.run regex s.order).users ∧
      s.world.node = (w₀.run regex s.order).node) ∧
    (∀ (i j : Nat) (t u : PublishCall) (place : Nat), s.publishes[i]? = some t →
      s.publishes[j]? = some u → t.stage.place = some place → u.stage.place = some place →
      i = j) ∧
    ∀ t ∈ s.publishes, ∀ c, t.timed = some c → c.Placed s.order ∧
      (c.Answered (World.machine regex) w₀ s.order ∨
        t.Overtaken regex w₀ s.order c.place c.output) := by
  have h : ((BusyWorld.start w₀).run regex es).InOrder regex w₀ := by
    refine Runs.invariant (fun s e h => ?_) (.start fresh) es
    cases e with
    | call op => exact h.call op
    | goesOn k => exact h.goesOn fresh k
  refine ⟨⟨h.users,h.node⟩,h.apart,fun t ht c hc => ?_⟩
  have hstaged := h.stages t ht
  cases hstage : t.stage with
  | looks => simp [PublishCall.timed,hstage] at hc
  | copies => simp [PublishCall.timed,hstage] at hc
  | delivers place left => simp [PublishCall.timed,hstage] at hc
  | returned place ended thrown =>
    rw [hstage] at hstaged
    simp only [PublishCall.timed,hstage,Option.some.injEq] at hc
    subst hc
    cases hstaged with
    | returned placed settled => exact ⟨placed,settled⟩

/-- Two publishes beside the departure of the client that has made the queue. The first has
made its copy by then. The second has only looked; the queue goes, and it finds the two
listeners that are left. -/
def makerLeaves : BusyWorld :=
  (BusyWorld.start started).run literal
    [.call (.createQueue ⟨[113]⟩ 1),.call (.changeSubscription .Subscribe ⟨[113],[]⟩ 1),
      .call (.changeSubscription .Subscribe ⟨[113],[]⟩ 2),
      .call (.changeSubscription .Subscribe ⟨[113],[]⟩ ServerID),
      .call (.publish ⟨[113],[]⟩ [7] 1),.call (.publish ⟨[113],[]⟩ [8] 2),
      .goesOn 0,.goesOn 1,.goesOn 0,.goesOn 0,.call (.eraseClient 1),.goesOn 1,.goesOn 0,
      .goesOn 1,.goesOn 0,.goesOn 0,.goesOn 1,.goesOn 1]

theorem publishes_linearizable_maker_leaves :
    makerLeaves.publishes.map PublishCall.calls =
      [[(⟨[113],[]⟩,[7],1),(⟨[113],[]⟩,[7],2),(⟨[113],[]⟩,[7],ServerID)],
        [(⟨[113],[]⟩,[8],2),(⟨[113],[]⟩,[8],ServerID)]] ∧
    makerLeaves.publishes.map (fun t => t.timed.map Machine.Timed.place) = [some 4,some 6] ∧
    ∀ t ∈ makerLeaves.publishes, ∀ c, t.timed = some c →
      c.Answered (World.machine literal) started makerLeaves.order ∨
        t.Overtaken literal started makerLeaves.order c.place c.output :=
  ⟨by decide +kernel,by decide +kernel,
    fun t ht c hc => ((publishes_linearizable ⟨rfl,.empty⟩ _).2.2 t ht c hc).2⟩

end Dqueue
