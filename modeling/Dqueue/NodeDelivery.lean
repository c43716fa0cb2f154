import Dqueue.NodeRuns

/-!
Who gets a published message. The history of calls says who is subscribed; the
node keeps one entry for each client and queue name.
-/

set_option autoImplicit false

namespace Dqueue
open Std Effects RawMem

inductive Event where
  | subscribe
  | unsubscribe
  | erase
  deriving DecidableEq, Repr

def Op.event (q : Str) (c : Id) : Op → Option Event
  | .changeSubscription .Subscribe sp d =>
    if sp.queueName = q ∧ d = c then some .subscribe else none
  | .changeSubscription .Unsubscribe sp d =>
    if sp.queueName = q ∧ d = c then some .unsubscribe else none
  | .eraseClient d => if d = c then some .erase else none
  | _ => none

variable {regex : RegexCompiler}

theorem NodeStep.listener_untouched {users : UserBase} {n n' : Node} {op : Op}
    (h : NodeStep users n op n') {q : Str} {c : Id} (he : op.event q c = none)
    {ql : QueueListener} (hl : n.listener q c = some ql) : n'.listener q c = some ql := by
  cases h with
  | quiet queues listeners create change erase => rw [listeners,hl]
  | created missing user queues listeners =>
    rw [listeners]
    split
    · simp [Node.joined,hl]
    · exact hl
  | @joined a sp d _ action user queues listeners =>
    rw [listeners]
    split
    · rename_i hd
      cases a with
      | Create => simp [Node.joined,hl]
      | Subscribe => simp [Op.event,hd] at he
      | Unsubscribe => exact absurd rfl action
    · exact hl
  | left present user queues listeners =>
    rw [listeners,if_neg]
    · exact hl
    · rintro ⟨rfl,rfl⟩
      simp [Op.event] at he
  | erased queues listeners =>
    rw [listeners,if_neg]
    · exact hl
    · rintro rfl
      simp [Op.event] at he

theorem filter_key {α β : Type} [DecidableEq α] {l : List (α × β)} (hn : (l.map Prod.fst).Nodup)
    {a : α} {b : β} (h : (a,b) ∈ l) : l.filter (fun x => x.1 = a) = [(a,b)] := by
  induction l with
  | nil => cases h
  | cons x l ih =>
    obtain ⟨hx,hl⟩ := List.nodup_cons.mp hn
    cases h with
    | head =>
      have hnone : l.filter (fun y => y.1 = a) = [] := by
        rw [List.filter_eq_nil_iff]
        intro y hy he
        exact hx (List.mem_map.mpr ⟨y,hy,by simpa using he⟩)
      simp [hnone]
    | tail _ h =>
      have hne : x.1 ≠ a := by
        rintro rfl
        exact hx (List.mem_map.mpr ⟨_,h,rfl⟩)
      simp [hne,ih hl h]

theorem nodup_toList_keys (clients : Listeners) : (clients.toList.map Prod.fst).Nodup := by
  rw [ExtTreeMap.map_fst_toList_eq_keys]
  exact ExtTreeMap.nodup_keys

theorem Node.nodup_localCopy (n : Node) (q : Str) : ((n.localCopy q).2.map Prod.fst).Nodup := by
  unfold Node.localCopy
  split
  · exact nodup_toList_keys _
  · exact List.nodup_nil

theorem publish_calls_filter {w : World} (hs : ReCache.Sound regex w.cache) (p : PublishParams)
    (rd : Bytes) (author : Id) (hq : w.node.HasQueue p.queueName)
    (tags : ∀ d ql, w.node.listener p.queueName d = some ql → ql.settings.tag ≠ [] →
      regex ql.settings.tag ≠ none)
    {c : Id} {ql : QueueListener} (hl : w.node.listener p.queueName c = some ql) :
    (w.exec regex (.publish p rd author)).calls.filter (fun call => call.2.2 = c) =
      if ql.isTarget regex p.tag then [(p,rd,c)] else [] := by
  have hcopy := Node.localCopy_of_queue hq
  have hmem : ∀ x ∈ (w.node.listeners p.queueName).toList,
      w.node.listener p.queueName x.1 = some x.2 := by
    intro x hx
    exact ExtTreeMap.mem_toList_iff_getElem?_eq_some.mp hx
  have hc := ExtTreeMap.mem_toList_iff_getElem?_eq_some.mpr hl
  obtain ⟨cache',hr⟩ := recordCalls_all p rd (w.node.listeners p.queueName).toList
    (fun x hx => tags x.1 x.2 (hmem x hx)) hs []
  have hcalls : (w.exec regex (.publish p rd author)).calls =
      ((w.node.listeners p.queueName).toList.filter
        (fun x => x.2.isTarget regex p.tag)).map (fun x => (p,rd,x.1)) := by
    simp [World.exec,World.publish,hcopy,hr]
  have hkey := filter_key (nodup_toList_keys _) hc
  rw [hcalls,List.filter_map,List.filter_filter]
  have hswap : (fun x : Id × QueueListener =>
      (((fun call : Call => decide (call.2.2 = c)) ∘ fun x => (p,rd,x.1)) x
        && x.2.isTarget regex p.tag)) =
      fun x => x.2.isTarget regex p.tag && decide (x.1 = c) := by
    funext x
    rw [Bool.and_comm]
    rfl
  rw [hswap,← List.filter_filter,hkey]
  cases hm : ql.isTarget regex p.tag <;> simp [hm]

theorem World.run_sound {w : World} (h : w.Fresh regex) (ops : List Op) :
    ReCache.Sound regex (w.run regex ops).cache :=
  Runs.invariant (P := fun w : World => ReCache.Sound regex w.cache)
    (fun _ op hs => World.step_sound hs op) h.cache ops

variable (regex) in
theorem World.listener_subscribed (w : World) (q t : Str) {c : Id}
    (user : w.users.exists c = true) :
    ∃ ql, (w.step regex (.changeSubscription .Subscribe ⟨q,t⟩ c)).node.listener q c = some ql ∧
      ql.settings = ⟨q,t⟩ ∧ (!ql.isowner || ql.issubscribed) = true := by
  cases World.step_cases regex w (.changeSubscription .Subscribe ⟨q,t⟩ c) with
  | quiet queues listeners create change erase =>
    rcases change _ _ _ rfl with ⟨ha,_⟩ | hu
    · cases ha
    · rw [user] at hu
      cases hu
  | joined action _ queues listeners =>
    refine ⟨_,by rw [listeners,if_pos ⟨rfl,rfl⟩],?_⟩
    cases w.node.listener q c with
    | none => exact ⟨rfl,rfl⟩
    | some ql => simp [Node.joined]

/-- A subscriber gets each message of its queue exactly once, if the tag of its
latest subscription lets it. -/
theorem publish_exactly_once {w₀ : World} (fresh : w₀.Fresh regex) (pre post : List Op)
    (q t : Str) (c : Id) (user : (w₀.run regex pre).users.exists c = true)
    (latest : ∀ op ∈ post, op.event q c = none) {w : World}
    (run : w = w₀.run regex (pre ++ .changeSubscription .Subscribe ⟨q,t⟩ c :: post))
    (present : w.node.HasQueue q)
    (tags : ∀ d ql, w.node.listener q d = some ql → ql.settings.tag ≠ [] →
      regex ql.settings.tag ≠ none)
    (tag : Str) (rd : Bytes) (author : Id) :
    (w.exec regex (.publish ⟨q,tag⟩ rd author)).calls.filter (fun call => call.2.2 = c) =
      if tagMatches regex t tag then [(⟨q,tag⟩,rd,c)] else [] := by
  obtain ⟨ql,hl,hset,hon⟩ := World.listener_subscribed regex _ q t user
  have hkeep : w.node.listener q c = some ql := by
    have hrun : w = post.foldl (World.step regex)
        ((w₀.run regex pre).step regex (.changeSubscription .Subscribe ⟨q,t⟩ c)) := by
      simp [run,World.run]
    have hquiet : Runs.Along (World.step regex) (fun _ op => op.event q c = none)
        ((w₀.run regex pre).step regex (.changeSubscription .Subscribe ⟨q,t⟩ c)) post :=
      .of_mem fun op hop _ => latest op hop
    rw [hrun]
    exact hquiet.invariant (P := fun w : World => w.node.listener q c = some ql)
      (fun w op hl he => (World.step_cases regex w op).listener_untouched he hl) hl
  have hsound : ReCache.Sound regex w.cache := run ▸ World.run_sound fresh _
  have htarget : ql.isTarget regex tag = tagMatches regex t tag := by
    rw [QueueListener.isTarget,hon,hset,Bool.true_and]
  rw [publish_calls_filter hsound ⟨q,tag⟩ rd author present tags hkeep,htarget]

theorem publish_exactly_once_owner :
    ((started.run literal [.createQueue ⟨[113]⟩ 1,.changeSubscription .Subscribe ⟨[113],[97]⟩ 1,
      .changeSubscription .Subscribe ⟨[113],[98]⟩ 1]).exec literal
        (.publish ⟨[113],[98]⟩ [7] 1)).calls.filter (fun call => call.2.2 = 1) =
      [(⟨[113],[98]⟩,[7],1)] :=
  publish_exactly_once ⟨rfl,.empty⟩
    [.createQueue ⟨[113]⟩ 1,.changeSubscription .Subscribe ⟨[113],[97]⟩ 1] [] [113] [98] 1
    (by decide) (by simp) rfl (by decide) (by simp [literal]) [98] [7] 1

def World.returns (regex : RegexCompiler) (w : World) (op : Op) : Bool :=
  (w.exec regex op).thrown.isNone

/-- What a call says about the subscription of `c` to `q` once it has returned
normally. -/
def World.said (regex : RegexCompiler) (q : Str) (c : Id) (w : World) (op : Op) : Option Event :=
  if w.returns regex op then op.event q c else none

def World.latest (regex : RegexCompiler) (q : Str) (c : Id) : World → List Op → Option Event
  | _, [] => none
  | w, op :: ops =>
    (World.latest regex q c (w.step regex op) ops).or (w.said regex q c op)

/-- An Unsubscribe reaches the entry it has to remove: the queue exists, or
there is no entry. -/
def World.Heard (w : World) : Op → Prop
  | .changeSubscription .Unsubscribe sp c =>
    w.node.HasQueue sp.queueName ∨ w.node.listener sp.queueName c = none
  | _ => True

theorem World.latest_append (w : World) (q : Str) (c : Id) (ops : List Op) (op : Op) :
    w.latest regex q c (ops ++ [op]) =
      ((w.run regex ops).said regex q c op).or (w.latest regex q c ops) := by
  induction ops generalizing w with
  | nil =>
    simp only [World.latest,List.nil_append,Option.none_or,Option.or_none]
    rfl
  | cons a ops ih =>
    simp only [World.latest,List.cons_append,ih,Option.or_assoc]
    rfl

theorem World.returns_changeSubscription (w : World) (a : SubscribeActions)
    (sp : SubscriptionParams) (c : Id) :
    w.returns regex (.changeSubscription a sp c) = true ↔
      (a = .Unsubscribe ∧ ¬ w.node.HasQueue sp.queueName) ∨ w.users.exists c = true := by
  rw [← Node.queueIsExists_iff]
  simp only [World.returns,World.exec,Node.changeSubscription,Node.changeSubscriptionImpl_run]
  split
  · rename_i h
    simp [h]
  · rename_i h
    cases hu : w.users.exists c with
    | true => simp
    | false => simpa using h

theorem World.said_of_event {w : World} {op : Op} {q : Str} {c : Id}
    (h : op.event q c = none) : w.said regex q c op = none := by
  unfold World.said
  split
  · exact h
  · rfl

theorem World.said_subscribe {w : World} {sp : SubscriptionParams} {c : Id}
    (user : w.users.exists c = true) :
    w.said regex sp.queueName c (.changeSubscription .Subscribe sp c) = some .subscribe := by
  unfold World.said
  rw [if_pos ((w.returns_changeSubscription _ _ _).mpr (.inr user))]
  simp [Op.event]

theorem World.said_unsubscribe {w : World} {sp : SubscriptionParams} {c d : Id} {q : Str}
    (heard : w.Heard (.changeSubscription .Unsubscribe sp d))
    (quiet : ¬ w.node.HasQueue sp.queueName ∨ w.users.exists d = false)
    (hl : w.node.listener q c ≠ none) :
    w.said regex q c (.changeSubscription .Unsubscribe sp d) = none := by
  by_cases hq : w.node.HasQueue sp.queueName
  · have hu : w.users.exists d = false := quiet.resolve_left (fun h => h hq)
    unfold World.said
    rw [if_neg]
    intro hr
    rcases (w.returns_changeSubscription _ _ _).mp hr with ⟨_,hn⟩ | hu'
    · exact hn hq
    · rw [hu] at hu'
      cases hu'
  · apply World.said_of_event
    have hnone := heard.resolve_left hq
    simp only [Op.event]
    rw [if_neg]
    rintro ⟨rfl,rfl⟩
    exact hl hnone

theorem Node.joined_create {sp : SubscriptionParams} {old : Option QueueListener}
    {ql : QueueListener} (h : Node.joined .Create sp old = ql)
    (hon : (!ql.isowner || ql.issubscribed) = true) : old = some ql := by
  subst h
  cases old with
  | none => simp [Node.joined] at hon
  | some ql => simp [Node.joined]

def Announced (regex : RegexCompiler) (w₀ : World) (ops : List Op) (w : World) : Prop :=
  w = w₀.run regex ops ∧ ∀ q c ql, w.node.listener q c = some ql →
    (!ql.isowner || ql.issubscribed) = true → w₀.latest regex q c ops = some .subscribe

theorem Announced.step {w₀ w : World} {ops : List Op} {op : Op}
    (h : Announced regex w₀ ops w) (heard : w.Heard op) :
    Announced regex w₀ (ops ++ [op]) (w.step regex op) := by
  obtain ⟨hrun,hann⟩ := h
  refine ⟨by simp [hrun,World.run],fun q c ql hl hon => ?_⟩
  rw [World.latest_append,← hrun]
  -- an entry that was there before the call has its Subscribe in the history already
  have hold : w.node.listener q c = some ql →
      (w.said regex q c op = none ∨ w.said regex q c op = some .subscribe) →
      (w.said regex q c op).or (w₀.latest regex q c ops) = some .subscribe := by
    rintro ho (hs | hs)
    · simpa [hs] using hann q c ql ho hon
    · simp [hs]
  cases World.step_cases regex w op with
  | quiet queues listeners create change erase =>
    rw [listeners] at hl
    refine hold hl ?_
    cases op with
    | eraseClient d => exact absurd rfl (erase d)
    | changeSubscription a sp d =>
      cases a with
      | Create => exact .inl (World.said_of_event rfl)
      | Subscribe =>
        simp only [World.said,Op.event]
        split
        · exact (ite_eq_or_eq _ _ _).symm
        · exact .inl rfl
      | Unsubscribe =>
        have hquiet := (change _ _ _ rfl).imp_left And.right
        exact .inl (World.said_unsubscribe heard hquiet (by simp [hl]))
    | append user => exact .inl (World.said_of_event rfl)
    | setLogin id login => exact .inl (World.said_of_event rfl)
    | eraseUser id => exact .inl (World.said_of_event rfl)
    | compile re => exact .inl (World.said_of_event rfl)
    | createQueue qs d => exact .inl (World.said_of_event rfl)
    | publish p rd author => exact .inl (World.said_of_event rfl)
  | created missing user queues listeners =>
    rw [listeners] at hl
    refine hold ?_ (.inl (World.said_of_event rfl))
    split at hl
    · exact Node.joined_create (Option.some.inj hl) hon
    · exact hl
  | @joined a sp d _ action user queues listeners =>
    rw [listeners] at hl
    split at hl
    · rename_i hd
      obtain ⟨rfl,rfl⟩ := hd
      cases a with
      | Unsubscribe => exact absurd rfl action
      | Subscribe => simp [World.said_subscribe user]
      | Create =>
        exact hold (Node.joined_create (Option.some.inj hl) hon) (.inl (World.said_of_event rfl))
    · rename_i hd
      refine hold hl (.inl (World.said_of_event ?_))
      cases a <;> simp [Op.event,hd]
  | left present user queues listeners =>
    rw [listeners] at hl
    split at hl
    · cases hl
    · rename_i hd
      exact hold hl (.inl (World.said_of_event (by simp [Op.event,hd])))
  | erased queues listeners =>
    rw [listeners] at hl
    split at hl
    · cases hl
    · rename_i hd
      exact hold hl (.inl (World.said_of_event (by simp [Op.event,Ne.symm hd])))

theorem publish_calls_mem {w : World} (hs : ReCache.Sound regex w.cache) {p : PublishParams}
    {rd : Bytes} {author : Id} {call : Call}
    (h : call ∈ (w.exec regex (.publish p rd author)).calls) :
    ∃ ql, w.node.listener p.queueName call.2.2 = some ql ∧
      (!ql.isowner || ql.issubscribed) = true := by
  rcases (recordCalls_final p rd (w.node.localCopy p.queueName).2 hs []).2 call h with
    hnil | ⟨x,hx,hon,rfl⟩
  · cases hnil
  · refine ⟨x.2,?_,hon⟩
    unfold Node.localCopy at hx
    split at hx
    · exact ExtTreeMap.mem_toList_iff_getElem?_eq_some.mp hx
    · cases hx

/-- As long as every Unsubscribe is heard, messages go only to clients whose
latest call is a Subscribe. -/
theorem publish_only_subscribed {w₀ : World} (fresh : w₀.Fresh regex) (ops : List Op)
    (heard : Runs.Along (World.step regex) World.Heard w₀ ops)
    (p : PublishParams) (rd : Bytes) (author : Id) :
    ∀ call ∈ ((w₀.run regex ops).exec regex (.publish p rd author)).calls,
      w₀.latest regex p.queueName call.2.2 ops = some .subscribe := by
  intro call hcall
  have hstart : Announced regex w₀ [] w₀ := by
    refine ⟨rfl,fun q c ql hl => ?_⟩
    rw [fresh.no_listener] at hl
    cases hl
  have hann := heard.history (P := Announced regex w₀) (fun _ _ _ => Announced.step) hstart
  obtain ⟨ql,hl,hon⟩ := publish_calls_mem (World.run_sound fresh ops) hcall
  exact hann.2 _ _ ql hl hon

/-- Both clients subscribe and the creator of the queue leaves again. -/
def creatorLeaves : List Op :=
  [.createQueue ⟨[113]⟩ 1,.changeSubscription .Subscribe ⟨[113],[]⟩ 1,
    .changeSubscription .Subscribe ⟨[113],[]⟩ 2,.changeSubscription .Unsubscribe ⟨[113],[]⟩ 1]

theorem publish_only_subscribed_creator_leaves :
    ((started.run literal creatorLeaves).exec literal (.publish ⟨[113],[]⟩ [7] 1)).calls =
      [(⟨[113],[]⟩,[7],2)] ∧
    started.latest literal [113] 2 creatorLeaves = some .subscribe := by
  have hcalls : ((started.run literal creatorLeaves).exec literal
      (.publish ⟨[113],[]⟩ [7] 1)).calls = [(⟨[113],[]⟩,[7],2)] := by decide
  have heard : Runs.Along (World.step literal) World.Heard started creatorLeaves :=
    ⟨trivial,trivial,trivial,Or.inl (by decide),trivial⟩
  refine ⟨hcalls,publish_only_subscribed ⟨rfl,.empty⟩ creatorLeaves heard ⟨[113],[]⟩ [7] 1
    (⟨[113],[]⟩,[7],2) ?_⟩
  rw [hcalls]
  simp

/-- A client subscribes to a queue that does not exist and leaves it again; the
second call returns without a trace, and once another client creates the queue
the first one is served. -/
theorem publish_to_unsubscribed :
    ¬ (∀ ops : List Op, ∀ call ∈ ((started.run literal ops).exec literal
        (.publish ⟨[113],[]⟩ [7] 2)).calls,
      started.latest literal [113] call.2.2 ops = some .subscribe) := by
  intro h
  have hc := h [.changeSubscription .Subscribe ⟨[113],[]⟩ 1,
    .changeSubscription .Unsubscribe ⟨[113],[]⟩ 1,.createQueue ⟨[113]⟩ 2]
    (⟨[113],[]⟩,[7],1) (by decide)
  exact absurd hc (by decide)

end Dqueue
