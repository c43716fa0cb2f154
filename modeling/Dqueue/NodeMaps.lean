import Dqueue.NodeRuns

/-!
The two maps of a node as a whole. A name never leaves `_subscriptions`, so that the
`operator[]` of `publish` finds it there; and clients that disconnect together leave
the same maps behind in whatever order they go.
-/

set_option autoImplicit false

namespace Dqueue
open Std Effects RawMem

namespace Node

theorem eq_of_views {n n' : Node} (queues : ∀ q : Str, n.queues[q]? = n'.queues[q]?)
    (next : n.nextQueueId = n'.nextQueueId)
    (subscriptions : ∀ q : Str, n.subscriptions[q]? = n'.subscriptions[q]?) : n = n' := by
  have hq : n.queues = n'.queues := ExtTreeMap.ext_getElem? fun q => queues q
  have hs : n.subscriptions = n'.subscriptions :=
    ExtTreeMap.ext_getElem? fun q => subscriptions q
  cases n
  cases n'
  simp only at hq hs next
  rw [hq,hs,next]

theorem subscriptions_setListeners (n : Node) (k q : Str) (clients : Listeners) :
    (n.setListeners k clients).subscriptions[q]? =
      if k = q then some clients else n.subscriptions[q]? := by
  simp only [setListeners,ExtTreeMap.getElem?_insert,LawfulEqCmp.compare_eq_iff_eq]

theorem setListeners_listeners {n : Node} {q : Str} (h : q ∈ n.subscriptions) :
    n.setListeners q (n.listeners q) = n := by
  refine eq_of_views (fun _ => rfl) rfl fun k => ?_
  rw [subscriptions_setListeners]
  split
  · rename_i hk
    subst hk
    obtain ⟨clients,hc⟩ := Option.isSome_iff_exists.mp (ExtTreeMap.isSome_getElem?_iff_mem.mpr h)
    rw [listeners,hc]
    rfl
  · rfl

section EraseClient

variable (id : Id)

theorem eraseClientFrom_subscriptions (n : Node) (k q : Str) :
    (eraseClientFrom id n k).subscriptions[q]? =
      if q = k then n.subscriptions[q]?.map (fun clients => clients.erase id)
      else n.subscriptions[q]? := by
  cases hc : (n.listeners k).contains id with
  | true =>
    have hs : (eraseClientFrom id n k).subscriptions[q]? =
        (n.setListeners k ((n.listeners k).erase id)).subscriptions[q]? := by
      simp only [eraseClientFrom,hc,if_true]
      split <;> rfl
    rw [hs,subscriptions_setListeners]
    by_cases hk : q = k
    · subst hk
      cases hq : n.subscriptions[q]? with
      | none => simp [listeners,hq] at hc
      | some clients => simp [listeners,hq]
    · simp [hk,Ne.symm hk]
  | false =>
    have hn : eraseClientFrom id n k = n := by simp [eraseClientFrom,hc]
    rw [hn]
    split
    · rename_i hk
      subst hk
      cases hq : n.subscriptions[q]? with
      | none => rfl
      | some clients =>
        have hnot : id ∉ clients := by
          intro hmem
          simp [listeners,hq,ExtTreeMap.contains_iff_mem.mpr hmem] at hc
        simp [erase_of_not_mem id hnot]
    · rfl

theorem foldl_eraseClientFrom_subscriptions (ks : List Str) (n : Node) (q : Str) :
    (ks.foldl (eraseClientFrom id) n).subscriptions[q]? =
      if q ∈ ks then n.subscriptions[q]?.map (fun clients => clients.erase id)
      else n.subscriptions[q]? := by
  induction ks generalizing n with
  | nil => simp
  | cons k ks ih =>
    rw [List.foldl_cons,ih,eraseClientFrom_subscriptions]
    have htwice : ∀ clients : Listeners, (clients.erase id).erase id = clients.erase id :=
      fun clients => erase_of_not_mem id (by simp)
    by_cases hk : q = k
    · subst hk
      cases n.subscriptions[q]? <;> simp [htwice]
    · simp [hk]

theorem subscriptions_eraseClient (n : Node) (q : Str) :
    (n.eraseClient id).subscriptions[q]? =
      n.subscriptions[q]?.map (fun clients => clients.erase id) := by
  rw [eraseClient,foldl_eraseClientFrom_subscriptions]
  split
  · rfl
  · rename_i hq
    have hnone : n.subscriptions[q]? = none := by simpa using hq
    rw [hnone]
    rfl

theorem nextQueueId_eraseClient (n : Node) : (n.eraseClient id).nextQueueId = n.nextQueueId := by
  have hfold : ∀ (ks : List Str) (n : Node),
      (ks.foldl (eraseClientFrom id) n).nextQueueId = n.nextQueueId := by
    intro ks
    induction ks with
    | nil => exact fun _ => rfl
    | cons k ks ih =>
      intro n
      rw [List.foldl_cons,ih]
      unfold eraseClientFrom
      simp only
      split
      · split <;> rfl
      · rfl
  exact hfold _ n

end EraseClient

/-- The queues that two disconnects remove, whichever comes first: those that one of
the clients was listed for and nobody else, or that the server only listens to. -/
theorem removed_either (n : Node) (q : Str) {c d : Id} (hc : c ≠ ServerID) (hd : d ≠ ServerID)
    (hcd : c ≠ d) : Removed c n q ∨ Removed d (n.eraseClient c) q ↔
      (n.listener q c ≠ none ∨ n.listener q d ≠ none) ∧
        ((∀ e, e ≠ c → e ≠ d → n.listener q e = none) ∨
          ∃ ql, n.listener q ServerID = some ql ∧ ql.isowner = false) := by
  simp only [removed_iff,listener_eraseClient,if_neg hcd.symm,if_neg hc.symm]
  constructor
  · rintro (⟨hl,halone | ⟨-,hs⟩⟩ | ⟨hl,halone | ⟨-,hs⟩⟩)
    · exact ⟨.inl hl,.inl fun e he _ => halone e he⟩
    · exact ⟨.inl hl,.inr hs⟩
    · refine ⟨.inr hl,.inl fun e he hed => ?_⟩
      have hnone := halone e hed
      rwa [if_neg he] at hnone
    · exact ⟨.inr hl,.inr hs⟩
  · rintro ⟨hl,halone | hs⟩
    · -- the last of the two that is listed leaves nobody behind
      by_cases hld : n.listener q d = none
      · refine .inl ⟨hl.resolve_right fun h => h hld,.inl fun e he => ?_⟩
        by_cases hed : e = d
        · rw [hed,hld]
        · exact halone e he hed
      · refine .inr ⟨hld,.inl fun e hed => ?_⟩
        split
        · rfl
        · rename_i he
          exact halone e he hed
    · exact hl.imp (fun hl => ⟨hl,.inr ⟨hc,hs⟩⟩) fun hl => ⟨hl,.inr ⟨hd,hs⟩⟩

theorem queues_eraseClient_twice (n : Node) (q : Str) {c d : Id} (hc : c ≠ ServerID)
    (hd : d ≠ ServerID) (hcd : c ≠ d) : ((n.eraseClient c).eraseClient d).queues[q]? =
      if (n.listener q c ≠ none ∨ n.listener q d ≠ none) ∧
          ((∀ e, e ≠ c → e ≠ d → n.listener q e = none) ∨
            ∃ ql, n.listener q ServerID = some ql ∧ ql.isowner = false)
        then none else n.queues[q]? := by
  have heither := removed_either n q hc hd hcd
  rw [queues_eraseClient,queues_eraseClient]
  by_cases hr : Removed d (n.eraseClient c) q
  · rw [if_pos hr,if_pos (heither.mp (.inr hr))]
  · rw [if_neg hr]
    by_cases hr' : Removed c n q
    · rw [if_pos hr',if_pos (heither.mp (.inl hr'))]
    · rw [if_neg hr',if_neg fun h => (heither.mpr h).elim hr' hr]

theorem eraseClient_comm (n : Node) {c d : Id} (hc : c ≠ ServerID) (hd : d ≠ ServerID) :
    (n.eraseClient c).eraseClient d = (n.eraseClient d).eraseClient c := by
  by_cases hcd : c = d
  · rw [hcd]
  refine eq_of_views (fun q => ?_) ?_ fun q => ?_
  · rw [queues_eraseClient_twice n q hc hd hcd,
      queues_eraseClient_twice n q hd hc (Ne.symm hcd)]
    refine if_congr (and_congr or_comm (or_congr_left ?_)) rfl rfl
    exact forall_congr' fun e => ⟨fun h hd hc => h hc hd,fun h hc hd => h hd hc⟩
  · simp only [nextQueueId_eraseClient]
  · simp only [subscriptions_eraseClient]
    cases n.subscriptions[q]? with
    | none => rfl
    | some clients =>
      simp only [Option.map_some,Option.some.injEq]
      apply ExtTreeMap.ext_getElem?
      intro e
      simp only [ExtTreeMap.getElem?_erase]
      split <;> split <;> rfl

theorem eraseClient_of_not_listed {n : Node} {id : Id} (h : ∀ q, n.listener q id = none) :
    n.eraseClient id = n := by
  refine eq_of_views (fun q => ?_) (nextQueueId_eraseClient id n) fun q => ?_
  · rw [queues_eraseClient,if_neg fun hr => hr.1 (h q)]
  · rw [subscriptions_eraseClient]
    cases hq : n.subscriptions[q]? with
    | none => rfl
    | some clients =>
      have hnone := h q
      simp only [listener,listeners,hq,Option.getD_some] at hnone
      rw [Option.map_some,erase_of_not_mem id (by simpa using hnone)]

theorem listener_foldl_eraseClient (ids : List Id) (n : Node) (q : Str) (c : Id) :
    (ids.foldl eraseClient n).listener q c = if c ∈ ids then none else n.listener q c := by
  induction ids generalizing n with
  | nil => simp
  | cons id ids ih =>
    rw [List.foldl_cons,ih,listener_eraseClient]
    by_cases hc : c = id <;> simp [hc]

theorem eraseClient_order (n : Node) {ids ids' : List Id} (clients : ServerID ∉ ids)
    (perm : ids.Perm ids') :
    ids.foldl eraseClient n = ids'.foldl eraseClient n ∧
      ∀ id ∈ ids, (ids.foldl eraseClient n).eraseClient id = ids.foldl eraseClient n := by
  have hclient : ∀ {id : Id}, id ∈ ids → id ≠ ServerID := fun hid he => clients (he ▸ hid)
  refine ⟨perm.foldl_eq' (fun c hc d hd n => ?_) n,fun id hid => ?_⟩
  · exact eraseClient_comm n (hclient hc) (hclient hd)
  · refine eraseClient_of_not_listed fun q => ?_
    rw [listener_foldl_eraseClient,if_pos hid]

end Node

def twoListed : List Op := [.createQueue ⟨[113]⟩ 1,.changeSubscription .Subscribe ⟨[113],[]⟩ 2]

theorem eraseClient_order_two_clients :
    (started.run literal twoListed).node.HasQueue [113] ∧
    ([1,2] : List Id).foldl Node.eraseClient (started.run literal twoListed).node =
      ([2,1] : List Id).foldl Node.eraseClient (started.run literal twoListed).node :=
  ⟨by decide,(Node.eraseClient_order _ (by decide) (.swap 2 1 [])).1⟩

variable {regex : RegexCompiler}

/-- Every queue has its key in `_subscriptions`. -/
def Node.Keyed (n : Node) : Prop := ∀ q, n.HasQueue q → q ∈ n.subscriptions

theorem Node.Keyed.changed {n : Node} (h : n.Keyed) (action : SubscribeActions)
    (settings : SubscriptionParams) (c : Id) : (n.changed action settings c).Keyed := by
  intro q hq
  exact ExtTreeMap.mem_insert.mpr (.inr (h q hq))

theorem Node.Keyed.created {n : Node} (h : n.Keyed) (qsettings : QueueSettings) (c : Id) :
    ((n.addQueue qsettings).changed .Create ⟨qsettings.name,[]⟩ c).Keyed := by
  intro q hq
  refine ExtTreeMap.mem_insert.mpr ?_
  rcases (Node.hasQueue_insert n q qsettings.name _ (n.nextQueueId+1)).mp hq with rfl | hq
  · exact .inl (LawfulEqCmp.compare_eq_iff_eq.mpr rfl)
  · exact .inr (h q hq)

theorem Node.Keyed.createQueue {n : Node} (h : n.Keyed) (users : UserBase)
    (qsettings : QueueSettings) (c : Id) :
    (final (Node.createQueue users qsettings c n)).Keyed := by
  rw [Node.createQueue_run]
  split
  · exact h
  · split
    · rename_i old hold
      intro q hq
      rcases (Node.hasQueue_insert n q qsettings.name _ _).mp hq with rfl | hq
      · exact h _ ((Node.hasQueue_iff n _).mpr (by simp [hold]))
      · exact h q hq
    · exact h.created qsettings c

theorem Node.Keyed.changeSubscription {n : Node} (h : n.Keyed) (users : UserBase)
    (action : SubscribeActions) (settings : SubscriptionParams) (c : Id) :
    (final (Node.changeSubscription users action settings c n)).Keyed := by
  rw [Node.changeSubscription,Node.changeSubscriptionImpl_run]
  split
  · exact h
  · split
    · exact h
    · exact h.changed action settings c

theorem Node.Keyed.eraseClient {n : Node} (h : n.Keyed) (id : Id) : (n.eraseClient id).Keyed := by
  intro q hq
  have hold := h q ((Node.hasQueue_eraseClient id n q).mp hq).1
  rw [← ExtTreeMap.isSome_getElem?_iff_mem] at hold ⊢
  rw [Node.subscriptions_eraseClient,Option.isSome_map,hold]

theorem Node.Keyed.localCopy {n : Node} (h : n.Keyed) (q : Str) : (n.localCopy q).1 = n := by
  unfold Node.localCopy
  split
  · rename_i hq
    exact Node.setListeners_listeners (h q ((Node.queueIsExists_iff n q).mp hq))
  · rfl

theorem World.step_keyed {w : World} (h : w.node.Keyed) (op : Op) :
    (w.step regex op).node.Keyed := by
  cases op with
  | append user => exact h
  | setLogin id login => exact h
  | eraseUser id =>
    simp only [World.step,World.exec]
    split <;> exact h
  | compile re => exact h
  | createQueue qs c => exact h.createQueue w.users qs c
  | changeSubscription a sp c => exact h.changeSubscription w.users a sp c
  | eraseClient id => exact h.eraseClient id
  | publish p rd author =>
    show (w.node.localCopy p.queueName).1.Keyed
    rw [h.localCopy]
    exact h

/-- `publish` finds the key that it asks for, so that `operator[]` inserts nothing. -/
theorem publish_only_reads (users : UserBase) (cache : ReCache) (ops : List Op) :
    (World.run regex ⟨users,Node.empty,cache⟩ ops).node.Keyed ∧
    ∀ p rd author, (World.step regex (World.run regex ⟨users,Node.empty,cache⟩ ops)
      (.publish p rd author)).node = (World.run regex ⟨users,Node.empty,cache⟩ ops).node := by
  have hkeyed : (World.run regex ⟨users,Node.empty,cache⟩ ops).node.Keyed := by
    refine Runs.invariant (P := fun w : World => w.node.Keyed)
      (fun _ op h => World.step_keyed h op) (fun q hq => ?_) ops
    simp [Node.HasQueue,Node.empty] at hq
  exact ⟨hkeyed,fun p _ _ => hkeyed.localCopy p.queueName⟩

end Dqueue
