import Dqueue.QueueIds

/-!
What `getQueuesDescription` shows of a node, and how that follows from the calls
that were made on it.
-/

set_option autoImplicit false

namespace Dqueue
open Std Effects RawMem

structure QueueDescription where
  settings : QueueSettings
  subscribers : List Id
  deriving DecidableEq, Repr

namespace Node

def describe (n : Node) (kv : Str × Queue) : QueueDescription :=
  ⟨kv.2.settings,match n.subscriptions[kv.1]? with
    | some values => values.toList.map Prod.fst
    | none => []⟩

/-- `result` has its final size from the beginning and is filled place by place. -/
def getDescription (n : Node) : List QueueDescription :=
  (n.queues.toList.foldl (fun r kv => (r.1.set r.2 (n.describe kv),r.2+1))
    (List.replicate n.queues.size ⟨⟨[]⟩,[]⟩,0)).1

theorem foldl_set {α β : Type} (f : α → β) (as : List α) (front rest : List β)
    (hlen : rest.length = as.length) :
    (as.foldl (fun r a => (r.1.set r.2 (f a),r.2+1)) (front ++ rest,front.length)).1 =
      front ++ as.map f := by
  induction as generalizing front rest with
  | nil =>
    have hnil : rest = [] := by simpa using hlen
    simp [hnil]
  | cons a as ih =>
    obtain ⟨b,rest,rfl⟩ : ∃ b r, rest = b :: r := by
      cases rest with
      | nil => simp at hlen
      | cons b r => exact ⟨b,r,rfl⟩
    have hset : (front ++ b :: rest).set front.length (f a) = front ++ [f a] ++ rest := by simp
    have hnext := ih (front ++ [f a]) rest (by simpa using hlen)
    rw [List.foldl_cons,hset]
    simpa using hnext

theorem getDescription_eq (n : Node) : n.getDescription = n.queues.toList.map n.describe := by
  have hfill := foldl_set n.describe n.queues.toList []
    (List.replicate n.queues.size ⟨⟨[]⟩,[]⟩) (by simp)
  exact hfill

theorem describe_subscribers (n : Node) (kv : Str × Queue) :
    (n.describe kv).subscribers = (n.listeners kv.1).keys := by
  unfold describe listeners
  cases n.subscriptions[kv.1]? with
  | none => simp
  | some values => simp

end Node

section History

variable (regex : RegexCompiler) (q : Str) (c : Id)

/-- What a call says about the entry of client `c` under the name `q`. A creation
counts only if the queue was missing, an Unsubscribe only if it was there, and both
only if `c` is a user. -/
def World.listing (w : World) : Op → Option Bool
  | .createQueue qs d =>
    if qs.name = q ∧ d = c ∧ w.users.exists d = true ∧ ¬ w.node.HasQueue qs.name then some true
    else none
  | .changeSubscription a sp d =>
    if sp.queueName = q ∧ d = c ∧ w.users.exists d = true then
      if a = .Unsubscribe then
        if w.node.HasQueue sp.queueName then some false else none
      else some true
    else none
  | .eraseClient d => if d = c then some false else none
  | _ => none

def World.existence (w : World) : Op → Option Bool
  | .createQueue qs d => if qs.name = q ∧ w.users.exists d = true then some true else none
  | .eraseClient d => if Node.Removed d w.node q then some false else none
  | _ => none

theorem World.listing_other (w : World) {k : Str} {d : Id} (h : ¬ (k = q ∧ d = c)) :
    (∀ qs : QueueSettings, qs.name = k → w.listing q c (.createQueue qs d) = none) ∧
    ∀ a (sp : SubscriptionParams), sp.queueName = k →
      w.listing q c (.changeSubscription a sp d) = none := by
  refine ⟨fun qs hk => ?_,fun a sp hk => ?_⟩
  · simp only [World.listing]
    rw [if_neg fun hq => h ⟨hk ▸ hq.1,hq.2.1⟩]
  · simp only [World.listing]
    rw [if_neg fun hq => h ⟨hk ▸ hq.1,hq.2.1⟩]

theorem World.listing_step (w : World) (op : Op) :
    (w.step regex op).node.listener q c ≠ none ↔ (w.listing q c op = some true ∨
      (w.listing q c op = none ∧ w.node.listener q c ≠ none)) := by
  cases World.step_cases regex w op with
  | quiet queues listeners create change erase =>
    rw [listeners]
    have hnone : w.listing q c op = none := by
      cases op with
      | createQueue qs d =>
        have hquiet := create qs d rfl
        simp only [World.listing]
        rw [if_neg]
        rintro ⟨-,-,hu,hq⟩
        rcases hquiet with hq' | hu'
        · exact hq hq'
        · simp [hu] at hu'
      | changeSubscription a sp d =>
        have hquiet := change a sp d rfl
        simp only [World.listing]
        split
        · rename_i hu
          rcases hquiet with ⟨ha,hq⟩ | hu'
          · rw [if_pos ha,if_neg hq]
          · simp [hu.2.2] at hu'
        · rfl
      | eraseClient d => exact absurd rfl (erase d)
      | append user => rfl
      | setLogin id login => rfl
      | eraseUser id => rfl
      | compile re => rfl
      | publish p rd author => rfl
    simp [hnone]
  | @created qs d _ missing user queues listeners =>
    rw [listeners]
    by_cases hd : qs.name = q ∧ d = c
    · rw [if_pos hd]
      simp [World.listing,hd,hd.1 ▸ missing,hd.2 ▸ user]
    · rw [if_neg hd,(w.listing_other q c hd).1 qs rfl]
      simp
  | @joined a sp d _ action user queues listeners =>
    rw [listeners]
    by_cases hd : sp.queueName = q ∧ d = c
    · rw [if_pos hd]
      simp [World.listing,hd,hd.2 ▸ user,action]
    · rw [if_neg hd,(w.listing_other q c hd).2 a sp rfl]
      simp
  | @left sp d _ present user queues listeners =>
    rw [listeners]
    by_cases hd : sp.queueName = q ∧ d = c
    · rw [if_pos hd]
      simp [World.listing,hd,hd.2 ▸ user,hd.1 ▸ present]
    · rw [if_neg hd,(w.listing_other q c hd).2 .Unsubscribe sp rfl]
      simp
  | @erased id _ queues listeners =>
    rw [listeners]
    by_cases hd : c = id
    · simp [World.listing,hd]
    · simp [World.listing,hd,Ne.symm hd]

theorem World.existence_step (w : World) (op : Op) :
    (w.step regex op).node.HasQueue q ↔ (w.existence q op = some true ∨
      (w.existence q op = none ∧ w.node.HasQueue q)) := by
  cases World.step_cases regex w op with
  | quiet queues listeners create change erase =>
    rw [queues]
    cases op with
    | createQueue qs d =>
      have hquiet := create qs d rfl
      by_cases hd : qs.name = q ∧ w.users.exists d = true
      · have hq : w.node.HasQueue q := by
          rcases hquiet with hq | hu
          · exact hd.1 ▸ hq
          · simp [hd.2] at hu
        simp [World.existence,hd,hq]
      · simp only [World.existence,if_neg hd]
        simp
    | changeSubscription a sp d => simp [World.existence]
    | eraseClient d => exact absurd rfl (erase d)
    | append user => simp [World.existence]
    | setLogin id login => simp [World.existence]
    | eraseUser id => simp [World.existence]
    | compile re => simp [World.existence]
    | publish p rd author => simp [World.existence]
  | @created qs d _ missing user queues listeners =>
    rw [queues]
    by_cases hd : qs.name = q
    · simp [World.existence,hd,user]
    · simp [World.existence,hd,Ne.symm hd]
  | joined action user queues listeners => simp [queues,World.existence]
  | left present user queues listeners => simp [queues,World.existence]
  | @erased id _ queues listeners =>
    rw [queues]
    by_cases hr : Node.Removed id w.node q <;> simp [World.existence,hr]

end History

variable {regex : RegexCompiler}

theorem Node.mem_describe_keys (n : Node) (kv : Str × Queue) (c : Id) :
    c ∈ (n.describe kv).subscribers ↔ n.listener kv.1 c ≠ none := by
  rw [describe_subscribers,ExtTreeMap.mem_keys,Node.listener]
  simp

theorem Node.Named.names {n : Node} (h : n.Named) :
    n.getDescription.map (fun d => d.settings.name) = n.queues.keys := by
  rw [getDescription_eq,List.map_map,← ExtTreeMap.map_fst_toList_eq_keys]
  refine List.map_congr_left fun kv hkv => ?_
  exact h kv.1 kv.2 (ExtTreeMap.mem_toList_iff_getElem?_eq_some.mp hkv)

/-- In any run of a node its description has each existing queue once, in the order of
the names, with its listeners in the order of their ids. A queue is described if a
creation is later than its last removal, and a client is listed if the last call that
had an effect on its entry made it or renewed it. -/
theorem descriptions_exact {w₀ : World} (fresh : w₀.Fresh regex) (ops : List Op) :
    ((w₀.run regex ops).node.getDescription.map (fun d => d.settings.name)).Pairwise
      (fun a b => compare a b = .lt) ∧
    (∀ q, q ∈ (w₀.run regex ops).node.getDescription.map (fun d => d.settings.name) ↔
      Runs.latest (World.step regex) (World.existence q) w₀ ops = some true) ∧
    ∀ d ∈ (w₀.run regex ops).node.getDescription, d.subscribers.Pairwise (· < ·) ∧
      ∀ c, c ∈ d.subscribers ↔
        Runs.latest (World.step regex) (World.listing d.settings.name c) w₀ ops = some true := by
  have hnamed := World.run_named fresh ops
  refine ⟨?_,fun q => ?_,fun d hd => ?_⟩
  · rw [hnamed.names]
    exact ExtTreeMap.ordered_keys
  · have hlatest := Runs.latest_iff (P := fun w : World => w.node.HasQueue q)
      (World.existence_step regex q) w₀ ops
    have hmem : q ∈ (w₀.run regex ops).node.queues.keys ↔
        (w₀.run regex ops).node.HasQueue q := ExtTreeMap.mem_keys
    rw [hnamed.names,hmem,World.run,hlatest]
    simp [fresh.no_queue]
  · rw [Node.getDescription_eq,List.mem_map] at hd
    obtain ⟨kv,hkv,rfl⟩ := hd
    have hname := hnamed kv.1 kv.2 (ExtTreeMap.mem_toList_iff_getElem?_eq_some.mp hkv)
    refine ⟨?_,fun c => ?_⟩
    · rw [Node.describe_subscribers]
      exact ExtTreeMap.ordered_keys.imp compare_eq_lt.mp
    · have hlatest := Runs.latest_iff (P := fun w : World => w.node.listener kv.1 c ≠ none)
        (World.listing_step regex kv.1 c) w₀ ops
      rw [Node.mem_describe_keys,World.run,hlatest]
      show _ ↔ Runs.latest _ (World.listing kv.2.settings.name c) w₀ ops = some true
      rw [hname]
      simp [fresh.no_listener]

theorem descriptions_exact_two_listed :
    (started.run literal [.createQueue ⟨[113]⟩ 2,.changeSubscription .Subscribe ⟨[113],[]⟩ 1,
      .changeSubscription .Unsubscribe ⟨[113],[]⟩ 2]).node.getDescription = [⟨⟨[113]⟩,[1]⟩] ∧
    Runs.latest (World.step literal) (World.listing [113] 1) started
      [.createQueue ⟨[113]⟩ 2,.changeSubscription .Subscribe ⟨[113],[]⟩ 1,
        .changeSubscription .Unsubscribe ⟨[113],[]⟩ 2] = some true := by
  have hds : (started.run literal [.createQueue ⟨[113]⟩ 2,
      .changeSubscription .Subscribe ⟨[113],[]⟩ 1,
      .changeSubscription .Unsubscribe ⟨[113],[]⟩ 2]).node.getDescription = [⟨⟨[113]⟩,[1]⟩] := by
    decide +kernel
  refine ⟨hds,?_⟩
  have hexact := (descriptions_exact ⟨rfl,.empty⟩ [.createQueue ⟨[113]⟩ 2,
    .changeSubscription .Subscribe ⟨[113],[]⟩ 1,
    .changeSubscription .Unsubscribe ⟨[113],[]⟩ 2]).2.2 ⟨⟨[113]⟩,[1]⟩ (by rw [hds]; simp)
  exact (hexact.2 1).mp (by simp)

end Dqueue
