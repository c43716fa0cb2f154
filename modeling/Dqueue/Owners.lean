import Dqueue.NodeQueues

/-!
Who owns a queue. Ownership is a flag in the listener entry of the creator; it stays
behind when a queue goes away while its creator is still listed, and the next creator
of a queue of that name then gets the flag as well.
-/

set_option autoImplicit false

namespace Dqueue
open Std Effects RawMem

def Node.Owns (n : Node) (q : Str) (c : Id) : Prop :=
  ∃ ql, n.listener q c = some ql ∧ ql.isowner = true

def Node.OneOwner (n : Node) : Prop := ∀ q c d, n.Owns q c → n.Owns q d → c = d

/-- A call that leaves no owner behind without the queue, and makes none beside another.
`eraseClient` removes the queues of a client to which the server listens without owning
them, also while their owner is listed; and `changeSubscription` takes Create from any
caller. -/
def World.KeepsOwners (w : World) : Op → Prop
  | .eraseClient c => c ≠ ServerID → ∀ q, w.node.HasQueue q → w.node.listener q c ≠ none →
    w.node.ServerListens q → ∀ d, d ≠ c → ¬ w.node.Owns q d
  | .changeSubscription .Create sp c => w.users.exists c = true →
    w.node.listener sp.queueName c = none →
      w.node.HasQueue sp.queueName ∧ ∀ d, ¬ w.node.Owns sp.queueName d
  | _ => True

structure Node.Owned (n : Node) : Prop where
  one : n.OneOwner
  present : ∀ q c, n.Owns q c → n.HasQueue q

variable {regex : RegexCompiler}

theorem Node.owns_joined {n n' : Node} {q name : Str} {c d : Id} {a : SubscribeActions}
    {sp : SubscriptionParams}
    (hl : n'.listener q d =
      if name = q ∧ c = d then some (Node.joined a sp (n.listener q d)) else n.listener q d) :
    n'.Owns q d ↔ n.Owns q d ∨ (name = q ∧ c = d ∧ a = .Create ∧ n.listener q d = none) := by
  unfold Node.Owns
  rw [hl]
  by_cases hd : name = q ∧ c = d
  · rw [if_pos hd]
    cases ho : n.listener q d with
    | none => cases a <;> simp [Node.joined,hd]
    | some ql => simp [Node.joined_isowner]
  · rw [if_neg hd]
    refine (or_iff_left ?_).symm
    rintro ⟨hq,hc,-⟩
    exact hd ⟨hq,hc⟩

theorem Node.Owned.joined {n n' : Node} (h : n.Owned) {name : Str} {c : Id}
    {a : SubscribeActions} {sp : SubscriptionParams}
    (queues : ∀ q, n.HasQueue q → n'.HasQueue q)
    (here : a = .Create → n.listener name c = none → n'.HasQueue name)
    (hl : ∀ q d, n'.listener q d =
      if name = q ∧ c = d then some (Node.joined a sp (n.listener q d)) else n.listener q d)
    (hnone : a = .Create → n.listener name c = none → ∀ d, ¬ n.Owns name d) : n'.Owned := by
  refine ⟨fun q d e hd he => ?_,fun q d hd => ?_⟩
  · rw [Node.owns_joined (hl q d)] at hd
    rw [Node.owns_joined (hl q e)] at he
    rcases hd with hd | ⟨rfl,rfl,ha,hn⟩
    · rcases he with he | ⟨rfl,rfl,ha,hn⟩
      · exact h.one q d e hd he
      · exact absurd hd (hnone ha hn d)
    · rcases he with he | ⟨-,he,-⟩
      · exact absurd he (hnone ha hn e)
      · exact he
  · rcases (Node.owns_joined (hl q d)).mp hd with hd | ⟨rfl,rfl,ha,hn⟩
    · exact queues q (h.present q d hd)
    · exact here ha hn

theorem Node.Owned.less {n n' : Node} (h : n.Owned)
    (hl : ∀ q d, n'.listener q d = none ∨ n'.listener q d = n.listener q d)
    (queues : ∀ q d, n'.Owns q d → n.HasQueue q → n'.HasQueue q) : n'.Owned := by
  have howns : ∀ q d, n'.Owns q d → n.Owns q d := by
    rintro q d ⟨ql,hql,how⟩
    rcases hl q d with hn | hn
    · rw [hn] at hql
      cases hql
    · exact ⟨ql,hn ▸ hql,how⟩
  exact ⟨fun q d e hd he => h.one q d e (howns q d hd) (howns q e he),
    fun q d hd => queues q d hd (h.present q d (howns q d hd))⟩

theorem World.step_owned {w : World} {op : Op} (h : w.node.Owned) (ok : w.KeepsOwners op) :
    (w.step regex op).node.Owned := by
  cases World.step_cases regex w op with
  | quiet queues listeners create change erase =>
    exact h.less (fun q d => .inr (listeners q d)) fun q d _ hq => (queues q).mpr hq
  | created missing user queues listeners =>
    refine h.joined (fun q hq => (queues q).mpr (.inr hq))
      (fun _ _ => (queues _).mpr (.inl rfl)) listeners fun _ _ d hd => ?_
    exact missing (h.present _ d hd)
  | @joined a sp c _ action user queues listeners =>
    refine h.joined (fun q hq => (queues q).mpr hq) (fun ha hn => ?_) listeners fun ha hn => ?_
    · subst ha
      exact (queues _).mpr (ok user hn).1
    · subst ha
      exact (ok user hn).2
  | left present user queues listeners =>
    refine h.less (fun q d => ?_) fun q d _ hq => (queues q).mpr hq
    rw [listeners]
    split
    · exact .inl rfl
    · exact .inr rfl
  | @erased id _ queues listeners =>
    refine h.less (fun q d => ?_) fun q d hd hq => (queues q).mpr ⟨hq,fun hr => ?_⟩
    · rw [listeners]
      split
      · exact .inl rfl
      · exact .inr rfl
    · obtain ⟨ql,hql,how⟩ := hd
      rw [listeners] at hql
      split at hql
      · cases hql
      · rename_i hne
        obtain ⟨hid,halone | ⟨hs,hlis⟩⟩ := (Node.removed_iff id w.node q).mp hr
        · rw [halone d hne] at hql
          cases hql
        · exact ok hs q hq hid hlis d hne ⟨ql,hql,how⟩

/-- A name without a queue that has an owner: whoever creates the queue is another. -/
theorem World.two_owners_after_create {w : World} {q : Str} {c d : Id}
    (missing : ¬ w.node.HasQueue q) (owner : w.node.Owns q d)
    (fresh : w.node.listener q c = none) :
    ¬ (w.run regex [.append ⟨[],c⟩,.createQueue ⟨q⟩ c]).node.OneOwner := by
  intro hone
  have huser : (w.step regex (.append ⟨[],c⟩)).users.exists c = true :=
    (UserBase.exists_append _ _ _).mpr (.inl rfl)
  have hne : c ≠ d := by
    rintro rfl
    obtain ⟨ql,hql,-⟩ := owner
    rw [fresh] at hql
    cases hql
  cases World.step_cases regex (w.step regex (.append ⟨[],c⟩)) (.createQueue ⟨q⟩ c) with
  | quiet queues listeners create change erase =>
    rcases create ⟨q⟩ c rfl with hq | hu
    · exact missing hq
    · rw [huser] at hu
      cases hu
  | created _ _ queues listeners =>
    refine hne (hone q c d ?_ ?_)
    · exact (Node.owns_joined (listeners q c)).mpr (.inr ⟨rfl,rfl,rfl,fresh⟩)
    · exact (Node.owns_joined (listeners q d)).mpr (.inl owner)

/-- The owner stays listed when another client takes the queue with it. -/
theorem World.two_owners_after_erase {w : World} {q : Str} {c d : Id} (hc : c ≠ ServerID)
    (listed : w.node.listener q c ≠ none) (listens : w.node.ServerListens q) (hd : d ≠ c)
    (owner : w.node.Owns q d) :
    ¬ (w.run regex [.eraseClient c,.append ⟨[],c⟩,.createQueue ⟨q⟩ c]).node.OneOwner := by
  have hremoved : Node.Removed c w.node q :=
    (Node.removed_iff c w.node q).mpr ⟨listed,.inr ⟨hc,listens⟩⟩
  refine World.two_owners_after_create (w := w.step regex (.eraseClient c)) (d := d)
    (fun hq => ((Node.hasQueue_eraseClient c w.node q).mp hq).2 hremoved) ?_ ?_
  · obtain ⟨ql,hql,how⟩ := owner
    refine ⟨ql,?_,how⟩
    show (w.node.eraseClient c).listener q d = _
    rw [Node.listener_eraseClient,if_neg hd,hql]
  · show (w.node.eraseClient c).listener q c = none
    rw [Node.listener_eraseClient,if_pos rfl]

/-- Create from outside makes an owner, whether or not there is a queue or another owner. -/
theorem World.two_owners_after_change {w : World} {sp : SubscriptionParams} {c : Id}
    (user : w.users.exists c = true) (fresh : w.node.listener sp.queueName c = none)
    (h : ¬ (w.node.HasQueue sp.queueName ∧ ∀ d, ¬ w.node.Owns sp.queueName d)) :
    ∃ rest, ¬ (w.run regex (.changeSubscription .Create sp c :: rest)).node.OneOwner := by
  cases World.step_cases regex w (.changeSubscription .Create sp c) with
  | quiet queues listeners create change erase =>
    rcases change .Create sp c rfl with ⟨ha,-⟩ | hu
    · cases ha
    · rw [user] at hu
      cases hu
  | joined action _ queues listeners =>
    have howner : (w.step regex (.changeSubscription .Create sp c)).node.Owns sp.queueName c :=
      (Node.owns_joined (listeners _ c)).mpr (.inr ⟨rfl,rfl,rfl,fresh⟩)
    by_cases hq : w.node.HasQueue sp.queueName
    · have hex : ∃ d, w.node.Owns sp.queueName d := by
        by_contra hno
        exact h ⟨hq,fun d hd => hno ⟨d,hd⟩⟩
      obtain ⟨d,hd⟩ := hex
      refine ⟨[],fun hone => ?_⟩
      have hcd := hone sp.queueName c d howner ((Node.owns_joined (listeners _ d)).mpr (.inl hd))
      obtain ⟨ql,hql,-⟩ := hd
      rw [← hcd,fresh] at hql
      cases hql
    · -- any other client, freed of an entry of its own, creates the missing queue
      have hne : c ≠ c+1 := by simp
      refine ⟨[.eraseClient (c+1),.append ⟨[],c+1⟩,.createQueue ⟨sp.queueName⟩ (c+1)],?_⟩
      refine World.two_owners_after_create
        (w := (w.step regex (.changeSubscription .Create sp c)).step regex (.eraseClient (c+1)))
        (d := c) (fun hq' => ?_) ?_ ?_
      · exact hq ((queues _).mp ((Node.hasQueue_eraseClient _ _ _).mp hq').1)
      · obtain ⟨ql,hql,how⟩ := howner
        refine ⟨ql,?_,how⟩
        show (Node.eraseClient _ (c+1)).listener sp.queueName c = _
        rw [Node.listener_eraseClient,if_neg hne,hql]
      · show (Node.eraseClient _ (c+1)).listener sp.queueName (c+1) = none
        rw [Node.listener_eraseClient,if_pos rfl]

/-- No name has two owners as long as every call keeps to the condition, and from any call
that does not, two owners can be reached. -/
theorem one_owner {w₀ : World} (fresh : w₀.Fresh regex) (ops : List Op) :
    (Runs.Along (World.step regex) World.KeepsOwners w₀ ops →
      (w₀.run regex ops).node.OneOwner) ∧
    ∀ op, ¬ (w₀.run regex ops).KeepsOwners op →
      ∃ rest, ¬ (w₀.run regex (ops ++ op :: rest)).node.OneOwner := by
  have hstart : w₀.node.Owned := by
    refine ⟨fun q c d hc => ?_,fun q c hc => ?_⟩ <;>
    · obtain ⟨ql,hql,-⟩ := hc
      rw [fresh.no_listener] at hql
      cases hql
  have happend : ∀ rest, w₀.run regex (ops ++ rest) = (w₀.run regex ops).run regex rest :=
    fun rest => List.foldl_append
  refine ⟨fun h => ?_,fun op hop => ?_⟩
  · exact (h.invariant (P := fun w : World => w.node.Owned)
      (fun _ _ => World.step_owned) hstart).one
  · simp only [happend]
    cases op with
    | eraseClient c =>
      simp only [World.KeepsOwners,not_forall,not_not] at hop
      obtain ⟨hc,q,-,hl,hs,d,hd,howner⟩ := hop
      exact ⟨_,World.two_owners_after_erase hc hl hs hd howner⟩
    | changeSubscription a sp c =>
      cases a with
      | Create =>
        simp only [World.KeepsOwners,not_forall] at hop
        obtain ⟨user,hn,h⟩ := hop
        exact World.two_owners_after_change user hn h
      | Subscribe => exact absurd trivial hop
      | Unsubscribe => exact absurd trivial hop
    | append user => exact absurd trivial hop
    | setLogin id login => exact absurd trivial hop
    | eraseUser id => exact absurd trivial hop
    | compile re => exact absurd trivial hop
    | createQueue qs c => exact absurd trivial hop
    | publish p rd author => exact absurd trivial hop

def createdAgain : List Op :=
  [.createQueue ⟨[113]⟩ 1,.changeSubscription .Subscribe ⟨[113],[]⟩ ServerID,.eraseClient 1,
    .createQueue ⟨[113]⟩ 2]

theorem one_owner_created_again : (started.run literal createdAgain).node.OneOwner := by
  have hone : (started.run literal (createdAgain.take 2)).node.OneOwner :=
    (one_owner ⟨rfl,.empty⟩ (createdAgain.take 2)).1 ⟨trivial,trivial,trivial⟩
  refine (one_owner ⟨rfl,.empty⟩ createdAgain).1
    ⟨trivial,trivial,fun _ q _ _ _ d hd howner => ?_,trivial,trivial⟩
  have hkey : q ∈ [[113]] := by
    obtain ⟨ql,hql,-⟩ := howner
    exact Node.mem_keys_of_listener (c := d) (by rw [hql]; simp)
  obtain rfl := List.mem_singleton.mp hkey
  exact hd (hone [113] d 1 howner ⟨⟨true,false,⟨[113],[]⟩⟩,by decide,rfl⟩)

/-- The server and two clients share a queue; the one that did not create it disconnects,
which removes the queue, and creates it again. -/
theorem queue_with_two_owners :
    ¬ (∀ ops : List Op, (started.run literal ops).node.OneOwner) := by
  intro h
  have hone := h [.createQueue ⟨[113]⟩ 1,.changeSubscription .Subscribe ⟨[113],[]⟩ ServerID,
    .changeSubscription .Subscribe ⟨[113],[]⟩ 2,.eraseClient 2,.createQueue ⟨[113]⟩ 2]
  exact absurd (hone [113] 1 2 ⟨⟨true,false,⟨[113],[]⟩⟩,by decide,rfl⟩
    ⟨⟨true,false,⟨[113],[]⟩⟩,by decide,rfl⟩) (by decide)

end Dqueue
