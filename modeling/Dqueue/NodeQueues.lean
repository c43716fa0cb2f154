import Dqueue.NodeRuns

/-!
When queues go away. A queue is removed only inside `eraseClient`, by a
decision taken from the listeners that are left under its name.
-/

set_option autoImplicit false

namespace Dqueue
open Std Effects RawMem

namespace Node

def ServerOwns (n : Node) (q : Str) : Prop :=
  ∃ ql, n.listener q ServerID = some ql ∧ ql.isowner = true

def ServerListens (n : Node) (q : Str) : Prop :=
  ∃ ql, n.listener q ServerID = some ql ∧ ql.isowner = false

/-- The rule in the comment of `eraseClient`: without `id` there is nobody
left, or only the server, which is not the owner. -/
def LeavesNobody (n : Node) (id : Id) (q : Str) : Prop :=
  (∀ d, d ≠ id → n.listener q d = none) ∨
    (n.ServerListens q ∧ ∀ d, d ≠ id → d ≠ ServerID → n.listener q d = none)

structure EraseExact (n : Node) (c : Id) : Prop where
  own : ∀ q, (n.eraseClient c).listener q c = none
  others : ∀ q d, d ≠ c → (n.eraseClient c).listener q d = n.listener q d
  removed : ∀ q, n.listener q c ≠ none → n.LeavesNobody c q → (n.eraseClient c).queues[q]? = none
  kept : ∀ q, ¬ (n.listener q c ≠ none ∧ n.LeavesNobody c q) →
    (n.eraseClient c).queues[q]? = n.queues[q]?
  shared : ∀ q d, d ≠ c → d ≠ ServerID → n.listener q d ≠ none →
    (n.eraseClient c).queues[q]? = n.queues[q]?

/-- No queue of `c` is shared with the server as a mere listener and with
another client. -/
def Unshared (n : Node) (c : Id) : Prop :=
  ∀ q, n.HasQueue q → n.listener q c ≠ none → n.ServerListens q →
    ∀ d, d ≠ c → d ≠ ServerID → n.listener q d = none

theorem removed_of_leavesNobody {n : Node} {c : Id} {q : Str} (hc : c ≠ ServerID)
    (hl : n.listener q c ≠ none) (h : n.LeavesNobody c q) : Removed c n q := by
  rw [removed_iff]
  exact ⟨hl,h.imp_right fun hs => ⟨hc,hs.1⟩⟩

theorem eraseClient_kept {n : Node} {c : Id} (h : n.Unshared c) {q : Str}
    (hk : ¬ (n.listener q c ≠ none ∧ n.LeavesNobody c q)) :
    (n.eraseClient c).queues[q]? = n.queues[q]? := by
  rw [queues_eraseClient]
  split
  · rename_i hr
    obtain ⟨hl,halone | ⟨_,hs⟩⟩ := (removed_iff c n q).mp hr
    · exact absurd ⟨hl,.inl halone⟩ hk
    · by_cases hq : n.HasQueue q
      · exact absurd ⟨hl,.inr ⟨hs,h q hq hl hs⟩⟩ hk
      · rw [hasQueue_iff,not_not] at hq
        exact hq.symm
  · rfl

/-- `eraseClient` follows its comment exactly when no queue of the client is
shared as above. -/
theorem eraseClient_exact_iff (n : Node) (c : Id) (hc : c ≠ ServerID) :
    n.EraseExact c ↔ n.Unshared c := by
  constructor
  · intro h q hq hl hs d hd hds
    by_contra hne
    have hgone : (n.eraseClient c).queues[q]? = none := by
      rw [queues_eraseClient,if_pos ((removed_iff c n q).mpr ⟨hl,.inr ⟨hc,hs⟩⟩)]
    rw [h.shared q d hd hds hne] at hgone
    exact (hasQueue_iff n q).mp hq hgone
  · intro h
    refine ⟨fun q => ?_,fun q d hd => ?_,fun q hl hr => ?_,fun q => eraseClient_kept h,?_⟩
    · rw [listener_eraseClient,if_pos rfl]
    · rw [listener_eraseClient,if_neg hd]
    · rw [queues_eraseClient,if_pos (removed_of_leavesNobody hc hl hr)]
    · intro q d hd hds hne
      refine eraseClient_kept h ?_
      rintro ⟨-,halone | ⟨-,honly⟩⟩
      · exact hne (halone d hd)
      · exact hne (honly d hd hds)

end Node

theorem eraseClient_exact_created_queue :
    (1 : Id) ≠ ServerID ∧
    ((started.run literal [.createQueue ⟨[113]⟩ 1,
        .changeSubscription .Subscribe ⟨[113],[]⟩ ServerID]).node.EraseExact 1 ↔
      (started.run literal [.createQueue ⟨[113]⟩ 1,
        .changeSubscription .Subscribe ⟨[113],[]⟩ ServerID]).node.Unshared 1) :=
  ⟨by decide,Node.eraseClient_exact_iff _ 1 (by decide)⟩

/-- A queue with two clients and the server as a listener goes away when one of
the clients does. -/
theorem eraseClient_drops_shared_queue :
    ¬ (∀ (ops : List Op) (c : Id), c ≠ ServerID → (started.run literal ops).node.EraseExact c) := by
  intro h
  have hex := h [.createQueue ⟨[113]⟩ 1,.changeSubscription .Subscribe ⟨[113],[]⟩ ServerID,
    .changeSubscription .Subscribe ⟨[113],[]⟩ 2] 1 (by decide)
  exact absurd (hex.shared [113] 2 (by decide) (by decide) (by decide)) (by decide)

variable {regex : RegexCompiler}

def Node.NoOrphans (n : Node) : Prop := ∀ q c, n.listener q c ≠ none → n.HasQueue q

/-- A queue with its creator for only listener, as an owner without subscription. -/
structure Node.CreatedBy (n : Node) (q : Str) (c : Id) : Prop where
  present : n.HasQueue q
  owner : n.listener q c = some ⟨true,false,⟨q,[]⟩⟩
  alone : ∀ d, d ≠ c → n.listener q d = none

/-- A call that leaves no listener without a queue: nobody joins a missing
queue, and no client is erased from a queue to which the server listens. -/
def World.Tidy (w : World) : Op → Prop
  | .changeSubscription .Create sp c => w.users.exists c = true → w.node.HasQueue sp.queueName
  | .changeSubscription .Subscribe sp c => w.users.exists c = true → w.node.HasQueue sp.queueName
  | .eraseClient c => c ≠ ServerID → ∀ q, w.node.listener q c ≠ none → ¬ w.node.ServerListens q
  | _ => True

theorem World.tidy_joined {w : World} {a : SubscribeActions} {sp : SubscriptionParams} {c : Id}
    (h : w.Tidy (.changeSubscription a sp c)) (ha : a ≠ .Unsubscribe)
    (user : w.users.exists c = true) : w.node.HasQueue sp.queueName := by
  cases a with
  | Create => exact h user
  | Subscribe => exact h user
  | Unsubscribe => exact absurd rfl ha

theorem World.step_noOrphans {w : World} {op : Op} (h : w.node.NoOrphans) (tidy : w.Tidy op) :
    (w.step regex op).node.NoOrphans := by
  intro q c hl
  cases World.step_cases regex w op with
  | quiet queues listeners create change erase =>
    rw [listeners] at hl
    exact (queues q).mpr (h q c hl)
  | created missing user queues listeners =>
    rw [listeners] at hl
    rw [queues]
    split at hl
    · rename_i hq
      exact .inl hq.1.symm
    · exact .inr (h q c hl)
  | joined action user queues listeners =>
    rw [listeners] at hl
    rw [queues]
    split at hl
    · rename_i hq
      exact hq.1 ▸ World.tidy_joined tidy action user
    · exact h q c hl
  | left present user queues listeners =>
    rw [listeners] at hl
    rw [queues]
    split at hl
    · exact absurd rfl hl
    · exact h q c hl
  | @erased id _ queues listeners =>
    rw [listeners] at hl
    rw [queues]
    split at hl
    · exact absurd rfl hl
    · rename_i hne
      refine ⟨h q c hl,fun hr => ?_⟩
      obtain ⟨hid,halone | ⟨hs,hlis⟩⟩ := (Node.removed_iff id w.node q).mp hr
      · exact hl (halone c hne)
      · exact tidy hs q hid hlis

theorem World.step_createdBy {w : World} (h : w.node.NoOrphans) {qs : QueueSettings} {c : Id}
    (missing : ¬ w.node.HasQueue qs.name) (user : w.users.exists c = true) :
    (w.step regex (.createQueue qs c)).node.CreatedBy qs.name c := by
  have hnone : ∀ d, w.node.listener qs.name d = none := by
    intro d
    by_contra hd
    exact missing (h qs.name d hd)
  cases World.step_cases regex w (.createQueue qs c) with
  | quiet queues listeners create change erase =>
    rcases create qs c rfl with hq | hu
    · exact absurd hq missing
    · rw [user] at hu
      cases hu
  | created _ _ queues listeners =>
    refine ⟨(queues _).mpr (.inl rfl),?_,fun d hd => ?_⟩
    · rw [listeners,if_pos ⟨rfl,rfl⟩,hnone]
      rfl
    · rw [listeners,if_neg (fun h => hd h.2.symm),hnone]

theorem no_orphans {w₀ : World} (fresh : w₀.Fresh regex) (ops : List Op)
    (tidy : Runs.Along (World.step regex) World.Tidy w₀ ops) :
    (w₀.run regex ops).node.NoOrphans ∧
      ∀ qs c, ¬ (w₀.run regex ops).node.HasQueue qs.name →
        (w₀.run regex ops).users.exists c = true →
        ((w₀.run regex ops).step regex (.createQueue qs c)).node.CreatedBy qs.name c := by
  have hstart : w₀.node.NoOrphans := fun q c hl => absurd (fresh.no_listener q c) hl
  have hinv : (w₀.run regex ops).node.NoOrphans :=
    tidy.invariant (P := fun w : World => w.node.NoOrphans)
      (fun _ _ => World.step_noOrphans) hstart
  exact ⟨hinv,fun qs c => World.step_createdBy hinv⟩

def creatorGoes : List Op :=
  [.createQueue ⟨[113]⟩ 1,.changeSubscription .Subscribe ⟨[113],[]⟩ 2,.eraseClient 1]

theorem no_orphans_creator_goes : (started.run literal creatorGoes).node.NoOrphans := by
  have tidy : Runs.Along (World.step literal) World.Tidy started creatorGoes := by
    refine ⟨trivial,fun _ => by decide,fun _ q hl hs => ?_,trivial⟩
    have hq : q ∈ [[113]] := Node.mem_keys_of_listener hl
    have hnone : (started.run literal (creatorGoes.take 2)).node.listener [113] ServerID =
      none := by
      decide
    obtain ⟨ql,hql,-⟩ := List.mem_singleton.mp hq ▸ hs
    exact absurd (hnone.symm.trans hql) (by simp)
  exact (no_orphans ⟨rfl,.empty⟩ creatorGoes tidy).1

/-- A Subscribe to a queue that does not exist leaves an entry behind, and the
creation of that queue by another client then finds it. -/
theorem orphan_subscription :
    ¬ (∀ ops : List Op, (started.run literal ops).node.NoOrphans ∧
      ∀ qs c, ¬ (started.run literal ops).node.HasQueue qs.name →
        (started.run literal ops).users.exists c = true →
        ((started.run literal ops).step literal (.createQueue qs c)).node.CreatedBy qs.name c) := by
  intro h
  have hno := (h [.changeSubscription .Subscribe ⟨[113],[]⟩ 1]).1 [113] 1 (by decide)
  exact absurd hno (by decide)

section Leaks

def Op.actor : Op → Option Id
  | .createQueue _ c => some c
  | .changeSubscription _ _ c => some c
  | _ => none

/-- Every client that did anything on the node is finally erased. A call by an
id that is no user does nothing. -/
def World.Dismissed (regex : RegexCompiler) : World → List Op → Prop
  | _, [] => True
  | w, op :: post =>
    (∀ c, c ≠ ServerID → op.actor = some c → w.users.exists c = true → .eraseClient c ∈ post) ∧
      World.Dismissed regex (w.step regex op) post

theorem World.Dismissed.erased {w : World} {pre post : List Op} {op : Op}
    (h : w.Dismissed regex (pre ++ op :: post)) {c : Id} (hc : c ≠ ServerID)
    (ha : op.actor = some c) (hu : (w.run regex pre).users.exists c = true) :
    .eraseClient c ∈ post := by
  induction pre generalizing w with
  | nil => exact h.1 c hc ha hu
  | cons a pre ih => exact ih h.2 hu

def Node.ClientBesides (n : Node) (c : Id) (q : Str) : Prop :=
  ∃ d, d ≠ c ∧ d ≠ ServerID ∧ n.listener q d ≠ none

/-- A call after which somebody answers for the queue: a client that leaves an
existing queue leaves another client or the owning server there, and the server
does not create a queue under a name to which it alone is subscribed. -/
def World.Anchored (w : World) : Op → Prop
  | .changeSubscription .Unsubscribe sp c =>
    w.users.exists c = true → w.node.HasQueue sp.queueName →
      w.node.listener sp.queueName c ≠ none →
        w.node.ClientBesides c sp.queueName ∨ (c ≠ ServerID ∧ w.node.ServerOwns sp.queueName)
  | .createQueue qs c =>
    c = ServerID → ¬ w.node.HasQueue qs.name → w.node.ServerListens qs.name →
      w.node.ClientBesides ServerID qs.name
  | _ => True

/-- The queue is owned by the server or has a client, whose disconnection will
decide about it. -/
def Node.Tethered (n : Node) (q : Str) : Prop := n.ServerOwns q ∨ n.ClientBesides ServerID q

theorem Node.joined_isowner (a : SubscribeActions) (sp : SubscriptionParams) (ql : QueueListener) :
    (Node.joined a sp (some ql)).isowner = ql.isowner := by
  cases a <;> rfl

theorem Node.Tethered.joined {n n' : Node} {q name : Str} {c : Id} {a : SubscribeActions}
    {sp : SubscriptionParams} (h : n.Tethered q)
    (hl : ∀ d, n'.listener q d =
      if name = q ∧ c = d then some (Node.joined a sp (n.listener q d)) else n.listener q d) :
    n'.Tethered q := by
  rcases h with ⟨ql,hql,how⟩ | ⟨d,hd,hds,hne⟩
  · left
    unfold Node.ServerOwns
    rw [hl,hql]
    split
    · exact ⟨_,rfl,by rw [Node.joined_isowner,how]⟩
    · exact ⟨ql,rfl,how⟩
  · refine .inr ⟨d,hd,hds,?_⟩
    rw [hl]
    split
    · simp
    · exact hne

theorem Node.exists_other {n : Node} {q : Str} {id : Id} (hid : n.listener q id ≠ none)
    (hr : ¬ Node.Removed id n q) : ∃ d, d ≠ id ∧ n.listener q d ≠ none := by
  by_contra hno
  apply hr
  rw [Node.removed_iff]
  refine ⟨hid,.inl fun d hd => ?_⟩
  by_contra hne
  exact hno ⟨d,hd,hne⟩

theorem Node.Tethered.erased {n n' : Node} {q : Str} {id : Id} (h : n.Tethered q)
    (hr : ¬ Node.Removed id n q)
    (hl : ∀ d, n'.listener q d = if d = id then none else n.listener q d) : n'.Tethered q := by
  have hkeep : ∀ d, d ≠ id → n'.listener q d = n.listener q d := fun d hd => by rw [hl,if_neg hd]
  have hclient : ∀ d, d ≠ id → d ≠ ServerID → n.listener q d ≠ none → n'.Tethered q :=
    fun d hd hds hne => .inr ⟨d,hds,hds,by rwa [hkeep d hd]⟩
  rcases h with ⟨ql,hql,how⟩ | ⟨d,-,hds,hne⟩
  · by_cases hs : ServerID = id
    · subst hs
      obtain ⟨d,hd,hne⟩ := Node.exists_other (by simp [hql]) hr
      exact hclient d hd hd hne
    · exact .inl ⟨ql,by rw [hkeep _ hs,hql],how⟩
  · by_cases hd : d = id
    · subst hd
      obtain ⟨e,he,hne'⟩ := Node.exists_other hne hr
      by_cases hes : e = ServerID
      · subst hes
        obtain ⟨ql,hql⟩ := Option.ne_none_iff_exists'.mp hne'
        cases how : ql.isowner with
        | true => exact .inl ⟨ql,by rw [hkeep _ he,hql],how⟩
        | false => exact absurd ((Node.removed_iff d n q).mpr ⟨hne,.inr ⟨hds,ql,hql,how⟩⟩) hr
      · exact hclient e he hes hne'
    · exact hclient d hd hds hne

theorem Node.tethered_created {n n' : Node} {name : Str} {c : Id} {sp : SubscriptionParams}
    (hl : ∀ d, n'.listener name d = if name = name ∧ c = d then
      some (Node.joined .Create sp (n.listener name d)) else n.listener name d)
    (hc : c = ServerID → n.ServerListens name → n.ClientBesides ServerID name) :
    n'.Tethered name := by
  by_cases hs : c = ServerID
  · subst hs
    cases ho : n.listener name ServerID with
    | none => exact .inl ⟨_,by rw [hl,if_pos ⟨rfl,rfl⟩],by simp [ho,Node.joined]⟩
    | some ql =>
      cases how : ql.isowner with
      | true => exact Node.Tethered.joined (.inl ⟨ql,ho,how⟩) hl
      | false => exact Node.Tethered.joined (.inr (hc rfl ⟨ql,ho,how⟩)) hl
  · exact .inr ⟨c,hs,hs,by rw [hl,if_pos ⟨rfl,rfl⟩]; simp⟩

theorem Node.tethered_left {n n' : Node} {q : Str} {c : Id} (h : n.Tethered q)
    (hl : ∀ d, n'.listener q d = if c = d then none else n.listener q d)
    (hc : n.listener q c ≠ none →
      n.ClientBesides c q ∨ (c ≠ ServerID ∧ n.ServerOwns q)) : n'.Tethered q := by
  by_cases hne : n.listener q c = none
  · have hsame : ∀ d, n'.listener q d = n.listener q d := by
      intro d
      rw [hl]
      split
      · rename_i hd
        rw [← hd,hne]
      · rfl
    simpa only [Node.Tethered,Node.ServerOwns,Node.ClientBesides,hsame] using h
  · rcases hc hne with ⟨d,hd,hds,hdn⟩ | ⟨hcs,ql,hql,how⟩
    · exact .inr ⟨d,hds,hds,by rwa [hl,if_neg (Ne.symm hd)]⟩
    · exact .inl ⟨ql,by rw [hl,if_neg hcs,hql],how⟩

theorem World.step_tethered {w : World} {op : Op} (h : ∀ q, w.node.HasQueue q → w.node.Tethered q)
    (anchored : w.Anchored op) (q : Str) (hq : (w.step regex op).node.HasQueue q) :
    (w.step regex op).node.Tethered q := by
  cases World.step_cases regex w op with
  | quiet queues listeners create change erase =>
    have hold := h q ((queues q).mp hq)
    simpa only [Node.Tethered,Node.ServerOwns,Node.ClientBesides,listeners] using hold
  | @created qs c _ missing user queues listeners =>
    rcases (queues q).mp hq with rfl | hq
    · exact Node.tethered_created (listeners qs.name) fun hc hs => anchored hc missing hs
    · exact (h q hq).joined (listeners q)
  | joined action user queues listeners => exact (h q ((queues q).mp hq)).joined (listeners q)
  | @left sp c _ present user queues listeners =>
    have hold := h q ((queues q).mp hq)
    by_cases hsp : sp.queueName = q
    · subst hsp
      exact Node.tethered_left hold (fun d => by rw [listeners]; simp) (anchored user present)
    · simpa only [Node.Tethered,Node.ServerOwns,Node.ClientBesides,listeners,hsp,false_and,
        if_false] using hold
  | erased queues listeners =>
    obtain ⟨hq,hr⟩ := (queues q).mp hq
    exact (h q hq).erased hr (listeners q)

theorem NodeStep.listener_origin {users : UserBase} {n n' : Node} {op : Op}
    (h : NodeStep users n op n') {q : Str} {c : Id} (hl : n'.listener q c ≠ none) :
    (op.actor = some c ∧ users.exists c = true) ∨
      (n.listener q c ≠ none ∧ op ≠ .eraseClient c) := by
  cases h with
  | quiet queues listeners create change erase =>
    rw [listeners] at hl
    exact .inr ⟨hl,erase c⟩
  | created missing user queues listeners =>
    rw [listeners] at hl
    split at hl
    · rename_i hd
      exact .inl ⟨congrArg some hd.2,hd.2 ▸ user⟩
    · exact .inr ⟨hl,by simp⟩
  | joined action user queues listeners =>
    rw [listeners] at hl
    split at hl
    · rename_i hd
      exact .inl ⟨congrArg some hd.2,hd.2 ▸ user⟩
    · exact .inr ⟨hl,by simp⟩
  | left present user queues listeners =>
    rw [listeners] at hl
    split at hl
    · exact absurd rfl hl
    · exact .inr ⟨hl,by simp⟩
  | erased queues listeners =>
    rw [listeners] at hl
    split at hl
    · exact absurd rfl hl
    · rename_i hd
      refine .inr ⟨hl,?_⟩
      rintro ⟨rfl⟩
      exact hd rfl

def Recorded (regex : RegexCompiler) (w₀ : World) (ops : List Op) (w : World) : Prop :=
  w = w₀.run regex ops ∧ ∀ q c, w.node.listener q c ≠ none →
    ∃ pre op post, ops = pre ++ op :: post ∧ op.actor = some c ∧
      (w₀.run regex pre).users.exists c = true ∧ .eraseClient c ∉ post

theorem Recorded.step {w₀ w : World} {ops : List Op} (h : Recorded regex w₀ ops w) (op : Op) :
    Recorded regex w₀ (ops ++ [op]) (w.step regex op) := by
  obtain ⟨hrun,hrec⟩ := h
  refine ⟨by simp [hrun,World.run],fun q c hl => ?_⟩
  rcases (World.step_cases regex w op).listener_origin hl with ⟨ha,hu⟩ | ⟨hold,hne⟩
  · exact ⟨ops,op,[],rfl,ha,hrun ▸ hu,by simp⟩
  · obtain ⟨pre,op',post,rfl,ha,hu,hpost⟩ := hrec q c hold
    exact ⟨pre,op',post ++ [op],by simp,ha,hu,by simp [hpost,Ne.symm hne]⟩

theorem no_leaked_queues {w₀ : World} (fresh : w₀.Fresh regex) (ops : List Op)
    (anchored : Runs.Along (World.step regex) World.Anchored w₀ ops)
    (gone : w₀.Dismissed regex ops) :
    ∀ q, (w₀.run regex ops).node.HasQueue q → (w₀.run regex ops).node.ServerOwns q := by
  intro q hq
  have htether : ∀ q, (w₀.run regex ops).node.HasQueue q → (w₀.run regex ops).node.Tethered q :=
    anchored.invariant (P := fun w : World => ∀ q, w.node.HasQueue q → w.node.Tethered q)
      (fun _ _ => World.step_tethered) fun q hq => absurd hq (fresh.no_queue q)
  have hrec : Recorded regex w₀ ops (w₀.run regex ops) :=
    anchored.history (P := Recorded regex w₀) (fun _ _ op h _ => h.step op) (d := [])
      ⟨rfl,fun q c hl => absurd (fresh.no_listener q c) hl⟩
  rcases htether q hq with hs | ⟨c,-,hc,hl⟩
  · exact hs
  · obtain ⟨pre,op,post,rfl,ha,hu,hpost⟩ := hrec.2 q c hl
    exact absurd (gone.erased hc ha hu) hpost

def bothGo : List Op :=
  [.createQueue ⟨[115]⟩ ServerID,.createQueue ⟨[113]⟩ 1,.changeSubscription .Subscribe ⟨[113],[]⟩ 2,
    .changeSubscription .Unsubscribe ⟨[113],[]⟩ 1,.eraseClient 1,.eraseClient 2]

theorem no_leaked_queues_both_go :
    (started.run literal bothGo).node.HasQueue [115] ∧
      (started.run literal bothGo).node.ServerOwns [115] := by
  have anchored : Runs.Along (World.step literal) World.Anchored started bothGo := by
    refine ⟨fun _ _ hs => ?_,fun h => absurd h (by decide),trivial,
      fun _ _ _ => .inl ⟨2,by decide,by decide,by decide⟩,trivial,trivial,trivial⟩
    obtain ⟨ql,hql,-⟩ := hs
    have hnone : started.node.listener [115] ServerID = none := by decide
    exact absurd (hnone.symm.trans hql) (by simp)
  have gone : started.Dismissed literal bothGo := by
    refine ⟨fun c hs ha => ?_,?_,?_,?_,?_,?_,trivial⟩
    · cases ha
      exact absurd rfl hs
    all_goals rintro c - ⟨⟩ - <;> decide
  have hq : (started.run literal bothGo).node.HasQueue [115] := by decide
  exact ⟨hq,no_leaked_queues ⟨rfl,.empty⟩ bothGo anchored gone [115] hq⟩

/-- The creator of a queue leaves it before it disconnects, so that it is not
listed any more when the decision would be taken. -/
theorem leaked_queue :
    ¬ (∀ ops : List Op, started.Dismissed literal ops →
      ∀ q, (started.run literal ops).node.HasQueue q →
      (started.run literal ops).node.ServerOwns q) := by
  intro h
  have gone : started.Dismissed literal [.createQueue ⟨[113]⟩ 1,
      .changeSubscription .Unsubscribe ⟨[113],[]⟩ 1,.eraseClient 1] := by
    refine ⟨?_,?_,?_,trivial⟩ <;> rintro c - ⟨⟩ - <;> decide
  obtain ⟨ql,hql,-⟩ := h _ gone [113] (by decide)
  have hnone : (started.run literal [.createQueue ⟨[113]⟩ 1,
    .changeSubscription .Unsubscribe ⟨[113],[]⟩ 1,.eraseClient 1]).node.listener [113] ServerID =
      none := by decide
  exact absurd (hnone.symm.trans hql) (by simp)

end Leaks

end Dqueue
