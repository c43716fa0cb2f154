import Dqueue.Server
import Dqueue.Lib.Runs

/-!
One `createQueue` while its owner disconnects on another thread. The user base
has a lock of its own, so the two checks of the owner may see different users;
`eraseClient` waits for the lock of the queues.
-/

set_option autoImplicit false

namespace Dqueue
open Std Effects RawMem

/-- Where `createQueue` is: before the first check, before it takes the lock of
the queues, between the queue and the second check, and before the owner's entry. -/
inductive Creating where
  | checking
  | locking
  | inserted
  | entering
  | returned
  | threw
  deriving DecidableEq, Repr

/-- Where `onDisconnect` is: before `UserBase::erase`, before `eraseClient`. -/
inductive Leaving where
  | erasing
  | erased
  | returned
  | threw
  deriving DecidableEq, Repr

structure CreateRace where
  node : Node
  users : UserBase
  creating : Creating
  leaving : Leaving

inductive CreateEvent where
  | createQueue
  | onDisconnect
  deriving DecidableEq, Repr

namespace CreateRace

def start (node : Node) (users : UserBase) : CreateRace := ⟨node,users,.checking,.erasing⟩

section Steps

variable (qsettings : QueueSettings) (ownerId : Id)

def create (r : CreateRace) : CreateRace :=
  match r.creating with
  | .checking => { r with creating := if r.users.exists ownerId then .locking else .threw }
  | .locking =>
    match r.node.queues[qsettings.name]? with
    | some q => { r with node := r.node.updateQueue qsettings q, creating := .returned }
    | none => { r with node := r.node.addQueue qsettings, creating := .inserted }
  | .inserted => { r with creating := if r.users.exists ownerId then .entering else .threw }
  | .entering =>
    { r with
      node := r.node.changed .Create ⟨qsettings.name,[]⟩ ownerId
      creating := .returned }
  | .returned => r
  | .threw => r

def locked (r : CreateRace) : Bool := r.creating == .inserted || r.creating == .entering

def disconnect (r : CreateRace) : CreateRace :=
  match r.leaving with
  | .erasing =>
    match r.users.erase ownerId with
    | .ok users => { r with users := users, leaving := .erased }
    | .error _ => { r with leaving := .threw }
  | .erased =>
    if r.locked then r
    else { r with node := r.node.eraseClient ownerId, leaving := .returned }
  | .returned => r
  | .threw => r

def step (r : CreateRace) : CreateEvent → CreateRace
  | .createQueue => r.create qsettings ownerId
  | .onDisconnect => r.disconnect ownerId

end Steps

theorem alone (qsettings : QueueSettings) (ownerId : Id) (n : Node) (users : UserBase) :
    ((List.replicate 4 CreateEvent.createQueue).foldl (step qsettings ownerId)
      (start n users)).node = final (Node.createQueue users qsettings ownerId n) := by
  rw [Node.createQueue_run]
  simp only [List.replicate,List.foldl_cons,List.foldl_nil,step,start]
  cases hu : users.exists ownerId with
  | false => simp [create,hu]
  | true =>
    cases hq : n.queues[qsettings.name]? with
    | some q => simp [create,hu,hq]
    | none => simp [create,hu,hq]

theorem disconnect_alone (qsettings : QueueSettings) (i : ClientConnection) (s : Server) :
    ((List.replicate 2 CreateEvent.onDisconnect).foldl (step qsettings i.id)
      (start s.node s.users)).node = (final (Server.onDisconnect i s)).node := by
  simp only [List.replicate,List.foldl_cons,List.foldl_nil,step,start,Server.onDisconnect,
    bind_apply,get_apply]
  cases hu : s.users.erase i.id with
  | ok users => simp [disconnect,hu,locked]
  | error e => simp [disconnect,hu]

end CreateRace

section Listed

variable {n : Node} {q : Str} {owner : Id}

def Node.Listed (n : Node) (q : Str) : Prop := n.HasQueue q → ∃ c, n.listener q c ≠ none

theorem Node.Listed.eraseClient (h : n.Listed q) (owner : Id) :
    (n.eraseClient owner).Listed q := by
  intro hq
  obtain ⟨hq,hkept⟩ := (Node.hasQueue_eraseClient owner n q).mp hq
  obtain ⟨c,hc⟩ := h hq
  by_cases hco : c = owner
  · subst hco
    by_contra hnone
    push Not at hnone
    refine hkept ((Node.removed_iff c n q).mpr ⟨hc,.inl fun d hd => ?_⟩)
    have hd' := hnone d
    rwa [Node.listener_eraseClient,if_neg hd] at hd'
  · exact ⟨c,by rwa [Node.listener_eraseClient,if_neg hco]⟩

theorem Node.hasQueue_addQueue (n : Node) (qsettings : QueueSettings) :
    (n.addQueue qsettings).HasQueue qsettings.name :=
  (Node.hasQueue_insert n qsettings.name qsettings.name _ _).mpr (.inl rfl)

end Listed

namespace CreateRace

section Race

variable (qsettings : QueueSettings) (ownerId : Id) (n : Node)

def leftAlone (r : CreateRace) : Node :=
  if r.leaving = .returned then n.eraseClient ownerId else n

/-- What is asked of a step of a race that began with the node `n`. -/
structure RightStep (r : CreateRace) (e : CreateEvent) : Prop where
  completes : r.creating ≠ .returned → (r.step qsettings ownerId e).creating = .returned →
    (r.step qsettings ownerId e).node.HasQueue qsettings.name ∧
      (r.step qsettings ownerId e).node.listener qsettings.name ownerId ≠ none
  throws : (r.step qsettings ownerId e).creating = .threw →
    (r.step qsettings ownerId e).node = (r.step qsettings ownerId e).leftAlone ownerId n
  finished : (r.step qsettings ownerId e).creating ∈ [.returned,.threw] →
    (r.step qsettings ownerId e).leaving ∈ [.returned,.threw] →
    (r.step qsettings ownerId e).node.Listed qsettings.name

/-- The owner is still a user at the second check, and a queue that was there
before lists it. -/
def Undisturbed (r : CreateRace) (e : CreateEvent) : Prop :=
  e = .createQueue →
    (r.creating = .locking → r.node.HasQueue qsettings.name →
      r.node.listener qsettings.name ownerId ≠ none) ∧
    (r.creating = .inserted → r.users.exists ownerId = true)

instance (r : CreateRace) (e : CreateEvent) : Decidable (r.Undisturbed qsettings ownerId e) :=
  inferInstanceAs (Decidable (_ → _ ∧ _))

def Made (r : CreateRace) : Prop :=
  match r.creating with
  | .checking | .locking | .threw => r.node = r.leftAlone ownerId n
  | .inserted => (r.leftAlone ownerId n).queues[qsettings.name]? = none ∧
      r.node = (r.leftAlone ownerId n).addQueue qsettings
  | .entering => r.leaving ≠ .returned ∧ r.node.HasQueue qsettings.name
  | .returned => r.node.Listed qsettings.name ∧ (r.leaving ≠ .returned →
      r.node.HasQueue qsettings.name ∧ r.node.listener qsettings.name ownerId ≠ none)

structure Known (r : CreateRace) : Prop where
  gone : r.leaving = .erased ∨ r.leaving = .returned → r.users.exists ownerId = false
  made : r.Made qsettings ownerId n

end Race

section Known

variable {qsettings : QueueSettings} {ownerId : Id} {n : Node} {r : CreateRace}

theorem Known.start (qsettings : QueueSettings) (ownerId : Id) (n : Node) (users : UserBase) :
    (start n users).Known qsettings ownerId n :=
  ⟨by simp [CreateRace.start],rfl⟩

theorem leftAlone_listed (h : n.Listed qsettings.name) (ownerId : Id) (r : CreateRace) :
    (r.leftAlone ownerId n).Listed qsettings.name := by
  unfold leftAlone
  split
  · exact h.eraseClient ownerId
  · exact h

theorem Known.listed (k : r.Known qsettings ownerId n) (h : n.Listed qsettings.name)
    (hc : r.creating ∈ [.returned,.threw]) : r.node.Listed qsettings.name := by
  have hmade := k.made
  rcases List.mem_pair.mp hc with hc | hc
  · rw [Made,hc] at hmade
    exact hmade.1
  · rw [Made,hc] at hmade
    rw [hmade]
    exact leftAlone_listed h ownerId r

theorem Known.disconnect (k : r.Known qsettings ownerId n) :
    (r.disconnect ownerId).Known qsettings ownerId n := by
  unfold CreateRace.disconnect
  split
  · rename_i hl
    have hmade := k.made
    have hleft : ∀ leaving, leaving ≠ Leaving.returned → ∀ users : UserBase,
        Made qsettings ownerId n { r with users := users, leaving := leaving } := by
      intro leaving hne users
      unfold Made leftAlone at hmade ⊢
      cases hc : r.creating <;> simp [hc,hl,hne] at hmade ⊢ <;> exact hmade
    cases hu : r.users.erase ownerId with
    | ok users =>
      refine ⟨fun _ => ?_,hleft .erased (by decide) users⟩
      have hex := UserBase.exists_erase hu ownerId
      simpa using hex
    | error e => exact ⟨by simp,hleft .threw (by decide) r.users⟩
  · rename_i hl
    split
    · exact k
    · rename_i hfree
      refine ⟨fun _ => k.gone (.inl hl),?_⟩
      have hmade := k.made
      unfold Made leftAlone at hmade ⊢
      cases hc : r.creating with
      | checking => simp_all
      | locking => simp_all
      | threw => simp_all
      | inserted => simp [locked,hc] at hfree
      | entering => simp [locked,hc] at hfree
      | returned =>
        simp only [hc] at hmade
        exact ⟨hmade.1.eraseClient ownerId,fun h => absurd rfl h⟩
  · exact k
  · exact k

theorem Known.not_left (hm : r.node = r.leftAlone ownerId n)
    (hl : r.node.listener qsettings.name ownerId ≠ none) : r.leaving ≠ .returned := by
  intro he
  rw [hm,leftAlone,if_pos he,Node.listener_eraseClient,if_pos rfl] at hl
  exact hl rfl

theorem hasQueue_updateQueue (n : Node) (qsettings : QueueSettings) (q : Queue) :
    (n.updateQueue qsettings q).HasQueue qsettings.name :=
  (Node.hasQueue_insert n qsettings.name qsettings.name _ _).mpr (.inl rfl)

theorem Known.create (k : r.Known qsettings ownerId n)
    (hu : r.Undisturbed qsettings ownerId .createQueue) :
    (r.create qsettings ownerId).Known qsettings ownerId n := by
  obtain ⟨hfound,hsecond⟩ := hu rfl
  have hmade := k.made
  unfold CreateRace.create
  cases hc : r.creating with
  | checking =>
    rw [Made,hc] at hmade
    refine ⟨k.gone,?_⟩
    cases hx : r.users.exists ownerId with
    | true => exact hmade
    | false => exact hmade
  | locking =>
    rw [Made,hc] at hmade
    cases hq : r.node.queues[qsettings.name]? with
    | some q =>
      have hl := hfound hc ((Node.hasQueue_iff _ _).mpr (by simp [hq]))
      refine ⟨k.gone,?_,fun _ => ⟨hasQueue_updateQueue _ _ _,hl⟩⟩
      exact fun _ => ⟨ownerId,hl⟩
    | none =>
      refine ⟨k.gone,?_,?_⟩
      · exact hmade ▸ hq
      · show r.node.addQueue qsettings = (r.leftAlone ownerId n).addQueue qsettings
        rw [hmade]
  | inserted =>
    rw [Made,hc] at hmade
    have hx := hsecond hc
    have hnot : r.leaving ≠ .returned := by
      intro he
      rw [k.gone (.inr he)] at hx
      cases hx
    refine ⟨k.gone,?_⟩
    simp only [hx,if_true,Made]
    refine ⟨hnot,?_⟩
    rw [hmade.2]
    exact Node.hasQueue_addQueue _ qsettings
  | entering =>
    rw [Made,hc] at hmade
    have hl : (r.node.changed .Create ⟨qsettings.name,[]⟩ ownerId).listener qsettings.name ownerId ≠
        none := by
      rw [Node.listener_changed]
      simp
    exact ⟨k.gone,fun _ => ⟨ownerId,hl⟩,fun _ => ⟨hmade.2,hl⟩⟩
  | returned => exact k
  | threw => exact k

theorem Known.step (k : r.Known qsettings ownerId n) (e : CreateEvent)
    (hu : r.Undisturbed qsettings ownerId e) :
    (r.step qsettings ownerId e).Known qsettings ownerId n := by
  cases e with
  | createQueue => exact k.create hu
  | onDisconnect => exact k.disconnect

theorem Known.completes (k : r.Known qsettings ownerId n) {e : CreateEvent}
    (hu : r.Undisturbed qsettings ownerId e) (hbefore : r.creating ≠ .returned)
    (hafter : (r.step qsettings ownerId e).creating = .returned) :
    (r.step qsettings ownerId e).node.HasQueue qsettings.name ∧
      (r.step qsettings ownerId e).node.listener qsettings.name ownerId ≠ none := by
  have hnext := (k.step e hu).made
  rw [Made,hafter] at hnext
  refine hnext.2 fun he => ?_
  have hmade := k.made
  cases e with
  | onDisconnect =>
    refine hbefore (hafter ▸ ?_)
    simp only [CreateRace.step,CreateRace.disconnect]
    cases r.leaving with
    | erasing => cases r.users.erase ownerId <;> rfl
    | erased => simp only; split <;> rfl
    | returned => rfl
    | threw => rfl
  | createQueue =>
    have hleaving : (r.step qsettings ownerId .createQueue).leaving = r.leaving := by
      simp only [CreateRace.step,CreateRace.create]
      cases r.creating with
      | locking => simp only; cases r.node.queues[qsettings.name]? <;> rfl
      | _ => rfl
    rw [hleaving] at he
    obtain ⟨hfound,-⟩ := hu rfl
    cases hc : r.creating with
    | checking =>
      simp only [CreateRace.step,CreateRace.create,hc] at hafter
      split at hafter <;> cases hafter
    | locking =>
      rw [Made,hc] at hmade
      cases hq : r.node.queues[qsettings.name]? with
      | some q => exact not_left hmade (hfound hc ((Node.hasQueue_iff _ _).mpr (by simp [hq]))) he
      | none =>
        simp only [CreateRace.step,CreateRace.create,hc,hq] at hafter
        cases hafter
    | inserted =>
      simp only [CreateRace.step,CreateRace.create,hc] at hafter
      split at hafter <;> cases hafter
    | entering =>
      rw [Made,hc] at hmade
      exact hmade.1 he
    | returned => exact hbefore hc
    | threw =>
      simp only [CreateRace.step,CreateRace.create,hc] at hafter
      cases hafter

theorem Known.rightStep_iff (k : r.Known qsettings ownerId n) (listed : n.Listed qsettings.name)
    (e : CreateEvent) :
    r.RightStep qsettings ownerId n e ↔ r.Undisturbed qsettings ownerId e := by
  constructor
  · intro h he
    subst he
    have hmade := k.made
    refine ⟨fun hc hq => ?_,fun hc => ?_⟩
    · obtain ⟨q,hq'⟩ := Option.ne_none_iff_exists'.mp ((Node.hasQueue_iff _ _).mp hq)
      have hret := h.completes (by simp [hc]) (by simp [CreateRace.step,CreateRace.create,hc,hq'])
      simp only [CreateRace.step,CreateRace.create,hc,hq'] at hret
      exact hret.2
    · by_contra hx
      rw [Made,hc] at hmade
      have hthrow := h.throws (by simp [CreateRace.step,CreateRace.create,hc,hx])
      simp only [CreateRace.step,CreateRace.create,hc,hx] at hthrow
      have hgone : (r.leftAlone ownerId n).HasQueue qsettings.name := by
        have hadd := Node.hasQueue_addQueue (r.leftAlone ownerId n) qsettings
        rw [← hmade.2] at hadd
        have hsame : r.node = r.leftAlone ownerId n := hthrow
        rwa [hsame] at hadd
      exact (Node.hasQueue_iff _ _).mp hgone hmade.1
  · intro hu
    have hnext := k.step e hu
    refine ⟨k.completes hu,fun hc => ?_,fun hc _ => hnext.listed listed hc⟩
    have hmade := hnext.made
    rwa [Made,hc] at hmade

end Known

end CreateRace

/-- In every interleaving `createQueue` is all or nothing exactly when the owner is
still a user at its second check, and listed for a queue that was there before. -/
theorem createQueue_all_or_nothing_iff (qsettings : QueueSettings) (ownerId : Id) (n : Node)
    (users : UserBase) (listed : n.Listed qsettings.name) (events : List CreateEvent) :
    Runs.Along (CreateRace.step qsettings ownerId) (CreateRace.RightStep qsettings ownerId n)
        (CreateRace.start n users) events ↔
      Runs.Along (CreateRace.step qsettings ownerId) (CreateRace.Undisturbed qsettings ownerId)
        (CreateRace.start n users) events :=
  Runs.Along.iff (I := fun r => r.Known qsettings ownerId n)
    (fun _ e k => k.rightStep_iff listed e) (fun _ e k hu => k.step e hu)
    (.start qsettings ownerId n users) events

theorem Node.listed_empty (q : Str) : Node.empty.Listed q := by
  intro h
  simp [Node.HasQueue,Node.empty] at h

theorem createQueue_all_or_nothing_before_disconnect :
    Runs.Along (CreateRace.step ⟨[113]⟩ 1) (CreateRace.RightStep ⟨[113]⟩ 1 Node.empty)
      (CreateRace.start Node.empty (UserBase.create.append ⟨[],1⟩))
      [.createQueue,.createQueue,.createQueue,.onDisconnect,.createQueue,.onDisconnect] :=
  (createQueue_all_or_nothing_iff ⟨[113]⟩ 1 Node.empty (UserBase.create.append ⟨[],1⟩)
    (Node.listed_empty _) _).mpr (by decide +kernel)

/-- A client whose user is erased between the two checks. -/
def halfMade : CreateRace :=
  [CreateEvent.createQueue,.createQueue,.onDisconnect,.createQueue,.onDisconnect].foldl
    (CreateRace.step ⟨[113]⟩ 1) (CreateRace.start Node.empty (UserBase.create.append ⟨[],1⟩))

/-- `createQueue` throws, `onDisconnect` returns, and the queue stays behind without
a listener. -/
theorem createQueue_half_made :
    (halfMade.creating = .threw ∧ halfMade.leaving = .returned ∧ halfMade.node.HasQueue [113] ∧
      (halfMade.node.listeners [113]).isEmpty = true) ∧
    ¬ Runs.Along (CreateRace.step ⟨[113]⟩ 1) (CreateRace.RightStep ⟨[113]⟩ 1 Node.empty)
      (CreateRace.start Node.empty (UserBase.create.append ⟨[],1⟩))
      [.createQueue,.createQueue,.onDisconnect,.createQueue,.onDisconnect] := by
  have hend : halfMade.creating = .threw ∧ halfMade.leaving = .returned ∧
      halfMade.node.HasQueue [113] ∧ (halfMade.node.listeners [113]).isEmpty = true := by
    decide +kernel
  refine ⟨hend,fun h => ?_⟩
  obtain ⟨-,-,-,-,hlast,-⟩ := h
  have hthrow : halfMade.node = halfMade.leftAlone 1 Node.empty := hlast.throws hend.1
  have hqueue : ¬ (halfMade.leftAlone 1 Node.empty).HasQueue [113] := by decide +kernel
  exact hqueue (hthrow ▸ hend.2.2.1)

end Dqueue
