import Dqueue.Lib.Machines
import Dqueue.Lib.Runs

/-!
What a node is for, in its own terms: a broker of queues to which clients listen. It
knows which clients and queues there are and what each client is to each queue; maps,
queue ids and caches do not occur. The order of the clients matters in one place only,
where a tag cannot be compiled.
-/

set_option autoImplicit false

namespace Dqueue

inductive Role (T : Type) where
  | absent
  /-- It has made the queue and does not listen to it. -/
  | maker
  | listens (made : Bool) (tag : T)

/-- The tags of subscriptions, one of which lets all messages through. -/
structure Tags (T μ : Type) where
  any : T
  compile : T → Option (μ → Prop)

namespace Tags

variable {T μ : Type} (tags : Tags T μ)

def Matches (tag : T) (m : μ) : Prop :=
  tag = tags.any ∨ ∃ p, tags.compile tag = some p ∧ p m

def Broken (tag : T) : Prop := tag ≠ tags.any ∧ tags.compile tag = none

end Tags

@[ext]
structure Broker (Q C T : Type) where
  clients : Set C
  queues : Set Q
  role : Q → C → Role T

/-- `makes` lists a client as the one that has made a queue, which is not looked at. -/
inductive BrokerCall (Q C T μ : Type) where
  | admits (c : C)
  | dismisses (c : C)
  | compiles (tag : T)
  | creates (q : Q) (c : C)
  | makes (q : Q) (c : C)
  | subscribes (q : Q) (tag : T) (c : C)
  | unsubscribes (q : Q) (c : C)
  | leaves (c : C)
  | publishes (q : Q) (m : μ)

/-- What a call does that can be seen: the messages that are sent, and whether it is
refused. -/
@[ext]
structure BrokerAnswer (C μ : Type) where
  sent : Set (C × μ)
  refused : Prop

namespace Broker

open Classical

variable {Q C T μ : Type}

section Calls

variable [LT C] (host : C) (tags : Tags T μ) (b : Broker Q C T)

def start (clients : Set C) : Broker Q C T := ⟨clients,∅,fun _ _ => .absent⟩

noncomputable def setRole (q : Q) (c : C) (r : Role T) : Broker Q C T :=
  { b with role := fun q' c' => if q' = q ∧ c' = c then r else b.role q' c' }

def Role.listening (tag : T) : Role T → Role T
  | .absent => .listens false tag
  | .maker => .listens true tag
  | .listens made _ => .listens made tag

def Role.made : Role T → Role T
  | .absent => .maker
  | r => r

/-- With this client the queue goes: nobody else is listed, or the host listens to it and
has not made it. -/
def Deserted (c : C) (q : Q) : Prop :=
  b.role q c ≠ .absent ∧ ((∀ d, d ≠ c → b.role q d = .absent) ∨
    (c ≠ host ∧ ∃ tag, b.role q host = .listens false tag))

def BrokenAt (q : Q) (c : C) : Prop := ∃ made tag, b.role q c = .listens made tag ∧ tags.Broken tag

def Wants (q : Q) (m : μ) (c : C) : Prop :=
  ∃ made tag, b.role q c = .listens made tag ∧ tags.Matches tag m

noncomputable def next : BrokerCall Q C T μ → Broker Q C T
  | .admits c => { b with clients := insert c b.clients }
  | .dismisses c => { b with clients := b.clients \ {c} }
  | .compiles _ => b
  | .creates q c =>
    if c ∈ b.clients ∧ q ∉ b.queues then
      { b with queues := insert q b.queues }.setRole q c (Role.made (b.role q c))
    else b
  | .makes q c => if c ∈ b.clients then b.setRole q c (Role.made (b.role q c)) else b
  | .subscribes q tag c =>
    if c ∈ b.clients then b.setRole q c (Role.listening tag (b.role q c)) else b
  | .unsubscribes q c => if q ∈ b.queues ∧ c ∈ b.clients then b.setRole q c .absent else b
  | .leaves c =>
    { b with
      queues := {q | q ∈ b.queues ∧ ¬ b.Deserted host c q}
      role := fun q d => if d = c then .absent else b.role q d }
  | .publishes _ _ => b

def answer : BrokerCall Q C T μ → BrokerAnswer C μ
  | .admits _ => ⟨∅,False⟩
  | .dismisses c => ⟨∅,c ∉ b.clients⟩
  | .compiles tag => ⟨∅,tags.compile tag = none⟩
  | .creates _ c => ⟨∅,c ∉ b.clients⟩
  | .makes _ c => ⟨∅,c ∉ b.clients⟩
  | .subscribes _ _ c => ⟨∅,c ∉ b.clients⟩
  | .unsubscribes q c => ⟨∅,q ∈ b.queues ∧ c ∉ b.clients⟩
  | .leaves _ => ⟨∅,False⟩
  | .publishes q m =>
    ⟨{x | x.2 = m ∧ q ∈ b.queues ∧ b.Wants tags q m x.1 ∧ ∀ d, d < x.1 → ¬ b.BrokenAt tags q d},
      q ∈ b.queues ∧ ∃ d, b.BrokenAt tags q d⟩

noncomputable def gets (c : C) : BrokerCall Q C T μ → List μ
  | .publishes q m => if (c,m) ∈ (b.answer tags (.publishes q m)).sent then [m] else []
  | _ => []

noncomputable def inbox (c : C) (calls : List (BrokerCall Q C T μ)) : List μ :=
  Runs.collect (next host) (fun b => b.gets tags c) b calls

theorem inbox_append (c : C) (is js : List (BrokerCall Q C T μ)) :
    b.inbox host tags c (is ++ js) =
      b.inbox host tags c is ++ (is.foldl (next host) b).inbox host tags c js :=
  Runs.collect_append b is js

noncomputable def machine :
    Machine (Broker Q C T) (BrokerCall Q C T μ) (BrokerAnswer C μ) := ⟨next host,answer tags⟩

end Calls

end Broker

/-- The places of which a broker consists: is there this client, and is there this queue
and what are the clients to it. -/
inductive BrokerPlace (Q C : Type) where
  | client (c : C)
  | queue (q : Q)

namespace BrokerCall

variable {Q C T μ : Type}

def reads : BrokerCall Q C T μ → Set (BrokerPlace Q C)
  | .admits _ => ∅
  | .dismisses c => {.client c}
  | .compiles _ => ∅
  | .creates q c => {.client c,.queue q}
  | .makes q c => {.client c,.queue q}
  | .subscribes q _ c => {.client c,.queue q}
  | .unsubscribes q c => {.client c,.queue q}
  | .leaves _ => Set.range .queue
  | .publishes q _ => {.queue q}

def writes : BrokerCall Q C T μ → Set (BrokerPlace Q C)
  | .admits c => {.client c}
  | .dismisses c => {.client c}
  | .compiles _ => ∅
  | .creates q _ => {.queue q}
  | .makes q _ => {.queue q}
  | .subscribes q _ _ => {.queue q}
  | .unsubscribes q _ => {.queue q}
  | .leaves _ => Set.range .queue
  | .publishes _ _ => ∅

end BrokerCall

namespace Broker

variable {Q C T μ : Type}

def view (b : Broker Q C T) : BrokerPlace Q C → Prop × (C → Role T)
  | .client c => (c ∈ b.clients,fun _ => .absent)
  | .queue q => (q ∈ b.queues,b.role q)

variable {b b' : Broker Q C T}

theorem view_client {c : C} :
    b.view (.client c) = b'.view (.client c) ↔ (c ∈ b.clients ↔ c ∈ b'.clients) := by simp [view]

theorem view_queue {q : Q} : b.view (.queue q) = b'.view (.queue q) ↔
    (q ∈ b.queues ↔ q ∈ b'.queues) ∧ b.role q = b'.role q := by simp [view]

theorem view_setRole (b : Broker Q C T) (q : Q) (c : C) (r : Role T) {l : BrokerPlace Q C}
    (hl : l ≠ .queue q) : (b.setRole q c r).view l = b.view l := by
  cases l with
  | client d => rfl
  | queue p =>
    have hp : p ≠ q := fun h => hl (h ▸ rfl)
    simp [view,setRole,hp]

variable (host : C) (tags : Tags T μ)

theorem view_frame (b : Broker Q C T) (i : BrokerCall Q C T μ) (l : BrokerPlace Q C)
    (hl : l ∉ i.writes) : (b.next host i).view l = b.view l := by
  cases i with
  | admits c =>
    cases l with
    | client d =>
      have hd : d ≠ c := fun h => hl (h ▸ rfl)
      simp [view,next,hd]
    | queue q => rfl
  | dismisses c =>
    cases l with
    | client d =>
      have hd : d ≠ c := fun h => hl (h ▸ rfl)
      simp [view,next,hd]
    | queue q => rfl
  | compiles tag => rfl
  | creates q c =>
    simp only [next]
    split
    · rw [view_setRole _ q c _ hl]
      cases l with
      | client d => rfl
      | queue p =>
        have hp : p ≠ q := fun h => hl (h ▸ rfl)
        simp [view,hp]
    · rfl
  | makes q c =>
    simp only [next]
    split
    · exact view_setRole b q c _ hl
    · rfl
  | subscribes q tag c =>
    simp only [next]
    split
    · exact view_setRole b q c _ hl
    · rfl
  | unsubscribes q c =>
    simp only [next]
    split
    · exact view_setRole b q c _ hl
    · rfl
  | leaves c =>
    cases l with
    | client d => rfl
    | queue q => exact absurd ⟨q,rfl⟩ hl
  | publishes q m => rfl

theorem view_written (i : BrokerCall Q C T μ) (h : ∀ l ∈ i.reads, b.view l = b'.view l)
    (l : BrokerPlace Q C) (hl : l ∈ i.writes) :
    (b.next host i).view l = (b'.next host i).view l := by
  -- a call on one queue reads its client and this queue
  have hread : ∀ q c, i.reads = {.client c,.queue q} →
      (c ∈ b.clients ↔ c ∈ b'.clients) ∧ (q ∈ b.queues ↔ q ∈ b'.queues) ∧
        b.role q = b'.role q := by
    intro q c hi
    rw [hi] at h
    exact ⟨view_client.mp (h _ (by simp)),view_queue.mp (h _ (by simp))⟩
  cases i with
  | admits c =>
    obtain rfl : l = .client c := hl
    simp [view,next]
  | dismisses c =>
    obtain rfl : l = .client c := hl
    simp [view,next]
  | compiles tag => cases hl
  | creates q c =>
    obtain rfl : l = .queue q := hl
    obtain ⟨hc,hq,hrole⟩ := hread q c rfl
    by_cases hcond : c ∈ b'.clients ∧ q ∉ b'.queues
    · simp [view,next,setRole,hc,hq,hrole,hcond]
    · simp [view,next,hc,hq,hrole,hcond]
  | makes q c =>
    obtain rfl : l = .queue q := hl
    obtain ⟨hc,hq,hrole⟩ := hread q c rfl
    by_cases hcond : c ∈ b'.clients
    · simp [view,next,setRole,hc,hq,hrole,hcond]
    · simp [view,next,hc,hq,hrole,hcond]
  | subscribes q tag c =>
    obtain rfl : l = .queue q := hl
    obtain ⟨hc,hq,hrole⟩ := hread q c rfl
    by_cases hcond : c ∈ b'.clients
    · simp [view,next,setRole,hc,hq,hrole,hcond]
    · simp [view,next,hc,hq,hrole,hcond]
  | unsubscribes q c =>
    obtain rfl : l = .queue q := hl
    obtain ⟨hc,hq,hrole⟩ := hread q c rfl
    by_cases hcond : q ∈ b'.queues ∧ c ∈ b'.clients
    · simp [view,next,setRole,hc,hq,hrole,hcond]
    · simp [view,next,hc,hq,hrole,hcond]
  | leaves c =>
    obtain ⟨q,rfl⟩ := hl
    obtain ⟨hq,hrole⟩ := view_queue.mp (h (.queue q) ⟨q,rfl⟩)
    simp [view,next,Deserted,hq,hrole]
  | publishes q m => cases hl

variable [LT C]

theorem view_answer (i : BrokerCall Q C T μ) (h : ∀ l ∈ i.reads, b.view l = b'.view l) :
    b.answer tags i = b'.answer tags i := by
  have hclient : ∀ c, .client c ∈ i.reads → (c ∈ b.clients ↔ c ∈ b'.clients) :=
    fun c hc => view_client.mp (h _ hc)
  cases i with
  | admits c => rfl
  | dismisses c => simp [answer,hclient c rfl]
  | compiles tag => rfl
  | creates q c => simp [answer,hclient c (.inl rfl)]
  | makes q c => simp [answer,hclient c (.inl rfl)]
  | subscribes q tag c => simp [answer,hclient c (.inl rfl)]
  | unsubscribes q c =>
    have hq := (view_queue.mp (h (.queue q) (.inr rfl))).1
    simp [answer,hclient c (.inl rfl),hq]
  | leaves c => rfl
  | publishes q m =>
    obtain ⟨hq,hrole⟩ := view_queue.mp (h (.queue q) rfl)
    simp [answer,Wants,BrokenAt,hq,hrole]

theorem footprint : (machine host tags : Machine (Broker Q C T) _ _).Footprint view
    BrokerCall.reads BrokerCall.writes where
  ext b b' h := by
    refine Broker.ext ?_ ?_ ?_
    · ext c
      exact view_client.mp (h (.client c))
    · ext q
      exact (view_queue.mp (h (.queue q))).1
    · funext q
      exact (view_queue.mp (h (.queue q))).2
  frame b i l hl := view_frame host b i l hl
  written _ _ i h l hl := view_written host i h l hl
  answer _ _ i h := view_answer tags i h

end Broker

end Dqueue
