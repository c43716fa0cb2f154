import Dqueue.LateMessages
import Dqueue.NodeDelivery

/-!
One `publish` while other clients disconnect on another thread. The listeners are
copied under one lock, the connection list is guarded by another and the pointer
of a connection by none, so a disconnect may fall between any two deliveries.
-/

set_option autoImplicit false

namespace Dqueue
open Std Effects RawMem AsyncIO Queries

/-- Who has called `publish`: the handler of a PUBLISH request, which sends the
OK afterwards, or the server's own interface. -/
inductive Caller where
  | request (i : ClientConnection) (messageId : UInt64)
  | own
  deriving DecidableEq, Repr

def Caller.author : Caller → Option ClientConnection
  | .request i _ => some i
  | .own => none

/-- `left` has the listeners of the local copy that are still to be served;
`outcome` tells how the caller has ended, once it has. -/
structure Race where
  server : Server
  left : List (Id × QueueListener)
  outcome : Option (Except Failure Unit)

inductive RaceEvent where
  /-- The next delivery, or the answer after the last one. -/
  | next
  /-- `close` resets the pointer of a connection. -/
  | reset (j : ClientConnection)
  /-- It goes on with `erase_client_description`. -/
  | erase (j : ClientConnection)
  deriving DecidableEq, Repr

section Race

variable (regex : RegexCompiler) (p : PublishParams) (rd : Bytes) (caller : Caller)

def Caller.answer : ServerM Unit :=
  match caller with
  | .request i n => Server.acknowledge i (.publish ⟨p.queueName,p.tag,n,rd⟩) n
  | .own => pure ()

namespace Race

def start (s : Server) : Race :=
  ⟨{ s with node := (s.node.localCopy p.queueName).1 },(s.node.localCopy p.queueName).2,none⟩

def next (r : Race) : Race :=
  match r.outcome,r.left with
  | some _, _ => r
  | none, x :: left =>
    match Server.deliver regex p rd [x] r.server with
    | .ok _ s => ⟨s,left,none⟩
    | .error f s => ⟨s,left,some (.error f)⟩
  | none, [] =>
    match caller.answer p rd r.server with
    | .ok _ s => ⟨s,[],some (.ok ())⟩
    | .error f s => ⟨s,[],some (.error f)⟩

def step (r : Race) : RaceEvent → Race
  | .next => r.next regex p rd caller
  | .reset j => { r with server := { r.server with closed := j.socket :: r.server.closed } }
  | .erase j =>
    if j.socket ∈ r.server.closed ∧ j ∈ r.server.connections then
      { r with server := final (Server.eraseClientDescription j r.server) }
    else r

end Race

def Race.Ended (r : Race) (res : EStateM.Result Failure Server Unit) : Prop :=
  r.server = final res ∧
    r.outcome = some (match res with
      | .ok _ _ => .ok ()
      | .error f _ => .error f)

theorem Race.next_ended {r : Race} {o : Except Failure Unit} (h : r.outcome = some o) :
    r.next regex p rd caller = r := by
  unfold Race.next
  rw [h]

theorem Race.alone (s : Server) (left : List (Id × QueueListener)) :
    ((List.replicate (left.length+1) RaceEvent.next).foldl (Race.step regex p rd caller)
      ⟨s,left,none⟩).Ended
        ((do Server.deliver regex p rd left; caller.answer p rd : ServerM Unit) s) := by
  have hend : ∀ (n : Nat) (r : Race) (o : Except Failure Unit), r.outcome = some o →
      (List.replicate n RaceEvent.next).foldl (Race.step regex p rd caller) r = r := by
    intro n
    induction n with
    | zero => exact fun r o h => rfl
    | succ n ih =>
      intro r o h
      rw [List.replicate_succ,List.foldl_cons,Race.step,Race.next_ended regex p rd caller h]
      exact ih r o h
  induction left generalizing s with
  | nil =>
    have hnil : Server.deliver regex p rd [] s = .ok () s := rfl
    simp only [bind_apply,hnil]
    simp only [List.length_nil,Nat.zero_add,List.replicate_one,List.foldl_cons,List.foldl_nil,
      Race.step,Race.next]
    cases caller.answer p rd s <;> exact ⟨rfl,rfl⟩
  | cons x left ih =>
    rw [List.length_cons,List.replicate_succ,List.foldl_cons]
    simp only [bind_apply,Server.deliver_cons p rd x left s]
    simp only [Race.step,Race.next]
    cases Server.deliver regex p rd [x] s with
    | ok a s' =>
      have h := ih s'
      rw [bind_apply] at h
      exact h
    | error f s' =>
      rw [hend _ _ (.error f) rfl]
      exact ⟨rfl,rfl⟩

def isCopy : Message → Bool
  | .publish q => q.qname == p.queueName && q.tag == p.tag && q.data == rd
  | _ => false

def copies (s : Server) (socket : Nat) : Nat :=
  s.outbox.countP (fun x => x.1 == socket && isCopy p rd x.2)

def Caller.oks (s : Server) : Nat :=
  match caller with
  | .request i n => s.outbox.count (i.socket,.ok ⟨n⟩)
  | .own => 0

/-- The publish that started in `s` has survived: no reset pointer was followed,
each target that is still connected has got one copy, and the request its OK. -/
structure Race.Survives (s : Server) (r : Race) : Prop where
  pointer : r.outcome ≠ some (.error .nullDereference)
  clients : ∀ x ∈ (s.node.localCopy p.queueName).2, x.2.isTarget regex p.tag = true →
    ∀ j ∈ s.connections, j.id = x.1 → j.socket ∉ r.server.closed →
      copies p rd r.server j.socket = copies p rd s j.socket+1
  server : ∀ x ∈ (s.node.localCopy p.queueName).2, x.2.isTarget regex p.tag = true →
    x.1 = ServerID →
      r.server.consumed.count (p,rd,ServerID) = s.consumed.count (p,rd,ServerID)+1
  answered : caller ≠ .own → caller.oks r.server = caller.oks s+1

/-- The listener that is served next has a tag that can be compiled and is not a
target whose disconnect has begun. -/
def Race.InTime (s : Server) (r : Race) (e : RaceEvent) : Prop :=
  e = .next → r.outcome = none → ∀ x ∈ r.left.head?, ¬ x.2.Broken regex ∧
    (x.2.isTarget regex p.tag = true → ∀ j ∈ s.connections, j.id = x.1 →
      j.socket ∉ r.server.closed)

instance (s : Server) (r : Race) (e : RaceEvent) : Decidable (r.InTime regex p s e) :=
  inferInstanceAs (Decidable (_ → _))

variable {regex p rd caller}

structure Served (regex : RegexCompiler) (p : PublishParams) (rd : Bytes)
    (conns : List ClientConnection) (done : List (Id × QueueListener)) (s s' : Server) : Prop where
  clients : ∀ j ∈ conns, copies p rd s' j.socket = copies p rd s j.socket+
    done.countP (fun x => x.2.isTarget regex p.tag && x.1 == j.id)
  server : s'.consumed.count (p,rd,ServerID) = s.consumed.count (p,rd,ServerID)+
    done.countP (fun x => x.2.isTarget regex p.tag && x.1 == ServerID)

theorem Served.of_eq {conns : List ClientConnection} {s s' : Server} (outbox : s'.outbox = s.outbox)
    (consumed : s'.consumed = s.consumed) : Served regex p rd conns [] s s' := by
  refine ⟨fun j _ => ?_,by simp [consumed]⟩
  simp [copies,outbox]

theorem Served.append {conns : List ClientConnection} {xs ys : List (Id × QueueListener)}
    {s s' s'' : Server} (h : Served regex p rd conns xs s s')
    (h' : Served regex p rd conns ys s' s'') :
    Served regex p rd conns (xs ++ ys) s s'' := by
  refine ⟨fun j hj => ?_,?_⟩
  · rw [h'.clients j hj,h.clients j hj,List.countP_append,Nat.add_assoc]
  · rw [h'.server,h.server,List.countP_append,Nat.add_assoc]

structure Remains (regex : RegexCompiler) (s s' : Server) : Prop where
  only : ∀ j ∈ s'.connections, j ∈ s.connections
  kept : ∀ j ∈ s.connections, j.socket ∉ s'.closed → j ∈ s'.connections
  sound : ReCache.Sound regex s'.cache

theorem Remains.of_eq {s s₁ s₂ : Server} (h : Remains regex s s₁)
    (connections : s₂.connections = s₁.connections) (closed : s₂.closed = s₁.closed)
    (sound : ReCache.Sound regex s₂.cache) : Remains regex s s₂ := by
  refine ⟨fun j hj => h.only j (connections ▸ hj),fun j hj hc => ?_,sound⟩
  rw [connections]
  exact h.kept j hj (closed ▸ hc)

structure Undisturbed (regex : RegexCompiler) (s s' : Server) : Prop where
  connections : s'.connections = s.connections
  closed : s'.closed = s.closed
  sound : ReCache.Sound regex s'.cache
  answers : ∀ socket n, s'.outbox.count (socket,.ok ⟨n⟩) = s.outbox.count (socket,.ok ⟨n⟩)

section Books

variable {l : ServerLog} (h : l.Books) (few : l.Few)
include h few

theorem ServerLog.Books.find_remains {s : Server} (hr : Remains regex l.server s)
    {j : ClientConnection} (hj : j ∈ l.server.connections) :
    (s.connections.find? (fun c => c.id == j.id) = some j ∧ j ∈ s.connections) ∨
      (s.connections.find? (fun c => c.id == j.id) = none ∧ j.socket ∈ s.closed) := by
  have hacc := fun k (hk : k ∈ l.server.connections) => (h.mem_connections.mp hk).1
  cases hf : s.connections.find? (fun c => c.id == j.id) with
  | none =>
    right
    refine ⟨rfl,?_⟩
    by_contra hc
    exact absurd (List.find?_eq_none.mp hf j (hr.kept j hj hc)) (by simp)
  | some c =>
    left
    have hmem := List.mem_of_find?_eq_some hf
    have hid : c.id = j.id := by simpa using List.find?_some hf
    have hcj : c = j := h.id_inj few (hacc c (hr.only c hmem)) (hacc j hj) hid
    exact ⟨by rw [hcj],hcj ▸ hmem⟩

theorem ServerLog.Books.socket_eq {i j : ClientConnection} (hi : i ∈ l.server.connections)
    (hj : j ∈ l.server.connections) : i.socket = j.socket ↔ i.id = j.id := by
  have hi' := (h.mem_connections.mp hi).1
  have hj' := (h.mem_connections.mp hj).1
  refine ⟨fun he => ?_,fun he => congrArg ClientConnection.socket (h.id_inj few hi' hj' he)⟩
  rw [(h.mem_accepted hi').1,(h.mem_accepted hj').1,he]

/-- One delivery while some of the disconnects have begun: it succeeds for a
target that is still connected, and otherwise gives nobody a copy. -/
theorem ServerLog.Books.deliver_race {s : Server} (hr : Remains regex l.server s) {n : UInt64}
    (hs : Message.Sendable (.publish ⟨p.queueName,p.tag,n,rd⟩)) {x : Id × QueueListener}
    (hx : l.server.users.exists x.1 = true) :
    Undisturbed regex s (final (Server.deliver regex p rd [x] s)) ∧
      if ¬ x.2.Broken regex ∧ (x.2.isTarget regex p.tag = true → ∀ j ∈ l.server.connections,
          j.id = x.1 → j.socket ∉ s.closed) then
        ∃ s', Server.deliver regex p rd [x] s = .ok () s' ∧
          Served regex p rd l.server.connections [x] s s'
      else ∃ f s', Server.deliver regex p rd [x] s = .error f s' := by
  have hone := Server.deliver_one hr.sound p rd x
  generalize Server.deliver regex p rd [x] s = res at hone ⊢
  cases hone with
  | @skipped cache sound target tag =>
    refine ⟨⟨rfl,rfl,sound,fun _ _ => rfl⟩,?_⟩
    rw [if_pos ⟨tag,by simp [target]⟩]
    refine ⟨_,rfl,fun j _ => ?_,?_⟩
    · simp [copies,target]
    · simp [target]
  | @broken e target tag =>
    refine ⟨⟨rfl,rfl,hr.sound,fun _ _ => rfl⟩,?_⟩
    rw [if_neg fun hb => hb.1 tag]
    exact ⟨_,_,rfl⟩
  | @sent cache sound target tag =>
    rcases (h.users x.1).mp hx with hid | ⟨j,hj,hid⟩
    · have hne : ∀ j ∈ l.server.connections, j.id ≠ ServerID := fun j hj =>
        h.id_ne_server few (h.mem_connections.mp hj).1
      rw [hid,Server.onSendToClient_server]
      refine ⟨⟨rfl,rfl,sound,fun _ _ => rfl⟩,?_⟩
      rw [if_pos ⟨tag,fun _ j hj he => absurd he (hne j hj)⟩]
      refine ⟨_,rfl,fun j hj => ?_,?_⟩
      · simp [copies,hid,(hne j hj).symm]
      · simp [target,hid]
    · have hne : x.1 ≠ ServerID := hid ▸ h.id_ne_server few (h.mem_connections.mp hj).1
      have huniq : (∀ k ∈ l.server.connections, k.id = x.1 → k.socket ∉ s.closed) ↔
          j.socket ∉ s.closed := by
        refine ⟨fun hk => hk j hj hid,fun hc k hk he => ?_⟩
        rwa [(h.socket_eq few hk hj).mpr (he.trans hid.symm)]
      rw [Server.onSendToClient_run hne (Server.sendable_id hs)]
      simp only [target,true_implies,huniq]
      rcases h.find_remains few hr hj with ⟨hf,-⟩ | ⟨hf,hc⟩
      · rw [hid] at hf
        simp only [hf]
        by_cases hc : j.socket ∈ s.closed
        · simp only [hc,if_true,not_true_eq_false,and_false,if_false]
          exact ⟨⟨rfl,rfl,sound,fun _ _ => rfl⟩,_,_,rfl⟩
        · simp only [hc,if_false,not_false_eq_true,and_true,tag,if_true]
          refine ⟨⟨rfl,rfl,sound,fun socket n => ?_⟩,_,rfl,fun k hk => ?_,?_⟩
          · simp [List.count_append]
          · have hsock := h.socket_eq few hj hk
            by_cases he : j.id = k.id
            · simp [copies,isCopy,hsock,target,← hid,he]
            · simp [copies,isCopy,hsock,← hid,he]
          · simp [hne]
      · rw [hid] at hf
        simp only [hf,hc,not_true_eq_false,and_false,if_false]
        exact ⟨⟨rfl,rfl,sound,fun _ _ => rfl⟩,_,_,rfl⟩

end Books

def Caller.Connected (caller : Caller) (s : Server) : Prop :=
  ∀ i ∈ caller.author, i ∈ s.connections

instance (caller : Caller) (s : Server) : Decidable (caller.Connected s) :=
  inferInstanceAs (Decidable (∀ i ∈ caller.author, i ∈ s.connections))

def Caller.Other (caller : Caller) (s : Server) (_ : Race) : RaceEvent → Prop
  | .reset j => j ∈ s.connections ∧ some j ≠ caller.author
  | _ => True

instance (s : Server) (r : Race) : ∀ e, Decidable (caller.Other s r e)
  | .next => isTrue trivial
  | .reset j => inferInstanceAs (Decidable (j ∈ s.connections ∧ some j ≠ caller.author))
  | .erase _ => isTrue trivial

structure Race.Track (regex : RegexCompiler) (p : PublishParams) (rd : Bytes) (caller : Caller)
    (s : Server) (d : List RaceEvent) (r : Race) : Prop where
  remains : Remains regex s r.server
  author : ∀ i ∈ caller.author, i.socket ∉ r.server.closed
  running : r.outcome = none → ∃ done, (s.node.localCopy p.queueName).2 = done ++ r.left ∧
    done.length = d.count .next ∧ Served regex p rd s.connections done s r.server
  returned : r.outcome = some (.ok ()) →
    Served regex p rd s.connections (s.node.localCopy p.queueName).2 s r.server
  answered : r.outcome = some (.ok ()) → caller ≠ .own → caller.oks r.server = caller.oks s+1
  unanswered : r.outcome ≠ some (.ok ()) → caller.oks r.server = caller.oks s

def Race.Failed (r : Race) : Prop := ∃ f, r.outcome = some (.error f)

theorem Race.Failed.step {r : Race} (h : r.Failed) (e : RaceEvent) :
    (r.step regex p rd caller e).Failed := by
  obtain ⟨f,hf⟩ := h
  cases e with
  | next => exact ⟨f,by rw [Race.step,Race.next_ended regex p rd caller hf,hf]⟩
  | reset j => exact ⟨f,hf⟩
  | erase j =>
    rw [Race.step]
    split
    · exact ⟨f,hf⟩
    · exact ⟨f,hf⟩

theorem Caller.answer_run (p : PublishParams) (rd : Bytes) {s : Server}
    (hopen : ∀ i ∈ caller.author, i.socket ∉ s.closed) :
    ∃ s', caller.answer p rd s = .ok () s' ∧ s'.connections = s.connections ∧
      s'.closed = s.closed ∧ s'.cache = s.cache ∧ s'.consumed = s.consumed ∧
      (∀ socket, copies p rd s' socket = copies p rd s socket) ∧
      (caller ≠ .own → caller.oks s' = caller.oks s+1) := by
  cases caller with
  | own => exact ⟨s,rfl,rfl,rfl,rfl,rfl,fun _ => rfl,by simp⟩
  | request i n =>
    refine ⟨_,Server.acknowledge_run (hopen i rfl) _ n,rfl,rfl,rfl,rfl,fun socket => ?_,fun _ => ?_⟩
    · simp [copies,isCopy]
    · simp [Caller.oks]

theorem Caller.oks_eq (caller : Caller) {s s' : Server}
    (h : ∀ socket n, s'.outbox.count (socket,.ok ⟨n⟩) = s.outbox.count (socket,.ok ⟨n⟩)) :
    caller.oks s' = caller.oks s := by
  cases caller with
  | own => rfl
  | request i n => exact h i.socket n

theorem Race.Track.quiet {s : Server} {d : List RaceEvent} {r r' : Race} {e : RaceEvent}
    (t : r.Track regex p rd caller s d) (outcome : r'.outcome = r.outcome) (left : r'.left = r.left)
    (outbox : r'.server.outbox = r.server.outbox)
    (consumed : r'.server.consumed = r.server.consumed)
    (he : e ≠ .next) (remains : Remains regex s r'.server)
    (author : ∀ i ∈ caller.author, i.socket ∉ r'.server.closed) :
    r'.Track regex p rd caller s (d ++ [e]) ∧
      (¬ r.Failed → (r'.Failed ↔ ¬ r.InTime regex p s e)) := by
  have hoks : caller.oks r'.server = caller.oks r.server :=
    caller.oks_eq fun _ _ => by rw [outbox]
  have hsame : Served regex p rd s.connections [] r.server r'.server := .of_eq outbox consumed
  have hintime : r.InTime regex p s e := fun hn => absurd hn he
  refine ⟨⟨remains,author,fun hn => ?_,fun hn => ?_,?_,?_⟩,fun hf => ?_⟩
  · obtain ⟨done,hcopy,hlen,hserved⟩ := t.running (outcome ▸ hn)
    refine ⟨done,left ▸ hcopy,?_,by simpa using hserved.append hsame⟩
    rw [List.count_append,List.count_singleton,if_neg (by simpa using he),hlen,Nat.add_zero]
  · simpa using (t.returned (outcome ▸ hn)).append hsame
  · rw [outcome,hoks]
    exact t.answered
  · rw [outcome,hoks]
    exact t.unanswered
  · rw [Race.Failed,outcome]
    exact ⟨fun hf' => absurd hf' hf,fun hn => absurd hintime hn⟩

section Track

variable {l : ServerLog} (h : l.Books) (few : l.Few)
include h few

omit few in
theorem ServerLog.Books.localCopy_user {x : Id × QueueListener} {q : Str}
    (hx : x ∈ (l.server.node.localCopy q).2) : l.server.users.exists x.1 = true := by
  refine h.listeners q x.1 ?_
  rw [(Node.mem_localCopy.mp hx).2]
  simp

theorem Race.Track.next {n : UInt64} (hs : Message.Sendable (.publish ⟨p.queueName,p.tag,n,rd⟩))
    {d : List RaceEvent} {r : Race} (t : r.Track regex p rd caller l.server d) :
    (r.next regex p rd caller).Track regex p rd caller l.server (d ++ [.next]) ∧
      (¬ r.Failed → ((r.next regex p rd caller).Failed ↔ ¬ r.InTime regex p l.server .next)) := by
  cases ho : r.outcome with
  | some o =>
    have hintime : r.InTime regex p l.server .next :=
      fun _ hn => absurd (ho.symm.trans hn) (by simp)
    rw [Race.next_ended regex p rd caller ho]
    refine ⟨⟨t.remains,t.author,fun hn => ?_,t.returned,t.answered,t.unanswered⟩,fun hf => ?_⟩
    · rw [ho] at hn
      cases hn
    · exact ⟨fun hf' => absurd hf' hf,fun hn => absurd hintime hn⟩
  | none =>
    obtain ⟨done,hcopy,hlen,hserved⟩ := t.running ho
    have hoks := t.unanswered (by simp [ho])
    cases hl : r.left with
    | nil =>
      obtain ⟨s',hrun,hcon,hclosed,hcache,hcons,hcopies,hok⟩ :=
        Caller.answer_run p rd t.author
      have hnext : r.next regex p rd caller = ⟨s',[],some (.ok ())⟩ := by
        simp only [Race.next,ho,hl,hrun]
      have hintime : r.InTime regex p l.server .next := by
        intro _ _ x hx
        simp [hl] at hx
      rw [hnext]
      refine ⟨⟨t.remains.of_eq hcon hclosed (hcache ▸ t.remains.sound),?_,by simp,fun _ => ?_,
        fun _ hown => ?_,by simp⟩,fun _ => ⟨?_,fun hn => absurd hintime hn⟩⟩
      · intro i hi
        rw [hclosed]
        exact t.author i hi
      · rw [hcopy,hl,List.append_nil]
        exact ⟨fun j hj => by rw [hcopies,hserved.clients j hj],by rw [hcons,hserved.server]⟩
      · rw [hok hown,hoks]
      · rintro ⟨f,hf⟩
        cases hf
    | cons x left =>
      have hmem : x ∈ (l.server.node.localCopy p.queueName).2 := by
        rw [hcopy,hl]
        simp
      obtain ⟨hq,hcases⟩ := h.deliver_race few t.remains hs (h.localCopy_user hmem)
      have hremains := t.remains.of_eq hq.connections hq.closed hq.sound
      have hauthor : ∀ i ∈ caller.author,
          i.socket ∉ (final (Server.deliver regex p rd [x] r.server)).closed := by
        intro i hi
        rw [hq.closed]
        exact t.author i hi
      have hans := (caller.oks_eq hq.answers).trans hoks
      have hintime : r.InTime regex p l.server .next ↔ (¬ x.2.Broken regex ∧
          (x.2.isTarget regex p.tag = true → ∀ j ∈ l.server.connections, j.id = x.1 →
            j.socket ∉ r.server.closed)) := by
        simp [Race.InTime,ho,hl]
      rw [hintime]
      split at hcases
      · rename_i hgood
        obtain ⟨s',hrun,hone⟩ := hcases
        rw [hrun] at hremains hauthor hans
        have hnext : r.next regex p rd caller = ⟨s',left,none⟩ := by
          simp only [Race.next,ho,hl,hrun]
        rw [hnext]
        refine ⟨⟨hremains,hauthor,fun _ => ⟨done ++ [x],?_,?_,hserved.append hone⟩,by simp,
          by simp,fun _ => hans⟩,fun _ => ⟨?_,fun hn => absurd hgood hn⟩⟩
        · rw [hcopy,hl]
          simp
        · simp [hlen]
        · rintro ⟨f,hf⟩
          cases hf
      · rename_i hbad
        obtain ⟨f,s',hrun⟩ := hcases
        rw [hrun] at hremains hauthor hans
        have hnext : r.next regex p rd caller = ⟨s',left,some (.error f)⟩ := by
          simp only [Race.next,ho,hl,hrun]
        rw [hnext]
        exact ⟨⟨hremains,hauthor,by simp,by simp,by simp,fun _ => hans⟩,
          fun _ => ⟨fun _ => hbad,fun _ => ⟨f,rfl⟩⟩⟩

theorem Race.Track.step {n : UInt64} (hs : Message.Sendable (.publish ⟨p.queueName,p.tag,n,rd⟩))
    {d : List RaceEvent} {r : Race} {e : RaceEvent} (t : r.Track regex p rd caller l.server d)
    (hc : caller.Connected l.server) (ho : caller.Other l.server r e) :
    (r.step regex p rd caller e).Track regex p rd caller l.server (d ++ [e]) ∧
      (¬ r.Failed → ((r.step regex p rd caller e).Failed ↔ ¬ r.InTime regex p l.server e)) := by
  cases e with
  | next => exact t.next h few hs
  | reset j =>
    refine t.quiet rfl rfl rfl rfl (by simp)
      ⟨t.remains.only,fun k hk hkc => ?_,t.remains.sound⟩ fun i hi => ?_
    · exact t.remains.kept k hk fun hkc' => hkc (List.mem_cons_of_mem _ hkc')
    · have hne : i.socket ≠ j.socket := by
        intro he
        have hji : j = i := h.id_inj few (h.mem_connections.mp ho.1).1
          (h.mem_connections.mp (hc i hi)).1 ((h.socket_eq few ho.1 (hc i hi)).mp he.symm)
        exact ho.2 (hji ▸ hi.symm)
      exact fun hm => (List.mem_cons.mp hm).elim hne (t.author i hi)
  | erase j =>
    by_cases hj : j.socket ∈ r.server.closed ∧ j ∈ r.server.connections
    · rw [Race.step,if_pos hj]
      have hf : final (Server.eraseClientDescription j r.server) = r.server ∨
          ∃ users node, final (Server.eraseClientDescription j r.server) = { r.server with
            users := users
            node := node
            connections := r.server.connections.eraseP (fun c => c.id == j.id) } := by
        simp only [Server.eraseClientDescription,Server.onDisconnect,bind_apply,get_apply]
        cases r.server.users.erase j.id with
        | error e => exact .inl rfl
        | ok users => exact .inr ⟨_,_,rfl⟩
      rcases hf with hf | ⟨users,node,hf⟩
      · rw [hf]
        exact t.quiet rfl rfl rfl rfl (by simp) t.remains t.author
      · rw [hf]
        refine t.quiet rfl rfl rfl rfl (by simp)
          ⟨fun k hk => t.remains.only k (List.mem_of_mem_eraseP hk),fun k hk hkc => ?_,
            t.remains.sound⟩ t.author
        -- another connection has another id
        have hne : k.id ≠ j.id := by
          intro he
          rw [(h.socket_eq few hk (t.remains.only j hj.2)).mpr he] at hkc
          exact hkc hj.1
        exact (List.mem_eraseP_of_neg (by simpa using hne)).mpr (t.remains.kept k hk hkc)
    · rw [Race.step,if_neg hj]
      exact t.quiet rfl rfl rfl rfl (by simp) t.remains t.author

omit few in
theorem Race.Track.start (sound : ReCache.Sound regex l.server.cache)
    (hc : caller.Connected l.server) :
    (Race.start p l.server).Track regex p rd caller l.server [] := by
  refine ⟨⟨fun j hj => hj,fun j hj _ => hj,sound⟩,fun i hi => ?_,fun _ => ?_,?_,?_,fun _ => ?_⟩
  · exact (h.mem_connections.mp (hc i hi)).2
  · exact ⟨[],rfl,rfl,.of_eq rfl rfl⟩
  · intro hn
    cases hn
  · intro hn
    cases hn
  · exact caller.oks_eq fun _ _ => rfl

omit h few in
theorem Race.Track.survives {d : List RaceEvent} {r : Race}
    (t : r.Track regex p rd caller l.server d) (hf : ¬ r.Failed)
    (complete : (l.server.node.localCopy p.queueName).2.length < d.count .next) :
    r.Survives regex p rd caller l.server := by
  have hret : r.outcome = some (.ok ()) := by
    cases ho : r.outcome with
    | none =>
      obtain ⟨done,hcopy,hlen,-⟩ := t.running ho
      rw [hcopy,List.length_append] at complete
      omega
    | some o =>
      cases o with
      | ok u => rfl
      | error f => exact absurd ⟨f,ho⟩ hf
  have hserved := t.returned hret
  -- a listener occurs once in the copy
  have honce : ∀ x ∈ (l.server.node.localCopy p.queueName).2, x.2.isTarget regex p.tag = true →
      (l.server.node.localCopy p.queueName).2.countP
        (fun y => y.2.isTarget regex p.tag && y.1 == x.1) = 1 := by
    intro x hx ht
    have hkey := filter_key (Node.nodup_localCopy l.server.node p.queueName)
      (a := x.1) (b := x.2) hx
    have hcount := List.countP_filter (p := fun y => y.2.isTarget regex p.tag)
      (q := fun y => decide (y.1 = x.1)) (l := (l.server.node.localCopy p.queueName).2)
    rw [hkey] at hcount
    simp only [beq_eq_decide]
    simpa [ht] using hcount.symm
  refine ⟨by simp [hret],fun x hx ht j hj hid _ => ?_,fun x hx ht hid => ?_,t.answered hret⟩
  · rw [hserved.clients j hj,hid,honce x hx ht]
  · have hone := honce x hx ht
    rw [hid] at hone
    rw [hserved.server,hone]

end Track

end Race

/-- A publish that runs to its end while other clients disconnect survives when
each listener is served in time, and one that a client has asked for only then. -/
theorem publish_survives {regex : RegexCompiler} (cache : ReCache)
    (sound : ReCache.Sound regex cache) (events : List ServerEvent) {l : ServerLog}
    (run : l = (ServerLog.start cache).run regex events)
    (refused : Runs.Along (ServerLog.step regex) (ServerLog.LateRefused regex)
      (ServerLog.start cache) events)
    (few : l.accepted.length < 2^31-1) {p : PublishParams} {rd : Bytes} {n : UInt64}
    (sendable : Message.Sendable (.publish ⟨p.queueName,p.tag,n,rd⟩)) {caller : Caller}
    (connected : caller.Connected l.server) (es : List RaceEvent)
    (others : Runs.Along (Race.step regex p rd caller) (caller.Other l.server)
      (Race.start p l.server) es)
    (complete : (l.server.node.localCopy p.queueName).2.length < es.count .next) {r : Race}
    (race : r = es.foldl (Race.step regex p rd caller) (Race.start p l.server)) :
    (Runs.Along (Race.step regex p rd caller) (Race.InTime regex p l.server)
      (Race.start p l.server) es → r.Survives regex p rd caller l.server) ∧
    (caller ≠ .own → r.Survives regex p rd caller l.server →
      Runs.Along (Race.step regex p rd caller) (Race.InTime regex p l.server)
        (Race.start p l.server) es) := by
  have h : l.Books := run ▸ ServerLog.run_late refused (run ▸ few)
  have hsound : ReCache.Sound regex l.server.cache := run ▸ ServerLog.run_sound sound events
  have hstart : (Race.start p l.server).Track regex p rd caller l.server [] :=
    .start h hsound connected
  have htrack : r.Track regex p rd caller l.server es := by
    have hrun := others.history (P := fun d r => r.Track regex p rd caller l.server d)
      (fun d r e t ho => (t.step h few sendable connected ho).1) hstart
    rw [race]
    simpa using hrun
  have hiff : Runs.Along (Race.step regex p rd caller) (Race.InTime regex p l.server)
      (Race.start p l.server) es ↔ ¬ r.Failed := by
    rw [race]
    refine others.iff_not_failed (I := fun r => ∃ d, r.Track regex p rd caller l.server d)
      (fun r e ⟨d,t⟩ ho => ⟨_,(t.step h few sendable connected ho).1⟩)
      (fun r e ⟨d,t⟩ ho hf => (t.step h few sendable connected ho).2 hf)
      (fun r e hf => hf.step e) ⟨[],hstart⟩ ?_
    rintro ⟨f,hf⟩
    cases hf
  refine ⟨fun hin => htrack.survives (hiff.mp hin) complete,fun hown hsurv => ?_⟩
  rw [hiff]
  rintro ⟨f,hf⟩
  have hno := htrack.unanswered (by simp [hf])
  have hyes := hsurv.answered hown
  omega

def twoSubscribers : List ServerEvent :=
  [.accept,.accept,.accept,.message 0 (received (Message.wire (.createQueue ⟨[113],0⟩))),
    .message 1 (received (Message.wire (.subscribe ⟨[113],[],0⟩))),
    .message 2 (received (Message.wire (.subscribe ⟨[113],[],0⟩)))]

theorem publish_survives_late_disconnect :
    ([.next,.next,.reset ⟨1,1⟩,.erase ⟨1,1⟩,.next,.next].foldl
        (Race.step literal ⟨[113],[]⟩ [1] (.request ⟨0,0⟩ 1))
        (Race.start ⟨[113],[]⟩ ((ServerLog.start ∅).run literal twoSubscribers).server)).Survives
      literal ⟨[113],[]⟩ [1] (.request ⟨0,0⟩ 1)
        ((ServerLog.start ∅).run literal twoSubscribers).server := by
  have hopen : Runs.Along (ServerLog.step literal) ServerLog.Open (ServerLog.start ∅)
      twoSubscribers := by decide +kernel
  exact (publish_survives ∅ .empty twoSubscribers rfl (hopen.imp fun l e h => h.lateRefused)
    (by decide +kernel) (n := 1) (by decide) (by decide +kernel)
    [.next,.next,.reset ⟨1,1⟩,.erase ⟨1,1⟩,.next,.next] (by decide +kernel) (by decide +kernel)
    rfl).1 (by decide +kernel)

/-- The first subscriber's pointer is reset before it is served: the pointer is
followed, the second subscriber gets no copy and the request no OK. -/
theorem publish_follows_null :
    ¬ (∀ (events : List ServerEvent) (l : ServerLog),
      l = (ServerLog.start ∅).run literal events →
      Runs.Along (ServerLog.step literal) ServerLog.Open (ServerLog.start ∅) events →
      ∀ (p : PublishParams) (rd : Bytes) (caller : Caller), caller.Connected l.server →
      ∀ es : List RaceEvent, Runs.Along (Race.step literal p rd caller) (caller.Other l.server)
        (Race.start p l.server) es →
      (l.server.node.localCopy p.queueName).2.length < es.count .next →
      (es.foldl (Race.step literal p rd caller) (Race.start p l.server)).Survives literal p rd
        caller l.server) ∧
    (let s := ((ServerLog.start ∅).run literal twoSubscribers).server
      let r := [.next,.reset ⟨1,1⟩,.next,.next,.next].foldl
        (Race.step literal ⟨[113],[]⟩ [1] (.request ⟨0,0⟩ 1)) (Race.start ⟨[113],[]⟩ s)
      r.outcome = some (.error .nullDereference) ∧ copies ⟨[113],[]⟩ [1] r.server 2 = 0 ∧
        (Caller.request ⟨0,0⟩ 1).oks r.server = 0) := by
  refine ⟨fun h => ?_,by decide +kernel⟩
  have hopen : Runs.Along (ServerLog.step literal) ServerLog.Open (ServerLog.start ∅)
      twoSubscribers := by decide +kernel
  have hs := h twoSubscribers _ rfl hopen ⟨[113],[]⟩ [1] (.request ⟨0,0⟩ 1) (by decide +kernel)
    [.next,.reset ⟨1,1⟩,.next,.next,.next] (by decide +kernel) (by decide +kernel)
  exact hs.pointer (by decide +kernel)

end Dqueue
