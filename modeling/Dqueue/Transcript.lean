import Dqueue.Acknowledgement
import Dqueue.ServerRuns

/-!
A record of what the client writes to its connection, beside the requests that
the server has executed and the OKs that it owes for these.
-/

set_option autoImplicit false

namespace Dqueue
open Std Effects RawMem Framing AsyncIO Queries

namespace Server

def isRequest (k : Nat) (n : UInt64) (x : ClientConnection × Message) : Bool :=
  x.1.socket == k && x.2.requestId == some n

structure Accounts (ex : List (ClientConnection × Message)) (s s' : Server) : Prop where
  executed : s'.executed = s.executed ++ ex
  outbox : ∃ out, s'.outbox = s.outbox ++ out ∧
    (∀ x ∈ out, x.2.Sendable ∧ x.2.kind ∈ [.PUBLISH,.OK,.LOGIN_CONFIRM]) ∧
    ∀ k n, out.count (k,.ok ⟨n⟩) ≤ ex.countP (isRequest k n)

variable {regex : RegexCompiler}

theorem Accounts.of_eq {s s' : Server} (he : s'.executed = s.executed)
    (ho : s'.outbox = s.outbox) : Accounts [] s s' :=
  ⟨by simp [he],[],by simp [ho],by simp,by simp⟩

theorem Accounts.trans {ex ex' : List (ClientConnection × Message)} {s₁ s₂ s₃ : Server}
    (h : Accounts ex s₁ s₂) (h' : Accounts ex' s₂ s₃) : Accounts (ex ++ ex') s₁ s₃ := by
  obtain ⟨out,ho,hout,hcount⟩ := h.outbox
  obtain ⟨out',ho',hout',hcount'⟩ := h'.outbox
  refine ⟨by rw [h'.executed,h.executed,List.append_assoc],out ++ out',by simp [ho,ho'],
    fun x hx => ?_,fun k n => ?_⟩
  · rcases List.mem_append.mp hx with hx | hx
    · exact hout x hx
    · exact hout' x hx
  · have h₁ := hcount k n
    have h₂ := hcount' k n
    rw [List.count_append,List.countP_append]
    omega

theorem onNode_accounts (x : EStateM Exception Node Unit) (s : Server) :
    Accounts [] s (final (onNode x s)) := by
  rw [onNode_run]
  cases x s.node with
  | ok a n => exact .of_eq rfl rfl
  | error e n => exact .of_eq rfl rfl

theorem nodePublish_accounts (p : PublishParams) (rd : Bytes) (s : Server) :
    Accounts [] s (final (nodePublish regex p rd s)) := by
  have h := nodePublish_delivers regex p rd s
  obtain ⟨out,ho,hout⟩ := h.outbox
  refine ⟨by rw [h.executed,List.append_nil],out,ho,fun x hx => ?_,fun k n => ?_⟩
  · obtain ⟨hs,q,hq⟩ := hout x hx
    exact ⟨hs,by simp [hq,Message.kind]⟩
  · refine Nat.le_of_eq (List.count_eq_zero.mpr fun hx => ?_)
    obtain ⟨-,q,hq⟩ := hout _ hx
    cases hq

theorem acknowledge_accounts {i : ClientConnection} {m : Message} {n : UInt64}
    (hn : m.requestId = some n) (s : Server) :
    Accounts [(i,m)] s (final (acknowledge i m n s)) := by
  simp only [acknowledge,sendOk,bind_apply,modify_apply]
  rcases sendTo_final i (.ok ⟨n⟩) { s with executed := s.executed ++ [(i,m)] } with h | ⟨hs,h⟩
  · rw [h]
    exact ⟨rfl,[],by simp,by simp,by simp⟩
  · rw [h]
    refine ⟨rfl,[(i.socket,.ok ⟨n⟩)],rfl,by simpa [Message.kind] using hs,fun k n' => ?_⟩
    rw [List.count_singleton,List.countP_singleton]
    by_cases he : (i.socket,Message.ok ⟨n⟩) = (k,.ok ⟨n'⟩)
    · cases he
      simp [isRequest,hn]
    · simp [he]

theorem request_accounts {i : ClientConnection} {m : Message} {n : UInt64}
    (hn : m.requestId = some n) {x : ServerM Unit} {s : Server} (hx : Accounts [] s (final (x s))) :
    ∃ ex, Accounts ex s (final ((do x; acknowledge i m n) s)) ∧ (ex = [] ∨ ex = [(i,m)]) ∧
      (Effects.thrown ((do x; acknowledge i m n) s) = none → ex = [(i,m)]) := by
  rw [bind_apply]
  cases hr : x s with
  | error e s' =>
    rw [hr] at hx
    exact ⟨[],hx,.inl rfl,fun h => by cases h⟩
  | ok a s' =>
    rw [hr] at hx
    exact ⟨[(i,m)],hx.trans (acknowledge_accounts hn s'),.inr rfl,fun _ => rfl⟩

theorem handle_accounts (regex : RegexCompiler) (i : ClientConnection) (m : Message) (s : Server) :
    ∃ ex, Accounts ex s (final (handle regex i m s)) ∧ (ex = [] ∨ ex = [(i,m)]) ∧
      (Effects.thrown (handle regex i m s) = none → m.requestId ≠ none → ex = [(i,m)]) := by
  have himp : ∀ {n : UInt64} {x : ServerM Unit}, m.requestId = some n →
      Accounts [] s (final (x s)) → ∃ ex, Accounts ex s (final ((do x; acknowledge i m n) s)) ∧
        (ex = [] ∨ ex = [(i,m)]) ∧ (Effects.thrown ((do x; acknowledge i m n) s) = none →
          m.requestId ≠ none → ex = [(i,m)]) := by
    intro n x hn hx
    obtain ⟨ex,ha,hex,hr⟩ := request_accounts (i := i) hn hx
    exact ⟨ex,ha,hex,fun h _ => hr h⟩
  cases m with
  | createQueue cq => exact himp rfl (onNode_accounts (Node.createQueue s.users ⟨cq.name⟩ i.id) s)
  | subscribe cs =>
    exact himp rfl (onNode_accounts
      (Node.changeSubscription s.users .Subscribe ⟨cs.qname,cs.tag⟩ i.id) s)
  | unsubscribe cs =>
    exact himp rfl (onNode_accounts
      (Node.changeSubscription s.users .Unsubscribe ⟨cs.qname,cs.tag⟩ i.id) s)
  | publish cs => exact himp rfl (nodePublish_accounts ⟨cs.qname,cs.tag⟩ cs.data s)
  | login lg =>
    refine ⟨[],?_,.inl rfl,fun _ h => absurd rfl h⟩
    simp only [handle,bind_apply,modify_apply]
    rcases sendTo_final i (.loginConfirm ⟨i.id⟩)
      { s with users := s.users.setLogin i.id lg.login } with h | ⟨hs,h⟩
    · rw [h]
      exact .of_eq rfl rfl
    · rw [h]
      refine ⟨by simp,[(i.socket,.loginConfirm ⟨i.id⟩)],rfl,by simpa [Message.kind] using hs,
        fun k n => ?_⟩
      simp
  | ok q => exact ⟨[],.of_eq rfl rfl,.inl rfl,fun h => by cases h⟩
  | loginConfirm q => exact ⟨[],.of_eq rfl rfl,.inl rfl,fun h => by cases h⟩

theorem wire_accounts (regex : RegexCompiler) {m : Message} (hm : m.Sendable) (i : ClientConnection)
    (s : Server) :
    ∃ ex, Accounts ex s (final (onNewMessage regex i (received m.wire) s)) ∧
      (ex = [] ∨ ex = [(i,m)]) ∧ (Effects.thrown (onNewMessage regex i (received m.wire) s) = none →
        m.requestId ≠ none → ex = [(i,m)]) := by
  rw [onNewMessage_wire regex hm]
  split
  · exact handle_accounts regex i m s
  · exact ⟨[],.of_eq rfl rfl,.inl rfl,fun h => by cases h⟩

theorem step_accounts (s : Server) {call : ServerCall} (hc : ∀ i m, call ≠ .message i m) :
    Accounts [] s (s.step regex call) := by
  cases call with
  | message i m => exact absurd rfl (hc i m)
  | accept socket => exact .of_eq rfl rfl
  | close i =>
    have hf : s.step regex (.close i) = final (close i s) := rfl
    rw [hf,close_final]
    split
    · exact .of_eq rfl rfl
    · split <;> exact .of_eq rfl rfl
  | createQueue settings => exact onNode_accounts _ s
  | subscribe settings => exact onNode_accounts _ s
  | unsubscribe qname => exact onNode_accounts _ s
  | publish settings data => exact nodePublish_accounts settings data s

end Server

def Message.ofId (n : UInt64) (m : Message) : Bool := m.requestId == some n

namespace System

def sends (s : System) (m : Message) : List Message :=
  match m.encode, s.client.asyncConnection with
  | .ok _, some _ => [m]
  | _, _ => []

def writes (s : System) : SystemEvent → List Message
  | .transmit =>
    match s.busy with
    | none => []
    | some m => s.sends m
  | .onConnect k _ =>
    match s.connects[k]? with
    | some .login => s.sends (.login ⟨s.client.login⟩)
    | some (.resend (p :: _)) => s.sends (.publish p)
    | _ => []
  | _ => []

/-- One connection and no network error. -/
def Calm (s : System) : SystemEvent → Prop
  | .connected => s.connects = []
  | .networkError => False
  | .close k => (s.links k).mine = false
  | .loseUp k _ => (s.links k).mine = false
  | .loseDown k _ => (s.links k).mine = false
  | _ => True

instance (s : System) : ∀ e, Decidable (s.Calm e)
  | .connected => inferInstanceAs (Decidable (s.connects = []))
  | .networkError => isFalse id
  | .close k => inferInstanceAs (Decidable ((s.links k).mine = false))
  | .loseUp k _ => inferInstanceAs (Decidable ((s.links k).mine = false))
  | .loseDown k _ => inferInstanceAs (Decidable ((s.links k).mine = false))
  | .call _ _ | .transmit | .wake _ | .onConnect _ _ | .receive _ | .accept _ | .serve _
  | .serverCall _ | .peerConnects | .peerSends _ _ => isTrue trivial

def left (s : System) : List Message := s.connects.flatMap (fun c => c.left.map .publish)

def executions (s : System) (k : Nat) (n : UInt64) : Nat :=
  s.server.executed.countP (Server.isRequest k n)

end System

/-- A system with what its client has written to its connection so far. -/
structure Transcript where
  system : System
  written : List Message

namespace Transcript

def start (login : Str) (cache : ReCache) : Transcript := ⟨System.start login cache,[]⟩

def step (regex : RegexCompiler) (t : Transcript) (e : SystemEvent) : Transcript :=
  ⟨t.system.step regex e,t.written ++ t.system.writes e⟩

def run (regex : RegexCompiler) (t : Transcript) (events : List SystemEvent) : Transcript :=
  events.foldl (step regex) t

/-- When `onConnect` collects the pool, no message of the pool has been sent on
the connection, and none is about to be. -/
def Apart (t : Transcript) : SystemEvent → Prop
  | .onConnect k _ => t.system.connects[k]? = some .collect →
    ∀ p ∈ t.system.client.messagePool.all,
      .publish p ∉ t.written ∧ t.system.busy ≠ some (.publish p)
  | _ => True

instance (t : Transcript) : ∀ e, Decidable (t.Apart e)
  | .onConnect k _ => inferInstanceAs (Decidable (t.system.connects[k]? = some .collect →
      ∀ p ∈ t.system.client.messagePool.all,
        .publish p ∉ t.written ∧ t.system.busy ≠ some (.publish p)))
  | .call _ _ | .transmit | .wake _ | .connected | .networkError | .receive _ | .accept _ | .serve _
  | .close _ | .serverCall _ | .loseUp _ _ | .loseDown _ _ | .peerConnects | .peerSends _ _ =>
    isTrue trivial

def tokens (t : Transcript) (n : UInt64) : Nat :=
  t.written.countP (Message.ofId n)+t.system.left.countP (Message.ofId n)+
    t.system.busy.toList.countP (Message.ofId n)

end Transcript

end Dqueue
