import Dqueue.ServerQueues
import Dqueue.Wire

/-!
Runs of the server: its handlers and the calls of its own interface, each as one
step. A connection object may see any number of failed reads and writes, and
messages that were read before it was closed.
-/

set_option autoImplicit false

namespace Dqueue
open Std Effects RawMem AsyncIO Queries

/-- A server with its connection objects in the order of their acceptance and
those for which `onDisconnect` has run, the latest first. The socket of a
connection object is its place among the accepted ones. -/
structure ServerLog where
  server : Server
  accepted : List ClientConnection
  disconnected : List ClientConnection
  isStoped : Bool

abbrev ServerLogM := EStateM Failure ServerLog

inductive ServerEvent where
  | accept
  /-- A read completes with a frame on the `k`-th connection. -/
  | message (k : Nat) (d : NetworkMessage)
  /-- A read or a write completes with an error: `onNetworkError`, which only
  logs, and `close`. -/
  | error (k : Nat)
  | createQueue (settings : QueueSettings)
  | subscribe (settings : SubscriptionParams)
  | unsubscribe (qname : Str)
  | publish (settings : PublishParams) (data : Bytes)
  | stopServer
  deriving DecidableEq, Repr

def Server.sentTo (socket : Nat) (s s' : Server) : List Message :=
  ((s'.outbox.drop s.outbox.length).filter (fun x => x.1 == socket)).map Prod.snd

namespace ServerLog

def start (cache : ReCache) : ServerLog := ⟨Server.start cache,[],[],false⟩

def onServer (x : ServerM Unit) : ServerLogM Unit := on server (fun s l => { l with server := s }) x

def handleAccept : ServerLogM Unit := do
  let l ← get
  let new_client : ClientConnection := ⟨l.server.nextClientId,l.accepted.length⟩
  set { l with accepted := l.accepted ++ [new_client] }
  onServer (Server.handleAccept l.accepted.length)

def onDisconnect (i : ClientConnection) : ServerLogM Unit := do
  modify (fun l => { l with disconnected := i :: l.disconnected })
  onServer (Server.onDisconnect i)

def eraseClientDescription (client : ClientConnection) : ServerLogM Unit := do
  onDisconnect client
  onServer (modify (fun s =>
    { s with connections := s.connections.eraseP (fun c => c.id == client.id) }))

def close (i : ClientConnection) : ServerLogM Unit := do
  let l ← get
  if i.socket ∉ l.server.closed then
    onServer (modify (fun s => { s with closed := i.socket :: s.closed }))
    eraseClientDescription i

def closeAll : List ClientConnection → ServerLogM Unit
  | [] => pure ()
  | con :: rest => do
      close con
      closeAll rest

def stopServer : ServerLogM Unit := do
  let l ← get
  if !l.isStoped then
    closeAll l.server.connections
    modify (fun l =>
      { l with server := { l.server with connections := [] }, isStoped := true })

def onConnection (k : Nat) (f : ClientConnection → ServerLogM Unit) : ServerLogM Unit := do
  let l ← get
  match l.accepted[k]? with
  | none => pure ()
  | some i => f i

variable (regex : RegexCompiler)

def exec : ServerEvent → ServerLogM Unit
  | .accept => handleAccept
  | .message k d => onConnection k (fun i => onServer (Server.onNewMessage regex i d))
  | .error k => onConnection k close
  | .createQueue settings => onServer (Server.exec regex (.createQueue settings))
  | .subscribe settings => onServer (Server.exec regex (.subscribe settings))
  | .unsubscribe qname => onServer (Server.exec regex (.unsubscribe qname))
  | .publish settings data => onServer (Server.exec regex (.publish settings data))
  | .stopServer => stopServer

def step (l : ServerLog) (e : ServerEvent) : ServerLog := final (exec regex e l)

def run (l : ServerLog) (events : List ServerEvent) : ServerLog := events.foldl (step regex) l

def sender (l : ServerLog) : ServerEvent → Option ClientConnection
  | .message k _ => l.accepted[k]?
  | _ => none

/-- The server has not been stopped, and messages come from connections that
have not been closed. -/
def Open (l : ServerLog) (e : ServerEvent) : Prop :=
  l.isStoped = false ∧ ∀ i ∈ l.sender e, i.socket ∉ l.server.closed

instance (l : ServerLog) (e : ServerEvent) : Decidable (l.Open e) :=
  inferInstanceAs (Decidable (_ ∧ _))

variable {regex}

theorem onServer_run (x : ServerM Unit) (l : ServerLog) :
    onServer x l = match x l.server with
      | .ok a s => .ok a { l with server := s }
      | .error e s => .error e { l with server := s } := by
  unfold onServer on
  cases x l.server <;> rfl

theorem onServer_final (x : ServerM Unit) (l : ServerLog) :
    final (onServer x l) = { l with server := final (x l.server) } := by
  rw [onServer_run]
  cases x l.server <;> rfl

theorem handleAccept_final (l : ServerLog) : final (handleAccept l) = { l with
    server := { l.server with
      nextId := l.server.nextId+1
      users := l.server.users.append ⟨[110,111,116,32,115,101,116],l.server.nextClientId⟩
      connections := l.server.connections ++ [⟨l.server.nextClientId,l.accepted.length⟩] }
    accepted := l.accepted ++ [⟨l.server.nextClientId,l.accepted.length⟩] } := rfl

section Numbered

-- A connection has the socket of its place, and the id that goes with the place.
variable {ids : Nat → Id} {accepted : List ClientConnection}
  (numbered : ∀ (k : Nat) (i : ClientConnection), accepted[k]? = some i → i = ⟨ids k,k⟩)
include numbered

theorem numbered_accept (k : Nat) (i : ClientConnection)
    (hk : (accepted ++ [⟨ids accepted.length,accepted.length⟩])[k]? = some i) : i = ⟨ids k,k⟩ := by
  rcases Nat.lt_trichotomy k accepted.length with hlt | rfl | hgt
  · rw [List.getElem?_append_left hlt] at hk
    exact numbered k i hk
  · simp at hk
    exact hk.symm
  · rw [List.getElem?_eq_none (by simp; omega)] at hk
    cases hk

theorem numbered_mem {i : ClientConnection} (hi : i ∈ accepted) :
    i = ⟨ids i.socket,i.socket⟩ ∧ i.socket < accepted.length := by
  obtain ⟨k,hk,he⟩ := List.mem_iff_getElem.mp hi
  have hn := numbered k i (by rw [List.getElem?_eq_getElem hk,he])
  rw [hn]
  exact ⟨rfl,hk⟩

theorem numbered_nodup : accepted.Nodup := by
  rw [List.nodup_iff_getElem?_ne_getElem?]
  intro a b hab hb he
  have ha := numbered a _ (List.getElem?_eq_getElem (by omega : a < accepted.length))
  have hb' := numbered b _ (List.getElem?_eq_getElem hb)
  rw [List.getElem?_eq_getElem hb,List.getElem?_eq_getElem (by omega),Option.some.injEq] at he
  rw [ha,hb'] at he
  have hk := congrArg ClientConnection.socket he
  simp only at hk
  omega

end Numbered

theorem numbered_id_inj {accepted : List ClientConnection}
    (numbered : ∀ (k : Nat) (i : ClientConnection), accepted[k]? = some i → i = ⟨UInt64.ofNat k,k⟩)
    (few : accepted.length < 2^64) {i j : ClientConnection} (hi : i ∈ accepted)
    (hj : j ∈ accepted) (he : i.id = j.id) : i = j := by
  obtain ⟨hi,hil⟩ := numbered_mem numbered hi
  obtain ⟨hj,hjl⟩ := numbered_mem numbered hj
  rw [hi,hj] at he
  have hs : i.socket = j.socket := ofNat_inj (by omega) (by omega) he
  rw [hi,hj,hs]

theorem close_server (i : ClientConnection) (l : ServerLog) :
    (final (close i l)).server = final (Server.close i l.server) := by
  by_cases hc : i.socket ∈ l.server.closed
  · simp [close,Server.close,hc]
  · simp only [close,Server.close,eraseClientDescription,onDisconnect,
      Server.eraseClientDescription,Server.onDisconnect,onServer_run,bind_apply,get_apply,
      modify_apply,set_apply,hc,not_false_eq_true,if_true]
    cases l.server.users.erase i.id <;> rfl

theorem close_run {i : ClientConnection} {l : ServerLog} (hc : i.socket ∉ l.server.closed)
    {users : UserBase} (hu : l.server.users.erase i.id = .ok users) :
    close i l = .ok () { l with
      server := { l.server with
        users := users
        node := l.server.node.eraseClient i.id
        closed := i.socket :: l.server.closed
        connections := l.server.connections.eraseP (fun c => c.id == i.id) }
      disconnected := i :: l.disconnected } := by
  simp [close,eraseClientDescription,onDisconnect,Server.onDisconnect,onServer_run,hc,hu]

theorem close_closed {i : ClientConnection} {l : ServerLog} (hc : i.socket ∈ l.server.closed) :
    close i l = .ok () l := by
  simp [close,hc]

end ServerLog

theorem Server.onNewMessage_wire (regex : RegexCompiler) {m : Message} (hm : m.Sendable)
    (i : ClientConnection) (s : Server) : Server.onNewMessage regex i (received m.wire) s =
      if m.kind ∈ [.CREATE_QUEUE,.SUBSCRIBE,.UNSUBSCRIBE,.PUBLISH,.LOGIN] then
        Server.handle regex i m s
      else .error (.thrown ⟨s!"unknow message kind: {m.kind.toNat}"⟩) s := by
  rw [Server.onNewMessage,bind_apply,Message.ofFrame_run hm (received_frame m)]
  split
  · rename_i he
    split at he
    · cases he
      rename_i hk
      rw [if_pos hk]
    · cases he
  · rename_i he
    split at he
    · cases he
    · cases he
      rename_i hk
      rw [if_neg hk]

theorem Server.onNewMessage_final (regex : RegexCompiler) (i : ClientConnection)
    (d : NetworkMessage) (s : Server) :
    final (Server.onNewMessage regex i d s) = s ∨
      ∃ m, Message.ofFrame [.CREATE_QUEUE,.SUBSCRIBE,.UNSUBSCRIBE,.PUBLISH,.LOGIN]
          "unknow message kind: " d s = .ok m s ∧
        final (Server.onNewMessage regex i d s) = s.step regex (.message i m) := by
  rw [Server.onNewMessage,bind_apply]
  rcases Message.ofFrame_state [.CREATE_QUEUE,.SUBSCRIBE,.UNSUBSCRIBE,.PUBLISH,.LOGIN]
    "unknow message kind: " d s with ⟨m,hm⟩ | ⟨e,he⟩
  · rw [hm]
    exact .inr ⟨m,rfl,rfl⟩
  · rw [he]
    exact .inl rfl

namespace ServerLog

theorem step_message {regex : RegexCompiler} {l : ServerLog} {k : Nat} {i : ClientConnection}
    (hk : l.accepted[k]? = some i) (d : NetworkMessage) : l.step regex (.message k d) =
      { l with server := final (Server.onNewMessage regex i d l.server) } := by
  simp only [step,exec,onConnection,bind_apply,get_apply,hk,onServer_final]

inductive Calls (l : ServerLog) : ServerEvent → ServerCall → Prop where
  | message {k : Nat} {d : NetworkMessage} {i : ClientConnection} {m : Message}
      (sender : l.accepted[k]? = some i)
      (decoded : Message.ofFrame [.CREATE_QUEUE,.SUBSCRIBE,.UNSUBSCRIBE,.PUBLISH,.LOGIN]
        "unknow message kind: " d l.server = .ok m l.server) :
      Calls l (.message k d) (.message i m)
  | createQueue (settings : QueueSettings) : Calls l (.createQueue settings) (.createQueue settings)
  | subscribe (settings : SubscriptionParams) : Calls l (.subscribe settings) (.subscribe settings)
  | unsubscribe (qname : Str) : Calls l (.unsubscribe qname) (.unsubscribe qname)
  | publish (settings : PublishParams) (data : Bytes) :
      Calls l (.publish settings data) (.publish settings data)

inductive Step (regex : RegexCompiler) (l : ServerLog) : ServerEvent → ServerLog → Prop where
  | same {e : ServerEvent} : Step regex l e l
  | accept : Step regex l .accept (final (handleAccept l))
  | call {e : ServerEvent} {call : ServerCall} (calls : l.Calls e call) :
      Step regex l e { l with server := l.server.step regex call }
  | close {k : Nat} {i : ClientConnection} (sender : l.accepted[k]? = some i) :
      Step regex l (.error k) (final (close i l))
  | stop (running : l.isStoped = false) : Step regex l .stopServer (final (stopServer l))

theorem step_cases (regex : RegexCompiler) (l : ServerLog) (e : ServerEvent) :
    Step regex l e (l.step regex e) := by
  cases e with
  | accept => exact .accept
  | message k d =>
    simp only [step,exec,onConnection,bind_apply,get_apply]
    cases hk : l.accepted[k]? with
    | none => exact .same
    | some i =>
      simp only [onServer_final]
      rcases Server.onNewMessage_final regex i d l.server with hf | ⟨m,hm,hf⟩
      · rw [hf]
        exact .same
      · rw [hf]
        exact .call (.message hk hm)
  | error k =>
    simp only [step,exec,onConnection,bind_apply,get_apply]
    cases hk : l.accepted[k]? with
    | none => exact .same
    | some i => exact .close hk
  | createQueue settings =>
    simp only [step,exec,onServer_final]
    exact .call (.createQueue settings)
  | subscribe settings =>
    simp only [step,exec,onServer_final]
    exact .call (.subscribe settings)
  | unsubscribe qname =>
    simp only [step,exec,onServer_final]
    exact .call (.unsubscribe qname)
  | publish settings data =>
    simp only [step,exec,onServer_final]
    exact .call (.publish settings data)
  | stopServer =>
    cases hs : l.isStoped with
    | false => exact .stop hs
    | true =>
      have hsame : l.step regex .stopServer = l := by
        simp [step,exec,stopServer,hs]
      rw [hsame]
      exact .same

/-- What closing a connection and clearing the list stay within, stopping does. -/
theorem stopServer_within {R : ServerLog → ServerLog → Prop} (hr : ∀ l, R l l)
    (ht : ∀ l₁ l₂ l₃, R l₁ l₂ → R l₂ l₃ → R l₁ l₃) (hclose : ∀ i, Within R (close i))
    (hclear : ∀ l : ServerLog, R l { l with
      server := { l.server with connections := [] }, isStoped := true }) :
    Within R stopServer := by
  have hall : ∀ cons, Within R (closeAll cons) := by
    intro cons
    induction cons with
    | nil => exact .pure hr ()
    | cons i cons ih => exact .bind ht (hclose i) fun _ => ih
  refine .bind ht (.get hr) fun l => ?_
  split
  · exact .bind ht (hall _) fun _ => .modify hclear
  · exact .pure hr ()

end ServerLog

end Dqueue
