import Dqueue.AbstractClient
import Dqueue.ServerBooks
import Dqueue.Acknowledgement

/-!
A client with its connections and the server, with the messages in flight on each
socket. The server has any number of other peers. A step is one completion or
one call; one that is not enabled changes nothing.
-/

set_option autoImplicit false

namespace Dqueue
open Std Effects RawMem AsyncIO Queries

/-- The messages in flight on a socket; `place` is that of its connection object
among those that the server has accepted. -/
structure SocketLink where
  up : List Message
  down : List Message
  broken : Bool
  place : Option Nat

def SocketLink.fresh : SocketLink := ⟨[],[],false,none⟩

def SocketLink.send (l : SocketLink) (m : Message) : SocketLink :=
  if l.broken then l else { l with up := l.up ++ [m] }

def SocketLink.answer (l : SocketLink) (s s' : Server) : SocketLink :=
  match l.place with
  | none => l
  | some k => if l.broken then l else { l with down := l.down ++ Server.sentTo k s s' }

structure Session where
  machine : AbstractClient
  log : ServerLog
  links : Nat → SocketLink
  issued : List Message

inductive SessionEvent where
  /-- A call of the client's interface, with its `send`. -/
  | call (r : Request)
  /-- A connect, an error, a write or a header, `async_connect` or `disconnect`. -/
  | connection (e : ConnectionEvent)
  /-- A message has been read on connection `a`. -/
  | receive (a : Nat)
  /-- The socket breaks and loses all but the first messages in flight. -/
  | lose (n up down : Nat)
  | accept (n : Nat)
  | serve (n : Nat)
  /-- Any other step of the server. -/
  | server (e : ServerEvent)
  deriving DecidableEq, Repr

namespace Session

def start (login : Str) (autoReconnection : Bool) (cache : ReCache) : Session where
  machine := AbstractClient.create login autoReconnection
  log := ServerLog.start cache
  links := fun _ => SocketLink.fresh
  issued := []

def setLink (s : Session) (n : Nat) (l : SocketLink) : Session :=
  { s with links := Function.update s.links n l }

def put (s : Session) (m : Message) : Session :=
  match s.machine.target with
  | none => s
  | some (_,c) =>
    match c.sock with
    | none => s
    | some n => s.setLink n ((s.links n).send m)

/-- A message that cannot be encoded has no next state. -/
def call (s : Session) (r : Request) : Session :=
  let m := r.message s.machine.client.nextMessageId
  match m.toNetworkMessage with
  | .error _ => s
  | .ok _ =>
    { s.put m with
      machine := { s.machine.send with client := s.machine.client.issue r s.issued.length }
      issued := s.issued ++ [m] }

def connected (s : Session) (n : Nat) : Session :=
  let c := s.machine.client
  match Message.toNetworkMessage (.login ⟨c.login⟩) with
  | .error _ => s
  | .ok _ =>
    if n ∈ s.machine.connecting then
      (.login ⟨c.login⟩ :: c.messagePool.all.map .publish).foldl put
        { s with machine := s.machine.connected n }
    else s

def connection (s : Session) : ConnectionEvent → Session
  | .connected n => s.connected n
  | .send => s
  | .message _ _ => s
  | e => { s with machine := s.machine.step e }

/-- What connection `a` would read next: the socket, the message and what follows. -/
def next (s : Session) (a : Nat) : Option (Nat × Message × List Message) :=
  match s.machine.connections[a]? with
  | none => none
  | some c =>
    match c.sock with
    | none => none
    | some n =>
      match (s.links n).down with
      | [] => none
      | m :: down => if c.reading = .body then some (n,m,down) else none

def receive (s : Session) (a : Nat) : Session :=
  match s.next a with
  | none => s
  | some (n,m,down) =>
    { s.setLink n { s.links n with down := down } with machine := s.machine.message a m }

def lose (s : Session) (n up down : Nat) : Session :=
  if n < s.machine.sockets then
    s.setLink n { s.links n with
      up := (s.links n).up.take up
      down := (s.links n).down.take down
      broken := true }
  else s

def deliver (s : Session) (log : ServerLog) : Session :=
  { s with log := log, links := fun n => (s.links n).answer s.log.server log.server }

variable (regex : RegexCompiler)

def accept (s : Session) (n : Nat) : Session :=
  if n < s.machine.sockets ∧ (s.links n).place = none then
    (s.deliver (s.log.step regex .accept)).setLink n
      { s.links n with place := some s.log.accepted.length }
  else s

/-- The server may read on after a handler that throws, where the loop of the source has
ended; the runs in which it does not are among these. -/
def serve (s : Session) (n : Nat) : Session :=
  match (s.links n).place,(s.links n).up with
  | some k, m :: up =>
    (s.setLink n { s.links n with up := up }).deliver
      (s.log.step regex (.message k (received m.wire)))
  | _, _ => s

def mine (s : Session) (k : Nat) : Bool :=
  (List.range s.machine.sockets).any (fun n => (s.links n).place == some k)

def server (s : Session) : ServerEvent → Session
  | .message k d => if s.mine k then s else s.deliver (s.log.step regex (.message k d))
  | e => s.deliver (s.log.step regex e)

def step (s : Session) : SessionEvent → Session
  | .call r => s.call r
  | .connection e => s.connection e
  | .receive a => s.receive a
  | .lose n up down => s.lose n up down
  | .accept n => s.accept regex n
  | .serve n => s.serve regex n
  | .server e => s.server regex e

def run (s : Session) (events : List SessionEvent) : Session := events.foldl (step regex) s

end Session

end Dqueue
