import Dqueue.Client
import Dqueue.Lib.Runs

/-!
How a client connects (`AbstractClient`): the connect attempts, the connection
objects they end in, and the operations that are outstanding on these. A step is
one completion or one call; one that is not enabled changes nothing.
-/

set_option autoImplicit false

namespace Dqueue
open Std Effects RawMem Queries

/-- The read that is outstanding. While it is that of a header, the handler keeps
the socket alive. -/
inductive ReadState where
  | idle
  | header
  | body
  deriving DecidableEq, Repr

/-- An `AsyncIO` of the client. `errors` counts the operations that have completed
with an error and `reconnects` the calls of `async_connect` for them. -/
structure Connection where
  sock : Option Nat
  reading : ReadState
  writing : Nat
  beginStoping : Bool
  errors : Nat
  reconnects : Nat
  deriving DecidableEq, Repr

inductive ConnectEffect where
  | asyncConnection
  | isConnected
  | login
  | loginConfirmed
  deriving DecidableEq, Repr

/-- Sockets and connection objects are numbered in the order in which they are
made; `connecting` has the sockets whose connect is outstanding. -/
structure AbstractClient where
  client : Client
  autoReconnection : Bool
  socket : Option Nat
  sockets : Nat
  connecting : List Nat
  connections : List Connection
  isConnected : Bool
  isStoped : Bool
  effects : List ConnectEffect

inductive ConnectionEvent where
  | asyncConnect
  | connected (n : Nat)
  | connectError (n : Nat)
  /-- The header of a message has been read. -/
  | header (a : Nat)
  | message (a : Nat) (m : Message)
  | readError (a : Nat)
  | written (a : Nat)
  | writeError (a : Nat)
  /-- Another thread sends a message. -/
  | send
  | disconnect
  deriving DecidableEq, Repr

namespace AbstractClient

def create (login : Str) (autoReconnection : Bool) : AbstractClient where
  client := Client.create login
  autoReconnection := autoReconnection
  socket := none
  sockets := 0
  connecting := []
  connections := []
  isConnected := false
  isStoped := false
  effects := []

def asyncConnect (s : AbstractClient) : AbstractClient :=
  { s with
    socket := some s.sockets
    sockets := s.sockets+1
    connecting := s.sockets :: s.connecting }

def reconnects (s : AbstractClient) : Bool := !s.isStoped && s.autoReconnection

def reconnectOnError (s : AbstractClient) : AbstractClient :=
  let s' := { s with isConnected := false, client := { s.client with loginConfirmed := false } }
  if s.reconnects then s'.asyncConnect else s'

/-- Whether `_sock.lock()` gives a socket. -/
def alive (s : AbstractClient) (sock : Option Nat) : Bool :=
  sock.isSome && (sock == s.socket ||
    s.connections.any (fun c => c.sock == sock && c.reading == .header))

/-- `Client::send` with `AsyncIO::send`: the connection object that gets a new
write, if any. -/
def target (s : AbstractClient) : Option (Nat × Connection) :=
  match s.client.asyncConnection with
  | none => none
  | some a =>
    match s.connections[a]? with
    | none => none
    | some c => if c.beginStoping || !s.alive c.sock then none else some (a,c)

def send (s : AbstractClient) : AbstractClient :=
  match s.target with
  | none => s
  | some (a,c) => { s with connections := s.connections.set a { c with writing := c.writing+1 } }

def onConnect (s : AbstractClient) : AbstractClient :=
  let s' : AbstractClient := { s with
    client := { s.client with loginConfirmed := false }
    effects := if s.target.isSome then s.effects ++ [.login] else s.effects }
  s.client.messagePool.all.foldl (fun s' _ => s'.send) s'.send

def connected (s : AbstractClient) (n : Nat) : AbstractClient :=
  if n ∈ s.connecting then
    onConnect { s with
      client := { s.client with asyncConnection := some s.connections.length }
      connecting := s.connecting.erase n
      connections := s.connections ++
        [⟨s.socket,if s.socket.isSome then .header else .idle,0,false,0,0⟩]
      isConnected := true
      effects := s.effects ++ [.asyncConnection,.isConnected] }
  else s

def connectError (s : AbstractClient) (n : Nat) : AbstractClient :=
  if n ∈ s.connecting then reconnectOnError { s with connecting := s.connecting.erase n }
  else s

def onConnection (s : AbstractClient) (a : Nat) (f : Connection → AbstractClient) :
    AbstractClient :=
  match s.connections[a]? with
  | none => s
  | some c => f c

def setConnection (s : AbstractClient) (a : Nat) (c : Connection) : AbstractClient :=
  { s with connections := s.connections.set a c }

/-- `readNextAsync` reads on as long as there is a socket. -/
def message (s : AbstractClient) (a : Nat) (m : Message) : AbstractClient :=
  s.onConnection a fun c =>
    if c.reading = .body then
      let r := Client.handle m s.client
      let goesOn := (Effects.thrown r).isNone && s.alive c.sock
      { s.setConnection a { c with reading := if goesOn then .header else .idle } with
        client := final r
        effects := match m with
          | .loginConfirm _ => s.effects ++ [.loginConfirmed]
          | _ => s.effects }
    else s

def fail (s : AbstractClient) (a : Nat) (c : Connection) : AbstractClient :=
  (s.setConnection a { c with
    errors := c.errors+1
    reconnects := if s.reconnects then c.reconnects+1 else c.reconnects }).reconnectOnError

/-- Without a connection object the null pointer is followed. -/
def disconnect (s : AbstractClient) : AbstractClient :=
  if s.isStoped then s
  else
    match s.client.asyncConnection with
    | none => s
    | some a =>
      { s with
        connections := s.connections.modify a (fun c => { c with beginStoping := true })
        isStoped := true }

def step (s : AbstractClient) : ConnectionEvent → AbstractClient
  | .asyncConnect => s.asyncConnect
  | .connected n => s.connected n
  | .connectError n => s.connectError n
  | .header a => s.onConnection a fun c =>
    if c.reading = .header then s.setConnection a { c with reading := .body } else s
  | .message a m => s.message a m
  | .readError a => s.onConnection a fun c =>
    if c.reading ≠ .idle then s.fail a { c with reading := .idle } else s
  | .written a => s.onConnection a fun c =>
    if c.writing ≠ 0 then s.setConnection a { c with writing := c.writing-1 } else s
  | .writeError a => s.onConnection a fun c =>
    if c.writing ≠ 0 then s.fail a { c with writing := c.writing-1 } else s
  | .send => s.send
  | .disconnect => s.disconnect

def run (s : AbstractClient) (events : List ConnectionEvent) : AbstractClient := events.foldl step s

theorem send_client (s : AbstractClient) :
    s.send.client = s.client ∧ s.send.sockets = s.sockets := by
  unfold send
  split <;> exact ⟨rfl,rfl⟩

theorem onConnect_client (s : AbstractClient) :
    s.onConnect.client = { s.client with loginConfirmed := false } ∧
      s.onConnect.sockets = s.sockets := by
  refine Runs.invariant (P := fun s' : AbstractClient =>
    s'.client = { s.client with loginConfirmed := false } ∧ s'.sockets = s.sockets)
    (fun s' _ h => ?_) ?_ s.client.messagePool.all
  · exact ⟨s'.send_client.1.trans h.1,s'.send_client.2.trans h.2⟩
  · exact ⟨(send_client _).1,(send_client _).2⟩

end AbstractClient

end Dqueue
