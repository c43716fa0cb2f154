import Dqueue.Client
import Dqueue.Server
import Dqueue.Wire
import Dqueue.Lib.Pipe

/-!
A client and a server joined by connections that may break, with any number of
other peers of the server. A step is one completion or one stretch of code that
no other thread can tell apart; steps come in any order, and one that is not
enabled changes nothing. Code that accesses memory it does not have has no next
state, so its step changes nothing either.
-/

set_option autoImplicit false

namespace Dqueue
open Std Effects RawMem Framing AsyncIO Queries

/-- A connection, with the bytes in flight either way. It is `mine` if the
client of this model made it and another peer's if not. -/
structure Link where
  mine : Bool
  up : Pipe UInt8
  down : Pipe UInt8
  connection : Option ClientConnection
  clientReads : Bool
  serverReads : Bool

def Link.fresh (mine : Bool) : Link := ⟨mine,.fresh,.fresh,none,true,true⟩

/-- The server has read up to `bytes`, and reads on unless its handler threw. -/
def Link.readUp (l : Link) (bytes : Bytes) (goesOn : Bool) : Link :=
  { l with up := l.up.rest bytes, serverReads := goesOn }

def Link.readDown (l : Link) (bytes : Bytes) (goesOn : Bool) : Link :=
  { l with down := l.down.rest bytes, clientReads := goesOn }

/-- How far a run of `Client::onConnect` has come. It does not take the client's
lock, so other threads go on between its statements. -/
inductive OnConnect where
  | login
  | collect
  | resend (left : List Publish)
  deriving DecidableEq, Repr

/-- `busy` is the request whose caller holds the client's lock and has still to
send it. `waiting` and `returned` are the callers that wait on their locker and
those that have got it; `issued` has the requests in the order of their ids. -/
structure System where
  client : Client
  server : Server
  links : Nat → Link
  opened : Nat
  busy : Option Message
  waiting : List Nat
  returned : List Nat
  connects : List OnConnect
  issued : List Message

inductive SystemEvent where
  /-- A call of the client's interface, up to its `send`. -/
  | call (r : Request) (ot : OperationType)
  /-- The `send` of that call, and the release of the lock. -/
  | transmit
  /-- A caller gets the locker on which it waits. -/
  | wake (locker : Nat)
  /-- A connect completes and `onConnect` begins. -/
  | connected
  /-- The next statement of a run of `onConnect`; `order` is the order in which
  the pool is gone through. -/
  | onConnect (k : Nat) (order : List Publish)
  | networkError
  /-- A read completes on the client's side of a link. -/
  | receive (k : Nat)
  | accept (k : Nat)
  /-- A read completes on the server's side. -/
  | serve (k : Nat)
  | close (k : Nat)
  /-- A call of the server's own interface. -/
  | serverCall (call : ServerCall)
  /-- The link loses all but the first `n` bytes in flight. -/
  | loseUp (k n : Nat)
  | loseDown (k n : Nat)
  | peerConnects
  | peerSends (k : Nat) (bytes : Bytes)
  deriving DecidableEq, Repr

def Message.encode (m : Message) : Except Fault Bytes := do
  let nd ← m.toNetworkMessage
  nd.asBuffer

theorem Message.encode_ok {m : Message} {bytes : Bytes} (h : m.encode = .ok bytes) :
    m.Sendable ∧ bytes = m.wire := by
  obtain ⟨nd,hnd,hb⟩ := bind_eq_ok h
  rw [asBuffer_of_ok hnd] at hb
  exact ⟨sendable_of_ok hnd,(Except.ok.inj hb).symm⟩

/-- Whether the process goes on after a handler has ended so. -/
def defined {σ : Type} : EStateM.Result Failure σ Unit → Bool
  | .ok _ _ => true
  | .error (.thrown _) _ => true
  | .error _ _ => false

namespace System

def start (login : Str) (cache : ReCache) : System where
  client := Client.create login
  server := Server.start cache
  links := fun _ => Link.fresh false
  opened := 0
  busy := none
  waiting := []
  returned := []
  connects := []
  issued := []

def setLink (s : System) (k : Nat) (l : Link) : System :=
  { s with links := Function.update s.links k l }

def clientSend (s : System) (m : Message) : Option System :=
  match m.encode with
  | .error _ => none
  | .ok bytes =>
    match s.client.asyncConnection with
    | none => some s
    | some k => some (s.setLink k { s.links k with up := (s.links k).up.send bytes })

def call (s : System) (r : Request) (ot : OperationType) : System :=
  if s.busy.isSome then s
  else
    { s with
      client := s.client.issue r s.issued.length
      busy := some (r.message s.client.nextMessageId)
      waiting := if r.waits ot then s.issued.length :: s.waiting else s.waiting
      issued := s.issued ++ [r.message s.client.nextMessageId] }

def transmit (s : System) : System :=
  match s.busy with
  | none => s
  | some m =>
    match s.clientSend m with
    | none => s
    | some s' => { s' with busy := none }

def wake (s : System) (locker : Nat) : System :=
  if locker ∈ s.waiting ∧ locker ∈ s.client.released then
    { s with waiting := s.waiting.erase locker, returned := locker :: s.returned }
  else s

def openLink (s : System) (mine : Bool) : System :=
  { s with
    links := Function.update s.links s.opened (Link.fresh mine)
    opened := s.opened+1 }

def connected (s : System) : System :=
  { s.openLink true with
    client := { s.client with asyncConnection := some s.opened }
    connects := s.connects ++ [.login] }

def onConnect (s : System) (k : Nat) (order : List Publish) : System :=
  match s.connects[k]? with
  | none => s
  | some .login =>
    match s.clientSend (.login ⟨s.client.login⟩) with
    | none => s
    | some s' =>
      { s' with
        client := { s'.client with loginConfirmed := false }
        connects := s'.connects.set k .collect }
  | some .collect =>
    if order.isPerm s.client.messagePool.all then
      { s with connects := s.connects.set k (.resend order) }
    else s
  | some (.resend []) => s
  | some (.resend (p :: left)) =>
    match s.clientSend (.publish p) with
    | none => s
    | some s' => { s' with connects := s'.connects.set k (.resend left) }

/-- The OK case waits for the client's lock. -/
def blocked (s : System) (d : NetworkMessage) : Bool :=
  s.busy.isSome && d.kind == .ok MessageKinds.OK.toNat

def receive (s : System) (k : Nat) : System :=
  match readNextAsync (s.links k).down.inFlight with
  | .item d bytes =>
    if (s.links k).mine && (s.links k).clientReads && !s.blocked d then
      let r := Client.onNewMessage d s.client
      if defined r then
        { s with client := final r }.setLink k
          ((s.links k).readDown bytes (Effects.thrown r).isNone)
      else s
    else s
  | _ => s

def flushTo (links : Nat → Link) : List (Nat × Message) → Nat → Link
  | [] => links
  | (k,m) :: out =>
    match m.encode with
    | .error _ => flushTo links out
    | .ok bytes =>
      flushTo (Function.update links k { links k with down := (links k).down.send bytes }) out

def flush (s : System) : System :=
  { s with
    links := flushTo s.links s.server.outbox
    server := { s.server with outbox := [] } }

def accept (regex : RegexCompiler) (s : System) (k : Nat) : System :=
  if k < s.opened ∧ (s.links k).connection = none then
    ({ s with server := s.server.step regex (.accept k) }.setLink k
      { s.links k with connection := some ⟨s.server.nextClientId,k⟩ }).flush
  else s

def serve (regex : RegexCompiler) (s : System) (k : Nat) : System :=
  match (s.links k).connection, readNextAsync (s.links k).up.inFlight with
  | some i, .item d bytes =>
    let r := Server.onNewMessage regex i d s.server
    if (s.links k).serverReads && defined r then
      ({ s with server := final r }.setLink k
        ((s.links k).readUp bytes (Effects.thrown r).isNone)).flush
    else s
  | _, _ => s

def close (regex : RegexCompiler) (s : System) (k : Nat) : System :=
  match (s.links k).connection with
  | none => s
  | some i => { s with server := s.server.step regex (.close i) }.flush

def serverCall (regex : RegexCompiler) (s : System) : ServerCall → System
  | .accept _ | .message _ _ | .close _ => s
  | call => { s with server := s.server.step regex call }.flush

def step (regex : RegexCompiler) (s : System) : SystemEvent → System
  | .call r ot => s.call r ot
  | .transmit => s.transmit
  | .wake locker => s.wake locker
  | .connected => s.connected
  | .onConnect k order => s.onConnect k order
  | .networkError => { s with client := { s.client with loginConfirmed := false } }
  | .receive k => s.receive k
  | .accept k => s.accept regex k
  | .serve k => s.serve regex k
  | .close k => s.close regex k
  | .serverCall call => s.serverCall regex call
  | .loseUp k n => s.setLink k { s.links k with up := (s.links k).up.cut n }
  | .loseDown k n => s.setLink k { s.links k with down := (s.links k).down.cut n }
  | .peerConnects => s.openLink false
  | .peerSends k bytes =>
    if (s.links k).mine then s
    else s.setLink k { s.links k with up := (s.links k).up.send bytes }

def run (regex : RegexCompiler) (s : System) (events : List SystemEvent) : System :=
  events.foldl (step regex) s

end System

end Dqueue
