import Dqueue.NodeSettings

/-!
The client: the ids of its requests, the pool of messages that have not been
acknowledged, the requests that wait for an answer, and its handlers.
-/

set_option autoImplicit false

namespace Dqueue
open Std Effects RawMem Queries

inductive OperationType where
  | Async
  | Sync
  deriving DecidableEq, Repr

inductive Request where
  | createQueue (name : Str)
  | subscribe (settings : SubscriptionParams)
  | unsubscribe (qname : Str)
  | publish (settings : PublishParams) (data : Bytes)
  deriving DecidableEq, Repr

def Request.message (msgId : UInt64) : Request → Message
  | .createQueue name => .createQueue ⟨name,msgId⟩
  | .subscribe settings => .subscribe ⟨settings.queueName,settings.tag,msgId⟩
  | .unsubscribe qname => .unsubscribe ⟨qname,[],msgId⟩
  | .publish settings data => .publish ⟨settings.queueName,settings.tag,msgId,data⟩

/-- Whether the call waits for its answer; `createQueue` does so in any case. -/
def Request.waits (ot : OperationType) : Request → Bool
  | .createQueue _ => true
  | _ => ot == .Sync

abbrev MemoryMessagePool := ExtTreeMap UInt64 Publish

namespace MemoryMessagePool

/-- `insert` leaves an entry alone that is already there. -/
def append (pool : MemoryMessagePool) (pub : Publish) : MemoryMessagePool :=
  pool.insertIfNew pub.messageId pub

/-- The messages in the order of the ids; the order of the source's hash map is
not specified. -/
def all (pool : MemoryMessagePool) : List Publish := pool.toList.map Prod.snd

theorem getElem?_append (pool : MemoryMessagePool) (pub : Publish) (n : UInt64) :
    (pool.append pub)[n]? =
      if pub.messageId = n ∧ pool[n]? = none then some pub else pool[n]? := by
  unfold append
  rw [ExtTreeMap.getElem?_insertIfNew]
  simp only [LawfulEqCmp.compare_eq_iff_eq]
  by_cases hn : pub.messageId = n
  · subst hn
    simp
  · simp [hn]

theorem mem_all {pool : MemoryMessagePool} {pub : Publish} (h : pub ∈ pool.all) :
    ∃ n : UInt64, pool[n]? = some pub := by
  obtain ⟨x,hx,rfl⟩ := List.mem_map.mp h
  exact ⟨x.1,ExtTreeMap.mem_toList_iff_getElem?_eq_some.mp hx⟩

end MemoryMessagePool

/-- Lockers are numbered in the order of the calls that make them; `released`
has those that an OK has unlocked and `handled` the ids of these OKs. The
connection is known by its socket. -/
structure Client where
  login : Str
  nextMessageId : UInt64
  messagePool : MemoryMessagePool
  queries : ExtTreeMap UInt64 Nat
  asyncConnection : Option Nat
  loginConfirmed : Bool
  id : Id
  released : List Nat
  handled : List UInt64
  consumed : List Publish

namespace Client

def create (login : Str) : Client where
  login := login
  nextMessageId := 0
  messagePool := ∅
  queries := ∅
  asyncConnection := none
  loginConfirmed := false
  id := 0
  released := []
  handled := []
  consumed := []

/-- What `createQueue`, `subscribe`, `unsubscribe` and `publish` do under the
client's lock before they send: the next id, for a publish the message in the
pool, and a new locker for the answer. -/
def issue (c : Client) (r : Request) (locker : Nat) : Client :=
  let msgId := c.nextMessageId
  { c with
    nextMessageId := c.nextMessageId+1
    messagePool := match r.message msgId with
      | .publish pb => c.messagePool.append pb
      | _ => c.messagePool
    queries := c.queries.insert msgId locker }

def unknowKind (c : Client) : String :=
  let login := String.ofList (c.login.map (fun b => Char.ofNat b.toNat))
  s!"client ({login}):unknow message kind: "

def handle : Message → EStateM Failure Client Unit
  | .publish cs => modify (fun c => { c with consumed := c.consumed ++ [cs] })
  | .ok cs => do
    let c ← get
    match c.queries[cs.id]? with
    | none => throw (.thrown ⟨s!"unknow _query id={cs.id}"⟩)
    | some locker =>
      set { c with
        messagePool := c.messagePool.erase cs.id
        released := locker :: c.released
        handled := cs.id :: c.handled
        queries := c.queries.erase cs.id }
  | .loginConfirm lc => modify (fun c => { c with id := lc.id, loginConfirmed := true })
  | m => do
    let c ← get
    throw (.thrown ⟨c.unknowKind ++ toString m.kind.toNat⟩)

def onNewMessage (d : NetworkMessage) : EStateM Failure Client Unit := do
  let c ← get
  let m ← Message.ofFrame [.PUBLISH,.OK,.LOGIN_CONFIRM] c.unknowKind d
  handle m

inductive Handled (c : Client) : Message → Client → Prop where
  | other {m : Message} {c' : Client} (pool : c'.messagePool = c.messagePool)
      (queries : c'.queries = c.queries) (next : c'.nextMessageId = c.nextMessageId)
      (released : c'.released = c.released) (handled : c'.handled = c.handled) : Handled c m c'
  | ok {cs : Ok} {c' : Client} {locker : Nat} (known : c.queries[cs.id]? = some locker)
      (pool : c'.messagePool = c.messagePool.erase cs.id)
      (queries : c'.queries = c.queries.erase cs.id) (next : c'.nextMessageId = c.nextMessageId)
      (released : c'.released = locker :: c.released) (handled : c'.handled = cs.id :: c.handled) :
      Handled c (.ok cs) c'

theorem handle_cases (m : Message) (c : Client) : c.Handled m (final (handle m c)) := by
  cases m with
  | publish cs => exact .other rfl rfl rfl rfl rfl
  | ok cs =>
    simp only [handle,bind_apply,get_apply]
    cases hq : c.queries[cs.id]? with
    | none => exact .other rfl rfl rfl rfl rfl
    | some locker => exact .ok hq rfl rfl rfl rfl rfl
  | loginConfirm lc => exact .other rfl rfl rfl rfl rfl
  | login q => exact .other rfl rfl rfl rfl rfl
  | createQueue q => exact .other rfl rfl rfl rfl rfl
  | subscribe q => exact .other rfl rfl rfl rfl rfl
  | unsubscribe q => exact .other rfl rfl rfl rfl rfl

theorem handle_login (m : Message) (c : Client) :
    (final (handle m c)).login = c.login ∧
      (final (handle m c)).asyncConnection = c.asyncConnection := by
  cases m with
  | ok cs =>
    simp only [handle,bind_apply,get_apply]
    cases c.queries[cs.id]? with
    | none => exact ⟨rfl,rfl⟩
    | some locker => exact ⟨rfl,rfl⟩
  | publish cs => exact ⟨rfl,rfl⟩
  | loginConfirm lc => exact ⟨rfl,rfl⟩
  | login q => exact ⟨rfl,rfl⟩
  | createQueue q => exact ⟨rfl,rfl⟩
  | subscribe q => exact ⟨rfl,rfl⟩
  | unsubscribe q => exact ⟨rfl,rfl⟩

theorem issue_pool_cases {c : Client} {r : Request} {locker : Nat} {n : UInt64} {p : Publish}
    (h : (c.issue r locker).messagePool[n]? = some p) :
    c.messagePool[n]? = some p ∨
      (c.nextMessageId = n ∧ r.message c.nextMessageId = .publish p) := by
  cases r with
  | publish settings data =>
    simp only [issue,Request.message,MemoryMessagePool.getElem?_append] at h
    split at h
    · rename_i hn
      exact .inr ⟨hn.1,congrArg Message.publish (Option.some.inj h)⟩
    · exact .inl h
  | createQueue name => exact .inl h
  | subscribe settings => exact .inl h
  | unsubscribe qname => exact .inl h

theorem Handled.pool_kept {c c' : Client} {m : Message} (h : c.Handled m c') {n : UInt64}
    {p : Publish} (hp : c'.messagePool[n]? = some p) : c.messagePool[n]? = some p := by
  cases h with
  | other pool queries next released handled => rwa [pool] at hp
  | ok known pool queries next released handled =>
    rw [pool,ExtTreeMap.getElem?_erase] at hp
    split at hp
    · cases hp
    · exact hp

theorem onNewMessage_cases {m : Message} {d : NetworkMessage} (h : m.Sendable)
    (hf : d.Frame m.kind.toNat m.body) (c : Client) : c.Handled m (final (onNewMessage d c)) := by
  simp only [onNewMessage,bind_apply,get_apply,Message.ofFrame_run h hf]
  by_cases hk : m.kind ∈ [.PUBLISH,.OK,.LOGIN_CONFIRM]
  · simp only [hk,if_true]
    exact handle_cases m c
  · simp only [hk,if_false]
    exact .other rfl rfl rfl rfl rfl

end Client

end Dqueue
