import Dqueue.NetworkMessage

/-!
The queries of the protocol and their frames. Strings are byte strings, as the
source's `std::string` is; numbers are the unsigned 64-bit ones of the source.
-/

set_option autoImplicit false

namespace Dqueue
open RawMem Serialisation

/-- The underlying values are the 16-bit `message_kind`. -/
inductive MessageKinds where
  | OK
  | LOGIN
  | LOGIN_CONFIRM
  | CREATE_QUEUE
  | SUBSCRIBE
  | UNSUBSCRIBE
  | PUBLISH
  deriving DecidableEq, Repr

def MessageKinds.toNat : MessageKinds → Nat
  | .OK => 0
  | .LOGIN => 1
  | .LOGIN_CONFIRM => 2
  | .CREATE_QUEUE => 3
  | .SUBSCRIBE => 4
  | .UNSUBSCRIBE => 5
  | .PUBLISH => 6

def MessageKinds.ofNat? : Nat → Option MessageKinds
  | 0 => some .OK
  | 1 => some .LOGIN
  | 2 => some .LOGIN_CONFIRM
  | 3 => some .CREATE_QUEUE
  | 4 => some .SUBSCRIBE
  | 5 => some .UNSUBSCRIBE
  | 6 => some .PUBLISH
  | _ => none

@[simp] theorem MessageKinds.ofNat?_toNat (k : MessageKinds) :
    MessageKinds.ofNat? k.toNat = some k := by cases k <;> rfl

theorem MessageKinds.toNat_lt (k : MessageKinds) : k.toNat < 2^16 := by
  cases k <;> decide

abbrev Str := Bytes

namespace Queries

def u64 (x : UInt64) : Pod 8 := ⟨leBytes 8 x.toNat,leBytes_length 8 _⟩
def ofU64 (p : Pod 8) : UInt64 := UInt64.ofNat (leNat p.1)

@[simp] theorem ofU64_u64 (x : UInt64) : ofU64 (u64 x) = x := by
  have hx := x.toNat_lt
  simp only [ofU64,u64]
  rw [leNat_leBytes_of_lt (by simpa using hx)]
  exact UInt64.ofNat_toNat

def u8s (data : Bytes) : List (Pod 1) := data.map (fun b => ⟨[b],rfl⟩)
def ofU8s (s : List (Pod 1)) : Bytes := rawData s

@[simp] theorem ofU8s_u8s (data : Bytes) : ofU8s (u8s data) = data := by
  induction data with
  | nil => rfl
  | cons b data ih =>
    simp only [ofU8s,rawData,u8s,List.map_cons,List.flatMap_cons] at *
    simp [ih]

/-- The shape that all `toNetworkMessage` functions share: a frame of the
scheme's capacity, filled from `value()` on. -/
def toFrame (kind : MessageKinds) (ts : List FieldType) (vs : Vals ts) :
    Except Fault NetworkMessage := do
  let neededSize := Scheme.capacity ts vs
  let nd ← NetworkMessage.ofSizeKind neededSize kind.toNat
  let data ← Scheme.write nd.data NetworkMessage.value ts vs
  pure ⟨data⟩

structure Ok where
  id : UInt64
  deriving DecidableEq, Repr

abbrev Ok.Scheme : List FieldType := [.pod 8]
def Ok.args (q : Ok) : Vals Ok.Scheme := (u64 q.id,())
def Ok.toNetworkMessage (q : Ok) : Except Fault NetworkMessage := toFrame .OK Ok.Scheme q.args
def Ok.ofNetworkMessage (nd : NetworkMessage) : Except Fault Ok := do
  let (id,_) ← Serialisation.Scheme.read nd.data NetworkMessage.value Ok.Scheme
  pure ⟨ofU64 id⟩

structure Login where
  login : Str
  deriving DecidableEq, Repr

abbrev Login.Scheme : List FieldType := [.string]
def Login.args (q : Login) : Vals Login.Scheme := (q.login,())
def Login.toNetworkMessage (q : Login) : Except Fault NetworkMessage :=
  toFrame .LOGIN Login.Scheme q.args
def Login.ofNetworkMessage (nd : NetworkMessage) : Except Fault Login := do
  let (login,_) ← Serialisation.Scheme.read nd.data NetworkMessage.value Login.Scheme
  pure ⟨login⟩

structure LoginConfirm where
  id : UInt64
  deriving DecidableEq, Repr

abbrev LoginConfirm.Scheme : List FieldType := [.pod 8]
def LoginConfirm.args (q : LoginConfirm) : Vals LoginConfirm.Scheme := (u64 q.id,())
def LoginConfirm.toNetworkMessage (q : LoginConfirm) : Except Fault NetworkMessage :=
  toFrame .LOGIN_CONFIRM LoginConfirm.Scheme q.args
def LoginConfirm.ofNetworkMessage (nd : NetworkMessage) : Except Fault LoginConfirm := do
  let (id,_) ← Serialisation.Scheme.read nd.data NetworkMessage.value LoginConfirm.Scheme
  pure ⟨ofU64 id⟩

structure CreateQueue where
  name : Str
  msgId : UInt64
  deriving DecidableEq, Repr

abbrev CreateQueue.Scheme : List FieldType := [.string,.pod 8]
def CreateQueue.args (q : CreateQueue) : Vals CreateQueue.Scheme := (q.name,u64 q.msgId,())
def CreateQueue.toNetworkMessage (q : CreateQueue) : Except Fault NetworkMessage :=
  toFrame .CREATE_QUEUE CreateQueue.Scheme q.args
def CreateQueue.ofNetworkMessage (nd : NetworkMessage) : Except Fault CreateQueue := do
  let (name,msgId,_) ← Serialisation.Scheme.read nd.data NetworkMessage.value CreateQueue.Scheme
  pure ⟨name,ofU64 msgId⟩

structure ChangeSubscribe where
  qname : Str
  tag : Str
  msgId : UInt64
  deriving DecidableEq, Repr

abbrev ChangeSubscribe.Scheme : List FieldType := [.string,.string,.pod 8]
def ChangeSubscribe.args (q : ChangeSubscribe) : Vals ChangeSubscribe.Scheme :=
  (q.qname,q.tag,u64 q.msgId,())
def ChangeSubscribe.toNetworkMessage (q : ChangeSubscribe) : Except Fault NetworkMessage :=
  toFrame .SUBSCRIBE ChangeSubscribe.Scheme q.args
def ChangeSubscribe.ofNetworkMessage (nd : NetworkMessage) : Except Fault ChangeSubscribe := do
  let (qname,tag,msgId,_) ←
    Serialisation.Scheme.read nd.data NetworkMessage.value ChangeSubscribe.Scheme
  pure ⟨qname,tag,ofU64 msgId⟩

structure Publish where
  qname : Str
  tag : Str
  messageId : UInt64
  data : Bytes
  deriving DecidableEq, Repr

/-- The data goes before the message id on the wire, unlike in the record. -/
abbrev Publish.Scheme : List FieldType := [.string,.string,.vector 1,.pod 8]
def Publish.args (q : Publish) : Vals Publish.Scheme :=
  (q.qname,q.tag,u8s q.data,u64 q.messageId,())
def Publish.toNetworkMessage (q : Publish) : Except Fault NetworkMessage :=
  toFrame .PUBLISH Publish.Scheme q.args
def Publish.ofNetworkMessage (nd : NetworkMessage) : Except Fault Publish := do
  let (qname,tag,data,messageId,_) ←
    Serialisation.Scheme.read nd.data NetworkMessage.value Publish.Scheme
  pure ⟨qname,tag,ofU64 messageId,ofU8s data⟩

end Queries

open Queries

/-- Everything that is sent. A `ChangeSubscribe` travels under two kinds. -/
inductive Message where
  | ok (q : Ok)
  | login (q : Login)
  | loginConfirm (q : LoginConfirm)
  | createQueue (q : CreateQueue)
  | subscribe (q : ChangeSubscribe)
  | unsubscribe (q : ChangeSubscribe)
  | publish (q : Publish)
  deriving DecidableEq, Repr

namespace Message

def kind : Message → MessageKinds
  | .ok _ => .OK
  | .login _ => .LOGIN
  | .loginConfirm _ => .LOGIN_CONFIRM
  | .createQueue _ => .CREATE_QUEUE
  | .subscribe _ => .SUBSCRIBE
  | .unsubscribe _ => .UNSUBSCRIBE
  | .publish _ => .PUBLISH

/-- How each sender builds its frame; `Client::subscribe` and
`Client::unsubscribe` overwrite the kind that `ChangeSubscribe` has set. -/
def toNetworkMessage : Message → Except Fault NetworkMessage
  | .ok q => q.toNetworkMessage
  | .login q => q.toNetworkMessage
  | .loginConfirm q => q.toNetworkMessage
  | .createQueue q => q.toNetworkMessage
  | .subscribe q => do
      let nd ← q.toNetworkMessage
      nd.setKind MessageKinds.SUBSCRIBE.toNat
  | .unsubscribe q => do
      let nd ← q.toNetworkMessage
      nd.setKind MessageKinds.UNSUBSCRIBE.toNat
  | .publish q => q.toNetworkMessage

def ofKind (nd : NetworkMessage) : MessageKinds → Except Fault Message
  | .OK => do let q ← Ok.ofNetworkMessage nd; pure (.ok q)
  | .LOGIN => do let q ← Login.ofNetworkMessage nd; pure (.login q)
  | .LOGIN_CONFIRM => do let q ← LoginConfirm.ofNetworkMessage nd; pure (.loginConfirm q)
  | .CREATE_QUEUE => do let q ← CreateQueue.ofNetworkMessage nd; pure (.createQueue q)
  | .SUBSCRIBE => do let q ← ChangeSubscribe.ofNetworkMessage nd; pure (.subscribe q)
  | .UNSUBSCRIBE => do let q ← ChangeSubscribe.ofNetworkMessage nd; pure (.unsubscribe q)
  | .PUBLISH => do let q ← Publish.ofNetworkMessage nd; pure (.publish q)

def requestId : Message → Option UInt64
  | .createQueue q => some q.msgId
  | .subscribe q => some q.msgId
  | .unsubscribe q => some q.msgId
  | .publish q => some q.messageId
  | _ => none

def scheme : Message → List FieldType
  | .ok _ => Ok.Scheme
  | .login _ => Login.Scheme
  | .loginConfirm _ => LoginConfirm.Scheme
  | .createQueue _ => CreateQueue.Scheme
  | .subscribe _ | .unsubscribe _ => ChangeSubscribe.Scheme
  | .publish _ => Publish.Scheme

def args : (m : Message) → Vals m.scheme
  | .ok q => q.args
  | .login q => q.args
  | .loginConfirm q => q.args
  | .createQueue q => q.args
  | .subscribe q => q.args
  | .unsubscribe q => q.args
  | .publish q => q.args

def capacity (m : Message) : Nat := Scheme.capacity m.scheme m.args

def body (m : Message) : Bytes := payloads m.scheme m.args

@[simp] theorem body_length (m : Message) : m.body.length = m.capacity := payloads_length _ _

def wire (m : Message) : Bytes :=
  leBytes 4 (6+m.capacity) ++ (leBytes 2 m.kind.toNat ++ m.body)

@[simp] theorem wire_length (m : Message) : m.wire.length = 6+m.capacity := by
  simp [wire]; omega

/-- The sizes for which the 32-bit arithmetic of a frame does not wrap. -/
def Sendable (m : Message) : Prop := 6+m.capacity < 2^31

instance (m : Message) : Decidable m.Sendable := inferInstanceAs (Decidable (_ < _))

end Message

theorem Queries.toFrame_ok (kind : MessageKinds) (ts : List FieldType) (vs : Vals ts)
    (h : 6+Scheme.capacity ts vs < 2^31) :
    ∃ nd, toFrame kind ts vs = .ok nd ∧ nd.Frame kind.toNat (payloads ts vs) := by
  have hsz : (Scheme.capacity ts vs+NetworkMessage.sizeOfKind)%2^64 = Scheme.capacity ts vs+2 := by
    simp only [NetworkMessage.sizeOfKind]; omega
  obtain ⟨nd,hnd,hsize,hhead⟩ := NetworkMessage.ofSize_ok (by omega)
    (show Scheme.capacity ts vs+2+4 < 2^31 by omega)
  have hk : NetworkMessage.sizeOfMessageSize+(leBytes 2 kind.toNat).length ≤ nd.data.size := by
    simp [NetworkMessage.sizeOfMessageSize]; omega
  obtain ⟨m₁,h₁⟩ := Block.write_ok hk
  have hs₁ := Block.write_size h₁
  obtain ⟨m₂,h₂,w₂⟩ := Scheme.write_ok m₁ NetworkMessage.value ts vs
    (by
      simp only [NetworkMessage.value,NetworkMessage.sizeOfMessageSize,NetworkMessage.sizeOfKind]
      omega)
  refine ⟨⟨m₂⟩,?_,?_,?_⟩
  · simp only [toFrame,NetworkMessage.ofSizeKind,NetworkMessage.setKind,hsz,hnd,h₁,h₂,
      bind,Except.bind,pure,Except.pure]
  · have hhead' : m₂.Holds 0 (leBytes 4 (6+(payloads ts vs).length)) := by
      have he : Scheme.capacity ts vs+2+4 = 6+(payloads ts vs).length := by
        rw [payloads_length]; omega
      rw [← he]
      refine w₂.holds_before (hhead.frame h₁ (Or.inl ?_)) ?_
      · simp [NetworkMessage.sizeOfMessageSize]
      · simp [NetworkMessage.value,NetworkMessage.sizeOfMessageSize,NetworkMessage.sizeOfKind]
    have hkind : m₂.Holds 4 (leBytes 2 kind.toNat) :=
      w₂.holds_before (Block.holds_write h₁)
        (by simp [NetworkMessage.value,NetworkMessage.sizeOfMessageSize,NetworkMessage.sizeOfKind])
    refine Block.Holds.append hhead' ?_
    rw [leBytes_length,Nat.zero_add]
    refine Block.Holds.append hkind ?_
    rw [leBytes_length]
    exact w₂.holds
  · show 6+(payloads ts vs).length ≤ m₂.size
    rw [payloads_length,w₂.size]
    omega

/-- Any value whose frame would have 2^31 bytes or more leaves the block, in
`memset` or in one of the writers. -/
theorem Queries.toFrame_bound {kind : MessageKinds} {ts : List FieldType} {vs : Vals ts}
    {nd : NetworkMessage} (h : toFrame kind ts vs = .ok nd) : 6+Scheme.capacity ts vs < 2^31 := by
  obtain ⟨nd₁,h₁,h⟩ := bind_eq_ok h
  obtain ⟨m₂,h₂,_⟩ := bind_eq_ok h
  obtain ⟨nd₀,h₀,hk⟩ := bind_eq_ok h₁
  obtain ⟨m₁,hm₁,hk⟩ := bind_eq_ok hk
  obtain rfl := (Except.ok.inj hk).symm
  have hsize := NetworkMessage.ofSize_data_size h₀
  have hs₁ := Block.write_size hm₁
  have hb₁ := Block.write_bound hm₁
  rw [leBytes_length,NetworkMessage.sizeOfMessageSize] at hb₁
  have hb : 6+Scheme.capacity ts vs ≤ m₁.size := writeArgs_bound (by omega) h₂
  have hsmall : ¬ 2^31 ≤ NetworkMessage.realSize ((Scheme.capacity ts vs+2)%2^64) := by
    intro hl
    rw [NetworkMessage.sizeOfKind,NetworkMessage.ofSize_large hl] at h₀
    cases h₀
  simp only [NetworkMessage.sizeOfKind] at hsize
  unfold NetworkMessage.allocated NetworkMessage.realSize at hsize
  unfold NetworkMessage.realSize at hsmall
  simp only [NetworkMessage.sizeOfMessageSize] at hsize hsmall
  omega

namespace Message

theorem toNetworkMessage_ok (m : Message) (h : m.Sendable) :
    ∃ nd, m.toNetworkMessage = .ok nd ∧ nd.Frame m.kind.toNat m.body := by
  cases m with
  | ok q => exact toFrame_ok .OK _ q.args h
  | login q => exact toFrame_ok .LOGIN _ q.args h
  | loginConfirm q => exact toFrame_ok .LOGIN_CONFIRM _ q.args h
  | createQueue q => exact toFrame_ok .CREATE_QUEUE _ q.args h
  | subscribe q =>
    obtain ⟨nd,hnd,hf⟩ := toFrame_ok .SUBSCRIBE _ q.args h
    obtain ⟨nd',hnd',hf'⟩ := hf.setKind MessageKinds.SUBSCRIBE.toNat
    refine ⟨nd',?_,hf'⟩
    simp [toNetworkMessage,ChangeSubscribe.toNetworkMessage,hnd,hnd',bind,Except.bind]
  | unsubscribe q =>
    obtain ⟨nd,hnd,hf⟩ := toFrame_ok .SUBSCRIBE _ q.args h
    obtain ⟨nd',hnd',hf'⟩ := hf.setKind MessageKinds.UNSUBSCRIBE.toNat
    refine ⟨nd',?_,hf'⟩
    simp [toNetworkMessage,ChangeSubscribe.toNetworkMessage,hnd,hnd',bind,Except.bind]
  | publish q => exact toFrame_ok .PUBLISH _ q.args h

theorem sendable_of_ok {m : Message} {nd : NetworkMessage} (h : m.toNetworkMessage = .ok nd) :
    m.Sendable := by
  cases m with
  | ok q => exact toFrame_bound h
  | login q => exact toFrame_bound h
  | loginConfirm q => exact toFrame_bound h
  | createQueue q => exact toFrame_bound h
  | subscribe q =>
    obtain ⟨nd₁,h₁,_⟩ := bind_eq_ok h
    exact toFrame_bound h₁
  | unsubscribe q =>
    obtain ⟨nd₁,h₁,_⟩ := bind_eq_ok h
    exact toFrame_bound h₁
  | publish q => exact toFrame_bound h

theorem frame_of_ok {m : Message} {nd : NetworkMessage} (h : m.toNetworkMessage = .ok nd) :
    nd.Frame m.kind.toNat m.body := by
  obtain ⟨nd',h',hf⟩ := m.toNetworkMessage_ok (sendable_of_ok h)
  rw [h] at h'
  rwa [Except.ok.inj h']

theorem asBuffer_of_ok {m : Message} {nd : NetworkMessage} (h : m.toNetworkMessage = .ok nd) :
    nd.asBuffer = .ok m.wire := by
  have hs := sendable_of_ok h
  have hb := (frame_of_ok h).asBuffer_eq (by rw [body_length]; unfold Sendable at hs; omega)
  rwa [body_length] at hb

theorem vector_size_pos (m : Message) (n : Nat) (h : FieldType.vector n ∈ m.scheme) : 0 < n := by
  cases m <;> simp [scheme] at h
  omega

theorem args_fit (m : Message) (h : m.Sendable) : AllFit m.scheme m.args :=
  allFit_of_capacity m.vector_size_pos (Nat.le_refl _) (by
    unfold Sendable capacity at h; omega)

theorem ofKind_of_frame {m : Message} {nd : NetworkMessage} (h : m.Sendable)
    (hf : nd.Frame m.kind.toNat m.body) : ofKind nd m.kind = .ok m := by
  have hr : Scheme.read nd.data NetworkMessage.value m.scheme = .ok m.args :=
    Scheme.read_ok (m.args_fit h) hf.value (by
      have hroom := hf.room
      rw [body_length] at hroom
      exact hroom)
  cases m <;> simp only [scheme,args] at hr <;>
    simp only [kind,ofKind,Ok.ofNetworkMessage,Login.ofNetworkMessage,LoginConfirm.ofNetworkMessage,
      CreateQueue.ofNetworkMessage,ChangeSubscribe.ofNetworkMessage,Publish.ofNetworkMessage,hr,
      bind,Except.bind,pure,Except.pure,Ok.args,Login.args,LoginConfirm.args,CreateQueue.args,
      ChangeSubscribe.args,Publish.args,ofU64_u64,ofU8s_u8s]

end Message

end Dqueue
