import Dqueue.Wire
import Dqueue.Lib.Arrivals
import Dqueue.Lib.Runs

/-!
The receiving half of `AsyncIO`, one completion at a time. A frame takes two
reads, bytes arrive between them in any portions, and the next read is issued
only behind the handler of the message before.
-/

set_option autoImplicit false

namespace Dqueue.AsyncIO
open RawMem Framing

/-- An outstanding read: of `next_message_size`, or of what is left of a message. -/
inductive ReadOp where
  | size
  | message (d : NetworkMessage) (dataLeft : Nat)
  deriving DecidableEq, Repr

def ReadOp.bytes : ReadOp → Nat
  | .size => NetworkMessage.sizeOfMessageSize
  | .message _ dataLeft => dataLeft

inductive HandlerEnd where
  | returns
  | cancels
  | throws
  deriving DecidableEq, Repr

/-- `arrived` has the bytes that no read has taken yet, `stream` all that have
arrived; `received` has the messages handed to `_on_recv_hadler` and `errors`
counts the calls of `_on_error_handler`. -/
structure Receiver where
  isStoped : Bool
  beginStopingFlag : Bool
  alive : Bool
  isOpen : Bool
  arrived : Bytes
  stream : Bytes
  outstanding : List ReadOp
  received : List NetworkMessage
  errors : Nat
  fault : Option Fault
  deriving DecidableEq, Repr

/-- What can happen: a call of `start`, bytes coming in, the completion of an
outstanding read, with the end of the handler it leads to or with an error,
`full_stop`, and the loss of the socket. -/
inductive Receiver.Event where
  | start
  | arrive (bs : Bytes)
  | complete (k : Nat) (handler : HandlerEnd)
  | fail (k : Nat)
  | fullStop
  | expire
  deriving DecidableEq, Repr

namespace Receiver

/-- A new object on a socket. `_begin_stoping_flag` has no value before `start`. -/
def create : Receiver := ⟨true,false,true,true,[],[],[],[],0,none⟩

def readNext (r : Receiver) : Receiver :=
  if r.alive then { r with outstanding := r.outstanding ++ [.size] } else r

/-- `full_stop` does not set `_is_stoped`, so only the first call has an effect. -/
def startReading (r : Receiver) : Receiver :=
  if !r.isStoped then r
  else readNext { r with isStoped := false, beginStopingFlag := false }

/-- `on_read_size`. The completion of a read that took place has the size that
was asked for. -/
def onReadSize (r : Receiver) (hdr : Bytes) : Receiver :=
  let data_left := dataLeft (leNat hdr)
  match NetworkMessage.ofSize data_left with
  | .error f => { r with fault := some f }
  | .ok d =>
    if NetworkMessage.sizeOfMessageSize+data_left ≤ d.data.size then
      { r with outstanding := r.outstanding ++ [.message d data_left] }
    else { r with fault := some .outOfBounds }

def onReadMessage (r : Receiver) (d : NetworkMessage) (buf : Bytes) (handler : HandlerEnd) :
    Receiver :=
  match d.data.write NetworkMessage.sizeOfMessageSize buf with
  | .error f => { r with fault := some f }
  | .ok data =>
    let r := { r with received := r.received ++ [⟨data⟩] }
    if handler = .returns then r.readNext else r

def taken (r : Receiver) (k : Nat) (rest : Bytes) : Receiver :=
  { r with arrived := rest, outstanding := r.outstanding.eraseIdx k }

def complete (r : Receiver) (k : Nat) (handler : HandlerEnd) : Receiver :=
  match r.outstanding[k]? with
  | none => r
  | some .size =>
    match asyncRead NetworkMessage.sizeOfMessageSize r.arrived with
    | none => r
    | some (hdr,rest) => (r.taken k rest).onReadSize hdr
  | some (.message d data_left) =>
    match asyncRead data_left r.arrived with
    | none => r
    | some (buf,rest) => (r.taken k rest).onReadMessage d buf handler

/-- Nothing is known about what follows a fault. -/
def step (r : Receiver) (e : Receiver.Event) : Receiver :=
  if r.fault.isSome then r
  else
    match e with
    | .start => r.startReading
    | .arrive bs =>
      if r.isOpen then { r with arrived := r.arrived ++ bs, stream := r.stream ++ bs } else r
    | .complete k handler => r.complete k handler
    | .fail k =>
      if k < r.outstanding.length then
        { r with outstanding := r.outstanding.eraseIdx k, errors := r.errors+1 }
      else r
    | .fullStop => { r with beginStopingFlag := true, isOpen := false }
    | .expire => { r with alive := false, isOpen := false }

def run (r : Receiver) (es : List Receiver.Event) : Receiver := es.foldl step r

def Quiet (r : Receiver) : Prop := ∀ op ∈ r.outstanding, r.arrived.length < op.bytes

instance (r : Receiver) : Decidable r.Quiet := inferInstanceAs (Decidable (∀ op ∈ _, _))

inductive Stage (r : Receiver) (s : Bytes) : Prop where
  | created (stoped : r.isStoped = true) (outstanding : r.outstanding = [])
      (fault : r.fault = none) (arrived : s = r.arrived)
  | ended (started : r.isStoped = false) (outstanding : r.outstanding = [])
      (fault : r.fault = none)
  | size (started : r.isStoped = false) (outstanding : r.outstanding = [.size])
      (fault : r.fault = none) (arrived : s = r.arrived)
  | message {hdr : Bytes} {d : NetworkMessage} (started : r.isStoped = false)
      (outstanding : r.outstanding = [.message d (dataLeft (leNat hdr))])
      (fault : r.fault = none) (length : hdr.length = 4)
      (block : NetworkMessage.ofSize (dataLeft (leNat hdr)) = .ok d)
      (room : NetworkMessage.sizeOfMessageSize+dataLeft (leNat hdr) ≤ d.data.size)
      (arrived : s = hdr ++ r.arrived)
  | faulted {f : Fault} (started : r.isStoped = false) (outstanding : r.outstanding = [])
      (fault : r.fault = some f) (stopped : readNextAsync s = .stop f)

def Reads (r : Receiver) : Prop :=
  ∃ s, Pulls readNextAsync r.stream r.received s ∧ r.Stage s

end Receiver

theorem asyncRead_append {k : Nat} {s buf rest : Bytes} (h : asyncRead k s = some (buf,rest))
    (tail : Bytes) : asyncRead k (s ++ tail) = some (buf,rest ++ tail) := by
  unfold asyncRead at h
  split at h
  · rename_i hle
    cases h
    rw [asyncRead_some (by simp; omega),List.take_append_of_le_length hle,
      List.drop_append_of_le_length hle]
  · cases h

theorem asyncRead_eq {k : Nat} {s buf rest : Bytes} (h : asyncRead k s = some (buf,rest)) :
    s = buf ++ rest ∧ buf.length = k := by
  unfold asyncRead at h
  split at h
  · rename_i hle
    cases h
    exact ⟨(List.take_append_drop k s).symm,by simp [hle]⟩
  · cases h

def readMessage (hdr rest : Bytes) : Pull UInt8 Fault NetworkMessage :=
  let data_left := dataLeft (leNat hdr)
  match NetworkMessage.ofSize data_left with
  | .error f => .stop f
  | .ok d =>
    if NetworkMessage.sizeOfMessageSize+data_left ≤ d.data.size then
      match asyncRead data_left rest with
      | none => .wait
      | some (buf,rest) =>
        match d.data.write NetworkMessage.sizeOfMessageSize buf with
        | .error f => .stop f
        | .ok data => .item ⟨data⟩ rest
    else .stop .outOfBounds

theorem readNextAsync_eq {s hdr rest : Bytes}
    (h : asyncRead NetworkMessage.sizeOfMessageSize s = some (hdr,rest)) :
    readNextAsync s = readMessage hdr rest := by
  simp only [readNextAsync,h]
  rfl

theorem readNextAsync_hdr {hdr : Bytes} (h : hdr.length = 4) (rest : Bytes) :
    readNextAsync (hdr ++ rest) = readMessage hdr rest := by
  refine readNextAsync_eq ?_
  rw [NetworkMessage.sizeOfMessageSize,asyncRead_some (by simp [h])]
  simp [← h]

theorem readMessage_append {hdr rest : Bytes} (h : readMessage hdr rest ≠ .wait) (tail : Bytes) :
    (∃ f, readMessage hdr rest = .stop f ∧ readMessage hdr (rest ++ tail) = .stop f) ∨
      ∃ x r, readMessage hdr rest = .item x r ∧
        readMessage hdr (rest ++ tail) = .item x (r ++ tail) := by
  unfold readMessage at h ⊢
  cases hd : NetworkMessage.ofSize (dataLeft (leNat hdr)) with
  | error f => exact .inl ⟨f,by simp [hd],by simp [hd]⟩
  | ok d =>
    simp only [hd] at h ⊢
    by_cases hroom : NetworkMessage.sizeOfMessageSize+dataLeft (leNat hdr) ≤ d.data.size
    · simp only [if_pos hroom] at h ⊢
      cases hr : asyncRead (dataLeft (leNat hdr)) rest with
      | none => simp [hr] at h
      | some y =>
        obtain ⟨buf,r⟩ := y
        rw [asyncRead_append hr tail]
        simp only
        cases d.data.write NetworkMessage.sizeOfMessageSize buf with
        | error f => exact .inl ⟨f,rfl,rfl⟩
        | ok data => exact .inr ⟨⟨data⟩,r,rfl,rfl⟩
    · simp only [if_neg hroom]
      exact .inl ⟨.outOfBounds,rfl,rfl⟩

theorem readNextAsync_append {s : Bytes} (h : readNextAsync s ≠ .wait) (tail : Bytes) :
    (∃ f, readNextAsync s = .stop f ∧ readNextAsync (s ++ tail) = .stop f) ∨
      ∃ x r, readNextAsync s = .item x r ∧ readNextAsync (s ++ tail) = .item x (r ++ tail) := by
  cases hr : asyncRead NetworkMessage.sizeOfMessageSize s with
  | none => simp [readNextAsync,hr] at h
  | some y =>
    obtain ⟨hdr,rest⟩ := y
    rw [readNextAsync_eq hr] at h ⊢
    rw [readNextAsync_eq (asyncRead_append hr tail)]
    exact readMessage_append h tail

theorem readNextAsync_steady : Steady readNextAsync where
  shrinks := readNextAsync_shrinks
  item s x rest tail h := by
    have hne : readNextAsync s ≠ .wait := by simp [h]
    rcases readNextAsync_append hne tail with ⟨f,hf,-⟩ | ⟨x',r,hx,htail⟩
    · rw [h] at hf
      cases hf
    · rw [h] at hx
      cases hx
      exact htail
  stop s e tail h := by
    have hne : readNextAsync s ≠ .wait := by simp [h]
    rcases readNextAsync_append hne tail with ⟨f,hf,htail⟩ | ⟨x',r,hx,-⟩
    · rw [h] at hf
      cases hf
      exact htail
    · rw [h] at hx
      cases hx

namespace Receiver

variable {r : Receiver} {s : Bytes}

theorem Stage.arrive (h : r.Stage s) (bs : Bytes) :
    Stage { r with arrived := r.arrived ++ bs, stream := r.stream ++ bs } (s ++ bs) := by
  cases h with
  | created stoped outstanding fault arrived =>
    exact .created stoped outstanding fault (by rw [arrived])
  | ended started outstanding fault => exact .ended started outstanding fault
  | size started outstanding fault arrived =>
    exact .size started outstanding fault (by rw [arrived])
  | message started outstanding fault length block room arrived =>
    exact .message started outstanding fault length block room (by rw [arrived,List.append_assoc])
  | faulted started outstanding fault stopped =>
    exact .faulted started outstanding fault (readNextAsync_steady.stop _ _ bs stopped)

theorem Stage.congr {r' : Receiver} (h : r.Stage s) (stoped : r'.isStoped = r.isStoped)
    (outstanding : r'.outstanding = r.outstanding) (fault : r'.fault = r.fault)
    (arrived : r'.arrived = r.arrived) : r'.Stage s := by
  cases h with
  | created hs ho hf ha =>
    exact .created (stoped.trans hs) (outstanding.trans ho) (fault.trans hf)
      (ha.trans arrived.symm)
  | ended hs ho hf => exact .ended (stoped.trans hs) (outstanding.trans ho) (fault.trans hf)
  | size hs ho hf ha =>
    exact .size (stoped.trans hs) (outstanding.trans ho) (fault.trans hf) (ha.trans arrived.symm)
  | message hs ho hf length block room ha =>
    exact .message (stoped.trans hs) (outstanding.trans ho) (fault.trans hf) length block room
      (by rw [ha,arrived])
  | faulted hs ho hf stopped =>
    exact .faulted (stoped.trans hs) (outstanding.trans ho) (fault.trans hf) stopped

theorem Stage.length_le (h : r.Stage s) : r.outstanding.length ≤ 1 := by
  cases h with
  | created stoped outstanding fault arrived => simp [outstanding]
  | ended started outstanding fault => simp [outstanding]
  | size started outstanding fault arrived => simp [outstanding]
  | message started outstanding fault length block room arrived => simp [outstanding]
  | faulted started outstanding fault stopped => simp [outstanding]

theorem Reads.readNext (hp : Pulls readNextAsync r.stream r.received r.arrived)
    (started : r.isStoped = false) (outstanding : r.outstanding = []) (fault : r.fault = none) :
    r.readNext.Reads := by
  unfold Receiver.readNext
  split
  · exact ⟨_,hp,.size started (by simp [outstanding]) fault rfl⟩
  · exact ⟨_,hp,.ended started outstanding fault⟩

theorem Reads.create : create.Reads := ⟨[],.nil [],.created rfl rfl rfl rfl⟩

theorem Stage.untouched (h : r.Stage s) (stoped : r.isStoped = true) :
    r.outstanding = [] ∧ r.fault = none ∧ s = r.arrived := by
  cases h with
  | created _ outstanding fault arrived => exact ⟨outstanding,fault,arrived⟩
  | ended started outstanding fault => simp [started] at stoped
  | size started outstanding fault arrived => simp [started] at stoped
  | message started outstanding fault length block room arrived => simp [started] at stoped
  | faulted started outstanding fault stopped => simp [started] at stoped

theorem Reads.start (h : r.Reads) : r.startReading.Reads := by
  unfold startReading
  cases hstoped : r.isStoped with
  | false => exact h
  | true =>
    obtain ⟨s,hp,hs⟩ := h
    obtain ⟨outstanding,fault,rfl⟩ := hs.untouched hstoped
    exact Reads.readNext hp rfl outstanding fault

theorem Reads.onReadSize {hdr : Bytes} (hp : Pulls readNextAsync r.stream r.received
    (hdr ++ r.arrived)) (started : r.isStoped = false) (outstanding : r.outstanding = [])
    (fault : r.fault = none) (length : hdr.length = 4) : (r.onReadSize hdr).Reads := by
  have hread := readNextAsync_hdr length r.arrived
  unfold Receiver.onReadSize
  unfold readMessage at hread
  cases hd : NetworkMessage.ofSize (dataLeft (leNat hdr)) with
  | error f =>
    simp only [hd] at hread ⊢
    exact ⟨_,hp,.faulted started outstanding rfl hread⟩
  | ok d =>
    simp only [hd] at hread ⊢
    split
    · rename_i hroom
      exact ⟨_,hp,.message started (by simp [outstanding]) fault length hd hroom rfl⟩
    · rename_i hroom
      rw [if_neg hroom] at hread
      exact ⟨_,hp,.faulted started outstanding rfl hread⟩

theorem Reads.onReadMessage {hdr buf : Bytes} {d : NetworkMessage}
    (hp : Pulls readNextAsync r.stream r.received (hdr ++ (buf ++ r.arrived)))
    (started : r.isStoped = false) (outstanding : r.outstanding = []) (fault : r.fault = none)
    (length : hdr.length = 4) (block : NetworkMessage.ofSize (dataLeft (leNat hdr)) = .ok d)
    (room : NetworkMessage.sizeOfMessageSize+dataLeft (leNat hdr) ≤ d.data.size)
    (hread : asyncRead (dataLeft (leNat hdr)) (buf ++ r.arrived) = some (buf,r.arrived))
    (handler : HandlerEnd) : (r.onReadMessage d buf handler).Reads := by
  have hnext := readNextAsync_hdr length (buf ++ r.arrived)
  unfold readMessage at hnext
  simp only [block,if_pos room,hread] at hnext
  unfold Receiver.onReadMessage
  cases hw : d.data.write NetworkMessage.sizeOfMessageSize buf with
  | error f =>
    simp only [hw] at hnext ⊢
    exact ⟨_,hp,.faulted started outstanding rfl hnext⟩
  | ok data =>
    simp only [hw] at hnext ⊢
    have hsnoc := hp.snoc hnext
    split
    · exact Reads.readNext hsnoc started outstanding fault
    · exact ⟨r.arrived,hsnoc,.ended started outstanding fault⟩

theorem complete_nil (h : r.outstanding = []) (k : Nat) (handler : HandlerEnd) :
    r.complete k handler = r := by
  simp [complete,h]

theorem getElem?_singleton {α : Type} {a b : α} {k : Nat} (h : [a][k]? = some b) :
    k = 0 ∧ b = a := by
  cases k with
  | zero => exact ⟨rfl,(Option.some.inj h).symm⟩
  | succ k => simp at h

theorem Reads.complete (h : r.Reads) (k : Nat) (handler : HandlerEnd) :
    (r.complete k handler).Reads := by
  obtain ⟨s,hp,hs⟩ := h
  cases hs with
  | created stoped outstanding fault arrived =>
    rw [complete_nil outstanding]
    exact ⟨s,hp,.created stoped outstanding fault arrived⟩
  | ended started outstanding fault =>
    rw [complete_nil outstanding]
    exact ⟨s,hp,.ended started outstanding fault⟩
  | faulted started outstanding fault stopped =>
    rw [complete_nil outstanding]
    exact ⟨s,hp,.faulted started outstanding fault stopped⟩
  | size started outstanding fault arrived =>
    subst arrived
    have hsame : r.Reads := ⟨_,hp,.size started outstanding fault rfl⟩
    unfold Receiver.complete
    cases hk : r.outstanding[k]? with
    | none => exact hsame
    | some op =>
      rw [outstanding] at hk
      obtain ⟨rfl,rfl⟩ := getElem?_singleton hk
      simp only
      cases hr : asyncRead NetworkMessage.sizeOfMessageSize r.arrived with
      | none => exact hsame
      | some y =>
        obtain ⟨hdr,rest⟩ := y
        obtain ⟨he,hlen⟩ := asyncRead_eq hr
        rw [he] at hp
        exact Reads.onReadSize (r := r.taken 0 rest) hp started (by simp [taken,outstanding])
          fault hlen
  | @message hdr d started outstanding fault length block room arrived =>
    subst arrived
    have hsame : r.Reads := ⟨_,hp,.message started outstanding fault length block room rfl⟩
    unfold Receiver.complete
    cases hk : r.outstanding[k]? with
    | none => exact hsame
    | some op =>
      rw [outstanding] at hk
      obtain ⟨rfl,rfl⟩ := getElem?_singleton hk
      simp only
      cases hr : asyncRead (dataLeft (leNat hdr)) r.arrived with
      | none => exact hsame
      | some y =>
        obtain ⟨buf,rest⟩ := y
        obtain ⟨he,hlen⟩ := asyncRead_eq hr
        rw [he] at hp hr
        exact Reads.onReadMessage (r := r.taken 0 rest) hp started
          (by simp [taken,outstanding]) fault length block room hr handler

theorem Reads.step (h : r.Reads) (e : Receiver.Event) : (r.step e).Reads := by
  unfold Receiver.step
  split
  · exact h
  · rename_i hfault
    obtain ⟨s,hp,hs⟩ := h
    cases e with
    | start => exact Reads.start ⟨s,hp,hs⟩
    | arrive bs =>
      simp only
      split
      · exact ⟨s ++ bs,hp.append readNextAsync_steady bs,hs.arrive bs⟩
      · exact ⟨s,hp,hs⟩
    | complete k handler => exact Reads.complete ⟨s,hp,hs⟩ k handler
    | fail k =>
      simp only
      split
      · rename_i hk
        have hlen := hs.length_le
        have hnone : r.outstanding.eraseIdx k = [] := by
          rw [← List.length_eq_zero_iff,List.length_eraseIdx_of_lt hk]
          omega
        have hstarted : r.isStoped = false := by
          cases hstoped : r.isStoped with
          | false => rfl
          | true => simp [(hs.untouched hstoped).1] at hk
        exact ⟨s,hp,.ended hstarted hnone (by simpa using hfault)⟩
      · exact ⟨s,hp,hs⟩
    | fullStop => exact ⟨s,hp,hs.congr rfl rfl rfl rfl⟩
    | expire => exact ⟨s,hp,hs.congr rfl rfl rfl rfl⟩

theorem Stage.waits (h : r.Stage s) (reading : r.outstanding ≠ []) (quiet : r.Quiet) :
    readNextAsync s = .wait := by
  cases h with
  | created stoped outstanding fault arrived => exact absurd outstanding reading
  | ended started outstanding fault => exact absurd outstanding reading
  | faulted started outstanding fault stopped => exact absurd outstanding reading
  | size started outstanding fault arrived =>
    subst arrived
    have hlt := quiet .size (by simp [outstanding])
    exact readNextAsync_short hlt
  | @message hdr d started outstanding fault length block room arrived =>
    subst arrived
    have hlt : r.arrived.length < dataLeft (leNat hdr) :=
      quiet (.message d (dataLeft (leNat hdr))) (by simp [outstanding])
    have hnext := readNextAsync_hdr length r.arrived
    unfold readMessage at hnext
    simp only [block,if_pos room,asyncRead_none hlt] at hnext
    exact hnext

structure InStep (r : Receiver) : Prop where
  one_read : r.outstanding.length ≤ 1
  in_order : r.received <+: (readLoop r.stream).items
  up_to_date : r.outstanding ≠ [] → r.Quiet →
    r.received = (readLoop r.stream).items ∧ (readLoop r.stream).stopped = none
  faults : ∀ f, r.fault = some f →
    r.received = (readLoop r.stream).items ∧ (readLoop r.stream).stopped = some f

theorem Reads.inStep (h : r.Reads) : r.InStep := by
  obtain ⟨s,hp,hs⟩ := h
  obtain ⟨hitems,-,hstopped⟩ := hp.drainAll_items readNextAsync_shrinks
  refine ⟨hs.length_le,⟨_,hitems.symm⟩,fun reading quiet => ?_,fun f hf => ?_⟩
  · have hwait := drainAll_wait (hs.waits reading quiet)
    rw [hwait] at hitems hstopped
    exact ⟨by simpa [readLoop] using hitems.symm,hstopped⟩
  · cases hs with
    | created stoped outstanding fault arrived => simp [fault] at hf
    | ended started outstanding fault => simp [fault] at hf
    | size started outstanding fault arrived => simp [fault] at hf
    | message started outstanding fault length block room arrived => simp [fault] at hf
    | faulted started outstanding fault stopped =>
      rw [fault] at hf
      cases hf
      rw [drainAll_stop stopped] at hitems hstopped
      exact ⟨by simpa [readLoop] using hitems.symm,hstopped⟩

end Receiver

theorem Receiver.run_reads (es : List Receiver.Event) : (Receiver.create.run es).Reads :=
  Runs.invariant (fun _ e h => h.step e) Receiver.Reads.create es

/-- However the bytes are split and whatever order the completions come in, at most
one read is outstanding, and the messages handed over are the first ones that the
loop finds in the bytes; all of them when the outstanding read has to wait, and all
in front of a frame that makes the code leave its block. -/
theorem receiver_in_step (es : List Receiver.Event) : (Receiver.create.run es).InStep :=
  (Receiver.run_reads es).inStep

/-- An OK that comes in three portions, the first before `start`. -/
example : (Receiver.create.run [.arrive ((Message.wire (.ok ⟨1⟩)).take 3),.start,
    .complete 0 .returns,.arrive [0],.complete 0 .returns,.complete 0 .returns,
    .arrive ((Message.wire (.ok ⟨1⟩)).drop 4),.complete 0 .returns]).received =
      [received (Message.wire (.ok ⟨1⟩))] := by decide +kernel

end Dqueue.AsyncIO
