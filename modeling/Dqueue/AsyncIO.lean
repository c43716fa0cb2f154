import Dqueue.Queries
import Dqueue.Lib.Framing
import Dqueue.Lib.ComposedWrite

/-!
`AsyncIO`: the receive loop `readNextAsync` over the bytes of a connection, and
`send` over the composed writes of its socket. `async_read` gives exactly the
requested bytes, once so many have arrived, however they were split on the way.
-/

set_option autoImplicit false

namespace Dqueue.AsyncIO
open RawMem Framing

def asyncRead (k : Nat) (s : Bytes) : Option (Bytes × Bytes) :=
  if k ≤ s.length then some (s.take k,s.drop k) else none

/-- `next_message_size - SIZE_OF_MESSAGE_SIZE`, a subtraction of `size_t`. -/
def dataLeft (nextMessageSize : Nat) : Nat :=
  (((nextMessageSize : Int)-NetworkMessage.sizeOfMessageSize)%2^64).toNat

/-- One turn of the loop. Issuing a read whose target leaves the block counts as
the access it allows the peer to make. -/
def readNextAsync (s : Bytes) : Pull UInt8 Fault NetworkMessage :=
  match asyncRead NetworkMessage.sizeOfMessageSize s with
  | none => .wait
  | some (hdr,rest) =>
    let data_left := dataLeft (leNat hdr)
    match NetworkMessage.ofSize data_left with
    | .error f => .stop f
    | .ok d =>
      if NetworkMessage.sizeOfMessageSize+data_left ≤ d.data.size then
        match asyncRead data_left rest with
        | none => .wait
        | some (buf,rest) =>
          match d.data.write NetworkMessage.sizeOfMessageSize buf with
          | .error f => .stop f
          | .ok data => .item ⟨data⟩ rest
      else .stop .outOfBounds

/-- The frames handed to the receive handler. Neither party's handler sets the
cancel flag, so the loop goes on until it waits or faults. -/
def readLoop (s : Bytes) : Drained UInt8 Fault NetworkMessage := drainAll readNextAsync s

/-- The sending half of a connection. `alive` tells whether the weak pointer to
the socket can be locked, `broken` that the socket takes no more bytes; `issued`
records the frames of the `send` calls that reached `async_write`. -/
structure Sender where
  messagesToSend : Int
  beginStopingFlag : Bool
  alive : Bool
  broken : Bool
  socket : ComposedWrite.Socket UInt8
  issued : List Bytes
  deriving DecidableEq, Repr

def Sender.start : Sender := ⟨0,false,true,false,⟨[],[]⟩,[]⟩

/-- What can happen to the sending half: a call of `send`, one partial write
that transfers a non-empty prefix of what is left, the write at the head of the
queue completing with an error, `full_stop`, and the loss of the socket. -/
inductive Sender.Event where
  | send (d : NetworkMessage)
  | transfer (k : Nat)
  | fail
  | fullStop
  | expire
  deriving DecidableEq, Repr

def Sender.send (s : Sender) (d : NetworkMessage) : Sender :=
  if s.beginStopingFlag then s
  else
    match d.asBuffer with
    | .error _ => s
    | .ok buf =>
      if s.alive then
        { s with
          messagesToSend := s.messagesToSend+1
          socket := s.socket.issue buf
          issued := s.issued ++ [buf] }
      else s

/-- The completion handler of `async_write` runs when the last partial write is
done; only its success branch counts the message as sent. -/
def Sender.transfer (s : Sender) (k : Nat) : Sender :=
  if s.broken || k == 0 then s
  else
    { s with
      messagesToSend := if s.socket.finishes k then s.messagesToSend-1 else s.messagesToSend
      socket := s.socket.transfer k }

def Sender.step (s : Sender) : Sender.Event → Sender
  | .send d => s.send d
  | .transfer k => s.transfer k
  | .fail => { s with broken := true, socket := { s.socket with pending := s.socket.pending.tail } }
  | .fullStop => { s with beginStopingFlag := true, broken := true }
  | .expire => { s with alive := false, broken := true }

/-- The message of a frame that has arrived as `bs`: the second half of its
block has never been written. -/
def received (bs : Bytes) : NetworkMessage :=
  ⟨⟨bs.map some ++ List.replicate bs.length none⟩⟩

theorem asyncRead_some {k : Nat} {s : Bytes} (h : k ≤ s.length) :
    asyncRead k s = some (s.take k,s.drop k) := by simp [asyncRead,h]

theorem asyncRead_none {k : Nat} {s : Bytes} (h : s.length < k) : asyncRead k s = none := by
  simp [asyncRead]; omega

theorem dataLeft_of_le {n : Nat} (h : 4 ≤ n) (hn : n < 2^32) : dataLeft n = n-4 := by
  simp only [dataLeft,NetworkMessage.sizeOfMessageSize]; omega

theorem leNat_header_lt {s : Bytes} (h : 4 ≤ s.length) : leNat (s.take 4) < 2^32 := by
  have hlt := leNat_lt (s.take 4)
  have hlen : (s.take 4).length = 4 := by simp; omega
  rw [hlen] at hlt
  simpa using hlt

/-- The header of a frame with an admissible size: the block is allocated and
the loop goes on to read the rest. -/
theorem readNextAsync_header {s : Bytes} {n : Nat} (hs : 4 ≤ s.length)
    (hn : leNat (s.take 4) = n) (h₀ : 5 ≤ n) (h₁ : n < 2^31) :
    ∃ d, NetworkMessage.ofSize (n-4) = .ok d ∧ d.data.size = n*2 ∧ d.data.Holds 0 (leBytes 4 n) ∧
      readNextAsync s =
        match asyncRead (n-4) (s.drop 4) with
        | none => .wait
        | some (buf,rest) =>
          match d.data.write 4 buf with
          | .error f => .stop f
          | .ok data => .item ⟨data⟩ rest := by
  have hleft : dataLeft n = n-4 := dataLeft_of_le (by omega) (by omega)
  have hn4 : n-4+4 = n := by omega
  obtain ⟨d,hd,hsize,hhold⟩ := NetworkMessage.ofSize_ok (by omega) (show n-4+4 < 2^31 by omega)
  rw [hn4] at hsize hhold
  refine ⟨d,hd,hsize,hhold,?_⟩
  have hroom : 4+(n-4) ≤ d.data.size := by omega
  simp only [readNextAsync,NetworkMessage.sizeOfMessageSize,asyncRead_some hs,hn,hleft,hd,hroom,
    if_true]

theorem readNextAsync_wait {s : Bytes} {n : Nat} (hs : 4 ≤ s.length)
    (hn : leNat (s.take 4) = n) (h₀ : 5 ≤ n) (h₁ : n < 2^31) (hshort : s.length < n) :
    readNextAsync s = .wait := by
  obtain ⟨d,_,_,_,he⟩ := readNextAsync_header hs hn h₀ h₁
  rw [he,asyncRead_none (by simp; omega)]

theorem received_cells {d : NetworkMessage} {bs buf : Bytes} {data : Block}
    (hlen : 4 ≤ bs.length) (hold : d.data.Holds 0 (bs.take 4))
    (hbuf : buf = bs.drop 4)
    (hrest : ∀ j, bs.length ≤ j → d.data.cells[j]? = (List.replicate (bs.length*2) none)[j]?)
    (h : d.data.write 4 buf = .ok data) : data.cells = (received bs).data.cells := by
  subst hbuf
  apply List.ext_getElem?
  intro j
  rw [Block.write_cells h]
  simp only [received]
  by_cases h₁ : j < bs.length
  · rw [List.getElem?_append_left (by simpa using h₁)]
    by_cases h₄ : j < 4
    · have hj := hold j _ (by rw [List.getElem?_take,if_pos h₄]; exact List.getElem?_eq_getElem h₁)
      rw [if_neg (by omega)]
      rw [Nat.zero_add] at hj
      simp [hj,h₁]
    · rw [if_pos ⟨by omega,by simp; omega⟩]
      have he : 4+(j-4) = j := by omega
      simp [List.getElem?_drop,he]
  · rw [if_neg (by simp; omega),hrest j (by omega),
      List.getElem?_append_right (by simpa using h₁)]
    simp only [List.length_map,List.getElem?_replicate]
    by_cases h₂ : j < bs.length*2
    · simp [h₂,show j-bs.length < bs.length by omega]
    · simp [h₂,show ¬ j-bs.length < bs.length by omega]

/-- Cells behind the frame are allocated and never written. -/
theorem ofSize_tail {n : Nat} {d : NetworkMessage} (h₀ : 4 ≤ n) (h₁ : n < 2^31)
    (h : NetworkMessage.ofSize (n-4) = .ok d) (j : Nat) (hj : n ≤ j) :
    d.data.cells[j]? = (List.replicate (n*2) none)[j]? := by
  have hr : NetworkMessage.realSize (n-4) = n := by
    simp only [NetworkMessage.realSize,NetworkMessage.sizeOfMessageSize]; omega
  have ha : NetworkMessage.allocated (n-4) = n*2 := by
    rw [NetworkMessage.allocated,hr]; omega
  obtain ⟨m₁,hm₁,h⟩ := bind_eq_ok h
  obtain ⟨m₂,hm₂,h⟩ := bind_eq_ok h
  obtain rfl := (Except.ok.inj h).symm
  rw [hr] at hm₁ hm₂
  rw [ha] at hm₁
  rw [Block.write_cells hm₂,if_neg (by simp; omega),Block.write_cells hm₁,if_neg (by simp; omega)]
  rfl

theorem readNextAsync_item {s : Bytes} {n : Nat} (hs : n ≤ s.length)
    (hn : leNat (s.take 4) = n) (h₀ : 5 ≤ n) (h₁ : n < 2^31) :
    readNextAsync s = .item (received (s.take n)) (s.drop n) := by
  obtain ⟨d,hd,hsize,hhold,he⟩ := readNextAsync_header (by omega) hn h₀ h₁
  have hlen : (s.take n).length = n := by simp; omega
  have hrd : asyncRead (n-4) (s.drop 4) = some ((s.take n).drop 4,s.drop n) := by
    rw [asyncRead_some (by simp; omega)]
    simp only [List.drop_drop,Option.some.injEq,Prod.mk.injEq]
    exact ⟨(List.drop_take).symm,congrArg (s.drop ·) (by omega)⟩
  have hb : 4+((s.take n).drop 4).length ≤ d.data.size := by
    rw [List.length_drop,hlen,hsize]; omega
  obtain ⟨data,hw⟩ := Block.write_ok hb
  have hhdr : leBytes 4 n = (s.take n).take 4 := by
    have hle := leBytes_leNat (s.take 4)
    rw [hn,List.length_take,Nat.min_eq_left (by omega)] at hle
    rw [hle,List.take_take,Nat.min_eq_left (by omega)]
  rw [hhdr] at hhold
  have hcells := received_cells (by omega) hhold rfl
    (by rw [hlen]; exact ofSize_tail (by omega) h₁ hd) hw
  rw [he,hrd]
  simp only [hw]
  have hdata : (⟨data⟩ : NetworkMessage) = received (s.take n) := by
    obtain ⟨cells⟩ := data
    simp only at hcells
    rw [hcells]
  rw [hdata]

theorem readNextAsync_short {s : Bytes} (h : s.length < 4) : readNextAsync s = .wait := by
  simp only [readNextAsync,NetworkMessage.sizeOfMessageSize,asyncRead_none h]

end Dqueue.AsyncIO
