import Dqueue.Serialisation

/-!
The frame that travels between the parties: a 32-bit size that counts itself, a
16-bit kind, and the serialised query. The size arithmetic is the source's:
`size_t` has 64 bits, `message_size` has 32, and `realSize * 2` is computed in
32 bits before it reaches `new`.
-/

set_option autoImplicit false

namespace Dqueue
open RawMem Serialisation

/-- `data` points to the block; `size` is its first four bytes. -/
structure NetworkMessage where
  data : Block
  deriving DecidableEq, Repr

namespace NetworkMessage

def sizeOfMessageSize : Nat := 4
def sizeOfKind : Nat := 2

/-- `static_cast<message_size>(sz + SIZE_OF_MESSAGE_SIZE)`. -/
def realSize (sz : Nat) : Nat := (sz+sizeOfMessageSize)%2^64%2^32

/-- The length handed to `new uint8_t[]`. -/
def allocated (sz : Nat) : Nat := realSize sz*2%2^32

def ofSize (sz : Nat) : Except Fault NetworkMessage := do
  let data := Block.alloc (allocated sz)
  let data ← data.write 0 (List.replicate (realSize sz) 0)
  let data ← data.write 0 (leBytes 4 (realSize sz))
  pure ⟨data⟩

def setKind (nd : NetworkMessage) (kind : Nat) : Except Fault NetworkMessage := do
  let data ← nd.data.write sizeOfMessageSize (leBytes 2 kind)
  pure ⟨data⟩

def ofSizeKind (sz kind : Nat) : Except Fault NetworkMessage := do
  let nd ← ofSize ((sz+sizeOfKind)%2^64)
  nd.setKind kind

def value : Nat := sizeOfMessageSize+sizeOfKind

def size (nd : NetworkMessage) : Except Fault Nat := do
  let bs ← nd.data.read 0 4
  pure (leNat bs)

def asBuffer (nd : NetworkMessage) : Except Fault Bytes := do
  let bufSize ← nd.size
  nd.data.read 0 bufSize

def kind (nd : NetworkMessage) : Except Fault Nat := do
  let bs ← nd.data.read sizeOfMessageSize 2
  pure (leNat bs)

end NetworkMessage

/-- A received or completed frame: the block starts with these bytes, which
begin with their own number. -/
structure NetworkMessage.Frame (nd : NetworkMessage) (kind : Nat) (body : Bytes) : Prop where
  holds : nd.data.Holds 0 (leBytes 4 (6+body.length) ++ (leBytes 2 kind ++ body))
  room : 6+body.length ≤ nd.data.size

namespace NetworkMessage
variable {nd : NetworkMessage} {k : Nat} {body : Bytes}

theorem Frame.header (h : nd.Frame k body) : nd.data.Holds 0 (leBytes 4 (6+body.length)) :=
  h.holds.left

theorem Frame.kindHolds (h : nd.Frame k body) : nd.data.Holds 4 (leBytes 2 k) := by
  have hr := h.holds.right.left
  rwa [leBytes_length,Nat.zero_add] at hr

theorem Frame.value (h : nd.Frame k body) : nd.data.Holds value body := by
  have hr := h.holds.right.right
  rwa [leBytes_length,leBytes_length] at hr

theorem Frame.size_eq (h : nd.Frame k body) (hlt : 6+body.length < 2^32) :
    nd.size = .ok (6+body.length) := by
  have hr := Block.read_of_holds h.header (by have := h.room; rw [leBytes_length]; omega)
  rw [leBytes_length] at hr
  simp [NetworkMessage.size,hr,bind,Except.bind,pure,Except.pure,
    leNat_leBytes_of_lt (k := 4) (n := 6+body.length) (by simpa using hlt)]

theorem Frame.kind_eq (h : nd.Frame k body) (hk : k < 2^16) : nd.kind = .ok k := by
  have hr := Block.read_of_holds h.kindHolds (by have := h.room; rw [leBytes_length]; omega)
  rw [leBytes_length] at hr
  simp [NetworkMessage.kind,sizeOfMessageSize,hr,bind,Except.bind,pure,Except.pure,
    leNat_leBytes_of_lt (k := 2) (n := k) (by simpa using hk)]

theorem Frame.asBuffer_eq (h : nd.Frame k body) (hlt : 6+body.length < 2^32) :
    nd.asBuffer = .ok (leBytes 4 (6+body.length) ++ (leBytes 2 k ++ body)) := by
  have hlen : (leBytes 4 (6+body.length) ++ (leBytes 2 k ++ body)).length = 6+body.length := by
    simp; omega
  have hr := Block.read_of_holds h.holds (by have := h.room; omega)
  rw [hlen] at hr
  simp only [asBuffer,h.size_eq hlt,bind,Except.bind,hr]

theorem Frame.setKind (h : nd.Frame k body) (k' : Nat) :
    ∃ nd', nd.setKind k' = .ok nd' ∧ nd'.Frame k' body := by
  have hroom := h.room
  have hb : sizeOfMessageSize+(leBytes 2 k').length ≤ nd.data.size := by
    simp [sizeOfMessageSize]; omega
  obtain ⟨m,hm⟩ := Block.write_ok hb
  refine ⟨⟨m⟩,by simp [NetworkMessage.setKind,hm,bind,Except.bind,pure,Except.pure],?_,?_⟩
  · have h₁ : m.Holds 0 (leBytes 4 (6+body.length)) :=
      h.header.frame hm (Or.inl (by simp [sizeOfMessageSize]))
    have h₂ : m.Holds 4 (leBytes 2 k') := Block.holds_write hm
    have h₃ : m.Holds 6 body :=
      h.value.frame hm (Or.inr (by simp [sizeOfMessageSize,NetworkMessage.value,sizeOfKind]))
    refine Block.Holds.append h₁ ?_
    rw [leBytes_length,Nat.zero_add]
    refine Block.Holds.append h₂ ?_
    rwa [leBytes_length]
  · have hs := Block.write_size hm
    show 6+body.length ≤ m.size
    omega

/-- The constructor on sizes that fit: the block has twice the frame's size,
the frame is zeroed and starts with its size. -/
theorem ofSize_ok {sz : Nat} (h₀ : 0 < sz) (h : sz+4 < 2^31) :
    ∃ nd, ofSize sz = .ok nd ∧ nd.data.size = (sz+4)*2 ∧
      nd.data.Holds 0 (leBytes 4 (sz+4)) := by
  have hr : realSize sz = sz+4 := by
    simp only [realSize,sizeOfMessageSize]; omega
  have ha : allocated sz = (sz+4)*2 := by
    rw [allocated,hr]; omega
  have hb₁ : 0+(List.replicate (sz+4) (0 : UInt8)).length ≤
      (Block.alloc ((sz+4)*2)).size := by
    simp
  obtain ⟨m₁,h₁⟩ := Block.write_ok hb₁
  have hs₁ := Block.write_size h₁
  have hb₂ : 0+(leBytes 4 (sz+4)).length ≤ m₁.size := by
    rw [hs₁]; simp; omega
  obtain ⟨m₂,h₂⟩ := Block.write_ok hb₂
  refine ⟨⟨m₂⟩,?_,?_,Block.holds_write h₂⟩
  · simp only [ofSize,hr,ha,h₁,h₂,bind,Except.bind,pure,Except.pure]
  · rw [Block.write_size h₂,hs₁,Block.size_alloc]

/-- The constructor never returns when the frame would have 2^31 bytes or more
but fewer than 2^32: the doubling wraps and `memset` leaves the block. -/
theorem ofSize_large {sz : Nat} (h : 2^31 ≤ realSize sz) : ofSize sz = .error .outOfBounds := by
  have hlt : realSize sz < 2^32 := Nat.mod_lt _ (by norm_num)
  have ha : allocated sz < realSize sz := by
    unfold allocated; omega
  have hn : ¬ 0+(List.replicate (realSize sz) (0 : UInt8)).length ≤
      (Block.alloc (allocated sz)).size := by
    simp; omega
  simp only [ofSize,Block.write,hn,if_false,bind,Except.bind]

theorem ofSize_data_size {sz : Nat} {nd : NetworkMessage} (h : ofSize sz = .ok nd) :
    nd.data.size = allocated sz := by
  obtain ⟨m₁,h₁,h⟩ := bind_eq_ok h
  obtain ⟨m₂,h₂,h⟩ := bind_eq_ok h
  obtain rfl := (Except.ok.inj h).symm
  rw [Block.write_size h₂,Block.write_size h₁,Block.size_alloc]

end NetworkMessage

end Dqueue
