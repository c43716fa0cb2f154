import Dqueue.Queries

/-!
What the serialisation leaves in memory. `capacity`, `write` and `read` go through a
list of field types each on its own; they agree on every list, and the encodings of
one scheme are a prefix code. A frame is exact as long as its size fits into 31 bits.
-/

set_option autoImplicit false

namespace Dqueue
open RawMem

namespace Serialisation

/-- `write_args` with the results of `write_value`, by which the iterator goes on. -/
def writeResults (m : Block) (it : Nat) :
    (ts : List FieldType) → Vals ts → Except Fault (Block × List Nat)
  | [], _ => pure (m,[])
  | t :: ts, (v,vs) => do
      let (m,szofcur) ← writeValue m it t v
      let (m,rest) ← writeResults m (it+szofcur) ts vs
      pure (m,szofcur :: rest)

def Scheme.encode (ts : List FieldType) (vs : Vals ts) : Except Fault Bytes := do
  let m ← Scheme.write (Block.alloc (Scheme.capacity ts vs)) 0 ts vs
  m.read 0 (Scheme.capacity ts vs)

theorem writeResults_ok (m : Block) (it : Nat) (ts : List FieldType) (vs : Vals ts)
    (h : it+Scheme.capacity ts vs ≤ m.size) :
    ∃ m' sizes, writeArgs m it ts vs = .ok m' ∧ writeResults m it ts vs = .ok (m',sizes) ∧
      sizes.sum = Scheme.capacity ts vs ∧ Written m m' it (payloads ts vs) := by
  induction ts generalizing m it with
  | nil => exact ⟨m,[],rfl,rfl,rfl,Written.nil m it⟩
  | cons t ts ih =>
    obtain ⟨v,vs⟩ := vs
    rw [Scheme.capacity_cons] at h
    obtain ⟨m₁,h₁,w₁⟩ := writeValue_ok m it t v (by omega)
    obtain ⟨m₂,sizes,h₂,hr,hsum,w₂⟩ := ih m₁ (it+getSize t v) vs (by rw [w₁.size]; omega)
    refine ⟨m₂,getSize t v :: sizes,?_,?_,?_,w₁.append (by simpa using w₂)⟩
    · simp [writeArgs,h₁,h₂,bind,Except.bind]
    · simp [writeResults,h₁,hr,bind,Except.bind,pure,Except.pure]
    · simp [hsum]

theorem Scheme.encode_ok (ts : List FieldType) (vs : Vals ts) :
    Scheme.encode ts vs = .ok (payloads ts vs) := by
  obtain ⟨m,hm,hw⟩ := Scheme.write_ok (Block.alloc (Scheme.capacity ts vs)) 0 ts vs (by simp)
  have hread := Block.read_of_holds hw.holds (by rw [hw.size]; simp)
  rw [payloads_length] at hread
  simp only [Scheme.encode,hm,bind,Except.bind,hread]

theorem readArgs_of_prefix {ts : List FieldType} {vs : Vals ts} (fits : AllFit ts vs)
    {bs : Bytes} (h : payloads ts vs <+: bs) :
    readArgs ⟨bs.map some⟩ 0 ts = .ok (vs,Scheme.capacity ts vs) := by
  obtain ⟨rest,rfl⟩ := h
  have hholds : Block.Holds ⟨(payloads ts vs ++ rest).map some⟩ 0 (payloads ts vs) := by
    intro i b hi
    obtain ⟨hlt,-⟩ := List.getElem?_eq_some_iff.mp hi
    rw [Nat.zero_add,List.getElem?_map,List.getElem?_append_left hlt,hi]
    rfl
  have hread := readArgs_ok fits hholds (by simp [Block.size])
  rwa [Nat.zero_add] at hread

/-- No encoding of a scheme is the beginning of another one. -/
theorem eq_of_prefix {ts : List FieldType} {vs vs' : Vals ts} (fits : AllFit ts vs)
    (fits' : AllFit ts vs') (h : payloads ts vs <+: payloads ts vs') : vs = vs' := by
  have hread := readArgs_of_prefix fits h
  have hread' := readArgs_of_prefix fits' List.prefix_rfl
  rw [hread'] at hread
  exact (congrArg Prod.fst (Except.ok.inj hread)).symm

theorem scheme_agrees (ts : List FieldType) (vs : Vals ts) (fits : AllFit ts vs) :
    (∀ (m : Block) (it : Nat), it+Scheme.capacity ts vs ≤ m.size →
      ∃ m' sizes, Scheme.write m it ts vs = .ok m' ∧ writeResults m it ts vs = .ok (m',sizes) ∧
        sizes.sum = Scheme.capacity ts vs ∧
        (∀ j, j < it ∨ it+Scheme.capacity ts vs ≤ j → m'.cells[j]? = m.cells[j]?) ∧
        Scheme.read m' it ts = .ok vs) ∧
    ∃ bs, Scheme.encode ts vs = .ok bs ∧ bs.length = Scheme.capacity ts vs ∧
      (∀ (m : Block) (it : Nat), m.Holds it bs → it+bs.length ≤ m.size →
        Scheme.read m it ts = .ok vs ∧ readArgs m it ts = .ok (vs,it+Scheme.capacity ts vs)) ∧
      ∀ vs' bs', AllFit ts vs' → Scheme.encode ts vs' = .ok bs' → bs <+: bs' → vs = vs' := by
  refine ⟨fun m it h => ?_,payloads ts vs,Scheme.encode_ok ts vs,payloads_length ts vs,
    fun m it hholds hb => ?_,fun vs' bs' fits' he hprefix => ?_⟩
  · obtain ⟨m',sizes,hm,hr,hsum,hw⟩ := writeResults_ok m it ts vs h
    refine ⟨m',sizes,hm,hr,hsum,fun j hj => hw.frame j (by rwa [payloads_length]),?_⟩
    exact Scheme.read_ok fits hw.holds (by rw [hw.size]; exact h)
  · rw [payloads_length] at hb
    exact ⟨Scheme.read_ok fits hholds hb,readArgs_ok fits hholds hb⟩
  · rw [Scheme.encode_ok] at he
    obtain rfl := Except.ok.inj he
    exact eq_of_prefix fits fits' hprefix

theorem scheme_agrees_three_fields :
    ∃ bs, Scheme.encode [.pod 1,.string,.vector 2]
        (⟨[7],rfl⟩,[97,98],[⟨[1,0],rfl⟩],()) = .ok bs ∧ bs.length = 13 := by
  have fits : AllFit [.pod 1,.string,.vector 2] (⟨[7],rfl⟩,[97,98],[⟨[1,0],rfl⟩],()) := by
    simp [AllFit,Fits]
  obtain ⟨-,bs,hbs,hlen,-⟩ := scheme_agrees _ _ fits
  exact ⟨bs,hbs,hlen⟩

end Serialisation

open Serialisation Queries

/-- The number in front of a string or a vector is its length. -/
def PrefixExact : (t : FieldType) → t.Val → Prop
  | .pod _, _ => True
  | .string, s => leNat (leBytes 4 (s.length%2^32)) = s.length
  | .vector _, s => leNat (leBytes 4 (s.length%2^32)) = s.length

def PrefixesExact : (ts : List FieldType) → Vals ts → Prop
  | [], _ => True
  | t :: ts, (v,vs) => PrefixExact t v ∧ PrefixesExact ts vs

/-- A frame in which no number has wrapped: its size field, the length of its block,
the bytes of the fields, and the length prefixes among these. -/
structure NetworkMessage.Exact (nd : NetworkMessage) (ts : List FieldType) (vs : Vals ts) :
    Prop where
  size : nd.size = .ok (6+Scheme.capacity ts vs)
  room : 6+Scheme.capacity ts vs ≤ nd.data.size
  written : nd.data.Holds NetworkMessage.value (payloads ts vs)
  prefixes : PrefixesExact ts vs

/-- `toNetworkMessage` has given a frame, and an exact one. None of the queries has a
check that refuses a value: what is no frame is an access outside of the block. -/
def Encodes (frame : Except Fault NetworkMessage) (ts : List FieldType) (vs : Vals ts) : Prop :=
  ∃ nd, frame = .ok nd ∧ nd.Exact ts vs

theorem prefixesExact_of_fit {ts : List FieldType} {vs : Vals ts} (h : AllFit ts vs) :
    PrefixesExact ts vs := by
  induction ts with
  | nil => trivial
  | cons t ts ih =>
    obtain ⟨v,vs⟩ := vs
    refine ⟨?_,ih h.2⟩
    have hone : ∀ n : Nat, n < 2^32 → leNat (leBytes 4 (n%2^32)) = n := by
      intro n hn
      rw [Nat.mod_eq_of_lt hn]
      exact leNat_leBytes_of_lt (by simpa using hn)
    cases t with
    | pod n => trivial
    | string => exact hone _ h.1
    | vector n => exact hone _ h.1

/-- The one shape of all queries: below 2^31 bytes nothing wraps, and from there on
the constructor or a writer leaves the block. -/
theorem toFrame_exact_iff (kind : MessageKinds) (ts : List FieldType) (vs : Vals ts)
    (hpos : ∀ n, FieldType.vector n ∈ ts → 0 < n) :
    Encodes (toFrame kind ts vs) ts vs ↔ 6+Scheme.capacity ts vs < 2^31 := by
  constructor
  · rintro ⟨nd,hnd,-⟩
    exact toFrame_bound hnd
  · intro h
    obtain ⟨nd,hnd,hf⟩ := toFrame_ok kind ts vs h
    have hroom := hf.room
    rw [payloads_length] at hroom
    refine ⟨nd,hnd,?_,hroom,hf.value,?_⟩
    · have hsize := hf.size_eq (by rw [payloads_length]; omega)
      rwa [payloads_length] at hsize
    · exact prefixesExact_of_fit (allFit_of_capacity hpos (Nat.le_refl _) (by omega))

/-- Each query is encoded exactly if and only if its frame has less than 2^31 bytes. -/
theorem encodes_exactly_iff (lg : Login) (cq : CreateQueue) (cs : ChangeSubscribe) (pb : Publish) :
    (Encodes lg.toNetworkMessage Login.Scheme lg.args ↔
      6+Scheme.capacity Login.Scheme lg.args < 2^31) ∧
    (Encodes cq.toNetworkMessage CreateQueue.Scheme cq.args ↔
      6+Scheme.capacity CreateQueue.Scheme cq.args < 2^31) ∧
    (Encodes cs.toNetworkMessage ChangeSubscribe.Scheme cs.args ↔
      6+Scheme.capacity ChangeSubscribe.Scheme cs.args < 2^31) ∧
    (Encodes pb.toNetworkMessage Publish.Scheme pb.args ↔
      6+Scheme.capacity Publish.Scheme pb.args < 2^31) := by
  refine ⟨?_,?_,?_,?_⟩
  · exact toFrame_exact_iff .LOGIN _ lg.args (by simp)
  · exact toFrame_exact_iff .CREATE_QUEUE _ cq.args (by simp)
  · exact toFrame_exact_iff .SUBSCRIBE _ cs.args (by simp)
  · exact toFrame_exact_iff .PUBLISH _ pb.args (by simp)

theorem Publish.capacity_args (q : Publish) : Scheme.capacity Publish.Scheme q.args =
    20+q.qname.length+q.tag.length+q.data.length := by
  simp only [Scheme.capacity,calculateSizeRec,Publish.args,getSize,u8s,List.length_map]
  omega

/-- A message of 2^31 bytes: twice its size, in 32 bits, is the length of a block that
`memset` leaves at once. -/
theorem frame_size_wraps :
    ¬ (∀ q : Publish, Encodes q.toNetworkMessage Publish.Scheme q.args) := by
  intro h
  obtain ⟨n,hn⟩ : ∃ n : Nat, n = 2^31 := ⟨_,rfl⟩
  have hbound := (toFrame_exact_iff .PUBLISH Publish.Scheme
    (Publish.args ⟨[],[],0,List.replicate n 0⟩) (by simp)).mp (h ⟨[],[],0,List.replicate n 0⟩)
  rw [Publish.capacity_args] at hbound
  simp only [List.length_replicate] at hbound
  omega

end Dqueue
