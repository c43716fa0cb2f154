import Dqueue.AsyncIO

/-!
The query constructors on what an arbitrary peer has sent. They follow the
length prefixes of the payload and never look at the size of the frame, whose
block is twice as long as the frame itself.
-/

set_option autoImplicit false

namespace Dqueue
open RawMem Serialisation Framing AsyncIO

/-- One `memcpy` out of a block. -/
structure Access where
  off : Nat
  len : Nat
  deriving DecidableEq, Repr

namespace Serialisation

def follow (hdr : Except Fault Bytes) (next : Nat → Access) : List Access :=
  match hdr with
  | .ok bs => [next (leNat bs)]
  | .error _ => []

def valueAccesses (m : Block) (it : Nat) : FieldType → List Access
  | .pod n => [⟨it,n⟩]
  | .string => ⟨it,4⟩ :: follow (m.read it 4) (fun len => ⟨it+4,len⟩)
  | .vector n => ⟨it,4⟩ :: follow (m.read it 4) (fun len => ⟨it+4,len*n⟩)

/-- The accesses of `readArgs`, in order, up to the first that leaves what has
been written: from there on the lengths are not determined. -/
def accesses (m : Block) (it : Nat) : List FieldType → List Access
  | [] => []
  | t :: ts => valueAccesses m it t ++
      match readValue m it t with
      | .ok (_,szofcur) => accesses m (it+szofcur) ts
      | .error _ => []

def announced : FieldType → Bytes → Nat
  | .pod n, _ => n
  | .string, bs => 4+leNat (bs.take 4)
  | .vector n, bs => 4+leNat (bs.take 4)*n

def Complete : List FieldType → Bytes → Prop
  | [], _ => True
  | t :: ts, bs => announced t bs ≤ bs.length ∧ Complete ts (bs.drop (announced t bs))

instance decidableComplete : (ts : List FieldType) → (bs : Bytes) → Decidable (Complete ts bs)
  | [], _ => inferInstanceAs (Decidable True)
  | t :: ts, bs =>
    have := decidableComplete ts (bs.drop (announced t bs))
    inferInstanceAs (Decidable (_ ∧ _))

end Serialisation

def MessageKinds.scheme : MessageKinds → List FieldType
  | .OK => Queries.Ok.Scheme
  | .LOGIN => Queries.Login.Scheme
  | .LOGIN_CONFIRM => Queries.LoginConfirm.Scheme
  | .CREATE_QUEUE => Queries.CreateQueue.Scheme
  | .SUBSCRIBE | .UNSUBSCRIBE => Queries.ChangeSubscribe.Scheme
  | .PUBLISH => Queries.Publish.Scheme

/-- The constructor that belongs to kind `k` stays inside the frame, and what it
returns is encoded again as the beginning of the payload. The constructors have
no way to refuse a frame. -/
structure NetworkMessage.DecodesInside (d : NetworkMessage) (frame : Bytes) (k : MessageKinds) :
    Prop where
  inside : ∀ a ∈ accesses d.data NetworkMessage.value k.scheme, a.off+a.len ≤ frame.length
  reencodes : ∀ m, Message.ofKind d k = .ok m →
    ∃ nd, m.toNetworkMessage = .ok nd ∧ nd.Frame k.toNat m.body ∧ m.body <+: frame.drop 6

theorem received_holds (frame : Bytes) (off k : Nat) :
    (received frame).data.Holds off ((frame.drop off).take k) := by
  intro i b hi
  have hk : i < k := by
    obtain ⟨hlt,_⟩ := List.getElem?_eq_some_iff.mp hi
    simp only [List.length_take] at hlt
    omega
  rw [List.getElem?_take,if_pos hk,List.getElem?_drop] at hi
  obtain ⟨hlt,_⟩ := List.getElem?_eq_some_iff.mp hi
  simp only [received]
  rw [List.getElem?_append_left (by simpa using hlt)]
  simp [hi]

theorem received_read {frame : Bytes} {off k : Nat} (h : off+k ≤ frame.length) :
    (received frame).data.read off k = .ok ((frame.drop off).take k) := by
  have hlen : ((frame.drop off).take k).length = k := by
    simp only [List.length_take,List.length_drop]
    omega
  have hr := Block.read_of_holds (received_holds frame off k) (by
    rw [hlen]
    simp only [received,Block.size,List.length_append,List.length_map,List.length_replicate]
    omega)
  rwa [hlen] at hr

theorem toPod_val {n : Nat} {bs : Bytes} (h : bs.length = n) : (toPod n bs).1 = bs := by
  subst h
  simp [toPod]

theorem toVector_length (n k : Nat) (bs : Bytes) : (toVector n k bs).length = k := by
  induction k generalizing bs with
  | zero => rfl
  | succ k ih => simp [toVector,ih]

theorem rawData_toVector {n k : Nat} {bs : Bytes} (h : bs.length = k*n) :
    rawData (toVector n k bs) = bs := by
  induction k generalizing bs with
  | zero =>
    have hnil : bs = [] := by simpa using h
    simp [toVector,rawData,hnil]
  | succ k ih =>
    rw [Nat.succ_mul] at h
    have hdrop : (bs.drop n).length = k*n := by simp; omega
    have hpod : (toPod n bs).1 = bs.take n := by
      simp only [toPod]
      rw [List.take_append_of_le_length (by omega)]
    have hrest := ih hdrop
    simp only [rawData,toVector,List.flatMap_cons] at hrest ⊢
    rw [hrest,hpod,List.take_append_drop]

section Received

variable {frame : Bytes} {it : Nat}

theorem valueAccesses_inside (hit : it ≤ frame.length) (t : FieldType) :
    (∀ a ∈ valueAccesses (received frame).data it t, a.off+a.len ≤ frame.length) ↔
      announced t (frame.drop it) ≤ (frame.drop it).length := by
  have hprefix : ∀ next : Nat → Access, (∀ n, (next n).off = it+4) →
      ((∀ a ∈ Access.mk it 4 :: follow ((received frame).data.read it 4) next,
        a.off+a.len ≤ frame.length) ↔
        4+(next (leNat ((frame.drop it).take 4))).len ≤ (frame.drop it).length) := by
    intro next hoff
    rw [List.length_drop]
    constructor
    · intro h
      have hhdr := h ⟨it,4⟩ (by simp)
      have hlen := h (next (leNat ((frame.drop it).take 4)))
        (by rw [received_read hhdr]; simp [follow])
      rw [hoff] at hlen
      omega
    · intro h a ha
      rw [received_read (by omega)] at ha
      rcases List.mem_cons.mp ha with rfl | ha
      · show it+4 ≤ frame.length
        omega
      · rw [List.mem_singleton.mp ha,hoff]
        omega
  cases t with
  | pod n =>
    simp only [valueAccesses,announced,List.mem_singleton,forall_eq,List.length_drop]
    omega
  | string => exact hprefix (fun len => ⟨it+4,len⟩) fun _ => rfl
  | vector n => exact hprefix (fun len => ⟨it+4,len*n⟩) fun _ => rfl

theorem readValue_received (hit : it ≤ frame.length) {t : FieldType}
    (h : announced t (frame.drop it) ≤ (frame.drop it).length) :
    ∃ v, readValue (received frame).data it t = .ok (v,announced t (frame.drop it)) ∧
      payload t v = (frame.drop it).take (announced t (frame.drop it)) := by
  rw [List.length_drop] at h
  -- a length prefix and what it announces, read together
  have hread : ∀ len, 4+len ≤ frame.length-it →
      (received frame).data.read it 4 = .ok ((frame.drop it).take 4) ∧
      (received frame).data.read (it+4) len = .ok (((frame.drop it).drop 4).take len) ∧
      leBytes 4 (leNat ((frame.drop it).take 4)%2^32) = (frame.drop it).take 4 ∧
      (((frame.drop it).drop 4).take len).length = len := by
    intro len hlen
    have hhdr : ((frame.drop it).take 4).length = 4 := by
      simp only [List.length_take,List.length_drop]
      omega
    have hlt := leNat_lt ((frame.drop it).take 4)
    have hle := leBytes_leNat ((frame.drop it).take 4)
    rw [hhdr] at hlt hle
    refine ⟨received_read (by omega),?_,?_,?_⟩
    · rw [received_read (by omega),List.drop_drop]
    · rw [Nat.mod_eq_of_lt (by simpa using hlt),hle]
    · simp only [List.length_take,List.length_drop]
      omega
  cases t with
  | pod n =>
    have hn : it+n ≤ frame.length := by simp only [announced] at h; omega
    refine ⟨toPod n ((frame.drop it).take n),?_,?_⟩
    · simp [readValue,received_read hn,bind,Except.bind,pure,Except.pure,announced]
    exact toPod_val (by simp only [List.length_take,List.length_drop]; omega)
  | string =>
    obtain ⟨h₁,h₂,h₃,h₄⟩ := hread (leNat ((frame.drop it).take 4)) h
    refine ⟨((frame.drop it).drop 4).take (leNat ((frame.drop it).take 4)),?_,?_⟩
    · simp only [readValue,h₁,h₂,bind,Except.bind,pure,Except.pure,announced]
    · simp only [payload,announced,h₄,h₃]
      rw [List.take_add]
  | vector n =>
    obtain ⟨h₁,h₂,h₃,h₄⟩ := hread (leNat ((frame.drop it).take 4)*n) h
    refine ⟨toVector n (leNat ((frame.drop it).take 4))
      (((frame.drop it).drop 4).take (leNat ((frame.drop it).take 4)*n)),?_,?_⟩
    · simp only [readValue,h₁,h₂,bind,Except.bind,pure,Except.pure,announced]
    · simp only [payload,announced,toVector_length,rawData_toVector h₄,h₃]
      rw [List.take_add]

theorem accesses_inside (it : Nat) (hit : it ≤ frame.length) (ts : List FieldType) :
    (∀ a ∈ accesses (received frame).data it ts, a.off+a.len ≤ frame.length) ↔
      Complete ts (frame.drop it) := by
  induction ts generalizing it with
  | nil => simp [accesses,Complete]
  | cons t ts ih =>
    simp only [accesses,Complete,List.mem_append,or_imp,forall_and]
    rw [valueAccesses_inside hit t]
    refine and_congr_right fun hv => ?_
    obtain ⟨v,hr,-⟩ := readValue_received hit hv
    rw [List.length_drop] at hv
    simp only [hr]
    rw [ih _ (by omega),List.drop_drop]

theorem readArgs_received (it : Nat) (hit : it ≤ frame.length) {ts : List FieldType}
    (h : Complete ts (frame.drop it)) :
    ∃ vs it', readArgs (received frame).data it ts = .ok (vs,it') ∧
      payloads ts vs <+: frame.drop it := by
  induction ts generalizing it with
  | nil => exact ⟨(),it,rfl,List.nil_prefix⟩
  | cons t ts ih =>
    obtain ⟨hv,hts⟩ := h
    obtain ⟨v,hr,hp⟩ := readValue_received hit hv
    rw [List.drop_drop] at hts
    have hlen := hv
    rw [List.length_drop] at hlen
    obtain ⟨vs,it',hrs,hps⟩ := ih _ (by omega) hts
    refine ⟨(v,vs),it',by simp [readArgs,hr,hrs,bind,Except.bind,pure,Except.pure],?_⟩
    simp only [payloads,hp]
    rw [← List.drop_drop] at hps
    have happ := (List.prefix_append_right_inj
      ((frame.drop it).take (announced t (frame.drop it)))).mpr hps
    rwa [List.take_append_drop] at happ

end Received

namespace Queries

@[simp] theorem u64_ofU64 (p : Pod 8) : u64 (ofU64 p) = p := by
  have hlt := leNat_lt p.1
  have hle := leBytes_leNat p.1
  rw [p.2] at hlt hle
  apply Subtype.ext
  simp only [u64,ofU64]
  rw [UInt64.toNat_ofNat_of_lt' (by simpa [UInt64.size] using hlt),hle]

@[simp] theorem u8s_ofU8s (s : List (Pod 1)) : u8s (ofU8s s) = s := by
  induction s with
  | nil => rfl
  | cons p s ih =>
    obtain ⟨bs,hbs⟩ := p
    obtain ⟨b,rfl⟩ := List.length_eq_one_iff.mp hbs
    simp only [ofU8s,rawData,u8s] at ih ⊢
    rw [List.flatMap_cons,List.map_append,ih]
    rfl

end Queries

open Queries in
theorem Message.ofKind_of_read (d : NetworkMessage) (k : MessageKinds) (vs : Vals k.scheme)
    (h : Serialisation.Scheme.read d.data NetworkMessage.value k.scheme = .ok vs) :
    ∃ m, Message.ofKind d k = .ok m ∧ m.kind = k ∧ m.body = payloads k.scheme vs := by
  cases k with
  | OK =>
    have hr : Serialisation.Scheme.read d.data NetworkMessage.value Ok.Scheme = .ok vs := h
    refine ⟨.ok ⟨ofU64 vs.1⟩,by simp only [Message.ofKind,Ok.ofNetworkMessage,hr]; rfl,rfl,?_⟩
    show payloads Ok.Scheme (Ok.args _) = _
    simp only [Ok.args,u64_ofU64]
    rfl
  | LOGIN =>
    have hr : Serialisation.Scheme.read d.data NetworkMessage.value Login.Scheme = .ok vs := h
    refine ⟨.login ⟨vs.1⟩,by simp only [Message.ofKind,Login.ofNetworkMessage,hr]; rfl,rfl,?_⟩
    show payloads Login.Scheme (Login.args _) = _
    simp only [Login.args]
    rfl
  | LOGIN_CONFIRM =>
    have hr : Serialisation.Scheme.read d.data NetworkMessage.value LoginConfirm.Scheme =
        .ok vs := h
    refine ⟨.loginConfirm ⟨ofU64 vs.1⟩,by
      simp only [Message.ofKind,LoginConfirm.ofNetworkMessage,hr]
      rfl,rfl,?_⟩
    show payloads LoginConfirm.Scheme (LoginConfirm.args _) = _
    simp only [LoginConfirm.args,u64_ofU64]
    rfl
  | CREATE_QUEUE =>
    have hr : Serialisation.Scheme.read d.data NetworkMessage.value CreateQueue.Scheme = .ok vs := h
    refine ⟨.createQueue ⟨vs.1,ofU64 vs.2.1⟩,by
      simp only [Message.ofKind,CreateQueue.ofNetworkMessage,hr]
      rfl,rfl,?_⟩
    show payloads CreateQueue.Scheme (CreateQueue.args _) = _
    simp only [CreateQueue.args,u64_ofU64]
    rfl
  | SUBSCRIBE =>
    have hr : Serialisation.Scheme.read d.data NetworkMessage.value ChangeSubscribe.Scheme =
        .ok vs := h
    refine ⟨.subscribe ⟨vs.1,vs.2.1,ofU64 vs.2.2.1⟩,by
      simp only [Message.ofKind,ChangeSubscribe.ofNetworkMessage,hr]
      rfl,rfl,?_⟩
    show payloads ChangeSubscribe.Scheme (ChangeSubscribe.args _) = _
    simp only [ChangeSubscribe.args,u64_ofU64]
    rfl
  | UNSUBSCRIBE =>
    have hr : Serialisation.Scheme.read d.data NetworkMessage.value ChangeSubscribe.Scheme =
        .ok vs := h
    refine ⟨.unsubscribe ⟨vs.1,vs.2.1,ofU64 vs.2.2.1⟩,by
      simp only [Message.ofKind,ChangeSubscribe.ofNetworkMessage,hr]
      rfl,rfl,?_⟩
    show payloads ChangeSubscribe.Scheme (ChangeSubscribe.args _) = _
    simp only [ChangeSubscribe.args,u64_ofU64]
    rfl
  | PUBLISH =>
    have hr : Serialisation.Scheme.read d.data NetworkMessage.value Publish.Scheme = .ok vs := h
    refine ⟨.publish ⟨vs.1,vs.2.1,ofU64 vs.2.2.2.1,ofU8s vs.2.2.1⟩,by
      simp only [Message.ofKind,Publish.ofNetworkMessage,hr]
      rfl,rfl,?_⟩
    show payloads Publish.Scheme (Publish.args _) = _
    simp only [Publish.args,u64_ofU64,u8s_ofU8s]
    rfl

/-- What the receive loop hands over: a frame of fewer than 2^31 bytes, alone in
a block of twice its size. -/
theorem readNextAsync_received {s rest frame : Bytes} {d : NetworkMessage}
    (h : readNextAsync s = .item d rest) (hs : s = frame ++ rest) (h₆ : 6 ≤ frame.length) :
    d = received frame ∧ frame.length < 2^31 := by
  have h₄ : 4 ≤ s.length := by rw [hs,List.length_append]; omega
  have hn := leNat_header_lt h₄
  -- the number of bytes behind the header decides how long the frame is
  have hsize : frame.length = 4+dataLeft (leNat (s.take 4)) ∧
      4+dataLeft (leNat (s.take 4)) ≤
        NetworkMessage.allocated (dataLeft (leNat (s.take 4))) := by
    have hhdr : asyncRead NetworkMessage.sizeOfMessageSize s = some (s.take 4,s.drop 4) :=
      asyncRead_some h₄
    simp only [readNextAsync,hhdr] at h
    split at h
    · cases h
    · rename_i d₀ hd
      by_cases hroom : NetworkMessage.sizeOfMessageSize+dataLeft (leNat (s.take 4)) ≤ d₀.data.size
      · simp only [hroom,if_true] at h
        rw [NetworkMessage.ofSize_data_size hd] at hroom
        split at h
        · cases h
        · rename_i buf rest' hr
          split at h
          · cases h
          · cases h
            unfold asyncRead at hr
            split at hr
            · rename_i hle
              obtain ⟨-,rfl⟩ := Prod.mk.inj (Option.some.inj hr)
              have hlen := congrArg List.length hs
              simp only [List.length_append,List.length_drop] at hlen hle
              exact ⟨by omega,hroom⟩
            · cases hr
      · simp only [hroom,if_false] at h
        cases h
  obtain ⟨hlen,hroom⟩ := hsize
  have hsafe : 6 ≤ leNat (s.take 4) ∧ leNat (s.take 4) < 2^31 := by
    simp only [dataLeft,NetworkMessage.allocated,NetworkMessage.realSize,
      NetworkMessage.sizeOfMessageSize] at hlen hroom
    omega
  have hframe : frame.length = leNat (s.take 4) := by
    rw [hlen,dataLeft_of_le (by omega) hn]
    omega
  have hle : leNat (s.take 4) ≤ s.length := by
    rw [← hframe]
    simp [hs]
  have hitem := readNextAsync_item hle rfl (by omega) hsafe.2
  rw [h] at hitem
  cases hitem
  refine ⟨?_,by omega⟩
  rw [← hframe,hs,List.take_left]

/-- For every frame of at least 6 bytes that the receive loop hands over, and
every constructor. -/
theorem decodes_inside_iff {s rest frame : Bytes} {d : NetworkMessage}
    (received_ : readNextAsync s = .item d rest) (taken : s = frame ++ rest)
    (length : 6 ≤ frame.length) (k : MessageKinds) :
    d.DecodesInside frame k ↔ Complete k.scheme (frame.drop 6) := by
  obtain ⟨rfl,hlt⟩ := readNextAsync_received received_ taken length
  have hacc := accesses_inside NetworkMessage.value length k.scheme
  constructor
  · intro h
    exact hacc.mp h.inside
  · intro h
    refine ⟨hacc.mpr h,fun m hm => ?_⟩
    obtain ⟨vs,it',hr,hp⟩ := readArgs_received NetworkMessage.value length h
    obtain ⟨m',hm',rfl,hbody⟩ := Message.ofKind_of_read (received frame) k vs
      (by simp [Scheme.read,hr,bind,Except.bind,pure,Except.pure])
    rw [hm] at hm'
    cases hm'
    have hcap : 6+m.capacity < 2^31 := by
      have hle := (hbody ▸ hp).length_le
      rw [Message.body_length,List.length_drop] at hle
      simp only [NetworkMessage.value,NetworkMessage.sizeOfMessageSize,
        NetworkMessage.sizeOfKind] at hle
      omega
    obtain ⟨nd,hnd,hf⟩ := m.toNetworkMessage_ok hcap
    exact ⟨nd,hnd,hf,hbody ▸ hp⟩

/-- The login `a`, with one byte that no field claims. -/
theorem decodes_inside_login :
    (received [12,0,0,0,1,0,1,0,0,0,97,7]).DecodesInside [12,0,0,0,1,0,1,0,0,0,97,7] .LOGIN :=
  have hread : readNextAsync [12,0,0,0,1,0,1,0,0,0,97,7] =
      .item (received [12,0,0,0,1,0,1,0,0,0,97,7]) [] := rfl
  (decodes_inside_iff hread rfl (by decide) .LOGIN).mpr (by decide)

/-- A login of 100 bytes announced in a frame that ends with the announcement:
the constructor copies 100 bytes from behind the frame, and the block has only
10 of them. -/
theorem decoder_leaves_frame :
    readNextAsync [10,0,0,0,1,0,100,0,0,0] = .item (received [10,0,0,0,1,0,100,0,0,0]) [] ∧
    (⟨10,100⟩ : Access) ∈ accesses (received [10,0,0,0,1,0,100,0,0,0]).data NetworkMessage.value
      MessageKinds.LOGIN.scheme ∧
    ¬ ∀ (s rest frame : Bytes) (d : NetworkMessage), readNextAsync s = .item d rest →
      s = frame ++ rest → 6 ≤ frame.length → ∀ k, d.DecodesInside frame k := by
  have hitem : readNextAsync [10,0,0,0,1,0,100,0,0,0] =
      .item (received [10,0,0,0,1,0,100,0,0,0]) [] := rfl
  have hmem : (⟨10,100⟩ : Access) ∈ accesses (received [10,0,0,0,1,0,100,0,0,0]).data
      NetworkMessage.value MessageKinds.LOGIN.scheme := by decide
  refine ⟨hitem,hmem,fun h => ?_⟩
  exact absurd ((h _ [] [10,0,0,0,1,0,100,0,0,0] _ hitem rfl (by decide) .LOGIN).inside _ hmem)
    (by decide)

end Dqueue
