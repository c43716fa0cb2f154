import Dqueue.AsyncIO

/-!
The wire format as a whole: what one party writes frame after frame is what the
other party's receive loop hands over message after message.
-/

set_option autoImplicit false

namespace Dqueue
open RawMem Framing AsyncIO

def sendAll : List Message → Except Fault Bytes
  | [] => pure []
  | m :: ms => do
      let nd ← m.toNetworkMessage
      let buf ← nd.asBuffer
      let rest ← sendAll ms
      pure (buf ++ rest)

theorem sendAll_wire (ms : List Message) (h : ∀ m ∈ ms, m.Sendable) :
    sendAll ms = .ok (ms.flatMap Message.wire) := by
  induction ms with
  | nil => rfl
  | cons m ms ih =>
    obtain ⟨nd,hnd,_⟩ := m.toNetworkMessage_ok (h m (by simp))
    have hbuf := Message.asBuffer_of_ok hnd
    have hrest := ih (fun m' hm' => h m' (by simp [hm']))
    simp [sendAll,hnd,hbuf,hrest,bind,Except.bind,pure,Except.pure]

theorem received_frame (m : Message) : (received m.wire).Frame m.kind.toNat m.body where
  holds := by
    intro i b hi
    rw [Message.body_length] at hi
    have hw : m.wire[i]? = some b := hi
    obtain ⟨hlt,_⟩ := List.getElem?_eq_some_iff.mp hw
    simp only [received,Nat.zero_add]
    rw [List.getElem?_append_left (by simpa using hlt)]
    simp [hw]
  room := by
    simp only [received,Block.size,List.length_append,List.length_map,List.length_replicate,
      Message.wire_length,Message.body_length]
    omega

theorem wire_header (m : Message) (h : m.Sendable) (tail : Bytes) :
    leNat ((m.wire ++ tail).take 4) = 6+m.capacity := by
  have ht : (m.wire ++ tail).take 4 = leBytes 4 (6+m.capacity) := by
    simp [Message.wire]
  rw [ht]
  exact leNat_leBytes_of_lt (by unfold Message.Sendable at h; norm_num at h ⊢; omega)

theorem readNextAsync_shrinks : Shrinks readNextAsync := by
  intro s d rest h
  unfold readNextAsync at h
  cases h₁ : asyncRead NetworkMessage.sizeOfMessageSize s with
  | none => simp [h₁] at h
  | some r =>
    obtain ⟨hdr,rest₁⟩ := r
    simp only [h₁] at h
    split at h
    · cases h
    · split at h
      · split at h
        · cases h
        · rename_i buf rest₂ h₂
          split at h
          · cases h
          · cases h
            unfold asyncRead NetworkMessage.sizeOfMessageSize at h₁
            unfold asyncRead at h₂
            split at h₁
            · rename_i hle
              obtain ⟨rfl,rfl⟩ := Prod.mk.inj (Option.some.inj h₁)
              split at h₂
              · obtain ⟨rfl,rfl⟩ := Prod.mk.inj (Option.some.inj h₂)
                simp; omega
              · cases h₂
            · cases h₁
      · cases h

theorem readNextAsync_frames :
    Frames readNextAsync Message.wire (fun m => received m.wire) Message.Sendable where
  shrinks := readNextAsync_shrinks
  empty := readNextAsync_short (by simp)
  whole m tail h := by
    have hhdr := wire_header m h tail
    have hitem := readNextAsync_item (by simp) hhdr (by omega) h
    rw [← m.wire_length,List.take_left,List.drop_left] at hitem
    exact hitem
  short m p h hp hlt := by
    obtain ⟨rest,he⟩ := hp
    by_cases h₄ : p.length < 4
    · exact readNextAsync_short h₄
    · have hhdr : leNat (p.take 4) = 6+m.capacity := by
        have hw := wire_header m h []
        rw [List.append_nil,← he,List.take_append_of_le_length (by omega)] at hw
        exact hw
      rw [Message.wire_length] at hlt
      exact readNextAsync_wait (by omega) hhdr (by omega) h hlt

theorem wire_round_trip (ms : List Message) (h : ∀ m ∈ ms, 6+m.capacity < 2^31) :
    ∃ bytes frames, sendAll ms = .ok bytes ∧
      readLoop bytes = ⟨frames,[],none⟩ ∧
      List.Forall₂ (fun m d => d.kind = .ok m.kind.toNat ∧ Message.ofKind d m.kind = .ok m)
        ms frames := by
  refine ⟨_,_,sendAll_wire ms h,readNextAsync_frames.drainAll_flatMap ms h,?_⟩
  rw [List.forall₂_map_right_iff,List.forall₂_same]
  intro m hm
  have hf := received_frame m
  exact ⟨hf.kind_eq m.kind.toNat_lt,Message.ofKind_of_frame (h m hm) hf⟩

theorem wire_round_trip_two_messages :
    ∃ bytes frames,
      sendAll [.unsubscribe ⟨[113],[],7⟩,.publish ⟨[113],[116],8,[1,2,3]⟩] = .ok bytes ∧
      readLoop bytes = ⟨frames,[],none⟩ ∧
      List.Forall₂ (fun m d => d.kind = .ok m.kind.toNat ∧ Message.ofKind d m.kind = .ok m)
        [.unsubscribe ⟨[113],[],7⟩,.publish ⟨[113],[116],8,[1,2,3]⟩] frames :=
  wire_round_trip _ (by decide)

end Dqueue
