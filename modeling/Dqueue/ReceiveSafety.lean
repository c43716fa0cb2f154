import Dqueue.AsyncIO

/-!
The receive loop against an arbitrary peer: which sizes in the four header
bytes keep the size arithmetic exact and every access inside the block.
-/

set_option autoImplicit false

namespace Dqueue.AsyncIO
open RawMem Framing

/-- The arithmetic of one header: the subtraction does not wrap, the block has
room for the frame, and the frame is long enough to hold its kind. -/
structure HeaderSafe (n : Nat) : Prop where
  exact_left : (dataLeft n : Int) = n-4
  room : 4+dataLeft n ≤ NetworkMessage.allocated (dataLeft n)
  has_kind : 6 ≤ 4+dataLeft n

/-- A turn of the loop on what the peer has sent. The loop has no way to refuse
a frame, so every header that is read must be safe. -/
structure TurnSafe (p : Bytes) : Prop where
  header : 4 ≤ p.length → HeaderSafe (leNat (p.take 4))
  no_fault : ∀ f, readNextAsync p ≠ .stop f
  kind_readable : ∀ d rest, readNextAsync p = .item d rest → ∃ k, d.kind = .ok k

/-- The streams cut by their own headers into frames of 6 to 2^31-1 bytes; the
last frame, and the last header, may be incomplete. -/
inductive WellSized : Bytes → Prop where
  | short {s : Bytes} : s.length < 4 → WellSized s
  | last {s : Bytes} : 4 ≤ s.length → 6 ≤ leNat (s.take 4) → leNat (s.take 4) < 2^31 →
      s.length < leNat (s.take 4) → WellSized s
  | frame {s : Bytes} : 6 ≤ leNat (s.take 4) → leNat (s.take 4) < 2^31 →
      leNat (s.take 4) ≤ s.length → WellSized (s.drop (leNat (s.take 4))) → WellSized s

theorem headerSafe_iff {n : Nat} (hn : n < 2^32) : HeaderSafe n ↔ 6 ≤ n ∧ n < 2^31 := by
  constructor
  · rintro ⟨hl,hr,hk⟩
    have h₆ : 6 ≤ n := by omega
    have hd : dataLeft n = n-4 := dataLeft_of_le (by omega) hn
    rw [hd] at hr
    refine ⟨h₆,?_⟩
    simp only [NetworkMessage.allocated,NetworkMessage.realSize,
      NetworkMessage.sizeOfMessageSize] at hr
    omega
  · rintro ⟨h₆,hlt⟩
    have hd : dataLeft n = n-4 := dataLeft_of_le (by omega) hn
    refine ⟨by omega,?_,by omega⟩
    rw [hd]
    simp only [NetworkMessage.allocated,NetworkMessage.realSize,NetworkMessage.sizeOfMessageSize]
    omega

theorem received_kind {bs : Bytes} (h : 6 ≤ bs.length) : ∃ k, (received bs).kind = .ok k := by
  have hold : (received bs).data.Holds 4 ((bs.drop 4).take 2) := by
    intro i b hi
    have hi₂ : i < 2 := by
      obtain ⟨hlt,_⟩ := List.getElem?_eq_some_iff.mp hi
      simp at hlt
      omega
    rw [List.getElem?_take,if_pos hi₂,List.getElem?_drop] at hi
    simp only [received]
    rw [List.getElem?_append_left (by simp; omega)]
    simp [hi]
  have hlen : ((bs.drop 4).take 2).length = 2 := by simp; omega
  have hr := Block.read_of_holds hold (by
    rw [hlen]
    simp only [received,Block.size,List.length_append,List.length_map,List.length_replicate]
    omega)
  rw [hlen] at hr
  exact ⟨_,by
    simp only [NetworkMessage.kind,NetworkMessage.sizeOfMessageSize,hr,bind,Except.bind]
    rfl⟩

theorem turnSafe_short {s : Bytes} (h : s.length < 4) : TurnSafe s where
  header h' := by omega
  no_fault f := by rw [readNextAsync_short h]; simp
  kind_readable d rest h' := by rw [readNextAsync_short h] at h'; cases h'

theorem turnSafe_of_header {s : Bytes} (h₄ : 4 ≤ s.length) (h₆ : 6 ≤ leNat (s.take 4))
    (hlt : leNat (s.take 4) < 2^31) : TurnSafe s where
  header _ := (headerSafe_iff (leNat_header_lt h₄)).mpr ⟨h₆,hlt⟩
  no_fault f := by
    by_cases hs : s.length < leNat (s.take 4)
    · rw [readNextAsync_wait h₄ rfl (by omega) hlt hs]; simp
    · rw [readNextAsync_item (by omega) rfl (by omega) hlt]; simp
  kind_readable d rest h := by
    by_cases hs : s.length < leNat (s.take 4)
    · rw [readNextAsync_wait h₄ rfl (by omega) hlt hs] at h
      cases h
    · rw [readNextAsync_item (by omega) rfl (by omega) hlt] at h
      cases h
      exact received_kind (by simp; omega)

theorem wellSized_of_safe (k : Nat) (s : Bytes) (hk : s.length ≤ k)
    (h : ∀ p, Visits readNextAsync s p → TurnSafe p) : WellSized s := by
  induction k generalizing s with
  | zero => exact .short (by omega)
  | succ k ih =>
    by_cases h₄ : s.length < 4
    · exact .short h₄
    · have hsafe := (h s (.here s)).header (by omega)
      obtain ⟨h₆,hlt⟩ := (headerSafe_iff (leNat_header_lt (by omega))).mp hsafe
      by_cases hs : s.length < leNat (s.take 4)
      · exact .last (by omega) h₆ hlt hs
      · have hitem := readNextAsync_item (by omega) rfl (by omega) hlt
        have hrest := ih (s.drop (leNat (s.take 4))) (by simp; omega)
          (fun p hp => h p (.later hitem hp))
        exact .frame h₆ hlt (by omega) hrest

theorem safe_of_wellSized {s p : Bytes} (h : WellSized s) (hv : Visits readNextAsync s p) :
    TurnSafe p := by
  induction hv with
  | here s =>
    cases h with
    | short h₄ => exact turnSafe_short h₄
    | last h₄ h₆ hlt _ => exact turnSafe_of_header h₄ h₆ hlt
    | frame h₆ hlt hle _ => exact turnSafe_of_header (by omega) h₆ hlt
  | later hitem _ ih =>
    cases h with
    | short h₄ => rw [readNextAsync_short h₄] at hitem; cases hitem
    | last h₄ h₆ hlt hs => rw [readNextAsync_wait h₄ rfl (by omega) hlt hs] at hitem; cases hitem
    | frame h₆ hlt hle hw =>
      rw [readNextAsync_item hle rfl (by omega) hlt] at hitem
      cases hitem
      exact ih hw

/-- For every byte stream: the loop is safe on it exactly when all its headers
are at least 6 and below 2^31. -/
theorem receive_safe_iff (s : Bytes) :
    (∀ p, Visits readNextAsync s p → TurnSafe p) ↔ WellSized s :=
  ⟨wellSized_of_safe s.length s (Nat.le_refl _),fun h _ hv => safe_of_wellSized h hv⟩

/-- Four zero bytes are enough: the subtraction wraps, and the block of length 0
is written to. -/
theorem receive_unsafe_zero_header :
    dataLeft 0 = 2^64-4 ∧ readNextAsync [0,0,0,0] = .stop .outOfBounds ∧
      ¬ ∀ s p : Bytes, Visits readNextAsync s p → TurnSafe p := by
  refine ⟨by decide,rfl,fun h => ?_⟩
  have hsafe := (h [0,0,0,0] _ (.here _)).header (by decide)
  exact absurd hsafe.exact_left (by decide)

end Dqueue.AsyncIO
