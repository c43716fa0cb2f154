import Dqueue.AsyncIO
import Dqueue.Lib.Runs

/-!
The order of frames on the wire. `send` starts a composed write at once, also
while earlier ones are outstanding, so the order is kept only as long as no
partial write has to queue up again behind another write.
-/

set_option autoImplicit false

namespace Dqueue.AsyncIO
open RawMem

/-- The peer receives whole frames in the order of the `send` calls: at any
time a prefix of them, and all of them once every write has completed. -/
structure Sender.WholeFrames (s : Sender) : Prop where
  in_order : s.socket.wire <+: s.issued.flatten
  complete : s.broken = false → s.socket.pending = [] → s.socket.wire = s.issued.flatten

/-- A partial write that does not finish its frame is the only write outstanding. -/
def Sender.Alone (s : Sender) : Sender.Event → Prop
  | .transfer k => s.socket.Undisturbed k
  | _ => True

structure Sender.Queued (s : Sender) : Prop where
  whole : s.broken = false → s.socket.InOrder s.issued.flatten
  in_order : s.socket.wire <+: s.issued.flatten

theorem Sender.queued_send {s : Sender} (h : s.Queued) (d : NetworkMessage) :
    (s.send d).Queued := by
  unfold Sender.send
  split
  · exact h
  · split
    · exact h
    · rename_i buf _
      split
      · refine ⟨fun hb => ?_,?_⟩
        · simpa using (h.whole hb).issue buf
        · simpa [ComposedWrite.Socket.issue] using h.in_order.trans (List.prefix_append _ buf)
      · exact h

theorem Sender.queued_transfer {s : Sender} (h : s.Queued) {k : Nat}
    (hk : s.socket.Undisturbed k) : (s.transfer k).Queued := by
  unfold Sender.transfer
  split
  · exact h
  · rename_i hc
    have hb : s.broken = false := by
      cases hs : s.broken with
      | false => rfl
      | true => simp [hs] at hc
    have ho := (h.whole hb).transfer hk
    exact ⟨fun _ => ho,ho.wire_prefix⟩

theorem Sender.queued_step {s : Sender} {e : Sender.Event} (h : s.Queued) (ha : s.Alone e) :
    (s.step e).Queued := by
  cases e with
  | send d => exact queued_send h d
  | transfer k => exact queued_transfer h ha
  | fail => exact ⟨by simp [step],h.in_order⟩
  | fullStop => exact ⟨by simp [step],h.in_order⟩
  | expire => exact ⟨by simp [step],h.in_order⟩

theorem Sender.queued_start : Sender.start.Queued :=
  ⟨fun _ => rfl,List.prefix_rfl⟩

theorem frames_in_order (es : List Sender.Event)
    (h : Runs.Along Sender.step Sender.Alone Sender.start es) :
    (es.foldl Sender.step Sender.start).WholeFrames := by
  have hq := Runs.Along.invariant (P := Sender.Queued) (fun _ _ => Sender.queued_step)
    Sender.queued_start h
  exact ⟨hq.in_order,fun hb hp => (hq.whole hb).wire_eq hp⟩

/-- Two `send` calls in a row; the socket takes the first frame whole and the second in two
parts. -/
theorem frames_in_order_two_frames :
    ([.send (received (Message.wire (.ok ⟨1⟩))),.send (received (Message.wire (.ok ⟨2⟩))),
      .transfer 14,.transfer 4,.transfer 10].foldl Sender.step Sender.start).WholeFrames :=
  frames_in_order _ ⟨trivial,trivial,Or.inr (by decide),Or.inl (by decide),Or.inl (by decide),
    trivial⟩

/-- The socket takes the size of the first frame, then the whole second frame, then the rest
of the first. -/
theorem frames_interleave :
    Message.toNetworkMessage (.ok ⟨1⟩) = .ok (received (Message.wire (.ok ⟨1⟩))) ∧
    Message.toNetworkMessage (.ok ⟨2⟩) = .ok (received (Message.wire (.ok ⟨2⟩))) ∧
    ¬ ([.send (received (Message.wire (.ok ⟨1⟩))),.send (received (Message.wire (.ok ⟨2⟩))),
      .transfer 4,.transfer 14,.transfer 10].foldl Sender.step Sender.start).WholeFrames := by
  refine ⟨by decide,by decide,fun h => ?_⟩
  exact absurd (h.complete (by decide) (by decide)) (by decide)

end Dqueue.AsyncIO
