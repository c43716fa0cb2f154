import Dqueue.Lib.Pipe
import Dqueue.Receiving
import Dqueue.SendOrder

/-!
One direction of a connection from end to end: messages that one party sends
while earlier writes are outstanding, partial writes, bytes that are carried in
any portions, and the two reads for each frame at the other party. What comes out
is a queue of messages.
-/

set_option autoImplicit false

namespace Dqueue.AsyncIO
open RawMem Framing

/-- `sent` has the messages whose frame has reached `async_write`. -/
structure Channel where
  sender : Sender
  receiver : Receiver
  sent : List Message

inductive Channel.Event where
  | send (m : Message)
  /-- What else happens to the sending half. -/
  | write (e : Sender.Event)
  /-- The next bytes of the wire reach the other party. -/
  | carry (k : Nat)
  | read (e : Receiver.Event)
  deriving DecidableEq, Repr

def Sender.accepts (s : Sender) : Bool := !s.beginStopingFlag && s.alive

namespace Channel

def create : Channel := ⟨Sender.start,Receiver.create,[]⟩

def send (c : Channel) (m : Message) : Channel :=
  match m.toNetworkMessage with
  | .error _ => c
  | .ok nd =>
    { c with
      sender := c.sender.send nd
      sent := if c.sender.accepts then c.sent ++ [m] else c.sent }

def inFlight (c : Channel) : Bytes := c.sender.socket.wire.drop c.receiver.stream.length

def step (c : Channel) : Channel.Event → Channel
  | .send m => c.send m
  | .write (.send _) => c
  | .write e => { c with sender := c.sender.step e }
  | .carry k => { c with receiver := c.receiver.step (.arrive (c.inFlight.take k)) }
  | .read (.arrive _) => c
  | .read e => { c with receiver := c.receiver.step e }

def run (c : Channel) (es : List Channel.Event) : Channel := es.foldl step c

/-- A partial write that does not finish its frame is the only one outstanding. -/
def Alone (c : Channel) : Channel.Event → Prop
  | .write e => c.sender.Alone e
  | _ => True

def Decodes (m : Message) (d : NetworkMessage) : Prop :=
  d.kind = .ok m.kind.toNat ∧ Message.ofKind d m.kind = .ok m

/-- Messages come out as they went in, and none is missing once everything has
been written, carried and read. -/
structure Fifo (c : Channel) : Prop where
  in_order : ∃ done later, c.sent = done ++ later ∧
    List.Forall₂ Decodes done c.receiver.received
  no_fault : c.receiver.fault = none
  complete : c.sender.broken = false → c.sender.socket.pending = [] → c.inFlight = [] →
    c.receiver.outstanding ≠ [] → c.receiver.Quiet →
      List.Forall₂ Decodes c.sent c.receiver.received

structure Joined (c : Channel) : Prop where
  queued : c.sender.Queued
  issued : c.sender.issued = c.sent.map Message.wire
  sendable : ∀ m ∈ c.sent, m.Sendable
  carried : c.receiver.stream <+: c.sender.socket.wire
  reads : c.receiver.Reads

end Channel

theorem Sender.wire_grows (s : Sender) (e : Sender.Event) :
    s.socket.wire <+: (s.step e).socket.wire := by
  cases e with
  | send d =>
    simp only [step,Sender.send]
    split
    · exact List.prefix_rfl
    · split
      · exact List.prefix_rfl
      · split
        · exact List.prefix_rfl
        · exact List.prefix_rfl
  | transfer k =>
    simp only [step,Sender.transfer]
    split
    · exact List.prefix_rfl
    · simp only [ComposedWrite.Socket.transfer]
      split
      · exact List.prefix_rfl
      · exact List.prefix_append _ _
  | fail => exact List.prefix_rfl
  | fullStop => exact List.prefix_rfl
  | expire => exact List.prefix_rfl

theorem Sender.issued_step (s : Sender) {e : Sender.Event} (h : ∀ d, e ≠ .send d) :
    (s.step e).issued = s.issued := by
  cases e with
  | send d => exact absurd rfl (h d)
  | transfer k =>
    simp only [step,Sender.transfer]
    split <;> rfl
  | fail => rfl
  | fullStop => rfl
  | expire => rfl

theorem Sender.issued_send {s : Sender} {m : Message} {nd : NetworkMessage}
    (h : m.toNetworkMessage = .ok nd) :
    (s.send nd).issued = if s.accepts then s.issued ++ [m.wire] else s.issued := by
  unfold Sender.send Sender.accepts
  cases s.beginStopingFlag with
  | true => rfl
  | false =>
    cases ha : s.alive <;> simp [Message.asBuffer_of_ok h]

theorem Receiver.stream_step (r : Receiver) {e : Receiver.Event} (h : ∀ bs, e ≠ .arrive bs) :
    (r.step e).stream = r.stream := by
  have hnext : ∀ r : Receiver, r.readNext.stream = r.stream := by
    intro r
    unfold Receiver.readNext
    split <;> rfl
  unfold Receiver.step
  split
  · rfl
  · cases e with
    | start =>
      simp only [startReading]
      split
      · rfl
      · exact hnext _
    | arrive bs => exact absurd rfl (h bs)
    | complete k handler =>
      simp only [Receiver.complete]
      split
      · rfl
      · split
        · rfl
        · simp only [onReadSize]
          split
          · rfl
          · split <;> rfl
      · split
        · rfl
        · simp only [onReadMessage]
          split
          · rfl
          · split
            · exact hnext _
            · rfl
    | fail k =>
      simp only
      split <;> rfl
    | fullStop => rfl
    | expire => rfl

theorem Receiver.stream_arrive (r : Receiver) (bs : Bytes) :
    (r.step (.arrive bs)).stream = r.stream ∨ (r.step (.arrive bs)).stream = r.stream ++ bs := by
  unfold Receiver.step
  split
  · exact .inl rfl
  · simp only
    split
    · exact .inr rfl
    · exact .inl rfl

namespace Channel

variable {c : Channel}

theorem Joined.create : create.Joined :=
  ⟨Sender.queued_start,rfl,by simp [Channel.create],List.prefix_rfl,.create⟩

theorem Joined.send (h : c.Joined) (m : Message) : (c.send m).Joined := by
  unfold Channel.send
  cases hm : m.toNetworkMessage with
  | error f => exact h
  | ok nd =>
    have hwire := h.carried.trans (c.sender.wire_grows (.send nd))
    refine ⟨Sender.queued_send h.queued nd,?_,fun m' hm' => ?_,hwire,h.reads⟩
    · show (c.sender.send nd).issued = List.map Message.wire (if _ then _ else _)
      rw [Sender.issued_send hm,h.issued]
      split
      · simp
      · rfl
    · simp only at hm'
      split at hm'
      · rcases List.mem_append.mp hm' with hm' | hm'
        · exact h.sendable m' hm'
        · rw [List.mem_singleton.mp hm']
          exact Message.sendable_of_ok hm
      · exact h.sendable m' hm'

theorem Joined.write (h : c.Joined) {e : Sender.Event} (he : ∀ d, e ≠ .send d)
    (alone : c.sender.Alone e) : Joined { c with sender := c.sender.step e } :=
  ⟨Sender.queued_step h.queued alone,(c.sender.issued_step he).trans h.issued,h.sendable,
    h.carried.trans (c.sender.wire_grows e),h.reads⟩

theorem Joined.carry (h : c.Joined) (k : Nat) : (c.step (.carry k)).Joined := by
  refine ⟨h.queued,h.issued,h.sendable,?_,h.reads.step _⟩
  show (c.receiver.step (.arrive (c.inFlight.take k))).stream <+: c.sender.socket.wire
  rcases c.receiver.stream_arrive (c.inFlight.take k) with hs | hs
  · rw [hs]
    exact h.carried
  · obtain ⟨rest,hrest⟩ := h.carried
    have hin : c.inFlight = rest := by simp [inFlight,← hrest]
    rw [hs,hin,← hrest]
    exact (List.prefix_append_right_inj _).mpr (List.take_prefix k rest)

theorem Joined.read (h : c.Joined) {e : Receiver.Event} (he : ∀ bs, e ≠ .arrive bs) :
    Joined { c with receiver := c.receiver.step e } :=
  ⟨h.queued,h.issued,h.sendable,by
    show (c.receiver.step e).stream <+: _
    rw [c.receiver.stream_step he]
    exact h.carried,h.reads.step e⟩

theorem Joined.step (h : c.Joined) {e : Channel.Event} (alone : c.Alone e) :
    (c.step e).Joined := by
  cases e with
  | send m => exact h.send m
  | write e =>
    cases e with
    | send d => exact h
    | transfer k => exact h.write (by simp) alone
    | fail => exact h.write (by simp) alone
    | fullStop => exact h.write (by simp) alone
    | expire => exact h.write (by simp) alone
  | carry k => exact h.carry k
  | read e =>
    cases e with
    | arrive bs => exact h
    | start => exact h.read (by simp)
    | complete k handler => exact h.read (by simp)
    | fail k => exact h.read (by simp)
    | fullStop => exact h.read (by simp)
    | expire => exact h.read (by simp)

theorem decodes_received (ms : List Message) (h : ∀ m ∈ ms, m.Sendable) :
    List.Forall₂ Decodes ms (ms.map fun m => received m.wire) := by
  rw [List.forall₂_map_right_iff,List.forall₂_same]
  intro m hm
  have hf := received_frame m
  exact ⟨hf.kind_eq m.kind.toNat_lt,Message.ofKind_of_frame (h m hm) hf⟩

theorem Joined.in_order (h : c.Joined) : c.receiver.fault = none ∧
    ∃ done later, c.sent = done ++ later ∧ List.Forall₂ Decodes done c.receiver.received := by
  have hin := h.reads.inStep
  have hflat : c.sender.issued.flatten = c.sent.flatMap Message.wire := by
    rw [h.issued,List.flatMap]
  have harrived : c.receiver.stream <+: c.sent.flatMap Message.wire :=
    hflat ▸ h.carried.trans h.queued.in_order
  obtain ⟨whole,rest,r,hsent,hloop,-,-⟩ :=
    readNextAsync_frames.pulls_of_prefix h.sendable harrived
  change readLoop c.receiver.stream = _ at hloop
  refine ⟨?_,whole.take c.receiver.received.length,
    whole.drop c.receiver.received.length ++ rest,?_,?_⟩
  · cases hf : c.receiver.fault with
    | none => rfl
    | some f =>
      have hstop := (hin.faults f hf).2
      rw [hloop] at hstop
      cases hstop
  · rw [← List.append_assoc,List.take_append_drop,hsent]
  · have hreceived : c.receiver.received =
        (whole.take c.receiver.received.length).map fun m => received m.wire := by
      have htake := List.prefix_iff_eq_take.mp hin.in_order
      rwa [hloop,← List.map_take] at htake
    have hdecodes := decodes_received (whole.take c.receiver.received.length)
      fun m hm => h.sendable m (by rw [hsent]; simp [List.mem_of_mem_take hm])
    rwa [← hreceived] at hdecodes

theorem Joined.complete (h : c.Joined) (broken : c.sender.broken = false)
    (pending : c.sender.socket.pending = []) (flight : c.inFlight = [])
    (reading : c.receiver.outstanding ≠ []) (quiet : c.receiver.Quiet) :
    List.Forall₂ Decodes c.sent c.receiver.received := by
  have hstream : c.receiver.stream = c.sent.flatMap Message.wire := by
    have hwire := (h.queued.whole broken).wire_eq pending
    obtain ⟨rest,hrest⟩ := h.carried
    have hnil : rest = [] := by simpa [inFlight,← hrest] using flight
    rw [hnil,List.append_nil] at hrest
    rw [hrest,hwire,h.issued,List.flatMap]
  have hloop := readNextAsync_frames.drainAll_flatMap c.sent h.sendable
  have hall := (h.reads.inStep.up_to_date reading quiet).1
  rw [hstream,readLoop,hloop] at hall
  rw [hall]
  exact decodes_received c.sent h.sendable

end Channel

/-- As long as no partial write has to queue up behind another, the connection is a queue
of messages, however the writes, the bytes on their way and the reads are split. -/
theorem channel_fifo (es : List Channel.Event)
    (alone : Runs.Along Channel.step Channel.Alone Channel.create es) :
    (Channel.create.run es).Fifo := by
  have h : (Channel.create.run es).Joined :=
    alone.invariant (P := Channel.Joined) (fun _ _ h ha => h.step ha) .create
  exact ⟨h.in_order.2,h.in_order.1,h.complete⟩

theorem Receiver.received_step (r : Receiver) (e : Receiver.Event) :
    (r.step e).received = r.received ∨ ∃ d, (r.step e).received = r.received ++ [d] := by
  have hnext : ∀ r : Receiver, r.readNext.received = r.received := by
    intro r
    unfold Receiver.readNext
    split <;> rfl
  unfold Receiver.step
  split
  · exact .inl rfl
  · cases e with
    | start =>
      simp only [startReading]
      split
      · exact .inl rfl
      · exact .inl (hnext _)
    | arrive bs =>
      simp only
      split <;> exact .inl rfl
    | complete k handler =>
      simp only [Receiver.complete]
      split
      · exact .inl rfl
      · split
        · exact .inl rfl
        · simp only [onReadSize]
          split
          · exact .inl rfl
          · split <;> exact .inl rfl
      · split
        · exact .inl rfl
        · simp only [onReadMessage]
          split
          · exact .inl rfl
          · split
            · exact .inr ⟨_,hnext _⟩
            · exact .inr ⟨_,rfl⟩
    | fail k =>
      simp only
      split <;> exact .inl rfl
    | fullStop => exact .inl rfl
    | expire => exact .inl rfl

namespace Channel

variable {c : Channel} {p : Pipe UInt8}

/-- All that has been written, with what is still to be written as long as the socket holds. -/
def written (c : Channel) : Bytes :=
  if c.sender.broken then c.sender.socket.wire else c.sender.issued.flatten

/-- The channel as a pipe into which frames go whole. -/
structure IsPipe (c : Channel) (p : Pipe UInt8) : Prop where
  isOpen : p.isOpen = !c.sender.broken
  inFlight : Pulls readNextAsync c.written c.receiver.received p.inFlight

theorem Joined.wire_written (h : c.Joined) : c.sender.socket.wire <+: c.written := by
  unfold written
  split
  · exact List.prefix_rfl
  · exact h.queued.in_order

theorem IsPipe.create : create.IsPipe Pipe.fresh := ⟨rfl,.nil []⟩

theorem IsPipe.send (h : c.IsPipe p) (m : Message) :
    ∃ ms p', p.Step Message.wire readNextAsync ms [] p' ∧ (c.send m).IsPipe p' ∧
      (c.send m).sent = c.sent ++ ms := by
  unfold Channel.send
  cases hm : m.toNetworkMessage with
  | error f => exact ⟨[],p,.idle,h,by simp⟩
  | ok nd =>
    have hbuffer := Message.asBuffer_of_ok hm
    cases ha : c.sender.accepts with
    | false =>
      have hsame : c.sender.send nd = c.sender := by
        unfold Sender.accepts at ha
        unfold Sender.send
        cases hs : c.sender.beginStopingFlag with
        | true => rfl
        | false =>
          have hdead : c.sender.alive = false := by simpa [hs] using ha
          simp [hbuffer,hdead]
      refine ⟨[],p,.idle,?_,by simp⟩
      simp only [hsame]
      exact h
    | true =>
      have hgoes := Bool.and_eq_true_iff.mp ha
      have hnext : c.sender.send nd = { c.sender with
          messagesToSend := c.sender.messagesToSend+1
          socket := c.sender.socket.issue m.wire
          issued := c.sender.issued ++ [m.wire] } := by
        have hruns : c.sender.beginStopingFlag = false := by simpa using hgoes.1
        simp [Sender.send,hruns,hgoes.2,hbuffer]
      refine ⟨[m],p.send m.wire,.send m,?_,by simp⟩
      simp only [hnext]
      have hflight := h.inFlight
      cases hb : c.sender.broken with
      | true =>
        have hclosed : p.isOpen = false := by simpa [hb] using h.isOpen
        rw [written,hb,if_pos rfl] at hflight
        refine ⟨by simp [Pipe.send,hclosed],?_⟩
        simpa [Pipe.send,hclosed,written,hb,ComposedWrite.Socket.issue] using hflight
      | false =>
        have hopen : p.isOpen = true := by simpa [hb] using h.isOpen
        rw [written,hb,if_neg Bool.false_ne_true] at hflight
        refine ⟨by simp [Pipe.send,hopen],?_⟩
        simpa [Pipe.send,hopen,written,hb] using hflight.append readNextAsync_steady m.wire

/-- Nothing more gets on the wire. -/
theorem IsPipe.breaks (h : c.IsPipe p) (hj : c.Joined) {sender : Sender}
    (broken : sender.broken = true) (wire : sender.socket.wire = c.sender.socket.wire) :
    ∃ k, IsPipe { c with sender := sender } (p.cut k) := by
  obtain ⟨s,hs,-⟩ := hj.reads
  obtain ⟨now,hnow⟩ := hj.carried
  obtain ⟨later,hlater⟩ := hj.wire_written
  have hflight : s ++ now ++ later = p.inFlight := by
    refine Pulls.unique ?_ h.inFlight
    rw [← hlater,← hnow]
    exact (hs.append readNextAsync_steady now).append readNextAsync_steady later
  refine ⟨(s ++ now).length,by simp [Pipe.cut,broken],?_⟩
  have hwritten : written { c with sender := sender } = c.receiver.stream ++ now := by
    rw [written,if_pos broken,wire,hnow]
  rw [hwritten]
  show Pulls _ _ _ (p.inFlight.take _)
  rw [← hflight,List.take_left]
  exact hs.append readNextAsync_steady now

theorem IsPipe.write (h : c.IsPipe p) (hj : c.Joined) {e : Sender.Event} (he : ∀ d, e ≠ .send d) :
    ∃ p', p.Step Message.wire readNextAsync [] [] p' ∧
      IsPipe { c with sender := c.sender.step e } p' := by
  have hcut : ∀ sender : Sender, sender.broken = true →
      sender.socket.wire = c.sender.socket.wire →
      ∃ p', p.Step Message.wire readNextAsync [] [] p' ∧ IsPipe { c with sender := sender } p' := by
    intro sender broken wire
    obtain ⟨k,hk⟩ := h.breaks hj broken wire
    exact ⟨p.cut k,.cut k,hk⟩
  cases e with
  | send d => exact absurd rfl (he d)
  | transfer k =>
    refine ⟨p,.idle,?_⟩
    simp only [Sender.step,Sender.transfer]
    split
    · exact h
    · rename_i hgoes
      have hbroken : c.sender.broken = false := by
        cases hb : c.sender.broken with
        | false => rfl
        | true => simp [hb] at hgoes
      obtain ⟨ho,hf⟩ := h
      rw [written,hbroken] at hf
      exact ⟨ho,by simpa [written,hbroken] using hf⟩
  | fail => exact hcut _ rfl rfl
  | fullStop => exact hcut _ rfl rfl
  | expire => exact hcut _ rfl rfl

theorem IsPipe.read (h : c.IsPipe p) {e : Receiver.Event}
    (hj' : Joined { c with receiver := c.receiver.step e }) :
    ∃ ds p', p.Step Message.wire readNextAsync [] ds p' ∧
      IsPipe { c with receiver := c.receiver.step e } p' ∧
      (c.receiver.step e).received = c.receiver.received ++ ds := by
  rcases c.receiver.received_step e with hsame | ⟨d,hd⟩
  · refine ⟨[],p,.idle,⟨h.isOpen,?_⟩,by simpa using hsame⟩
    show Pulls _ c.written (c.receiver.step e).received _
    rw [hsame]
    exact h.inFlight
  · obtain ⟨s,hs,-⟩ := hj'.reads
    obtain ⟨later,hlater⟩ := hj'.carried.trans hj'.wire_written
    have hall := hs.append readNextAsync_steady later
    rw [hlater] at hall
    have hlast := hall
    simp only at hlast
    rw [hd] at hlast
    obtain ⟨r,hr,hitem⟩ := hlast.last
    rw [hr.unique h.inFlight] at hitem
    exact ⟨[d],p.rest (s ++ later),.receive hitem,⟨h.isOpen,hall⟩,hd⟩

/-- Each step of the channel is one of the pipe. -/
theorem IsPipe.step (h : c.IsPipe p) (hj : c.Joined) {e : Channel.Event} (alone : c.Alone e) :
    ∃ ms ds p', p.Step Message.wire readNextAsync ms ds p' ∧ (c.step e).IsPipe p' ∧
      (c.step e).sent = c.sent ++ ms ∧
      (c.step e).receiver.received = c.receiver.received ++ ds := by
  have hidle : ∃ ms ds p', p.Step Message.wire readNextAsync ms ds p' ∧ c.IsPipe p' ∧
      c.sent = c.sent ++ ms ∧ c.receiver.received = c.receiver.received ++ ds :=
    ⟨[],[],p,.idle,h,by simp,by simp⟩
  have hwrite : ∀ e : Sender.Event, (∀ d, e ≠ .send d) → ∃ ms ds p',
      p.Step Message.wire readNextAsync ms ds p' ∧
      IsPipe { c with sender := c.sender.step e } p' ∧ c.sent = c.sent ++ ms ∧
      c.receiver.received = c.receiver.received ++ ds := by
    intro e he
    obtain ⟨p',hstep,hpipe⟩ := h.write hj he
    exact ⟨[],[],p',hstep,hpipe,by simp,by simp⟩
  have hread : ∀ e : Receiver.Event, Joined { c with receiver := c.receiver.step e } →
      ∃ ms ds p', p.Step Message.wire readNextAsync ms ds p' ∧
      IsPipe { c with receiver := c.receiver.step e } p' ∧ c.sent = c.sent ++ ms ∧
      (c.receiver.step e).received = c.receiver.received ++ ds := by
    intro e hj'
    obtain ⟨ds,p',hstep,hpipe,hds⟩ := h.read hj'
    exact ⟨[],ds,p',hstep,hpipe,by simp,hds⟩
  have hj' := hj.step alone
  cases e with
  | send m =>
    obtain ⟨ms,p',hstep,hpipe,hms⟩ := h.send m
    refine ⟨ms,[],p',hstep,hpipe,hms,?_⟩
    show (c.send m).receiver.received = _
    unfold Channel.send
    cases m.toNetworkMessage <;> simp
  | write e =>
    cases e with
    | send d => exact hidle
    | transfer k => exact hwrite _ (by simp)
    | fail => exact hwrite _ (by simp)
    | fullStop => exact hwrite _ (by simp)
    | expire => exact hwrite _ (by simp)
  | carry k => exact hread _ hj'
  | read e =>
    cases e with
    | arrive bs => exact hidle
    | start => exact hread _ hj'
    | complete k handler => exact hread _ hj'
    | fail k => exact hread _ hj'
    | fullStop => exact hread _ hj'
    | expire => exact hread _ hj'

end Channel

/-- As long as no partial write has to queue up behind another, one direction of a connection
is a pipe into which frames go whole and which may lose the end of what is in flight. -/
theorem channel_is_pipe (es : List Channel.Event)
    (alone : Runs.Along Channel.step Channel.Alone Channel.create es) :
    ∃ p done, (Channel.create.run es).IsPipe p ∧
      p.Transfers Message.wire (Channel.create.run es).sent done ∧
      (Channel.create.run es).receiver.received = done.map fun m => received m.wire := by
  have h : (Channel.create.run es).Joined ∧ ∃ p done, (Channel.create.run es).IsPipe p ∧
      p.Transfers Message.wire (Channel.create.run es).sent done ∧
      (Channel.create.run es).receiver.received = done.map fun m => received m.wire := by
    refine alone.invariant (P := fun c => c.Joined ∧ ∃ p done, c.IsPipe p ∧
      p.Transfers Message.wire c.sent done ∧
      c.receiver.received = done.map fun m => received m.wire) (fun c e h ha => ?_)
      ⟨.create,Pipe.fresh,[],.create,Pipe.transfers_fresh,rfl⟩
    obtain ⟨hj,p,done,hpipe,htransfers,hdone⟩ := h
    obtain ⟨ms,ds,p',hstep,hpipe',hsent,hreceived⟩ := hpipe.step hj ha
    obtain ⟨got,rfl,htransfers'⟩ :=
      htransfers.step readNextAsync_frames hj.sendable hstep
    refine ⟨hj.step ha,p',done ++ got,hpipe',hsent ▸ htransfers',?_⟩
    rw [hreceived,hdone,List.map_append]
  exact h.2

/-- Two messages; the second is sent when the first is half written. -/
def twoSent : List Channel.Event :=
  [.read .start,.send (.ok ⟨1⟩),.write (.transfer 9),.send (.unsubscribe ⟨[113],[],2⟩),.carry 7,
    .read (.complete 0 .returns),.write (.transfer 5),.carry 10,.read (.complete 0 .returns),
    .write (.transfer 100),.carry 100,.read (.complete 0 .returns),.read (.complete 0 .returns)]

theorem channel_fifo_two_sent : (Channel.create.run twoSent).sent.length = 2 ∧
    List.Forall₂ Channel.Decodes (Channel.create.run twoSent).sent
      (Channel.create.run twoSent).receiver.received := by
  have alone : Runs.Along Channel.step Channel.Alone Channel.create twoSent :=
    ⟨trivial,trivial,.inl (by decide +kernel),trivial,trivial,trivial,.inr (by decide +kernel),
      trivial,trivial,.inl (by decide +kernel),trivial,trivial,trivial,trivial⟩
  exact ⟨by decide +kernel,(channel_fifo twoSent alone).complete (by decide +kernel)
    (by decide +kernel) (by decide +kernel) (by decide +kernel) (by decide +kernel)⟩

end Dqueue.AsyncIO
