import Dqueue.SendOrder

/-!
The counter behind `queue_size`. `send` counts a write when it issues it; the
completion handler takes it off again in its success branch only.
-/

set_option autoImplicit false

namespace Dqueue.AsyncIO
open RawMem

/-- The writes of an `AsyncIO`. `sock` tells whether the weak pointer can be
locked; `outstanding` has the messages of the writes whose completion has not been
handled, and `failed` those that `_on_error_handler` was called with. -/
structure Writes where
  messagesToSend : Int32
  isStoped : Bool
  beginStopingFlag : Bool
  sock : Bool
  outstanding : List NetworkMessage
  failed : List NetworkMessage
  deriving DecidableEq

/-- The constructor leaves `_begin_stoping_flag` as it is. -/
def Writes.create (beginStopingFlag : Bool) : Writes := ⟨0,true,beginStopingFlag,false,[],[]⟩

/-- `completed k err` is the handler of the `k`-th outstanding write, `expire` the
loss of the socket. -/
inductive Writes.Event where
  | start
  | send (d : NetworkMessage)
  | completed (k : Nat) (err : Bool)
  | fullStop
  | expire
  deriving DecidableEq, Repr

namespace Writes

def start (s : Writes) : Writes :=
  if !s.isStoped then s
  else { s with sock := true, isStoped := false, beginStopingFlag := false }

def send (s : Writes) (d : NetworkMessage) : Writes :=
  if s.beginStopingFlag then s
  else
    match d.asBuffer with
    | .error _ => s
    | .ok _ =>
      if s.sock then
        { s with messagesToSend := s.messagesToSend+1, outstanding := s.outstanding ++ [d] }
      else s

/-- Writes complete in any order, also after `full_stop` and the loss of the socket. -/
def completed (s : Writes) (k : Nat) (err : Bool) : Writes :=
  match s.outstanding[k]? with
  | none => s
  | some d =>
    let s' := { s with outstanding := s.outstanding.eraseIdx k }
    if err then { s' with failed := s.failed ++ [d] }
    else { s' with messagesToSend := s.messagesToSend-1 }

def fullStop (s : Writes) : Writes := { s with beginStopingFlag := true }

def step (s : Writes) : Event → Writes
  | .start => s.start
  | .send d => s.send d
  | .completed k err => s.completed k err
  | .fullStop => s.fullStop
  | .expire => { s with sock := false }

def run (s : Writes) (events : List Event) : Writes := events.foldl step s

def queueSize (s : Writes) : Int := s.messagesToSend.toInt

structure Exact (s : Writes) : Prop where
  outstanding : s.queueSize = s.outstanding.length
  nonneg : 0 ≤ s.queueSize
  zero : s.outstanding = [] → s.queueSize = 0

def Issues (s : Writes) (d : NetworkMessage) : Prop :=
  s.beginStopingFlag = false ∧ s.sock = true ∧ ∃ buf, d.asBuffer = .ok buf

/-- No write fails, and the counter has room for one that is issued. -/
def Counted (s : Writes) : Event → Prop
  | .send d => s.Issues d → s.outstanding.length+1 < 2^31
  | .completed k err => k < s.outstanding.length → err = false
  | .start | .fullStop | .expire => True

variable {s : Writes}

theorem exact_iff : s.Exact ↔ s.queueSize = s.outstanding.length := by
  refine ⟨fun h => h.outstanding,fun h => ⟨h,?_,fun he => ?_⟩⟩
  · rw [h]
    exact Int.natCast_nonneg _
  · simpa [he] using h

theorem Exact.lt (h : s.Exact) : s.outstanding.length < 2^31 := by
  have hlt := s.messagesToSend.toInt_lt
  have heq := h.outstanding
  rw [queueSize] at heq
  omega

theorem Exact.messagesToSend (h : s.Exact) :
    s.messagesToSend = Int32.ofNat s.outstanding.length := by
  rw [← Int32.toInt_inj,Int32.toInt_ofNat_of_lt h.lt]
  exact h.outstanding

theorem toInt_ofNat_eq {n m : Nat} (hm : m ≤ n+1) (hn : n < 2^31) :
    (Int32.ofNat m).toInt = n ↔ m = n := by
  by_cases h : m < 2^31
  · rw [Int32.toInt_ofNat_of_lt h]
    omega
  · have hm' : m = 2^31 := by omega
    rw [hm']
    have hmin : (Int32.ofNat (2^31)).toInt = -2^31 := by decide
    omega

theorem send_issues {d : NetworkMessage} (h : s.Issues d) :
    s.send d =
      { s with messagesToSend := s.messagesToSend+1, outstanding := s.outstanding ++ [d] } := by
  obtain ⟨hflag,hsock,buf,hbuf⟩ := h
  simp [send,hflag,hsock,hbuf]

theorem send_not_issues {d : NetworkMessage} (h : ¬ s.Issues d) : s.send d = s := by
  unfold send
  split
  · rfl
  · rename_i hflag
    split
    · rfl
    · rename_i buf hbuf
      split
      · rename_i hsock
        exact absurd ⟨by simpa using hflag,hsock,buf,hbuf⟩ h
      · rfl

theorem exact_send (h : s.Exact) (d : NetworkMessage) :
    (s.send d).Exact ↔ s.Counted (.send d) := by
  by_cases hi : s.Issues d
  · have hsucc : s.messagesToSend+1 = Int32.ofNat (s.outstanding.length+1) := by
      rw [h.messagesToSend,Int32.ofNat_add]
      rfl
    rw [send_issues hi]
    constructor
    · intro he _
      simpa using he.lt
    · intro hroom
      rw [exact_iff,queueSize,hsucc,Int32.toInt_ofNat_of_lt (hroom hi)]
      simp
  · rw [send_not_issues hi]
    exact ⟨fun _ hno => absurd hno hi,fun _ => h⟩

theorem exact_completed (h : s.Exact) (k : Nat) (err : Bool) :
    (s.completed k err).Exact ↔ s.Counted (.completed k err) := by
  unfold completed
  cases hk : s.outstanding[k]? with
  | none =>
    have hlen := List.getElem?_eq_none_iff.mp hk
    exact ⟨fun _ hlt => absurd hlt (by omega),fun _ => h⟩
  | some d =>
    obtain ⟨hlt,-⟩ := List.getElem?_eq_some_iff.mp hk
    have hlen := List.length_eraseIdx_of_lt hlt
    have hbound := h.lt
    cases err with
    | true =>
      -- the counter still has the write
      refine iff_of_false (fun he => ?_) fun hc => by simpa using hc hlt
      have hcount : (Int32.ofNat s.outstanding.length).toInt =
          (s.outstanding.eraseIdx k).length := by
        rw [← h.messagesToSend]
        exact he.outstanding
      rw [toInt_ofNat_eq (by omega) (by omega)] at hcount
      omega
    | false =>
      refine iff_of_true ?_ fun _ => rfl
      have hpred : s.messagesToSend-1 = Int32.ofNat (s.outstanding.eraseIdx k).length := by
        have hsucc : s.outstanding.length = (s.outstanding.eraseIdx k).length+1 := by omega
        rw [h.messagesToSend,hsucc,Int32.ofNat_add]
        exact Int32.add_sub_cancel _ _
      rw [exact_iff,queueSize]
      simp only [hpred,Bool.false_eq_true,if_false]
      exact Int32.toInt_ofNat_of_lt (by omega)

theorem exact_step (h : s.Exact) (e : Event) : (s.step e).Exact ↔ s.Counted e := by
  have hsame : ∀ s' : Writes, s'.messagesToSend = s.messagesToSend →
      s'.outstanding = s.outstanding → s'.Exact := by
    intro s' hm ho
    rw [exact_iff,queueSize,hm,ho]
    exact h.outstanding
  cases e with
  | start =>
    refine iff_of_true ?_ trivial
    rw [step,start]
    split
    · exact h
    · exact hsame _ rfl rfl
  | send d => exact exact_send h d
  | completed k err => exact exact_completed h k err
  | fullStop => exact iff_of_true (hsame _ rfl rfl) trivial
  | expire => exact iff_of_true (hsame _ rfl rfl) trivial

theorem exact_create (beginStopingFlag : Bool) : (create beginStopingFlag).Exact :=
  exact_iff.mpr rfl

/-- `queue_size` is exact in every state of a run if and only if no write of the
run fails and never `2^31` writes are outstanding. -/
theorem queue_size_exact_iff (beginStopingFlag : Bool) (events : List Event) :
    (∀ before after, events = before ++ after → ((create beginStopingFlag).run before).Exact) ↔
      Runs.Along step Counted (create beginStopingFlag) events := by
  have h₀ := exact_create beginStopingFlag
  rw [← Runs.Along.iff (I := Exact) (fun s e h => exact_step h e)
    (fun s e h hc => (exact_step h e).mpr hc) h₀ events]
  exact Runs.prefixes_iff_along h₀ events

/-- The write of the only message fails: nothing is outstanding, and `queue_size`
is 1 from then on. -/
theorem failed_write_stays_counted :
    let s := (create false).run
      [.start,.send (received (Message.wire (.ok ⟨1⟩))),.completed 0 true]
    s.outstanding = [] ∧ s.queueSize = 1 ∧ ¬ s.Exact := by
  refine ⟨by decide,by decide,fun h => ?_⟩
  have hzero := h.zero (by decide)
  revert hzero
  decide

end Writes

/-- The sending half with its bytes is one of these: its writes complete in the order
of its socket. -/
structure Sender.Refines (s : Sender) (w : Writes) : Prop where
  messagesToSend : w.messagesToSend = Int32.ofInt s.messagesToSend
  beginStopingFlag : w.beginStopingFlag = s.beginStopingFlag
  sock : w.sock = s.alive
  outstanding : w.outstanding.length = s.socket.pending.length

theorem Sender.refines_start (beginStopingFlag : Bool) :
    Sender.start.Refines ((Writes.create beginStopingFlag).run [.start]) := ⟨rfl,rfl,rfl,rfl⟩

theorem Sender.Refines.send {s : Sender} {w : Writes} (h : s.Refines w) (d : NetworkMessage) :
    (s.send d).Refines (w.send d) := by
  unfold Sender.send Writes.send
  rw [h.beginStopingFlag,h.sock]
  split
  · exact h
  · cases d.asBuffer with
    | error f => exact h
    | ok buf =>
      cases hs : s.alive with
      | true =>
        refine ⟨?_,rfl,rfl,?_⟩
        · simp [h.messagesToSend,Int32.ofInt_add]
        · simp [ComposedWrite.Socket.issue,h.outstanding]
      | false =>
        simp only [Bool.false_eq_true,if_false]
        exact h

theorem Sender.Refines.transfer {s : Sender} {w : Writes} (h : s.Refines w) (k : Nat) :
    ∃ es, (s.transfer k).Refines (w.run es) := by
  unfold Sender.transfer
  split
  · exact ⟨[],h⟩
  · cases hp : s.socket.pending with
    | nil =>
      refine ⟨[],?_,h.beginStopingFlag,h.sock,?_⟩
      · simp [Writes.run,ComposedWrite.Socket.finishes,hp,h.messagesToSend]
      · simp [Writes.run,ComposedWrite.Socket.transfer,hp,h.outstanding]
    | cons bs rest =>
      have hlen : w.outstanding.length = rest.length+1 := by rw [h.outstanding,hp]; rfl
      by_cases hk : bs.length ≤ k
      · obtain ⟨d,ds,hd⟩ := List.exists_cons_of_length_eq_add_one hlen
        have hrun : w.run [.completed 0 false] =
            { w with outstanding := ds, messagesToSend := w.messagesToSend-1 } := by
          simp [Writes.run,Writes.step,Writes.completed,hd]
        refine ⟨[.completed 0 false],?_⟩
        rw [hrun]
        refine ⟨?_,h.beginStopingFlag,h.sock,?_⟩
        · simp [ComposedWrite.Socket.finishes,hp,hk,h.messagesToSend,Int32.ofInt_sub]
        · simpa [ComposedWrite.Socket.transfer,hp,hk,hd] using hlen
      · refine ⟨[],?_,h.beginStopingFlag,h.sock,?_⟩
        · simp [Writes.run,ComposedWrite.Socket.finishes,hp,hk,h.messagesToSend]
        · simp [Writes.run,ComposedWrite.Socket.transfer,hp,hk,hlen]

theorem Sender.Refines.fail {s : Sender} {w : Writes} (h : s.Refines w) :
    (s.step .fail).Refines (w.completed 0 true) := by
  cases hw : w.outstanding with
  | nil =>
    have hsame : w.completed 0 true = w := by simp [Writes.completed,hw]
    have hp : s.socket.pending = [] := List.length_eq_zero_iff.mp (by rw [← h.outstanding,hw]; rfl)
    rw [hsame]
    exact ⟨h.messagesToSend,h.beginStopingFlag,h.sock,by simp [hw,Sender.step,hp]⟩
  | cons d ds =>
    have hlen := h.outstanding
    simp only [Writes.completed,hw,List.getElem?_cons_zero,if_true]
    refine ⟨h.messagesToSend,h.beginStopingFlag,h.sock,?_⟩
    simp [Sender.step,← hlen,hw]

theorem Sender.Refines.step {s : Sender} {w : Writes} (h : s.Refines w) (e : Sender.Event) :
    ∃ es, (s.step e).Refines (w.run es) := by
  cases e with
  | send d => exact ⟨[.send d],h.send d⟩
  | transfer k => exact h.transfer k
  | fail => exact ⟨[.completed 0 true],h.fail⟩
  | fullStop => exact ⟨[.fullStop],h.messagesToSend,rfl,h.sock,h.outstanding⟩
  | expire => exact ⟨[.expire],h.messagesToSend,h.beginStopingFlag,rfl,h.outstanding⟩

theorem Sender.refines_run (beginStopingFlag : Bool) (events : List Sender.Event) :
    ∃ es, (events.foldl Sender.step Sender.start).Refines
      ((Writes.create beginStopingFlag).run es) := by
  induction events using List.reverseRecOn with
  | nil => exact ⟨[.start],Sender.refines_start beginStopingFlag⟩
  | append_singleton events e ih =>
    obtain ⟨es,h⟩ := ih
    obtain ⟨more,h'⟩ := h.step e
    refine ⟨es ++ more,?_⟩
    rw [List.foldl_append,Writes.run,List.foldl_append]
    exact h'

end Dqueue.AsyncIO
