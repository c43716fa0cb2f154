import Dqueue.LockOrder

/-!
A call with `OperationType::Async`, on the application's thread or from a handler that
the io thread is in: how far it gets by its own steps once `_locker` is free.
-/

set_option autoImplicit false

namespace Dqueue
open Std Effects RawMem Queries

/-- What a client goes through: the steps of its threads, and `_async_connection`
being set. -/
inductive ClientEvent where
  | thread (e : ThreadEvent)
  | asyncConnection (a : Option Nat)
  deriving DecidableEq, Repr

namespace ClientThreads

/-- The io thread stays where it is. Where the call is made from a handler of the io
thread, that is inside of the handler. -/
def ownSteps (s : ClientThreads) (n : Nat) : ClientThreads := appStep^[n] s

/-- The call comes to its end; an exception is one. -/
def Returns (s : ClientThreads) : Prop := ∃ n, (s.ownSteps n).app = .idle

section History

variable (regex : RegexCompiler) (consume : EventConsumer → PublishParams → Bytes →
  List (PublishParams × Bytes))

def clientStep (s : ClientThreads) : ClientEvent → ClientThreads
  | .thread e => s.step regex consume e
  | .asyncConnection a => { s with client := { s.client with asyncConnection := a } }

def clientRun (s : ClientThreads) (events : List ClientEvent) : ClientThreads :=
  events.foldl (clientStep regex consume) s

end History

variable {regex : RegexCompiler} {consume : EventConsumer → PublishParams → Bytes →
  List (PublishParams × Bytes)} {s : ClientThreads}

structure Numbered (s : ClientThreads) : Prop where
  released : ∀ l ∈ s.client.released, l < s.lockers
  queries : ∀ (n : UInt64) l, s.client.queries[n]? = some l → l < s.lockers

theorem Numbered.start (login : Str) (cache : ReCache) :
    (start (Client.create login) cache).Numbered where
  released l h := by cases h
  queries n l h := by simp [ClientThreads.start,Client.create] at h

theorem Numbered.issue (h : s.Numbered) (r : Request) : (s.issue r).Numbered where
  released l hl := Nat.lt_succ_of_lt (h.released l hl)
  queries n l hl := by
    simp only [ClientThreads.issue,Client.issue,ExtTreeMap.getElem?_insert] at hl ⊢
    split at hl
    · cases hl
      exact Nat.lt_succ_self _
    · exact Nat.lt_succ_of_lt (h.queries n l hl)

theorem Numbered.handle (h : s.Numbered) (m : Message) :
    ({ s with client := final (Client.handle m s.client) } : ClientThreads).Numbered := by
  cases Client.handle_cases m s.client with
  | other pool queries next released handled =>
    refine ⟨fun l hl => h.released l ?_,fun n l hl => h.queries n l ?_⟩
    · rwa [released] at hl
    · rwa [queries] at hl
  | ok known pool queries next released handled =>
    refine ⟨fun l hl => ?_,fun n l hl => ?_⟩
    · rw [released,List.mem_cons] at hl
      rcases hl with rfl | hl
      · exact h.queries _ _ known
      · exact h.released l hl
    · rw [queries,ExtTreeMap.getElem?_erase] at hl
      split at hl
      · cases hl
      · exact h.queries n l hl

theorem Numbered.congr {s' : ClientThreads} (h : s.Numbered) (hc : s'.client = s.client)
    (hl : s'.lockers = s.lockers) : s'.Numbered :=
  ⟨by rw [hc,hl]; exact h.released,by rw [hc,hl]; exact h.queries⟩

theorem Numbered.appStep (h : s.Numbered) : s.appStep.Numbered := by
  unfold ClientThreads.appStep
  split
  · exact h
  · split
    · exact h
    · split
      · exact h.congr rfl rfl
      · exact h.congr rfl rfl
  · split
    · exact h
    · exact h.congr rfl rfl
  · split
    · exact h.congr rfl rfl
    · exact h.congr rfl rfl
  · exact (h.issue _).congr rfl rfl
  · split
    · exact h.congr rfl rfl
    · exact h

theorem Numbered.ioStep (h : s.Numbered) : (s.ioStep regex consume).Numbered := by
  unfold ClientThreads.ioStep
  split
  · exact h
  · split
    · exact h
    · exact h.congr rfl rfl
  · exact h.congr rfl rfl
  · split
    · exact h.congr rfl rfl
    · exact h.congr rfl rfl
    · exact h.congr rfl rfl
  · split
    · exact h
    · exact h.congr rfl rfl
  · rename_i settings data _ _
    exact (h.issue (.publish settings data)).congr rfl rfl
  · split
    · exact h
    · exact h.congr rfl rfl
  · rename_i cs _
    exact (h.handle (.ok cs)).congr rfl rfl

theorem Numbered.onNewMessage (h : s.Numbered) (m : Message) : (s.onNewMessage m).Numbered := by
  cases m with
  | publish cs => exact h.congr rfl rfl
  | ok cs => exact h.congr rfl rfl
  | login q => exact h.handle _
  | loginConfirm q => exact h.handle _
  | createQueue q => exact h.handle _
  | subscribe q => exact h.handle _
  | unsubscribe q => exact h.handle _

theorem Numbered.step (h : s.Numbered) (e : ClientEvent) :
    (s.clientStep regex consume e).Numbered := by
  cases e with
  | asyncConnection a => exact ⟨h.released,h.queries⟩
  | thread e =>
    simp only [clientStep,ClientThreads.step]
    cases e with
    | call r handler ot =>
      simp only
      split
      · exact h.congr rfl rfl
      · exact h
    | message m =>
      simp only
      split
      · exact h.onNewMessage m
      · exact h
    | app => exact h.appStep
    | io => exact h.ioStep

variable (regex consume) in
theorem Numbered.run (h : s.Numbered) (events : List ClientEvent) :
    (s.clientRun regex consume events).Numbered :=
  Runs.invariant (fun _ e h => h.step e) h events

theorem Numbered.fresh (h : s.Numbered) : s.lockers ∉ s.client.released :=
  fun hl => Nat.lt_irrefl _ (h.released _ hl)

theorem returns_of_idle (h : s.app = .idle) : s.Returns := ⟨0,h⟩

theorem returns_step (h : s.app ≠ .idle) : s.Returns ↔ s.appStep.Returns := by
  constructor
  · rintro ⟨n,hn⟩
    cases n with
    | zero => exact absurd hn h
    | succ n => exact ⟨n,by rwa [ownSteps,← Function.iterate_succ_apply]⟩
  · rintro ⟨n,hn⟩
    exact ⟨n+1,by rwa [ownSteps,Function.iterate_succ_apply]⟩

theorem not_returns_of_fixed (h : s.app ≠ .idle) (hfix : s.appStep = s) : ¬ s.Returns := by
  rintro ⟨n,hn⟩
  rw [ownSteps,Function.iterate_fixed hfix] at hn
  exact h hn

theorem returns_issuing {r : Request} {ot : OperationType} (happ : s.app = .issuing r ot)
    (fresh : s.lockers ∉ s.client.released) : s.Returns ↔ r.waits ot = false := by
  have hstep : s.appStep =
      { s.issue r with app := if r.waits ot then .waiting s.lockers else .idle } := by
    simp only [appStep,happ]
  rw [returns_step (by simp [happ]),hstep]
  cases hw : r.waits ot with
  | false => exact iff_of_true (returns_of_idle rfl) rfl
  | true =>
    refine iff_of_false (not_returns_of_fixed (by simp) ?_) (by simp)
    have hkeep : (s.issue r).client.released = s.client.released := rfl
    simp [appStep,hkeep,fresh]

/-- `subscribe` with a consumer waits for the lock of the registry, and not for more. -/
theorem returns_adding {settings : SubscriptionParams} {h : EventConsumer}
    (happ : s.app = .adding settings h .Async) (fresh : s.lockers ∉ s.client.released) :
    s.Returns ↔ s.io.holds .eventHandlersLocker = false := by
  cases hio : s.io.holds .eventHandlersLocker with
  | true =>
    refine iff_of_false (not_returns_of_fixed (by simp [happ]) ?_) (by simp)
    simp [appStep,happ,hio]
  | false =>
    refine iff_of_true ?_ rfl
    have hlock : s.appStep = { s with app := .registering settings h .Async } := by
      simp [appStep,happ,hio]
    rw [returns_step (by simp [happ]),hlock,returns_step (by simp)]
    simp only [appStep]
    cases Consumers.addHandler settings (some h) s.consumers with
    | error f c => exact returns_of_idle rfl
    | ok _ c =>
      have hissuing : s.lockers ∉ s.client.released := fresh
      exact (returns_issuing (s := { s with
        consumers := c, app := .issuing (.subscribe settings) .Async }) rfl hissuing).mpr rfl

theorem returns_locking {r : Request} {handler : Option EventConsumer}
    (happ : s.app = .locking r handler .Async) (free : s.io.holds .locker = false)
    (fresh : s.lockers ∉ s.client.released) :
    s.Returns ↔ (∀ name, r ≠ .createQueue name) ∧ ∀ settings, r = .subscribe settings →
      handler ≠ none → s.io.holds .eventHandlersLocker = false := by
  have hissuing : s.appStep = { s with app := .issuing r .Async } →
      (s.Returns ↔ r.waits .Async = false) := by
    intro hstep
    rw [returns_step (by simp [happ]),hstep]
    exact returns_issuing rfl fresh
  cases r with
  | createQueue name =>
    rw [hissuing (by simp [appStep,happ,free])]
    simp [Request.waits]
  | subscribe settings =>
    cases handler with
    | none =>
      rw [hissuing (by simp [appStep,happ,free])]
      simp [Request.waits]
    | some h =>
      have hstep : s.appStep = { s with app := .adding settings h .Async } := by
        simp [appStep,happ,free]
      have hadding := returns_adding (s := { s with app := .adding settings h .Async }) rfl fresh
      rw [returns_step (by simp [happ]),hstep,hadding]
      simp
  | unsubscribe qname =>
    rw [hissuing (by simp [appStep,happ,free])]
    simp [Request.waits]
  | publish settings data =>
    rw [hissuing (by simp [appStep,happ,free])]
    simp [Request.waits]

end ClientThreads

/-- In every state of a client, a call with `OperationType::Async` that finds `_locker`
free comes to its end by its own steps if and only if it is not a `createQueue`, and not a
`subscribe` with a consumer while the io thread holds the lock of the registry. -/
theorem async_returns_iff (regex : RegexCompiler) (consume : EventConsumer → PublishParams →
    Bytes → List (PublishParams × Bytes)) (login : Str) (cache : ReCache)
    (events : List ClientEvent) {s : ClientThreads} (run : s =
      (ClientThreads.start (Client.create login) cache).clientRun regex consume events)
    {r : Request} {handler : Option EventConsumer} (call : s.app = .locking r handler .Async)
    (free : s.io.holds .locker = false) :
    s.Returns ↔ (∀ name, r ≠ .createQueue name) ∧ ∀ settings, r = .subscribe settings →
      handler ≠ none → s.io.holds .eventHandlersLocker = false := by
  have hnumbered : s.Numbered := by
    rw [run]
    exact (ClientThreads.Numbered.start login cache).run regex consume events
  exact ClientThreads.returns_locking call free hnumbered.fresh

def calledInConsumer (r : Request) (handler : Option EventConsumer) : List ClientEvent :=
  messageComes.map .thread ++ [.thread (.call r handler .Async)]

theorem async_returns_publish_in_consumer :
    ((ClientThreads.start (Client.create [97]) ∅).clientRun literal answers
      (calledInConsumer (.publish ⟨[113],[]⟩ [5]) none)).Returns := by
  have hcall : ((ClientThreads.start (Client.create [97]) ∅).clientRun literal answers
      (calledInConsumer (.publish ⟨[113],[]⟩ [5]) none)).app =
        .locking (.publish ⟨[113],[]⟩ [5]) none .Async := by decide +kernel
  have hfree : ((ClientThreads.start (Client.create [97]) ∅).clientRun literal answers
      (calledInConsumer (.publish ⟨[113],[]⟩ [5]) none)).io.holds .locker = false := by
    decide +kernel
  exact (async_returns_iff literal answers [97] ∅ _ rfl hcall hfree).mpr ⟨by simp,by simp⟩

/-- `createQueue` with `OperationType::Async` on a client without a connection, and
`subscribe` from a consumer. -/
theorem async_call_waits :
    ¬ ((ClientThreads.start (Client.create [97]) ∅).clientRun literal answers
        [.thread (.call (.createQueue [113]) none .Async)]).Returns ∧
      ¬ ((ClientThreads.start (Client.create [97]) ∅).clientRun literal answers
        (calledInConsumer (.subscribe ⟨[114],[]⟩) (some 1))).Returns := by
  have hfresh := fun events =>
    ((ClientThreads.Numbered.start [97] ∅).run literal answers events).fresh
  constructor
  · have hcall : ((ClientThreads.start (Client.create [97]) ∅).clientRun literal answers
        [.thread (.call (.createQueue [113]) none .Async)]).app =
          .locking (.createQueue [113]) none .Async := by decide +kernel
    rw [ClientThreads.returns_locking hcall (by decide +kernel) (hfresh _)]
    simp
  · have hcall : ((ClientThreads.start (Client.create [97]) ∅).clientRun literal answers
        (calledInConsumer (.subscribe ⟨[114],[]⟩) (some 1))).app =
          .locking (.subscribe ⟨[114],[]⟩) (some 1) .Async := by decide +kernel
    rw [ClientThreads.returns_locking hcall (by decide +kernel) (hfresh _)]
    intro h
    have hio := h.2 ⟨[114],[]⟩ rfl (by simp)
    revert hio
    decide +kernel

end Dqueue
