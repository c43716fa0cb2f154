import Dqueue.Reconnection

/-!
`disconnect` and the destructor, which calls it, in every phase of a client. The
pointer that both follow is null until a connect has succeeded.
-/

set_option autoImplicit false

namespace Dqueue
open Std Effects RawMem Queries

namespace AbstractClient

/-- `AbstractClient::disconnect` with the null pointer. The flag is set first. -/
def runDisconnect : EStateM Failure AbstractClient Unit := do
  let s ← get
  if !s.isStoped then
    set { s with isStoped := true }
    match s.client.asyncConnection with
    | none => throw .nullDereference
    | some a =>
      modify (fun s => { s with
        connections := s.connections.modify a (fun c => { c with beginStoping := true }) })

/-- `~AbstractClient`. -/
def destroy : EStateM Failure AbstractClient Unit := runDisconnect

def Stops (call : EStateM Failure AbstractClient Unit) (s : AbstractClient) : Prop :=
  ∃ s', call s = .ok () s' ∧ s'.isStoped = true

variable {s : AbstractClient}

theorem runDisconnect_ok (h : s.isStoped = true ∨ s.client.asyncConnection ≠ none) :
    runDisconnect s = .ok () s.disconnect := by
  unfold runDisconnect disconnect
  cases hs : s.isStoped with
  | true => simp [hs]
  | false =>
    have hne := h.resolve_left (by simp [hs])
    cases ha : s.client.asyncConnection with
    | none => exact absurd ha hne
    | some a => simp [hs,ha]

theorem stops_iff :
    Stops runDisconnect s ↔ s.isStoped = true ∨ s.client.asyncConnection ≠ none := by
  constructor
  · rintro ⟨s',hrun,-⟩
    by_contra hno
    rw [not_or,not_not,Bool.not_eq_true] at hno
    simp [runDisconnect,hno.1,hno.2] at hrun
  · intro h
    refine ⟨s.disconnect,runDisconnect_ok h,?_⟩
    unfold disconnect
    cases hs : s.isStoped with
    | true => simp [hs]
    | false =>
      cases ha : s.client.asyncConnection with
      | none => exact absurd ha (h.resolve_left (by simp [hs]))
      | some a => simp

def Succeeds (s : AbstractClient) (e : ConnectionEvent) : Prop :=
  ∃ n, e = .connected n ∧ n ∈ s.connecting

theorem reconnectOnError_asyncConnection (s : AbstractClient) :
    s.reconnectOnError.client.asyncConnection = s.client.asyncConnection := by
  unfold reconnectOnError
  split <;> rfl

theorem step_asyncConnection (s : AbstractClient) (e : ConnectionEvent) :
    (s.step e).client.asyncConnection ≠ none ↔
      s.client.asyncConnection ≠ none ∨ s.Succeeds e := by
  have hother : (∀ n, e ≠ .connected n) →
      (s.step e).client.asyncConnection = s.client.asyncConnection →
      ((s.step e).client.asyncConnection ≠ none ↔
        s.client.asyncConnection ≠ none ∨ s.Succeeds e) := by
    intro he hsame
    rw [hsame]
    refine (or_iff_left ?_).symm
    rintro ⟨n,hn,-⟩
    exact he n hn
  let pointer := fun s : AbstractClient => s.client.asyncConnection
  have hfail : ∀ a c, (s.fail a c).client.asyncConnection = s.client.asyncConnection := by
    intro a c
    rw [fail,reconnectOnError_asyncConnection]
    rfl
  cases e with
  | connected n =>
    rw [step,connected]
    split
    · rename_i hn
      rw [(onConnect_client _).1]
      simp [Succeeds,hn]
    · rename_i hn
      refine (or_iff_left ?_).symm
      rintro ⟨m,hm,hmem⟩
      cases hm
      exact hn hmem
  | asyncConnect => exact hother (by simp) rfl
  | connectError n =>
    refine hother (by simp) ?_
    rw [step,connectError]
    split
    · rw [reconnectOnError_asyncConnection]
    · rfl
  | header a => exact hother (by simp) (onConnection_view pointer fun c => by split <;> rfl)
  | message a m =>
    refine hother (by simp) (onConnection_view pointer fun c => ?_)
    split
    · exact (Client.handle_login m s.client).2
    · rfl
  | readError a =>
    refine hother (by simp) (onConnection_view pointer fun c => ?_)
    split
    · exact hfail a _
    · rfl
  | written a => exact hother (by simp) (onConnection_view pointer fun c => by split <;> rfl)
  | writeError a =>
    refine hother (by simp) (onConnection_view pointer fun c => ?_)
    split
    · exact hfail a _
    · rfl
  | send => exact hother (by simp) (by rw [step,s.send_client.1])
  | disconnect =>
    refine hother (by simp) ?_
    rw [step,disconnect]
    split
    · rfl
    · split <;> rfl

variable {login : Str} {autoReconnection : Bool}

theorem run_asyncConnection (events : List ConnectionEvent) :
    ((create login autoReconnection).run events).client.asyncConnection ≠ none ↔
      ∃ before e after, events = before ++ e :: after ∧
        ((create login autoReconnection).run before).Succeeds e :=
  Runs.latched (P := fun s : AbstractClient => s.client.asyncConnection ≠ none)
    step_asyncConnection (by simp [create,Client.create]) events

theorem run_isStoped {events : List ConnectionEvent} (h : .disconnect ∉ events) :
    ((create login autoReconnection).run events).isStoped = false := by
  have halong : Runs.Along step (fun _ e => e ≠ .disconnect) (create login autoReconnection)
      events := .of_mem fun e he _ hd => h (hd ▸ he)
  exact halong.invariant (P := fun s => s.isStoped = false)
    (fun s e hs he => (s.step_isStoped he).trans hs) rfl

theorem succeeded_of_stops {events : List ConnectionEvent} (h : .disconnect ∉ events)
    (hstops : Stops runDisconnect ((create login autoReconnection).run events)) :
    ∃ before n after, events = before ++ .connected n :: after ∧
      n ∈ ((create login autoReconnection).run before).connecting := by
  have hne := (stops_iff.mp hstops).resolve_left (by simp [run_isStoped h])
  obtain ⟨before,e,after,he,n,rfl,hn⟩ := (run_asyncConnection events).mp hne
  exact ⟨before,n,after,he,hn⟩

theorem stops_of_succeeded {before after : List ConnectionEvent} {n : Nat}
    (hn : n ∈ ((create login autoReconnection).run before).connecting) :
    Stops runDisconnect
      ((create login autoReconnection).run (before ++ .connected n :: after)) :=
  stops_iff.mpr (.inr ((run_asyncConnection _).mpr ⟨before,.connected n,after,rfl,n,rfl,hn⟩))

end AbstractClient

open AbstractClient in
/-- Every `disconnect` of a run and the destructor at its end return and leave the
client stopped, if and only if a connect has succeeded before the first of them. -/
theorem disconnect_safe_iff (login : Str) (autoReconnection : Bool)
    (events : List ConnectionEvent) :
    ((∀ before after, events = before ++ .disconnect :: after →
        Stops runDisconnect ((create login autoReconnection).run before)) ∧
      Stops destroy ((create login autoReconnection).run events)) ↔
    ∃ before n after, events = before ++ .connected n :: after ∧
      n ∈ ((create login autoReconnection).run before).connecting ∧ .disconnect ∉ before := by
  constructor
  · rintro ⟨hcalls,hlast⟩
    by_cases hmem : .disconnect ∈ events
    · obtain ⟨first,rest,rfl,hfirst⟩ := List.eq_append_cons_of_mem hmem
      obtain ⟨before,n,after,rfl,hn⟩ := succeeded_of_stops hfirst (hcalls first rest rfl)
      exact ⟨before,n,after ++ .disconnect :: rest,by simp,hn,fun h => hfirst (by simp [h])⟩
    · obtain ⟨before,n,after,rfl,hn⟩ := succeeded_of_stops hmem hlast
      exact ⟨before,n,after,rfl,hn,fun h => hmem (by simp [h])⟩
  · rintro ⟨before,n,after,rfl,hn,hno⟩
    refine ⟨fun first rest he => ?_,stops_of_succeeded hn⟩
    -- the call stands behind the connect
    rcases List.append_eq_append_iff.mp he with ⟨mid,hfirst,hmid⟩ | ⟨mid,hbefore,hmid⟩
    · cases mid with
      | nil => cases hmid
      | cons e mid =>
        cases hmid
        rw [hfirst]
        exact stops_of_succeeded hn
    · cases mid with
      | nil => cases hmid
      | cons e mid =>
        cases hmid
        exact absurd (by simp [hbefore]) hno

/-- A client that is destroyed before it has connected, and one that is
disconnected after its first attempt has failed. -/
theorem disconnect_without_connection :
    ¬ (AbstractClient.create [97] true).Stops AbstractClient.destroy ∧
      ¬ ((AbstractClient.create [97] true).run [.asyncConnect,.connectError 0]).Stops
        AbstractClient.runDisconnect := by
  refine ⟨?_,?_⟩
  · rw [AbstractClient.destroy,AbstractClient.stops_iff]
    decide
  · rw [AbstractClient.stops_iff]
    decide

end Dqueue
