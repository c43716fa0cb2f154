import Dqueue.AbstractClient

/-!
Every failed operation of a connection asks for a new one, and the connect
handler does not look at the flag that `disconnect` sets.
-/

set_option autoImplicit false

namespace Dqueue
open Std Effects RawMem Queries

namespace AbstractClient

variable {s : AbstractClient}

/-- The steps that count after `disconnect`: no connect is outstanding when it is
called, none is started afterwards, and no LOGIN_CONFIRM is read afterwards. -/
def Quiet (s : AbstractClient) : ConnectionEvent → Prop
  | .asyncConnect => s.isStoped = false
  | .message _ (.loginConfirm _) => s.isStoped = false
  | .disconnect => s.connecting = []
  | _ => True

instance (s : AbstractClient) : ∀ e, Decidable (s.Quiet e)
  | .asyncConnect => inferInstanceAs (Decidable (s.isStoped = false))
  | .message _ (.loginConfirm _) => inferInstanceAs (Decidable (s.isStoped = false))
  | .message _ (.publish _) | .message _ (.ok _) | .message _ (.login _)
  | .message _ (.createQueue _) | .message _ (.subscribe _) | .message _ (.unsubscribe _) =>
    isTrue trivial
  | .disconnect => inferInstanceAs (Decidable (s.connecting = []))
  | .connected _ | .connectError _ | .header _ | .readError _ | .written _ | .writeError _
  | .send =>
    isTrue trivial

structure NothingNew (s s' : AbstractClient) : Prop where
  effects : s'.effects = s.effects
  isConnected : s'.isConnected = true → s.isConnected = true
  loginConfirmed : s'.client.loginConfirmed = true → s.client.loginConfirmed = true
  connections : s'.connections.length = s.connections.length

theorem NothingNew.refl (s : AbstractClient) : s.NothingNew s := ⟨rfl,fun h => h,fun h => h,rfl⟩

theorem NothingNew.trans {s₁ s₂ s₃ : AbstractClient} (h : s₁.NothingNew s₂)
    (h' : s₂.NothingNew s₃) :
    s₁.NothingNew s₃ :=
  ⟨h'.effects.trans h.effects,fun hc => h.isConnected (h'.isConnected hc),
    fun hc => h.loginConfirmed (h'.loginConfirmed hc),h'.connections.trans h.connections⟩

structure Stopped (s : AbstractClient) : Prop where
  stoped : s.isStoped = true
  connecting : s.connecting = []

def Ended (s s' : AbstractClient) : Prop := s'.Stopped ∧ s.NothingNew s'

theorem onConnection_ended {a : Nat} {f : Connection → AbstractClient} (h : s.Stopped)
    (hf : ∀ c, s.Ended (f c)) : s.Ended (s.onConnection a f) := by
  unfold onConnection
  split
  · exact ⟨h,.refl s⟩
  · exact hf _

theorem setConnection_ended (h : s.Stopped) (a : Nat) (c : Connection) :
    s.Ended (s.setConnection a c) :=
  ⟨⟨h.stoped,h.connecting⟩,rfl,fun hc => hc,fun hc => hc,List.length_set⟩

theorem fail_ended (h : s.Stopped) (a : Nat) (c : Connection) : s.Ended (s.fail a c) := by
  have hr : s.reconnects = false := by simp [reconnects,h.stoped]
  have hr' : ∀ c', (s.setConnection a c').reconnects = false := fun _ => hr
  unfold fail reconnectOnError
  rw [hr']
  refine ⟨⟨h.stoped,h.connecting⟩,rfl,fun hc => ?_,fun hc => ?_,List.length_set⟩
  · cases hc
  · cases hc

theorem handle_loginConfirmed {m : Message} (hm : ∀ lc, m ≠ .loginConfirm lc) (c : Client) :
    (final (Client.handle m c)).loginConfirmed = c.loginConfirmed := by
  cases m with
  | loginConfirm lc => exact absurd rfl (hm lc)
  | ok cs =>
    simp only [Client.handle,bind_apply,get_apply]
    cases c.queries[cs.id]? <;> rfl
  | publish cs => rfl
  | login cs => rfl
  | createQueue cs => rfl
  | subscribe cs => rfl
  | unsubscribe cs => rfl

theorem message_ended (h : s.Stopped) (a : Nat) {m : Message} (hm : ∀ lc, m ≠ .loginConfirm lc) :
    s.Ended (s.message a m) := by
  refine onConnection_ended h fun c => ?_
  split
  · refine ⟨⟨h.stoped,h.connecting⟩,?_,fun hc => hc,fun hc => ?_,List.length_set⟩
    · cases m with
      | loginConfirm lc => exact absurd rfl (hm lc)
      | publish cs => rfl
      | ok cs => rfl
      | login cs => rfl
      | createQueue cs => rfl
      | subscribe cs => rfl
      | unsubscribe cs => rfl
    · exact (handle_loginConfirmed hm s.client).symm.trans hc
  · exact ⟨h,.refl s⟩

theorem Stopped.step (h : s.Stopped) {e : ConnectionEvent} (hq : s.Quiet e) :
    s.Ended (s.step e) := by
  have hsame : s.Ended s := ⟨h,.refl s⟩
  have hstop : ¬ s.isStoped = false := by simp [h.stoped]
  cases e with
  | asyncConnect => exact absurd hq hstop
  | connected n =>
    have hs : s.connected n = s := by simp [AbstractClient.connected,h.connecting]
    rw [AbstractClient.step,hs]
    exact hsame
  | connectError n =>
    have hs : s.connectError n = s := by simp [AbstractClient.connectError,h.connecting]
    rw [AbstractClient.step,hs]
    exact hsame
  | header a =>
    refine onConnection_ended h fun c => ?_
    split
    · exact setConnection_ended h a _
    · exact hsame
  | message a m =>
    refine message_ended h a fun lc he => ?_
    subst he
    exact hstop hq
  | readError a =>
    refine onConnection_ended h fun c => ?_
    split
    · exact fail_ended h a _
    · exact hsame
  | written a =>
    refine onConnection_ended h fun c => ?_
    split
    · exact setConnection_ended h a _
    · exact hsame
  | writeError a =>
    refine onConnection_ended h fun c => ?_
    split
    · exact fail_ended h a _
    · exact hsame
  | send =>
    rw [AbstractClient.step]
    unfold AbstractClient.send
    split
    · exact hsame
    · exact setConnection_ended h _ _
  | disconnect =>
    have hs : s.disconnect = s := by simp [AbstractClient.disconnect,h.stoped]
    rw [AbstractClient.step,hs]
    exact hsame

theorem send_isStoped (s : AbstractClient) : s.send.isStoped = s.isStoped := by
  unfold send
  split <;> rfl

theorem onConnect_isStoped (s : AbstractClient) : s.onConnect.isStoped = s.isStoped := by
  refine Runs.invariant (P := fun s' : AbstractClient => s'.isStoped = s.isStoped)
    (fun s' _ h => s'.send_isStoped.trans h) ?_ s.client.messagePool.all
  rw [send_isStoped]

theorem reconnectOnError_isStoped (s : AbstractClient) :
    s.reconnectOnError.isStoped = s.isStoped := by
  unfold reconnectOnError
  split <;> rfl

theorem onConnection_view {α : Type} (view : AbstractClient → α) {a : Nat}
    {f : Connection → AbstractClient} (hf : ∀ c, view (f c) = view s) :
    view (s.onConnection a f) = view s := by
  unfold onConnection
  split
  · rfl
  · exact hf _

theorem step_isStoped (s : AbstractClient) {e : ConnectionEvent} (he : e ≠ .disconnect) :
    (s.step e).isStoped = s.isStoped := by
  cases e with
  | asyncConnect => rfl
  | connected n =>
    rw [step,connected]
    split
    · rw [onConnect_isStoped]
    · rfl
  | connectError n =>
    rw [step,connectError]
    split
    · rw [reconnectOnError_isStoped]
    · rfl
  | header a => exact onConnection_view isStoped fun c => by split <;> rfl
  | message a m => exact onConnection_view isStoped fun c => by split <;> rfl
  | readError a =>
    refine onConnection_view isStoped fun c => ?_
    split
    · rw [fail,reconnectOnError_isStoped]
      rfl
    · rfl
  | written a => exact onConnection_view isStoped fun c => by split <;> rfl
  | writeError a =>
    refine onConnection_view isStoped fun c => ?_
    split
    · rw [fail,reconnectOnError_isStoped]
      rfl
    · rfl
  | send => exact s.send_isStoped
  | disconnect => exact absurd rfl he

theorem stopped_step (hs : s.isStoped = true → s.Stopped) {e : ConnectionEvent} (hq : s.Quiet e)
    (hstop : (s.step e).isStoped = true) : (s.step e).Stopped := by
  by_cases h : s.isStoped = true
  · exact ((hs h).step hq).1
  · by_cases he : e = .disconnect
    · subst he
      have hcon : s.connecting = [] := hq
      refine ⟨hstop,?_⟩
      simp only [step,disconnect,h]
      split
      · exact hcon
      · split
        · exact hcon
        · exact hcon
    · rw [s.step_isStoped he] at hstop
      exact absurd hstop h

end AbstractClient

/-- After `disconnect` nothing new happens, in any run in which it is called with
no connect outstanding, no connect is started afterwards and no LOGIN_CONFIRM is
read afterwards. -/
theorem disconnect_final (login : Str) (autoReconnection : Bool)
    (before after : List ConnectionEvent)
    {s s' : AbstractClient} (quiet : Runs.Along AbstractClient.step AbstractClient.Quiet
      (AbstractClient.create login autoReconnection) (before ++ after))
    (run : s = (AbstractClient.create login autoReconnection).run before)
    (stopped : s.isStoped = true) (later : s' = s.run after) : s.NothingNew s' := by
  obtain ⟨hbefore,hafter⟩ := Runs.along_append.mp quiet
  have hs : s.isStoped = true → s.Stopped := by
    rw [run]
    exact hbefore.invariant (P := fun s => s.isStoped = true → s.Stopped)
      (fun s e h hq => AbstractClient.stopped_step h hq) (fun h => by cases h)
  have hlast : Runs.Along AbstractClient.step AbstractClient.Quiet s after := by
    rw [run]
    exact hafter
  have hrun : s.Ended s' := by
    rw [later]
    refine hlast.invariant (P := fun t => s.Ended t) (fun t e h hq => ?_) ⟨hs stopped,.refl s⟩
    obtain ⟨hstop,hnew⟩ := h.1.step hq
    exact ⟨hstop,h.2.trans hnew⟩
  exact hrun.2

theorem disconnect_final_read_error :
    ((AbstractClient.create [97] true).run [.asyncConnect,.connected 0,.disconnect]).NothingNew
      (((AbstractClient.create [97] true).run [.asyncConnect,.connected 0,.disconnect]).run
        [.readError 0]) :=
  disconnect_final [97] true [.asyncConnect,.connected 0,.disconnect] [.readError 0]
    (by decide +kernel) rfl (by decide +kernel) rfl

/-- `disconnect` while the client connects again: the connect completes all the
same, and the client logs in. -/
theorem connects_after_disconnect :
    ¬ (∀ before after : List ConnectionEvent,
      ((AbstractClient.create [97] true).run before).isStoped = true →
      ((AbstractClient.create [97] true).run before).NothingNew
        (((AbstractClient.create [97] true).run before).run after)) ∧
    ((AbstractClient.create [97] true).run [.asyncConnect,.connected 0,.written 0,.readError 0,
      .disconnect,.connected 1]).effects =
        [.asyncConnection,.isConnected,.login,.asyncConnection,.isConnected,.login] := by
  refine ⟨fun h => ?_,by decide +kernel⟩
  have hnew := (h [.asyncConnect,.connected 0,.written 0,.readError 0,.disconnect] [.connected 1]
    (by decide +kernel)).connections
  exact absurd hnew (by decide +kernel)

end Dqueue
