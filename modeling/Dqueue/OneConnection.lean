import Dqueue.AbstractClient

/-!
A client that reconnects after each error has one connection or one connect
attempt, as long as connections fail with one operation outstanding.
-/

set_option autoImplicit false

namespace Dqueue
open Std Effects RawMem Queries

namespace AbstractClient

/-- The connections on which no error was reported and the connect attempts. -/
def live (s : AbstractClient) : Nat :=
  s.connecting.length+s.connections.countP (fun c => c.errors == 0)

/-- At most one of these at a time, and one reconnect for each connection that
was lost. -/
structure One (s : AbstractClient) : Prop where
  live : s.live ≤ 1
  reconnects : ∀ c ∈ s.connections, c.reconnects = if c.errors = 0 then 0 else 1

/-- An operation that fails is the only one outstanding on its connection. -/
def Alone (s : AbstractClient) : ConnectionEvent → Prop
  | .readError a => ∀ c ∈ s.connections[a]?, c.reading ≠ .idle → c.writing = 0
  | .writeError a => ∀ c ∈ s.connections[a]?, c.writing ≠ 0 → c.writing = 1 ∧ c.reading = .idle
  | _ => True

instance (s : AbstractClient) : ∀ e, Decidable (s.Alone e)
  | .readError a => inferInstanceAs
      (Decidable (∀ c ∈ s.connections[a]?, c.reading ≠ .idle → c.writing = 0))
  | .writeError a => inferInstanceAs
      (Decidable (∀ c ∈ s.connections[a]?, c.writing ≠ 0 → c.writing = 1 ∧ c.reading = .idle))
  | .asyncConnect | .connected _ | .connectError _ | .header _ | .message _ _ | .written _ | .send
  | .disconnect => isTrue trivial

structure Lost (n : Nat) (c : Connection) : Prop where
  errors : c.errors = 1
  reconnects : c.reconnects = 1
  reading : c.reading = .idle
  writing : c.writing = 0
  sock : ∃ m ∈ c.sock, m < n

structure Attempting (s : AbstractClient) : Prop where
  connecting : s.connecting = [s.sockets-1]
  lost : ∀ c ∈ s.connections, Lost (s.sockets-1) c

structure Connected (s : AbstractClient) : Prop where
  connecting : s.connecting = []
  current : ∃ olds cur, s.connections = olds ++ [cur] ∧ (∀ c ∈ olds, Lost (s.sockets-1) c) ∧
    cur.errors = 0 ∧ cur.reconnects = 0 ∧ cur.sock = some (s.sockets-1) ∧
    s.client.asyncConnection = some olds.length

structure Single (s : AbstractClient) : Prop where
  auto : s.reconnects = true
  made : 0 < s.sockets
  socket : s.socket = some (s.sockets-1)
  phase : s.Attempting ∨ s.Connected

variable {s : AbstractClient}

theorem Single.one (h : s.Single) : s.One := by
  have hlost : ∀ cs : List Connection, (∀ c ∈ cs, Lost (s.sockets-1) c) →
      cs.countP (fun c => c.errors == 0) = 0 := by
    intro cs hcs
    rw [List.countP_eq_zero]
    intro c hc
    simp [(hcs c hc).errors]
  rcases h.phase with ha | hc
  · refine ⟨?_,fun c hc => ?_⟩
    · simp [AbstractClient.live,ha.connecting,hlost _ ha.lost]
    · simp [(ha.lost c hc).reconnects,(ha.lost c hc).errors]
  · obtain ⟨olds,cur,hcon,holds,herr,hrec,-,-⟩ := hc.current
    refine ⟨?_,fun c hmem => ?_⟩
    · simp [AbstractClient.live,hc.connecting,hcon,hlost _ holds,herr]
    · rw [hcon] at hmem
      rcases List.mem_append.mp hmem with hmem | hmem
      · simp [(holds c hmem).reconnects,(holds c hmem).errors]
      · rw [List.mem_singleton.mp hmem,hrec,herr]
        rfl

theorem Attempting.target (ha : s.Attempting) (hs : s.socket = some (s.sockets-1)) :
    s.target = none := by
  unfold AbstractClient.target
  split
  · rfl
  · split
    · rfl
    · rename_i a _ c hc
      have hl := ha.lost c (List.mem_of_getElem? hc)
      obtain ⟨m,hm,hlt⟩ := hl.sock
      have hdead : s.alive c.sock = false := by
        have hne : c.sock ≠ s.socket := by
          rw [hs,hm]
          intro he
          have := Option.some.inj he
          omega
        have hnone : s.connections.any (fun c' => c'.sock == c.sock && c'.reading == .header) =
            false := by
          rw [List.any_eq_false]
          intro c' hc'
          simp [(ha.lost c' hc').reading]
        simp [alive,hnone,hne]
      simp [hdead]

theorem Lost.mono {n n' : Nat} {c : Connection} (h : Lost n c) (hn : n ≤ n') : Lost n' c := by
  obtain ⟨m,hm,hlt⟩ := h.sock
  exact ⟨h.errors,h.reconnects,h.reading,h.writing,m,hm,by omega⟩

theorem Single.cases (h : s.Single) {a : Nat} {c : Connection} (hc : s.connections[a]? = some c) :
    Lost (s.sockets-1) c ∨ (s.connecting = [] ∧ ∃ olds, s.connections = olds ++ [c] ∧
      (∀ c ∈ olds, Lost (s.sockets-1) c) ∧ c.errors = 0 ∧ c.reconnects = 0 ∧
      c.sock = some (s.sockets-1) ∧ s.client.asyncConnection = some a ∧ a = olds.length) := by
  rcases h.phase with ha | hcon
  · exact .inl (ha.lost c (List.mem_of_getElem? hc))
  · obtain ⟨olds,cur,heq,holds,herr,hrec,hsock,hasync⟩ := hcon.current
    rw [heq] at hc
    rcases Nat.lt_trichotomy a olds.length with hlt | rfl | hgt
    · rw [List.getElem?_append_left hlt] at hc
      exact .inl (holds c (List.mem_of_getElem? hc))
    · rw [List.getElem?_append_right (Nat.le_refl _),Nat.sub_self] at hc
      obtain rfl : cur = c := by simpa using hc
      exact .inr ⟨hcon.connecting,olds,heq,holds,herr,hrec,hsock,hasync,rfl⟩
    · rw [List.getElem?_eq_none (by simp; omega)] at hc
      cases hc

theorem Single.setConnection (h : s.Single) {a : Nat} {c : Connection} (c' : Connection)
    (hc : s.connections[a]? = some c) (hl : ¬ Lost (s.sockets-1) c) (herr : c'.errors = c.errors)
    (hrec : c'.reconnects = c.reconnects) (hsock : c'.sock = c.sock) :
    (s.setConnection a c').Single := by
  rcases h.cases hc with hlost | ⟨hcon,olds,heq,holds,he,hr,hs,hasync,rfl⟩
  · exact absurd hlost hl
  · refine ⟨h.auto,h.made,h.socket,.inr ⟨hcon,olds,c',?_,holds,herr.trans he,hrec.trans hr,
      hsock.trans hs,hasync⟩⟩
    simp [AbstractClient.setConnection,heq]

theorem Single.setClient (h : s.Single) {client : Client} (isConnected : Bool)
    {effects : List ConnectEffect} (hc : client.asyncConnection = s.client.asyncConnection) :
    Single { s with client := client, isConnected := isConnected, effects := effects } := by
  refine ⟨h.auto,h.made,h.socket,h.phase.imp (fun ha => ⟨ha.connecting,ha.lost⟩) fun hcon => ?_⟩
  obtain ⟨olds,cur,heq,holds,he,hr,hs,hasync⟩ := hcon.current
  exact ⟨hcon.connecting,olds,cur,heq,holds,he,hr,hs,hc.trans hasync⟩

theorem target_some {a : Nat} {c : Connection} (h : s.target = some (a,c)) :
    s.client.asyncConnection = some a ∧ s.connections[a]? = some c := by
  unfold target at h
  split at h
  · cases h
  · rename_i b hb
    split at h
    · cases h
    · rename_i c' hc'
      split at h
      · cases h
      · cases h
        exact ⟨hb,hc'⟩

theorem Single.send (h : s.Single) : s.send.Single := by
  unfold AbstractClient.send
  split
  · exact h
  · rename_i a c ht
    rcases h.phase with ha | hcon
    · rw [ha.target h.socket] at ht
      cases ht
    · obtain ⟨hasync,hget⟩ := target_some ht
      obtain ⟨olds,cur,heq,-,herr,-,-,hcur⟩ := hcon.current
      have ha : a = olds.length := Option.some.inj (hasync.symm.trans hcur)
      have hc : c = cur := by
        rw [heq,ha,List.getElem?_append_right (Nat.le_refl _),Nat.sub_self] at hget
        simpa using hget.symm
      refine h.setConnection _ hget (fun hl => ?_) rfl rfl rfl
      have he := hl.errors
      rw [hc,herr] at he
      cases he

theorem Single.onConnect (h : s.Single) : s.onConnect.Single := by
  refine Runs.invariant (P := Single) (fun s _ h => h.send) ?_ s.client.messagePool.all
  exact Single.send (h.setClient _ rfl)

theorem Single.connected (h : s.Single) (n : Nat) : (s.connected n).Single := by
  unfold AbstractClient.connected
  split
  · rename_i hn
    rcases h.phase with ha | hcon
    · refine Single.onConnect ⟨h.auto,h.made,h.socket,.inr ⟨?_,s.connections,_,rfl,ha.lost,rfl,rfl,
        h.socket,rfl⟩⟩
      rw [ha.connecting,List.mem_singleton] at hn
      simp [ha.connecting,hn]
    · rw [hcon.connecting] at hn
      cases hn
  · exact h

theorem Single.reconnect {n : Nat} (auto : s.reconnects = true) (connecting : s.connecting = [])
    (hn : s.sockets = n+1) (lost : ∀ c ∈ s.connections, Lost (n+1) c) :
    s.reconnectOnError.Single := by
  unfold reconnectOnError
  rw [auto,if_pos rfl]
  refine ⟨auto,Nat.succ_pos _,rfl,.inl ⟨?_,?_⟩⟩
  · simp [asyncConnect,connecting]
  · simpa [asyncConnect,hn] using lost

theorem Single.connectError (h : s.Single) (n : Nat) : (s.connectError n).Single := by
  unfold AbstractClient.connectError
  split
  · rename_i hn
    rcases h.phase with ha | hcon
    · have hm := h.made
      refine Single.reconnect (n := s.sockets-1) h.auto ?_ ?_
        fun c hc => (ha.lost c hc).mono (by omega)
      · rw [ha.connecting,List.mem_singleton] at hn
        simp [ha.connecting,hn]
      · show s.sockets = s.sockets-1+1
        omega
    · rw [hcon.connecting] at hn
      cases hn
  · exact h

theorem Single.fail (h : s.Single) {a : Nat} {c c' : Connection} (hc : s.connections[a]? = some c)
    (hl : ¬ Lost (s.sockets-1) c) (herr : c'.errors = c.errors)
    (hrec : c'.reconnects = c.reconnects)
    (hsock : c'.sock = c.sock) (hr : c'.reading = .idle) (hw : c'.writing = 0) :
    (s.fail a c').Single := by
  rcases h.cases hc with hlost | ⟨hcon,olds,heq,holds,he,hre,hs,-,rfl⟩
  · exact absurd hlost hl
  · have hm := h.made
    unfold AbstractClient.fail
    refine Single.reconnect (n := s.sockets-1) h.auto hcon ?_ fun d hd => ?_
    · show s.sockets = s.sockets-1+1
      omega
    · simp only [AbstractClient.setConnection,heq,List.set_append_right _ _ (Nat.le_refl _),
        Nat.sub_self,List.set_cons_zero,List.mem_append,List.mem_singleton] at hd
      rcases hd with hd | rfl
      · exact (holds d hd).mono (by omega)
      · refine ⟨by simp [herr,he],by simp [h.auto,hrec,hre],hr,hw,s.sockets-1,?_,by omega⟩
        exact hsock.trans hs

theorem Single.onConnection (h : s.Single) {a : Nat} {f : Connection → AbstractClient}
    (hf : ∀ c, s.connections[a]? = some c → (f c).Single) : (s.onConnection a f).Single := by
  unfold AbstractClient.onConnection
  split
  · exact h
  · rename_i c hc
    exact hf c hc

theorem Single.step (h : s.Single) {e : ConnectionEvent} (hc : e ≠ .asyncConnect)
    (hd : e ≠ .disconnect) (ha : s.Alone e) : (s.step e).Single := by
  cases e with
  | asyncConnect => exact absurd rfl hc
  | disconnect => exact absurd rfl hd
  | connected n => exact h.connected n
  | connectError n => exact h.connectError n
  | header a =>
    refine h.onConnection fun c hget => ?_
    split
    · rename_i hr
      refine h.setConnection _ hget (fun hl => ?_) rfl rfl rfl
      rw [hl.reading] at hr
      cases hr
    · exact h
  | message a m =>
    refine h.onConnection fun c hget => ?_
    split
    · rename_i hr
      have hl : ¬ Lost (s.sockets-1) c := by
        intro hl
        rw [hl.reading] at hr
        cases hr
      have hset := h.setConnection { c with
        reading := if (Effects.thrown (Client.handle m s.client)).isNone && s.alive c.sock
          then .header else .idle } hget hl rfl rfl rfl
      exact hset.setClient s.isConnected (Client.handle_login m s.client).2
    · exact h
  | readError a =>
    refine h.onConnection fun c hget => ?_
    split
    · rename_i hr
      exact h.fail hget (fun hl => hr hl.reading) rfl rfl rfl rfl (ha c hget hr)
    · exact h
  | written a =>
    refine h.onConnection fun c hget => ?_
    split
    · rename_i hw
      exact h.setConnection _ hget (fun hl => hw hl.writing) rfl rfl rfl
    · exact h
  | writeError a =>
    refine h.onConnection fun c hget => ?_
    split
    · rename_i hw
      obtain ⟨hone,hidle⟩ := ha c hget hw
      exact h.fail hget (fun hl => hw hl.writing) rfl rfl rfl hidle (by simp [hone])
    · exact h
  | send => exact h.send

end AbstractClient

/-- A client that connects once and reconnects on errors has at most one
connection or attempt at any time and starts one reconnect for each connection
it loses, in every run in which an operation that fails is the only one
outstanding on its connection. -/
theorem one_connection (login : Str) (events : List ConnectionEvent)
    (no_calls : ∀ e ∈ events, e ≠ .asyncConnect ∧ e ≠ .disconnect) {s : AbstractClient}
    (run : s = (AbstractClient.create login true).run (.asyncConnect :: events))
    (alone : Runs.Along AbstractClient.step AbstractClient.Alone
      (AbstractClient.create login true).asyncConnect events) : s.One := by
  have hstart : (AbstractClient.create login true).asyncConnect.Single :=
    ⟨rfl,Nat.succ_pos _,rfl,.inl ⟨rfl,fun c hc => by cases hc⟩⟩
  have hboth : Runs.Along AbstractClient.step (fun s e => s.Alone e ∧ e ≠ .asyncConnect ∧
      e ≠ .disconnect) (AbstractClient.create login true).asyncConnect events :=
    alone.and (.of_mem fun e he _ => no_calls e he)
  have hsingle : s.Single := by
    have hrun : s = events.foldl AbstractClient.step
        (AbstractClient.create login true).asyncConnect := run
    rw [hrun]
    exact hboth.invariant (P := AbstractClient.Single)
      (fun s e h ha => h.step ha.2.1 ha.2.2 ha.1) hstart
  exact hsingle.one

theorem one_connection_idle :
    ((AbstractClient.create [97] true).run [.asyncConnect,.connected 0,.written 0,
      .readError 0]).One :=
  one_connection [97] [.connected 0,.written 0,.readError 0] (by decide) rfl (by decide +kernel)

/-- The read and a write of a connection both fail, one before the client is
connected again and one after. -/
def failsTwice : List ConnectionEvent :=
  [.connected 0,.readError 0,.connected 1,.writeError 0,.connected 2]

/-- The second failure starts another attempt, and in the end the client is
connected twice. -/
theorem connected_twice :
    ¬ (∀ events : List ConnectionEvent, (∀ e ∈ events, e ≠ .asyncConnect ∧ e ≠ .disconnect) →
      ((AbstractClient.create [97] true).run (.asyncConnect :: events)).One) ∧
    ((AbstractClient.create [97] true).run (.asyncConnect :: failsTwice)).live = 2 ∧
    ((AbstractClient.create [97] true).run (.asyncConnect :: failsTwice)).connections.map
      Connection.reconnects = [2,0,0] := by
  have htwo : ((AbstractClient.create [97] true).run (.asyncConnect :: failsTwice)).live = 2 := by
    decide +kernel
  refine ⟨fun h => ?_,htwo,by decide +kernel⟩
  have hone := (h failsTwice (by decide)).live
  rw [htwo] at hone
  omega

end Dqueue
