import Dqueue.ServerUsers

/-!
The ids of connections over the whole life of a server. The counter is an `int`
that wraps, its sign is extended to the width of an id, and `ServerID` is one of
its values.
-/

set_option autoImplicit false

namespace Dqueue
open Std Effects RawMem AsyncIO Queries

/-- The id that the counter gives to the `n`-th connection, however often it has
wrapped. -/
def connectionId (n : Nat) : Id := (Int32.ofNat n).toInt64.toUInt64

theorem int32_ofNat_inj {j k : Nat} : Int32.ofNat j = Int32.ofNat k ↔ j % 2^32 = k % 2^32 := by
  rw [← Int32.toBitVec_inj,← BitVec.toNat_inj]
  show (BitVec.ofNat 32 j).toNat = (BitVec.ofNat 32 k).toNat ↔ _
  rw [BitVec.toNat_ofNat,BitVec.toNat_ofNat]

theorem connectionId_inj {j k : Nat} : connectionId j = connectionId k ↔ j % 2^32 = k % 2^32 := by
  rw [← int32_ofNat_inj]
  refine ⟨fun h => ?_,fun h => by rw [connectionId,h,connectionId]⟩
  have h₁ := congrArg UInt64.toInt64 h
  simp only [connectionId,Int64.toInt64_toUInt64] at h₁
  have h₂ := congrArg Int64.toInt32 h₁
  simpa only [Int32.toInt32_toInt64] using h₂

theorem connectionId_server : connectionId (2^31-1) = ServerID := by decide

theorem connectionId_ne_server {n : Nat} : connectionId n ≠ ServerID ↔ n % 2^32 ≠ 2^31-1 := by
  rw [← connectionId_server,ne_eq,connectionId_inj]
  rfl

namespace ServerLog

def IsOpen (l : ServerLog) (i : ClientConnection) : Prop :=
  i ∈ l.accepted ∧ i.socket ∉ l.server.closed

structure Unique (l : ServerLog) : Prop where
  server : ∀ i, l.IsOpen i → i.id ≠ ServerID
  apart : ∀ i j, l.IsOpen i → l.IsOpen j → i.id = j.id → i = j

/-- A connection is accepted when the counter is not at `ServerID` and no open
connection got the same value of it. -/
def Clear (l : ServerLog) : ServerEvent → Prop
  | .accept => l.accepted.length % 2^32 ≠ 2^31-1 ∧
    ∀ i, l.IsOpen i → i.socket % 2^32 ≠ l.accepted.length % 2^32
  | _ => True

structure Tracked (l : ServerLog) : Prop where
  numbered : ∀ (k : Nat) (i : ClientConnection), l.accepted[k]? = some i → i = ⟨connectionId k,k⟩
  next : l.server.nextId = Int32.ofNat l.accepted.length
  closed : ∀ k ∈ l.server.closed, k < l.accepted.length
  connections : ∀ i ∈ l.server.connections, i ∈ l.accepted

variable {regex : RegexCompiler}

theorem Tracked.start (cache : ReCache) : (ServerLog.start cache).Tracked where
  numbered k i h := by simp [ServerLog.start] at h
  next := rfl
  closed k h := by cases h
  connections i h := by cases h

theorem close_isOpen (j : ClientConnection) {l : ServerLog} {i : ClientConnection}
    (hi : (final (close j l)).IsOpen i) : l.IsOpen i := by
  have hacc : (final (close j l)).accepted = l.accepted := close_sameAccepted j l
  obtain ⟨hi,hc⟩ := hi
  rw [hacc] at hi
  refine ⟨hi,fun hold => hc ?_⟩
  rw [close_server,Server.close_final]
  split
  · exact hold
  · split <;> exact List.mem_cons_of_mem _ hold

theorem stop_isOpen {l : ServerLog} {i : ClientConnection} (hi : (final (stopServer l)).IsOpen i) :
    l.IsOpen i :=
  stopServer_within (R := fun l l' => l'.IsOpen i → l.IsOpen i) (fun _ h => h)
    (fun _ _ _ h h' hi => h (h' hi)) (fun j _ hi => close_isOpen j hi) (fun _ h => h) l hi

namespace Tracked

variable {l : ServerLog} (h : l.Tracked)
include h

theorem mem_accepted {i : ClientConnection} (hi : i ∈ l.accepted) :
    i.id = connectionId i.socket ∧ i.socket < l.accepted.length := by
  obtain ⟨hi,hlt⟩ := numbered_mem h.numbered hi
  exact ⟨congrArg ClientConnection.id hi,hlt⟩

theorem eq_of_socket {i j : ClientConnection} (hi : i ∈ l.accepted) (hj : j ∈ l.accepted)
    (hs : i.socket = j.socket) : i = j := by
  have hid : i.id = j.id := by rw [(h.mem_accepted hi).1,(h.mem_accepted hj).1,hs]
  cases i
  cases j
  simp only at hs hid
  rw [hs,hid]

theorem nextClientId : l.server.nextClientId = connectionId l.accepted.length := by
  rw [Server.nextClientId,h.next,connectionId]

theorem accept : (final (handleAccept l)).Tracked := by
  rw [handleAccept_final,h.nextClientId]
  refine ⟨numbered_accept h.numbered,?_,fun k hk => ?_,fun i hi => ?_⟩
  · simp [h.next,Int32.ofNat_add]
  · have hlt := h.closed k hk
    simp only [List.length_append,List.length_singleton]
    omega
  · rcases List.mem_append.mp hi with hi | hi
    · exact List.mem_append_left _ (h.connections i hi)
    · exact List.mem_append_right _ hi

theorem close {i : ClientConnection} (hi : i ∈ l.accepted) :
    (final (ServerLog.close i l)).Tracked := by
  have hacc : (final (ServerLog.close i l)).accepted = l.accepted := close_sameAccepted i l
  have hclosed : ∀ k ∈ i.socket :: l.server.closed, k < l.accepted.length := by
    intro k hk
    rcases List.mem_cons.mp hk with rfl | hk
    · exact (h.mem_accepted hi).2
    · exact h.closed k hk
  have hserver := close_server i l
  rw [Server.close_final] at hserver
  constructor
  · rw [hacc]
    exact h.numbered
  · rw [hserver,hacc]
    split
    · exact h.next
    · split <;> exact h.next
  · rw [hserver,hacc]
    split
    · exact h.closed
    · split <;> exact hclosed
  · rw [hserver,hacc]
    split
    · exact h.connections
    · split
      · exact h.connections
      · exact fun j hj => h.connections j (List.mem_of_mem_eraseP hj)

theorem stop : (final (stopServer l)).Tracked := by
  refine (stopServer_keeps (P := fun l' => l'.Tracked ∧ l'.accepted = l.accepted) ?_ ?_
    ⟨h,rfl⟩).1
  · rintro i hi l' ⟨ht,ha⟩
    have hacc : (final (ServerLog.close i l')).accepted = l'.accepted := close_sameAccepted i l'
    exact ⟨ht.close (ha ▸ h.connections i hi),hacc.trans ha⟩
  · rintro l' ⟨ht,ha⟩
    exact ⟨⟨ht.numbered,ht.next,ht.closed,by simp⟩,ha⟩

theorem step (e : ServerEvent) : (l.step regex e).Tracked := by
  have hstep := l.step_cases regex e
  generalize l.step regex e = l' at hstep ⊢
  cases hstep with
  | same => exact h
  | accept => exact h.accept
  | call calls =>
    have hk := calls.keeps regex
    refine ⟨h.numbered,hk.nextId.trans h.next,?_,?_⟩
    · rw [hk.closed]
      exact h.closed
    · rw [hk.connections]
      exact h.connections
  | close sender => exact h.close (List.mem_of_getElem? sender)
  | stop running => exact h.stop

omit h in
theorem isOpen_step {e : ServerEvent} (he : e ≠ .accept) {i : ClientConnection}
    (hi : (l.step regex e).IsOpen i) : l.IsOpen i := by
  have hstep := l.step_cases regex e
  generalize l.step regex e = l' at hstep hi
  cases hstep with
  | same => exact hi
  | accept => exact absurd rfl he
  | call calls => exact ⟨hi.1,fun hc => hi.2 (by rw [(calls.keeps regex).closed]; exact hc)⟩
  | @close k j sender => exact close_isOpen j hi
  | stop running => exact stop_isOpen hi

theorem isOpen_accept (i : ClientConnection) : (final (handleAccept l)).IsOpen i ↔
    l.IsOpen i ∨ i = ⟨connectionId l.accepted.length,l.accepted.length⟩ := by
  have hnew : l.accepted.length ∉ l.server.closed := fun hc => absurd (h.closed _ hc) (by omega)
  rw [handleAccept_final,h.nextClientId]
  show i ∈ l.accepted ++ [_] ∧ i.socket ∉ l.server.closed ↔ _
  rw [List.mem_append,List.mem_singleton]
  constructor
  · rintro ⟨hi | rfl,hc⟩
    · exact .inl ⟨hi,hc⟩
    · exact .inr rfl
  · rintro (⟨hi,hc⟩ | rfl)
    · exact ⟨.inl hi,hc⟩
    · exact ⟨.inr rfl,hnew⟩

theorem unique_step (hu : l.Unique) (regex : RegexCompiler) (e : ServerEvent) :
    (l.step regex e).Unique ↔ l.Clear e := by
  by_cases he : e = .accept
  · subst he
    show (final (handleAccept l)).Unique ↔ _
    have hold : ∀ i, l.IsOpen i → (i.id = connectionId l.accepted.length ↔
        i.socket % 2^32 = l.accepted.length % 2^32) := by
      intro i hi
      rw [(h.mem_accepted hi.1).1,connectionId_inj]
    constructor
    · intro hu'
      have hlast :=
        (h.isOpen_accept ⟨connectionId l.accepted.length,l.accepted.length⟩).mpr (.inr rfl)
      refine ⟨connectionId_ne_server.mp (hu'.server _ hlast),fun i hi hs => ?_⟩
      have heq := hu'.apart i _ ((h.isOpen_accept i).mpr (.inl hi)) hlast ((hold i hi).mpr hs)
      have hlt := (h.mem_accepted hi.1).2
      rw [heq] at hlt
      exact absurd hlt (Nat.lt_irrefl _)
    · rintro ⟨hserver,hapart⟩
      constructor
      · intro i hi
        rcases (h.isOpen_accept i).mp hi with hi | rfl
        · exact hu.server i hi
        · exact connectionId_ne_server.mpr hserver
      · intro i j hi hj hid
        rcases (h.isOpen_accept i).mp hi with hi | rfl <;>
          rcases (h.isOpen_accept j).mp hj with hj | rfl
        · exact hu.apart i j hi hj hid
        · exact absurd ((hold i hi).mp hid) (hapart i hi)
        · exact absurd ((hold j hj).mp hid.symm) (hapart j hj)
        · rfl
  · have hclear : l.Clear e := by
      cases e with
      | accept => exact absurd rfl he
      | _ => trivial
    refine ⟨fun _ => hclear,fun _ => ⟨fun i hi => ?_,fun i j hi hj => ?_⟩⟩
    · exact hu.server i (isOpen_step he hi)
    · exact hu.apart i j (isOpen_step he hi) (isOpen_step he hj)

end Tracked

theorem unique_run {l : ServerLog} (h : l.Tracked) (hu : l.Unique) (events : List ServerEvent) :
    (∀ n, (l.run regex (events.take n)).Unique) ↔ Runs.Along (step regex) Clear l events := by
  induction events generalizing l with
  | nil => exact ⟨fun _ => trivial,fun _ n => by simpa [run] using hu⟩
  | cons e events ih =>
    have hstep := h.unique_step hu regex e
    rw [Runs.Along,← hstep]
    constructor
    · intro hall
      have hu' : (l.step regex e).Unique := by simpa [run] using hall 1
      refine ⟨hu',(ih (h.step e) hu').mp fun n => ?_⟩
      simpa [run] using hall (n+1)
    · rintro ⟨hu',hrest⟩ n
      cases n with
      | zero => simpa [run] using hu
      | succ n => simpa [run] using (ih (h.step e) hu').mpr hrest n

/-- What unique ids are for: the server's user is its own, and a client is found
under its id. -/
structure Kept (l : ServerLog) : Prop where
  tracked : l.Tracked
  unique : l.Unique
  clients : ∀ i ∈ l.accepted, i.id ≠ ServerID
  connections : l.server.connections = l.accepted.filter (fun i => i.socket ∉ l.server.closed)
  users : ∀ i, l.IsOpen i → l.server.users.exists i.id = true
  serverUser : l.server.users.users[ServerID]?.map User.login = some [115,101,114,118,101,114]

theorem Kept.start (cache : ReCache) : (ServerLog.start cache).Kept where
  tracked := .start cache
  unique := ⟨fun i hi => absurd hi.1 (by simp [ServerLog.start]),
    fun i j hi => absurd hi.1 (by simp [ServerLog.start])⟩
  clients i hi := by cases hi
  connections := rfl
  users i hi := by cases hi.1
  serverUser := by simp [ServerLog.start,Server.start,UserBase.append]

namespace Kept

variable {l : ServerLog} (h : l.Kept)
include h

theorem nodup : l.accepted.Nodup := numbered_nodup h.tracked.numbered

theorem accept (hc : l.Clear .accept) : (final (handleAccept l)).Kept := by
  have hne := connectionId_ne_server.mpr hc.1
  have hnew : l.accepted.length ∉ l.server.closed := fun hc =>
    absurd (h.tracked.closed _ hc) (by omega)
  have hopen := h.tracked.isOpen_accept
  refine ⟨h.tracked.accept,(h.tracked.unique_step h.unique (fun _ => none) .accept).mpr hc,
    fun i hi => ?_,?_,fun i hi => ?_,?_⟩
  · rw [handleAccept_final,h.tracked.nextClientId] at hi
    rcases List.mem_append.mp hi with hi | hi
    · exact h.clients i hi
    · rw [List.mem_singleton.mp hi]
      exact hne
  · rw [handleAccept_final]
    simp [h.connections,hnew]
  · rw [handleAccept_final,h.tracked.nextClientId]
    refine (UserBase.exists_append _ _ _).mpr ?_
    rcases (hopen i).mp hi with hi | rfl
    · exact .inr (h.users i hi)
    · exact .inl rfl
  · rw [handleAccept_final,h.tracked.nextClientId]
    show ((l.server.users.append _).users[ServerID]?).map User.login = _
    rw [UserBase.login_append _ _ hne.symm]
    exact h.serverUser

theorem call {e : ServerEvent} {call : ServerCall} (calls : l.Calls e call)
    (hu : Unique { l with server := l.server.step regex call })
    (ht : Tracked { l with server := l.server.step regex call }) :
    Kept { l with server := l.server.step regex call } := by
  have hk := calls.keeps regex
  have hopen : ∀ i, IsOpen { l with server := l.server.step regex call } i → l.IsOpen i :=
    fun i hi => ⟨hi.1,fun hc => hi.2 (by rw [hk.closed]; exact hc)⟩
  refine ⟨ht,hu,h.clients,?_,fun i hi => ?_,?_⟩
  · rw [hk.connections,hk.closed]
    exact h.connections
  · have hi' := h.users i (hopen i hi)
    rcases calls.users regex with hs | ⟨j,lg,-,hs⟩
    · rw [hs]
      exact hi'
    · rw [hs,UserBase.exists_setLogin]
      exact .inr hi'
  · rcases calls.users regex with hs | ⟨j,lg,rfl,hs⟩
    · rw [hs]
      exact h.serverUser
    · cases calls with
      | message sender decoded =>
        have hne := h.clients j (List.mem_of_getElem? sender)
        rw [hs,UserBase.login_setLogin,if_neg hne.symm]
        exact h.serverUser

theorem close {i : ClientConnection} (hi : i ∈ l.accepted) :
    ∃ l', ServerLog.close i l = .ok () l' ∧ l'.Kept ∧ l'.accepted = l.accepted ∧
      l'.server.closed =
        if i.socket ∈ l.server.closed then l.server.closed else i.socket :: l.server.closed := by
  by_cases hc : i.socket ∈ l.server.closed
  · exact ⟨l,close_closed hc,h,rfl,by rw [if_pos hc]⟩
  obtain ⟨users,hu⟩ := UserBase.erase_of_exists (h.users i ⟨hi,hc⟩)
  have hrun := close_run hc hu
  have hfinal := congrArg final hrun
  have hopen : ∀ j, (final (ServerLog.close i l)).IsOpen j → l.IsOpen j := fun j => close_isOpen i
  have ht := h.tracked.close hi
  rw [hfinal] at hopen ht
  refine ⟨_,hrun,⟨ht,?_,h.clients,?_,fun j hj => ?_,?_⟩,rfl,by rw [if_neg hc]⟩
  · exact ⟨fun j hj => h.unique.server j (hopen j hj),
      fun j k hj hk => h.unique.apart j k (hopen j hj) (hopen k hk)⟩
  · show l.server.connections.eraseP (fun c => c.id == i.id) = _
    rw [h.connections]
    exact eraseP_connections h.nodup
      (fun j hj hjc => ⟨h.unique.apart j i ⟨hj,hjc⟩ ⟨hi,hc⟩,fun he => by rw [he]⟩)
      fun j hj => h.tracked.eq_of_socket hj hi
  · refine (UserBase.exists_erase hu j.id).mpr ⟨fun he => ?_,h.users j (hopen j hj)⟩
    have hji := h.unique.apart j i (hopen j hj) ⟨hi,hc⟩ he
    exact hj.2 (by rw [hji]; simp)
  · show users.users[ServerID]?.map User.login = _
    rw [UserBase.login_erase hu (h.clients i hi).symm]
    exact h.serverUser

theorem stop : (final (stopServer l)).Kept := by
  simp only [stopServer,bind_apply,get_apply]
  split
  · let P (l' : ServerLog) : Prop := l'.Kept ∧ l'.accepted = l.accepted
    have hclose : ∀ i ∈ l.server.connections, ∀ l', P l' → ∃ l₁, ServerLog.close i l' = .ok () l₁ ∧
        P l₁ ∧ l₁.server.closed = if i.socket ∈ l'.server.closed then l'.server.closed
          else i.socket :: l'.server.closed := by
      rintro i hi l' ⟨hl,ha⟩
      obtain ⟨l₁,h₁,hl₁,ha₁,hc₁⟩ := hl.close (ha ▸ h.tracked.connections i hi)
      exact ⟨l₁,h₁,⟨hl₁,ha₁.trans ha⟩,hc₁⟩
    obtain ⟨l',hr,⟨hl,ha⟩,hk,hc⟩ := closeAll_run hclose ⟨h,rfl⟩
    -- every connection is closed, so there is nothing left to clear
    have hnil : l'.server.connections = [] := by
      rw [hl.connections,List.filter_eq_nil_iff]
      intro i hi
      simp only [decide_eq_true_eq,not_not]
      by_cases ho : i.socket ∈ l.server.closed
      · exact hk _ ho
      · refine hc i ?_
        rw [h.connections,List.mem_filter]
        exact ⟨ha ▸ hi,by simpa using ho⟩
    have hserver : ({ l'.server with connections := [] } : Server) = l'.server := by
      rw [← hnil]
    rw [bind_apply,hr]
    simp only [modify_apply,final_ok,hserver]
    exact ⟨⟨hl.tracked.numbered,hl.tracked.next,hl.tracked.closed,hl.tracked.connections⟩,
      ⟨hl.unique.server,hl.unique.apart⟩,hl.clients,hl.connections,hl.users,hl.serverUser⟩
  · exact h

theorem step {e : ServerEvent} (hc : l.Clear e) : (l.step regex e).Kept := by
  have ht : (l.step regex e).Tracked := h.tracked.step e
  have hu := (h.tracked.unique_step h.unique regex e).mpr hc
  have hstep := l.step_cases regex e
  generalize l.step regex e = l' at hstep ht hu ⊢
  cases hstep with
  | same => exact h
  | accept => exact h.accept hc
  | call calls => exact h.call calls hu ht
  | close sender =>
    obtain ⟨l',hr,hl,-⟩ := h.close (List.mem_of_getElem? sender)
    rw [hr]
    exact hl
  | stop running => exact h.stop

theorem find {i : ClientConnection} (hi : l.IsOpen i) :
    l.server.connections.find? (fun c => c.id == i.id) = some i := by
  have hmem : ∀ j, j ∈ l.server.connections ↔ l.IsOpen j := by
    intro j
    rw [h.connections,List.mem_filter]
    simp [IsOpen]
  cases hf : l.server.connections.find? (fun c => c.id == i.id) with
  | none => exact absurd (List.find?_eq_none.mp hf i ((hmem i).mpr hi)) (by simp)
  | some j =>
    have hj := (hmem j).mp (List.mem_of_find?_eq_some hf)
    have hid : j.id = i.id := by simpa using List.find?_some hf
    rw [h.unique.apart j i hj hi hid]

end Kept

/-- No two open connections share an id and none has the server's, the server's
user is its own, and what is sent to the id of a connection goes to it. -/
structure Separate (l : ServerLog) : Prop where
  unique : l.Unique
  serverUser : l.server.users.users[ServerID]?.map User.login = some [115,101,114,118,101,114]
  found : ∀ i, l.IsOpen i → l.server.connections.find? (fun c => c.id == i.id) = some i

end ServerLog

/-- In each state of a run the connections are kept apart exactly when no
connection is accepted at the counter's value `ServerID`, or at one that an open
connection has got. -/
theorem connections_separate_iff (cache : ReCache) (regex : RegexCompiler)
    (events : List ServerEvent) :
    (∀ n, ((ServerLog.start cache).run regex (events.take n)).Separate) ↔
      Runs.Along (ServerLog.step regex) ServerLog.Clear (ServerLog.start cache) events := by
  have hstart := ServerLog.Kept.start cache
  constructor
  · intro hall
    exact (ServerLog.unique_run hstart.tracked hstart.unique events).mp fun n => (hall n).unique
  · intro hclear n
    rw [← List.take_append_drop n events,Runs.along_append] at hclear
    have hkept := hclear.1.invariant (P := ServerLog.Kept) (fun l e h hc => h.step hc) hstart
    exact ⟨hkept.unique,hkept.serverUser,fun i hi => hkept.find hi⟩

theorem ServerLog.run_accepts (cache : ReCache) (regex : RegexCompiler) (n : Nat) :
    ((ServerLog.start cache).run regex (List.replicate n .accept)).accepted.length = n ∧
      ((ServerLog.start cache).run regex (List.replicate n .accept)).server.closed = [] := by
  induction n with
  | zero => exact ⟨rfl,rfl⟩
  | succ n ih =>
    have hlast : (ServerLog.start cache).run regex (List.replicate (n+1) .accept) =
        final (handleAccept ((ServerLog.start cache).run regex (List.replicate n .accept))) := by
      rw [List.replicate_succ',ServerLog.run,List.foldl_append]
      rfl
    rw [hlast,handleAccept_final]
    simp [ih.1,ih.2]

theorem ServerLog.accepts_not_separate (cache : ReCache) (regex : RegexCompiler) {n : Nat}
    (hn : n % 2^32 = 2^31-1) :
    ¬ ((ServerLog.start cache).run regex (List.replicate (n+1) .accept)).Separate := by
  intro h
  obtain ⟨hlen,hclosed⟩ := ServerLog.run_accepts cache regex (n+1)
  have ht : ((ServerLog.start cache).run regex (List.replicate (n+1) .accept)).Tracked :=
    Runs.invariant (fun l e hl => hl.step e) (.start cache) _
  have hlt : n <
      ((ServerLog.start cache).run regex (List.replicate (n+1) .accept)).accepted.length := by
    omega
  have hget := List.getElem?_eq_getElem hlt
  refine h.unique.server _ ⟨List.mem_of_getElem? hget,by rw [hclosed]; simp⟩ ?_
  rw [ht.numbered n _ hget,← connectionId_server,connectionId_inj,hn]
  rfl

/-- The connection that is accepted after 2147483647 others has the server's id. -/
theorem client_takes_serverID :
    ¬ ((ServerLog.start ∅).run literal (List.replicate (2^31-1+1) .accept)).Separate :=
  ServerLog.accepts_not_separate ∅ literal (by decide)

end Dqueue
