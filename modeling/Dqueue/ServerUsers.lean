import Dqueue.ServerBooks

/-!
What holds of the user base in every run of the server, late messages included:
an open connection has its user, and a login stays registered for as long as its
connection is open.
-/

set_option autoImplicit false

namespace Dqueue
open Std Effects RawMem Queries

theorem Server.login_users {regex : RegexCompiler} (i : ClientConnection) (lg : Login)
    (s : Server) :
    (final (handle regex i (.login lg) s)).users = s.users.setLogin i.id lg.login := by
  simp only [handle,bind_apply,modify_apply]
  rcases sendTo_final i (.loginConfirm ⟨i.id⟩)
    { s with users := s.users.setLogin i.id lg.login } with h | ⟨-,h⟩
  · rw [h]
  · rw [h]

theorem Server.handle_users (regex : RegexCompiler) (i : ClientConnection) (m : Message)
    (s : Server) : (final (handle regex i m s)).users = s.users ∨
      ∃ lg, m = .login lg ∧
        (final (handle regex i m s)).users = s.users.setLogin i.id lg.login := by
  by_cases hm : ∃ lg, m = .login lg
  · obtain ⟨lg,rfl⟩ := hm
    exact .inr ⟨lg,rfl,login_users i lg s⟩
  · left
    refine handle_within_request (R := fun s s' => s'.users = s.users) (fun _ => rfl)
      (fun _ _ _ h h' => Eq.trans h' h) (fun x s => ?_) (fun p rd s => ?_) (fun n _ s => ?_)
      (fun lg he => hm ⟨lg,he⟩) s
    · rw [onNode_run]
      cases x s.node <;> rfl
    · exact (nodePublish_delivers regex p rd s).users
    · obtain ⟨oks,hf,-⟩ := acknowledge_final i m n s
      rw [hf]

theorem ServerLog.Calls.users (regex : RegexCompiler) {l : ServerLog} {e : ServerEvent}
    {call : ServerCall} (h : l.Calls e call) :
    (l.server.step regex call).users = l.server.users ∨
      ∃ i lg, call = .message i (.login lg) ∧
        (l.server.step regex call).users = l.server.users.setLogin i.id lg.login := by
  have hnode : ∀ x : EStateM Exception Node Unit,
      (final (Server.onNode x l.server)).users = l.server.users := by
    intro x
    rw [Server.onNode_run]
    cases x l.server.node <;> rfl
  cases h with
  | @message k d i m sender decoded =>
    refine (Server.handle_users regex i m l.server).imp_right fun hl => ?_
    obtain ⟨lg,rfl,hu⟩ := hl
    exact ⟨i,lg,rfl,hu⟩
  | createQueue settings => exact .inl (hnode _)
  | subscribe settings => exact .inl (hnode _)
  | unsubscribe qname => exact .inl (hnode _)
  | publish settings data =>
    exact .inl (Server.nodePublish_delivers regex settings data l.server).users

theorem UserBase.login_append (ub : UserBase) (user : User) {id : Id} (h : id ≠ user.id) :
    (ub.append user).users[id]? = ub.users[id]? := by
  rw [append,ExtTreeMap.getElem?_insert]
  simp [h.symm]

theorem UserBase.login_setLogin (ub : UserBase) (id id' : Id) (login : Str) :
    (ub.setLogin id login).users[id']?.map User.login =
      if id' = id then some login else ub.users[id']?.map User.login := by
  rw [setLogin,ExtTreeMap.getElem?_insert]
  simp only [LawfulEqCmp.compare_eq_iff_eq,eq_comm (a := id)]
  split <;> rfl

theorem UserBase.login_erase {ub ub' : UserBase} {id id' : Id} (h : ub.erase id = .ok ub')
    (hne : id' ≠ id) : ub'.users[id']? = ub.users[id']? := by
  unfold erase at h
  split at h
  · cases h
    rw [ExtTreeMap.getElem?_erase]
    simp [hne.symm]
  · cases h

namespace ServerLog

structure Counted (l : ServerLog) : Prop where
  numbered : ∀ (k : Nat) (i : ClientConnection), l.accepted[k]? = some i → i = ⟨UInt64.ofNat k,k⟩
  next : l.server.nextId = Int32.ofNat l.accepted.length
  closed : ∀ k ∈ l.server.closed, k < l.accepted.length
  connections : ∀ i ∈ l.server.connections, i ∈ l.accepted
  users : ∀ i ∈ l.accepted, i.socket ∉ l.server.closed → l.server.users.exists i.id = true

def Registered (l : ServerLog) (i : ClientConnection) (login : Str) : Prop :=
  l.server.users.users[i.id]?.map User.login = some login ∨ i.socket ∈ l.server.closed

theorem Counted.start (cache : ReCache) : (ServerLog.start cache).Counted where
  numbered k i h := by simp [ServerLog.start] at h
  next := rfl
  closed k h := by cases h
  connections i h := by cases h
  users i h := by cases h

theorem closeAll_keeps {P : ServerLog → Prop} {cons : List ClientConnection}
    (hclose : ∀ i ∈ cons, ∀ l, P l → P (final (close i l))) {l : ServerLog} (h : P l) :
    P (final (closeAll cons l)) := by
  induction cons generalizing l with
  | nil => exact h
  | cons i cons ih =>
    have hi := hclose i (by simp) l h
    rw [closeAll,bind_apply]
    cases hr : close i l with
    | ok a l' =>
      rw [hr] at hi
      exact ih (fun j hj => hclose j (by simp [hj])) hi
    | error e l' =>
      rw [hr] at hi
      exact hi

/-- Stopping the server keeps what closing its connections keeps and what does not
depend on the list of connections. -/
theorem stopServer_keeps {P : ServerLog → Prop} {l : ServerLog}
    (hclose : ∀ i ∈ l.server.connections, ∀ l', P l' → P (final (close i l')))
    (hclear : ∀ l', P l' →
      P { l' with server := { l'.server with connections := [] }, isStoped := true })
    (h : P l) : P (final (stopServer l)) := by
  have hall := closeAll_keeps hclose h
  simp only [stopServer,bind_apply,get_apply]
  split
  · rw [bind_apply]
    cases hr : closeAll l.server.connections l with
    | ok a l' =>
      rw [hr] at hall
      exact hclear l' hall
    | error e l' =>
      rw [hr] at hall
      exact hall
  · exact h

namespace Counted

variable {regex : RegexCompiler} {l : ServerLog} (h : l.Counted) (few : l.Few)
include h

theorem mem_accepted {i : ClientConnection} (hi : i ∈ l.accepted) :
    l.accepted[i.socket]? = some i ∧ i.id = UInt64.ofNat i.socket := by
  obtain ⟨k,hk,he⟩ := List.mem_iff_getElem.mp hi
  have hget : l.accepted[k]? = some i := by rw [List.getElem?_eq_getElem hk,he]
  have hn := h.numbered k i hget
  have hs : i.socket = k := by rw [hn]
  have hid : i.id = UInt64.ofNat k := by rw [hn]
  rw [hs]
  exact ⟨hget,hid⟩

theorem call {e : ServerEvent} {call : ServerCall} (calls : l.Calls e call) :
    Counted { l with server := l.server.step regex call } := by
  have hk := calls.keeps regex
  refine ⟨h.numbered,hk.nextId.trans h.next,?_,?_,fun i hi hc => ?_⟩
  · rw [hk.closed]
    exact h.closed
  · rw [hk.connections]
    exact h.connections
  · rw [hk.closed] at hc
    have hu := h.users i hi hc
    rcases calls.users regex with hs | ⟨j,lg,-,hs⟩
    · rw [hs]
      exact hu
    · rw [hs,UserBase.exists_setLogin]
      exact .inr hu

theorem close_users {i : ClientConnection} (hi : i ∈ l.accepted) :
    final (close i l) = l ∨ i.socket ∉ l.server.closed ∧ ∃ users,
      l.server.users.erase i.id = .ok users ∧ final (close i l) = { l with
        server := { l.server with
          users := users
          node := l.server.node.eraseClient i.id
          closed := i.socket :: l.server.closed
          connections := l.server.connections.eraseP (fun c => c.id == i.id) }
        disconnected := i :: l.disconnected } := by
  by_cases hc : i.socket ∈ l.server.closed
  · rw [close_closed hc]
    exact .inl rfl
  · obtain ⟨users,hu⟩ := UserBase.erase_of_exists (h.users i hi hc)
    rw [close_run hc hu]
    exact .inr ⟨hc,users,hu,rfl⟩

theorem accept (few : l.accepted.length+1 < 2^31-1) : (final (handleAccept l)).Counted ∧
    ∀ i ∈ l.accepted, ∀ login, l.Registered i login →
      (final (handleAccept l)).Registered i login := by
  have hid : l.server.nextClientId = UInt64.ofNat l.accepted.length :=
    Server.nextClientId_ofNat h.next (by omega)
  rw [handleAccept_final,hid]
  constructor
  · constructor
    · exact numbered_accept h.numbered
    · simp [h.next,Int32.ofNat_add]
    · intro k hk
      have hlt := h.closed k hk
      simp only [List.length_append,List.length_singleton]
      omega
    · intro i hi
      rcases List.mem_append.mp hi with hi | hi
      · exact List.mem_append_left _ (h.connections i hi)
      · exact List.mem_append_right _ hi
    · intro i hi hc
      refine (UserBase.exists_append _ _ _).mpr ?_
      rcases List.mem_append.mp hi with hi | hi
      · exact .inr (h.users i hi hc)
      · rw [List.mem_singleton.mp hi]
        exact .inl rfl
  · intro i hi login hr
    refine hr.imp_left fun hr => ?_
    have hne : i.id ≠ UInt64.ofNat l.accepted.length := by
      obtain ⟨hi,hlt⟩ := numbered_mem h.numbered hi
      rw [hi]
      intro he
      have hs := ofNat_inj (by omega) (by omega) he
      omega
    show ((l.server.users.append _).users[i.id]?).map User.login = some login
    rw [UserBase.login_append _ _ hne]
    exact hr

include few

theorem id_inj {i j : ClientConnection} (hi : i ∈ l.accepted) (hj : j ∈ l.accepted)
    (he : i.id = j.id) : i = j := by
  unfold ServerLog.Few at few
  exact numbered_id_inj h.numbered (by omega) hi hj he

theorem close {i : ClientConnection} (hi : i ∈ l.accepted) : (final (ServerLog.close i l)).Counted ∧
    (final (ServerLog.close i l)).accepted = l.accepted ∧
    ∀ j ∈ l.accepted, ∀ login, l.Registered j login →
      (final (ServerLog.close i l)).Registered j login := by
  rcases h.close_users hi with hf | ⟨hc,users,hu,hf⟩
  · rw [hf]
    exact ⟨h,rfl,fun j _ login hr => hr⟩
  rw [hf]
  refine ⟨⟨h.numbered,h.next,fun k hk => ?_,
    fun j hj => h.connections j (List.mem_of_mem_eraseP hj),?_⟩,rfl,?_⟩
  · rcases List.mem_cons.mp hk with rfl | hk
    · exact (List.getElem?_eq_some_iff.mp (h.mem_accepted hi).1).1
    · exact h.closed k hk
  · intro j hj hjc
    simp only [List.mem_cons,not_or] at hjc
    refine (UserBase.exists_erase hu j.id).mpr ⟨fun he => hjc.1 ?_,h.users j hj hjc.2⟩
    rw [h.id_inj few hj hi he]
  · intro j hj login hr
    rcases hr with hr | hr
    · by_cases he : j.id = i.id
      · rw [h.id_inj few hj hi he]
        exact .inr (by simp)
      · left
        show users.users[j.id]?.map User.login = some login
        rw [UserBase.login_erase hu he]
        exact hr
    · exact .inr (List.mem_cons_of_mem _ hr)

theorem stop : (final (stopServer l)).Counted ∧ (final (stopServer l)).accepted = l.accepted ∧
    ∀ j ∈ l.accepted, ∀ login, l.Registered j login →
      (final (stopServer l)).Registered j login := by
  refine stopServer_keeps (P := fun l' => l'.Counted ∧ l'.accepted = l.accepted ∧
    ∀ j ∈ l.accepted, ∀ login, l.Registered j login → l'.Registered j login) ?_ ?_
    ⟨h,rfl,fun _ _ _ hr => hr⟩
  · rintro i hi l' ⟨hc,ha,hr⟩
    have few' : l'.Few := by
      unfold ServerLog.Few
      rwa [ha]
    obtain ⟨hc',ha',hr'⟩ := hc.close few' (ha ▸ h.connections i hi)
    exact ⟨hc',ha'.trans ha,fun j hj login hj' => hr' j (ha ▸ hj) login (hr j hj login hj')⟩
  · rintro l' ⟨hc,ha,hreg⟩
    exact ⟨⟨hc.numbered,hc.next,hc.closed,(fun i hi => by cases hi),hc.users⟩,ha,hreg⟩

end Counted

theorem Counted.step {regex : RegexCompiler} {l : ServerLog} (h : l.Counted) {e : ServerEvent}
    (few : (l.step regex e).Few) : (l.step regex e).Counted := by
  have few₀ : l.Few := Nat.lt_of_le_of_lt (l.accepted_step e) few
  have hstep := l.step_cases regex e
  generalize l.step regex e = l' at hstep few ⊢
  cases hstep with
  | same => exact h
  | accept =>
    refine (h.accept ?_).1
    simpa [ServerLog.Few,handleAccept,onServer_final] using few
  | call calls => exact h.call calls
  | close sender => exact (h.close few₀ (List.mem_of_getElem? sender)).1
  | stop running => exact (h.stop few₀).1

theorem Counted.closed_step (regex : RegexCompiler) {l : ServerLog} (h : l.Counted) {k : Nat}
    (hk : k ∉ l.server.closed) {e : ServerEvent} (he : e ≠ .error k)
    (hs : e = .stopServer → l.isStoped = true) : k ∉ (l.step regex e).server.closed := by
  have hstep := l.step_cases regex e
  generalize l.step regex e = l' at hstep ⊢
  cases hstep with
  | same => exact hk
  | accept => exact hk
  | call calls =>
    rw [(calls.keeps regex).closed]
    exact hk
  | @close k' i sender =>
    rcases h.close_users (List.mem_of_getElem? sender) with hf | ⟨-,users,-,hf⟩
    · rw [hf]
      exact hk
    · have hi : i.socket = k' := by rw [h.numbered k' i sender]
      rw [hf,List.mem_cons,not_or]
      refine ⟨fun hkk => he ?_,hk⟩
      rw [hkk,hi]
  | stop running =>
    rw [hs rfl] at running
    cases running

theorem Registered.step {regex : RegexCompiler} {l : ServerLog} {i : ClientConnection}
    {login : Str} (hr : l.Registered i login) (h : l.Counted) (hi : i ∈ l.accepted)
    {e : ServerEvent} (few : (l.step regex e).Few)
    (hlogin : ∀ lg, l.Calls e (.message i (.login lg)) → lg.login = login) :
    (l.step regex e).Registered i login := by
  have few₀ : l.Few := Nat.lt_of_le_of_lt (l.accepted_step e) few
  have hstep := l.step_cases regex e
  generalize l.step regex e = l' at hstep few ⊢
  cases hstep with
  | same => exact hr
  | accept =>
    refine (h.accept ?_).2 i hi login hr
    simpa [ServerLog.Few,handleAccept,onServer_final] using few
  | @call _ call calls =>
    have hk := calls.keeps regex
    unfold Registered
    rw [hk.closed]
    refine hr.imp_left fun hr => ?_
    rcases calls.users regex with hs | ⟨j,lg,rfl,hs⟩
    · rw [hs]
      exact hr
    · rw [hs,UserBase.login_setLogin]
      split
      · rename_i he
        cases calls with
        | message sender decoded =>
          obtain rfl := h.id_inj few₀ hi (List.mem_of_getElem? sender) he
          rw [hlogin lg (.message sender decoded)]
      · exact hr
  | close sender => exact (h.close few₀ (List.mem_of_getElem? sender)).2.2 i hi login hr
  | stop running => exact (h.stop few₀).2.2 i hi login hr

end ServerLog

def Server.Sends (good : Nat × Message → Prop) (s s' : Server) : Prop :=
  ∃ out, s'.outbox = s.outbox ++ out ∧ ∀ x ∈ out, good x

namespace Server

variable {good : Nat × Message → Prop}

theorem Sends.of_eq {s s' : Server} (h : s'.outbox = s.outbox) : Sends good s s' :=
  ⟨[],by simp [h],by simp⟩

theorem Sends.trans (s₁ s₂ s₃ : Server) (h : Sends good s₁ s₂) (h' : Sends good s₂ s₃) :
    Sends good s₁ s₃ := by
  obtain ⟨out,ho,hout⟩ := h
  obtain ⟨out',ho',hout'⟩ := h'
  refine ⟨out ++ out',by simp [ho,ho'],fun x hx => ?_⟩
  rcases List.mem_append.mp hx with hx | hx
  · exact hout x hx
  · exact hout' x hx

theorem Sends.mem_sentTo {s s' : Server} (h : Sends good s s') {k : Nat} {m : Message}
    (hm : m ∈ sentTo k s s') : good (k,m) := by
  obtain ⟨out,ho,hout⟩ := h
  simp only [sentTo,ho,List.drop_left,List.mem_map,List.mem_filter,beq_iff_eq] at hm
  obtain ⟨x,⟨hx,rfl⟩,rfl⟩ := hm
  exact hout x hx

theorem handle_confirms {regex : RegexCompiler} (i : ClientConnection) (m : Message) (s : Server) :
    Sends (fun x => ∀ lc, x.2 = .loginConfirm lc →
      x.1 = i.socket ∧ lc.id = i.id ∧ ∃ lg, m = .login lg) s (final (handle regex i m s)) := by
  by_cases hm : ∃ lg, m = .login lg
  · obtain ⟨lg,rfl⟩ := hm
    simp only [handle,bind_apply,modify_apply]
    rcases sendTo_final i (.loginConfirm ⟨i.id⟩)
      { s with users := s.users.setLogin i.id lg.login } with h | ⟨-,h⟩
    · rw [h]
      exact .of_eq rfl
    · rw [h]
      refine ⟨[(i.socket,.loginConfirm ⟨i.id⟩)],rfl,fun x hx lc hlc => ?_⟩
      obtain rfl := List.mem_singleton.mp hx
      cases hlc
      exact ⟨rfl,rfl,lg,rfl⟩
  · refine handle_within_request (fun s => .of_eq rfl) Sends.trans (fun x s => ?_)
      (fun p rd s => ?_) (fun n _ s => ?_) (fun lg he => hm ⟨lg,he⟩) s
    · rw [onNode_run]
      cases x s.node with
      | ok a n => exact .of_eq rfl
      | error e n => exact .of_eq rfl
    · obtain ⟨out,ho,hout⟩ := (nodePublish_delivers regex p rd s).outbox
      refine ⟨out,ho,fun x hx lc hlc => ?_⟩
      obtain ⟨-,q,hq⟩ := hout x hx
      rw [hq] at hlc
      cases hlc
    · obtain ⟨oks,hf,hoks⟩ := acknowledge_final i m n s
      rw [hf]
      refine ⟨oks,rfl,fun x hx lc hlc => ?_⟩
      rw [(hoks x hx).1] at hlc
      cases hlc

end Server

namespace ServerLog

theorem close_outbox (i : ClientConnection) (l : ServerLog) :
    (final (close i l)).server.outbox = l.server.outbox := by
  rw [close_server,Server.close_final]
  split
  · rfl
  · split <;> rfl

theorem stop_outbox (l : ServerLog) : (final (stopServer l)).server.outbox = l.server.outbox := by
  have h : Within (fun l l' => l'.server.outbox = l.server.outbox) stopServer :=
    stopServer_within (fun _ => rfl) (fun _ _ _ h h' => Eq.trans h' h) close_outbox fun _ => rfl
  exact h l

theorem step_confirms {regex : RegexCompiler} {l : ServerLog} {e : ServerEvent} {k : Nat}
    {lc : LoginConfirm}
    (hm : .loginConfirm lc ∈ Server.sentTo k l.server (l.step regex e).server) :
    ∃ i lg, l.Calls e (.message i (.login lg)) ∧ i.socket = k ∧ lc.id = i.id ∧
      (l.step regex e).Registered i lg.login := by
  have hnone : ∀ s : Server, s.outbox = l.server.outbox →
      .loginConfirm lc ∉ Server.sentTo k l.server s := by
    intro s hs
    simp [Server.sentTo,hs]
  have hstep := l.step_cases regex e
  generalize l.step regex e = l' at hstep hm ⊢
  cases hstep with
  | same => exact absurd hm (hnone _ rfl)
  | accept => exact absurd hm (hnone _ (by simp [handleAccept,onServer_final,Server.handleAccept,
      Server.onNewConnection]))
  | close sender => exact absurd hm (hnone _ (close_outbox _ l))
  | stop running => exact absurd hm (hnone _ (stop_outbox l))
  | call calls =>
    have hout : ∀ x : EStateM Exception Node Unit,
        (final (Server.onNode x l.server)).outbox = l.server.outbox := by
      intro x
      rw [Server.onNode_run]
      cases x l.server.node <;> rfl
    cases calls with
    | @message k d i m sender decoded =>
      obtain ⟨hk,hid,lg,rfl⟩ := (Server.handle_confirms i m l.server).mem_sentTo hm lc rfl
      refine ⟨i,lg,.message sender decoded,hk.symm,hid,.inl ?_⟩
      show (final (Server.handle regex i (.login lg) l.server)).users.users[i.id]?.map
        User.login = _
      rw [Server.login_users,UserBase.login_setLogin,if_pos rfl]
    | createQueue settings => exact absurd hm (hnone _ (hout _))
    | subscribe settings => exact absurd hm (hnone _ (hout _))
    | unsubscribe qname => exact absurd hm (hnone _ (hout _))
    | publish settings data =>
      obtain ⟨out,ho,hout⟩ :=
        (Server.nodePublish_delivers regex settings data l.server).outbox
      have hp : Server.Sends (fun x => ∃ p, x.2 = .publish p) l.server
          (l.server.step regex (.publish settings data)) := ⟨out,ho,fun x hx => (hout x hx).2⟩
      obtain ⟨p,hp⟩ := hp.mem_sentTo hm
      cases hp

end ServerLog

end Dqueue
