import Dqueue.Descriptions
import Dqueue.LateMessages
import Dqueue.ServerUsers

/-!
What the server shows of itself: the list of its users and the description of its
queues, in every state of its runs.
-/

set_option autoImplicit false

namespace Dqueue
open Std Effects RawMem AsyncIO Queries

def UserBase.byId (ub : UserBase) (id : Id) : Option User := ub.users[id]?

/-- The users in the order of their ids; the order of the source's hash map is not
specified. -/
def UserBase.userList (ub : UserBase) : List User := ub.users.toList.map Prod.snd

def UserBase.Named (ub : UserBase) : Prop := ∀ id u, ub.byId id = some u → u.id = id

namespace Server

def getDescription (s : Server) : List QueueDescription := s.node.getDescription

def userList (s : Server) : List User := s.users.userList

end Server

section UserBase

variable {ub ub' : UserBase}

theorem UserBase.byId_append (ub : UserBase) (user : User) (id : Id) :
    (ub.append user).byId id = if id = user.id then some user else ub.byId id := by
  simp only [byId,append,ExtTreeMap.getElem?_insert,LawfulEqCmp.compare_eq_iff_eq,
    eq_comm (a := user.id)]

theorem UserBase.byId_erase {id : Id} (h : ub.erase id = .ok ub') (id' : Id) :
    ub'.byId id' = if id' = id then none else ub.byId id' := by
  unfold erase at h
  split at h
  · cases h
    simp only [byId,ExtTreeMap.getElem?_erase,LawfulEqCmp.compare_eq_iff_eq,eq_comm (a := id)]
  · cases h

theorem UserBase.byId_setLogin {id : Id} {u : User} (h : ub.byId id = some u) (login : Str)
    (id' : Id) : (ub.setLogin id login).byId id' =
      if id' = id then some ⟨login,u.id⟩ else ub.byId id' := by
  have hu : ub.users[id]? = some u := h
  simp only [byId,setLogin,hu,ExtTreeMap.getElem?_insert,LawfulEqCmp.compare_eq_iff_eq,
    eq_comm (a := id)]
  rfl

theorem UserBase.exists_byId (ub : UserBase) (id : Id) :
    ub.exists id = true ↔ ∃ u, ub.byId id = some u := by
  rw [exists_iff,← ExtTreeMap.isSome_getElem?_iff_mem,Option.isSome_iff_exists]
  rfl

theorem UserBase.mem_userList {u : User} : u ∈ ub.userList ↔ ∃ id, ub.byId id = some u := by
  unfold userList byId
  rw [List.mem_map]
  constructor
  · rintro ⟨kv,hkv,rfl⟩
    exact ⟨kv.1,ExtTreeMap.mem_toList_iff_getElem?_eq_some.mp hkv⟩
  · rintro ⟨id,hid⟩
    exact ⟨(id,u),ExtTreeMap.mem_toList_iff_getElem?_eq_some.mpr hid,rfl⟩

theorem UserBase.Named.nodup (h : ub.Named) : (ub.userList.map User.id).Nodup := by
  have hkeys : ub.userList.map User.id = ub.users.keys := by
    rw [userList,List.map_map,← ExtTreeMap.map_fst_toList_eq_keys]
    refine List.map_congr_left fun kv hkv => ?_
    exact h kv.1 kv.2 (ExtTreeMap.mem_toList_iff_getElem?_eq_some.mp hkv)
  rw [hkeys]
  exact ExtTreeMap.nodup_keys

end UserBase

def notSet : Str := [110,111,116,32,115,101,116]

def serverUser : User := ⟨[115,101,114,118,101,114],ServerID⟩

namespace ServerLog

def loginOf (k : Nat) (l : ServerLog) : ServerEvent → Option Str
  | .message j d =>
    if j = k ∧ l.accepted[j]?.isSome then
      match Message.ofFrame [.CREATE_QUEUE,.SUBSCRIBE,.UNSUBSCRIBE,.PUBLISH,.LOGIN]
          "unknow message kind: " d l.server with
      | .ok (.login lg) _ => some lg.login
      | _ => none
    else none
  | _ => none

/-- The user base beside the connections: each user under its own id, the server's own
user, and for each open connection the login that it sent last. -/
structure Presents (logins : Nat → Option Str) (l : ServerLog) : Prop where
  named : l.server.users.Named
  server : l.server.users.byId ServerID = some serverUser
  clients : ∀ i ∈ l.accepted, i.socket ∉ l.server.closed →
    l.server.users.byId i.id = some ⟨(logins i.socket).getD notSet,i.id⟩
  later : ∀ k, l.accepted.length ≤ k → logins k = none

variable {regex : RegexCompiler} {l : ServerLog} {logins : Nat → Option Str}

theorem Presents.start (cache : ReCache) : (start cache).Presents (fun _ => none) where
  named id u h := by
    have hstart : (ServerLog.start cache).server.users = UserBase.create.append serverUser := rfl
    rw [hstart,UserBase.byId_append] at h
    split at h
    · rename_i hid
      cases h
      exact hid.symm
    · simp [UserBase.byId,UserBase.create] at h
  server := by
    have hstart : (ServerLog.start cache).server.users = UserBase.create.append serverUser := rfl
    rw [hstart,UserBase.byId_append]
    rfl
  clients i h := by cases h
  later k h := rfl

theorem Presents.congr {l' : ServerLog} (h : l.Presents logins)
    (users : l'.server.users = l.server.users) (closed : l'.server.closed = l.server.closed)
    (accepted : l'.accepted = l.accepted) : l'.Presents logins where
  named := users ▸ h.named
  server := users ▸ h.server
  clients i hi hc := by
    rw [users]
    exact h.clients i (accepted ▸ hi) (closed ▸ hc)
  later k hk := h.later k (accepted ▸ hk)

theorem Presents.close (h : l.Presents logins) (books : l.Books) (few : l.Few)
    {i : ClientConnection} (hi : i ∈ l.accepted) : (final (close i l)).Presents logins := by
  by_cases hc : i.socket ∈ l.server.closed
  · rw [close_closed hc]
    exact h
  · obtain ⟨users,hu⟩ := UserBase.erase_of_exists (books.user_of_open hi hc)
    rw [close_run hc hu]
    refine ⟨fun id u hid => ?_,?_,fun j hj hjc => ?_,h.later⟩
    · have hid' : users.byId id = some u := hid
      rw [UserBase.byId_erase hu] at hid'
      split at hid'
      · cases hid'
      · exact h.named id u hid'
    · show users.byId ServerID = _
      rw [UserBase.byId_erase hu,if_neg (books.id_ne_server few hi).symm]
      exact h.server
    · have hjc' : j.socket ∉ i.socket :: l.server.closed := hjc
      simp only [List.mem_cons,not_or] at hjc'
      show users.byId j.id = _
      rw [UserBase.byId_erase hu,if_neg]
      · exact h.clients j hj hjc'.2
      · exact fun he => hjc'.1 (by rw [books.id_inj few hj hi he])

theorem Presents.stop (h : l.Presents logins) (books : l.Books) (few : l.Few) :
    (final (stopServer l)).Presents logins := by
  cases running : l.isStoped with
  | true =>
    have hsame : final (stopServer l) = l := by simp [stopServer,running]
    rw [hsame]
    exact h
  | false =>
    have hall : ∀ i ∈ l.server.connections, i ∈ l.accepted :=
      fun i hi => (books.mem_connections.mp hi).1
    obtain ⟨l',hr,-⟩ := books.closeAll few l.server.connections hall
    have hkeep : (final (ServerLog.closeAll l.server.connections l)).Presents logins ∧
        (final (ServerLog.closeAll l.server.connections l)).Books ∧
        (final (ServerLog.closeAll l.server.connections l)).accepted = l.accepted := by
      refine closeAll_keeps (P := fun l' => l'.Presents logins ∧ l'.Books ∧
        l'.accepted = l.accepted) (fun i hi l' hl' => ?_) ⟨h,books,rfl⟩
      obtain ⟨hp,hb,ha⟩ := hl'
      have few' : l'.Few := by
        unfold ServerLog.Few
        rwa [ha]
      have hi' : i ∈ l'.accepted := ha ▸ hall i hi
      obtain ⟨l'',hr',hb',ha',-⟩ := hb.close few' hi'
      have hp' := hp.close hb few' hi'
      rw [hr'] at hp' ⊢
      exact ⟨hp',hb',ha'.trans ha⟩
    rw [hr] at hkeep
    have hstop : final (stopServer l) = { l' with
        server := { l'.server with connections := [] }, isStoped := true } := by
      simp [stopServer,running,hr]
    rw [hstop]
    exact hkeep.1.congr rfl rfl rfl

variable (regex) in
theorem Presents.login (h : l.Presents logins) (books : l.Books) (few : l.Few) {k : Nat}
    {i : ClientConnection} (hk : l.accepted[k]? = some i)
    (hc : i.socket ∉ l.server.closed) (lg : Login) :
    Presents (fun j => if j = k then some lg.login else logins j)
      { l with server := l.server.step regex (.message i (.login lg)) } := by
  have hi := List.mem_of_getElem? hk
  have hik : i.socket = k := by rw [books.numbered k i hk]
  have hclosed : ∀ m, (l.server.step regex (.message i m)).closed = l.server.closed :=
    fun m => (Server.handle_keeps i m l.server).closed
  have husers : (l.server.step regex (.message i (.login lg))).users =
      l.server.users.setLogin i.id lg.login :=
    @Server.login_users regex i lg l.server
  have hset := UserBase.byId_setLogin (h.clients i hi hc) lg.login
  refine ⟨fun id u hid => ?_,?_,fun j hj hjc => ?_,fun j hj => ?_⟩
  · have hid' : (l.server.step regex (.message i (.login lg))).users.byId id = some u := hid
    rw [husers,hset] at hid'
    split at hid'
    · rename_i he
      cases hid'
      exact he.symm
    · exact h.named id u hid'
  · show (l.server.step regex (.message i (.login lg))).users.byId ServerID = _
    rw [husers,hset,if_neg (books.id_ne_server few hi).symm]
    exact h.server
  · have hjc' : j.socket ∉ l.server.closed := hclosed _ ▸ hjc
    show (l.server.step regex (.message i (.login lg))).users.byId j.id = _
    rw [husers,hset]
    by_cases he : j.id = i.id
    · obtain rfl := books.id_inj few hj hi he
      simp [hik]
    · have hs : j.socket ≠ k := fun hs => he (by
        rw [(books.mem_accepted hj).1,(books.mem_accepted hi).1,hs,hik])
      rw [if_neg he,h.clients j hj hjc']
      simp [hs]
  · have hlt : k < l.accepted.length := (List.getElem?_eq_some_iff.mp hk).1
    have hj' : l.accepted.length ≤ j := hj
    rw [if_neg (by omega),h.later j hj']

theorem Presents.accept (h : l.Presents logins) (books : l.Books)
    (few : l.accepted.length+1 < 2^31-1) :
    (final (handleAccept l)).Presents logins := by
  have hid : l.server.nextClientId = UInt64.ofNat l.accepted.length :=
    Server.nextClientId_ofNat books.next (by omega)
  have few₀ : l.Few := by
    unfold ServerLog.Few
    omega
  have husers : (final (handleAccept l)).server.users =
      l.server.users.append ⟨notSet,UInt64.ofNat l.accepted.length⟩ := by
    rw [handleAccept_final,hid]
    rfl
  have hbooks := books.accept few
  have hnew : (⟨UInt64.ofNat l.accepted.length,l.accepted.length⟩ : ClientConnection) ∈
      (final (handleAccept l)).accepted := by
    rw [handleAccept_final,hid]
    simp
  have hne : UInt64.ofNat l.accepted.length ≠ ServerID :=
    hbooks.id_ne_server (by
      rw [handleAccept_final]
      simpa [ServerLog.Few] using few) hnew
  refine ⟨fun id u hu => ?_,?_,fun j hj hjc => ?_,fun k hk => ?_⟩
  · rw [husers,UserBase.byId_append] at hu
    split at hu
    · rename_i he
      cases hu
      exact he.symm
    · exact h.named id u hu
  · rw [husers,UserBase.byId_append,if_neg hne.symm]
    exact h.server
  · rw [husers,UserBase.byId_append]
    rw [handleAccept_final,hid] at hj
    rcases List.mem_append.mp hj with hj | hj
    · have hjid : j.id ≠ UInt64.ofNat l.accepted.length := by
        obtain ⟨hjeq,hlt⟩ := books.mem_accepted hj
        rw [hjeq]
        intro he
        have hs := ofNat_inj (by omega) (by omega) he
        omega
      rw [if_neg hjid]
      exact h.clients j hj hjc
    · rw [List.mem_singleton.mp hj]
      simp [h.later]
  · refine h.later k ?_
    rw [handleAccept_final] at hk
    simp only [List.length_append,List.length_singleton] at hk
    omega

theorem Presents.message (h : l.Presents logins) (books : l.Books) (few : l.Few) {k : Nat}
    (d : NetworkMessage) (late : l.LateRefused regex (.message k d)) :
    (l.step regex (.message k d)).Presents
      (fun j => (l.loginOf j (.message k d)).or (logins j)) := by
  have hquiet : (∀ j, l.loginOf j (.message k d) = none) →
      (fun j => (l.loginOf j (.message k d)).or (logins j)) = logins := by
    intro hnone
    funext j
    simp [hnone j]
  cases hk : l.accepted[k]? with
  | none =>
    have hsame : l.step regex (.message k d) = l := by
      simp [step,exec,onConnection,hk]
    rw [hsame,hquiet fun j => by simp [loginOf,hk]]
    exact h
  | some i =>
    rw [step_message hk]
    rcases Message.ofFrame_state [.CREATE_QUEUE,.SUBSCRIBE,.UNSUBSCRIBE,.PUBLISH,.LOGIN]
      "unknow message kind: " d l.server with ⟨m,hm⟩ | ⟨e,he⟩
    · have hf : Server.onNewMessage regex i d l.server = Server.handle regex i m l.server := by
        rw [Server.onNewMessage,bind_apply,hm]
      rw [hf]
      by_cases hlogin : ∃ lg, m = .login lg
      · obtain ⟨lg,rfl⟩ := hlogin
        have hlogins : (fun j => (l.loginOf j (.message k d)).or (logins j)) =
            fun j => if j = k then some lg.login else logins j := by
          funext j
          by_cases hj : k = j
          · simp [loginOf,hk,hm,hj.symm]
          · simp [loginOf,hj,Ne.symm hj]
        rw [hlogins]
        have hopen : i.socket ∉ l.server.closed := fun hc => late i hk hc _ hm
        exact h.login regex books few hk hopen lg
      · rw [hquiet fun j => by
          cases m with
          | login lg => exact absurd ⟨lg,rfl⟩ hlogin
          | ok q => simp [loginOf,hm]
          | loginConfirm q => simp [loginOf,hm]
          | createQueue q => simp [loginOf,hm]
          | subscribe q => simp [loginOf,hm]
          | unsubscribe q => simp [loginOf,hm]
          | publish q => simp [loginOf,hm]]
        have hclosed : (final (Server.handle regex i m l.server)).closed = l.server.closed :=
          (Server.handle_keeps i m l.server).closed
        rcases Server.handle_users regex i m l.server with hu | ⟨lg,hm',-⟩
        · exact h.congr hu hclosed rfl
        · exact absurd ⟨lg,hm'⟩ hlogin
    · have hf : final (Server.onNewMessage regex i d l.server) = l.server := by
        rw [Server.onNewMessage,bind_apply,he]
        rfl
      rw [hf,hquiet fun j => by simp [loginOf,he]]
      exact h

theorem Presents.step (h : l.Presents logins) (books : l.Books) {e : ServerEvent}
    (few : (l.step regex e).Few) (late : l.LateRefused regex e) :
    (l.step regex e).Presents (fun k => (l.loginOf k e).or (logins k)) := by
  have few₀ : l.Few := Nat.lt_of_le_of_lt (l.accepted_step e) few
  have hcall : ∀ call, l.Calls e call → (∀ k d, e ≠ .message k d) →
      Presents logins (final (onServer (Server.exec regex call) l)) := by
    intro call calls hne
    have hk := calls.keeps regex
    rw [onServer_final]
    rcases calls.users regex with hu | ⟨i,lg,rfl,-⟩
    · exact h.congr hu hk.closed rfl
    · cases calls with
      | message sender decoded => exact absurd rfl (hne _ _)
  cases e with
  | message k d => exact h.message books few₀ d late
  | accept =>
    refine Presents.accept h books ?_
    have hlen : (l.step regex .accept).accepted.length = l.accepted.length+1 := by
      simp [ServerLog.step,exec,handleAccept_final]
    unfold ServerLog.Few at few
    omega
  | error k =>
    show (final (exec regex (.error k) l)).Presents logins
    simp only [exec,onConnection,bind_apply,get_apply]
    cases hk : l.accepted[k]? with
    | none => exact h
    | some i => exact h.close books few₀ (List.mem_of_getElem? hk)
  | createQueue settings => exact hcall _ (.createQueue settings) (by simp)
  | subscribe settings => exact hcall _ (.subscribe settings) (by simp)
  | unsubscribe qname => exact hcall _ (.unsubscribe qname) (by simp)
  | publish settings data => exact hcall _ (.publish settings data) (by simp)
  | stopServer => exact h.stop books few₀

theorem run_presents (regex : RegexCompiler) (cache : ReCache) {events : List ServerEvent}
    (refused : Runs.Along (step regex) (LateRefused regex) (start cache) events)
    (few : ((start cache).run regex events).Few) :
    ((start cache).run regex events).Books ∧ ((start cache).run regex events).Presents
      (fun k => Runs.latest (step regex) (loginOf k) (start cache) events) := by
  have hinv := refused.history (P := fun d l => l = (start cache).run regex d ∧ (l.Few →
      l.Books ∧ l.Presents fun k => Runs.latest (step regex) (loginOf k) (start cache) d))
    (d := []) (fun d l e h late => ?_) ⟨rfl,fun _ => ⟨.start cache,.start cache⟩⟩
  · exact hinv.2 few
  · obtain ⟨rfl,h⟩ := h
    refine ⟨by simp [run],fun few' => ?_⟩
    have few₀ := Nat.lt_of_le_of_lt (accepted_step ((start cache).run regex d) e) few'
    obtain ⟨books,hp⟩ := h few₀
    refine ⟨books.step_late few' few₀ late,?_⟩
    have hlatest : (fun k => Runs.latest (step regex) (loginOf k) (start cache) (d ++ [e])) =
        fun k => (((start cache).run regex d).loginOf k e).or
          (Runs.latest (step regex) (loginOf k) (start cache) d) := by
      funext k
      exact Runs.latest_concat _ d e
    rw [hlatest]
    exact hp.step books few' late

end ServerLog

/-- As long as late messages are of the refused kinds, the server's list of users has its
own user and each open connection once, with the login that it sent last or the text of a
new connection, and its description of the queues lists none but these. -/
theorem server_shows (cache : ReCache) (regex : RegexCompiler) (events : List ServerEvent)
    {l : ServerLog} (run : l = (ServerLog.start cache).run regex events)
    (refused : Runs.Along (ServerLog.step regex) (ServerLog.LateRefused regex)
      (ServerLog.start cache) events) (few : l.accepted.length < 2^31-1) :
    (l.server.userList.map User.id).Nodup ∧
    (∀ u, u ∈ l.server.userList ↔ u = serverUser ∨ ∃ i ∈ l.server.connections,
      u = ⟨(Runs.latest (ServerLog.step regex) (ServerLog.loginOf i.socket)
        (ServerLog.start cache) events).getD notSet,i.id⟩) ∧
    ∀ d ∈ l.server.getDescription, ∀ c ∈ d.subscribers, ∃ u ∈ l.server.userList, u.id = c := by
  subst run
  obtain ⟨books,h⟩ := ServerLog.run_presents regex cache refused few
  have hfind : ∀ i ∈ ((ServerLog.start cache).run regex events).server.connections, _ :=
    fun i hi => h.clients i (books.mem_connections.mp hi).1 (books.mem_connections.mp hi).2
  refine ⟨h.named.nodup,fun u => ?_,fun d hd c hc => ?_⟩
  · rw [Server.userList,UserBase.mem_userList]
    constructor
    · rintro ⟨id,hid⟩
      rcases (books.users id).mp ((UserBase.exists_byId _ _).mpr ⟨u,hid⟩) with rfl | ⟨i,hi,rfl⟩
      · exact .inl (Option.some.inj (hid.symm.trans h.server))
      · exact .inr ⟨i,hi,Option.some.inj (hid.symm.trans (hfind i hi))⟩
    · rintro (rfl | ⟨i,hi,rfl⟩)
      · exact ⟨ServerID,h.server⟩
      · exact ⟨i.id,hfind i hi⟩
  · rw [Server.getDescription,Node.getDescription_eq,List.mem_map] at hd
    obtain ⟨kv,-,rfl⟩ := hd
    have hknown := books.listeners kv.1 c ((Node.mem_describe_keys _ kv c).mp hc)
    obtain ⟨u,hu⟩ := (UserBase.exists_byId _ _).mp hknown
    exact ⟨u,UserBase.mem_userList.mpr ⟨c,hu⟩,h.named c u hu⟩

theorem server_shows_two_clients :
    ((ServerLog.start ∅).run literal (twoClients.take 4)).server.getDescription =
      [⟨⟨[113]⟩,[0]⟩] ∧
    ⟨[97],0⟩ ∈ ((ServerLog.start ∅).run literal (twoClients.take 4)).server.userList := by
  have hds : ((ServerLog.start ∅).run literal (twoClients.take 4)).server.getDescription =
      [⟨⟨[113]⟩,[0]⟩] := by decide +kernel
  have hpermitted : Runs.Along (ServerLog.step literal) ServerLog.Open (ServerLog.start ∅)
      (twoClients.take 4) := by
    refine ⟨?_,?_,?_,?_,trivial⟩ <;> decide +kernel
  have hacc : ((ServerLog.start ∅).run literal (twoClients.take 4)).accepted.length = 2 := by
    decide +kernel
  have hshows := server_shows ∅ literal (twoClients.take 4) rfl
    (hpermitted.imp fun l e h => h.lateRefused)
    (by rw [hacc]; decide)
  refine ⟨hds,(hshows.2.1 _).mpr (.inr ⟨⟨0,0⟩,by decide +kernel,?_⟩)⟩
  decide +kernel

end Dqueue
