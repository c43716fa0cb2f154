import Dqueue.ServerRuns
import Dqueue.AsyncIO

/-!
The three stores of the server agree: the connection list, the user base and the
listeners of the node.
-/

set_option autoImplicit false

namespace Dqueue
open Std Effects RawMem AsyncIO Queries

theorem eraseP_eq_filter {α : Type} {p : α → Bool} {as : List α}
    (h : as.Pairwise fun a b => p a = true → p b = false) :
    as.eraseP p = as.filter (fun a => !p a) := by
  induction as with
  | nil => rfl
  | cons a as ih =>
    obtain ⟨ha,has⟩ := List.pairwise_cons.mp h
    cases hp : p a with
    | true =>
      have hall : ∀ b ∈ as, (!p b) = true := fun b hb => by simp [ha b hb hp]
      simp [hp,List.filter_eq_self.mpr hall]
    | false => simp [hp,ih has]

theorem Server.nextClientId_ofNat {s : Server} {n : Nat} (hs : s.nextId = Int32.ofNat n)
    (hn : n < 2^31) : s.nextClientId = UInt64.ofNat n := by
  have hmax : (n : Int) ≤ Int32.maxValue.toInt := by
    rw [Int32.toInt_maxValue]
    omega
  rw [Server.nextClientId,hs,Int32.toInt64_ofNat' hmax,Int64.toUInt64_ofNat']

structure Server.Keeps (c : Id) (s s' : Server) : Prop where
  users : s.users.exists c = true → ∀ id, s'.users.exists id = s.users.exists id
  connections : s'.connections = s.connections
  closed : s'.closed = s.closed
  nextId : s'.nextId = s.nextId

namespace Server

variable {regex : RegexCompiler} {c : Id}

theorem Keeps.of_eq {s s' : Server} (users : s'.users = s.users)
    (connections : s'.connections = s.connections) (closed : s'.closed = s.closed)
    (nextId : s'.nextId = s.nextId) : Keeps c s s' :=
  ⟨fun _ _ => by rw [users],connections,closed,nextId⟩

theorem Keeps.refl (s : Server) : Keeps c s s := .of_eq rfl rfl rfl rfl

theorem Keeps.trans (s₁ s₂ s₃ : Server) (h : Keeps c s₁ s₂) (h' : Keeps c s₂ s₃) :
    Keeps c s₁ s₃ := by
  refine ⟨fun hc id => ?_,h'.connections.trans h.connections,h'.closed.trans h.closed,
    h'.nextId.trans h.nextId⟩
  have hc₂ : s₂.users.exists c = true := by rw [h.users hc,hc]
  rw [h'.users hc₂,h.users hc]

theorem onNode_keeps (x : EStateM Exception Node Unit) : Within (Keeps c) (onNode x) := by
  intro s
  rw [onNode_run]
  cases x s.node with
  | ok a n => exact .of_eq rfl rfl rfl rfl
  | error e n => exact .of_eq rfl rfl rfl rfl

theorem nodePublish_keeps (p : PublishParams) (rd : Bytes) :
    Within (Keeps c) (nodePublish regex p rd) := by
  intro s
  have h := nodePublish_delivers regex p rd s
  exact .of_eq h.users h.connections h.closed h.nextId

theorem sendTo_keeps (i : ClientConnection) (m : Message) : Within (Keeps c) (sendTo i m) := by
  intro s
  rcases sendTo_final i m s with h | ⟨-,h⟩
  · rw [h]
    exact .refl s
  · rw [h]
    exact .of_eq rfl rfl rfl rfl

theorem handle_keeps (i : ClientConnection) (m : Message) :
    Within (Keeps i.id) (handle regex i m) := by
  refine handle_within Keeps.refl Keeps.trans onNode_keeps nodePublish_keeps (fun n _ s => ?_)
    (fun login s => ?_) (sendTo_keeps i _)
  · obtain ⟨oks,hf,-⟩ := acknowledge_final i m n s
    rw [hf]
    exact .of_eq rfl rfl rfl rfl
  · refine ⟨fun hc id => ?_,rfl,rfl,rfl⟩
    rw [Bool.eq_iff_iff,UserBase.exists_setLogin]
    refine ⟨fun h => ?_,.inr⟩
    rcases h with rfl | h
    · exact hc
    · exact h

def ListenersKnown (s : Server) : Prop :=
  ∀ q c, s.node.listener q c ≠ none → s.users.exists c = true

end Server

def ServerCall.author : ServerCall → Id
  | .message i _ => i.id
  | _ => ServerID

theorem ServerLog.Calls.keeps (regex : RegexCompiler) {l : ServerLog} {e : ServerEvent}
    {call : ServerCall} (h : l.Calls e call) :
    Server.Keeps call.author l.server (l.server.step regex call) := by
  cases h with
  | message sender decoded => exact Server.handle_keeps _ _ l.server
  | createQueue settings => exact Server.onNode_keeps _ l.server
  | subscribe settings => exact Server.onNode_keeps _ l.server
  | unsubscribe qname => exact Server.onNode_keeps _ l.server
  | publish settings data => exact Server.nodePublish_keeps _ _ l.server

theorem NodeStep.listeners_known {users : UserBase} {n n' : Node} {op : Op}
    (h : NodeStep users n op n') (hn : ∀ q c, n.listener q c ≠ none → users.exists c = true)
    (q : Str) (c : Id) (hl : n'.listener q c ≠ none) : users.exists c = true := by
  cases h with
  | quiet queues listeners create change erase => exact hn q c (by rwa [listeners] at hl)
  | created missing user queues listeners =>
    rw [listeners] at hl
    split at hl
    · rename_i he
      exact he.2 ▸ user
    · exact hn q c hl
  | joined action user queues listeners =>
    rw [listeners] at hl
    split at hl
    · rename_i he
      exact he.2 ▸ user
    · exact hn q c hl
  | left present user queues listeners =>
    rw [listeners] at hl
    split at hl
    · exact absurd rfl hl
    · exact hn q c hl
  | erased queues listeners =>
    rw [listeners] at hl
    split at hl
    · exact absurd rfl hl
    · exact hn q c hl

theorem Server.known_of_step {regex : RegexCompiler} {c : Id} {s : Server} {call : ServerCall}
    (h : s.ListenersKnown) (hc : s.users.exists c = true)
    (hk : Server.Keeps c s (s.step regex call)) : (s.step regex call).ListenersKnown := by
  intro q d hl
  rw [hk.users hc]
  rcases Server.step_node regex s call with hs | ⟨op,-,hs⟩
  · exact h q d (by rwa [hs.listeners] at hl)
  · exact hs.listeners_known h q d hl

/-- The connection list, the user base, the listeners and the runs of
`onDisconnect` all follow from which connections were accepted and closed. -/
structure ServerLog.Books (l : ServerLog) : Prop where
  numbered : ∀ (k : Nat) (i : ClientConnection), l.accepted[k]? = some i → i = ⟨UInt64.ofNat k,k⟩
  next : l.server.nextId = Int32.ofNat l.accepted.length
  closed : ∀ k ∈ l.server.closed, k < l.accepted.length
  connections : l.server.connections = l.accepted.filter (fun i => i.socket ∉ l.server.closed)
  users : ∀ id, l.server.users.exists id = true ↔
    id = ServerID ∨ ∃ i ∈ l.server.connections, i.id = id
  listeners : l.server.ListenersKnown
  once : ∀ i, l.disconnected.count i =
    if i ∈ l.accepted ∧ i.socket ∈ l.server.closed then 1 else 0

/-- Fewer connections than there are ids below `ServerID`. -/
def ServerLog.Few (l : ServerLog) : Prop := l.accepted.length < 2^31-1

namespace ServerLog

variable {regex : RegexCompiler}

theorem Books.start (cache : ReCache) : (ServerLog.start cache).Books where
  numbered k i h := by simp [ServerLog.start] at h
  next := rfl
  closed k h := by cases h
  connections := rfl
  users id := by
    show (UserBase.create.append _).exists id = true ↔ _
    rw [UserBase.exists_append]
    simp [UserBase.create,UserBase.exists,ServerLog.start,Server.start]
  listeners q c h := by
    simp [ServerLog.start,Server.start,Node.empty,Node.listener,Node.listeners] at h
  once i := by simp [ServerLog.start]

theorem closeAll_run {P : ServerLog → Prop} {cons : List ClientConnection}
    (hclose : ∀ i ∈ cons, ∀ l, P l → ∃ l', close i l = .ok () l' ∧ P l' ∧ l'.server.closed =
      if i.socket ∈ l.server.closed then l.server.closed else i.socket :: l.server.closed)
    {l : ServerLog} (h : P l) :
    ∃ l', closeAll cons l = .ok () l' ∧ P l' ∧ (∀ k ∈ l.server.closed, k ∈ l'.server.closed) ∧
      ∀ i ∈ cons, i.socket ∈ l'.server.closed := by
  induction cons generalizing l with
  | nil => exact ⟨l,rfl,h,fun k hk => hk,by simp⟩
  | cons i cons ih =>
    obtain ⟨l₁,h₁,hp₁,hc₁⟩ := hclose i (by simp) l h
    obtain ⟨l₂,h₂,hp₂,hk₂,hc₂⟩ := ih (fun j hj => hclose j (by simp [hj])) hp₁
    have hi : i.socket ∈ l₁.server.closed := by
      rw [hc₁]
      split
      · assumption
      · simp
    refine ⟨l₂,by simp [closeAll,h₁,h₂],hp₂,fun k hk => hk₂ k ?_,fun j hj => ?_⟩
    · rw [hc₁]
      split
      · exact hk
      · simp [hk]
    · rcases List.mem_cons.mp hj with rfl | hj
      · exact hk₂ _ hi
      · exact hc₂ j hj

/-- The connection that is erased from the list is the one that is closed, as long
as no other open connection has its id. -/
theorem eraseP_connections {accepted : List ClientConnection} {closed : List Nat}
    {i : ClientConnection} (nodup : accepted.Nodup)
    (hid : ∀ j ∈ accepted, j.socket ∉ closed → (j.id = i.id ↔ j = i))
    (hsocket : ∀ j ∈ accepted, j.socket = i.socket → j = i) :
    (accepted.filter (fun j => j.socket ∉ closed)).eraseP (fun c => c.id == i.id) =
      accepted.filter (fun j => j.socket ∉ i.socket :: closed) := by
  rw [eraseP_eq_filter,List.filter_filter]
  · refine List.filter_congr fun j hj => ?_
    by_cases hc : j.socket ∈ closed
    · simp [hc]
    · by_cases he : j = i
      · simp [he]
      · have hne : j.id ≠ i.id := fun h => he ((hid j hj hc).mp h)
        have hs : j.socket ≠ i.socket := fun h => he (hsocket j hj h)
        simp [hc,hne,hs]
  · refine (nodup.filter _).imp_of_mem fun {a b} ha hb hab hp => ?_
    simp only [List.mem_filter,decide_eq_true_eq] at ha hb
    rw [beq_eq_false_iff_ne]
    intro he
    have hai := (hid a ha.1 ha.2).mp (beq_iff_eq.mp hp)
    exact hab (hai.trans ((hid b hb.1 hb.2).mp he).symm)

namespace Books

variable {l : ServerLog} {e : ServerEvent} (h : l.Books)
include h

theorem mem_accepted {i : ClientConnection} (hi : i ∈ l.accepted) :
    i = ⟨UInt64.ofNat i.socket,i.socket⟩ ∧ i.socket < l.accepted.length := by
  exact numbered_mem h.numbered hi

theorem id_inj (few : l.Few) {i j : ClientConnection} (hi : i ∈ l.accepted) (hj : j ∈ l.accepted)
    (he : i.id = j.id) : i = j := by
  unfold ServerLog.Few at few
  exact numbered_id_inj h.numbered (by omega) hi hj he

theorem id_ne_server (few : l.Few) {i : ClientConnection} (hi : i ∈ l.accepted) :
    i.id ≠ ServerID := by
  obtain ⟨hi,hil⟩ := h.mem_accepted hi
  unfold ServerLog.Few at few
  rw [hi]
  intro he
  have ht := congrArg UInt64.toNat he
  rw [UInt64.toNat_ofNat_of_lt' (by simp [UInt64.size]; omega)] at ht
  simp [ServerID] at ht
  omega

theorem mem_connections {i : ClientConnection} :
    i ∈ l.server.connections ↔ i ∈ l.accepted ∧ i.socket ∉ l.server.closed := by
  rw [h.connections,List.mem_filter]
  simp

theorem accepted_nodup : l.accepted.Nodup := numbered_nodup h.numbered

theorem user_of_open {i : ClientConnection} (hi : i ∈ l.accepted)
    (hc : i.socket ∉ l.server.closed) : l.server.users.exists i.id = true :=
  (h.users i.id).mpr (.inr ⟨i,h.mem_connections.mpr ⟨hi,hc⟩,rfl⟩)

theorem serverUser : l.server.users.exists ServerID = true := (h.users ServerID).mpr (.inl rfl)

theorem served {s : Server} {c : Id} (hc : l.server.users.exists c = true)
    (hk : Server.Keeps c l.server s) (hl : s.ListenersKnown) : Books { l with server := s } := by
  refine ⟨h.numbered,hk.nextId.trans h.next,?_,?_,?_,hl,?_⟩
  · rw [hk.closed]
    exact h.closed
  · rw [hk.connections,hk.closed]
    exact h.connections
  · intro id
    rw [hk.users hc,hk.connections]
    exact h.users id
  · rw [hk.closed]
    exact h.once

theorem message {i : ClientConnection} (hi : i ∈ l.accepted) (hc : i.socket ∉ l.server.closed)
    (m : Message) : Books { l with server := l.server.step regex (.message i m) } := by
  have hu := h.user_of_open hi hc
  have hk : Server.Keeps i.id l.server (l.server.step regex (.message i m)) :=
    Server.handle_keeps i m l.server
  exact h.served hu hk (Server.known_of_step h.listeners hu hk)

theorem interface (call : ServerCall)
    (hk : Server.Keeps ServerID l.server (l.server.step regex call)) :
    Books { l with server := l.server.step regex call } :=
  h.served h.serverUser hk (Server.known_of_step h.listeners h.serverUser hk)

theorem accept (few : l.accepted.length+1 < 2^31-1) : (final (handleAccept l)).Books := by
  have hid : l.server.nextClientId = UInt64.ofNat l.accepted.length :=
    Server.nextClientId_ofNat h.next (by omega)
  have hnew : l.accepted.length ∉ l.server.closed := fun hc => absurd (h.closed _ hc) (by omega)
  rw [handleAccept_final,hid]
  constructor
  · exact numbered_accept h.numbered
  · simp [h.next,Int32.ofNat_add]
  · intro k hk
    have hlt := h.closed k hk
    simp only [List.length_append,List.length_singleton]
    omega
  · simp [h.connections,hnew]
  · intro id
    show (l.server.users.append _).exists id = true ↔ _
    rw [UserBase.exists_append,h.users]
    simp only [List.mem_append,List.mem_singleton]
    constructor
    · rintro (rfl | rfl | ⟨i,hi,rfl⟩)
      · exact .inr ⟨_,.inr rfl,rfl⟩
      · exact .inl rfl
      · exact .inr ⟨i,.inl hi,rfl⟩
    · rintro (rfl | ⟨i,hi | rfl,rfl⟩)
      · exact .inr (.inl rfl)
      · exact .inr (.inr ⟨i,hi,rfl⟩)
      · exact .inl rfl
  · intro q c hc
    exact (UserBase.exists_append _ _ _).mpr (.inr (h.listeners q c hc))
  · intro i
    rw [h.once]
    congr 1
    simp only [List.mem_append,List.mem_singleton,eq_iff_iff]
    refine ⟨fun hi => ⟨.inl hi.1,hi.2⟩,fun hi => ⟨?_,hi.2⟩⟩
    rcases hi.1 with hi' | rfl
    · exact hi'
    · exact absurd hi.2 hnew

/-- Closing an open connection: the exception of `UserBase::erase` is not thrown. -/
theorem close (few : l.Few) {i : ClientConnection} (hi : i ∈ l.accepted) :
    ∃ l', ServerLog.close i l = .ok () l' ∧ l'.Books ∧ l'.accepted = l.accepted ∧
      l'.isStoped = l.isStoped ∧ l'.server.closed =
        if i.socket ∈ l.server.closed then l.server.closed else i.socket :: l.server.closed := by
  by_cases hc : i.socket ∈ l.server.closed
  · exact ⟨l,close_closed hc,h,rfl,rfl,by rw [if_pos hc]⟩
  obtain ⟨users,hu⟩ := UserBase.erase_of_exists (h.user_of_open hi hc)
  refine ⟨_,close_run hc hu,?_,rfl,rfl,by rw [if_neg hc]⟩
  have hsame : ∀ j ∈ l.accepted, j.id = i.id ↔ j.socket = i.socket := by
    intro j hj
    refine ⟨fun he => congrArg ClientConnection.socket (h.id_inj few hj hi he),fun he => ?_⟩
    rw [(h.mem_accepted hj).1,(h.mem_accepted hi).1,he]
  have hlist : l.server.connections.eraseP (fun c => c.id == i.id) =
      l.accepted.filter (fun j => j.socket ∉ i.socket :: l.server.closed) := by
    rw [h.connections]
    refine eraseP_connections h.accepted_nodup
      (fun j hj _ => ⟨h.id_inj few hj hi,fun he => by rw [he]⟩)
      fun j hj hs => h.id_inj few hj hi ((hsame j hj).mpr hs)
  constructor
  · exact h.numbered
  · exact h.next
  · intro k hk
    rcases List.mem_cons.mp hk with rfl | hk
    · exact (h.mem_accepted hi).2
    · exact h.closed k hk
  · exact hlist
  · intro id
    show users.exists id = true ↔ id = ServerID ∨
      ∃ j ∈ l.server.connections.eraseP (fun c => c.id == i.id), j.id = id
    rw [UserBase.exists_erase hu,h.users,hlist]
    have hne := h.id_ne_server few hi
    constructor
    · rintro ⟨hid,rfl | ⟨j,hj,rfl⟩⟩
      · exact .inl rfl
      · obtain ⟨hj,hjc⟩ := h.mem_connections.mp hj
        refine .inr ⟨j,List.mem_filter.mpr ⟨hj,?_⟩,rfl⟩
        have hs : j.socket ≠ i.socket := fun he => hid ((hsame j hj).mpr he)
        simp [hs,hjc]
    · rintro (rfl | ⟨j,hj,rfl⟩)
      · exact ⟨hne.symm,.inl rfl⟩
      · obtain ⟨hj,hjc⟩ := List.mem_filter.mp hj
        simp only [List.mem_cons,not_or,decide_eq_true_eq] at hjc
        exact ⟨fun he => hjc.1 ((hsame j hj).mp he),
          .inr ⟨j,h.mem_connections.mpr ⟨hj,hjc.2⟩,rfl⟩⟩
  · intro q c hl
    have hl' : (l.server.node.eraseClient i.id).listener q c ≠ none := hl
    rw [Node.listener_eraseClient] at hl'
    split at hl'
    · exact absurd rfl hl'
    · rename_i hne
      exact (UserBase.exists_erase hu c).mpr ⟨hne,h.listeners q c hl'⟩
  · intro j
    show (i :: l.disconnected).count j = _
    rw [List.count_cons,h.once]
    simp only [List.mem_cons]
    by_cases hj : j ∈ l.accepted
    · by_cases he : j.socket = i.socket
      · have hji : i = j := h.id_inj few hi hj (((hsame j hj).mpr he).symm)
        subst hji
        simp [hc,hi]
      · have hji : i ≠ j := fun hij => he (by rw [hij])
        simp [hj,he,hji]
    · have hji : i ≠ j := fun hij => hj (hij ▸ hi)
      simp [hj,hji]

theorem closeAll (few : l.Few) (cons : List ClientConnection) (hcons : ∀ i ∈ cons, i ∈ l.accepted) :
    ∃ l', ServerLog.closeAll cons l = .ok () l' ∧ l'.Books ∧ l'.accepted = l.accepted ∧
      l'.isStoped = l.isStoped ∧ (∀ k ∈ l.server.closed, k ∈ l'.server.closed) ∧
      ∀ i ∈ cons, i.socket ∈ l'.server.closed := by
  let P (l' : ServerLog) : Prop :=
    l'.Books ∧ l'.accepted = l.accepted ∧ l'.isStoped = l.isStoped
  have hclose : ∀ i ∈ cons, ∀ l', P l' → ∃ l₁, ServerLog.close i l' = .ok () l₁ ∧ P l₁ ∧
      l₁.server.closed = if i.socket ∈ l'.server.closed then l'.server.closed
        else i.socket :: l'.server.closed := by
    rintro i hi l' ⟨hb,ha,hs⟩
    have few' : l'.Few := by
      unfold ServerLog.Few
      rwa [ha]
    obtain ⟨l₁,h₁,b₁,ha₁,hs₁,hc₁⟩ := hb.close few' (ha ▸ hcons i hi)
    exact ⟨l₁,h₁,⟨b₁,ha₁.trans ha,hs₁.trans hs⟩,hc₁⟩
  obtain ⟨l',hr,⟨hb,ha,hs⟩,hk,hc⟩ := closeAll_run hclose ⟨h,rfl,rfl⟩
  exact ⟨l',hr,hb,ha,hs,hk,hc⟩

theorem stopServer (few : l.Few) : ∃ l', ServerLog.stopServer l = .ok () l' ∧ l'.Books := by
  cases hs : l.isStoped with
  | true => exact ⟨l,by simp [ServerLog.stopServer,hs],h⟩
  | false =>
    obtain ⟨l',hr,b,ha,-,hk,hc⟩ := h.closeAll few l.server.connections
      (fun i hi => (h.mem_connections.mp hi).1)
    -- every connection is closed, so there is nothing left to clear
    have hnil : l'.server.connections = [] := by
      rw [b.connections,List.filter_eq_nil_iff]
      intro i hi
      simp only [decide_eq_true_eq,not_not]
      by_cases ho : i.socket ∈ l.server.closed
      · exact hk _ ho
      · exact hc i (h.mem_connections.mpr ⟨ha ▸ hi,ho⟩)
    refine ⟨{ l' with server := { l'.server with connections := [] }, isStoped := true },
      by simp [ServerLog.stopServer,hs,hr],?_⟩
    have hserver : ({ l'.server with connections := [] } : Server) = l'.server := by
      rw [← hnil]
    rw [hserver]
    exact ⟨b.numbered,b.next,b.closed,b.connections,b.users,b.listeners,b.once⟩

/-- Completions with an error never get to the throwing branch. -/
theorem error_run (few : l.Few) (regex : RegexCompiler) (k : Nat) :
    ∃ l', exec regex (.error k) l = .ok () l' ∧ l'.Books := by
  simp only [exec,onConnection,bind_apply,get_apply]
  cases hk : l.accepted[k]? with
  | none => exact ⟨l,rfl,h⟩
  | some i =>
    obtain ⟨l',hr,hb,-⟩ := h.close few (List.mem_of_getElem? hk)
    exact ⟨l',hr,hb⟩

theorem step_of_message (few : (l.step regex e).Few) (few₀ : l.Few)
    (hm : ∀ i m, l.Calls e (.message i m) →
      Books { l with server := l.server.step regex (.message i m) }) : (l.step regex e).Books := by
  have hstep := l.step_cases regex e
  generalize l.step regex e = l' at hstep few ⊢
  cases hstep with
  | same => exact h
  | accept =>
    refine h.accept ?_
    simpa [ServerLog.Few,handleAccept,onServer_final] using few
  | call calls =>
    cases calls with
    | message sender decoded => exact hm _ _ (.message sender decoded)
    | createQueue settings =>
      exact h.interface _ ((ServerLog.Calls.createQueue settings).keeps regex)
    | subscribe settings => exact h.interface _ ((ServerLog.Calls.subscribe settings).keeps regex)
    | unsubscribe qname => exact h.interface _ ((ServerLog.Calls.unsubscribe qname).keeps regex)
    | publish settings data =>
      exact h.interface _ ((ServerLog.Calls.publish settings data).keeps regex)
  | close sender =>
    obtain ⟨l',hr,hb,-⟩ := h.close few₀ (List.mem_of_getElem? sender)
    rw [hr]
    exact hb
  | stop running =>
    obtain ⟨l',hr,hb⟩ := h.stopServer few₀
    rw [hr]
    exact hb

theorem step (few : (l.step regex e).Few) (few₀ : l.Few)
    (ho : ∀ i ∈ l.sender e, i.socket ∉ l.server.closed) : (l.step regex e).Books := by
  refine h.step_of_message few few₀ fun i m calls => ?_
  cases calls with
  | message sender decoded => exact h.message (List.mem_of_getElem? sender) (ho i sender) m

end Books

def SameAccepted (l l' : ServerLog) : Prop := l'.accepted = l.accepted

theorem SameAccepted.refl (l : ServerLog) : SameAccepted l l := rfl

theorem SameAccepted.trans (l₁ l₂ l₃ : ServerLog) (h : SameAccepted l₁ l₂)
    (h' : SameAccepted l₂ l₃) : SameAccepted l₁ l₃ := Eq.trans h' h

theorem onServer_sameAccepted (x : ServerM Unit) : Within SameAccepted (onServer x) := by
  intro l
  rw [onServer_final]
  rfl

theorem close_sameAccepted (i : ClientConnection) : Within SameAccepted (close i) := by
  have htrans := SameAccepted.trans
  have hclose : Within SameAccepted (do
      onServer (modify (fun s => { s with closed := i.socket :: s.closed }))
      eraseClientDescription i) :=
    .bind htrans (onServer_sameAccepted _) fun _ =>
      .bind htrans (.bind htrans (.modify fun _ => rfl) fun _ => onServer_sameAccepted _)
        fun _ => onServer_sameAccepted _
  refine .bind htrans (.get SameAccepted.refl) fun l => ?_
  split
  · exact hclose
  · exact .pure SameAccepted.refl ()

theorem accepted_grows (l : ServerLog) (regex : RegexCompiler) (e : ServerEvent) :
    ∃ new, (l.step regex e).accepted = l.accepted ++ new := by
  have hstep := l.step_cases regex e
  generalize l.step regex e = l' at hstep ⊢
  cases hstep with
  | same => exact ⟨[],by simp⟩
  | accept => exact ⟨_,by simp [handleAccept,onServer_final]; rfl⟩
  | call calls => exact ⟨[],by simp⟩
  | @close k i sender =>
    have hclose : (final (close i l)).accepted = l.accepted := close_sameAccepted i l
    exact ⟨[],by simp [hclose]⟩
  | stop running =>
    have hstop : Within SameAccepted stopServer :=
      stopServer_within SameAccepted.refl SameAccepted.trans close_sameAccepted fun _ => rfl
    have hl : (final (stopServer l)).accepted = l.accepted := hstop l
    exact ⟨[],by simp [hl]⟩

theorem accepted_step (l : ServerLog) (e : ServerEvent) :
    l.accepted.length ≤ (l.step regex e).accepted.length := by
  obtain ⟨new,hnew⟩ := l.accepted_grows regex e
  simp [hnew]

theorem accepted_kept {l : ServerLog} {k : Nat} {i : ClientConnection}
    (h : l.accepted[k]? = some i) (e : ServerEvent) :
    (l.step regex e).accepted[k]? = some i := by
  obtain ⟨new,hnew⟩ := l.accepted_grows regex e
  rw [hnew,List.getElem?_append_left (List.getElem?_eq_some_iff.mp h).1]
  exact h

theorem run_books {l₀ : ServerLog} (h₀ : l₀.Books) {events : List ServerEvent}
    (hrun : Runs.Along (step regex) Open l₀ events) (few : (l₀.run regex events).Few) :
    (l₀.run regex events).Books := by
  refine hrun.invariant (P := fun l => l.Few → l.Books) (fun l e h ho few' => ?_) (fun _ => h₀) few
  have few₀ : l.Few := Nat.lt_of_le_of_lt (l.accepted_step e) few'
  exact (h few₀).step few' few₀ ho.2

end ServerLog

/-- The books of the server after any run of its handlers: one entry in each
store for each open connection, one run of `onDisconnect` for each closed one,
and no way into the throwing branch of `UserBase::erase`. -/
theorem server_books (cache : ReCache) (regex : RegexCompiler) (events : List ServerEvent)
    {l : ServerLog} (run : l = (ServerLog.start cache).run regex events)
    (permitted : Runs.Along (ServerLog.step regex) ServerLog.Open (ServerLog.start cache) events)
    (few : l.accepted.length < 2^31-1) :
    (l.server.connections.map ClientConnection.id).Nodup ∧
    (∀ id, l.server.users.exists id = true ↔
      id = ServerID ∨ id ∈ l.server.connections.map ClientConnection.id) ∧
    (∀ q c, l.server.node.listener q c ≠ none → l.server.users.exists c = true) ∧
    (∀ i ∈ l.accepted, l.disconnected.count i = if i.socket ∈ l.server.closed then 1 else 0) ∧
    (∀ k, Effects.thrown (ServerLog.exec regex (.error k) l) = none) ∧
    Effects.thrown (ServerLog.exec regex .stopServer l) = none := by
  have h : l.Books := run ▸ ServerLog.run_books (.start cache) permitted (run ▸ few)
  refine ⟨?_,?_,h.listeners,?_,?_,?_⟩
  · have hnodup : l.server.connections.Nodup := by
      rw [h.connections]
      exact h.accepted_nodup.filter _
    refine hnodup.map_on fun i hi j hj he => ?_
    exact h.id_inj few (h.mem_connections.mp hi).1 (h.mem_connections.mp hj).1 he
  · intro id
    rw [h.users,List.mem_map]
  · intro i hi
    rw [h.once]
    simp [hi]
  · intro k
    obtain ⟨l',hr,-⟩ := h.error_run few regex k
    rw [hr]
    rfl
  · obtain ⟨l',hr,-⟩ := h.stopServer few
    rw [ServerLog.exec,hr]
    rfl

def twoClients : List ServerEvent :=
  [.accept,.accept,.message 0 (received (Message.wire (.login ⟨[97]⟩))),
    .message 0 (received (Message.wire (.createQueue ⟨[113],0⟩))),.error 0,.error 0]

theorem server_books_two_clients :
    ((ServerLog.start ∅).run literal twoClients).accepted.length = 2 ∧
    ((ServerLog.start ∅).run literal twoClients).disconnected = [⟨0,0⟩] ∧
    (((ServerLog.start ∅).run literal twoClients).server.connections.map
      ClientConnection.id).Nodup := by
  have hacc : ((ServerLog.start ∅).run literal twoClients).accepted.length = 2 := by decide +kernel
  have hallowed :
      Runs.Along (ServerLog.step literal) ServerLog.Open (ServerLog.start ∅) twoClients := by
    refine ⟨?_,?_,?_,?_,?_,?_,trivial⟩ <;> decide +kernel
  refine ⟨hacc,by decide +kernel,?_⟩
  exact (server_books ∅ literal twoClients rfl hallowed (by rw [hacc]; decide)).1

end Dqueue
