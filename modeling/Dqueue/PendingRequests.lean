import Dqueue.SessionBooks

/-!
A request that waits for its answer is in the pool or on its way, as long as
requests other than publishes are made on a live connection and this is not
lost before they are answered.
-/

set_option autoImplicit false

namespace Dqueue
open Std Effects RawMem AsyncIO Queries

namespace Server

theorem handle_answers (regex : RegexCompiler) {i : ClientConnection} {m : Message} {s : Server}
    (hu : s.users.exists i.id = true) (hc : i.socket ∉ s.closed) {n : UInt64}
    (hn : m.requestId = some n) (hp : ∀ p, m ≠ .publish p) :
    .ok ⟨n⟩ ∈ sentTo i.socket s (final (handle regex i m s)) := by
  have hack : ∀ x : EStateM Exception Node Unit, (∃ node, x s.node = .ok () node) →
      .ok ⟨n⟩ ∈ sentTo i.socket s (final ((do onNode x; acknowledge i m n) s)) := by
    rintro x ⟨node,hx⟩
    rw [bind_apply,onNode_run,hx]
    simp only
    rw [acknowledge_run (s := { s with node := node }) hc]
    simp [sentTo]
  have hchange : ∀ action settings, ∃ node,
      Node.changeSubscription s.users action settings i.id s.node = .ok () node := by
    intro action settings
    rw [Node.changeSubscription,Node.changeSubscriptionImpl_run,hu]
    split
    · exact ⟨_,rfl⟩
    · exact ⟨_,rfl⟩
  cases m with
  | createQueue cq =>
    cases hn
    refine hack (Node.createQueue s.users ⟨cq.name⟩ i.id) ?_
    rw [Node.createQueue_run,hu]
    cases s.node.queues[cq.name]? with
    | none => exact ⟨_,rfl⟩
    | some q => exact ⟨_,rfl⟩
  | subscribe cs =>
    cases hn
    exact hack _ (hchange .Subscribe ⟨cs.qname,cs.tag⟩)
  | unsubscribe cs =>
    cases hn
    exact hack _ (hchange .Unsubscribe ⟨cs.qname,cs.tag⟩)
  | publish cs => exact absurd rfl (hp cs)
  | login lg => cases hn
  | ok q => cases hn
  | loginConfirm q => cases hn

end Server

theorem ServerLog.Counted.answers (regex : RegexCompiler) {l : ServerLog} (h : l.Counted) {k : Nat}
    (hk : k < l.accepted.length) (hc : k ∉ l.server.closed) {m : Message} (hs : m.Sendable)
    {n : UInt64} (hn : m.requestId = some n) (hp : ∀ p, m ≠ .publish p) :
    .ok ⟨n⟩ ∈ Server.sentTo k l.server
      (l.step regex (.message k (received m.wire))).server := by
  have hi := List.getElem?_eq_getElem hk
  have hsock : l.accepted[k].socket = k := by rw [h.numbered k _ hi]
  have hkind : m.kind ∈ [.CREATE_QUEUE,.SUBSCRIBE,.UNSUBSCRIBE,.PUBLISH,.LOGIN] := by
    cases m with
    | ok q => cases hn
    | loginConfirm q => cases hn
    | createQueue q => simp [Message.kind]
    | subscribe q => simp [Message.kind]
    | unsubscribe q => simp [Message.kind]
    | publish q => simp [Message.kind]
    | login q => simp [Message.kind]
  have hc' : l.accepted[k].socket ∉ l.server.closed := by rwa [hsock]
  have hans := Server.handle_answers regex
    (h.users _ (List.getElem_mem hk) hc') hc' hn hp
  rw [ServerLog.step_message hi,Server.onNewMessage_wire regex hs,if_pos hkind]
  rwa [hsock] at hans

namespace AbstractClient

def Reads (s s' : AbstractClient) : Prop :=
  s'.client.asyncConnection = s.client.asyncConnection ∧
    ∀ a, s.client.asyncConnection = some a → ∀ c, s.connections[a]? = some c →
      ∃ c', s'.connections[a]? = some c' ∧ c'.sock = c.sock ∧ c'.errors = c.errors ∧
        c'.beginStoping = c.beginStoping ∧ (c.reading ≠ .idle → c'.reading ≠ .idle)

variable {s : AbstractClient}

theorem Reads.of_eq {s' : AbstractClient}
    (ha : s'.client.asyncConnection = s.client.asyncConnection)
    (hc : s'.connections = s.connections) : s.Reads s' :=
  ⟨ha,fun a _ c h => ⟨c,by rw [hc]; exact h,rfl,rfl,rfl,id⟩⟩

theorem Reads.set {s' : AbstractClient} {b : Nat} {d d' : Connection}
    (ha : s'.client.asyncConnection = s.client.asyncConnection)
    (hc : s'.connections = s.connections.set b d') (hd : s.connections[b]? = some d)
    (hsame : s.client.asyncConnection = some b → d'.sock = d.sock ∧ d'.errors = d.errors ∧
      d'.beginStoping = d.beginStoping ∧ (d.reading ≠ .idle → d'.reading ≠ .idle)) :
    s.Reads s' := by
  refine ⟨ha,fun a hcur c h => ?_⟩
  rw [hc,List.getElem?_set]
  by_cases hb : b = a
  · subst hb
    obtain rfl : d = c := Option.some.inj (hd.symm.trans h)
    have hlt := (List.getElem?_eq_some_iff.mp hd).1
    exact ⟨d',by simp [hlt],hsame hcur⟩
  · exact ⟨c,by simp [hb,h],rfl,rfl,rfl,id⟩

theorem reconnectOnError_connections (s : AbstractClient) :
    s.reconnectOnError.client.asyncConnection = s.client.asyncConnection ∧
      s.reconnectOnError.connections = s.connections := by
  unfold reconnectOnError
  split <;> exact ⟨rfl,rfl⟩

theorem send_reads (s : AbstractClient) : s.Reads s.send := by
  unfold send
  split
  · exact .of_eq rfl rfl
  · rename_i a c ht
    exact .set rfl rfl (target_cases ht).2 fun _ => ⟨rfl,rfl,rfl,id⟩

def Harmless (s : AbstractClient) : ConnectionEvent → Prop
  | .connected n => n ∉ s.connecting
  | .message _ _ => False
  | .readError a => s.client.asyncConnection ≠ some a
  | .writeError a => s.client.asyncConnection = some a →
    ∀ c, s.connections[a]? = some c → c.writing = 0
  | .disconnect => s.isStoped = true
  | _ => True

theorem Harmless.reads {e : ConnectionEvent} (he : s.Harmless e) : s.Reads (s.step e) := by
  have hone : ∀ a (f : Connection → AbstractClient),
      (∀ c, s.connections[a]? = some c → s.Reads (f c)) → s.Reads (s.onConnection a f) := by
    intro a f hf
    unfold onConnection
    split
    · exact .of_eq rfl rfl
    · rename_i hc
      exact hf _ hc
  cases e with
  | asyncConnect => exact .of_eq rfl rfl
  | connected n =>
    rw [step,connected,if_neg he]
    exact .of_eq rfl rfl
  | connectError n =>
    rw [step,connectError]
    split
    · obtain ⟨ha,hc⟩ := reconnectOnError_connections { s with connecting := s.connecting.erase n }
      exact .of_eq ha hc
    · exact .of_eq rfl rfl
  | header a =>
    refine hone a _ fun c hc => ?_
    split
    · exact .set rfl rfl hc fun _ => ⟨rfl,rfl,rfl,fun _ => by simp⟩
    · exact .of_eq rfl rfl
  | message a m => exact he.elim
  | readError a =>
    refine hone a _ fun c hc => ?_
    split
    · obtain ⟨ha,hcs⟩ := reconnectOnError_connections (s.setConnection a { c with
        reading := .idle
        errors := c.errors+1
        reconnects := if s.reconnects then c.reconnects+1 else c.reconnects })
      exact .set ha hcs hc fun hcur => absurd hcur he
    · exact .of_eq rfl rfl
  | written a =>
    refine hone a _ fun c hc => ?_
    split
    · exact .set rfl rfl hc fun _ => ⟨rfl,rfl,rfl,id⟩
    · exact .of_eq rfl rfl
  | writeError a =>
    refine hone a _ fun c hc => ?_
    split
    · rename_i hw
      obtain ⟨ha,hcs⟩ := reconnectOnError_connections (s.setConnection a { c with
        writing := c.writing-1
        errors := c.errors+1
        reconnects := if s.reconnects then c.reconnects+1 else c.reconnects })
      exact .set ha hcs hc fun hcur => absurd (he hcur c hc) hw
    · exact .of_eq rfl rfl
  | send => exact s.send_reads
  | disconnect =>
    have hs : s.isStoped = true := he
    rw [step,disconnect,if_pos hs]
    exact .of_eq rfl rfl

end AbstractClient

theorem Client.mem_issue_queries {c : Client} {r : Request} {locker : Nat} {id : UInt64} :
    id ∈ (c.issue r locker).queries ↔ id = c.nextMessageId ∨ id ∈ c.queries := by
  simp only [Client.issue,ExtTreeMap.mem_insert,LawfulEqCmp.compare_eq_iff_eq]
  rw [eq_comm]

theorem Client.issue_pool_kept {c : Client} (r : Request) (locker : Nat) {id : UInt64}
    (h : id ∈ c.messagePool) : id ∈ (c.issue r locker).messagePool := by
  cases r with
  | publish settings data => exact ExtTreeMap.mem_insertIfNew.mpr (.inr h)
  | createQueue name => exact h
  | subscribe settings => exact h
  | unsubscribe qname => exact h

theorem Client.handle_waiting {c : Client} {m : Message} {id : UInt64}
    (h : id ∈ (final (Client.handle m c)).queries) : m ≠ .ok ⟨id⟩ ∧ id ∈ c.queries ∧
      (id ∈ c.messagePool → id ∈ (final (Client.handle m c)).messagePool) := by
  cases m with
  | ok cs =>
    simp only [Client.handle,bind_apply,get_apply] at h ⊢
    cases hq : c.queries[cs.id]? with
    | none =>
      rw [hq] at h
      refine ⟨?_,h,fun hp => hp⟩
      rintro ⟨⟩
      have hin : id ∈ c.queries := h
      rw [ExtTreeMap.mem_iff_isSome_getElem?,hq] at hin
      cases hin
    | some locker =>
      rw [hq] at h
      obtain ⟨hne,hin⟩ := ExtTreeMap.mem_erase.mp h
      refine ⟨?_,hin,fun hp => ExtTreeMap.mem_erase.mpr ⟨hne,hp⟩⟩
      rintro ⟨⟩
      exact hne (by simp)
  | publish cs => exact ⟨by simp,h,fun hp => hp⟩
  | loginConfirm lc => exact ⟨by simp,h,fun hp => hp⟩
  | login q => exact ⟨by simp,h,fun hp => hp⟩
  | createQueue q => exact ⟨by simp,h,fun hp => hp⟩
  | subscribe q => exact ⟨by simp,h,fun hp => hp⟩
  | unsubscribe q => exact ⟨by simp,h,fun hp => hp⟩

def Client.Pooled (c : Client) : Prop := ∀ id ∈ c.queries.keys, id ∈ c.messagePool

instance (c : Client) : Decidable c.Pooled :=
  List.decidableBAll (fun id => id ∈ c.messagePool) c.queries.keys

def SocketLink.Carries (l : SocketLink) (id : UInt64) : Prop :=
  (∃ m ∈ l.up, m.requestId = some id) ∨ .ok ⟨id⟩ ∈ l.down

theorem SocketLink.send_broken (l : SocketLink) (m : Message) : (l.send m).broken = l.broken := by
  unfold send
  split <;> rfl

theorem SocketLink.Carries.send {l : SocketLink} {id : UInt64} (h : l.Carries id) (m : Message) :
    (l.send m).Carries id := by
  unfold SocketLink.send
  split
  · exact h
  · refine h.imp_left fun hm => ?_
    obtain ⟨m',hm',hid⟩ := hm
    exact ⟨m',List.mem_append_left _ hm',hid⟩

theorem SocketLink.carries_send {l : SocketLink} {m : Message} {id : UInt64} (hb : l.broken = false)
    (hid : m.requestId = some id) : (l.send m).Carries id := by
  refine .inl ⟨m,?_,hid⟩
  simp [SocketLink.send,hb]

theorem SocketLink.answer_broken (l : SocketLink) (s s' : Server) :
    (l.answer s s').broken = l.broken := by
  unfold answer
  split
  · rfl
  · split <;> rfl

theorem SocketLink.mem_answer_of {l : SocketLink} {k : Nat} {s s' : Server} {m : Message}
    (hk : l.place = some k) (hb : l.broken = false) (hm : m ∈ Server.sentTo k s s') :
    m ∈ (l.answer s s').down := by
  simp [SocketLink.answer,hk,hb,hm]

theorem SocketLink.Carries.answer {l : SocketLink} {id : UInt64} (h : l.Carries id)
    (s s' : Server) :
    (l.answer s s').Carries id := by
  unfold SocketLink.answer
  split
  · exact h
  · split
    · exact h
    · exact h.imp_right fun hm => List.mem_append_left _ hm

namespace Session

/-- Whether a connection still works: it reads, no error was reported on it, its
socket is whole and neither side has closed it. -/
def live (s : Session) (c : Connection) : Bool :=
  c.errors == 0 && !c.beginStoping && c.reading != .idle &&
    match c.sock with
    | none => false
    | some n => !(s.links n).broken && match (s.links n).place with
      | none => true
      | some k => !s.log.server.closed.contains k

theorem live_iff {s : Session} {c : Connection} : s.live c = true ↔
    c.errors = 0 ∧ c.beginStoping = false ∧ c.reading ≠ .idle ∧
      ∃ n, c.sock = some n ∧ (s.links n).broken = false ∧
        ∀ k, (s.links n).place = some k → k ∉ s.log.server.closed := by
  unfold live
  cases c.sock with
  | none => simp
  | some n => cases hp : (s.links n).place <;> simp [hp,and_assoc]

def Traveling (s : Session) (id : UInt64) : Prop :=
  ∃ c ∈ s.current, s.live c = true ∧ ∃ n ∈ c.sock, (s.links n).Carries id

def NoOrphans (s : Session) : Prop :=
  ∀ id ∈ s.machine.client.queries, id ∈ s.machine.client.messagePool ∨ s.Traveling id

def readsOn (s : Session) (a : Nat) : Bool :=
  match s.next a with
  | none => true
  | some (n,m,_) =>
    (Effects.thrown (Client.handle m s.machine.client)).isNone && s.machine.alive (some n)

def answers (s : Session) (a : Nat) (id : UInt64) : Bool :=
  match s.next a with
  | some (_,.ok cs,_) => cs.id == id
  | _ => false

/-- Requests other than publishes are made on a live connection, and this is not
replaced, closed or lost while one of them waits. -/
def Careful (s : Session) : SessionEvent → Prop
  | .call (.publish _ _) => True
  | .call _ => s.machine.target.any (fun x => s.live x.2) = true
  | .connection (.connected n) => n ∈ s.machine.connecting → s.machine.client.Pooled
  | .connection (.readError a) =>
    s.machine.client.asyncConnection = some a → s.machine.client.Pooled
  | .connection (.writeError a) => s.machine.client.asyncConnection = some a →
    (∀ c ∈ s.current, c.writing ≠ 0) → s.machine.client.Pooled
  | .connection .disconnect => s.machine.isStoped = false → s.machine.client.Pooled
  | .receive a => s.machine.client.asyncConnection = some a → s.readsOn a = true ∨
    ∀ id ∈ s.machine.client.queries.keys, id ∈ s.machine.client.messagePool ∨ s.answers a id = true
  | .lose n _ _ => (∀ c ∈ s.current, c.sock ≠ some n) ∨ s.machine.client.Pooled
  | .server (.error k) => (∀ c ∈ s.current, ∀ n ∈ c.sock, (s.links n).place ≠ some k) ∨
    s.machine.client.Pooled
  | .server .stopServer => s.log.isStoped = true ∨
    (∀ c ∈ s.current, ∀ n ∈ c.sock, (s.links n).place = none) ∨ s.machine.client.Pooled
  | _ => True

structure Booked (s : Session) : Prop where
  books : s.machine.client.Books s.issued
  ids : Numbered s.issued
  ups : ∀ n, ∀ m ∈ (s.links n).up, m ∈ s.issued ∨ ∃ lg, m = .login lg

theorem Booked.start (login : Str) (autoReconnection : Bool) (cache : ReCache) :
    (Session.start login autoReconnection cache).Booked where
  books := .create login
  ids k m h := by cases h
  ups n m h := by cases h

theorem Booked.not_publish {s : Session} (h : s.Booked) {n : Nat} {m : Message}
    (hm : m ∈ (s.links n).up) {id : UInt64} (hid : m.requestId = some id)
    (hq : id ∈ s.machine.client.queries) (hp : id ∉ s.machine.client.messagePool) (p : Publish) :
    m ≠ .publish p := by
  rintro rfl
  obtain rfl : p.messageId = id := Option.some.inj hid
  rcases h.ups n _ hm with hi | ⟨lg,hlg⟩
  · have hh : p.messageId ∉ s.machine.client.handled := by
      intro hh
      have hnone := (h.books.handled _ hh).2.1
      rw [ExtTreeMap.mem_iff_isSome_getElem?,hnone] at hq
      cases hq
    have hget := h.books.unacked p hi hh
    exact hp (ExtTreeMap.mem_iff_isSome_getElem?.mpr (by rw [hget]; rfl))
  · cases hlg

namespace Booked

variable {regex : RegexCompiler} {s : Session} (h : s.Booked)
include h

theorem keep {s' : Session}
    (hc : s.machine.client.Books s.issued → s'.machine.client.Books s'.issued)
    (hi : s'.issued = s.issued)
    (hup : ∀ n, ∀ m ∈ (s'.links n).up, m ∈ (s.links n).up ∨ m ∈ s.issued ∨ ∃ lg, m = .login lg) :
    s'.Booked where
  books := hc h.books
  ids := hi ▸ h.ids
  ups n m hm := by
    rw [hi]
    rcases hup n m hm with hm | hm
    · exact h.ups n m hm
    · exact hm

theorem setLink {n : Nat} {l : SocketLink} (hup : ∀ m ∈ l.up, m ∈ (s.links n).up) :
    (s.setLink n l).Booked := by
  refine h.keep id rfl fun n' m hm => .inl ?_
  rw [setLink_links] at hm
  split at hm
  · rename_i he
    rw [he]
    exact hup m hm
  · exact hm

theorem deliver (log : ServerLog) : (s.deliver log).Booked :=
  h.keep id rfl fun _ _ hm => .inl ((SocketLink.answer_up _ _ _) ▸ hm)

end Booked

theorem mem_put_up {s : Session} {m m' : Message} {n : Nat} (h : m' ∈ ((s.put m).links n).up) :
    m' ∈ (s.links n).up ∨ m' = m := by
  rcases s.put_links m n with hl | hl
  · rw [hl] at h
    exact .inl h
  · rw [hl,SocketLink.send] at h
    split at h
    · exact .inl h
    · exact (List.mem_append.mp h).imp_right List.mem_singleton.mp

theorem mem_puts_up {s : Session} {ms : List Message} {m' : Message} {n : Nat}
    (h : m' ∈ ((ms.foldl put s).links n).up) : m' ∈ (s.links n).up ∨ m' ∈ ms := by
  induction ms generalizing s with
  | nil => exact .inl h
  | cons m ms ih =>
    rcases ih h with h | h
    · exact (mem_put_up h).imp_right fun he => by simp [he]
    · exact .inr (by simp [h])

theorem put_issued (s : Session) (m : Message) : (s.put m).issued = s.issued := by
  unfold put
  split
  · rfl
  · split <;> rfl

theorem puts_issued (ms : List Message) (s : Session) : (ms.foldl put s).issued = s.issued := by
  induction ms generalizing s with
  | nil => rfl
  | cons m ms ih => exact (ih (s.put m)).trans (s.put_issued m)

namespace Booked

variable {regex : RegexCompiler} {s : Session} (h : s.Booked)
include h

theorem call (r : Request) (hl : s.issued.length < 2^64) : (s.call r).Booked := by
  unfold Session.call
  simp only
  split
  · exact h
  · have hids := h.ids.append r
    rw [← h.books.next] at hids
    refine ⟨h.books.issue h.ids hl r,hids,fun n m hm => ?_⟩
    rcases mem_put_up hm with hm | rfl
    · exact (h.ups n m hm).imp_left fun hi => List.mem_append_left _ hi
    · exact .inl (by simp)

theorem connection (e : ConnectionEvent) : (s.connection e).Booked := by
  obtain ⟨a,b,hc⟩ := s.connection_client e
  have hb : (s.connection e).machine.client.Books s.issued := by
    rw [hc]
    exact h.books.congr rfl rfl rfl rfl rfl
  cases e with
  | connected n =>
    rw [Session.connection] at hb ⊢
    rcases s.connected_cases n with hs | ⟨-,-,hs⟩
    · rw [hs]
      exact h
    · rw [hs] at hb ⊢
      refine h.keep (fun _ => ?_) (puts_issued _ _) fun n' m hm => ?_
      · rw [puts_issued]
        exact hb
      · rcases mem_puts_up hm with hm | hm
        · exact .inl hm
        · rcases List.mem_cons.mp hm with rfl | hm
          · exact .inr (.inr ⟨_,rfl⟩)
          · obtain ⟨p,hp,rfl⟩ := List.mem_map.mp hm
            obtain ⟨n,hp⟩ := MemoryMessagePool.mem_all hp
            exact .inr (.inl (h.books.pool n p hp).2)
  | asyncConnect => exact ⟨hb,h.ids,h.ups⟩
  | connectError n => exact ⟨hb,h.ids,h.ups⟩
  | header a => exact ⟨hb,h.ids,h.ups⟩
  | message a m => exact h
  | readError a => exact ⟨hb,h.ids,h.ups⟩
  | written a => exact ⟨hb,h.ids,h.ups⟩
  | writeError a => exact ⟨hb,h.ids,h.ups⟩
  | send => exact h
  | disconnect => exact ⟨hb,h.ids,h.ups⟩

theorem receive (a : Nat) : (s.receive a).Booked := by
  unfold Session.receive
  cases hnext : s.next a with
  | none => exact h
  | some x =>
    obtain ⟨n,m,down⟩ := x
    obtain ⟨c,hc,-,hr,-⟩ := next_cases hnext
    obtain ⟨hclient,-⟩ := s.machine.message_run m hc hr
    refine (h.setLink (n := n) (l := { s.links n with down := down }) fun _ hm => hm).keep
      (fun hb => ?_) rfl fun n m hm => .inl hm
    show (s.machine.message a m).client.Books s.issued
    rw [hclient]
    exact hb.handle (Client.handle_cases m s.machine.client)

theorem step (e : SessionEvent) (hl : s.issued.length < 2^64) : (s.step regex e).Booked := by
  cases e with
  | call r => exact h.call r hl
  | connection e => exact h.connection e
  | receive a => exact h.receive a
  | lose n up down =>
    simp only [Session.step,Session.lose]
    split
    · exact h.setLink fun m hm => List.mem_of_mem_take hm
    · exact h
  | accept n =>
    simp only [Session.step,Session.accept]
    split
    · exact (h.deliver _).setLink fun m hm => (SocketLink.answer_up _ _ _).symm ▸ hm
    · exact h
  | serve n =>
    simp only [Session.step,Session.serve]
    split
    · rename_i k m up hk hup
      refine (h.setLink fun m' hm' => ?_).deliver _
      rw [hup]
      exact List.mem_cons_of_mem m hm'
    · exact h
  | server e =>
    rcases s.server_cases regex e with he | ⟨-,he⟩
    · rw [Session.step,he]
      exact h
    · rw [Session.step,he]
      exact h.deliver _

end Booked

theorem live_of {s s' : Session} {c c' : Connection} (h : s.live c = true)
    (hsock : c'.sock = c.sock) (herr : c'.errors = c.errors)
    (hstop : c'.beginStoping = c.beginStoping) (hread : c.reading ≠ .idle → c'.reading ≠ .idle)
    (hlink : ∀ n, c.sock = some n → (s.links n).broken = false →
      (∀ k, (s.links n).place = some k → k ∉ s.log.server.closed) →
      (s'.links n).broken = false ∧
        ∀ k, (s'.links n).place = some k → k ∉ s'.log.server.closed) : s'.live c' = true := by
  obtain ⟨he,hs,hr,n,hn,hb,ho⟩ := live_iff.mp h
  exact live_iff.mpr ⟨herr.trans he,hstop.trans hs,hread hr,n,hsock.trans hn,hlink n hn hb ho⟩

/-- The client's requests are accounted for as before, where the current connection
stays live and its socket goes on carrying what it carries. -/
theorem NoOrphans.keep {s s' : Session} (h : s.NoOrphans)
    (hq : ∀ id ∈ s'.machine.client.queries, id ∈ s.machine.client.queries ∧
      (id ∈ s.machine.client.messagePool → id ∈ s'.machine.client.messagePool))
    (hr : s.machine.Reads s'.machine)
    (hlink : ∀ c ∈ s.current, ∀ n, c.sock = some n → (s.links n).broken = false →
      (∀ k, (s.links n).place = some k → k ∉ s.log.server.closed) →
      (s'.links n).broken = false ∧ ∀ k, (s'.links n).place = some k → k ∉ s'.log.server.closed)
    (hcarries : ∀ id ∈ s'.machine.client.queries, id ∉ s.machine.client.messagePool →
      ∀ c ∈ s.current, s.live c = true → ∀ n, c.sock = some n → (s.links n).Carries id →
        (s'.links n).Carries id) : s'.NoOrphans := by
  intro id hid
  obtain ⟨hid',hpool⟩ := hq id hid
  by_cases hp : id ∈ s.machine.client.messagePool
  · exact .inl (hpool hp)
  · obtain ⟨c,hc,hl,n,hn,ht⟩ := (h id hid').resolve_left hp
    obtain ⟨a,ha,hca⟩ := mem_current.mp hc
    obtain ⟨c',hca',hsock,herr,hstop,hread⟩ := hr.2 a ha c hca
    exact .inr ⟨c',mem_current.mpr ⟨a,hr.1.trans ha,hca'⟩,
      live_of hl hsock herr hstop hread (hlink c hc),n,hsock.trans hn,
      hcarries id hid hp c hc hl n hn ht⟩

theorem NoOrphans.of_pooled {s s' : Session} (h : s.machine.client.Pooled)
    (hq : s'.machine.client.queries = s.machine.client.queries)
    (hp : s'.machine.client.messagePool = s.machine.client.messagePool) : s'.NoOrphans := by
  intro id hid
  rw [hp]
  rw [hq] at hid
  exact .inl (h id (ExtTreeMap.mem_keys.mpr hid))

namespace NoOrphans

variable {regex : RegexCompiler} {s : Session} (h : s.NoOrphans)
include h

theorem connection (e : ConnectionEvent) (hcare : s.Careful (.connection e)) :
    (s.connection e).NoOrphans := by
  obtain ⟨a,b,hc⟩ := s.connection_client e
  by_cases hpooled : s.machine.client.Pooled
  · exact .of_pooled hpooled (by rw [hc]) (by rw [hc])
  · have hkeep : s.machine.Reads (s.connection e).machine → (s.connection e).links = s.links →
        (s.connection e).log = s.log → (s.connection e).NoOrphans := by
      intro hr hl hlog
      refine h.keep (fun id hid => ?_) hr (fun _ _ n _ hb ho => ?_) fun id _ _ _ _ _ n _ ht => ?_
      · rw [hc] at hid ⊢
        exact ⟨hid,fun hp => hp⟩
      · rw [hl,hlog]
        exact ⟨hb,ho⟩
      · rw [hl]
        exact ht
    cases e with
    | connected n =>
      rw [Session.connection]
      rcases s.connected_cases n with hs | ⟨-,hn,-⟩
      · rw [hs]
        exact h
      · exact absurd (hcare hn) hpooled
    | send => exact h
    | message a m => exact h
    | asyncConnect =>
      exact hkeep (AbstractClient.Harmless.reads (e := .asyncConnect) trivial) rfl rfl
    | connectError n =>
      exact hkeep (AbstractClient.Harmless.reads (e := .connectError n) trivial) rfl rfl
    | header a => exact hkeep (AbstractClient.Harmless.reads (e := .header a) trivial) rfl rfl
    | written a => exact hkeep (AbstractClient.Harmless.reads (e := .written a) trivial) rfl rfl
    | readError a =>
      have he : s.machine.Harmless (.readError a) := fun hcur => hpooled (hcare hcur)
      exact hkeep he.reads rfl rfl
    | writeError a =>
      have he : s.machine.Harmless (.writeError a) := by
        intro hcur c hca
        by_contra hw
        refine hpooled (hcare hcur fun c' hc' => ?_)
        obtain ⟨b,hb,hcb⟩ := mem_current.mp hc'
        obtain rfl : a = b := Option.some.inj (hcur.symm.trans hb)
        obtain rfl : c = c' := Option.some.inj (hca.symm.trans hcb)
        exact hw
      exact hkeep he.reads rfl rfl
    | disconnect =>
      have he : s.machine.Harmless .disconnect := by
        by_contra hs
        exact hpooled (hcare (Bool.eq_false_iff.mpr hs))
      exact hkeep he.reads rfl rfl

theorem call (r : Request) (hcare : s.Careful (.call r)) : (s.call r).NoOrphans := by
  unfold Session.call
  simp only
  split
  · exact h
  -- apart from the new request, the account is that of a client that only sends
  have hlink : ∀ n, (s.links n).broken = false →
      (∀ k, (s.links n).place = some k → k ∉ s.log.server.closed) →
      ((s.put (r.message s.machine.client.nextMessageId)).links n).broken = false ∧
        ∀ k, ((s.put (r.message s.machine.client.nextMessageId)).links n).place = some k →
          k ∉ (s.put (r.message s.machine.client.nextMessageId)).log.server.closed := by
    intro n hb ho
    rw [put_log,put_place]
    refine ⟨?_,ho⟩
    rcases s.put_links (r.message s.machine.client.nextMessageId) n with hl | hl
    · rw [hl]
      exact hb
    · rw [hl,SocketLink.send_broken]
      exact hb
  have hreads : s.machine.Reads { s.machine.send with client := s.machine.client } :=
    ⟨rfl,s.machine.send_reads.2⟩
  have hold : NoOrphans { s.put (r.message s.machine.client.nextMessageId) with
      machine := { s.machine.send with client := s.machine.client } } := by
    refine h.keep (fun id hid => ⟨hid,fun hp => hp⟩) hreads (fun _ _ n _ => hlink n)
      fun id _ _ _ _ _ n _ ht => ?_
    rcases s.put_links (r.message s.machine.client.nextMessageId) n with hl | hl
    · exact hl ▸ ht
    · exact hl ▸ ht.send _
  have hnew : s.machine.target.any (fun x => s.live x.2) = true →
      Traveling { s.put (r.message s.machine.client.nextMessageId) with
        machine := { s.machine.send with client := s.machine.client } }
        s.machine.client.nextMessageId := by
    intro ht
    obtain ⟨⟨a,c⟩,ht,hl⟩ := (Option.any_eq_true _ _).mp ht
    obtain ⟨ha,hca⟩ := AbstractClient.target_cases ht
    obtain ⟨c',hca',hsock,herr,hstop,hread⟩ := hreads.2 a ha c hca
    obtain ⟨-,-,-,n,hn,hb,-⟩ := live_iff.mp hl
    refine ⟨c',mem_current.mpr ⟨a,ha,hca'⟩,live_of hl hsock herr hstop hread fun n _ => hlink n,
      n,hsock.trans hn,?_⟩
    have hput : (s.put (r.message s.machine.client.nextMessageId)).links n =
        (s.links n).send (r.message s.machine.client.nextMessageId) := by
      have hn : c.sock = some n := hn
      simp only [Session.put,ht,hn,setLink_links,if_true]
    show ((s.put (r.message s.machine.client.nextMessageId)).links n).Carries _
    rw [hput]
    exact SocketLink.carries_send hb (r.requestId_message _)
  intro id hid
  rcases Client.mem_issue_queries.mp hid with rfl | hid
  · cases r with
    | publish settings data => exact .inl (ExtTreeMap.mem_insertIfNew.mpr (.inl (by simp)))
    | createQueue name => exact .inr (hnew hcare)
    | subscribe settings => exact .inr (hnew hcare)
    | unsubscribe qname => exact .inr (hnew hcare)
  · exact (hold id hid).imp_left (Client.issue_pool_kept r s.issued.length)

theorem receive (a : Nat) (hcare : s.Careful (.receive a)) : (s.receive a).NoOrphans := by
  unfold Session.receive
  cases hnext : s.next a with
  | none => exact h
  | some x =>
    obtain ⟨n,m,down⟩ := x
    obtain ⟨c,hc,hn,hr,hdown⟩ := next_cases hnext
    obtain ⟨hclient,hconn,-⟩ := s.machine.message_run m hc hr
    have hq : ∀ id ∈ (s.machine.message a m).client.queries, m ≠ .ok ⟨id⟩ ∧
        id ∈ s.machine.client.queries ∧
        (id ∈ s.machine.client.messagePool → id ∈ (s.machine.message a m).client.messagePool) := by
      rw [hclient]
      exact fun id hid => Client.handle_waiting hid
    have hasync : (s.machine.message a m).client.asyncConnection =
        s.machine.client.asyncConnection := by
      rw [hclient]
      exact (Client.handle_login m s.machine.client).2
    have hkeep : s.machine.Reads (s.machine.message a m) →
        NoOrphans { s.setLink n { s.links n with down := down } with
          machine := s.machine.message a m } := by
      intro hreads
      refine h.keep (fun id hid => (hq id hid).2) hreads (fun _ _ n' _ hb ho => ?_)
        fun id hid _ _ _ _ n' _ ht => ?_
      · rw [setLink_links]
        split
        · rename_i he
          rw [he] at hb ho
          exact ⟨hb,ho⟩
        · exact ⟨hb,ho⟩
      · rw [setLink_links]
        split
        · rename_i he
          rw [he] at ht
          refine ht.imp_right fun hm => ?_
          rw [hdown] at hm
          exact (List.mem_cons.mp hm).resolve_left fun he => (hq id hid).1 he.symm
        · exact ht
    by_cases hcur : s.machine.client.asyncConnection = some a
    · rcases hcare hcur with hon | hall
      · refine hkeep (.set hasync hconn hc fun _ => ⟨rfl,rfl,rfl,fun _ => ?_⟩)
        rw [readsOn,hnext] at hon
        rw [hn,if_pos hon]
        simp
      · -- the read ends, but what still waits is in the pool
        intro id hid
        obtain ⟨hne,hid',hpool⟩ := hq id hid
        refine .inl (hpool ((hall id (ExtTreeMap.mem_keys.mpr hid')).resolve_right fun hans => ?_))
        rw [answers,hnext] at hans
        split at hans
        · rename_i cs _ he
          cases he
          exact hne (by rw [← beq_iff_eq.mp hans])
        · cases hans
    · exact hkeep (.set hasync hconn hc fun ha => absurd ha hcur)

theorem lose (n up down : Nat) (hcare : s.Careful (.lose n up down)) :
    (s.lose n up down).NoOrphans := by
  unfold Session.lose
  split
  · rcases hcare with hn | hpooled
    · have hlink : ∀ c ∈ s.current, ∀ n', c.sock = some n' → ∀ l,
          (s.setLink n l).links n' = s.links n' := by
        intro c hc n' hn' l
        rw [setLink_links,if_neg]
        rintro rfl
        exact hn c hc hn'
      refine h.keep (fun id hid => ⟨hid,fun hp => hp⟩) (.of_eq rfl rfl)
        (fun c hc n' hn' hb ho => ?_)
        fun id _ _ c hc _ n' hn' ht => ?_
      · rw [hlink c hc n' hn']
        exact ⟨hb,ho⟩
      · rw [hlink c hc n' hn']
        exact ht
    · exact .of_pooled hpooled rfl rfl
  · exact h

theorem deliver {log : ServerLog} (hopen : ∀ c ∈ s.current, ∀ n, c.sock = some n →
      ∀ k, (s.links n).place = some k → k ∉ s.log.server.closed → k ∉ log.server.closed) :
    (s.deliver log).NoOrphans := by
  refine h.keep (fun id hid => ⟨hid,fun hp => hp⟩) (.of_eq rfl rfl) (fun c hc n hn hb ho => ?_)
    fun id _ _ c hc _ n hn ht => ?_
  · refine ⟨?_,fun k hk => ?_⟩
    · exact (SocketLink.answer_broken _ _ _).trans hb
    · have hk' : (s.links n).place = some k := (SocketLink.answer_place _ _ _).symm.trans hk
      exact hopen c hc n hn k hk' (ho k hk')
  · exact ht.answer _ _

theorem accept (hs : s.Sound) (n : Nat) : (s.accept regex n).NoOrphans := by
  unfold Session.accept
  split
  · rename_i hn
    have hclosed : ∀ k, k ∉ s.log.server.closed →
        k ∉ (s.log.step regex .accept).server.closed := fun k hk =>
      hs.counted.closed_step regex hk (by simp) (by simp)
    have hd : (s.deliver (s.log.step regex .accept)).NoOrphans :=
      h.deliver fun _ _ _ _ k _ hk => hclosed k hk
    have hsame : (s.deliver (s.log.step regex .accept)).links n = s.links n := by
      simp [Session.deliver,SocketLink.answer,hn.2]
    refine hd.keep (fun id hid => ⟨hid,fun hp => hp⟩) (.of_eq rfl rfl) (fun c _ n' _ hb ho => ?_)
      fun id _ _ _ _ _ n' _ ht => ?_
    · rw [setLink_links]
      split
      · rename_i he
        rw [he,hsame] at hb
        refine ⟨hb,fun k hk => ?_⟩
        -- the new connection has not been closed
        cases hk
        exact hclosed _ fun hc => Nat.lt_irrefl _ (hs.counted.closed _ hc)
      · exact ⟨hb,ho⟩
    · rw [setLink_links]
      split
      · rename_i he
        rw [he,hsame] at ht
        exact ht
      · exact ht
  · exact h

theorem server (hs : s.Sound) (e : ServerEvent) (hcare : s.Careful (.server e)) :
    (s.server regex e).NoOrphans := by
  rcases s.server_cases regex e with he | ⟨-,he⟩
  · rw [he]
    exact h
  rw [he]
  by_cases hpooled : s.machine.client.Pooled
  · exact .of_pooled hpooled rfl rfl
  · refine h.deliver fun c hc n hn k hk hopen => ?_
    by_cases hstop : e = .stopServer ∧ s.log.isStoped = false
    · obtain ⟨rfl,hrun⟩ := hstop
      rcases hcare with hst | hnone | hp
      · rw [hst] at hrun
        cases hrun
      · rw [hnone c hc n hn] at hk
        cases hk
      · exact absurd hp hpooled
    · refine hs.counted.closed_step regex hopen (fun herr => ?_) fun hst => ?_
      · subst herr
        rcases hcare with hne | hp
        · exact hne c hc n hn hk
        · exact hpooled hp
      · by_contra hrun
        exact hstop ⟨hst,Bool.eq_false_iff.mpr hrun⟩

theorem serve (hs : s.Sound) (hb : s.Booked) (n : Nat) : (s.serve regex n).NoOrphans := by
  unfold Session.serve
  split
  · rename_i k m up hk hup
    have hclosed : ∀ k', k' ∉ s.log.server.closed →
        k' ∉ (s.log.step regex (.message k (received m.wire))).server.closed := fun k' hk' =>
      hs.counted.closed_step regex hk' (by simp) (by simp)
    have hlinks : ∀ n', ((s.setLink n { s.links n with up := up }).links n').broken =
        (s.links n').broken ∧
        ((s.setLink n { s.links n with up := up }).links n').place = (s.links n').place := by
      intro n'
      rw [setLink_links]
      split
      · rename_i he
        rw [he]
        exact ⟨rfl,rfl⟩
      · exact ⟨rfl,rfl⟩
    refine h.keep (fun id hid => ⟨hid,fun hp => hp⟩) (.of_eq rfl rfl) (fun c _ n' _ hb ho => ?_)
      fun id hid hp c _ hl n' hn' ht => ?_
    · refine ⟨?_,fun k' hk' => ?_⟩
      · exact (SocketLink.answer_broken _ _ _).trans ((hlinks n').1.trans hb)
      · have hk'' := (SocketLink.answer_place _ _ _).symm.trans hk'
        exact hclosed k' (ho k' ((hlinks n').2.symm.trans hk''))
    · show (((s.setLink n { s.links n with up := up }).links n').answer _ _).Carries id
      rw [setLink_links]
      split
      · rename_i he
        subst he
        rcases ht with ⟨m',hm',hid'⟩ | ht
        · rw [hup] at hm'
          rcases List.mem_cons.mp hm' with rfl | hm'
          · -- the request itself is served, and its OK is sent
            obtain ⟨-,-,-,n,hn,hbroken,hopen⟩ := live_iff.mp hl
            obtain rfl : n' = n := Option.some.inj (hn'.symm.trans hn)
            have hmem : m' ∈ (s.links n').up := by simp [hup]
            have hans := hs.counted.answers regex ((hs.links n').placed k hk) (hopen k hk)
              ((hs.links n').sendable m' hmem) hid' (hb.not_publish hmem hid' hid hp)
            exact .inr (SocketLink.mem_answer_of hk hbroken hans)
          · have htail : SocketLink.Carries { s.links n' with up := up } id := .inl ⟨m',hm',hid'⟩
            exact htail.answer _ _
        · have htail : SocketLink.Carries { s.links n' with up := up } id := .inr ht
          exact htail.answer _ _
      · exact ht.answer _ _
  · exact h

theorem step (hs : s.Sound) (hb : s.Booked) (e : SessionEvent) (hcare : s.Careful e) :
    (s.step regex e).NoOrphans := by
  cases e with
  | call r => exact h.call r hcare
  | connection e => exact h.connection e hcare
  | receive a => exact h.receive a hcare
  | lose n up down => exact h.lose n up down hcare
  | accept n => exact h.accept hs n
  | serve n => exact h.serve hs hb n
  | server e => exact h.server hs e hcare

end NoOrphans

theorem NoOrphans.start (login : Str) (autoReconnection : Bool) (cache : ReCache) :
    (Session.start login autoReconnection cache).NoOrphans := by
  intro id hid
  simp [Session.start,AbstractClient.create,Client.create] at hid

theorem issued_step (regex : RegexCompiler) (s : Session) (e : SessionEvent) :
    s.issued.length ≤ (s.step regex e).issued.length := by
  have hsame : ∀ s' : Session, s'.issued = s.issued → s.issued.length ≤ s'.issued.length :=
    fun s' hi => Nat.le_of_eq (by rw [hi])
  cases e with
  | call r =>
    simp only [step,call]
    split
    · exact Nat.le_refl _
    · simp
  | connection e =>
    cases e with
    | connected n =>
      refine hsame _ ?_
      rw [step,connection]
      rcases s.connected_cases n with hs | ⟨-,-,hs⟩
      · rw [hs]
      · rw [hs,puts_issued]
    | asyncConnect => exact Nat.le_refl _
    | connectError n => exact Nat.le_refl _
    | header a => exact Nat.le_refl _
    | message a m => exact Nat.le_refl _
    | readError a => exact Nat.le_refl _
    | written a => exact Nat.le_refl _
    | writeError a => exact Nat.le_refl _
    | send => exact Nat.le_refl _
    | disconnect => exact Nat.le_refl _
  | receive a =>
    simp only [step,receive]
    split <;> exact Nat.le_refl _
  | lose n up down =>
    simp only [step,lose]
    split <;> exact Nat.le_refl _
  | accept n =>
    simp only [step,accept]
    split <;> exact Nat.le_refl _
  | serve n =>
    simp only [step,serve]
    split <;> exact Nat.le_refl _
  | server e =>
    rcases s.server_cases regex e with hs | ⟨-,hs⟩
    · exact hsame _ (by rw [step,hs])
    · exact hsame _ (by rw [step,hs]; rfl)

instance (s : Session) : ∀ e, Decidable (s.Careful e)
  | .call (.publish _ _) => isTrue trivial
  | .call (.createQueue _) | .call (.subscribe _) | .call (.unsubscribe _) =>
    inferInstanceAs (Decidable (s.machine.target.any (fun x => s.live x.2) = true))
  | .connection (.connected n) => inferInstanceAs
      (Decidable (n ∈ s.machine.connecting → s.machine.client.Pooled))
  | .connection (.readError a) => inferInstanceAs
      (Decidable (s.machine.client.asyncConnection = some a → s.machine.client.Pooled))
  | .connection (.writeError a) => inferInstanceAs
      (Decidable (s.machine.client.asyncConnection = some a →
        (∀ c ∈ s.current, c.writing ≠ 0) → s.machine.client.Pooled))
  | .connection .disconnect => inferInstanceAs
      (Decidable (s.machine.isStoped = false → s.machine.client.Pooled))
  | .receive a =>
    have := List.decidableBAll (fun id => id ∈ s.machine.client.messagePool ∨ s.answers a id = true)
      s.machine.client.queries.keys
    inferInstanceAs (Decidable (s.machine.client.asyncConnection = some a → s.readsOn a = true ∨ _))
  | .lose n _ _ => inferInstanceAs
      (Decidable ((∀ c ∈ s.current, c.sock ≠ some n) ∨ s.machine.client.Pooled))
  | .server (.error k) => inferInstanceAs
      (Decidable ((∀ c ∈ s.current, ∀ n ∈ c.sock, (s.links n).place ≠ some k) ∨
        s.machine.client.Pooled))
  | .server .stopServer => inferInstanceAs
      (Decidable (s.log.isStoped = true ∨
        (∀ c ∈ s.current, ∀ n ∈ c.sock, (s.links n).place = none) ∨ s.machine.client.Pooled))
  | .accept _ | .serve _ | .connection .asyncConnect | .connection (.connectError _)
  | .connection (.header _) | .connection (.message _ _) | .connection (.written _)
  | .connection .send | .server .accept | .server (.message _ _) | .server (.createQueue _)
  | .server (.subscribe _) | .server (.unsubscribe _) | .server (.publish _ _) => isTrue trivial

end Session

/-- A request that waits for its answer is in the pool, or it or its OK is on its
way on the current live connection, in every run in which requests other than
publishes are made on a live connection that is not given up before they are
answered. -/
theorem no_orphaned_requests (login : Str) (autoReconnection : Bool) (cache : ReCache)
    (regex : RegexCompiler) (events : List SessionEvent) {s : Session}
    (run : s = (Session.start login autoReconnection cache).run regex events)
    (careful : Runs.Along (Session.step regex) Session.Careful
      (Session.start login autoReconnection cache) events)
    (few : s.log.accepted.length < 2^31-1) (fewer : s.issued.length < 2^64) :
    ∀ id ∈ s.machine.client.queries, id ∈ s.machine.client.messagePool ∨ s.Traveling id := by
  have hinv : s.log.Few → s.issued.length < 2^64 → s.Sound ∧ s.Booked ∧ s.NoOrphans := by
    rw [run]
    refine careful.invariant
      (P := fun s => s.log.Few → s.issued.length < 2^64 → s.Sound ∧ s.Booked ∧ s.NoOrphans)
      (fun s e h hcare few fewer => ?_) fun _ _ => ⟨.start _ _ _,.start _ _ _,.start _ _ _⟩
    have fewer' : s.issued.length < 2^64 := Nat.lt_of_le_of_lt (s.issued_step regex e) fewer
    obtain ⟨hs,hb,ho⟩ := h (Session.few_of_step few) fewer'
    exact ⟨hs.step e few,hb.step e fewer',ho.step hs hb e hcare⟩
  exact (hinv few fewer).2.2

def publishThenCreate : List SessionEvent :=
  [.call (.publish ⟨[113],[]⟩ [1]),.connection .asyncConnect,.connection (.connected 0),
    .call (.createQueue [113]),.accept 0,.serve 0]

theorem no_orphaned_requests_publishThenCreate :
    ((Session.start [97] true ∅).run literal publishThenCreate).machine.client.queries.keys =
      [0,1] ∧
    ((Session.start [97] true ∅).run literal publishThenCreate).Traveling 1 := by
  have hkeys :
      ((Session.start [97] true ∅).run literal publishThenCreate).machine.client.queries.keys =
        [0,1] := by decide +kernel
  have hall := no_orphaned_requests [97] true ∅ literal publishThenCreate rfl (by decide +kernel)
    (by decide +kernel) (by decide +kernel) 1 (ExtTreeMap.mem_keys.mp (by rw [hkeys]; simp))
  exact ⟨hkeys,hall.resolve_left (by decide +kernel)⟩

/-- A queue that is created before the client connects: the frame is dropped, and
nothing sends it again. -/
theorem orphaned_createQueue :
    ¬ (∀ events : List SessionEvent,
      ∀ id ∈ ((Session.start [97] true ∅).run literal events).machine.client.queries,
        id ∈ ((Session.start [97] true ∅).run literal events).machine.client.messagePool ∨
        ((Session.start [97] true ∅).run literal events).Traveling id) := by
  intro h
  rcases h [.call (.createQueue [113])] 0 (by decide +kernel) with hp | ⟨c,hc,-⟩
  · exact absurd hp (by decide +kernel)
  · have hnone : ((Session.start [97] true ∅).run literal [.call (.createQueue [113])]).current =
        none := by decide +kernel
    rw [hnone] at hc
    cases hc

end Dqueue
