import Dqueue.Network
import Dqueue.Lib.Runs

/-!
What an OK means. The invariant ties the ids that a client has given out to the
frames and answers in flight on all its connections and to the requests that
the server has executed.
-/

set_option autoImplicit false

namespace Dqueue
open Std Effects RawMem Framing AsyncIO Queries

def Numbered (issued : List Message) : Prop :=
  ∀ k m, issued[k]? = some m → m.requestId = some (UInt64.ofNat k)

theorem Request.requestId_message (r : Request) (n : UInt64) :
    (r.message n).requestId = some n := by cases r <;> rfl

theorem Numbered.append {issued : List Message} (h : Numbered issued) (r : Request) :
    Numbered (issued ++ [r.message (UInt64.ofNat issued.length)]) := by
  intro k m hm
  rcases Nat.lt_trichotomy k issued.length with hk | rfl | hk
  · rw [List.getElem?_append_left hk] at hm
    exact h k m hm
  · simp at hm
    rw [← hm,Request.requestId_message]
  · rw [List.getElem?_eq_none (by simp; omega)] at hm
    cases hm

theorem Numbered.index {issued : List Message} (h : Numbered issued) (hl : issued.length < 2^64)
    {m : Message} (hm : m ∈ issued) {k : Nat} (hk : k < issued.length)
    (hid : m.requestId = some (UInt64.ofNat k)) : issued[k]? = some m := by
  obtain ⟨j,hj,rfl⟩ := List.mem_iff_getElem.mp hm
  have hjid := h j issued[j] (List.getElem?_eq_getElem hj)
  rw [hid,Option.some.injEq] at hjid
  rw [ofNat_inj (by omega) (by omega) hjid]
  exact List.getElem?_eq_getElem hj

structure Client.Books (issued : List Message) (c : Client) : Prop where
  next : c.nextMessageId = UInt64.ofNat issued.length
  pool : ∀ (n : UInt64) p, c.messagePool[n]? = some p → p.messageId = n ∧ .publish p ∈ issued
  unacked : ∀ p, .publish p ∈ issued → p.messageId ∉ c.handled →
    c.messagePool[p.messageId]? = some p
  queries : ∀ (n : UInt64) k, c.queries[n]? = some k → k < issued.length ∧ n = UInt64.ofNat k
  handled : ∀ n ∈ c.handled, (∃ k ∈ c.released, k < issued.length ∧ n = UInt64.ofNat k) ∧
    c.queries[n]? = none ∧ c.messagePool[n]? = none

theorem Client.Books.create (login : Str) : (Client.create login).Books [] where
  next := rfl
  pool n p h := by simp [Client.create] at h
  unacked p h := by cases h
  queries n k h := by simp [Client.create] at h
  handled n h := by cases h

theorem Client.Books.pool_next {issued : List Message} {c : Client} (h : c.Books issued)
    (ids : Numbered issued) (hl : issued.length < 2^64) :
    c.messagePool[UInt64.ofNat issued.length]? = none := by
  cases hp : c.messagePool[UInt64.ofNat issued.length]? with
  | none => rfl
  | some p =>
    obtain ⟨hid,hm⟩ := h.pool _ p hp
    obtain ⟨j,hj,he⟩ := List.mem_iff_getElem.mp hm
    have hjid := ids j _ (List.getElem?_eq_getElem hj)
    rw [he] at hjid
    have hjid' : p.messageId = UInt64.ofNat j := Option.some.inj hjid
    have hne := ofNat_inj (by omega) hl (hjid'.symm.trans hid)
    omega

theorem Client.issue_pool (c : Client) (r : Request) (locker : Nat)
    (hnew : c.messagePool[c.nextMessageId]? = none) (n : UInt64) (p : Publish) :
    (c.issue r locker).messagePool[n]? = some p ↔ c.messagePool[n]? = some p ∨
      (n = c.nextMessageId ∧ r.message c.nextMessageId = .publish p) := by
  cases r with
  | publish settings data =>
    simp only [Client.issue,Request.message,MemoryMessagePool.getElem?_append,Message.publish.injEq]
    by_cases hn : c.nextMessageId = n
    · subst hn
      simp [hnew]
    · simp [hn,Ne.symm hn]
  | createQueue name => simp [Client.issue,Request.message]
  | subscribe settings => simp [Client.issue,Request.message]
  | unsubscribe qname => simp [Client.issue,Request.message]

theorem Client.issue_queries (c : Client) (r : Request) (locker : Nat) (n : UInt64) :
    (c.issue r locker).queries[n]? =
      if c.nextMessageId = n then some locker else c.queries[n]? := by
  simp only [Client.issue,ExtTreeMap.getElem?_insert,LawfulEqCmp.compare_eq_iff_eq]

theorem Client.Books.issue {issued : List Message} {c : Client} (h : c.Books issued)
    (ids : Numbered issued) (hl : issued.length < 2^64) (r : Request) :
    (c.issue r issued.length).Books (issued ++ [r.message c.nextMessageId]) := by
  have hpool := c.issue_pool r issued.length (h.next ▸ h.pool_next ids hl)
  have hold : ∀ k, k < issued.length → UInt64.ofNat k ≠ c.nextMessageId := by
    intro k hk he
    rw [h.next] at he
    exact absurd (ofNat_inj (by omega) hl he) (by omega)
  constructor
  · show c.nextMessageId+1 = _
    simp [h.next,UInt64.ofNat_add]
  · intro n p hp
    rcases (hpool n p).mp hp with hp | ⟨rfl,hm⟩
    · obtain ⟨hid,hi⟩ := h.pool n p hp
      exact ⟨hid,by simp [hi]⟩
    · have hid := Request.requestId_message r c.nextMessageId
      rw [hm] at hid
      exact ⟨Option.some.inj hid,by simp [hm]⟩
  · intro p hp hh
    rw [hpool]
    rcases List.mem_append.mp hp with hp | hp
    · exact .inl (h.unacked p hp hh)
    · have hm := (List.mem_singleton.mp hp).symm
      have hid := Request.requestId_message r c.nextMessageId
      rw [hm] at hid
      exact .inr ⟨Option.some.inj hid,hm⟩
  · intro n k hq
    rw [Client.issue_queries] at hq
    split at hq
    · rename_i hn
      cases hq
      exact ⟨by simp,by rw [← hn,h.next]⟩
    · obtain ⟨hk,hn⟩ := h.queries n k hq
      exact ⟨by simp; omega,hn⟩
  · intro n hn
    obtain ⟨⟨k,hk,hkl,rfl⟩,hq,hp⟩ := h.handled n hn
    refine ⟨⟨k,hk,by simp; omega,rfl⟩,?_,?_⟩
    · rw [Client.issue_queries,if_neg (hold k hkl).symm,hq]
    · rw [Option.eq_none_iff_forall_ne_some]
      intro p hp'
      rcases (hpool _ p).mp hp' with hp' | ⟨he,-⟩
      · rw [hp] at hp'
        cases hp'
      · exact hold k hkl he

theorem Client.Books.congr {issued : List Message} {c c' : Client} (h : c.Books issued)
    (next : c'.nextMessageId = c.nextMessageId) (pool : c'.messagePool = c.messagePool)
    (queries : c'.queries = c.queries) (released : c'.released = c.released)
    (handled : c'.handled = c.handled) : c'.Books issued :=
  ⟨next.trans h.next,pool ▸ h.pool,by rw [pool,handled]; exact h.unacked,queries ▸ h.queries,
    by rw [handled,released,queries,pool]; exact h.handled⟩

theorem Client.Books.handle {issued : List Message} {c c' : Client} {m : Message}
    (h : c.Books issued) (hm : c.Handled m c') : c'.Books issued := by
  cases hm with
  | other pool queries next released handled =>
    exact h.congr next pool queries released handled
  | @ok cs _ locker known pool queries next released handled =>
    obtain ⟨hlt,hid⟩ := h.queries cs.id locker known
    constructor
    · exact next.trans h.next
    · intro n p hp
      rw [pool,ExtTreeMap.getElem?_erase] at hp
      split at hp
      · cases hp
      · exact h.pool n p hp
    · intro p hp hh
      rw [handled,List.mem_cons,not_or] at hh
      rw [pool,ExtTreeMap.getElem?_erase,
        if_neg (fun he => hh.1 (LawfulEqCmp.compare_eq_iff_eq.mp he).symm)]
      exact h.unacked p hp hh.2
    · intro n k hq
      rw [queries,ExtTreeMap.getElem?_erase] at hq
      split at hq
      · cases hq
      · exact h.queries n k hq
    · intro n hn
      rw [released,queries,pool,ExtTreeMap.getElem?_erase,ExtTreeMap.getElem?_erase]
      rw [handled,List.mem_cons] at hn
      rcases hn with rfl | hn
      · exact ⟨⟨locker,by simp,hlt,hid⟩,by simp,by simp⟩
      · obtain ⟨⟨k,hk,hkl,hkn⟩,hq,hp⟩ := h.handled n hn
        exact ⟨⟨k,by simp [hk],hkl,hkn⟩,by simp [hq],by simp [hp]⟩

def System.Executed (s : System) (m : Message) : Prop :=
  ∃ i, (i,m) ∈ s.server.executed ∧ (s.links i.socket).mine = true

/-- What the client sends: its login, and requests that it has issued. -/
def System.Asked (s : System) (m : Message) : Prop :=
  m.Sendable ∧ (m.requestId ≠ none → m ∈ s.issued)

/-- What the server sends to the client: an OK only for an executed request. -/
def System.Answered (s : System) (m : Message) : Prop :=
  m.Sendable ∧ ∀ n, m = .ok ⟨n⟩ → ∃ m' ∈ s.issued, m'.requestId = some n ∧ s.Executed m'

theorem System.Asked.mono {s s' : System} (hi : ∀ m ∈ s.issued, m ∈ s'.issued) (m : Message)
    (h : s.Asked m) : s'.Asked m :=
  ⟨h.1,fun hn => hi m (h.2 hn)⟩

theorem System.Answered.mono {s s' : System} (hi : ∀ m ∈ s.issued, m ∈ s'.issued)
    (he : ∀ m, s.Executed m → s'.Executed m) (m : Message) (h : s.Answered m) : s'.Answered m := by
  refine ⟨h.1,fun n hn => ?_⟩
  obtain ⟨m',hm',hid,hm''⟩ := h.2 n hn
  exact ⟨m',hi m' hm',hid,he m' hm''⟩

/-- The messages that a run of `onConnect` has still to resend. -/
def OnConnect.left : OnConnect → List Publish
  | .resend ps => ps
  | _ => []

structure System.Honest (s : System) : Prop where
  ids : Numbered s.issued
  books : s.client.Books s.issued
  released : ∀ k ∈ s.client.released, ∃ m, s.issued[k]? = some m ∧ s.Executed m
  returned : ∀ k ∈ s.returned, k ∈ s.client.released
  busy : ∀ m, s.busy = some m → m ∈ s.issued
  resend : ∀ t ∈ s.connects, ∀ p ∈ t.left, .publish p ∈ s.issued
  outbox : s.server.outbox = []
  executed : ∀ x ∈ s.server.executed, x.1.socket < s.opened ∧
    ((s.links x.1.socket).mine = true → x.2 ∈ s.issued)
  connection : ∀ k i, (s.links k).connection = some i → i.socket = k ∧ k < s.opened
  up : ∀ k, (s.links k).mine = true → (s.links k).up.Carries Message.wire s.Asked
  down : ∀ k, (s.links k).mine = true → (s.links k).down.Carries Message.wire s.Answered

theorem System.Honest.start (login : Str) (cache : ReCache) :
    (System.start login cache).Honest where
  ids k m h := by simp [System.start] at h
  books := .create login
  released k h := by cases h
  returned k h := by cases h
  busy m h := by cases h
  resend t h := by cases h
  outbox := rfl
  executed x h := by cases h
  connection k i h := by cases h
  up k h := by cases h
  down k h := by cases h

structure System.SameClient (s s' : System) : Prop where
  client : s'.client = s.client
  issued : s'.issued = s.issued
  connects : s'.connects = s.connects
  busy : s'.busy = s.busy

theorem System.clientSend_same {s s' : System} {m : Message} (h : s.clientSend m = some s') :
    s.SameClient s' := by
  unfold System.clientSend at h
  split at h
  · cases h
  · split at h <;> cases h <;> exact ⟨rfl,rfl,rfl,rfl⟩

namespace System.Honest

variable {s : System} (h : s.Honest)
include h

theorem setLink {k : Nat} {l : Link} (hm : l.mine = (s.links k).mine)
    (hc : ∀ i, l.connection = some i → i.socket = k ∧ k < s.opened)
    (hup : l.mine = true → l.up.Carries Message.wire s.Asked)
    (hdown : l.mine = true → l.down.Carries Message.wire s.Answered) : (s.setLink k l).Honest := by
  have hmine : ∀ j, ((s.setLink k l).links j).mine = (s.links j).mine := by
    intro j
    by_cases hj : j = k
    · subst hj
      simp [System.setLink,hm]
    · simp [System.setLink,hj]
  have hexec : (s.setLink k l).Executed = s.Executed := by
    funext m
    simp only [System.Executed,hmine]
    rfl
  have hans : (s.setLink k l).Answered = s.Answered := by
    funext m
    simp only [System.Answered,hexec]
    rfl
  have hask : (s.setLink k l).Asked = s.Asked := rfl
  refine ⟨h.ids,h.books,?_,h.returned,h.busy,h.resend,h.outbox,?_,?_,?_,?_⟩
  · rw [hexec]
    exact h.released
  · intro x hx
    rw [hmine]
    exact h.executed x hx
  · intro j i hi
    by_cases hj : j = k
    · subst hj
      simp only [System.setLink,Function.update_self] at hi
      exact hc i hi
    · simp only [System.setLink,Function.update_of_ne hj] at hi
      exact h.connection j i hi
  · intro j hj
    rw [hask]
    by_cases hjk : j = k
    · subst hjk
      simp only [System.setLink,Function.update_self] at hj ⊢
      exact hup hj
    · simp only [System.setLink,Function.update_of_ne hjk] at hj ⊢
      exact h.up j hj
  · intro j hj
    rw [hans]
    by_cases hjk : j = k
    · subst hjk
      simp only [System.setLink,Function.update_self] at hj ⊢
      exact hdown hj
    · simp only [System.setLink,Function.update_of_ne hjk] at hj ⊢
      exact h.down j hj

theorem clientSend {m : Message} {s' : System} (hs : s.clientSend m = some s')
    (hm : m.requestId ≠ none → m ∈ s.issued) : s'.Honest := by
  unfold System.clientSend at hs
  split at hs
  · cases hs
  · rename_i bytes he
    obtain ⟨hsend,rfl⟩ := Message.encode_ok he
    split at hs
    · cases hs
      exact h
    · rename_i k hk
      cases hs
      exact h.setLink rfl (fun i hi => h.connection k i hi)
        (fun hmine => (h.up k hmine).send ⟨hsend,hm⟩) (h.down k)

theorem call (r : Request) (ot : OperationType) (hl : s.issued.length < 2^64) :
    (s.call r ot).Honest := by
  unfold System.call
  split
  · exact h
  · have hmono : ∀ m ∈ s.issued, m ∈ s.issued ++ [r.message s.client.nextMessageId] :=
      fun m hm => by simp [hm]
    refine ⟨?_,h.books.issue h.ids hl r,?_,h.returned,?_,?_,h.outbox,?_,h.connection,?_,?_⟩
    · rw [h.books.next]
      exact h.ids.append r
    · intro k hk
      obtain ⟨m,hm,he⟩ := h.released k hk
      exact ⟨m,by rw [List.getElem?_append_left (List.getElem?_eq_some_iff.mp hm).1,hm],he⟩
    · intro m hm
      cases hm
      simp
    · exact fun t ht p hp => hmono _ (h.resend t ht p hp)
    · exact fun x hx => ⟨(h.executed x hx).1,fun hm => hmono _ ((h.executed x hx).2 hm)⟩
    · exact fun k hk => (h.up k hk).mono (System.Asked.mono hmono)
    · exact fun k hk => (h.down k hk).mono (System.Answered.mono hmono fun m he => he)

theorem transmit : s.transmit.Honest := by
  unfold System.transmit
  split
  · exact h
  · rename_i m hb
    split
    · exact h
    · rename_i s' hs
      have h' := h.clientSend hs fun _ => h.busy m hb
      exact ⟨h'.ids,h'.books,h'.released,h'.returned,by simp,h'.resend,h'.outbox,h'.executed,
        h'.connection,h'.up,h'.down⟩

theorem wake (locker : Nat) : (s.wake locker).Honest := by
  unfold System.wake
  split
  · rename_i hw
    refine ⟨h.ids,h.books,h.released,fun k hk => ?_,h.busy,h.resend,h.outbox,h.executed,
      h.connection,h.up,h.down⟩
    rcases List.mem_cons.mp hk with rfl | hk
    · exact hw.2
    · exact h.returned k hk
  · exact h

theorem openLink (mine : Bool) : (s.openLink mine).Honest := by
  -- connections that have executed anything are older than the new link
  have hold : ∀ k, k < s.opened → (s.openLink mine).links k = s.links k := fun k hk =>
    Function.update_of_ne (Nat.ne_of_lt hk) _ _
  have hexec : ∀ m, s.Executed m → (s.openLink mine).Executed m := by
    rintro m ⟨i,hi,hm⟩
    exact ⟨i,hi,by rw [hold _ (h.executed _ hi).1,hm]⟩
  have hnew : (s.openLink mine).links s.opened = Link.fresh mine := Function.update_self _ _ _
  have hother : ∀ k, k ≠ s.opened → (s.openLink mine).links k = s.links k := fun k hk =>
    Function.update_of_ne hk _ _
  refine ⟨h.ids,h.books,fun k hk => ?_,h.returned,h.busy,h.resend,h.outbox,?_,?_,?_,?_⟩
  · obtain ⟨m,hm,he⟩ := h.released k hk
    exact ⟨m,hm,hexec m he⟩
  · intro x hx
    rw [hold _ (h.executed x hx).1]
    exact ⟨Nat.lt_succ_of_lt (h.executed x hx).1,(h.executed x hx).2⟩
  · intro k i hi
    by_cases hk : k = s.opened
    · rw [hk,hnew] at hi
      cases hi
    · rw [hother k hk] at hi
      exact ⟨(h.connection k i hi).1,Nat.lt_succ_of_lt (h.connection k i hi).2⟩
  · intro k hm
    by_cases hk : k = s.opened
    · rw [hk,hnew]
      exact Pipe.carries_fresh
    · rw [hother k hk] at hm ⊢
      exact h.up k hm
  · intro k hm
    by_cases hk : k = s.opened
    · rw [hk,hnew]
      exact Pipe.carries_fresh
    · rw [hother k hk] at hm ⊢
      exact (h.down k hm).mono (System.Answered.mono (fun m hm => hm) hexec)

theorem setConnects {connects : List OnConnect}
    (hc : ∀ t ∈ connects, ∀ p ∈ t.left, .publish p ∈ s.issued) :
    System.Honest { s with connects := connects } :=
  ⟨h.ids,h.books,h.released,h.returned,h.busy,hc,h.outbox,h.executed,h.connection,h.up,h.down⟩

theorem setClient {c : Client} (hb : c.Books s.issued)
    (hr : ∀ k ∈ c.released, ∃ m, s.issued[k]? = some m ∧ s.Executed m)
    (hk : ∀ k ∈ s.client.released, k ∈ c.released) : System.Honest { s with client := c } :=
  ⟨h.ids,hb,hr,fun k hret => hk k (h.returned k hret),h.busy,h.resend,h.outbox,h.executed,
    h.connection,h.up,h.down⟩

theorem connected : s.connected.Honest := by
  have hlink := h.openLink true
  have hclient := hlink.setClient (c := { s.client with asyncConnection := some s.opened })
    (h.books.congr rfl rfl rfl rfl rfl) hlink.released fun _ hk => hk
  refine hclient.setConnects fun t ht p hp => ?_
  rcases List.mem_append.mp ht with ht | ht
  · exact h.resend t ht p hp
  · rw [List.mem_singleton.mp ht] at hp
    cases hp

theorem resend_set {k : Nat} {t' : OnConnect} (ht' : ∀ p ∈ t'.left, .publish p ∈ s.issued) :
    ∀ t ∈ s.connects.set k t', ∀ p ∈ t.left, .publish p ∈ s.issued := by
  intro t ht
  rcases List.mem_or_eq_of_mem_set ht with ht | rfl
  · exact h.resend t ht
  · exact ht'

theorem onConnect (k : Nat) (order : List Publish) : (s.onConnect k order).Honest := by
  unfold System.onConnect
  split
  · exact h
  · split
    · exact h
    · rename_i s' hs
      have h' := h.clientSend hs fun hn => absurd rfl hn
      have hclient := h'.setClient (c := { s'.client with loginConfirmed := false })
        (h'.books.congr rfl rfl rfl rfl rfl) h'.released fun _ hk => hk
      exact hclient.setConnects (h'.resend_set fun p hp => by cases hp)
  · split
    · rename_i hperm
      refine h.setConnects (h.resend_set fun p hp => ?_)
      obtain ⟨n,hn⟩ := MemoryMessagePool.mem_all ((List.isPerm_iff.mp hperm).mem_iff.mp hp)
      exact (h.books.pool n p hn).2
    · exact h
  · exact h
  · rename_i p left ht
    have hleft := h.resend _ (List.mem_of_getElem? ht)
    split
    · exact h
    · rename_i s' hs
      have h' := h.clientSend hs fun _ => hleft p (by simp [OnConnect.left])
      refine h'.setConnects (h'.resend_set fun p' hp' => ?_)
      rw [(System.clientSend_same hs).issued]
      exact hleft p' (by simpa [OnConnect.left] using .inr hp')

theorem handled {m : Message} {c : Client} (hl : s.issued.length < 2^64) (ha : s.Answered m)
    (hm : s.client.Handled m c) : System.Honest { s with client := c } := by
  have hb := h.books.handle hm
  cases hm with
  | other pool queries next released handled =>
    exact h.setClient hb (by rw [released]; exact h.released)
      (by rw [released]; exact fun _ hk => hk)
  | @ok cs _ locker known pool queries next released handled =>
    refine h.setClient hb (fun k hk => ?_) (fun k hk => by simp [released,hk])
    rw [released,List.mem_cons] at hk
    rcases hk with rfl | hk
    · obtain ⟨hlt,hid⟩ := h.books.queries cs.id k known
      obtain ⟨m,hm,hmid,he⟩ := ha.2 cs.id rfl
      exact ⟨m,h.ids.index hl hm hlt (hid ▸ hmid),he⟩
    · exact h.released k hk

theorem receive (k : Nat) (hl : s.issued.length < 2^64) : (s.receive k).Honest := by
  unfold System.receive
  split
  · rename_i d bytes hread
    split
    · rename_i hcond
      dsimp only
      split
      · have hmine : (s.links k).mine = true := by
          simp only [Bool.and_eq_true] at hcond
          exact hcond.1.1
        obtain ⟨m,ha,rfl,hrest⟩ :=
          (h.down k hmine).receive readNextAsync_frames (fun _ hm => hm.1) hread
        have hcases := Client.onNewMessage_cases ha.1 (received_frame m) s.client
        have h' := h.handled hl ha hcases
        exact h'.setLink rfl (fun i hi => h.connection k i hi) (h.up k) (fun _ => hrest)
      · exact h
    · exact h
  · exact h

end System.Honest

theorem System.flushTo_same (links : Nat → Link) (out : List (Nat × Message)) (k : Nat) :
    (System.flushTo links out k).mine = (links k).mine ∧
      (System.flushTo links out k).up = (links k).up ∧
      (System.flushTo links out k).connection = (links k).connection := by
  induction out generalizing links with
  | nil => exact ⟨rfl,rfl,rfl⟩
  | cons x out ih =>
    obtain ⟨j,m⟩ := x
    cases he : m.encode with
    | error f =>
      simp only [System.flushTo,he]
      exact ih links
    | ok bytes =>
      obtain ⟨h₁,h₂,h₃⟩ := ih (Function.update links j
        { links j with down := (links j).down.send bytes })
      simp only [System.flushTo,he,h₁,h₂,h₃]
      by_cases hk : k = j
      · subst hk
        simp
      · simp [hk]

theorem System.flushTo_down {good : Message → Prop} {links : Nat → Link}
    {out : List (Nat × Message)} {k : Nat} (hout : ∀ x ∈ out, x.1 = k → good x.2)
    (h : (links k).down.Carries Message.wire good) :
    (System.flushTo links out k).down.Carries Message.wire good := by
  induction out generalizing links with
  | nil => exact h
  | cons x out ih =>
    obtain ⟨j,m⟩ := x
    have hrest : ∀ x ∈ out, x.1 = k → good x.2 := fun x hx => hout x (by simp [hx])
    cases he : m.encode with
    | error f =>
      simp only [System.flushTo,he]
      exact ih hrest h
    | ok bytes =>
      obtain ⟨-,rfl⟩ := Message.encode_ok he
      simp only [System.flushTo,he]
      refine ih hrest ?_
      by_cases hk : k = j
      · subst hk
        simpa using h.send (hout (k,m) (by simp) rfl)
      · simpa [hk] using h

namespace System.Honest

variable {s : System} (h : s.Honest)
include h

theorem served {server : Server} {done : List (ClientConnection × Message)}
    (hr : s.server.Replies done server)
    (hdone : ∀ x ∈ done, x.1.socket < s.opened ∧ ((s.links x.1.socket).mine = true →
      x.2.requestId ≠ none → x.2 ∈ s.issued)) :
    (System.flush { s with server := server }).Honest := by
  obtain ⟨out,ho,hout⟩ := hr.outbox
  rw [h.outbox,List.nil_append] at ho
  have hmine : ∀ k, ((System.flush { s with server := server }).links k).mine = (s.links k).mine :=
    fun k => (System.flushTo_same s.links server.outbox k).1
  have hexec : ∀ x ∈ server.executed, x.1.socket < s.opened ∧
      ((s.links x.1.socket).mine = true → x.2 ∈ s.issued) := by
    intro x hx
    rcases hr.fresh x hx with hx | ⟨hx,hid⟩
    · exact h.executed x hx
    · exact ⟨(hdone x hx).1,fun hm => (hdone x hx).2 hm hid⟩
  have hkeep : ∀ m, s.Executed m → (System.flush { s with server := server }).Executed m := by
    rintro m ⟨i,hi,hm⟩
    exact ⟨i,hr.kept _ hi,by rw [hmine,hm]⟩
  refine ⟨h.ids,h.books,fun k hk => ?_,h.returned,h.busy,h.resend,rfl,?_,?_,?_,?_⟩
  · obtain ⟨m,hm,he⟩ := h.released k hk
    exact ⟨m,hm,hkeep m he⟩
  · intro x hx
    rw [hmine]
    exact hexec x hx
  · intro k i hi
    rw [show ((System.flush { s with server := server }).links k).connection =
      (s.links k).connection from (System.flushTo_same s.links server.outbox k).2.2] at hi
    exact h.connection k i hi
  · intro k hm
    rw [hmine] at hm
    rw [show ((System.flush { s with server := server }).links k).up =
      (s.links k).up from (System.flushTo_same s.links server.outbox k).2.1]
    exact h.up k hm
  · intro k hm
    rw [hmine] at hm
    refine System.flushTo_down (fun x hx hk => ?_)
      ((h.down k hm).mono (System.Answered.mono (fun m hm => hm) hkeep))
    rw [ho] at hx
    obtain ⟨hsend,hok⟩ := hout x hx
    refine ⟨hsend,fun n hn => ?_⟩
    obtain ⟨i,m,hi,hsock,hid⟩ := hok n hn
    have hlink : (s.links i.socket).mine = true := by rwa [hsock,hk]
    exact ⟨m,(hexec _ hi).2 hlink,hid,i,hi,by rw [hmine,hlink]⟩

theorem serve (regex : RegexCompiler) (k : Nat) : (s.serve regex k).Honest := by
  unfold System.serve
  split
  · rename_i i d bytes hc hread
    obtain ⟨hsock,hopen⟩ := h.connection k i hc
    dsimp only
    split
    · have hlink : ∀ goesOn, ((s.links k).mine = true →
          ((s.links k).up.rest bytes).Carries Message.wire s.Asked) →
          (s.setLink k ((s.links k).readUp bytes goesOn)).Honest := fun goesOn hup =>
        h.setLink rfl (h.connection k) hup (h.down k)
      by_cases hmine : (s.links k).mine = true
      · obtain ⟨m,ha,rfl,hrest⟩ :=
          (h.up k hmine).receive readNextAsync_frames (fun _ hm => hm.1) hread
        have hr : s.server.Replies [(i,m)] (final (Server.onNewMessage regex i (received m.wire)
            s.server)) := Server.onNewMessage_replies ha.1 (received_frame m) s.server
        refine (hlink _ fun _ => hrest).served hr fun x hx => ?_
        obtain rfl := List.mem_singleton.mp hx
        exact ⟨hsock ▸ hopen,fun _ => ha.2⟩
      · obtain ⟨done,hdone,hr⟩ := Server.onNewMessage_replies_any regex i d s.server
        refine (hlink _ fun hm => absurd hm hmine).served hr fun x hx => ?_
        rw [hdone x hx,hsock]
        exact ⟨hopen,fun hm => absurd (by simpa [System.setLink,Link.readUp] using hm) hmine⟩
    · exact h
  · exact h

theorem accept (regex : RegexCompiler) (k : Nat) : (s.accept regex k).Honest := by
  unfold System.accept
  split
  · rename_i hk
    have hlink := h.setLink (k := k) (l := { s.links k with
      connection := some ⟨s.server.nextClientId,k⟩ }) rfl
      (fun i hi => by cases hi; exact ⟨rfl,hk.1⟩) (h.up k) (h.down k)
    have hr : s.server.Replies [] (s.server.step regex (.accept k)) :=
      s.server.step_replies (by simp)
    exact hlink.served hr (by simp)
  · exact h

theorem close (regex : RegexCompiler) (k : Nat) : (s.close regex k).Honest := by
  unfold System.close
  split
  · exact h
  · exact h.served (s.server.step_replies (by simp)) (by simp)

theorem serverCall (regex : RegexCompiler) (call : ServerCall) :
    (s.serverCall regex call).Honest := by
  unfold System.serverCall
  split
  · exact h
  · exact h
  · exact h
  · rename_i hm _
    exact h.served (s.server.step_replies fun i m => hm i m) (by simp)

theorem peerSends (k : Nat) (bytes : Bytes) {regex : RegexCompiler} :
    (s.step regex (.peerSends k bytes)).Honest := by
  simp only [System.step]
  split
  · exact h
  · rename_i hmine
    exact h.setLink rfl (h.connection k) (fun hm => absurd hm hmine) (h.down k)

theorem step (regex : RegexCompiler) (e : SystemEvent) (hs : s.issued.length < 2^64) :
    (s.step regex e).Honest := by
  cases e with
  | call r ot => exact h.call r ot hs
  | transmit => exact h.transmit
  | wake locker => exact h.wake locker
  | connected => exact h.connected
  | onConnect k order => exact h.onConnect k order
  | networkError =>
    exact h.setClient (h.books.congr rfl rfl rfl rfl rfl) h.released fun _ hk => hk
  | receive k => exact h.receive k hs
  | accept k => exact h.accept regex k
  | serve k => exact h.serve regex k
  | close k => exact h.close regex k
  | serverCall call => exact h.serverCall regex call
  | loseUp k n =>
    exact h.setLink rfl (h.connection k) (fun hm => (h.up k hm).cut n) (h.down k)
  | loseDown k n =>
    exact h.setLink rfl (h.connection k) (h.up k) (fun hm => (h.down k hm).cut n)
  | peerConnects => exact h.openLink false
  | peerSends k bytes => exact h.peerSends k bytes

end System.Honest

theorem System.issued_send (s : System) (m : Message) (f : System → System)
    (hf : ∀ s', (f s').issued = s'.issued) :
    (match s.clientSend m with
      | none => s
      | some s' => f s').issued = s.issued := by
  cases hs : s.clientSend m with
  | none => rfl
  | some s' => exact (hf s').trans (System.clientSend_same hs).issued

theorem System.issued_step (s : System) (regex : RegexCompiler) (e : SystemEvent) :
    s.issued <+: (s.step regex e).issued := by
  have hsame : ∀ s' : System, s'.issued = s.issued → s.issued <+: s'.issued :=
    fun s' he => he ▸ List.prefix_rfl
  cases e with
  | call r ot =>
    simp only [System.step,System.call]
    split
    · exact List.prefix_rfl
    · exact List.prefix_append _ _
  | transmit =>
    refine hsame _ ?_
    simp only [System.step,System.transmit]
    split
    · rfl
    · exact s.issued_send _ (fun s' => { s' with busy := none }) fun _ => rfl
  | wake locker =>
    refine hsame _ ?_
    simp only [System.step,System.wake]
    split <;> rfl
  | connected => exact List.prefix_rfl
  | onConnect k order =>
    refine hsame _ ?_
    simp only [System.step,System.onConnect]
    split
    · rfl
    · exact s.issued_send _ (fun s' =>
        { s' with
          client := { s'.client with loginConfirmed := false }
          connects := s'.connects.set k .collect }) fun _ => rfl
    · split <;> rfl
    · rfl
    · exact s.issued_send _ (fun s' => { s' with connects := s'.connects.set k (.resend _) })
        fun _ => rfl
  | networkError => exact List.prefix_rfl
  | receive k =>
    refine hsame _ ?_
    simp only [System.step,System.receive]
    split
    · split
      · split <;> rfl
      · rfl
    · rfl
  | accept k =>
    refine hsame _ ?_
    simp only [System.step,System.accept]
    split <;> rfl
  | serve k =>
    refine hsame _ ?_
    simp only [System.step,System.serve]
    split
    · split <;> rfl
    · rfl
  | close k =>
    refine hsame _ ?_
    simp only [System.step,System.close]
    split <;> rfl
  | serverCall call => cases call <;> exact List.prefix_rfl
  | loseUp k n => exact List.prefix_rfl
  | loseDown k n => exact List.prefix_rfl
  | peerConnects => exact List.prefix_rfl
  | peerSends k bytes =>
    refine hsame _ ?_
    simp only [System.step]
    split <;> rfl

theorem System.run_honest (login : Str) (cache : ReCache) (regex : RegexCompiler)
    (events : List SystemEvent)
    (hl : ((System.start login cache).run regex events).issued.length < 2^64) :
    ((System.start login cache).run regex events).Honest := by
  refine Runs.invariant (P := fun s : System => s.issued.length < 2^64 → s.Honest)
    (fun s e h hl' => ?_) (fun _ => .start login cache) events hl
  have hs : s.issued.length < 2^64 := Nat.lt_of_le_of_lt (s.issued_step regex e).length_le hl'
  exact (h hs).step regex e hs

/-- An OK is handled only for an executed request, a publish stays in the pool
until then, and a caller that waits returns only after its own request was
executed. -/
theorem acknowledgement_sound (login : Str) (cache : ReCache) (regex : RegexCompiler)
    (events : List SystemEvent) {s : System}
    (run : s = (System.start login cache).run regex events) (few : s.issued.length < 2^64) :
    (∀ n ∈ s.client.handled, s.client.queries[n]? = none ∧ s.client.messagePool[n]? = none ∧
      ∃ m, s.issued[n.toNat]? = some m ∧ m.requestId = some n ∧ s.Executed m) ∧
    (∀ p, .publish p ∈ s.issued → p.messageId ∉ s.client.handled →
      s.client.messagePool[p.messageId]? = some p) ∧
    (∀ k ∈ s.returned, ∃ m, s.issued[k]? = some m ∧ s.Executed m) ∧
    (∀ p, .publish p ∈ s.issued →
      s.client.messagePool[p.messageId]? = some p ∨ s.Executed (.publish p)) := by
  have h : s.Honest := run ▸ System.run_honest login cache regex events (run ▸ few)
  have hdone : ∀ n ∈ s.client.handled,
      ∃ m, s.issued[n.toNat]? = some m ∧ m.requestId = some n ∧ s.Executed m := by
    intro n hn
    obtain ⟨⟨k,hk,hkl,rfl⟩,-,-⟩ := h.books.handled n hn
    obtain ⟨m,hm,he⟩ := h.released k hk
    rw [UInt64.toNat_ofNat_of_lt' (show k < 2^64 by omega)]
    exact ⟨m,hm,h.ids k m hm,he⟩
  refine ⟨fun n hn => ⟨(h.books.handled n hn).2.1,(h.books.handled n hn).2.2,hdone n hn⟩,
    h.books.unacked,fun k hk => h.released k (h.returned k hk),fun p hp => ?_⟩
  by_cases hn : p.messageId ∈ s.client.handled
  · right
    obtain ⟨m,hm,hid,he⟩ := hdone _ hn
    obtain ⟨hlt,-⟩ := List.getElem?_eq_some_iff.mp hm
    have hp' := h.ids.index few hp hlt (by
      rw [UInt64.ofNat_toNat]
      rfl)
    rw [hm] at hp'
    cases hp'
    exact he
  · exact .inl (h.books.unacked p hp hn)

/-- The answer to a publish is lost with its connection; the client sends the
message again on the next one and the caller returns. -/
def retried : List SystemEvent :=
  [.connected,.onConnect 0 [],.accept 0,.call (.publish ⟨[113],[]⟩ [7]) .Sync,.transmit,
    .serve 0,.serve 0,.loseDown 0 3,.connected,.onConnect 1 [],
    .onConnect 1 [⟨[113],[],0,[7]⟩],.onConnect 1 [],.accept 1,.serve 1,.serve 1,.receive 1,
    .receive 1,.wake 0]

theorem acknowledgement_sound_retried :
    ((System.start [97] ∅).run literal retried).returned = [0] ∧
      ∃ m, ((System.start [97] ∅).run literal retried).issued[0]? = some m ∧
        ((System.start [97] ∅).run literal retried).Executed m := by
  have hret : ((System.start [97] ∅).run literal retried).returned = [0] := by decide +kernel
  have hfew : ((System.start [97] ∅).run literal retried).issued.length < 2^64 := by decide +kernel
  exact ⟨hret,(acknowledgement_sound [97] ∅ literal retried rfl hfew).2.2.1 0 (by simp [hret])⟩

end Dqueue
