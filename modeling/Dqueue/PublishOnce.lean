import Dqueue.Transcript

/-!
A publish is written to the client's connection once, as long as the pool is
collected for the new connection before any of its messages has been sent there.
-/

set_option autoImplicit false

namespace Dqueue
open Std Effects RawMem Framing AsyncIO Queries

theorem Numbered.unique {issued : List Message} (h : Numbered issued) (hl : issued.length < 2^64)
    {m m' : Message} (hm : m ∈ issued) (hm' : m' ∈ issued) {n : UInt64}
    (hid : m.requestId = some n) (hid' : m'.requestId = some n) : m = m' := by
  obtain ⟨j,hj,he⟩ := List.mem_iff_getElem.mp hm'
  have hjid := h j m' (by rw [List.getElem?_eq_getElem hj,he])
  obtain rfl : n = UInt64.ofNat j := Option.some.inj (hid'.symm.trans hjid)
  have hget := h.index hl hm hj hid
  rw [List.getElem?_eq_getElem hj,he] at hget
  exact (Option.some.inj hget).symm

theorem Numbered.fresh {issued : List Message} (h : Numbered issued) (hl : issued.length < 2^64)
    {m : Message} (hm : m ∈ issued) : m.requestId ≠ some (UInt64.ofNat issued.length) := by
  intro hid
  obtain ⟨j,hj,he⟩ := List.mem_iff_getElem.mp hm
  have hjid := h j m (by rw [List.getElem?_eq_getElem hj,he])
  have hne := ofNat_inj (by omega) hl (Option.some.inj (hjid.symm.trans hid))
  omega

namespace Link

def Up (written : List Message) (executions : UInt64 → Nat) (l : Link) : Prop :=
  ∃ served ups, written = served ++ ups ∧ l.up.Queued Message.wire ups ∧
    ∀ n, executions n ≤ served.countP (Message.ofId n) ∧
      (l.serverReads = true → executions n = served.countP (Message.ofId n))

def Down (handled : List UInt64) (executions : UInt64 → Nat) (l : Link) : Prop :=
  ∃ downs, l.down.Queued Message.wire downs ∧
    (∀ m ∈ downs, m.Sendable ∧ m.kind ∈ [.PUBLISH,.OK,.LOGIN_CONFIRM]) ∧
    ∀ n, downs.count (.ok ⟨n⟩)+handled.count n ≤ executions n

variable {l : Link} {written : List Message} {handled : List UInt64} {executions : UInt64 → Nat}

theorem up_fresh (mine : Bool) (h : ∀ n, executions n = 0) : (Link.fresh mine).Up [] executions :=
  ⟨[],[],rfl,Pipe.queued_fresh,fun n => by simp [h]⟩

theorem down_fresh (mine : Bool) (h : ∀ n, executions n = 0) :
    (Link.fresh mine).Down [] executions :=
  ⟨[],Pipe.queued_fresh,by simp,fun n => by simp [h]⟩

theorem Up.send (h : l.Up written executions) (m : Message) :
    Up (written ++ [m]) executions { l with up := l.up.send m.wire } := by
  obtain ⟨served,ups,hw,hq,hn⟩ := h
  exact ⟨served,ups ++ [m],by rw [hw,List.append_assoc],hq.send m,hn⟩

theorem Up.le (h : l.Up written executions) (n : UInt64) :
    executions n ≤ written.countP (Message.ofId n) := by
  obtain ⟨served,ups,hw,-,hn⟩ := h
  rw [hw,List.countP_append]
  exact Nat.le_add_right_of_le (hn n).1

theorem Up.serve (h : l.Up written executions) (hs : ∀ m ∈ written, m.Sendable)
    {d : NetworkMessage} {bytes : Bytes} (hread : readNextAsync l.up.inFlight = .item d bytes) :
    ∃ m ∈ written, d = received m.wire ∧ ∀ (goesOn : Bool) (executions' : UInt64 → Nat),
      (∀ n, executions' n ≤ executions n+[m].countP (Message.ofId n)) →
      (l.serverReads = true → goesOn = true →
        ∀ n, executions' n = executions n+[m].countP (Message.ofId n)) → l.serverReads = true →
      (l.readUp bytes goesOn).Up written executions' := by
  obtain ⟨served,ups,hw,hq,hn⟩ := h
  obtain ⟨m,ups',rfl,hd,hq'⟩ := hq.receive readNextAsync_frames
    (fun m hm => hs m (by simp [hw,hm])) hread
  refine ⟨m,by simp [hw],hd,fun goesOn executions' hle heq hreads => ?_⟩
  refine ⟨served ++ [m],ups',by simp [hw],hq',fun n => ?_⟩
  rw [List.countP_append]
  refine ⟨Nat.le_trans (hle n) (Nat.add_le_add_right (hn n).1 _),fun hgo => ?_⟩
  rw [heq hreads hgo,(hn n).2 hreads]

theorem Down.receive (h : l.Down handled executions) {d : NetworkMessage} {bytes : Bytes}
    (hread : readNextAsync l.down.inFlight = .item d bytes) :
    ∃ m : Message, d = received m.wire ∧ m.Sendable ∧ m.kind ∈ [.PUBLISH,.OK,.LOGIN_CONFIRM] ∧
      (∀ n, m = .ok ⟨n⟩ → handled.count n < executions n) ∧
      ∀ (goesOn : Bool) (handled' : List UInt64),
        (∀ n, handled'.count n = handled.count n+[m].count (.ok ⟨n⟩)) →
        (l.readDown bytes goesOn).Down handled' executions := by
  obtain ⟨downs,hq,hgood,hn⟩ := h
  obtain ⟨m,downs',rfl,hd,hq'⟩ := hq.receive readNextAsync_frames (fun m hm => (hgood m hm).1) hread
  obtain ⟨hs,hk⟩ := hgood m (by simp)
  refine ⟨m,hd,hs,hk,fun n he => ?_,fun goesOn handled' hh => ?_⟩
  · have hle := hn n
    rw [he,List.count_cons_self] at hle
    omega
  · refine ⟨downs',hq',fun m' hm' => hgood m' (by simp [hm']),fun n => ?_⟩
    have hle := hn n
    rw [← List.singleton_append,List.count_append] at hle
    rw [hh]
    omega

end Link

theorem System.flushTo_queued {links : Nat → Link} {out : List (Nat × Message)} {k : Nat}
    (hout : ∀ x ∈ out, x.2.Sendable) {downs : List Message}
    (h : (links k).down.Queued Message.wire downs) :
    (System.flushTo links out k).down.Queued Message.wire
      (downs ++ (out.filter (fun x => x.1 == k)).map Prod.snd) := by
  induction out generalizing links downs with
  | nil => simpa [System.flushTo] using h
  | cons x out ih =>
    obtain ⟨j,m⟩ := x
    obtain ⟨nd,hnd,-⟩ := Message.toNetworkMessage_ok m (hout (j,m) (by simp))
    have henc : m.encode = .ok m.wire := by
      simp [Message.encode,hnd,Message.asBuffer_of_ok hnd,bind,Except.bind]
    have hrest : ∀ x ∈ out, x.2.Sendable := fun x hx => hout x (by simp [hx])
    simp only [System.flushTo,henc]
    by_cases hk : j = k
    · subst hk
      have hnext : (Function.update links j
          { links j with down := (links j).down.send m.wire } j).down.Queued Message.wire
            (downs ++ [m]) := by simpa using h.send m
      simpa using ih hrest hnext
    · have hnext : (Function.update links j
          { links j with down := (links j).down.send m.wire } k).down.Queued Message.wire
            downs := by
        simpa [Ne.symm hk] using h
      simpa [hk] using ih hrest hnext

theorem System.flushTo_reads (links : Nat → Link) (out : List (Nat × Message)) (k : Nat) :
    (System.flushTo links out k).serverReads = (links k).serverReads := by
  induction out generalizing links with
  | nil => rfl
  | cons x out ih =>
    obtain ⟨j,m⟩ := x
    cases he : m.encode with
    | error f =>
      simp only [System.flushTo,he]
      exact ih links
    | ok bytes =>
      simp only [System.flushTo,he,ih]
      by_cases hk : k = j
      · subst hk
        simp
      · simp [hk]

theorem count_filter_snd (out : List (Nat × Message)) (k : Nat) (m : Message) :
    ((out.filter (fun x => x.1 == k)).map Prod.snd).count m = out.count (k,m) := by
  induction out with
  | nil => rfl
  | cons x out ih =>
    obtain ⟨j,m'⟩ := x
    by_cases hk : j = k
    · subst hk
      simp [List.count_cons,ih]
    · simp [hk,ih]

theorem Link.Down.flush {s : System} {server : Server} {ex : List (ClientConnection × Message)}
    {handled : List UInt64} {k : Nat} (h : (s.links k).Down handled (s.executions k))
    (ho : s.server.outbox = []) (ha : s.server.Accounts ex server) :
    ((System.flush { s with server := server }).links k).Down handled
      ((System.flush { s with server := server }).executions k) := by
  obtain ⟨downs,hq,hgood,hn⟩ := h
  obtain ⟨out,hout,hsend,hcount⟩ := ha.outbox
  rw [ho,List.nil_append] at hout
  refine ⟨downs ++ (out.filter (fun x => x.1 == k)).map Prod.snd,?_,fun m hm => ?_,fun n => ?_⟩
  · have hlink := System.flushTo_queued (fun x hx => (hsend x hx).1) hq
    show (System.flushTo s.links server.outbox k).down.Queued _ _
    rw [hout]
    exact hlink
  · rcases List.mem_append.mp hm with hm | hm
    · exact hgood m hm
    · obtain ⟨x,hx,rfl⟩ := List.mem_map.mp hm
      exact hsend x (List.mem_of_mem_filter hx)
  · have hex : (System.flush { s with server := server }).executions k n =
        s.executions k n+ex.countP (Server.isRequest k n) := by
      show server.executed.countP _ = _
      rw [ha.executed,List.countP_append]
      rfl
    have h₁ := hn n
    have h₂ := hcount k n
    rw [hex,List.count_append,count_filter_snd]
    omega

theorem MemoryMessagePool.count_all {pool : MemoryMessagePool}
    (hid : ∀ (n : UInt64) p, pool[n]? = some p → p.messageId = n) (n : UInt64) :
    (pool.all.map .publish).countP (Message.ofId n) = if n ∈ pool then 1 else 0 := by
  have hkeys : pool.all.map Publish.messageId = pool.keys := by
    rw [MemoryMessagePool.all,List.map_map,← ExtTreeMap.map_fst_toList_eq_keys]
    refine List.map_congr_left fun x hx => ?_
    exact hid x.1 x.2 (ExtTreeMap.mem_toList_iff_getElem?_eq_some.mp hx)
  have hcount : (pool.all.map .publish).countP (Message.ofId n) = pool.keys.count n := by
    rw [← hkeys,List.count,List.countP_map,List.countP_map]
    refine List.countP_congr fun p _ => ?_
    simp [Message.ofId,Message.requestId]
  rw [hcount,ExtTreeMap.nodup_keys.count]
  simp only [ExtTreeMap.mem_keys]

theorem System.sends_cases {s s' : System} {m : Message} (h : s.clientSend m = some s') :
    m.Sendable ∧ (s.client.asyncConnection = none ∧ s' = s ∧ s.sends m = [] ∨
      ∃ k, s.client.asyncConnection = some k ∧ s.sends m = [m] ∧
        s' = s.setLink k { s.links k with up := (s.links k).up.send m.wire }) := by
  unfold System.clientSend at h
  split at h
  · cases h
  · rename_i bytes he
    obtain ⟨hs,rfl⟩ := Message.encode_ok he
    refine ⟨hs,?_⟩
    split at h
    · rename_i hc
      cases h
      exact .inl ⟨hc,rfl,by simp [System.sends,he,hc]⟩
    · rename_i k hc
      cases h
      exact .inr ⟨k,hc,by simp [System.sends,he,hc],rfl⟩

theorem System.sends_of_none {s : System} {m : Message} (h : s.clientSend m = none) :
    s.sends m = [] := by
  unfold System.clientSend at h
  unfold System.sends
  cases he : m.encode with
  | error f => rfl
  | ok bytes =>
    simp only [he] at h
    split at h <;> cases h

namespace Transcript

inductive Phase (t : Transcript) : Prop where
  | offline (connects : t.system.connects = []) (async : t.system.client.asyncConnection = none)
      (written : t.written = []) (handled : t.system.client.handled = [])
      (mine : ∀ k, (t.system.links k).mine = false)
  | online (c : OnConnect) (k : Nat) (connects : t.system.connects = [c])
      (async : t.system.client.asyncConnection = some k) (opened : k < t.system.opened)
      (mine : ∀ k', (t.system.links k').mine = true ↔ k' = k)

structure Once (t : Transcript) : Prop where
  phase : t.Phase
  issued : ∀ m ∈ t.written, m.Sendable ∧ (m.requestId ≠ none → m ∈ t.system.issued)
  tokens : ∀ n, t.tokens n ≤ 1
  unsent : ∀ p, .publish p ∈ t.system.issued → t.tokens p.messageId = 0 →
    ∀ ps, .resend ps ∉ t.system.connects
  waiting : ∀ m ∈ t.system.issued, ∀ n, m.requestId = some n → n ∉ t.system.client.handled →
    n ∈ t.system.client.queries
  up : ∀ k, (t.system.links k).mine = true →
    (t.system.links k).Up t.written (t.system.executions k)
  down : ∀ k, (t.system.links k).mine = true →
    (t.system.links k).Down t.system.client.handled (t.system.executions k)

theorem Once.start (login : Str) (cache : ReCache) : (Transcript.start login cache).Once where
  phase := .offline rfl rfl rfl rfl fun _ => rfl
  issued m h := by cases h
  tokens n := by simp [Transcript.start,Transcript.tokens,System.start,System.left]
  unsent p h := by cases h
  waiting m h := by cases h
  up k h := by cases h
  down k h := by cases h

namespace Once

variable {regex : RegexCompiler} {t : Transcript} (h : t.Once)
include h

theorem frame {s' : System} (hclient : s'.client = t.system.client)
    (hbusy : s'.busy = t.system.busy) (hconnects : s'.connects = t.system.connects)
    (hissued : s'.issued = t.system.issued) (hopened : t.system.opened ≤ s'.opened)
    (hmine : ∀ k, (s'.links k).mine = (t.system.links k).mine)
    (hup : ∀ k, (t.system.links k).mine = true → (s'.links k).Up t.written (s'.executions k))
    (hdown : ∀ k, (t.system.links k).mine = true →
      (s'.links k).Down t.system.client.handled (s'.executions k)) :
    Once ⟨s',t.written⟩ where
  phase := by
    cases h.phase with
    | offline connects async written handled mine =>
      exact .offline (hconnects.trans connects) (hclient ▸ async) written (hclient ▸ handled)
        fun k => (hmine k).trans (mine k)
    | online c k connects async opened mine =>
      exact .online c k (hconnects.trans connects) (hclient ▸ async)
        (Nat.lt_of_lt_of_le opened hopened) fun k' => by rw [hmine]; exact mine k'
  issued m hm := by
    rw [hissued]
    exact h.issued m hm
  tokens n := by
    have ht := h.tokens n
    simpa only [Transcript.tokens,System.left,hbusy,hconnects] using ht
  unsent p hp ht := by
    rw [hissued] at hp
    rw [hconnects]
    refine h.unsent p hp ?_
    simpa only [Transcript.tokens,System.left,hbusy,hconnects] using ht
  waiting m hm n hn hh := by
    rw [hissued] at hm
    rw [hclient] at hh ⊢
    exact h.waiting m hm n hn hh
  up k hk := hup k ((hmine k).symm.trans hk)
  down k hk := by
    rw [hclient]
    exact hdown k ((hmine k).symm.trans hk)

theorem only {k k' : Nat} (hk : (t.system.links k).mine = true)
    (hk' : (t.system.links k').mine = true) : k' = k := by
  cases h.phase with
  | offline connects async written handled mine =>
    rw [mine] at hk
    cases hk
  | online c k₀ connects async opened mine => rw [(mine k').mp hk',(mine k).mp hk]

theorem setLink {k : Nat} {l : Link} (hm : l.mine = (t.system.links k).mine)
    (hl : l.mine = true → l.up = (t.system.links k).up ∧ l.down = (t.system.links k).down ∧
      l.serverReads = (t.system.links k).serverReads) :
    Once ⟨t.system.setLink k l,t.written⟩ := by
  have hlink : ∀ k', ((t.system.setLink k l).links k') = if k' = k then l else t.system.links k' :=
    Function.update_apply t.system.links k l
  refine h.frame rfl rfl rfl rfl (Nat.le_refl _) (fun k' => ?_) (fun k' hk' => ?_) fun k' hk' => ?_
  · rw [hlink]
    split
    · rename_i he
      rw [he,hm]
    · rfl
  · have hup := h.up k' hk'
    rw [hlink]
    split
    · rename_i he
      subst he
      obtain ⟨h₁,-,h₃⟩ := hl (hm.trans hk')
      unfold Link.Up
      rw [h₁,h₃]
      exact hup
    · exact hup
  · have hdown := h.down k' hk'
    rw [hlink]
    split
    · rename_i he
      subst he
      obtain ⟨-,h₂,-⟩ := hl (hm.trans hk')
      unfold Link.Down
      rw [h₂]
      exact hdown
    · exact hdown

theorem served {server : Server} {ex : List (ClientConnection × Message)}
    (ho : t.system.server.outbox = []) (ha : t.system.server.Accounts ex server)
    (hex : ∀ k, (t.system.links k).mine = true → ∀ n, ex.countP (Server.isRequest k n) = 0) :
    Once ⟨System.flush { t.system with server := server },t.written⟩ := by
  have hsame : ∀ k, (System.flushTo t.system.links server.outbox k).mine = (t.system.links k).mine ∧
      (System.flushTo t.system.links server.outbox k).up = (t.system.links k).up ∧
      (System.flushTo t.system.links server.outbox k).connection = (t.system.links k).connection :=
    System.flushTo_same t.system.links server.outbox
  refine h.frame rfl rfl rfl rfl (Nat.le_refl _) (fun k => (hsame k).1) (fun k hk => ?_) fun k hk =>
    (h.down k hk).flush ho ha
  have hexec : (System.flush { t.system with server := server }).executions k =
      t.system.executions k := by
    funext n
    show server.executed.countP _ = _
    rw [ha.executed,List.countP_append,hex k hk n]
    rfl
  obtain ⟨served,ups,hw,hq,hn⟩ := h.up k hk
  refine ⟨served,ups,hw,?_,fun n => ?_⟩
  · show (System.flushTo t.system.links server.outbox k).up.Queued _ _
    rw [(hsame k).2.1]
    exact hq
  · rw [hexec]
    refine ⟨(hn n).1,fun hr => (hn n).2 ?_⟩
    rwa [show ((System.flush { t.system with server := server }).links k).serverReads =
      (t.system.links k).serverReads from System.flushTo_reads _ _ k] at hr

theorem served_own {k : Nat} {l : Link} {server : Server} {ex : List (ClientConnection × Message)}
    (hk : (t.system.links k).mine = true) (hm : l.mine = true)
    (hd : l.down = (t.system.links k).down) (ho : t.system.server.outbox = [])
    (ha : t.system.server.Accounts ex server)
    (hup : l.Up t.written (fun n => server.executed.countP (Server.isRequest k n))) :
    Once ⟨System.flush { t.system.setLink k l with server := server },t.written⟩ := by
  have hlink : ∀ k', ((t.system.setLink k l).links k') = if k' = k then l else t.system.links k' :=
    Function.update_apply t.system.links k l
  have hsame := System.flushTo_same (t.system.setLink k l).links server.outbox
  refine h.frame rfl rfl rfl rfl (Nat.le_refl _) (fun k' => ?_) (fun k' hk' => ?_) fun k' hk' => ?_
  · refine (hsame k').1.trans ?_
    rw [hlink]
    split
    · rename_i he
      rw [he,hm,hk]
    · rfl
  · obtain rfl := h.only hk hk'
    obtain ⟨served,ups,hw,hq,hn⟩ := hup
    refine ⟨served,ups,hw,?_,fun n => ⟨(hn n).1,fun hr => (hn n).2 ?_⟩⟩
    · show (System.flushTo (t.system.setLink k' l).links server.outbox k').up.Queued _ _
      rw [(hsame k').2.1,hlink,if_pos rfl]
      exact hq
    · have hr' : (System.flushTo (t.system.setLink k' l).links server.outbox
          k').serverReads = true := hr
      rwa [System.flushTo_reads,hlink,if_pos rfl] at hr'
  · obtain rfl := h.only hk hk'
    have hdown : ((t.system.setLink k' l).links k').Down t.system.client.handled
        ((t.system.setLink k' l).executions k') := by
      rw [hlink,if_pos rfl]
      unfold Link.Down
      rw [hd]
      exact h.down k' hk
    exact hdown.flush ho ha

theorem accept (ho : t.system.server.outbox = []) (k : Nat) :
    Once ⟨t.system.accept regex k,t.written⟩ := by
  unfold System.accept
  split
  · have hlink := h.setLink (k := k) (l := { t.system.links k with
      connection := some ⟨t.system.server.nextClientId,k⟩ }) rfl fun _ => ⟨rfl,rfl,rfl⟩
    have ha : t.system.server.Accounts [] (t.system.server.step regex (.accept k)) :=
      t.system.server.step_accounts (by simp)
    exact hlink.served ho ha fun _ _ _ => rfl
  · exact h

theorem close (ho : t.system.server.outbox = []) (k : Nat) :
    Once ⟨t.system.close regex k,t.written⟩ := by
  unfold System.close
  split
  · exact h
  · exact h.served ho (t.system.server.step_accounts (by simp)) fun _ _ _ => rfl

theorem serverCall (ho : t.system.server.outbox = []) (call : ServerCall) :
    Once ⟨t.system.serverCall regex call,t.written⟩ := by
  unfold System.serverCall
  split
  · exact h
  · exact h
  · exact h
  · rename_i hm _
    exact h.served ho (t.system.server.step_accounts fun i m => hm i m) fun _ _ _ => rfl

theorem peerConnects : Once ⟨t.system.openLink false,t.written⟩ := by
  have hnew : (t.system.links t.system.opened).mine = false := by
    cases h.phase with
    | offline connects async written handled mine => exact mine _
    | online c k connects async opened mine =>
      rw [Bool.eq_false_iff]
      intro hm
      have hk := (mine t.system.opened).mp hm
      omega
  have hlink : ∀ k, ((t.system.openLink false).links k) =
      if k = t.system.opened then Link.fresh false else t.system.links k :=
    Function.update_apply t.system.links t.system.opened (Link.fresh false)
  have hother : ∀ k, (t.system.links k).mine = true →
      (t.system.openLink false).links k = t.system.links k := by
    intro k hk
    rw [hlink,if_neg]
    rintro rfl
    rw [hnew] at hk
    cases hk
  refine h.frame rfl rfl rfl rfl (Nat.le_succ _) (fun k => ?_) (fun k hk => ?_) fun k hk => ?_
  · rw [hlink]
    split
    · rename_i he
      rw [he,hnew]
      rfl
    · rfl
  · rw [hother k hk]
    exact h.up k hk
  · rw [hother k hk]
    exact h.down k hk

theorem serve (hh : t.system.Honest) (k : Nat) : Once ⟨t.system.serve regex k,t.written⟩ := by
  unfold System.serve
  split
  · rename_i i d bytes hc hread
    obtain ⟨hsock,-⟩ := hh.connection k i hc
    dsimp only
    split
    · rename_i hcond
      have hreads : (t.system.links k).serverReads = true := by
        simp only [Bool.and_eq_true] at hcond
        exact hcond.1
      by_cases hmine : (t.system.links k).mine = true
      · obtain ⟨m,hm,rfl,hserve⟩ := (h.up k hmine).serve (fun m hm => (h.issued m hm).1) hread
        obtain ⟨ex,ha,hex,hok⟩ := Server.wire_accounts regex (h.issued m hm).1 i
          t.system.server
        have hcount : ∀ n, [(i,m)].countP (Server.isRequest k n) = [m].countP (Message.ofId n) := by
          simp [List.countP_singleton,Server.isRequest,Message.ofId,hsock]
        have hlink : ((t.system.links k).readUp bytes (Effects.thrown (Server.onNewMessage regex i
            (received m.wire) t.system.server)).isNone).Up t.written (fun n =>
              (final (Server.onNewMessage regex i (received m.wire)
                t.system.server)).executed.countP
                (Server.isRequest k n)) := by
          refine hserve _ _ (fun n => ?_) (fun _ hgo n => ?_) hreads
          · rw [ha.executed,List.countP_append]
            refine Nat.add_le_add_left ?_ _
            rcases hex with rfl | rfl
            · exact Nat.zero_le _
            · exact Nat.le_of_eq (hcount n)
          · rw [ha.executed,List.countP_append]
            refine congrArg (t.system.executions k n+·) ?_
            by_cases hid : m.requestId = none
            · have hnot : ∀ n, [m].countP (Message.ofId n) = 0 := by simp [Message.ofId,hid]
              rcases hex with rfl | rfl
              · exact (hnot n).symm
              · exact hcount n
            · rw [hok (Option.isNone_iff_eq_none.mp hgo) hid]
              exact hcount n
        exact h.served_own hmine hmine rfl hh.outbox ha hlink
      · have hlink : ∀ goesOn, Once ⟨t.system.setLink k
            ((t.system.links k).readUp bytes goesOn),t.written⟩ := fun goesOn =>
          h.setLink rfl fun hm => absurd hm hmine
        obtain ⟨ex,ha,hex⟩ : ∃ ex, t.system.server.Accounts ex
            (final (Server.onNewMessage regex i d t.system.server)) ∧ ∀ x ∈ ex, x.1 = i := by
          rcases Server.onNewMessage_final regex i d t.system.server with hf | ⟨m,-,hf⟩
          · rw [hf]
            exact ⟨[],.of_eq rfl rfl,by simp⟩
          · obtain ⟨ex,ha,hex,-⟩ := Server.handle_accounts regex i m t.system.server
            rw [hf]
            refine ⟨ex,ha,fun x hx => ?_⟩
            rcases hex with rfl | rfl
            · cases hx
            · rw [List.mem_singleton.mp hx]
        refine (hlink _).served hh.outbox ha fun k' hk' n => ?_
        rw [List.countP_eq_zero]
        intro x hx hreq
        simp only [Server.isRequest,Bool.and_eq_true,beq_iff_eq] at hreq
        rw [hex x hx,hsock] at hreq
        obtain ⟨rfl,-⟩ := hreq
        exact hmine (by simpa [System.setLink,Link.readUp] using hk')
    · exact h
  · exact h

theorem written_le (n : UInt64) : t.written.countP (Message.ofId n) ≤ 1 := by
  have htok := h.tokens n
  unfold Transcript.tokens at htok
  omega

theorem owed {k : Nat} (hk : (t.system.links k).mine = true) {n : UInt64}
    (hn : t.system.client.handled.count n < t.system.executions k n) :
    n ∈ t.system.client.queries := by
  have hle := (h.up k hk).le n
  have htok := h.tokens n
  have hpos : 0 < t.written.countP (Message.ofId n) := by omega
  have hwritten : t.written.countP (Message.ofId n) ≤ t.tokens n := by
    unfold Transcript.tokens
    omega
  have hhandled : n ∉ t.system.client.handled := List.count_eq_zero.mp (by omega)
  obtain ⟨m,hm,hid⟩ := List.countP_pos_iff.mp hpos
  have hid' : m.requestId = some n := by simpa [Message.ofId] using hid
  exact h.waiting m ((h.issued m hm).2 (by simp [hid'])) n hid' hhandled

theorem receive_run {k : Nat} (hk : (t.system.links k).mine = true) {d : NetworkMessage}
    {bytes : Bytes} (hread : readNextAsync (t.system.links k).down.inFlight = .item d bytes) :
    ∃ c, Client.onNewMessage d t.system.client = .ok () c ∧
      c.asyncConnection = t.system.client.asyncConnection ∧
      (∀ n, n ∈ t.system.client.queries → n ∉ c.handled → n ∈ c.queries) ∧
      (∀ n ∈ t.system.client.handled, n ∈ c.handled) ∧
      ∀ goesOn, ((t.system.links k).readDown bytes goesOn).Down c.handled
        (t.system.executions k) := by
  obtain ⟨m,rfl,hs,hkind,howed,hdown⟩ := (h.down k hk).receive hread
  have hrun : Client.onNewMessage (received m.wire) t.system.client =
      Client.handle m t.system.client := by
    simp only [Client.onNewMessage,bind_apply,get_apply,Message.ofFrame_run hs (received_frame m),
      hkind,if_true]
  rw [hrun]
  cases m with
  | ok cs =>
    obtain ⟨locker,hlocker⟩ := Option.isSome_iff_exists.mp
      (ExtTreeMap.mem_iff_isSome_getElem?.mp (h.owed hk (howed cs.id rfl)))
    simp only [Client.handle,bind_apply,get_apply,hlocker]
    refine ⟨_,rfl,rfl,fun n hn hnh => ?_,fun n hn => List.mem_cons_of_mem _ hn,
      fun goesOn => hdown goesOn _ fun n => ?_⟩
    · have hne : n ≠ cs.id := fun he => hnh (by simp [he])
      exact ExtTreeMap.mem_erase.mpr ⟨by simpa using hne.symm,hn⟩
    · rw [List.count_cons,List.count_singleton]
      by_cases he : cs.id = n
      · subst he
        simp
      · have hne : Message.ok cs ≠ .ok ⟨n⟩ := fun hok => he (by cases hok; rfl)
        simp [he,hne]
  | publish cs =>
    exact ⟨_,rfl,rfl,fun n hn _ => hn,fun n hn => hn,fun goesOn =>
      hdown goesOn _ fun n => by simp⟩
  | loginConfirm lc =>
    exact ⟨_,rfl,rfl,fun n hn _ => hn,fun n hn => hn,fun goesOn =>
      hdown goesOn _ fun n => by simp⟩
  | login q => simp [Message.kind] at hkind
  | createQueue q => simp [Message.kind] at hkind
  | subscribe q => simp [Message.kind] at hkind
  | unsubscribe q => simp [Message.kind] at hkind

theorem receive (k : Nat) : Once ⟨t.system.receive k,t.written⟩ := by
  unfold System.receive
  split
  · rename_i d bytes hread
    split
    · rename_i hcond
      have hk : (t.system.links k).mine = true := by
        simp only [Bool.and_eq_true] at hcond
        exact hcond.1.1
      obtain ⟨c,hrun,hasync,hqueries,hhandled,hdown⟩ := h.receive_run hk hread
      simp only [hrun,defined,if_true,final,Effects.thrown,Option.isNone_none]
      have hlink : ∀ k', Function.update t.system.links k
          ((t.system.links k).readDown bytes true) k' =
          if k' = k then (t.system.links k).readDown bytes true else t.system.links k' :=
        Function.update_apply _ _ _
      have hmine : ∀ k', (Function.update t.system.links k
          ((t.system.links k).readDown bytes true) k').mine = (t.system.links k').mine := by
        intro k'
        rw [hlink]
        split
        · rename_i he
          rw [he]
          rfl
        · rfl
      have hphase := h.phase
      refine ⟨?_,h.issued,h.tokens,h.unsent,fun m hm n hn hnh => ?_,
        fun k' hk' => ?_,fun k' hk' => ?_⟩
      · cases hphase with
        | offline connects async written handled mine =>
          rw [mine] at hk
          cases hk
        | online o k₀ connects async opened mine =>
          exact .online o k₀ connects (hasync.trans async) opened fun k' => by
            rw [← mine k',← hmine k']
            rfl
      · exact hqueries n (h.waiting m hm n hn fun hin => hnh (hhandled n hin)) hnh
      · have hk'' := (hmine k').symm.trans hk'
        obtain rfl := h.only hk hk''
        show (Function.update t.system.links k' _ k').Up _ _
        rw [hlink,if_pos rfl]
        exact h.up k' hk
      · have hk'' := (hmine k').symm.trans hk'
        obtain rfl := h.only hk hk''
        show (Function.update t.system.links k' _ k').Down _ _
        rw [hlink,if_pos rfl]
        exact hdown true
    · exact h
  · exact h

theorem handled_of_tokens {n : UInt64} (hn : t.tokens n = 0) : n ∉ t.system.client.handled := by
  cases h.phase with
  | offline connects async written handled mine => simp [handled]
  | online c k connects async opened mine =>
    have hk := (mine k).mpr rfl
    obtain ⟨downs,-,-,hdown⟩ := h.down k hk
    have hle := (h.up k hk).le n
    have hcount := hdown n
    have hwritten : t.written.countP (Message.ofId n) ≤ t.tokens n := by
      unfold Transcript.tokens
      omega
    exact List.count_eq_zero.mp (by omega)

theorem tokens_next (hh : t.system.Honest) (hl : t.system.issued.length < 2^64)
    (hb : t.system.busy = none) : t.tokens t.system.client.nextMessageId = 0 := by
  have hnew : ∀ m ∈ t.system.issued, ¬ m.ofId t.system.client.nextMessageId = true := by
    intro m hm
    rw [Message.ofId,beq_iff_eq,hh.books.next]
    exact hh.ids.fresh hl hm
  have hwritten : t.written.countP (Message.ofId t.system.client.nextMessageId) = 0 := by
    refine List.countP_eq_zero.mpr fun m hm hid => ?_
    have hid' : m.requestId = some t.system.client.nextMessageId := by
      simpa [Message.ofId] using hid
    exact hnew m ((h.issued m hm).2 (by simp [hid'])) hid
  have hleft : t.system.left.countP (Message.ofId t.system.client.nextMessageId) = 0 := by
    refine List.countP_eq_zero.mpr fun m hm => ?_
    obtain ⟨c,hc,hm⟩ := List.mem_flatMap.mp hm
    obtain ⟨p,hp,rfl⟩ := List.mem_map.mp hm
    exact hnew _ (hh.resend c hc p hp)
  simp [Transcript.tokens,hwritten,hleft,hb]

theorem call (hh : t.system.Honest) (hl : t.system.issued.length < 2^64) (r : Request)
    (ot : OperationType) : Once ⟨t.system.call r ot,t.written⟩ := by
  unfold System.call
  split
  · exact h
  · rename_i hb
    have hb' : t.system.busy = none := by simpa using hb
    have hnext := h.tokens_next hh hl hb'
    have hid := r.requestId_message t.system.client.nextMessageId
    have htok : ∀ n, Transcript.tokens ⟨{ t.system with
        client := t.system.client.issue r t.system.issued.length
        busy := some (r.message t.system.client.nextMessageId)
        waiting := if r.waits ot then t.system.issued.length :: t.system.waiting
          else t.system.waiting
        issued := t.system.issued ++ [r.message t.system.client.nextMessageId] },t.written⟩ n =
          t.tokens n+if t.system.client.nextMessageId = n then 1 else 0 := by
      intro n
      simp [Transcript.tokens,System.left,hb',Message.ofId,hid]
    refine ⟨?_,fun m hm => ⟨(h.issued m hm).1,fun hn => ?_⟩,fun n => ?_,fun p hp hn => ?_,
      fun m hm n hn hnh => ?_,h.up,h.down⟩
    · cases h.phase with
      | offline connects async written handled mine =>
        exact .offline connects async written handled mine
      | online c k connects async opened mine => exact .online c k connects async opened mine
    · exact List.mem_append_left _ ((h.issued m hm).2 hn)
    · rw [htok]
      split
      · rename_i he
        rw [← he,hnext]
      · exact h.tokens n
    · rw [htok] at hn
      rcases List.mem_append.mp hp with hp | hp
      · exact h.unsent p hp (by omega)
      · rw [← List.mem_singleton.mp hp] at hid
        rw [if_pos (Option.some.inj hid).symm] at hn
        omega
    · rw [ExtTreeMap.mem_iff_isSome_getElem?,Client.issue_queries]
      split
      · rfl
      · rename_i hne
        rw [← ExtTreeMap.mem_iff_isSome_getElem?]
        rcases List.mem_append.mp hm with hm | hm
        · exact h.waiting m hm n hn hnh
        · rw [List.mem_singleton.mp hm,hid] at hn
          exact absurd (Option.some.inj hn) hne

theorem sent {m : Message} {s' : System} (hs : t.system.clientSend m = some s')
    (hm : m.requestId ≠ none → m ∈ t.system.issued) (confirmed : Bool) {busy : Option Message}
    {connects : List OnConnect} (hlen : connects.length = t.system.connects.length)
    (hleft : ∀ n, [m].countP (Message.ofId n)+
      (connects.flatMap (fun c => c.left.map .publish)).countP (Message.ofId n)+
      busy.toList.countP (Message.ofId n) =
        t.system.left.countP (Message.ofId n)+t.system.busy.toList.countP (Message.ofId n))
    (hresend : ∀ ps, .resend ps ∈ connects → ∃ ps', .resend ps' ∈ t.system.connects) :
    Once ⟨{ s' with
      client := { s'.client with loginConfirmed := confirmed }
      busy := busy
      connects := connects },t.written ++ t.system.sends m⟩ := by
  obtain ⟨hsend,⟨hasync,rfl,hnone⟩ | ⟨k,hasync,hone,rfl⟩⟩ := System.sends_cases hs
  · -- without a connection the message is lost
    rw [hnone,List.append_nil]
    cases h.phase with
    | online c k connects async opened mine =>
      rw [hasync] at async
      cases async
    | offline connects async written handled mine =>
      rw [connects,List.length_nil,List.length_eq_zero_iff] at hlen
      subst hlen
      refine ⟨.offline rfl async written handled mine,h.issued,fun n => ?_,by simp,h.waiting,h.up,
        h.down⟩
      have ht := h.tokens n
      have hn := hleft n
      simp only [Transcript.tokens,System.left] at ht hn ⊢
      omega
  · have hlink : ∀ k', ((t.system.setLink k { t.system.links k with
        up := (t.system.links k).up.send m.wire }).links k') = if k' = k then
          { t.system.links k with up := (t.system.links k).up.send m.wire }
          else t.system.links k' :=
      Function.update_apply _ _ _
    have hmine : ∀ k', ((t.system.setLink k { t.system.links k with
        up := (t.system.links k).up.send m.wire }).links k').mine = (t.system.links k').mine := by
      intro k'
      rw [hlink]
      split
      · rename_i he
        rw [he]
      · rfl
    have htok : ∀ n, (t.written ++ [m]).countP (Message.ofId n)+
        (connects.flatMap (fun c => c.left.map .publish)).countP (Message.ofId n)+
        busy.toList.countP (Message.ofId n) = t.tokens n := by
      intro n
      have hn := hleft n
      rw [List.countP_append]
      simp only [Transcript.tokens]
      omega
    rw [hone]
    cases h.phase with
    | offline connects async written handled mine =>
      rw [hasync] at async
      cases async
    | online c k₀ connects async opened mine =>
      obtain rfl : k = k₀ := Option.some.inj (hasync.symm.trans async)
      have hk := (mine k).mpr rfl
      rw [connects] at hlen
      obtain ⟨c',rfl⟩ := List.length_eq_one_iff.mp hlen
      refine ⟨.online c' k rfl async opened fun k' => ?_,fun m' hm' => ?_,
        fun n => (htok n).trans_le (h.tokens n),fun p hp hn ps hps => ?_,h.waiting,
        fun k' hk' => ?_,fun k' hk' => ?_⟩
      · rw [← mine k',← hmine k']
      · rcases List.mem_append.mp hm' with hm' | hm'
        · exact h.issued m' hm'
        · rw [List.mem_singleton.mp hm']
          exact ⟨hsend,hm⟩
      · obtain ⟨ps',hps'⟩ := hresend ps hps
        exact h.unsent p hp ((htok _).symm.trans hn) ps' hps'
      · obtain rfl := h.only hk ((hmine k').symm.trans hk')
        have hup := (h.up k' hk).send m
        show ((t.system.setLink k' _).links k').Up _ _
        rw [hlink,if_pos rfl]
        exact hup
      · obtain rfl := h.only hk ((hmine k').symm.trans hk')
        show ((t.system.setLink k' _).links k').Down _ _
        rw [hlink,if_pos rfl]
        exact h.down k' hk

theorem transmit (hh : t.system.Honest) :
    Once ⟨t.system.transmit,t.written ++ t.system.writes .transmit⟩ := by
  cases hb : t.system.busy with
  | none =>
    have hwrites : t.system.writes .transmit = [] := by simp [System.writes,hb]
    have hsame : t.system.transmit = t.system := by simp [System.transmit,hb]
    rw [hwrites,hsame,List.append_nil]
    exact h
  | some m =>
    have hwrites : t.system.writes .transmit = t.system.sends m := by simp [System.writes,hb]
    rw [hwrites]
    cases hs : t.system.clientSend m with
    | none =>
      have hsame : t.system.transmit = t.system := by simp [System.transmit,hb,hs]
      rw [hsame,System.sends_of_none hs,List.append_nil]
      exact h
    | some s' =>
      have hsent : t.system.transmit = { s' with busy := none } := by simp [System.transmit,hb,hs]
      have hsame := (System.clientSend_same hs).connects
      rw [hsent]
      refine h.sent hs (fun _ => hh.busy m hb) s'.client.loginConfirmed
        (by rw [hsame]) (fun n => ?_) fun ps hps => ⟨ps,hsame ▸ hps⟩
      rw [hsame]
      simp [System.left,hb,Nat.add_comm]

theorem wake (locker : Nat) : Once ⟨t.system.wake locker,t.written⟩ := by
  unfold System.wake
  split
  · exact h.frame rfl rfl rfl rfl (Nat.le_refl _) (fun _ => rfl) h.up h.down
  · exact h

theorem connected (hh : t.system.Honest) (hc : t.system.connects = []) :
    Once ⟨t.system.connected,t.written⟩ := by
  cases h.phase with
  | online c k connects async opened mine =>
    rw [hc] at connects
    cases connects
  | offline connects async written handled mine =>
    have hlink : ∀ k, t.system.connected.links k =
        if k = t.system.opened then Link.fresh true else t.system.links k :=
      Function.update_apply _ _ _
    have hmine : ∀ k, (t.system.connected.links k).mine = true ↔ k = t.system.opened := by
      intro k
      rw [hlink]
      split
      · rename_i he
        simp [he,Link.fresh]
      · rename_i hne
        simp [mine,hne]
    have hnone : ∀ n, t.system.connected.executions t.system.opened n = 0 := by
      refine fun n => List.countP_eq_zero.mpr fun x hx hreq => ?_
      have hlt := (hh.executed x hx).1
      simp only [Server.isRequest,Bool.and_eq_true,beq_iff_eq] at hreq
      omega
    have hleft : t.system.connected.left = t.system.left := by
      simp [System.left,System.connected,System.openLink,hc,OnConnect.left]
    have htok : ∀ n, Transcript.tokens ⟨t.system.connected,t.written⟩ n = t.tokens n := by
      intro n
      simp only [Transcript.tokens,hleft]
      rfl
    refine ⟨.online .login t.system.opened ?_ rfl (Nat.lt_succ_self _) hmine,h.issued,fun n => ?_,
      fun p hp hn ps hps => ?_,h.waiting,fun k hk => ?_,fun k hk => ?_⟩
    · show t.system.connects ++ [.login] = _
      rw [hc,List.nil_append]
    · rw [htok]
      exact h.tokens n
    · have hps' : OnConnect.resend ps ∈ t.system.connects ++ [.login] := hps
      rw [hc] at hps'
      simp at hps'
    · obtain rfl := (hmine k).mp hk
      show (t.system.connected.links _).Up t.written _
      rw [hlink,if_pos rfl,written]
      exact Link.up_fresh true hnone
    · obtain rfl := (hmine k).mp hk
      show (t.system.connected.links _).Down t.system.client.handled _
      rw [hlink,if_pos rfl,handled]
      exact Link.down_fresh true hnone

theorem connects_of_getElem? {k : Nat} {c : OnConnect} (hk : t.system.connects[k]? = some c) :
    t.system.connects = [c] ∧ k = 0 := by
  cases h.phase with
  | offline connects async written handled mine =>
    rw [connects] at hk
    cases hk
  | online c' k' connects async opened mine =>
    rw [connects] at hk ⊢
    obtain ⟨hlt,he⟩ := List.getElem?_eq_some_iff.mp hk
    obtain rfl : k = 0 := by simpa using hlt
    exact ⟨congrArg ([·]) he,rfl⟩

theorem tokens_of_apart (hh : t.system.Honest) (hl : t.system.issued.length < 2^64)
    (hc : t.system.connects = [.collect]) {p : Publish} (hp : .publish p ∈ t.system.issued)
    (hw : .publish p ∉ t.written) (hb : t.system.busy ≠ some (.publish p)) :
    t.tokens p.messageId = 0 := by
  have hunique : ∀ m ∈ t.system.issued, m.ofId p.messageId = true → m = .publish p := by
    intro m hm hid
    exact hh.ids.unique hl hm hp (by simpa [Message.ofId] using hid) rfl
  have hwritten : t.written.countP (Message.ofId p.messageId) = 0 := by
    refine List.countP_eq_zero.mpr fun m hm hid => hw ?_
    have hid' : m.requestId = some p.messageId := by simpa [Message.ofId] using hid
    rw [← hunique m ((h.issued m hm).2 (by simp [hid'])) hid]
    exact hm
  have hbusy : t.system.busy.toList.countP (Message.ofId p.messageId) = 0 := by
    refine List.countP_eq_zero.mpr fun m hm hid => hb ?_
    have hm' := Option.mem_toList.mp hm
    rw [← hunique m (hh.busy m hm') hid]
    exact hm'
  simp [Transcript.tokens,System.left,hwritten,hbusy,hc,OnConnect.left]

theorem collect (hh : t.system.Honest) (hl : t.system.issued.length < 2^64)
    (hc : t.system.connects = [.collect]) {order : List Publish}
    (hperm : order.Perm t.system.client.messagePool.all)
    (hapart : ∀ p ∈ t.system.client.messagePool.all,
      .publish p ∉ t.written ∧ t.system.busy ≠ some (.publish p)) :
    Once ⟨{ t.system with connects := [.resend order] },t.written⟩ := by
  have hpool := hh.books.pool
  have htok : ∀ n, Transcript.tokens ⟨{ t.system with connects := [.resend order] },t.written⟩ n =
      t.tokens n+if n ∈ t.system.client.messagePool then 1 else 0 := by
    intro n
    rw [← MemoryMessagePool.count_all fun n p hp => (hpool n p hp).1,
      ← (hperm.map Message.publish).countP_eq]
    simp [Transcript.tokens,System.left,hc,OnConnect.left]
    omega
  have hnew : ∀ n ∈ t.system.client.messagePool, t.tokens n = 0 := by
    intro n hn
    obtain ⟨p,hp⟩ := Option.isSome_iff_exists.mp (ExtTreeMap.mem_iff_isSome_getElem?.mp hn)
    obtain ⟨rfl,hi⟩ := hpool n p hp
    have hall : p ∈ t.system.client.messagePool.all :=
      List.mem_map.mpr ⟨(p.messageId,p),ExtTreeMap.mem_toList_iff_getElem?_eq_some.mpr hp,rfl⟩
    exact h.tokens_of_apart hh hl hc hi (hapart p hall).1 (hapart p hall).2
  refine ⟨?_,h.issued,fun n => ?_,fun p hp hn => ?_,h.waiting,h.up,h.down⟩
  · cases h.phase with
    | offline connects async written handled mine =>
      rw [hc] at connects
      cases connects
    | online c k connects async opened mine => exact .online (.resend order) k rfl async opened mine
  · rw [htok]
    split
    · rename_i hin
      rw [hnew n hin]
    · exact h.tokens n
  · -- what has no token is in the pool, so it has one now
    rw [htok] at hn
    have hin : p.messageId ∈ t.system.client.messagePool := by
      rw [ExtTreeMap.mem_iff_isSome_getElem?,
        hh.books.unacked p hp (h.handled_of_tokens (by omega))]
      rfl
    rw [if_pos hin] at hn
    omega

theorem onConnect (hh : t.system.Honest) (hl : t.system.issued.length < 2^64) {k : Nat}
    {order : List Publish} (ha : t.Apart (.onConnect k order)) :
    Once ⟨t.system.onConnect k order,t.written ++ t.system.writes (.onConnect k order)⟩ := by
  cases hk : t.system.connects[k]? with
  | none =>
    have hwrites : t.system.writes (.onConnect k order) = [] := by simp [System.writes,hk]
    have hsame : t.system.onConnect k order = t.system := by simp [System.onConnect,hk]
    rw [hwrites,hsame,List.append_nil]
    exact h
  | some c =>
    obtain ⟨hc,rfl⟩ := h.connects_of_getElem? hk
    cases c with
    | login =>
      have hwrites : t.system.writes (.onConnect 0 order) =
          t.system.sends (.login ⟨t.system.client.login⟩) := by simp [System.writes,hc]
      rw [hwrites]
      cases hs : t.system.clientSend (.login ⟨t.system.client.login⟩) with
      | none =>
        have hsame : t.system.onConnect 0 order = t.system := by simp [System.onConnect,hc,hs]
        rw [hsame,System.sends_of_none hs,List.append_nil]
        exact h
      | some s' =>
        have hsent : t.system.onConnect 0 order = { s' with
            client := { s'.client with loginConfirmed := false }
            connects := [.collect] } := by
          simp [System.onConnect,hc,hs,(System.clientSend_same hs).connects]
        have hbusy := (System.clientSend_same hs).busy
        rw [hsent]
        refine h.sent hs (fun hn => absurd rfl hn) false (by simp [hc]) (fun n => ?_) (by simp)
        simp [System.left,hc,hbusy,OnConnect.left,Message.ofId,Message.requestId]
    | collect =>
      have hwrites : t.system.writes (.onConnect 0 order) = [] := by simp [System.writes,hc]
      rw [hwrites,List.append_nil]
      by_cases hperm : order.isPerm t.system.client.messagePool.all = true
      · have hcollect : t.system.onConnect 0 order =
            { t.system with connects := [.resend order] } := by
          simp [System.onConnect,hc,hperm]
        rw [hcollect]
        exact h.collect hh hl hc (List.isPerm_iff.mp hperm) (ha hk)
      · have hsame : t.system.onConnect 0 order = t.system := by simp [System.onConnect,hc,hperm]
        rw [hsame]
        exact h
    | resend ps =>
      cases ps with
      | nil =>
        have hwrites : t.system.writes (.onConnect 0 order) = [] := by simp [System.writes,hc]
        have hsame : t.system.onConnect 0 order = t.system := by simp [System.onConnect,hc]
        rw [hwrites,hsame,List.append_nil]
        exact h
      | cons p left =>
        have hwrites : t.system.writes (.onConnect 0 order) = t.system.sends (.publish p) := by
          simp [System.writes,hc]
        rw [hwrites]
        cases hs : t.system.clientSend (.publish p) with
        | none =>
          have hsame : t.system.onConnect 0 order = t.system := by simp [System.onConnect,hc,hs]
          rw [hsame,System.sends_of_none hs,List.append_nil]
          exact h
        | some s' =>
          have hsent : t.system.onConnect 0 order = { s' with connects := [.resend left] } := by
            simp [System.onConnect,hc,hs,(System.clientSend_same hs).connects]
          have hbusy := (System.clientSend_same hs).busy
          have hissued : .publish p ∈ t.system.issued :=
            hh.resend (.resend (p :: left)) (by simp [hc]) p (by simp [OnConnect.left])
          rw [hsent]
          refine h.sent hs (fun _ => hissued) s'.client.loginConfirmed (by simp [hc])
            (fun n => ?_) fun _ _ => ⟨p :: left,by simp [hc]⟩
          simp only [System.left,hc,hbusy,OnConnect.left,List.flatMap_singleton,List.map_cons,
            List.countP_cons,List.countP_nil]
          omega

theorem step (hh : t.system.Honest) (hl : t.system.issued.length < 2^64) {e : SystemEvent}
    (hc : t.system.Calm e) (ha : t.Apart e) : (t.step regex e).Once := by
  -- most steps write nothing
  have hquiet : t.system.writes e = [] → Once ⟨t.system.step regex e,t.written⟩ →
      (t.step regex e).Once := by
    intro hw h'
    rwa [Transcript.step,hw,List.append_nil]
  have hlost : ∀ {k : Nat} {l : Link}, (t.system.links k).mine = false →
      l.mine = (t.system.links k).mine → Once ⟨t.system.setLink k l,t.written⟩ := by
    intro k l hk hm
    exact h.setLink hm fun hl => by simp [hm,hk] at hl
  cases e with
  | call r ot => exact hquiet rfl (h.call hh hl r ot)
  | transmit => exact h.transmit hh
  | wake locker => exact hquiet rfl (h.wake locker)
  | connected => exact hquiet rfl (h.connected hh hc)
  | onConnect k order => exact h.onConnect hh hl ha
  | networkError => exact absurd hc id
  | receive k => exact hquiet rfl (h.receive k)
  | accept k => exact hquiet rfl (h.accept hh.outbox k)
  | serve k => exact hquiet rfl (h.serve hh k)
  | close k => exact hquiet rfl (h.close hh.outbox k)
  | serverCall call => exact hquiet rfl (h.serverCall hh.outbox call)
  | loseUp k n => exact hquiet rfl (hlost hc rfl)
  | loseDown k n => exact hquiet rfl (hlost hc rfl)
  | peerConnects => exact hquiet rfl h.peerConnects
  | peerSends k bytes =>
    refine hquiet rfl ?_
    simp only [System.step]
    split
    · exact h
    · rename_i hm
      exact hlost (Bool.eq_false_iff.mpr hm) rfl

theorem written_count (hh : t.system.Honest) (hl : t.system.issued.length < 2^64) {p : Publish}
    (hp : .publish p ∈ t.system.issued) :
    t.written.count (.publish p) = t.written.countP (Message.ofId p.messageId) := by
  refine List.countP_congr fun m hm => ?_
  rw [beq_iff_eq,Message.ofId,beq_iff_eq]
  refine ⟨fun he => by rw [he]; rfl,fun hid => ?_⟩
  exact hh.ids.unique hl ((h.issued m hm).2 (by simp [hid])) hp hid rfl

/-- Once `onConnect` has come to its end, each publish has been written, except
one that is just being sent. -/
theorem written_once (hh : t.system.Honest) (hl : t.system.issued.length < 2^64) {p : Publish}
    (hp : .publish p ∈ t.system.issued) (hc : t.system.connects = [.resend []])
    (hb : t.system.busy ≠ some (.publish p)) :
    t.written.countP (Message.ofId p.messageId) = 1 := by
  have hne : t.tokens p.messageId ≠ 0 := fun ht => h.unsent p hp ht [] (by simp [hc])
  have hle := h.tokens p.messageId
  have hbusy : t.system.busy.toList.countP (Message.ofId p.messageId) = 0 := by
    refine List.countP_eq_zero.mpr fun m hm hid => hb ?_
    have hm' := Option.mem_toList.mp hm
    rw [← hh.ids.unique hl (hh.busy m hm') hp (by simpa [Message.ofId] using hid) rfl]
    exact hm'
  have hleft : t.system.left = [] := by simp [System.left,hc,OnConnect.left]
  rw [Transcript.tokens,hbusy,hleft,List.countP_nil] at hne hle
  omega

end Once

theorem run_once (login : Str) (cache : ReCache) (regex : RegexCompiler) (events : List SystemEvent)
    (calm : Runs.Along (step regex) (fun t e => t.system.Calm e) (start login cache) events)
    (apart : Runs.Along (step regex) Apart (start login cache) events)
    (fewer : ((start login cache).run regex events).system.issued.length < 2^64) :
    ((start login cache).run regex events).Once ∧
      ((start login cache).run regex events).system.Honest := by
  refine (calm.and apart).invariant (P := fun t : Transcript => t.system.issued.length < 2^64 →
    t.Once ∧ t.system.Honest) (fun t e h hok hl => ?_)
    (fun _ => ⟨.start login cache,.start login cache⟩) fewer
  have ht : t.system.issued.length < 2^64 :=
    Nat.lt_of_le_of_lt (t.system.issued_step regex e).length_le hl
  obtain ⟨ho,hh⟩ := h ht
  exact ⟨ho.step hh ht hok.1 hok.2,hh.step regex e ht⟩

end Transcript

theorem Message.wire_ne_nil (m : Message) : m.wire ≠ [] := by
  intro he
  have hl := m.wire_length
  rw [he,List.length_nil] at hl
  omega

theorem Link.Up.read {l : Link} {written : List Message} {executions : UInt64 → Nat}
    (h : l.Up written executions) (hin : l.up.inFlight = []) (hr : l.serverReads = true)
    (n : UInt64) : executions n = written.countP (Message.ofId n) := by
  obtain ⟨served,ups,rfl,hq,hn⟩ := h
  have hups : ups = [] := by
    cases ups with
    | nil => rfl
    | cons m ups =>
      have hwire := hq.2.symm.trans hin
      rw [List.flatMap_cons,List.append_eq_nil_iff] at hwire
      exact absurd hwire.1 m.wire_ne_nil
  rw [hups,List.append_nil]
  exact (hn n).2 hr

def System.executedFor (s : System) (k : Nat) (m : Message) : Nat :=
  s.server.executed.countP (fun x => x.1.socket == k && x.2 == m)

theorem System.Honest.executedFor {s : System} (h : s.Honest) (hl : s.issued.length < 2^64)
    {k : Nat}
    (hk : (s.links k).mine = true) {p : Publish} (hp : .publish p ∈ s.issued) :
    s.executedFor k (.publish p) = s.executions k p.messageId := by
  refine List.countP_congr fun x hx => ?_
  simp only [Server.isRequest,Bool.and_eq_true,beq_iff_eq]
  refine and_congr_right fun hsock => ⟨fun he => by rw [he]; rfl,fun hid => ?_⟩
  exact h.ids.unique hl ((h.executed x hx).2 (by rw [hsock]; exact hk)) hp hid rfl

/-- With one connection and no network error, and if no message of the pool has
gone to the connection when `onConnect` collects the pool, each publish is
written and executed once and each OK has its request. -/
theorem publish_once (login : Str) (cache : ReCache) (regex : RegexCompiler)
    (events : List SystemEvent) {t : Transcript}
    (run : t = (Transcript.start login cache).run regex events)
    (calm : Runs.Along (Transcript.step regex) (fun t e => t.system.Calm e)
      (Transcript.start login cache) events)
    (apart : Runs.Along (Transcript.step regex) Transcript.Apart (Transcript.start login cache)
      events)
    (few : t.system.issued.length < 2^64) :
    (∀ p, .publish p ∈ t.system.issued →
      t.written.count (.publish p) ≤ 1 ∧
      (t.system.connects = [.resend []] → t.system.busy ≠ some (.publish p) →
        t.written.count (.publish p) = 1) ∧
      ∀ k, (t.system.links k).mine = true →
        t.system.executedFor k (.publish p) ≤ 1 ∧
        (t.system.connects = [.resend []] → t.system.busy ≠ some (.publish p) →
          (t.system.links k).up.inFlight = [] → (t.system.links k).serverReads = true →
          t.system.executedFor k (.publish p) = 1)) ∧
    ∀ k d bytes, (t.system.links k).mine = true →
      readNextAsync (t.system.links k).down.inFlight = .item d bytes →
      Effects.thrown (Client.onNewMessage d t.system.client) = none ∧
        ∃ m : Message, d = received m.wire ∧ ∀ n, m = .ok ⟨n⟩ → n ∈ t.system.client.queries := by
  subst run
  obtain ⟨h,hh⟩ := Transcript.run_once login cache regex events calm apart few
  refine ⟨fun p hp => ?_,fun k d bytes hk hread => ⟨?_,?_⟩⟩
  · have hle := h.written_le p.messageId
    rw [h.written_count hh few hp]
    refine ⟨hle,h.written_once hh few hp,fun k hk => ?_⟩
    rw [hh.executedFor few hk hp]
    refine ⟨Nat.le_trans ((h.up k hk).le _) hle,fun hc hb hin hr => ?_⟩
    rw [(h.up k hk).read hin hr]
    exact h.written_once hh few hp hc hb
  · obtain ⟨c,hrun,-⟩ := h.receive_run hk hread
    rw [hrun]
    rfl
  · obtain ⟨m,rfl,-,-,howed,-⟩ := (h.down k hk).receive hread
    exact ⟨m,rfl,fun n hn => h.owed hk (howed n hn)⟩

def publishedEarly : List SystemEvent :=
  [.call (.publish ⟨[113],[]⟩ [7]) .Async,.transmit,.connected,.onConnect 0 [],
    .onConnect 0 [⟨[113],[],0,[7]⟩],.onConnect 0 [],.accept 0,.serve 0,.serve 0]

theorem publish_once_publishedEarly :
    ((Transcript.start [97] ∅).run literal publishedEarly).written.count
        (.publish ⟨[113],[],0,[7]⟩) = 1 ∧
      ((Transcript.start [97] ∅).run literal publishedEarly).system.executedFor 0
        (.publish ⟨[113],[],0,[7]⟩) = 1 := by
  have hcalm : Runs.Along (Transcript.step literal) (fun t e => t.system.Calm e)
      (Transcript.start [97] ∅) publishedEarly := by decide +kernel
  have hapart : Runs.Along (Transcript.step literal) Transcript.Apart (Transcript.start [97] ∅)
      publishedEarly := by decide +kernel
  obtain ⟨-,hwritten,hexecuted⟩ := (publish_once [97] ∅ literal publishedEarly rfl hcalm hapart
    (by decide +kernel)).1 ⟨[113],[],0,[7]⟩ (by decide +kernel)
  refine ⟨hwritten (by decide +kernel) (by decide +kernel),?_⟩
  exact (hexecuted 0 (by decide +kernel)).2 (by decide +kernel) (by decide +kernel)
    (by decide +kernel) (by decide +kernel)

/-- The connect completes while `publish` is between its `append` and its `send`,
so the message is sent once by each of the two threads. -/
def publishedBetween : List SystemEvent :=
  [.call (.publish ⟨[113],[]⟩ [7]) .Async,.connected,.transmit,.onConnect 0 [],
    .onConnect 0 [⟨[113],[],0,[7]⟩],.onConnect 0 [],.accept 0,.serve 0,.serve 0,.serve 0,
    .receive 0,.receive 0]

theorem publish_sent_twice :
    Runs.Along (Transcript.step literal) (fun t e => t.system.Calm e) (Transcript.start [97] ∅)
        publishedBetween ∧
      ((Transcript.start [97] ∅).run literal publishedBetween).written.count
        (.publish ⟨[113],[],0,[7]⟩) = 2 ∧
      ((Transcript.start [97] ∅).run literal publishedBetween).system.executedFor 0
        (.publish ⟨[113],[],0,[7]⟩) = 2 ∧
      ∃ d bytes, readNextAsync (((Transcript.start [97] ∅).run literal
          publishedBetween).system.links 0).down.inFlight = .item d bytes ∧
        Effects.thrown (Client.onNewMessage d ((Transcript.start [97] ∅).run literal
          publishedBetween).system.client) = some (.thrown ⟨"unknow _query id=0"⟩) := by
  refine ⟨by decide +kernel,by decide +kernel,by decide +kernel,?_⟩
  have hflight : (((Transcript.start [97] ∅).run literal
      publishedBetween).system.links 0).down.inFlight = Message.wire (.ok ⟨0⟩) ++ [] := by
    decide +kernel
  refine ⟨received (Message.wire (.ok ⟨0⟩)),[],?_,by decide +kernel⟩
  rw [hflight]
  exact readNextAsync_frames.whole (.ok ⟨0⟩) [] (ok_sendable 0)

end Dqueue
