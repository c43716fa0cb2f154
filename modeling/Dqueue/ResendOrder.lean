import Dqueue.PublishOnce
import Dqueue.NodeDelivery

/-!
The order in which `onConnect` sends the messages of the pool again. It is the order
in which the pool's hash map is gone through, and from there on it is kept: on the
connection, in the node and on the way to each subscriber.
-/

set_option autoImplicit false

namespace Dqueue
open Std Effects RawMem Framing AsyncIO Queries
open scoped List

variable {regex : RegexCompiler}

section Receipts

def Op.publishedBy (author : Id) : Op → Option (PublishParams × Bytes)
  | .publish p rd a => if a = author then some (p,rd) else none
  | _ => none

def World.receipt (regex : RegexCompiler) (author d : Id) (w : World) (op : Op) :
    List (PublishParams × Bytes) :=
  match op.publishedBy author with
  | none => []
  | some _ => ((w.exec regex op).calls.filter (fun call => call.2.2 = d)).map
      (fun call => (call.1,call.2.1))

def World.receipts (regex : RegexCompiler) (author d : Id) : World → List Op →
    List (PublishParams × Bytes)
  | _, [] => []
  | w, op :: ops =>
    w.receipt regex author d op ++ World.receipts regex author d (w.step regex op) ops

theorem recordCalls_sublist (p : PublishParams) (rd : Bytes) (ls : List (Id × QueueListener))
    (cache : ReCache) (log : List Call) :
    (final (recordCalls regex p rd ls (cache,log))).2 <+ log ++ ls.map (fun x => (p,rd,x.1)) := by
  induction ls generalizing cache log with
  | nil => simp [recordCalls_nil]
  | cons x ls ih =>
    have hskip : log ++ ls.map (fun x => (p,rd,x.1)) <+
        log ++ (x :: ls).map (fun x => (p,rd,x.1)) := by simp
    cases hx : (!x.2.isowner || x.2.issubscribed) with
    | false =>
      rw [recordCalls_skip p rd hx]
      exact (ih cache log).trans hskip
    | true =>
      cases hc : x.2.settings.checkTag regex p.tag cache with
      | error e cache' =>
        rw [recordCalls_error p rd hx ls log hc]
        exact List.sublist_append_left _ _
      | ok b cache' =>
        rw [recordCalls_ok p rd hx ls log hc]
        cases b with
        | false => exact (ih cache' log).trans hskip
        | true => simpa using ih cache' (log ++ [(p,rd,x.1)])

theorem calls_for_sublist {ls : List (Id × QueueListener)} (nodup : (ls.map Prod.fst).Nodup)
    (p : PublishParams) (rd : Bytes) (d : Id) :
    ((ls.map (fun x => ((p,rd,x.1) : Call))).filter (fun call => call.2.2 = d)).map
      (fun call => (call.1,call.2.1)) <+ [(p,rd)] := by
  have hcount : (ls.filter (fun x => x.1 = d)).length ≤ 1 := by
    rw [← List.countP_eq_length_filter]
    have hle := List.nodup_iff_count_le_one.mp nodup d
    rw [List.count,List.countP_map] at hle
    refine Nat.le_trans (Nat.le_of_eq (List.countP_congr fun x _ => ?_)) hle
    simp
  have hconst : ((ls.map (fun x => ((p,rd,x.1) : Call))).filter (fun call => call.2.2 = d)).map
      (fun call => (call.1,call.2.1)) =
      List.replicate (ls.filter (fun x => x.1 = d)).length (p,rd) := by
    rw [List.filter_map,List.map_map,← List.map_const']
    rfl
  rw [hconst]
  exact List.replicate_sublist_replicate (p,rd) |>.mpr hcount

theorem World.receipt_sublist (w : World) (author d : Id) (op : Op) :
    w.receipt regex author d op <+ (op.publishedBy author).toList := by
  unfold World.receipt
  cases hop : op.publishedBy author with
  | none => exact List.nil_sublist _
  | some x =>
    cases op with
    | publish p rd a =>
      have hx : x = (p,rd) := by
        simp only [Op.publishedBy] at hop
        split at hop
        · exact (Option.some.inj hop).symm
        · cases hop
      have hcalls : (w.exec regex (.publish p rd a)).calls <+
          (w.node.localCopy p.queueName).2.map (fun x => (p,rd,x.1)) := by
        simpa [World.exec,World.publish] using
          recordCalls_sublist p rd (w.node.localCopy p.queueName).2 w.cache []
      rw [hx]
      exact ((hcalls.filter _).map _).trans
        (calls_for_sublist (w.node.nodup_localCopy p.queueName) p rd d)
    | append user => cases hop
    | setLogin id login => cases hop
    | eraseUser id => cases hop
    | compile re => cases hop
    | createQueue qsettings ownerId => cases hop
    | changeSubscription action settings clientId => cases hop
    | eraseClient id => cases hop

theorem World.receipts_sublist (w : World) (author d : Id) (ops : List Op) :
    w.receipts regex author d ops <+ ops.filterMap (Op.publishedBy author) := by
  induction ops generalizing w with
  | nil => exact .slnil
  | cons op ops ih =>
    have hcons : (op :: ops).filterMap (Op.publishedBy author) =
        (op.publishedBy author).toList ++ ops.filterMap (Op.publishedBy author) := by
      cases h : op.publishedBy author <;> simp [h]
    rw [World.receipts,hcons]
    exact (w.receipt_sublist author d op).append (ih _)

end Receipts

namespace System

variable {s : System}

def resends (s : System) (k : Nat) : SystemEvent → List Message
  | .onConnect j order => if j = k then s.writes (.onConnect j order) else []
  | _ => []

def resent (regex : RegexCompiler) (k : Nat) : System → List SystemEvent → List Message
  | _, [] => []
  | s, e :: events => s.resends k e ++ resent regex k (s.step regex e) events

structure Keeps (j : Nat) (s s' : System) : Prop where
  pool : ∀ (n : UInt64) p, s'.client.messagePool[n]? = some p → s.client.messagePool[n]? = some p
  issued : s'.issued = s.issued
  connects : ∀ t, s.connects[j]? = some t → s'.connects[j]? = some t

theorem Keeps.of_eq {j : Nat} {s' : System} (pool : s'.client.messagePool = s.client.messagePool)
    (issued : s'.issued = s.issued) (connects : s'.connects = s.connects) : Keeps j s s' :=
  ⟨by rw [pool]; exact fun _ _ hp => hp,issued,by rw [connects]; exact fun _ ht => ht⟩

theorem Keeps.refl (j : Nat) (s : System) : Keeps j s s := .of_eq rfl rfl rfl

theorem receive_pool (d : NetworkMessage) (c : Client) {n : UInt64} {p : Publish}
    (h : (final (Client.onNewMessage d c)).messagePool[n]? = some p) :
    c.messagePool[n]? = some p := by
  rw [Client.onNewMessage,bind_apply,get_apply] at h
  rcases Message.ofFrame_state [.PUBLISH,.OK,.LOGIN_CONFIRM] c.unknowKind d c with
    ⟨m,hm⟩ | ⟨e,hm⟩
  · simp only [bind_apply,hm] at h
    exact (Client.handle_cases m c).pool_kept h
  · simpa only [bind_apply,hm,final_error] using h

theorem receive_keeps (j k : Nat) : Keeps j s (s.receive k) := by
  unfold receive
  split
  · split
    · simp only
      split
      · exact ⟨fun n p => receive_pool _ _,rfl,fun t ht => ht⟩
      · exact .refl j s
    · exact .refl j s
  · exact .refl j s

theorem onConnect_keeps {j k : Nat} (hjk : k ≠ j) (order : List Publish) :
    Keeps j s (s.onConnect k order) := by
  have hset : ∀ {l : List OnConnect} {t t' : OnConnect}, l[j]? = some t →
      (l.set k t')[j]? = some t := by
    intro l t t' ht
    rw [List.getElem?_set_ne hjk]
    exact ht
  unfold onConnect
  split
  · exact .refl j s
  · split
    · exact .refl j s
    · rename_i s' hs
      have hsame := clientSend_same hs
      refine ⟨fun n p hp => ?_,hsame.issued,fun t ht => hset (hsame.connects ▸ ht)⟩
      simpa only [hsame.client] using hp
  · split
    · exact ⟨fun n p hp => hp,rfl,fun t ht => hset ht⟩
    · exact .refl j s
  · exact .refl j s
  · split
    · exact .refl j s
    · rename_i s' hs
      have hsame := clientSend_same hs
      refine ⟨fun n p hp => ?_,hsame.issued,fun t ht => hset (hsame.connects ▸ ht)⟩
      simpa only [hsame.client] using hp

theorem step_keeps {j : Nat} {e : SystemEvent} (hcall : ∀ r ot, e ≠ .call r ot)
    (hconnect : ∀ order, e ≠ .onConnect j order) : Keeps j s (s.step regex e) := by
  cases e with
  | call r ot => exact absurd rfl (hcall r ot)
  | onConnect k order =>
    refine onConnect_keeps ?_ order
    rintro rfl
    exact hconnect order rfl
  | receive k => exact receive_keeps j k
  | transmit =>
    simp only [step,transmit]
    split
    · exact .refl j s
    · split
      · exact .refl j s
      · rename_i s' hs
        have hsame := clientSend_same hs
        exact .of_eq (congrArg Client.messagePool hsame.client) hsame.issued hsame.connects
  | wake locker =>
    simp only [step,wake]
    split
    · exact .of_eq rfl rfl rfl
    · exact .refl j s
  | connected =>
    refine ⟨fun n p hp => hp,rfl,fun t ht => ?_⟩
    have hlt := (List.getElem?_eq_some_iff.mp ht).1
    exact (List.getElem?_append_left hlt).trans ht
  | networkError => exact .of_eq rfl rfl rfl
  | accept k =>
    simp only [step,accept]
    split
    · exact .of_eq rfl rfl rfl
    · exact .refl j s
  | serve k =>
    simp only [step,serve]
    split
    · split
      · exact .of_eq rfl rfl rfl
      · exact .refl j s
    · exact .refl j s
  | close k =>
    simp only [step,close]
    split
    · exact .refl j s
    · exact .of_eq rfl rfl rfl
  | serverCall call => cases call <;> exact .of_eq rfl rfl rfl
  | loseUp k n => exact .of_eq rfl rfl rfl
  | loseDown k n => exact .of_eq rfl rfl rfl
  | peerConnects => exact .of_eq rfl rfl rfl
  | peerSends k bytes =>
    simp only [step]
    split
    · exact .refl j s
    · exact .of_eq rfl rfl rfl

def Pooled (s : System) : Prop :=
  ∀ (n : UInt64) p, s.client.messagePool[n]? = some p → p.messageId = n ∧ .publish p ∈ s.issued

theorem Keeps.pooled {j : Nat} {s' : System} (hkeeps : Keeps j s s') (h : s.Pooled) :
    s'.Pooled := by
  intro n p hp
  rw [hkeeps.issued]
  exact h n p (hkeeps.pool n p hp)

theorem Pooled.call (h : s.Pooled) (r : Request) (ot : OperationType) : (s.call r ot).Pooled := by
  unfold System.call
  split
  · exact h
  · intro n p hp
    rcases Client.issue_pool_cases hp with hold | ⟨hn,hnew⟩
    · obtain ⟨hid,hmem⟩ := h n p hold
      exact ⟨hid,by simp [hmem]⟩
    · have hid := r.requestId_message s.client.nextMessageId
      rw [hnew] at hid
      exact ⟨(Option.some.inj hid).trans hn,by simp [hnew]⟩

theorem Pooled.step (h : s.Pooled) (e : SystemEvent) : (s.step regex e).Pooled := by
  cases e with
  | call r ot => exact h.call r ot
  | onConnect k order =>
    exact (onConnect_keeps (j := k+1) (Nat.ne_of_lt (Nat.lt_succ_self k)) order).pooled h
  | _ => exact (step_keeps (j := 0) (by simp) (by simp)).pooled h

theorem run_pooled (login : Str) (cache : ReCache) (events : List SystemEvent) :
    ((start login cache).run regex events).Pooled := by
  refine Runs.invariant (P := Pooled) (fun s e h => h.step e) (fun n p hp => ?_) events
  simp [start,Client.create] at hp

variable (regex) in
theorem step_resend {k : Nat} {left : List Publish} (h : s.connects[k]? = some (.resend left))
    (e : SystemEvent) : ∃ left', (s.step regex e).connects[k]? = some (.resend left') ∧
      s.resends k e ++ left'.map Message.publish <+ left.map Message.publish := by
  have hlt := (List.getElem?_eq_some_iff.mp h).1
  by_cases he : ∃ order, e = .onConnect k order
  · obtain ⟨order,rfl⟩ := he
    cases left with
    | nil => exact ⟨[],by simp [step,onConnect,h],by simp [resends,writes,h]⟩
    | cons p left =>
      cases hs : s.clientSend (.publish p) with
      | none =>
        refine ⟨p :: left,by simp [step,onConnect,h,hs],?_⟩
        simp [resends,writes,h,sends_of_none hs]
      | some s' =>
        refine ⟨left,?_,?_⟩
        · simp only [step,onConnect,h,hs]
          exact List.getElem?_set_self ((clientSend_same hs).connects ▸ hlt)
        · have hone : s.sends (.publish p) <+ [.publish p] := by
            unfold sends
            split
            · exact List.Sublist.refl _
            · exact List.nil_sublist _
          simpa [resends,writes,h] using hone.append (List.Sublist.refl (left.map Message.publish))
  · have hnone : s.resends k e = [] := by
      cases e with
      | onConnect j order =>
        refine if_neg ?_
        rintro rfl
        exact he ⟨order,rfl⟩
      | _ => rfl
    refine ⟨left,?_,by simp [hnone]⟩
    cases e with
    | call r ot =>
      simp only [step,call]
      split <;> exact h
    | _ => exact (step_keeps (by simp) fun order ho => he ⟨order,ho⟩).connects _ h

variable (regex) in
theorem resent_sublist {k : Nat} {left : List Publish} (h : s.connects[k]? = some (.resend left))
    (events : List SystemEvent) : s.resent regex k events <+ left.map Message.publish := by
  induction events generalizing s left with
  | nil => exact List.nil_sublist _
  | cons e events ih =>
    obtain ⟨left',h',hsub⟩ := step_resend regex h e
    exact ((List.Sublist.refl (s.resends k e)).append (ih h')).trans hsub

/-- `onConnect` may go through the pool in any order. -/
theorem collects_iff {k : Nat} (h : s.connects[k]? = some .collect) (order : List Publish) :
    (s.step regex (.onConnect k order)).connects[k]? = some (.resend order) ↔
      order.Perm s.client.messagePool.all := by
  have hlt := (List.getElem?_eq_some_iff.mp h).1
  rw [← List.isPerm_iff]
  simp only [step,onConnect,h]
  by_cases hp : order.isPerm s.client.messagePool.all = true
  · simp [hp,hlt]
  · simp [hp,h]

end System

def Message.published : Message → Option (PublishParams × Bytes)
  | .publish p => some (⟨p.qname,p.tag⟩,p.data)
  | _ => none

/-- What is expected of a run of `onConnect` that goes through the pool in `order`: it is
the order of the ids and of the calls of `publish`, the messages are sent in it, and if
the node executes them as they come, whatever it does in between, every client gets them
in it. -/
structure System.KeepsOrder (regex : RegexCompiler) (s : System) (k : Nat)
    (order : List Publish) : Prop where
  ids : (order.map Publish.messageId).Pairwise (· < ·)
  published : order.map Message.publish <+ s.issued
  transmitted : ∀ later, (s.step regex (.onConnect k order)).resent regex k later <+
    order.map Message.publish
  received : ∀ (later : List SystemEvent) (w : World) (author d : Id) (ops : List Op),
    ops.filterMap (Op.publishedBy author) <+:
      ((s.step regex (.onConnect k order)).resent regex k later).filterMap Message.published →
    w.receipts regex author d ops <+ s.issued.filterMap Message.published

theorem System.keepsOrder_of_published {s : System} {k : Nat} {order : List Publish}
    (h : (s.step regex (.onConnect k order)).connects[k]? = some (.resend order))
    (ids : (order.map Publish.messageId).Pairwise (· < ·))
    (published : order.map Message.publish <+ s.issued) : s.KeepsOrder regex k order where
  ids := ids
  published := published
  transmitted := resent_sublist regex h
  received later w author d ops hops := by
    have hsent := ((resent_sublist regex h later).trans published).filterMap Message.published
    exact ((w.receipts_sublist author d ops).trans hops.sublist).trans hsent

/-- The messages of the pool are sent in the order in which they were published if and
only if there is one message at most. -/
theorem resend_order_iff (login : Str) (cache : ReCache) (regex : RegexCompiler)
    (events : List SystemEvent) {s : System}
    (run : s = (System.start login cache).run regex events) {k : Nat}
    (collects : s.connects[k]? = some .collect) :
    (∀ order, (s.step regex (.onConnect k order)).connects[k]? = some (.resend order) →
      s.KeepsOrder regex k order) ↔ s.client.messagePool.size ≤ 1 := by
  have hpooled : s.Pooled := by
    rw [run]
    exact System.run_pooled login cache events
  have hsize : s.client.messagePool.all.length = s.client.messagePool.size := by
    rw [MemoryMessagePool.all,List.length_map,ExtTreeMap.length_toList]
  rw [← hsize]
  constructor
  · intro h
    by_contra hmany
    -- one order and the same with the first two messages swapped
    rcases hall : s.client.messagePool.all with _ | ⟨p,_ | ⟨q,rest⟩⟩
    · simp [hall] at hmany
    · simp [hall] at hmany
    · have hfirst := h (p :: q :: rest) ((System.collects_iff collects _).mpr (hall ▸ .refl _))
      have hsecond := h (q :: p :: rest) ((System.collects_iff collects _).mpr
        (hall ▸ .swap p q rest))
      have hlt : p.messageId < q.messageId := List.rel_of_pairwise_cons hfirst.ids (by simp)
      have hlt' : q.messageId < p.messageId := List.rel_of_pairwise_cons hsecond.ids (by simp)
      exact UInt64.lt_asymm hlt hlt'
  · intro hfew order ho
    have hperm := (System.collects_iff collects order).mp ho
    have hlen := hperm.length_eq
    rcases order with _ | ⟨p,_ | ⟨q,rest⟩⟩
    · exact System.keepsOrder_of_published ho .nil (List.nil_sublist _)
    · obtain ⟨n,hn⟩ := MemoryMessagePool.mem_all (hperm.mem_iff.mp (List.mem_singleton_self p))
      exact System.keepsOrder_of_published ho (List.pairwise_singleton _ _)
        (List.singleton_sublist.mpr (hpooled n p hn).2)
    · simp only [List.length_cons] at hlen
      omega

/-- Messages that are published before the client has connected, up to the point where
`onConnect` looks at the pool. -/
def publishedOffline (messages : List Bytes) : List SystemEvent :=
  messages.flatMap (fun data => [.call (.publish ⟨[113],[]⟩ data) .Async,.transmit]) ++
    [.connected,.onConnect 0 []]

theorem resend_order_one_message :
    ((System.start [97] ∅).run literal (publishedOffline [[7]])).KeepsOrder literal 0
      [⟨[113],[],0,[7]⟩] :=
  (resend_order_iff [97] ∅ literal (publishedOffline [[7]]) rfl (by decide +kernel)).mpr
    (by decide +kernel) [⟨[113],[],0,[7]⟩] (by decide +kernel)

/-- Of two messages the later one may be sent first, and a subscriber gets it first. -/
theorem resent_out_of_order :
    let s := (System.start [97] ∅).run literal (publishedOffline [[7],[8]])
    let order : List Publish := [⟨[113],[],1,[8]⟩,⟨[113],[],0,[7]⟩]
    let w := started.run literal
      [.createQueue ⟨[113]⟩ 1,.changeSubscription .Subscribe ⟨[113],[]⟩ 2]
    s.connects[0]? = some .collect ∧
      (s.step literal (.onConnect 0 order)).connects[0]? = some (.resend order) ∧
      (s.step literal (.onConnect 0 order)).resent literal 0 [.onConnect 0 [],.onConnect 0 []] =
        order.map .publish ∧
      w.receipts literal 1 2 [.publish ⟨[113],[]⟩ [8] 1,.publish ⟨[113],[]⟩ [7] 1] =
        [(⟨[113],[]⟩,[8]),(⟨[113],[]⟩,[7])] ∧
      ¬ s.KeepsOrder literal 0 order := by
  refine ⟨by decide +kernel,by decide +kernel,by decide +kernel,by decide +kernel,fun h => ?_⟩
  have hids := h.ids
  revert hids
  decide

end Dqueue
