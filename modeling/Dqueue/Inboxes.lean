import Dqueue.ServerRefinement

/-!
What a client of the server is sent over the time is what the broker has for it: its inbox.
-/

set_option autoImplicit false

namespace Dqueue
open Std Effects RawMem AsyncIO Queries

def Queries.Publish.content (cs : Publish) : PublishParams × Bytes := (⟨cs.qname,cs.tag⟩,cs.data)

def Message.content : Message → Option (PublishParams × Bytes)
  | .publish cs => some cs.content
  | _ => none

def Server.sentOn (k : Nat) (s : Server) : List Message :=
  (s.outbox.filter (fun x => x.1 == k)).map Prod.snd

/-- What the broker has for a connection after what the events have asked of it. -/
noncomputable def ServerLog.inbox (regex : RegexCompiler) (cache : ReCache) (k : Nat)
    (events : List ServerEvent) : List (PublishParams × Bytes) :=
  (Broker.start {ServerID}).inbox ServerID (brokerTags regex) (UInt64.ofNat k)
    (asked regex (start cache) events)

section Keys

variable {α β : Type} {key : α → Nat} {f : α → Option β} {k : Nat}

theorem filterMap_other {as : List α} (h : ∀ a ∈ as, key a ≠ k) :
    (as.filter (fun a => key a == k)).filterMap f = [] := by
  have hnone : as.filter (fun a => key a == k) = [] := by
    rw [List.filter_eq_nil_iff]
    intro a ha
    simpa using h a ha
  rw [hnone]
  rfl

theorem filterMap_key {as : List α} (order : as.Pairwise fun a b => key a < key b) {a : α}
    (ha : a ∈ as) (hk : key a = k) {b : β} (hb : f a = some b) :
    (as.filter (fun a => key a == k)).filterMap f = [b] := by
  obtain ⟨before,after,rfl⟩ := List.append_of_mem ha
  obtain ⟨-,hafter,hbefore⟩ := List.pairwise_append.mp order
  have hfirst : ∀ x ∈ before, key x ≠ k := fun x hx he => by
    have hlt := hbefore x hx a (by simp)
    omega
  have hlast : ∀ x ∈ after, key x ≠ k := fun x hx he => by
    have hlt := (List.pairwise_cons.mp hafter).1 x hx
    omega
  rw [List.filter_append,List.filterMap_append,filterMap_other hfirst,
    List.filter_cons_of_pos (by simp [hk]),List.filterMap_cons_some hb,filterMap_other hlast]
  rfl

end Keys

theorem ofNat_ne_server {k : Nat} (hk : k < 2^31-1) : UInt64.ofNat k ≠ ServerID := by
  intro he
  have ht := congrArg UInt64.toNat he
  rw [UInt64.toNat_ofNat_of_lt' (by simp [UInt64.size]; omega)] at ht
  simp [ServerID] at ht
  omega

section Inbox

variable {regex : RegexCompiler} {l l' : ServerLog} {e : ServerEvent}

theorem ServerLog.Books.sent_connected (h : l.Books) {c : Id} {m : PublishParams × Bytes}
    {call : BrokerCall Str Id Str (PublishParams × Bytes)}
    (hs : (c,m) ∈ (l.server.broker.answer (brokerTags regex) call).sent) :
    c = ServerID ∨ ∃ i ∈ l.server.connections, i.id = c := by
  cases call with
  | publishes q m' =>
    obtain ⟨-,-,⟨made,tag,hrole,-⟩,-⟩ := hs
    obtain ⟨ql,hql,-⟩ := roleOf_listens.mp hrole
    exact (h.users c).mp (h.listeners q c (by simp [hql]))
  | admits c => exact hs.elim
  | dismisses c => exact hs.elim
  | compiles tag => exact hs.elim
  | creates q c => exact hs.elim
  | makes q c => exact hs.elim
  | subscribes q tag c => exact hs.elim
  | unsubscribes q c => exact hs.elim
  | leaves c => exact hs.elim

theorem departs_silent {cons : List ClientConnection}
    {call : BrokerCall Str Id Str (PublishParams × Bytes)}
    (h : call ∈ cons.flatMap ClientConnection.departs) (q : Str) (m : PublishParams × Bytes) :
    call ≠ .publishes q m := by
  obtain ⟨i,-,hmem⟩ := List.mem_flatMap.mp h
  simp only [ClientConnection.departs,List.mem_cons,List.not_mem_nil,or_false] at hmem
  rcases hmem with rfl | rfl <;> simp

theorem ServerLog.asks_cases (l : ServerLog) (e : ServerEvent) :
    (∃ q m, l.asks e = [.publishes q m]) ∨ ∀ call ∈ l.asks e, ∀ q m, call ≠ .publishes q m := by
  have hop : ∀ o : Option Op, (∃ q m, (o.map Op.call).toList = [.publishes q m]) ∨
      ∀ call ∈ (o.map Op.call).toList, ∀ q m, call ≠ .publishes q m := by
    intro o
    cases o with
    | none => simp
    | some op =>
      cases op with
      | publish p rd author => exact .inl ⟨_,_,rfl⟩
      | changeSubscription a sp c => cases a <;> simp [Op.call]
      | _ => simp [Op.call]
  cases e with
  | accept => exact .inr (by simp [ServerLog.asks])
  | error k => exact .inr fun call hcall => departs_silent hcall
  | stopServer =>
    right
    intro call hcall
    simp only [ServerLog.asks] at hcall
    split at hcall
    · cases hcall
    · exact departs_silent hcall
  | message k d => exact hop (l.operation (.message k d))
  | createQueue settings => exact hop (l.operation (.createQueue settings))
  | subscribe settings => exact hop (l.operation (.subscribe settings))
  | unsubscribe qname => exact hop (l.operation (.unsubscribe qname))
  | publish settings data => exact hop (l.operation (.publish settings data))

theorem Outgoing.sent_on {calls : List (BrokerCall Str Id Str (PublishParams × Bytes))}
    {out : List (Nat × Message)} {heard : List Call}
    (hout : Outgoing regex l.server.broker l calls out heard) (books : l.Books) (few : l.Few)
    {k : Nat} (hk : k < 2^31-1) (p : PublishParams) (rd : Bytes) :
    (∃ n, (k,.publish ⟨p.queueName,p.tag,n,rd⟩) ∈ out) ↔ ∃ call ∈ calls,
      (UInt64.ofNat k,(p,rd)) ∈ (l.server.broker.answer (brokerTags regex) call).sent := by
  by_cases hlt : k < l.accepted.length
  · have hnumber := books.numbered k _ (List.getElem?_eq_getElem hlt)
    have hsent := hout.sent _ (List.getElem_mem hlt) p rd
    rwa [hnumber] at hsent
  · refine iff_of_false ?_ ?_
    · rintro ⟨n,hmem⟩
      obtain ⟨j,hj⟩ := List.mem_iff_getElem?.mp hmem
      obtain ⟨i,hi,cs,he,-⟩ := hout.published j _ hj
      have hsocket : k = i.socket := congrArg Prod.fst he
      have hlt' := (books.mem_accepted (books.mem_connections.mp hi).1).2
      omega
    · rintro ⟨call,-,hsent⟩
      rcases books.sent_connected hsent with hserver | ⟨i,hi,hid⟩
      · exact ofNat_ne_server hk hserver
      · obtain ⟨hnumber,hsocket⟩ := books.mem_accepted (books.mem_connections.mp hi).1
        rw [hnumber] at hid
        have hfew : l.accepted.length < 2^31-1 := few
        have hik := ofNat_inj (by omega) (by omega) hid
        omega

theorem Outgoing.inbox {out : List (Nat × Message)} {heard : List Call}
    (hout : Outgoing regex l.server.broker l (l.asks e) out heard) (books : l.Books) (few : l.Few)
    {k : Nat} (hk : k < 2^31-1) :
    (out.filter (fun x => x.1 == k)).filterMap (fun x => x.2.content) =
      l.server.broker.inbox ServerID (brokerTags regex) (UInt64.ofNat k) (l.asks e) := by
  have hsent := hout.sent_on books few hk
  have hnone : (∀ (p : PublishParams) (rd : Bytes),
      ¬ ∃ n, (k,.publish ⟨p.queueName,p.tag,n,rd⟩) ∈ out) →
      (out.filter (fun x => x.1 == k)).filterMap (fun x => x.2.content) = [] := by
    intro h
    refine filterMap_other fun x hx he => ?_
    obtain ⟨j,hj⟩ := List.mem_iff_getElem?.mp hx
    obtain ⟨i,-,cs,rfl,-⟩ := hout.published j _ hj
    have hik : i.socket = k := he
    exact h ⟨cs.qname,cs.tag⟩ cs.data ⟨cs.messageId,hik ▸ hx⟩
  rcases l.asks_cases e with ⟨q,⟨p,rd⟩,hasks⟩ | hquiet
  · rw [hasks] at hsent ⊢
    simp only [List.mem_singleton,exists_eq_left] at hsent
    have hinbox : l.server.broker.inbox ServerID (brokerTags regex) (UInt64.ofNat k)
        [.publishes q (p,rd)] =
          l.server.broker.gets (brokerTags regex) (UInt64.ofNat k) (.publishes q (p,rd)) :=
      List.append_nil _
    rw [hinbox]
    by_cases hin : (UInt64.ofNat k,(p,rd)) ∈
        (l.server.broker.answer (brokerTags regex) (.publishes q (p,rd))).sent
    · obtain ⟨n,hmem⟩ := (hsent p rd).mpr hin
      have hone : (out.filter (fun x => x.1 == k)).filterMap (fun x => x.2.content) = [(p,rd)] :=
        filterMap_key hout.order hmem rfl rfl
      rw [hone]
      exact (if_pos hin).symm
    · refine (hnone fun p' rd' hmem => hin ?_).trans (if_neg hin).symm
      have hin' := (hsent p' rd').mp hmem
      obtain ⟨he,-⟩ := id hin'
      have he' : (p',rd') = (p,rd) := he
      exact he' ▸ hin'
  · have hempty : l.server.broker.inbox ServerID (brokerTags regex) (UInt64.ofNat k)
        (l.asks e) = [] := by
      refine Runs.collect_nil (fun call hcall b => ?_) _
      cases call with
      | publishes q m => exact absurd rfl (hquiet _ hcall q m)
      | _ => rfl
    rw [hempty]
    refine hnone fun p rd hmem => ?_
    obtain ⟨call,hcall,hin⟩ := (hsent p rd).mp hmem
    cases call with
    | publishes q m => exact hquiet _ hcall q m rfl
    | _ => exact hin.elim

theorem Message.content_none {m : Message} (h : m.publishedId = none) : m.content = none := by
  cases m with
  | publish cs => cases h
  | _ => rfl

theorem Answered.sentOn (h : Answered regex l.server.broker l e l') (books : l.Books)
    (few : l.Few) {k : Nat} (hk : k < 2^31-1) :
    (l'.server.sentOn k).filterMap Message.content =
      (l.server.sentOn k).filterMap Message.content ++
        l.server.broker.inbox ServerID (brokerTags regex) (UInt64.ofNat k) (l.asks e) := by
  obtain ⟨out,heard,replies,hout,houtbox,-,-,hreply,hsilent⟩ := h
  have hreplies : (replies.filter (fun x => x.1 == k)).filterMap (fun x => x.2.content) = [] := by
    have hnone := ServerLog.replies_unpublished hreply hsilent
    rw [List.filterMap_eq_nil_iff] at hnone ⊢
    intro x hx
    exact Message.content_none (hnone x (List.mem_of_mem_filter hx))
  simp only [Server.sentOn,List.filterMap_map,houtbox,List.filter_append,List.filterMap_append]
  rw [← hout.inbox books few hk]
  show _ ++ _ ++ (replies.filter (fun x => x.1 == k)).filterMap (fun x => x.2.content) = _
  rw [hreplies,List.append_nil]
  rfl

theorem ServerLog.run_inbox {cache : ReCache} (sound : ReCache.Sound regex cache)
    {events : List ServerEvent}
    (served : Runs.Along (step regex) Served (ServerLog.start cache) events)
    (few : ((ServerLog.start cache).run regex events).Few) {k : Nat} (hk : k < 2^31-1) :
    (((ServerLog.start cache).run regex events).server.sentOn k).filterMap Message.content =
      ServerLog.inbox regex cache k events := by
  induction events using List.reverseRecOn with
  | nil => rfl
  | append_singleton d e ih =>
    obtain ⟨hd,he,-⟩ := Runs.along_append.mp served
    have hrun : (ServerLog.start cache).run regex (d ++ [e]) =
        ((ServerLog.start cache).run regex d).step regex e := by simp [ServerLog.run]
    rw [hrun] at few ⊢
    have few₀ := Nat.lt_of_le_of_lt (accepted_step ((ServerLog.start cache).run regex d) e) few
    have hrefines := run_refines sound hd few₀
    obtain ⟨-,hanswered⟩ := hrefines.books.step_answered few (run_sound sound d) he
    rw [hanswered.sentOn hrefines.books few₀ hk,ih hd few₀,hrefines.broker,ServerLog.inbox,
      ServerLog.inbox,asked,asked,Runs.collect_concat,Broker.inbox_append]
    rfl

end Inbox

end Dqueue
