import Dqueue.Acknowledgement

/-!
`waitAll`. It asks for the size of the pool without the client's lock and only then
looks at the requests under it, while other threads make new requests and answers
come in.
-/

set_option autoImplicit false

namespace Dqueue
open Std Effects RawMem Framing AsyncIO Queries

namespace Client

def messagesInPool (c : Client) : Nat := c.messagePool.size

def unacknowledged (c : Client) : Message → Bool
  | .publish p => p.messageId ∉ c.handled
  | _ => false

end Client

/-- A thread in the loop of `waitAll`. After it has found the pool empty it is at the
client's lock. `begun` counts the requests that were made before the call. -/
structure Waiter where
  begun : Nat
  locking : Bool
  deriving DecidableEq, Repr

/-- A call that has returned: the requests made before it began and before it returned,
and the messages in the pool at its return. -/
structure Waited where
  begun : Nat
  ended : Nat
  pooled : Nat
  deriving DecidableEq, Repr

structure WaitingClient where
  system : System
  waiters : List Waiter
  returned : List Waited

inductive WaitEvent where
  | system (e : SystemEvent)
  | waitAll
  /-- The `k`-th thread in `waitAll` goes on to its next statement. -/
  | waits (k : Nat)
  deriving DecidableEq, Repr

namespace WaitingClient

def start (login : Str) (cache : ReCache) : WaitingClient := ⟨System.start login cache,[],[]⟩

def waitAll (s : WaitingClient) : WaitingClient :=
  { s with waiters := s.waiters ++ [⟨s.system.issued.length,false⟩] }

/-- The sleep between two rounds is a round that changes nothing. -/
def waits (s : WaitingClient) (k : Nat) : WaitingClient :=
  match s.waiters[k]? with
  | none => s
  | some w =>
    if w.locking then
      if s.system.busy.isSome then s
      else if s.system.client.queries.isEmpty then
        { s with
          waiters := s.waiters.eraseIdx k
          returned := s.returned ++
            [⟨w.begun,s.system.issued.length,s.system.client.messagesInPool⟩] }
      else { s with waiters := s.waiters.set k ⟨w.begun,false⟩ }
    else if s.system.client.messagesInPool = 0 then
      { s with waiters := s.waiters.set k ⟨w.begun,true⟩ }
    else s

def step (regex : RegexCompiler) (s : WaitingClient) : WaitEvent → WaitingClient
  | .system e => { s with system := s.system.step regex e }
  | .waitAll => s.waitAll
  | .waits k => s.waits k

def run (regex : RegexCompiler) (s : WaitingClient) (es : List WaitEvent) : WaitingClient :=
  es.foldl (step regex) s

def Returns (s : WaitingClient) (k : Nat) : Prop :=
  ∃ n, ((waits · k)^[n] s).waiters.length < s.waiters.length

end WaitingClient

namespace System

inductive RequestsStep (s s' : System) : Prop where
  | other (queries : s'.client.queries = s.client.queries)
      (handled : s'.client.handled = s.client.handled) (issued : s'.issued = s.issued)
  | issues (r : Request)
      (queries : s'.client.queries = (s.client.issue r s.issued.length).queries)
      (handled : s'.client.handled = s.client.handled)
      (issued : s'.issued = s.issued ++ [r.message s.client.nextMessageId])
  | answered (n : UInt64) (queries : s'.client.queries = s.client.queries.erase n)
      (handled : s'.client.handled = n :: s.client.handled) (issued : s'.issued = s.issued)

theorem RequestsStep.refl (s : System) : RequestsStep s s := .other rfl rfl rfl

theorem RequestsStep.sent {s s' s'' : System} {m : Message} (h : s.clientSend m = some s')
    (queries : s''.client.queries = s'.client.queries)
    (handled : s''.client.handled = s'.client.handled) (issued : s''.issued = s'.issued) :
    RequestsStep s s'' := by
  have hsame := clientSend_same h
  rw [hsame.client] at queries handled
  exact .other queries handled (issued.trans hsame.issued)

theorem RequestsStep.message {s : System} (d : NetworkMessage) {s' : System}
    (client : s'.client = final (Client.onNewMessage d s.client))
    (issued : s'.issued = s.issued) : RequestsStep s s' := by
  rw [Client.onNewMessage,bind_apply,get_apply] at client
  rcases Message.ofFrame_state [.PUBLISH,.OK,.LOGIN_CONFIRM] s.client.unknowKind d s.client with
    ⟨m,hm⟩ | ⟨e,hm⟩
  · simp only [bind_apply,hm] at client
    have hcases := Client.handle_cases m s.client
    rw [← client] at hcases
    generalize hc : s'.client = c' at hcases
    cases hcases with
    | other pool queries next released handled =>
      exact .other (hc ▸ queries) (hc ▸ handled) issued
    | ok known pool queries next released handled =>
      exact .answered _ (hc ▸ queries) (hc ▸ handled) issued
  · simp only [bind_apply,hm,final_error] at client
    exact .other (by rw [client]) (by rw [client]) issued

theorem onConnect_requests (s : System) (k : Nat) (order : List Publish) :
    RequestsStep s (s.onConnect k order) := by
  unfold System.onConnect
  split
  · exact .refl s
  · split
    · exact .refl s
    · rename_i s' hs
      exact .sent hs rfl rfl rfl
  · split
    · exact .other rfl rfl rfl
    · exact .refl s
  · exact .refl s
  · split
    · exact .refl s
    · rename_i s' hs
      exact .sent hs rfl rfl rfl

theorem step_requests (regex : RegexCompiler) (s : System) (e : SystemEvent) :
    RequestsStep s (s.step regex e) := by
  cases e with
  | call r ot =>
    simp only [step,System.call]
    split
    · exact .refl s
    · exact .issues r rfl rfl rfl
  | transmit =>
    simp only [step,transmit]
    split
    · exact .refl s
    · split
      · exact .refl s
      · rename_i s' hs
        exact .sent hs rfl rfl rfl
  | wake locker =>
    simp only [step,wake]
    split <;> exact .other rfl rfl rfl
  | connected => exact .other rfl rfl rfl
  | onConnect k order => exact s.onConnect_requests k order
  | networkError => exact .other rfl rfl rfl
  | receive k =>
    simp only [step,receive]
    split
    · rename_i d bytes _
      split
      · split
        · exact .message d rfl rfl
        · exact .refl s
      · exact .refl s
    · exact .refl s
  | accept k =>
    simp only [step,accept]
    split <;> exact .other rfl rfl rfl
  | serve k =>
    simp only [step,serve]
    split
    · split <;> exact .other rfl rfl rfl
    · exact .refl s
  | close k =>
    simp only [step,close]
    split <;> exact .other rfl rfl rfl
  | serverCall call => cases call <;> exact .other rfl rfl rfl
  | loseUp k n => exact .other rfl rfl rfl
  | loseDown k n => exact .other rfl rfl rfl
  | peerConnects => exact .other rfl rfl rfl
  | peerSends k bytes =>
    simp only [step]
    split <;> exact .other rfl rfl rfl

def Accounted (s : System) : Prop :=
  ∀ k < s.issued.length,
    s.client.queries[UInt64.ofNat k]? = some k ∨ UInt64.ofNat k ∈ s.client.handled

theorem Accounted.step {s s' : System} (h : s.Accounted) (next : s.client.nextMessageId =
    UInt64.ofNat s.issued.length) (few : s'.issued.length < 2^64) (hstep : RequestsStep s s') :
    s'.Accounted := by
  intro k hk
  cases hstep with
  | other queries handled issued =>
    rw [issued] at hk
    rw [queries,handled]
    exact h k hk
  | issues r queries handled issued =>
    rw [issued,List.length_append,List.length_singleton] at hk few
    rw [queries,handled,Client.issue_queries,next]
    rcases Nat.lt_or_eq_of_le (Nat.lt_succ_iff.mp hk) with hold | rfl
    · rw [if_neg (fun he => absurd (ofNat_inj (by omega) (by omega) he) (by omega))]
      exact h k hold
    · exact .inl (if_pos rfl)
  | answered n queries handled issued =>
    rw [issued] at hk
    rw [queries,handled,ExtTreeMap.getElem?_erase]
    by_cases hn : n = UInt64.ofNat k
    · exact .inr (by simp [hn])
    · rw [if_neg (fun he => hn (LawfulEqCmp.compare_eq_iff_eq.mp he))]
      rcases h k hk with hq | hh
      · exact .inl hq
      · exact .inr (List.mem_cons_of_mem _ hh)

theorem RequestsStep.handled_grows {s s' : System} (h : RequestsStep s s') {n : UInt64}
    (hn : n ∈ s.client.handled) : n ∈ s'.client.handled := by
  cases h with
  | other queries handled issued => rwa [handled]
  | issues r queries handled issued => rwa [handled]
  | answered m queries handled issued =>
    rw [handled]
    exact List.mem_cons_of_mem _ hn

variable {s : System}

theorem Honest.pool_iff (h : s.Honest) (n : UInt64) :
    n ∈ s.client.messagePool ↔ n ∉ s.client.handled ∧
      ∃ p, .publish p ∈ s.issued ∧ p.messageId = n := by
  rw [← ExtTreeMap.isSome_getElem?_iff_mem,Option.isSome_iff_exists]
  constructor
  · rintro ⟨p,hp⟩
    refine ⟨fun hn => ?_,p,(h.books.pool n p hp).2,(h.books.pool n p hp).1⟩
    rw [(h.books.handled n hn).2.2] at hp
    cases hp
  · rintro ⟨hn,p,hp,rfl⟩
    exact ⟨p,h.books.unacked p hp hn⟩

theorem Honest.mem_unacknowledged (h : s.Honest) (n : UInt64) :
    some n ∈ (s.issued.filter s.client.unacknowledged).map Message.requestId ↔
      n ∈ s.client.messagePool := by
  rw [h.pool_iff,List.mem_map]
  constructor
  · rintro ⟨m,hm,hid⟩
    obtain ⟨hm,hu⟩ := List.mem_filter.mp hm
    cases m with
    | publish p =>
      obtain rfl : p.messageId = n := Option.some.inj hid
      exact ⟨by simpa [Client.unacknowledged] using hu,p,hm,rfl⟩
    | _ => cases hu
  · rintro ⟨hn,p,hp,rfl⟩
    exact ⟨.publish p,List.mem_filter.mpr ⟨hp,by simpa [Client.unacknowledged] using hn⟩,rfl⟩

theorem Honest.messagesInPool (h : s.Honest) (few : s.issued.length < 2^64) :
    s.client.messagesInPool = (s.issued.filter s.client.unacknowledged).length := by
  have hids : s.issued.map Message.requestId =
      (List.range s.issued.length).map (fun k => some (UInt64.ofNat k)) := by
    refine List.ext_getElem (by simp) fun k hk hk' => ?_
    rw [List.length_map] at hk
    simpa using h.ids k _ (List.getElem?_eq_getElem hk)
  have hnodup : (s.issued.map Message.requestId).Nodup := by
    rw [hids]
    refine List.Nodup.map_on (fun j hj k hk he => ?_) List.nodup_range
    rw [List.mem_range] at hj hk
    exact ofNat_inj (by omega) (by omega) (Option.some.inj he)
  have hperm : (s.client.messagePool.keys.map some).Perm
      ((s.issued.filter s.client.unacknowledged).map Message.requestId) := by
    rw [List.perm_ext_iff_of_nodup
      (ExtTreeMap.nodup_keys.map (Option.some_injective _))
      (hnodup.sublist (List.filter_sublist.map _))]
    intro o
    cases o with
    | some n =>
      rw [h.mem_unacknowledged]
      simp
    | none =>
      constructor
      · intro hnone
        simp at hnone
      · intro hnone
        obtain ⟨m,hm,hid⟩ := List.mem_map.mp hnone
        have hu := (List.mem_filter.mp hm).2
        cases m with
        | publish p => cases hid
        | _ => cases hu
  have hlen := hperm.length_eq
  rwa [List.length_map,List.length_map,ExtTreeMap.length_keys] at hlen

theorem Honest.queries_isEmpty (h : s.Honest) (accounted : s.Accounted) :
    s.client.queries.isEmpty ↔
      ∀ k < s.issued.length, UInt64.ofNat k ∈ s.client.handled := by
  rw [ExtTreeMap.isEmpty_iff,ExtTreeMap.ext_getElem?_iff]
  constructor
  · intro hnone k hk
    rcases accounted k hk with hq | hh
    · rw [hnone] at hq
      simp at hq
    · exact hh
  · intro hall n
    cases hq : s.client.queries[n]? with
    | none => simp
    | some k =>
      obtain ⟨hk,rfl⟩ := h.books.queries n k hq
      rw [(h.books.handled _ (hall k hk)).2.1] at hq
      cases hq

theorem Honest.messagesInPool_zero (h : s.Honest)
    (hall : ∀ k < s.issued.length, UInt64.ofNat k ∈ s.client.handled) :
    s.client.messagesInPool = 0 := by
  have hempty : s.client.messagePool = ∅ := by
    refine ExtTreeMap.eq_empty_iff_forall_not_mem.mpr fun n hn => ?_
    obtain ⟨hnot,p,hp,rfl⟩ := (h.pool_iff n).mp hn
    obtain ⟨k,hk⟩ := List.getElem?_of_mem hp
    have hid := Option.some.inj (h.ids k _ hk)
    exact hnot (hid ▸ hall k (List.getElem?_eq_some_iff.mp hk).1)
  rw [Client.messagesInPool,hempty,ExtTreeMap.size_empty]

end System

namespace WaitingClient

variable {regex : RegexCompiler} {s : WaitingClient}

/-- Whoever has returned has seen the answers to all requests that had been made. -/
structure Informed (s : WaitingClient) : Prop where
  honest : s.system.Honest
  accounted : s.system.Accounted
  begun : ∀ w ∈ s.waiters, w.begun ≤ s.system.issued.length
  order : ∀ r ∈ s.returned, r.begun ≤ r.ended ∧ r.ended ≤ s.system.issued.length ∧ r.pooled = 0
  answered : ∀ r ∈ s.returned, ∀ k < r.ended, UInt64.ofNat k ∈ s.system.client.handled

theorem Informed.start (login : Str) (cache : ReCache) : (start login cache).Informed where
  honest := .start login cache
  accounted k h := by cases h
  begun w h := by cases h
  order r h := by cases h
  answered r h := by cases h

theorem Informed.system (h : s.Informed) (e : SystemEvent)
    (few : (s.system.step regex e).issued.length < 2^64) :
    (s.step regex (.system e)).Informed := by
  have hgrow := (s.system.issued_step regex e).length_le
  have hstep := s.system.step_requests regex e
  constructor
  · exact h.honest.step regex e (by omega)
  · exact h.accounted.step h.honest.books.next few hstep
  · exact fun w hw => (h.begun w hw).trans hgrow
  · intro r hr
    obtain ⟨hbegun,hended,hpooled⟩ := h.order r hr
    exact ⟨hbegun,hended.trans hgrow,hpooled⟩
  · exact fun r hr k hk => hstep.handled_grows (h.answered r hr k hk)

theorem Informed.waitAll (h : s.Informed) : s.waitAll.Informed := by
  refine ⟨h.honest,h.accounted,fun w hw => ?_,h.order,h.answered⟩
  rcases List.mem_append.mp hw with hw | hw
  · exact h.begun w hw
  · rw [List.mem_singleton.mp hw]
    exact Nat.le_refl _

theorem Informed.setWaiter (h : s.Informed) {k : Nat} {w w' : Waiter} (hk : s.waiters[k]? = some w)
    (begun : w'.begun = w.begun) :
    { s with waiters := s.waiters.set k w' : WaitingClient }.Informed := by
  refine ⟨h.honest,h.accounted,fun v hv => ?_,h.order,h.answered⟩
  rcases List.mem_or_eq_of_mem_set hv with hv | rfl
  · exact h.begun v hv
  · rw [begun]
    exact h.begun w (List.mem_of_getElem? hk)

theorem Informed.waits (h : s.Informed) (k : Nat) : (s.waits k).Informed := by
  unfold WaitingClient.waits
  split
  · exact h
  · rename_i w hk
    split
    · split
      · exact h
      · split
        · rename_i hempty
          have hall := (h.honest.queries_isEmpty h.accounted).mp hempty
          have hbegun := h.begun w (List.mem_of_getElem? hk)
          refine ⟨h.honest,h.accounted,fun v hv => h.begun v (List.mem_of_mem_eraseIdx hv),
            fun r hr => ?_,fun r hr => ?_⟩
          · rcases List.mem_append.mp hr with hr | hr
            · exact h.order r hr
            · rw [List.mem_singleton.mp hr]
              exact ⟨hbegun,Nat.le_refl _,h.honest.messagesInPool_zero hall⟩
          · rcases List.mem_append.mp hr with hr | hr
            · exact h.answered r hr
            · rw [List.mem_singleton.mp hr]
              exact hall
        · exact h.setWaiter hk rfl
    · split
      · exact h.setWaiter hk rfl
      · exact h

end WaitingClient

end Dqueue
