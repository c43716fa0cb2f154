import Dqueue.NodeRuns
import Dqueue.Lib.Scan

/-!
The consumers of a client (`IQueueClient`). A consumer gets its id when it is
first used; the ids of the consumers of a queue are kept in order, and each
consumer has the settings of the subscription it was used with last.
-/

set_option autoImplicit false

namespace Dqueue
open Std Effects RawMem

/-- An `EventConsumer`, known by its address. -/
abbrev EventConsumer := Nat

def EventConsumer.DefaultId : Id := 18446744073709551615

/-- `consumerId` has the `_consumerId` of the consumers for which it was set,
`cache` is that of the process, and `consumed` has the calls of `consume`. -/
structure Consumers where
  nextConsumersId : Id
  eventHandlers : ExtTreeMap Id (Option EventConsumer × SubscriptionParams)
  queue2handler : ExtTreeMap Str (ExtTreeSet Id)
  consumerId : ExtTreeMap EventConsumer Id
  cache : ReCache
  consumed : List (EventConsumer × PublishParams × Bytes × Id)

namespace Consumers

def start (cache : ReCache) : Consumers := ⟨0,∅,∅,∅,cache,[]⟩

def getId (c : Consumers) (handler : EventConsumer) : Id :=
  c.consumerId[handler]?.getD EventConsumer.DefaultId

/-- `_queue2handler[queueName]`, empty when it is not there. -/
def handlers (c : Consumers) (queueName : Str) : ExtTreeSet Id :=
  c.queue2handler[queueName]?.getD ∅

def enrol (settings : SubscriptionParams) (handler : Option EventConsumer) (id : Id)
    (c : Consumers) : Consumers :=
  { c with
    eventHandlers := c.eventHandlers.insert id (handler,settings)
    queue2handler := c.queue2handler.insert settings.queueName
      ((c.handlers settings.queueName).insert id) }

/-- A null pointer is passed over. The entry of a consumer that already has an id
keeps its pointer. -/
def addHandler (settings : SubscriptionParams) (handler : Option EventConsumer) :
    EStateM Failure Consumers Unit :=
  match handler with
  | none => pure ()
  | some h => do
    let c ← get
    if c.getId h ≠ EventConsumer.DefaultId then
      match c.eventHandlers[c.getId h]? with
      | none => throw (.thrown ⟨"Reuse  of the handler"⟩)
      | some it => set (c.enrol settings it.1 (c.getId h))
    else
      set (enrol settings handler c.nextConsumersId { c with
        nextConsumersId := c.nextConsumersId+1
        consumerId := c.consumerId.insert h c.nextConsumersId })

def rmHandler (handler : EventConsumer) : EStateM Failure Consumers Unit :=
  modify (fun c => { c with eventHandlers := c.eventHandlers.erase (c.getId handler) })

def onCache {α : Type} (x : EStateM Exception ReCache α) : EStateM Failure Consumers α :=
  (on cache (fun r c => { c with cache := r }) x).adaptExcept .thrown

variable (regex : RegexCompiler)

/-- The loop of `callConsumer`. `operator[]` makes an entry with a null pointer
and without a tag for an id that is not there. -/
def callEach (info : PublishParams) (d : Bytes) (id : Id) : List Id → EStateM Failure Consumers Unit
  | [] => pure ()
  | v :: vs => do
    let c ← get
    let es := c.eventHandlers[v]?.getD (none,⟨[],[]⟩)
    set { c with eventHandlers := c.eventHandlers.insert v es }
    let isTarget ← onCache (es.2.checkTag regex info.tag)
    if isTarget then
      match es.1 with
      | none => throw .nullDereference
      | some handler => modify (fun c => { c with consumed := c.consumed ++ [(handler,info,d,id)] })
    callEach info d id vs

def callConsumer (info : PublishParams) (d : Bytes) (id : Id) : EStateM Failure Consumers Unit := do
  let c ← get
  callEach regex info d id (c.handlers info.queueName).toList

variable {regex}

theorem addHandler_final (settings : SubscriptionParams) (handler : Option EventConsumer)
    (c : Consumers) : final (addHandler settings handler c) = c ∨
      (handler ≠ none ∧ ∃ c' p id, final (addHandler settings handler c) = enrol settings p id c' ∧
        c'.eventHandlers = c.eventHandlers ∧ c'.queue2handler = c.queue2handler ∧
        c'.cache = c.cache ∧ c'.consumed = c.consumed ∧
        (p = handler ∨ ∃ it : Option EventConsumer × SubscriptionParams,
          c.eventHandlers[id]? = some it ∧ p = it.1)) := by
  cases handler with
  | none => exact .inl rfl
  | some g =>
    simp only [addHandler,bind_apply,get_apply]
    by_cases hid : c.getId g = EventConsumer.DefaultId
    · simp only [hid,ne_eq,not_true,if_false,set_apply,final_ok]
      exact .inr ⟨by simp,_,_,_,rfl,rfl,rfl,rfl,rfl,.inl rfl⟩
    · simp only [hid,ne_eq,not_false_eq_true,if_true]
      cases he : c.eventHandlers[c.getId g]? with
      | none => exact .inl rfl
      | some it => exact .inr ⟨by simp,_,_,_,rfl,rfl,rfl,rfl,rfl,.inr ⟨it,he,rfl⟩⟩

theorem onCache_run {α : Type} (x : EStateM Exception ReCache α) (c : Consumers) :
    onCache x c = match x c.cache with
      | .ok a r => .ok a { c with cache := r }
      | .error e r => .error (.thrown e) { c with cache := r } := by
  simp only [onCache,EStateM.adaptExcept,on]
  cases x c.cache <;> rfl

end Consumers

variable (regex : RegexCompiler) in
/-- A tag that is not empty and not an expression. -/
def Uncompilable (tag : Str) : Prop := tag ≠ [] ∧ regex tag = none

instance (regex : RegexCompiler) (tag : Str) : Decidable (Uncompilable regex tag) :=
  inferInstanceAs (Decidable (_ ∧ _))

section Tags

variable {regex : RegexCompiler}

theorem uncompilable_nil : ¬ Uncompilable regex [] := fun h => h.1 rfl

theorem SubscriptionParams.checkTag_run {cache : ReCache} (sound : ReCache.Sound regex cache)
    (sp : SubscriptionParams) (tag_ : Str) :
    (Uncompilable regex sp.tag ∧ ∃ e, sp.checkTag regex tag_ cache = .error e cache) ∨
      (¬ Uncompilable regex sp.tag ∧ ∃ cache', ReCache.Sound regex cache' ∧
        sp.checkTag regex tag_ cache = .ok (tagMatches regex sp.tag tag_) cache') := by
  unfold SubscriptionParams.checkTag
  by_cases he : sp.tag = []
  · refine .inr ⟨he ▸ uncompilable_nil,cache,sound,?_⟩
    simp [he,tagMatches]
  · have hne : sp.tag.isEmpty = false := by simpa using he
    obtain ⟨cre,cache',hcre,hsound,hrun⟩ | ⟨e,hnone,hrun⟩ := ReCache.compile_run sound sp.tag
    · refine .inr ⟨fun h => absurd (hcre.symm.trans h.2) (by simp),cache',hsound,?_⟩
      simp [hne,hrun,tagMatches,hcre]
    · refine .inl ⟨⟨he,hnone⟩,e,?_⟩
      simp [hne,hrun]

end Tags

namespace Consumers

variable {regex : RegexCompiler} {info : PublishParams} {d : Bytes} {id : Id}

theorem callEach_cons (info : PublishParams) (d : Bytes) (id : Id) {c : Consumers}
    (sound : ReCache.Sound regex c.cache) {v : Id} {h : EventConsumer} {sp : SubscriptionParams}
    (hv : c.eventHandlers[v]? = some (some h,sp)) (vs : List Id) :
    ∃ cache, ReCache.Sound regex cache ∧
      if Uncompilable regex sp.tag then
        ∃ e, callEach regex info d id (v :: vs) c = .error (.thrown e) { c with cache := cache }
      else callEach regex info d id (v :: vs) c = callEach regex info d id vs { c with
        cache := cache
        consumed := if tagMatches regex sp.tag info.tag = true
          then c.consumed ++ [(h,info,d,id)] else c.consumed } := by
  have hsame : c.eventHandlers.insert v (some h,sp) = c.eventHandlers := by
    refine ExtTreeMap.ext_getElem? fun k => ?_
    rw [ExtTreeMap.getElem?_insert]
    split
    · rename_i hk
      rw [← LawfulEqCmp.compare_eq_iff_eq.mp hk,hv]
    · rfl
  simp only [callEach,bind_apply,get_apply,set_apply,hv,Option.getD_some,hsame,onCache_run]
  rcases sp.checkTag_run sound info.tag with ⟨hu,e,hc⟩ | ⟨hu,cache,hsound,hc⟩
  · refine ⟨c.cache,sound,?_⟩
    simp [hu,hc]
  · refine ⟨cache,hsound,?_⟩
    cases ht : tagMatches regex sp.tag info.tag <;> simp [hu,hc,ht]

def entry (c : Consumers) (v : Id) : Option EventConsumer × SubscriptionParams :=
  c.eventHandlers[v]?.getD (none,⟨[],[]⟩)

variable (regex) in
def called (c : Consumers) (tag_ : Str) (vs : List Id) : List Id :=
  Scan.reached (fun v => Uncompilable regex (c.entry v).2.tag)
    (fun v => tagMatches regex (c.entry v).2.tag tag_ = true) vs

theorem callEach_run (info : PublishParams) (d : Bytes) (id : Id) {c : Consumers}
    (sound : ReCache.Sound regex c.cache) (vs : List Id)
    (hvs : ∀ v ∈ vs, ∃ h sp, c.eventHandlers[v]? = some (some h,sp)) :
    ∃ cache, ReCache.Sound regex cache ∧ final (callEach regex info d id vs c) = { c with
      cache := cache
      consumed := c.consumed ++ (c.called regex info.tag vs).map
        (fun v => ((c.entry v).1.getD 0,info,d,id)) } := by
  induction vs generalizing c with
  | nil => exact ⟨c.cache,sound,by simp [callEach,called,Scan.reached]⟩
  | cons v vs ih =>
    obtain ⟨h,sp,hv⟩ := hvs v (by simp)
    have hentry : c.entry v = (some h,sp) := by simp [entry,hv]
    obtain ⟨cache,hsound,hrun⟩ := callEach_cons info d id sound hv vs
    split at hrun
    · rename_i hu
      obtain ⟨e,hrun⟩ := hrun
      refine ⟨cache,hsound,?_⟩
      rw [hrun]
      simp [called,Scan.reached,hentry,hu]
    · rename_i hu
      obtain ⟨cache',hsound',hrest⟩ := ih (c := { c with
        cache := cache
        consumed := if tagMatches regex sp.tag info.tag = true
          then c.consumed ++ [(h,info,d,id)] else c.consumed }) hsound
        (fun w hw => hvs w (by simp [hw]))
      refine ⟨cache',hsound',?_⟩
      rw [hrun,hrest]
      cases hm : tagMatches regex sp.tag info.tag with
      | true =>
        have hcalled : c.called regex info.tag (v :: vs) = v :: c.called regex info.tag vs := by
          simp [called,Scan.reached,hentry,hu,hm]
        simp [hcalled,hentry]
        rfl
      | false =>
        have hcalled : c.called regex info.tag (v :: vs) = c.called regex info.tag vs := by
          simp [called,Scan.reached,hentry,hu,hm]
        simp [hcalled]
        rfl

abbrev Calls := List (SubscriptionParams × Option EventConsumer)

def latest (h : EventConsumer) (calls : Calls) : Option SubscriptionParams :=
  (calls.reverse.find? (fun x => x.2 == some h)).map Prod.fst

theorem latest_append (h : EventConsumer) (calls : Calls)
    (x : SubscriptionParams × Option EventConsumer) :
    latest h (calls ++ [x]) = if x.2 = some h then some x.1 else latest h calls := by
  by_cases hx : x.2 = some h
  · simp [latest,hx]
  · have hne : (x.2 == some h) = false := by simpa using hx
    simp [latest,hx,hne]

/-- The registry after some calls, in which `hs` were used, in the order of their
first use; `In h q` says that the queue `q` has the consumer `h`. -/
structure Registry (calls : Calls) (In : EventConsumer → Str → Prop) (hs : List EventConsumer)
    (c : Consumers) : Prop where
  next : c.nextConsumersId = UInt64.ofNat hs.length
  ids : ∀ h, c.consumerId[h]? = if h ∈ hs then some (UInt64.ofNat (hs.idxOf h)) else none
  entries : ∀ h ∈ hs, ∃ sp, latest h calls = some sp ∧
    c.eventHandlers[UInt64.ofNat (hs.idxOf h)]? = some (some h,sp)
  fresh : ∀ h, h ∉ hs → latest h calls = none
  queues : ∀ q v, v ∈ c.handlers q ↔ ∃ h ∈ hs, In h q ∧ v = UInt64.ofNat (hs.idxOf h)

theorem Registry.start (In : EventConsumer → Str → Prop) (cache : ReCache) :
    Registry [] In [] (start cache) := by
  refine ⟨rfl,?_,by simp,fun h _ => rfl,?_⟩
  · simp [Consumers.start]
  · simp [Consumers.start,handlers]

theorem handlers_enrol (c : Consumers) (settings : SubscriptionParams)
    (handler : Option EventConsumer) (id : Id) (q : Str) (v : Id) :
    v ∈ (c.enrol settings handler id).handlers q ↔
      v ∈ c.handlers q ∨ (settings.queueName = q ∧ v = id) := by
  unfold enrol handlers
  rw [ExtTreeMap.getElem?_insert]
  by_cases hq : settings.queueName = q
  · subst hq
    simp [ExtTreeSet.mem_insert,eq_comm (a := v),or_comm]
  · have hne : ¬ compare settings.queueName q = .eq :=
      fun h => hq (LawfulEqCmp.compare_eq_iff_eq.mp h)
    simp [hne,hq]

theorem tagMatches_compilable {tag tag_ : Str} (h : tagMatches regex tag tag_ = true) :
    ¬ Uncompilable regex tag := by
  rintro ⟨hne,hre⟩
  simp [tagMatches,hne,hre] at h

section Ids

variable {hs : List EventConsumer} (few : hs.length ≤ 2^64-1)
include few

theorem toNat_id {h : EventConsumer} (hh : h ∈ hs) :
    (UInt64.ofNat (hs.idxOf h)).toNat = hs.idxOf h := by
  have hlt := List.idxOf_lt_length_of_mem hh
  refine UInt64.toNat_ofNat_of_lt' ?_
  simp only [UInt64.size]
  omega

theorem id_inj {g h : EventConsumer} (hg : g ∈ hs) (hh : h ∈ hs)
    (he : UInt64.ofNat (hs.idxOf g) = UInt64.ofNat (hs.idxOf h)) : g = h := by
  have ht := congrArg UInt64.toNat he
  rw [toNat_id few hg,toNat_id few hh] at ht
  exact (List.idxOf_inj hg).mp ht

theorem id_ne_default {h : EventConsumer} (hh : h ∈ hs) :
    UInt64.ofNat (hs.idxOf h) ≠ EventConsumer.DefaultId := by
  intro he
  have hlt := List.idxOf_lt_length_of_mem hh
  have ht := congrArg UInt64.toNat he
  rw [toNat_id few hh] at ht
  simp [EventConsumer.DefaultId] at ht
  omega

theorem id_ne_next {h : EventConsumer} (hh : h ∈ hs) :
    UInt64.ofNat hs.length ≠ UInt64.ofNat (hs.idxOf h) := by
  intro he
  have hlt := List.idxOf_lt_length_of_mem hh
  have ht := congrArg UInt64.toNat he
  rw [toNat_id few hh,UInt64.toNat_ofNat_of_lt' (by simp [UInt64.size]; omega)] at ht
  omega

end Ids

def newUser (hs : List EventConsumer) (handler : Option EventConsumer) : List EventConsumer :=
  match handler with
  | none => hs
  | some h => if h ∈ hs then hs else hs ++ [h]

variable (regex) in
/-- The loop gets to a consumer and calls it: its latest settings let the message,
and none of the queue's consumers with a smaller id has a tag that cannot be
compiled. -/
def Gets (calls : Calls) (In : EventConsumer → Str → Prop) (hs : List EventConsumer)
    (info : PublishParams) (h : EventConsumer) : Prop :=
  (∃ sp, latest h calls = some sp ∧ tagMatches regex sp.tag info.tag = true) ∧
    ∀ g sp', latest g calls = some sp' → In g info.queueName → hs.idxOf g < hs.idxOf h →
      ¬ Uncompilable regex sp'.tag

namespace Registry

variable {calls : Calls} {In : EventConsumer → Str → Prop} {hs : List EventConsumer}
  {c : Consumers}

theorem congr (r : Registry calls In hs c) {c' : Consumers}
    (next : c'.nextConsumersId = c.nextConsumersId)
    (handlers : c'.eventHandlers = c.eventHandlers) (queues : c'.queue2handler = c.queue2handler)
    (ids : c'.consumerId = c.consumerId) : Registry calls In hs c' := by
  refine ⟨next ▸ r.next,ids ▸ r.ids,handlers ▸ r.entries,r.fresh,fun q v => ?_⟩
  rw [Consumers.handlers,queues]
  exact r.queues q v

theorem imp (r : Registry calls In hs c) {In' : EventConsumer → Str → Prop}
    (hin : ∀ h ∈ hs, ∀ q, In h q ↔ In' h q) : Registry calls In' hs c := by
  refine ⟨r.next,r.ids,r.entries,r.fresh,fun q v => ?_⟩
  rw [r.queues]
  refine exists_congr fun h => and_congr_right fun hh => ?_
  rw [hin h hh q]

variable (r : Registry calls In hs c) (few : hs.length ≤ 2^64-1)
include r few

omit few in
theorem getId_mem {h : EventConsumer} (hh : h ∈ hs) : c.getId h = UInt64.ofNat (hs.idxOf h) := by
  simp [getId,r.ids,hh]

omit few in
theorem getId_new {h : EventConsumer} (hh : h ∉ hs) : c.getId h = EventConsumer.DefaultId := by
  simp [getId,r.ids,hh]

omit few in
theorem mem_of_latest {h : EventConsumer} {sp : SubscriptionParams}
    (hl : latest h calls = some sp) : h ∈ hs := by
  by_contra hn
  rw [r.fresh h hn] at hl
  cases hl

theorem lt_iff {g h : EventConsumer} (hg : g ∈ hs) (hh : h ∈ hs) :
    c.getId g < c.getId h ↔ hs.idxOf g < hs.idxOf h := by
  rw [r.getId_mem hg,r.getId_mem hh,UInt64.lt_iff_toNat_lt,toNat_id few hg,toNat_id few hh]

theorem enrol_again {sp : SubscriptionParams} {h : EventConsumer} (hh : h ∈ hs) :
    Registry (calls ++ [(sp,some h)]) (fun g q => In g q ∨ (g = h ∧ sp.queueName = q)) hs
      (c.enrol sp (some h) (UInt64.ofNat (hs.idxOf h))) := by
  refine ⟨r.next,r.ids,?_,?_,?_⟩
  · intro g hg
    have hinsert : (c.enrol sp (some h) (UInt64.ofNat (hs.idxOf h))).eventHandlers[
        UInt64.ofNat (hs.idxOf g)]? =
        if h = g then some (some h,sp) else c.eventHandlers[UInt64.ofNat (hs.idxOf g)]? := by
      simp only [enrol,ExtTreeMap.getElem?_insert,LawfulEqCmp.compare_eq_iff_eq]
      by_cases hgh : h = g
      · simp [hgh]
      · have hids : UInt64.ofNat (hs.idxOf h) ≠ UInt64.ofNat (hs.idxOf g) :=
          fun he => hgh (id_inj few hh hg he)
        simp [hids,hgh]
    rw [latest_append,hinsert]
    by_cases hgh : h = g
    · subst hgh
      exact ⟨sp,by simp,by simp⟩
    · simpa [hgh] using r.entries g hg
  · intro g hg
    have hgh : h ≠ g := fun he => hg (he ▸ hh)
    simpa [latest_append,hgh] using r.fresh g hg
  · intro q v
    rw [handlers_enrol,r.queues]
    constructor
    · rintro (⟨g,hg,hin,rfl⟩ | ⟨rfl,rfl⟩)
      · exact ⟨g,hg,.inl hin,rfl⟩
      · exact ⟨h,hh,.inr ⟨rfl,rfl⟩,rfl⟩
    · rintro ⟨g,hg,hin | ⟨rfl,hq⟩,rfl⟩
      · exact .inl ⟨g,hg,hin,rfl⟩
      · exact .inr ⟨hq,rfl⟩

theorem enrol_first {sp : SubscriptionParams} {h : EventConsumer} (hh : h ∉ hs)
    (hin : ∀ q, ¬ In h q) :
    Registry (calls ++ [(sp,some h)]) (fun g q => In g q ∨ (g = h ∧ sp.queueName = q)) (hs ++ [h])
      (enrol sp (some h) c.nextConsumersId { c with
        nextConsumersId := c.nextConsumersId+1
        consumerId := c.consumerId.insert h c.nextConsumersId }) := by
  have hold : ∀ g ∈ hs, (hs ++ [h]).idxOf g = hs.idxOf g := fun g hg =>
    List.idxOf_append_of_mem hg
  have hnew : (hs ++ [h]).idxOf h = hs.length := by
    rw [List.idxOf_append_of_notMem hh]
    simp
  constructor
  · simp [enrol,r.next,UInt64.ofNat_add]
  · intro g
    simp only [enrol,ExtTreeMap.getElem?_insert,LawfulEqCmp.compare_eq_iff_eq,r.ids,r.next]
    by_cases hgh : h = g
    · subst hgh
      simp [hnew]
    · have hgh' : g ≠ h := fun he => hgh he.symm
      by_cases hg : g ∈ hs
      · simp [hgh,hg,hold g hg]
      · simp [hgh,hgh',hg]
  · intro g hg
    simp only [enrol,ExtTreeMap.getElem?_insert,LawfulEqCmp.compare_eq_iff_eq,r.next,latest_append]
    rcases List.mem_append.mp hg with hg | hg
    · have hgh : h ≠ g := fun he => hh (he ▸ hg)
      simpa [hgh,hold g hg,id_ne_next few hg] using r.entries g hg
    · obtain rfl := List.mem_singleton.mp hg
      exact ⟨sp,by simp,by simp [hnew]⟩
  · intro g hg
    simp only [List.mem_append,List.mem_singleton,not_or] at hg
    have hgh : h ≠ g := fun he => hg.2 he.symm
    simpa [latest_append,hgh] using r.fresh g hg.1
  · intro q v
    have hsame : ∀ q, handlers { c with
        nextConsumersId := c.nextConsumersId+1
        consumerId := c.consumerId.insert h c.nextConsumersId } q = c.handlers q := fun _ => rfl
    rw [handlers_enrol,hsame,r.queues,r.next]
    constructor
    · rintro (⟨g,hg,hgq,rfl⟩ | ⟨rfl,rfl⟩)
      · exact ⟨g,by simp [hg],.inl hgq,by rw [hold g hg]⟩
      · exact ⟨h,by simp,.inr ⟨rfl,rfl⟩,by rw [hnew]⟩
    · rintro ⟨g,hg,hgq,rfl⟩
      rcases List.mem_append.mp hg with hg | hg
      · have hgh : g ≠ h := fun he => hh (he ▸ hg)
        exact .inl ⟨g,hg,hgq.resolve_right fun he => hgh he.1,by rw [hold g hg]⟩
      · obtain rfl := List.mem_singleton.mp hg
        exact .inr ⟨(hgq.resolve_left (hin q)).2,by rw [hnew]⟩

theorem addHandler (sp : SubscriptionParams) (handler : Option EventConsumer)
    (hin : ∀ h ∉ hs, ∀ q, ¬ In h q) :
    ∃ c', Consumers.addHandler sp handler c = .ok () c' ∧
      Registry (calls ++ [(sp,handler)])
        (fun g q => In g q ∨ (some g = handler ∧ sp.queueName = q)) (newUser hs handler) c' ∧
      c'.cache = c.cache ∧ c'.consumed = c.consumed := by
  cases handler with
  | none =>
    refine ⟨c,rfl,⟨r.next,r.ids,?_,?_,?_⟩,rfl,rfl⟩
    · intro h hh
      simpa [newUser,latest_append] using r.entries h hh
    · intro h hh
      simpa [latest_append] using r.fresh h hh
    · simpa [newUser] using r.queues
  | some h =>
    simp only [Option.some.injEq,newUser]
    by_cases hh : h ∈ hs
    · obtain ⟨old,-,hentry⟩ := r.entries h hh
      have hrun : Consumers.addHandler sp (some h) c =
          .ok () (c.enrol sp (some h) (UInt64.ofNat (hs.idxOf h))) := by
        simp only [Consumers.addHandler,bind_apply,get_apply,r.getId_mem hh,
          id_ne_default few hh,ne_eq,not_false_eq_true,if_true,hentry]
        rfl
      rw [if_pos hh]
      exact ⟨_,hrun,r.enrol_again few hh,rfl,rfl⟩
    · rw [if_neg hh]
      exact ⟨_,by simp [Consumers.addHandler,r.getId_new hh],
        r.enrol_first few hh (hin h hh),rfl,rfl⟩

theorem callConsumer (sound : ReCache.Sound regex c.cache) (info : PublishParams) (d : Bytes)
    (id : Id) :
    ∃ cache calls', ReCache.Sound regex cache ∧
      final (Consumers.callConsumer regex info d id c) =
        { c with cache := cache, consumed := c.consumed ++ calls' } ∧
      calls'.Nodup ∧ (∀ x ∈ calls', x.2 = (info,d,id)) ∧
      ∀ h, (h,info,d,id) ∈ calls' ↔
        h ∈ hs ∧ In h info.queueName ∧ Gets regex calls In hs info h := by
  have hvs : ∀ v ∈ (c.handlers info.queueName).toList, ∃ h ∈ hs, v = c.getId h ∧
      In h info.queueName ∧ ∃ sp, latest h calls = some sp ∧
      c.eventHandlers[v]? = some (some h,sp) := by
    intro v hv
    obtain ⟨h,hh,hq,rfl⟩ := (r.queues _ _).mp (ExtTreeSet.mem_toList.mp hv)
    obtain ⟨sp,hl,he⟩ := r.entries h hh
    exact ⟨h,hh,(r.getId_mem hh).symm,hq,sp,hl,he⟩
  have hmem : ∀ h ∈ hs, In h info.queueName →
      c.getId h ∈ (c.handlers info.queueName).toList := by
    intro h hh hq
    rw [ExtTreeSet.mem_toList,r.queues]
    exact ⟨h,hh,hq,r.getId_mem hh⟩
  have hentry : ∀ h sp, latest h calls = some sp → c.entry (c.getId h) = (some h,sp) := by
    intro h sp hl
    have hh := r.mem_of_latest hl
    obtain ⟨sp',hl',he⟩ := r.entries h hh
    cases hl.symm.trans hl'
    rw [r.getId_mem hh,entry,he]
    rfl
  have hordered : (c.handlers info.queueName).toList.Pairwise (· < ·) :=
    ExtTreeSet.ordered_toList.imp compare_eq_lt.mp
  have hcalled : ∀ v, v ∈ c.called regex info.tag (c.handlers info.queueName).toList ↔ _ := fun v =>
    Scan.mem_reached (r := (· < ·)) (fun a b => UInt64.lt_asymm) hordered
  obtain ⟨cache,hsound,hrun⟩ := callEach_run info d id sound
    (c.handlers info.queueName).toList fun v hv => by
      obtain ⟨h,-,-,-,sp,-,he⟩ := hvs v hv
      exact ⟨h,sp,he⟩
  refine ⟨cache,_,hsound,hrun,?_,by simp,fun h => ?_⟩
  · refine List.Nodup.map_on (fun v hv w hw he => ?_)
      ((Scan.reached_sublist _).nodup (hordered.imp UInt64.ne_of_lt))
    obtain ⟨g,-,rfl,-,sp,hg,-⟩ := hvs v ((hcalled v).mp hv).1
    obtain ⟨h,-,rfl,-,sp',hh,-⟩ := hvs w ((hcalled w).mp hw).1
    have hgh : g = h := by simpa [hentry g sp hg,hentry h sp' hh] using he
    rw [hgh]
  · simp only [List.mem_map,Prod.mk.injEq,and_true]
    constructor
    · rintro ⟨v,hv,hget⟩
      obtain ⟨hv,hm,-,hbefore⟩ := (hcalled v).mp hv
      obtain ⟨g,hg,rfl,hq,sp,hl,-⟩ := hvs v hv
      rw [hentry g sp hl] at hget hm
      obtain rfl : g = h := hget
      refine ⟨hg,hq,⟨sp,hl,hm⟩,fun g' sp' hl' hq' hlt => ?_⟩
      have hg' := r.mem_of_latest hl'
      have hb := hbefore (c.getId g') (hmem g' hg' hq') ((r.lt_iff few hg' hg).mpr hlt)
      rwa [hentry g' sp' hl'] at hb
    · rintro ⟨hh,hq,⟨sp,hl,hm⟩,hbefore⟩
      refine ⟨c.getId h,(hcalled _).mpr ⟨hmem h hh hq,?_,?_,fun w hw hlt => ?_⟩,
        by simp [hentry h sp hl]⟩
      · rw [hentry h sp hl]
        exact hm
      · rw [hentry h sp hl]
        exact tagMatches_compilable hm
      · obtain ⟨g,hg,rfl,hq',sp',hl',-⟩ := hvs w hw
        rw [hentry g sp' hl']
        exact hbefore g sp' hl' hq' ((r.lt_iff few hg hh).mp hlt)

end Registry

structure Registered (queue : EventConsumer → Str) (calls : Calls) (hs : List EventConsumer)
    (c : Consumers) : Prop where
  next : c.nextConsumersId = UInt64.ofNat hs.length
  bound : hs.length ≤ calls.length
  ids : ∀ h, c.consumerId[h]? = if h ∈ hs then some (UInt64.ofNat (hs.idxOf h)) else none
  entries : ∀ h ∈ hs, ∃ sp, latest h calls = some sp ∧ sp.queueName = queue h ∧
    c.eventHandlers[UInt64.ofNat (hs.idxOf h)]? = some (some h,sp)
  fresh : ∀ h, h ∉ hs → latest h calls = none
  queues : ∀ q v, v ∈ c.handlers q ↔ ∃ h ∈ hs, queue h = q ∧ v = UInt64.ofNat (hs.idxOf h)

variable (regex) in
/-- A message passes a consumer: it is subscribed to the queue with a tag that
lets the message, and no consumer of the queue with a smaller id has a tag that
cannot be compiled. -/
def Passes (calls : Calls) (info : PublishParams) (c : Consumers) (h : EventConsumer) : Prop :=
  ∃ sp, latest h calls = some sp ∧ sp.queueName = info.queueName ∧
    tagMatches regex sp.tag info.tag = true ∧
    ∀ g sp', latest g calls = some sp' → sp'.queueName = info.queueName →
      c.getId g < c.getId h → ¬ Uncompilable regex sp'.tag

namespace Registered

variable {queue : EventConsumer → Str} {calls : Calls} {hs : List EventConsumer} {c : Consumers}

theorem of_registry (r : Registry calls (fun h q => h ∈ hs ∧ queue h = q) hs c)
    (bound : hs.length ≤ calls.length)
    (hq : ∀ h sp, latest h calls = some sp → sp.queueName = queue h) :
    Registered queue calls hs c := by
  refine ⟨r.next,bound,r.ids,fun h hh => ?_,r.fresh,fun q v => ?_⟩
  · obtain ⟨sp,hl,he⟩ := r.entries h hh
    exact ⟨sp,hl,hq h sp hl,he⟩
  · rw [r.queues]
    exact exists_congr fun h => and_congr_right fun hh => by simp [hh]

theorem start (queue : EventConsumer → Str) (cache : ReCache) :
    Registered queue [] [] (start cache) :=
  .of_registry (Registry.start _ cache) (Nat.le_refl _) fun h sp hl => by cases hl

variable (r : Registered queue calls hs c) (few : calls.length < 2^64-1)
include r

theorem registry : Registry calls (fun h q => h ∈ hs ∧ queue h = q) hs c := by
  refine ⟨r.next,r.ids,fun h hh => ?_,r.fresh,fun q v => ?_⟩
  · obtain ⟨sp,hl,-,he⟩ := r.entries h hh
    exact ⟨sp,hl,he⟩
  · rw [r.queues]
    exact exists_congr fun h => and_congr_right fun hh => by simp [hh]

theorem queue_latest {h : EventConsumer} {sp : SubscriptionParams} (hl : latest h calls = some sp) :
    sp.queueName = queue h := by
  obtain ⟨sp',hl',hq,-⟩ := r.entries h (r.registry.mem_of_latest hl)
  cases hl.symm.trans hl'
  exact hq

theorem congr {c' : Consumers} (next : c'.nextConsumersId = c.nextConsumersId)
    (handlers : c'.eventHandlers = c.eventHandlers) (queues : c'.queue2handler = c.queue2handler)
    (ids : c'.consumerId = c.consumerId) : Registered queue calls hs c' :=
  .of_registry (r.registry.congr next handlers queues ids) r.bound fun _ _ hl => r.queue_latest hl

include few

theorem addHandler {sp : SubscriptionParams} {handler : Option EventConsumer}
    (hq : ∀ h ∈ handler, sp.queueName = queue h) :
    ∃ c' hs', Consumers.addHandler sp handler c = .ok () c' ∧
      Registered queue (calls ++ [(sp,handler)]) hs' c' ∧ c'.cache = c.cache ∧
      c'.consumed = c.consumed := by
  have hb := r.bound
  obtain ⟨c',hrun,r',hcache,hconsumed⟩ := r.registry.addHandler (by omega) sp handler
    fun h hh q hin => hh hin.1
  refine ⟨c',_,hrun,.of_registry (r'.imp fun g hg q => ?_) ?_ fun g sp' hl => ?_,hcache,hconsumed⟩
  · -- a consumer that is new in its queue is new in the list of consumers
    cases handler with
    | none => simp [newUser]
    | some h =>
      have hqh := hq h rfl
      by_cases hgh : g = h
      · subst hgh
        simp [hg,hqh]
      · have hmem : g ∈ newUser hs (some h) ↔ g ∈ hs := by
          by_cases hh : h ∈ hs <;> simp [newUser,hh,hgh]
        simp [hgh,hmem]
  · cases handler with
    | none => simp [newUser]; omega
    | some h =>
      by_cases hh : h ∈ hs <;> simp [newUser,hh] <;> omega
  · rw [latest_append] at hl
    split at hl
    · rename_i hg
      cases hl
      exact hq g hg
    · exact r.queue_latest hl

theorem callConsumer (sound : ReCache.Sound regex c.cache) (info : PublishParams) (d : Bytes)
    (id : Id) :
    ∃ cache calls', ReCache.Sound regex cache ∧
      final (Consumers.callConsumer regex info d id c) =
        { c with cache := cache, consumed := c.consumed ++ calls' } ∧
      calls'.Nodup ∧ ∀ h, (h,info,d,id) ∈ calls' ↔ c.Passes regex calls info h := by
  have hb := r.bound
  have hfew : hs.length ≤ 2^64-1 := by omega
  obtain ⟨cache,calls',hsound,hrun,hnodup,-,hmem⟩ := r.registry.callConsumer hfew sound info d id
  refine ⟨cache,calls',hsound,hrun,hnodup,fun h => (hmem h).trans ?_⟩
  constructor
  · rintro ⟨hh,⟨-,hqh⟩,⟨sp,hl,ht⟩,hbefore⟩
    refine ⟨sp,hl,(r.queue_latest hl).trans hqh,ht,fun g sp' hl' hq' hlt => ?_⟩
    have hg := r.registry.mem_of_latest hl'
    exact hbefore g sp' hl' ⟨hg,(r.queue_latest hl').symm.trans hq'⟩
      ((r.registry.lt_iff hfew hg hh).mp hlt)
  · rintro ⟨sp,hl,hq,ht,hbefore⟩
    have hh := r.registry.mem_of_latest hl
    refine ⟨hh,⟨hh,(r.queue_latest hl).symm.trans hq⟩,⟨sp,hl,ht⟩,fun g sp' hl' hin hlt => ?_⟩
    exact hbefore g sp' hl' ((r.queue_latest hl').trans hin.2)
      ((r.registry.lt_iff hfew hin.1 hh).mpr hlt)

end Registered

end Consumers

end Dqueue
