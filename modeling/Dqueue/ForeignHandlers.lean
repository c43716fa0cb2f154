import Dqueue.HandlerRegistry

/-!
Two clients in one process. The ids of consumers are counted by each client and
kept in the consumer, so that a client may take the consumer of another for one
of its own.
-/

set_option autoImplicit false

namespace Dqueue
open Std Effects RawMem

/-- Two clients of one process. A consumer has one id, whichever client uses it. -/
structure ClientPair where
  a : Consumers
  b : Consumers

inductive PairCall where
  | a (call : RegistryCall)
  | b (call : RegistryCall)
  deriving DecidableEq, Repr

namespace ClientPair

def start (cache : ReCache) : ClientPair := ⟨Consumers.start cache,Consumers.start cache⟩

def share (c other : Consumers) : Consumers :=
  { c with consumerId := other.consumerId, cache := other.cache }

variable (regex : RegexCompiler)

def step (w : ClientPair) : PairCall → ClientPair
  | .a call => ⟨w.a.step regex call,share w.b (w.a.step regex call)⟩
  | .b call => ⟨share w.a (w.b.step regex call),w.b.step regex call⟩

def run (w : ClientPair) (calls : List PairCall) : ClientPair := calls.foldl (step regex) w

end ClientPair

/-- The consumers to which a client has given an id, with the one that a call adds
to them: a consumer that no client has used before. -/
def RegistryCall.grown (own other : List EventConsumer) : RegistryCall → List EventConsumer
  | .addHandler _ (some h) => if h ∈ own ∨ h ∈ other then own else own ++ [h]
  | _ => own

def PairCall.numbered (calls : List PairCall) : List EventConsumer × List EventConsumer :=
  calls.foldl (fun hs call =>
    match call with
    | .a call => (call.grown hs.1 hs.2,hs.2)
    | .b call => (hs.1,call.grown hs.2 hs.1)) ([],[])

namespace Consumers

structure Ids (own other : List EventConsumer) (ids : ExtTreeMap EventConsumer Id) : Prop where
  mine : ∀ h ∈ own, ids[h]? = some (UInt64.ofNat (own.idxOf h))
  others : ∀ h ∈ other, ids[h]? = some (UInt64.ofNat (other.idxOf h))
  fresh : ∀ h, h ∉ own → h ∉ other → ids[h]? = none

theorem Ids.symm {own other : List EventConsumer} {ids : ExtTreeMap EventConsumer Id}
    (h : Ids own other ids) : Ids other own ids :=
  ⟨h.others,h.mine,fun g hg hg' => h.fresh g hg' hg⟩

structure Side (own other : List EventConsumer) (c : Consumers) : Prop where
  next : c.nextConsumersId = UInt64.ofNat own.length
  ids : Ids own other c.consumerId
  keys : ∀ v ∈ c.eventHandlers, v.toNat < own.length
  queues : ∀ q v, v ∈ c.handlers q → v.toNat < own.length

structure Reads (K : Id → Prop) (c c' : Consumers) : Prop where
  next : c'.nextConsumersId = c.nextConsumersId
  ids : c'.consumerId = c.consumerId
  queues : c'.queue2handler = c.queue2handler
  keys : (∀ v ∈ c.eventHandlers, K v) → ∀ v ∈ c'.eventHandlers, K v

section Side

variable {regex : RegexCompiler} {K : Id → Prop} {own other : List EventConsumer} {c : Consumers}

theorem Reads.refl (c : Consumers) : Reads K c c := ⟨rfl,rfl,rfl,fun h => h⟩

theorem Reads.trans (c₁ c₂ c₃ : Consumers) (h : Reads K c₁ c₂) (h' : Reads K c₂ c₃) :
    Reads K c₁ c₃ :=
  ⟨h'.next.trans h.next,h'.ids.trans h.ids,h'.queues.trans h.queues,fun hk => h'.keys (h.keys hk)⟩

theorem callEach_reads (info : PublishParams) (d : Bytes) (id : Id) (vs : List Id)
    (hvs : ∀ v ∈ vs, K v) : Within (Reads K) (callEach regex info d id vs) := by
  induction vs with
  | nil => exact .pure Reads.refl ()
  | cons v vs ih =>
    have hrest := ih fun w hw => hvs w (by simp [hw])
    have hcheck : ∀ es : Option EventConsumer × SubscriptionParams,
        Within (Reads K) (onCache (es.2.checkTag regex info.tag)) := by
      intro es c
      rw [onCache_run]
      cases es.2.checkTag regex info.tag c.cache with
      | ok b cache => exact ⟨rfl,rfl,rfl,fun hk => hk⟩
      | error e cache => exact ⟨rfl,rfl,rfl,fun hk => hk⟩
    intro c
    have hinsert : Reads K c { c with
        eventHandlers := c.eventHandlers.insert v (c.eventHandlers[v]?.getD (none,⟨[],[]⟩)) } := by
      refine ⟨rfl,rfl,rfl,fun hk w hw => ?_⟩
      rcases ExtTreeMap.mem_insert.mp hw with he | hw
      · rw [← LawfulEqCmp.compare_eq_iff_eq.mp he]
        exact hvs v (by simp)
      · exact hk w hw
    refine hinsert.trans _ _ _ (Within.bind .trans (hcheck _) (fun isTarget => ?_) _)
    cases isTarget with
    | false => exact hrest
    | true =>
      simp only [if_true]
      cases (c.eventHandlers[v]?.getD (none,⟨[],[]⟩)).1 with
      | none => exact .bind .trans (.throw Reads.refl _) fun _ => hrest
      | some h => exact .bind .trans (.modify fun _ => ⟨rfl,rfl,rfl,fun hk => hk⟩) fun _ => hrest

theorem Side.reads (h : Side own other c) {c' : Consumers}
    (hr : Reads (fun v => v.toNat < own.length) c c') : Side own other c' := by
  refine ⟨hr.next.trans h.next,hr.ids ▸ h.ids,hr.keys h.keys,fun q v hv => ?_⟩
  rw [handlers,hr.queues] at hv
  exact h.queues q v hv

theorem Ids.getId (few : own.length ≤ 2^64-1) (few' : other.length ≤ 2^64-1)
    (h : Ids own other c.consumerId) {g : EventConsumer} (hg : g ∈ own ∨ g ∈ other) :
    c.getId g ≠ EventConsumer.DefaultId := by
  rcases hg with hg | hg
  · rw [Consumers.getId,h.mine g hg]
    exact id_ne_default few hg
  · rw [Consumers.getId,h.others g hg]
    exact id_ne_default few' hg

theorem Side.addHandler_again (h : Side own other c) (few : own.length ≤ 2^64-1)
    (few' : other.length ≤ 2^64-1) (sp : SubscriptionParams) {g : EventConsumer}
    (hg : g ∈ own ∨ g ∈ other) : Side own other (final (addHandler sp (some g) c)) := by
  have hid := h.ids.getId few few' hg
  simp only [addHandler,bind_apply,get_apply,hid,ne_eq,not_false_eq_true,if_true]
  cases he : c.eventHandlers[c.getId g]? with
  | none => exact h
  | some it =>
    have hkey : (c.getId g).toNat < own.length := by
      refine h.keys _ ?_
      rw [ExtTreeMap.mem_iff_isSome_getElem?,he]
      rfl
    refine ⟨h.next,h.ids,fun v hv => ?_,fun q v hv => ?_⟩
    · rcases ExtTreeMap.mem_insert.mp hv with hc | hv
      · rw [← LawfulEqCmp.compare_eq_iff_eq.mp hc]
        exact hkey
      · exact h.keys v hv
    · rcases (handlers_enrol _ _ _ _ _ _).mp hv with hv | ⟨-,rfl⟩
      · exact h.queues q v hv
      · exact hkey

theorem Side.addHandler_first (h : Side own other c) (sp : SubscriptionParams) {g : EventConsumer}
    (hg : ¬ (g ∈ own ∨ g ∈ other)) :
    Side (own ++ [g]) other (final (addHandler sp (some g) c)) := by
  have hnone : c.consumerId[g]? = none :=
    h.ids.fresh g (fun hm => hg (.inl hm)) fun hm => hg (.inr hm)
  have hid : c.getId g = EventConsumer.DefaultId := by simp [Consumers.getId,hnone]
  have hkey : c.nextConsumersId.toNat < own.length+1 := by
    rw [h.next,UInt64.toNat_ofNat']
    exact Nat.lt_succ_of_le (Nat.mod_le _ _)
  have hrun : final (addHandler sp (some g) c) = enrol sp (some g) c.nextConsumersId { c with
      nextConsumersId := c.nextConsumersId+1
      consumerId := c.consumerId.insert g c.nextConsumersId } := by
    simp [addHandler,hid]
  rw [hrun]
  refine ⟨?_,⟨fun k hk => ?_,fun k hk => ?_,fun k hk hk' => ?_⟩,fun v hv => ?_,fun q v hv => ?_⟩
  · simp [enrol,h.next,UInt64.ofNat_add]
  · show (c.consumerId.insert g c.nextConsumersId)[k]? = _
    rw [ExtTreeMap.getElem?_insert]
    by_cases hkg : g = k
    · subst hkg
      have hnew : (own ++ [g]).idxOf g = own.length := by
        rw [List.idxOf_append_of_notMem fun hm => hg (.inl hm)]
        simp
      simp [hnew,h.next]
    · have hk' : k ∈ own := by simpa [Ne.symm hkg] using hk
      simp [hkg,LawfulEqCmp.compare_eq_iff_eq,h.ids.mine k hk',List.idxOf_append_of_mem hk']
  · have hkg : g ≠ k := fun he => hg (.inr (he ▸ hk))
    show (c.consumerId.insert g c.nextConsumersId)[k]? = _
    rw [ExtTreeMap.getElem?_insert]
    simp [hkg,LawfulEqCmp.compare_eq_iff_eq,h.ids.others k hk]
  · obtain ⟨hown,hkg⟩ : k ∉ own ∧ k ≠ g := by simpa using hk
    show (c.consumerId.insert g c.nextConsumersId)[k]? = _
    rw [ExtTreeMap.getElem?_insert]
    simp [Ne.symm hkg,LawfulEqCmp.compare_eq_iff_eq,h.ids.fresh k hown hk']
  · rw [List.length_append,List.length_singleton]
    rcases ExtTreeMap.mem_insert.mp hv with hc | hv
    · rw [← LawfulEqCmp.compare_eq_iff_eq.mp hc]
      exact hkey
    · exact Nat.lt_succ_of_lt (h.keys v hv)
  · rw [List.length_append,List.length_singleton]
    rcases (handlers_enrol _ _ _ _ _ _).mp hv with hv | ⟨-,rfl⟩
    · exact Nat.lt_succ_of_lt (h.queues q v hv)
    · exact hkey

theorem Side.step (h : Side own other c) (few : own.length ≤ 2^64-1)
    (few' : other.length ≤ 2^64-1) (call : RegistryCall) :
    Side (call.grown own other) other (c.step regex call) := by
  cases call with
  | addHandler sp handler =>
    cases handler with
    | none => exact h
    | some g =>
      by_cases hg : g ∈ own ∨ g ∈ other
      · simp only [RegistryCall.grown,hg,if_true]
        exact h.addHandler_again few few' sp hg
      · simp only [RegistryCall.grown,hg,if_false]
        exact h.addHandler_first sp hg
  | rmHandler g =>
    exact ⟨h.next,h.ids,fun v hv => h.keys v (ExtTreeMap.mem_of_mem_erase hv),h.queues⟩
  | callConsumer info d id =>
    refine h.reads (callEach_reads info d id _ (fun v hv => ?_) c)
    exact h.queues info.queueName v (ExtTreeSet.mem_toList.mp hv)

theorem Side.share {other' : List EventConsumer} {c' : Consumers} (h : Side own other c)
    (h' : Side other' own c') : Side own other' (ClientPair.share c c') :=
  ⟨h.next,h'.ids.symm,h.keys,h.queues⟩

theorem Side.start (cache : ReCache) : Side [] [] (start cache) := by
  refine ⟨rfl,⟨by simp,by simp,fun h _ _ => ?_⟩,?_,?_⟩
  · simp [Consumers.start]
  · simp [Consumers.start]
  · simp [Consumers.start,handlers]

end Side

end Consumers

def PairCall.inner : PairCall → RegistryCall
  | .a call => call
  | .b call => call

section Pair

variable {own other : List EventConsumer}

theorem RegistryCall.grown_nodup (h : own.Nodup) (call : RegistryCall) :
    (call.grown own other).Nodup := by
  cases call with
  | addHandler sp handler =>
    cases handler with
    | none => exact h
    | some g =>
      by_cases hg : g ∈ own ∨ g ∈ other
      · simpa [grown,hg] using h
      · simp only [grown,hg,if_false]
        exact h.append (List.nodup_singleton g) (by simpa using fun hm => hg (.inl hm))
  | rmHandler g => exact h
  | callConsumer info d id => exact h

theorem RegistryCall.mem_grown {call : RegistryCall} {h : EventConsumer}
    (hh : h ∈ call.grown own other) : h ∈ own ∨ ∃ sp, call = .addHandler sp (some h) := by
  cases call with
  | addHandler sp handler =>
    cases handler with
    | none => exact .inl hh
    | some g =>
      by_cases hg : g ∈ own ∨ g ∈ other
      · simp only [grown,hg,if_true] at hh
        exact .inl hh
      · simp only [grown,hg,if_false,List.mem_append,List.mem_singleton] at hh
        rcases hh with hh | rfl
        · exact .inl hh
        · exact .inr ⟨sp,rfl⟩
  | rmHandler g => exact .inl hh
  | callConsumer info d id => exact .inl hh

theorem RegistryCall.grown_of_mem {call : RegistryCall} {h : EventConsumer} (hh : h ∈ own) :
    h ∈ call.grown own other := by
  cases call with
  | addHandler sp handler =>
    cases handler with
    | none => exact hh
    | some g => by_cases hg : g ∈ own ∨ g ∈ other <;> simp [grown,hg,hh]
  | rmHandler g => exact hh
  | callConsumer info d id => exact hh

namespace PairCall

structure Numbered (calls : List PairCall) (hs : List EventConsumer × List EventConsumer) :
    Prop where
  nodup : hs.1.Nodup ∧ hs.2.Nodup
  a : ∀ h ∈ hs.1, ∃ sp, .a (.addHandler sp (some h)) ∈ calls
  b : ∀ h ∈ hs.2, ∃ sp, .b (.addHandler sp (some h)) ∈ calls
  all : ∀ call ∈ calls, ∀ sp h, call.inner = .addHandler sp (some h) → h ∈ hs.1 ∨ h ∈ hs.2

theorem numbered_append (calls : List PairCall) (call : PairCall) :
    numbered (calls ++ [call]) = match call with
      | .a c => (c.grown (numbered calls).1 (numbered calls).2,(numbered calls).2)
      | .b c => ((numbered calls).1,c.grown (numbered calls).2 (numbered calls).1) := by
  cases call <;> simp [numbered]

theorem mem_or_grown {h : EventConsumer} (sp : SubscriptionParams) :
    h ∈ (RegistryCall.addHandler sp (some h)).grown own other ∨ h ∈ other := by
  by_cases hg : h ∈ own ∨ h ∈ other
  · rw [RegistryCall.grown,if_pos hg]
    exact hg
  · simp [RegistryCall.grown,hg]

theorem numbered_spec (calls : List PairCall) : Numbered calls (numbered calls) := by
  induction calls using List.reverseRecOn with
  | nil => exact ⟨⟨.nil,.nil⟩,by simp [numbered],by simp [numbered],by simp⟩
  | append_singleton calls call ih =>
    rw [numbered_append]
    have hkept : ∀ call' ∈ calls, ∀ sp h, call'.inner = .addHandler sp (some h) →
        h ∈ (numbered calls).1 ∨ h ∈ (numbered calls).2 := ih.all
    cases call with
    | a c =>
      refine ⟨⟨RegistryCall.grown_nodup ih.nodup.1 c,ih.nodup.2⟩,fun h hh => ?_,fun h hh => ?_,
        fun call' hc sp h he => ?_⟩
      · rcases RegistryCall.mem_grown hh with hh | ⟨sp,rfl⟩
        · obtain ⟨sp,hm⟩ := ih.a h hh
          exact ⟨sp,by simp [hm]⟩
        · exact ⟨sp,by simp⟩
      · obtain ⟨sp,hm⟩ := ih.b h hh
        exact ⟨sp,by simp [hm]⟩
      · rcases List.mem_append.mp hc with hc | hc
        · exact (hkept call' hc sp h he).imp_left RegistryCall.grown_of_mem
        · obtain rfl := List.mem_singleton.mp hc
          obtain rfl : c = _ := he
          exact mem_or_grown sp
    | b c =>
      refine ⟨⟨ih.nodup.1,RegistryCall.grown_nodup ih.nodup.2 c⟩,fun h hh => ?_,fun h hh => ?_,
        fun call' hc sp h he => ?_⟩
      · obtain ⟨sp,hm⟩ := ih.a h hh
        exact ⟨sp,by simp [hm]⟩
      · rcases RegistryCall.mem_grown hh with hh | ⟨sp,rfl⟩
        · obtain ⟨sp,hm⟩ := ih.b h hh
          exact ⟨sp,by simp [hm]⟩
        · exact ⟨sp,by simp⟩
      · rcases List.mem_append.mp hc with hc | hc
        · exact (hkept call' hc sp h he).imp_right RegistryCall.grown_of_mem
        · obtain rfl := List.mem_singleton.mp hc
          obtain rfl : c = _ := he
          exact (mem_or_grown sp).symm

theorem Numbered.few {calls : List PairCall} {hs : List EventConsumer × List EventConsumer}
    (h : Numbered calls hs)
    (addresses : Consumers.Addresses (RegistryCall.adds (calls.map inner))) :
    hs.1.length ≤ 2^64-1 ∧ hs.2.length ≤ 2^64-1 := by
  have hbound : ∀ g sp, (∃ call ∈ calls, call.inner = .addHandler sp (some g)) → g < 2^64-1 := by
    rintro g sp ⟨call,hc,he⟩
    refine addresses (sp,some g) (Consumers.mem_adds.mpr ?_) g rfl
    rw [← he]
    exact List.mem_map_of_mem hc
  constructor
  · refine Consumers.nodup_length_le h.nodup.1 fun g hg => ?_
    obtain ⟨sp,hm⟩ := h.a g hg
    exact hbound g sp ⟨_,hm,rfl⟩
  · refine Consumers.nodup_length_le h.nodup.2 fun g hg => ?_
    obtain ⟨sp,hm⟩ := h.b g hg
    exact hbound g sp ⟨_,hm,rfl⟩

end PairCall

theorem ClientPair.sides (regex : RegexCompiler) (cache : ReCache) (calls : List PairCall)
    (addresses : Consumers.Addresses (RegistryCall.adds (calls.map PairCall.inner))) :
    Consumers.Side (PairCall.numbered calls).1 (PairCall.numbered calls).2
        ((start cache).run regex calls).a ∧
      Consumers.Side (PairCall.numbered calls).2 (PairCall.numbered calls).1
        ((start cache).run regex calls).b := by
  induction calls using List.reverseRecOn with
  | nil => exact ⟨.start cache,.start cache⟩
  | append_singleton calls call ih =>
    have haddresses : Consumers.Addresses (RegistryCall.adds (calls.map PairCall.inner)) := by
      intro x hx
      refine addresses x ?_
      obtain ⟨sp,handler⟩ := x
      rw [Consumers.mem_adds] at hx ⊢
      rw [List.map_append]
      exact List.mem_append_left _ hx
    obtain ⟨ha,hb⟩ := ih haddresses
    obtain ⟨few,few'⟩ := (PairCall.numbered_spec calls).few haddresses
    have hlast : (start cache).run regex (calls ++ [call]) =
        ((start cache).run regex calls).step regex call := by
      simp [run]
    rw [hlast,PairCall.numbered_append]
    cases call with
    | a c => exact ⟨ha.step few few' c,hb.share (ha.step few few' c)⟩
    | b c => exact ⟨ha.share (hb.step few' few c),hb.step few' few c⟩

end Pair

/-- A client refuses a consumer and keeps its registry as it is. -/
def Consumers.Refuses (c : Consumers) (h : EventConsumer) : Prop :=
  (∀ settings, addHandler settings (some h) c =
    .error (.thrown ⟨"Reuse  of the handler"⟩) c) ∧ rmHandler h c = .ok () c

theorem Consumers.refuses_iff {c : Consumers} {h : EventConsumer}
    (hid : c.getId h ≠ EventConsumer.DefaultId) :
    c.Refuses h ↔ c.eventHandlers[c.getId h]? = none := by
  constructor
  · rintro ⟨hadd,-⟩
    have hrun := hadd ⟨[],[]⟩
    simp only [addHandler,bind_apply,get_apply,hid,ne_eq,not_false_eq_true,if_true] at hrun
    cases he : c.eventHandlers[c.getId h]? with
    | none => rfl
    | some it =>
      rw [he] at hrun
      cases hrun
  · intro he
    have hsame : c.eventHandlers.erase (c.getId h) = c.eventHandlers := by
      apply ExtTreeMap.ext_getElem?
      intro v
      rw [ExtTreeMap.getElem?_erase]
      split
      · rename_i hc
        rw [← LawfulEqCmp.compare_eq_iff_eq.mp hc,he]
      · rfl
    refine ⟨fun settings => ?_,?_⟩
    · simp [addHandler,hid,he]
    · simp [rmHandler,hsame]

/-- A consumer that the first client has used and the second has not: the second
refuses it exactly when it has no entry under the number of the consumers to which
the first gave an id before. It has none if it has given no more ids itself. -/
theorem foreign_handler_iff {regex : RegexCompiler} (cache : ReCache) (calls : List PairCall)
    (addresses : Consumers.Addresses (RegistryCall.adds (calls.map PairCall.inner)))
    {h : EventConsumer} (registered : ∃ sp, .a (.addHandler sp (some h)) ∈ calls)
    (never : ∀ sp, .b (.addHandler sp (some h)) ∉ calls) :
    (((ClientPair.start cache).run regex calls).b.Refuses h ↔
      ((ClientPair.start cache).run regex calls).b.eventHandlers[
        UInt64.ofNat ((PairCall.numbered calls).1.idxOf h)]? = none) ∧
    ((PairCall.numbered calls).2.length ≤ (PairCall.numbered calls).1.idxOf h →
      ((ClientPair.start cache).run regex calls).b.Refuses h) := by
  obtain ⟨-,hb⟩ := ClientPair.sides regex cache calls addresses
  have hspec := PairCall.numbered_spec calls
  obtain ⟨few,few'⟩ := hspec.few addresses
  have hmem : h ∈ (PairCall.numbered calls).1 := by
    obtain ⟨sp,hm⟩ := registered
    rcases hspec.all _ hm sp h rfl with hh | hh
    · exact hh
    · obtain ⟨sp',hm'⟩ := hspec.b h hh
      exact absurd hm' (never sp')
  have hid : ((ClientPair.start cache).run regex calls).b.getId h =
      UInt64.ofNat ((PairCall.numbered calls).1.idxOf h) := by
    rw [Consumers.getId,hb.ids.others h hmem]
    rfl
  have hiff := Consumers.refuses_iff (hb.ids.getId few' few (.inr hmem))
  rw [hid] at hiff
  refine ⟨hiff,fun hle => hiff.mpr ?_⟩
  by_contra hsome
  have hkey := hb.keys (UInt64.ofNat ((PairCall.numbered calls).1.idxOf h)) (by simpa using hsome)
  rw [Consumers.toNat_id few hmem] at hkey
  omega

/-- The second client has used one consumer of its own, and refuses the second one of the
first. -/
theorem foreign_handler_iff_second_handler :
    ((ClientPair.start ∅).run literal [.a (.addHandler ⟨[113],[]⟩ (some 1)),
      .b (.addHandler ⟨[114],[97]⟩ (some 2)),
      .a (.addHandler ⟨[113],[]⟩ (some 3))]).b.Refuses 3 := by
  refine (foreign_handler_iff ∅ [.a (.addHandler ⟨[113],[]⟩ (some 1)),
    .b (.addHandler ⟨[114],[97]⟩ (some 2)),.a (.addHandler ⟨[113],[]⟩ (some 3))]
      (fun x hx h hh => ?_) ⟨⟨[113],[]⟩,by simp⟩ (by simp)).2 (by decide)
  simp only [RegistryCall.adds,PairCall.inner,List.map_cons,List.map_nil,List.filterMap_cons,
    List.filterMap_nil,List.mem_cons,List.not_mem_nil,or_false] at hx
  rcases hx with rfl | rfl | rfl <;> cases hh <;> decide

/-- Each client has used one consumer of its own, so that both consumers have the
same id: the consumer of the first passes for that of the second. -/
theorem foreign_handler_taken :
    ¬ ((ClientPair.start ∅).run literal [.a (.addHandler ⟨[113],[]⟩ (some 1)),
      .b (.addHandler ⟨[114],[97]⟩ (some 2))]).b.Refuses 1 := by
  rintro ⟨hadd,-⟩
  have hthrow := congrArg thrown (hadd ⟨[115],[]⟩)
  revert hthrow
  decide +kernel

end Dqueue
