import Dqueue.TagFiltering

/-!
The registry of consumers over whole histories of its calls: which consumers a
message gets to when one of them is used for several queues, and when one is
removed.
-/

set_option autoImplicit false

namespace Dqueue
open Std Effects RawMem

namespace Consumers

def latestFor (h : EventConsumer) (q : Str) (calls : Calls) : Option Str :=
  (calls.reverse.find? (fun x => x.2 == some h && x.1.queueName == q)).map (fun x => x.1.tag)

def users (calls : Calls) : List EventConsumer := calls.foldl (fun hs x => newUser hs x.2) []

def added (cache : ReCache) (calls : Calls) : Consumers :=
  calls.foldl (fun c x => final (addHandler x.1 x.2 c)) (start cache)

def invoked (c : Consumers) (h : EventConsumer) : Nat := c.consumed.countP (fun x => x.1 == h)

theorem latestFor_append (h : EventConsumer) (q : Str) (calls : Calls)
    (x : SubscriptionParams × Option EventConsumer) :
    latestFor h q (calls ++ [x]) =
      if x.2 = some h ∧ x.1.queueName = q then some x.1.tag else latestFor h q calls := by
  by_cases hx : x.2 = some h ∧ x.1.queueName = q
  · simp [latestFor,hx]
  · have hne : (x.2 == some h && x.1.queueName == q) = false := by simpa using hx
    simp [latestFor,hx,hne]

theorem latest_of_latestFor {h : EventConsumer} {q : Str} {calls : Calls}
    (hq : latestFor h q calls ≠ none) : latest h calls ≠ none := by
  intro hl
  simp only [latest,Option.map_eq_none_iff,List.find?_eq_none] at hl
  refine hq ?_
  simp only [latestFor,Option.map_eq_none_iff,List.find?_eq_none]
  intro x hx hp
  exact hl x hx (by simpa using (Bool.and_eq_true_iff.mp hp).1)

section Users

variable (calls : Calls)

theorem users_append (x : SubscriptionParams × Option EventConsumer) :
    users (calls ++ [x]) = newUser (users calls) x.2 := by
  simp [users]

theorem newUser_nodup {hs : List EventConsumer} (h : hs.Nodup) (handler : Option EventConsumer) :
    (newUser hs handler).Nodup := by
  cases handler with
  | none => exact h
  | some g =>
    by_cases hg : g ∈ hs
    · simpa [newUser,hg] using h
    · simp only [newUser,hg,if_false]
      exact h.append (List.nodup_singleton g) (by simpa using hg)

theorem mem_newUser {hs : List EventConsumer} {handler : Option EventConsumer} {h : EventConsumer} :
    h ∈ newUser hs handler ↔ h ∈ hs ∨ handler = some h := by
  cases handler with
  | none => simp [newUser]
  | some g =>
    by_cases hg : g ∈ hs
    · simp only [newUser,hg,if_true,Option.some.injEq]
      exact ⟨.inl,fun hh => hh.elim (fun hh => hh) fun he => he ▸ hg⟩
    · simp [newUser,hg,eq_comm]

theorem users_nodup : (users calls).Nodup := by
  induction calls using List.reverseRecOn with
  | nil => exact .nil
  | append_singleton calls x ih =>
    rw [users_append]
    exact newUser_nodup ih x.2

theorem mem_users {h : EventConsumer} : h ∈ users calls ↔ ∃ x ∈ calls, x.2 = some h := by
  induction calls using List.reverseRecOn with
  | nil => simp [users]
  | append_singleton calls x ih =>
    rw [users_append,mem_newUser,ih]
    simp [or_and_right,exists_or]

end Users

/-- The consumers are objects: no more of them than there are addresses. -/
def Addresses (calls : Calls) : Prop := ∀ x ∈ calls, ∀ h ∈ x.2, h < 2^64-1

theorem nodup_length_le {hs : List Nat} {n : Nat} (h : hs.Nodup) (hn : ∀ a ∈ hs, a < n) :
    hs.length ≤ n := by
  have hsub : hs ⊆ List.range n := fun a ha => List.mem_range.mpr (hn a ha)
  simpa using (h.subperm hsub).length_le

theorem Addresses.few {calls : Calls} (h : Addresses calls) : (users calls).length ≤ 2^64-1 := by
  refine nodup_length_le (users_nodup calls) fun a ha => ?_
  obtain ⟨x,hx,hxa⟩ := (mem_users calls).mp ha
  exact h x hx a hxa

def AddedFor (calls : Calls) (h : EventConsumer) (q : Str) : Prop := latestFor h q calls ≠ none

section Added

variable {calls : Calls} {c : Consumers}

theorem Registry.not_added (r : Registry calls (AddedFor calls) (users calls) c) :
    ∀ h ∉ users calls, ∀ q, ¬ AddedFor calls h q :=
  fun h hh _ hin => latest_of_latestFor hin (r.fresh h hh)

theorem Registry.added_step (r : Registry calls (AddedFor calls) (users calls) c)
    (few : (users calls).length ≤ 2^64-1) (sp : SubscriptionParams)
    (handler : Option EventConsumer) :
    ∃ c', Consumers.addHandler sp handler c = .ok () c' ∧
      Registry (calls ++ [(sp,handler)]) (AddedFor (calls ++ [(sp,handler)]))
        (users (calls ++ [(sp,handler)])) c' ∧ c'.cache = c.cache ∧ c'.consumed = c.consumed := by
  obtain ⟨c',hrun,r',hrest⟩ := r.addHandler few sp handler r.not_added
  refine ⟨c',hrun,?_,hrest⟩
  rw [users_append]
  refine r'.imp fun g _ q => ?_
  unfold AddedFor
  rw [latestFor_append]
  by_cases hx : handler = some g ∧ sp.queueName = q
  · simp [hx]
  · have hx' : ¬ (some g = handler ∧ sp.queueName = q) := fun h => hx ⟨h.1.symm,h.2⟩
    simp [hx,hx']

theorem registry_added (cache : ReCache) (ha : Addresses calls) :
    Registry calls (AddedFor calls) (users calls) (added cache calls) ∧
      (added cache calls).cache = cache ∧ (added cache calls).consumed = [] := by
  induction calls using List.reverseRecOn with
  | nil => exact ⟨.start _ cache,rfl,rfl⟩
  | append_singleton calls x ih =>
    have ha' : Addresses calls := fun y hy => ha y (by simp [hy])
    obtain ⟨r,hcache,hconsumed⟩ := ih ha'
    obtain ⟨c',hrun,r',hcache',hconsumed'⟩ := r.added_step ha'.few x.1 x.2
    have hlast : added cache (calls ++ [x]) = c' := by
      rw [added,List.foldl_append,List.foldl_cons,List.foldl_nil]
      show final (addHandler x.1 x.2 (added cache calls)) = c'
      rw [hrun]
      rfl
    rw [hlast]
    exact ⟨r',hcache'.trans hcache,hconsumed'.trans hconsumed⟩

end Added

variable (regex : RegexCompiler) in
def WantsFor (calls : Calls) (info : PublishParams) (h : EventConsumer) : Prop :=
  ∃ tag, latestFor h info.queueName calls = some tag ∧ tagMatches regex tag info.tag = true

variable (regex : RegexCompiler) in
/-- A message gets once to each consumer whose latest tag for its queue lets it, and
to no other. -/
def FilteredFor (cache : ReCache) (calls : Calls) (info : PublishParams) (d : Bytes) (id : Id) :
    Prop :=
  ∀ h, (WantsFor regex calls info h →
      (final (callConsumer regex info d id (added cache calls))).invoked h = 1) ∧
    (¬ WantsFor regex calls info h →
      (final (callConsumer regex info d id (added cache calls))).invoked h = 0)

theorem Registry.invoked {regex : RegexCompiler} {calls : Calls}
    {In : EventConsumer → Str → Prop} {hs : List EventConsumer} {c : Consumers}
    (r : Registry calls In hs c) (few : hs.length ≤ 2^64-1)
    (sound : ReCache.Sound regex c.cache) (info : PublishParams) (d : Bytes) (id : Id)
    (h : EventConsumer) :
    (h ∈ hs ∧ In h info.queueName ∧ Gets regex calls In hs info h →
      (final (Consumers.callConsumer regex info d id c)).invoked h = c.invoked h+1) ∧
    (¬ (h ∈ hs ∧ In h info.queueName ∧ Gets regex calls In hs info h) →
      (final (Consumers.callConsumer regex info d id c)).invoked h = c.invoked h) := by
  obtain ⟨cache,calls',-,hrun,hnodup,hall,hmem⟩ := r.callConsumer few sound info d id
  -- among these calls a consumer is called once or not at all
  have hcount : calls'.countP (fun x => x.1 == h) = calls'.count (h,info,d,id) := by
    refine List.countP_congr fun x hx => ?_
    obtain ⟨g,y⟩ := x
    have hy : y = (info,d,id) := hall _ hx
    simp [hy]
  rw [← hmem,hrun]
  simp only [Consumers.invoked,List.countP_append,hcount]
  refine ⟨fun hin => ?_,fun hin => ?_⟩
  · rw [List.count_eq_one_of_mem hnodup hin]
  · rw [List.count_eq_zero_of_not_mem hin,Nat.add_zero]

end Consumers

/-- After any calls of `addHandler`, a message gets to the consumers as their
latest tags for its queue say exactly when for each consumer of the queue that tag
decides as the loop does, which looks at the latest tag for any queue. -/
theorem handler_tags_iff {regex : RegexCompiler} {cache : ReCache}
    (sound : ReCache.Sound regex cache) (calls : Consumers.Calls)
    (addresses : Consumers.Addresses calls) (info : PublishParams) (d : Bytes) (id : Id) :
    Consumers.FilteredFor regex cache calls info d id ↔
      ∀ h, Consumers.AddedFor calls h info.queueName →
        (Consumers.WantsFor regex calls info h ↔
          Consumers.Gets regex calls (Consumers.AddedFor calls) (Consumers.users calls)
            info h) := by
  obtain ⟨r,hcache,hconsumed⟩ := Consumers.registry_added cache addresses
  have hinv := r.invoked addresses.few (hcache ▸ sound) info d id
  have hzero : ∀ h, (Consumers.added cache calls).invoked h = 0 := by
    intro h
    simp [Consumers.invoked,hconsumed]
  have hadded : ∀ h, Consumers.WantsFor regex calls info h →
      Consumers.AddedFor calls h info.queueName := by
    rintro h ⟨tag,hl,-⟩ hn
    rw [hn] at hl
    cases hl
  have hmem : ∀ h, Consumers.AddedFor calls h info.queueName → h ∈ Consumers.users calls := by
    intro h hin
    by_contra hh
    exact r.not_added h hh _ hin
  constructor
  · intro hall h hin
    constructor
    · intro hw
      by_contra hg
      have h₁ := (hall h).1 hw
      have h₀ := (hinv h).2 fun hx => hg hx.2.2
      rw [hzero] at h₀
      omega
    · intro hg
      by_contra hw
      have h₁ := (hinv h).1 ⟨hmem h hin,hin,hg⟩
      have h₀ := (hall h).2 hw
      omega
  · intro hall h
    refine ⟨fun hw => ?_,fun hw => ?_⟩
    · have hin := hadded h hw
      rw [(hinv h).1 ⟨hmem h hin,hin,(hall h hin).mp hw⟩,hzero]
    · rw [(hinv h).2 fun hx => hw ((hall h hx.2.1).mpr hx.2.2),hzero]

/-- Two consumers for one queue with different tags; the first one has its tag for another
queue too. -/
theorem handler_tags_iff_two_queues :
    Consumers.FilteredFor literal ∅ [(⟨[113],[97]⟩,some 1),(⟨[113],[98]⟩,some 2),
      (⟨[114],[97]⟩,some 1)] ⟨[113],[97]⟩ [5] 0 := by
  refine (handler_tags_iff .empty _ (fun x hx h hh => ?_) ⟨[113],[97]⟩ [5] 0).mpr
    fun h hin => ?_
  · simp only [List.mem_cons,List.not_mem_nil,or_false] at hx
    rcases hx with rfl | rfl | rfl <;> cases hh <;> decide
  · have hh : h = 1 ∨ h = 2 := by
      by_contra hne
      rw [not_or] at hne
      refine hin ?_
      simp [Consumers.latestFor,Ne.symm hne.1,Ne.symm hne.2]
    rcases hh with rfl | rfl
    · exact ⟨fun _ => ⟨⟨⟨[114],[97]⟩,by decide,by decide⟩,fun g sp _ _ _ => literal_compiles _⟩,
        fun _ => ⟨[97],by decide,by decide⟩⟩
    · refine ⟨?_,?_⟩
      · rintro ⟨tag,ht,hm⟩
        cases ht
        exact absurd hm (by decide)
      · rintro ⟨⟨sp,hsp,hm⟩,-⟩
        cases hsp
        exact absurd hm (by decide)

/-- A consumer that is added for a second queue with another tag does not get the
message of the first queue that its tag there lets. -/
theorem second_queue_replaces_tag :
    ¬ Consumers.FilteredFor literal ∅ [(⟨[113],[97]⟩,some 1),(⟨[114],[98]⟩,some 1)]
      ⟨[113],[97]⟩ [5] 0 := by
  intro hall
  have hone := (hall 1).1 ⟨[97],by decide,by decide⟩
  revert hone
  decide +kernel

inductive RegistryCall where
  | addHandler (settings : SubscriptionParams) (handler : Option EventConsumer)
  | rmHandler (handler : EventConsumer)
  | callConsumer (info : PublishParams) (d : Bytes) (id : Id)
  deriving DecidableEq, Repr

namespace RegistryCall

def adds (before : List RegistryCall) : Consumers.Calls :=
  before.filterMap fun
    | .addHandler settings handler => some (settings,handler)
    | _ => none

def held (h : EventConsumer) (q : Str) (before : List RegistryCall) : Bool :=
  before.foldl (fun b call =>
    match call with
    | .addHandler settings handler => b || (handler == some h && settings.queueName == q)
    | .rmHandler handler => b && handler != h
    | .callConsumer _ _ _ => b) false

end RegistryCall

namespace Consumers

section Calls

variable (regex : RegexCompiler)

def exec : RegistryCall → EStateM Failure Consumers Unit
  | .addHandler settings handler => addHandler settings handler
  | .rmHandler handler => rmHandler handler
  | .callConsumer info d id => callConsumer regex info d id

def step (c : Consumers) (call : RegistryCall) : Consumers := final (exec regex call c)

def run (c : Consumers) (calls : List RegistryCall) : Consumers := calls.foldl (step regex) c

end Calls

def Linked (c : Consumers) : Prop :=
  ∀ q v, v ∈ c.handlers q → ∃ h sp, c.eventHandlers[v]? = some (some h,sp)

section Right

variable (regex : RegexCompiler) (cache : ReCache) (before : List RegistryCall)

def Lets (info : PublishParams) (h : EventConsumer) : Prop :=
  ∃ sp, latest h (RegistryCall.adds before) = some sp ∧ tagMatches regex sp.tag info.tag = true

/-- What is asked of a call after some others: the entries are there, and a
message is handed, without a look at a missing one, to the consumers of its queue
that were added and not removed since. -/
structure RightCall (call : RegistryCall) : Prop where
  linked : (((start cache).run regex before).step regex call).Linked
  consumed : ∀ info d id, call = .callConsumer info d id →
    thrown (exec regex call ((start cache).run regex before)) ≠ some .nullDereference ∧
    (((start cache).run regex before).step regex call).eventHandlers =
      ((start cache).run regex before).eventHandlers ∧
    ∀ h, (RegistryCall.held h info.queueName before = true ∧ Lets regex before info h →
        (((start cache).run regex before).step regex call).invoked h =
          ((start cache).run regex before).invoked h+1) ∧
      (¬ (RegistryCall.held h info.queueName before = true ∧ Lets regex before info h) →
        (((start cache).run regex before).step regex call).invoked h =
          ((start cache).run regex before).invoked h)

/-- No consumer is removed that was added, and where a message is handed out, no
tag that cannot be compiled stands before a consumer that is to have it. -/
def Harmless : RegistryCall → Prop
  | .addHandler _ _ => True
  | .rmHandler h => ∀ settings, .addHandler settings (some h) ∉ before
  | .callConsumer info _ _ => ∀ h, AddedFor (RegistryCall.adds before) h info.queueName →
      Lets regex before info h → Gets regex (RegistryCall.adds before)
        (AddedFor (RegistryCall.adds before)) (users (RegistryCall.adds before)) info h

end Right

section Steps

variable {regex : RegexCompiler} {cache : ReCache} {before : List RegistryCall}

theorem callEach_thrown (info : PublishParams) (d : Bytes) (id : Id) {c : Consumers}
    (sound : ReCache.Sound regex c.cache) (vs : List Id)
    (hvs : ∀ v ∈ vs, ∃ h sp, c.eventHandlers[v]? = some (some h,sp)) :
    thrown (callEach regex info d id vs c) ≠ some .nullDereference := by
  induction vs generalizing c with
  | nil => simp [callEach]
  | cons v vs ih =>
    obtain ⟨h,sp,hv⟩ := hvs v (by simp)
    obtain ⟨cache,hsound,hrun⟩ := callEach_cons info d id sound hv vs
    split at hrun
    · obtain ⟨e,hrun⟩ := hrun
      rw [hrun]
      simp
    · rw [hrun]
      exact ih hsound fun w hw => hvs w (by simp [hw])

theorem run_append (c : Consumers) (calls : List RegistryCall) (call : RegistryCall) :
    c.run regex (calls ++ [call]) = (c.run regex calls).step regex call := by
  simp [run]

structure Tidy (regex : RegexCompiler) (cache : ReCache) (before : List RegistryCall) : Prop where
  registry : Registry (RegistryCall.adds before) (AddedFor (RegistryCall.adds before))
    (users (RegistryCall.adds before)) ((start cache).run regex before)
  sound : ReCache.Sound regex ((start cache).run regex before).cache
  held : ∀ h q, RegistryCall.held h q before = true ↔ AddedFor (RegistryCall.adds before) h q

theorem Registry.linked {calls : Calls} {In : EventConsumer → Str → Prop}
    {hs : List EventConsumer} {c : Consumers} (r : Registry calls In hs c) : c.Linked := by
  intro q v hv
  obtain ⟨h,hh,-,rfl⟩ := (r.queues q v).mp hv
  obtain ⟨sp,-,he⟩ := r.entries h hh
  exact ⟨h,sp,he⟩

theorem mem_adds {sp : SubscriptionParams} {handler : Option EventConsumer} :
    (sp,handler) ∈ RegistryCall.adds before ↔ .addHandler sp handler ∈ before := by
  simp only [RegistryCall.adds,List.mem_filterMap]
  constructor
  · rintro ⟨call,hcall,he⟩
    cases call with
    | addHandler settings handler' =>
      cases he
      exact hcall
    | rmHandler h => cases he
    | callConsumer info d id => cases he
  · exact fun h => ⟨_,h,rfl⟩

theorem Registry.rmHandler {calls : Calls} {In : EventConsumer → Str → Prop}
    {hs : List EventConsumer} {c : Consumers} (r : Registry calls In hs c)
    (few : hs.length ≤ 2^64-1) {h : EventConsumer} (hh : h ∉ hs) :
    Registry calls In hs (final (Consumers.rmHandler h c)) := by
  refine ⟨r.next,r.ids,fun g hg => ?_,r.fresh,r.queues⟩
  obtain ⟨sp,hl,he⟩ := r.entries g hg
  refine ⟨sp,hl,?_⟩
  show (c.eventHandlers.erase (c.getId h))[_]? = _
  have hne : EventConsumer.DefaultId ≠ UInt64.ofNat (hs.idxOf g) := (id_ne_default few hg).symm
  rw [r.getId_new hh,ExtTreeMap.getElem?_erase]
  simpa [LawfulEqCmp.compare_eq_iff_eq,hne] using he

/-- The removal of a consumer that was added leaves its id behind. -/
theorem Registry.rmHandler_added {calls : Calls} {In : EventConsumer → Str → Prop}
    {hs : List EventConsumer} {c : Consumers} (r : Registry calls In hs c) {h : EventConsumer}
    {q : Str} (hh : h ∈ hs) (hq : In h q) : ¬ (final (Consumers.rmHandler h c)).Linked := by
  intro hlinked
  obtain ⟨g,sp,he⟩ := hlinked q (UInt64.ofNat (hs.idxOf h)) ((r.queues q _).mpr ⟨h,hh,hq,rfl⟩)
  have hgone : (c.eventHandlers.erase (c.getId h))[UInt64.ofNat (hs.idxOf h)]? = none := by
    rw [r.getId_mem hh]
    simp
  cases hgone.symm.trans he

theorem mem_users_adds {h : EventConsumer} :
    h ∈ users (RegistryCall.adds before) ↔ ∃ sp, .addHandler sp (some h) ∈ before := by
  rw [mem_users]
  constructor
  · rintro ⟨⟨sp,handler⟩,hx,rfl⟩
    exact ⟨sp,mem_adds.mp hx⟩
  · rintro ⟨sp,hx⟩
    exact ⟨(sp,some h),mem_adds.mpr hx,rfl⟩

theorem addedFor_of_mem {sp : SubscriptionParams} {h : EventConsumer} {calls : Calls}
    (hx : (sp,some h) ∈ calls) : AddedFor calls h sp.queueName := by
  intro hn
  simp only [latestFor,Option.map_eq_none_iff,List.find?_eq_none] at hn
  exact hn (sp,some h) (by simpa using hx) (by simp)

namespace Tidy

variable (t : Tidy regex cache before) (few : (users (RegistryCall.adds before)).length ≤ 2^64-1)
include t few

theorem addHandler (sp : SubscriptionParams) (handler : Option EventConsumer) :
    Tidy regex cache (before ++ [.addHandler sp handler]) := by
  obtain ⟨c',hrun,r',hcache,-⟩ := t.registry.added_step few sp handler
  have hadds : RegistryCall.adds (before ++ [.addHandler sp handler]) =
      RegistryCall.adds before ++ [(sp,handler)] := by
    simp [RegistryCall.adds]
  have hstep : (start cache).run regex (before ++ [.addHandler sp handler]) = c' := by
    rw [run_append,step,exec,hrun]
    rfl
  refine ⟨?_,?_,fun h q => ?_⟩
  · rw [hadds,hstep]
    exact r'
  · rw [hstep,hcache]
    exact t.sound
  · rw [hadds,AddedFor,latestFor_append]
    have hheld : RegistryCall.held h q (before ++ [.addHandler sp handler]) =
        (RegistryCall.held h q before || (handler == some h && sp.queueName == q)) := by
      simp [RegistryCall.held]
    rw [hheld,Bool.or_eq_true,t.held]
    by_cases hx : handler = some h ∧ sp.queueName = q
    · simp [hx]
    · have hne : ¬ (handler == some h && sp.queueName == q) = true := by simpa using hx
      simp [hx,hne,AddedFor]

theorem rmHandler {h : EventConsumer} (hh : h ∉ users (RegistryCall.adds before)) :
    Tidy regex cache (before ++ [.rmHandler h]) := by
  have hadds : RegistryCall.adds (before ++ [.rmHandler h]) = RegistryCall.adds before := by
    simp [RegistryCall.adds]
  refine ⟨?_,?_,fun g q => ?_⟩
  · rw [hadds,run_append]
    exact t.registry.rmHandler few hh
  · rw [run_append]
    exact t.sound
  · have hheld : RegistryCall.held g q (before ++ [.rmHandler h]) =
        (RegistryCall.held g q before && h != g) := by
      simp [RegistryCall.held]
    rw [hadds,hheld,Bool.and_eq_true,t.held]
    refine ⟨fun hx => hx.1,fun hx => ⟨hx,?_⟩⟩
    rw [bne_iff_ne]
    rintro rfl
    exact t.registry.not_added h hh q hx

theorem callConsumer (info : PublishParams) (d : Bytes) (id : Id) :
    Tidy regex cache (before ++ [.callConsumer info d id]) := by
  have hadds : RegistryCall.adds (before ++ [.callConsumer info d id]) =
      RegistryCall.adds before := by
    simp [RegistryCall.adds]
  obtain ⟨cache',calls',hsound,hrun,-⟩ := t.registry.callConsumer few t.sound info d id
  have hstep : (start cache).run regex (before ++ [.callConsumer info d id]) =
      final (Consumers.callConsumer regex info d id ((start cache).run regex before)) :=
    run_append _ _ _
  refine ⟨?_,?_,fun h q => ?_⟩
  · rw [hadds,hstep,hrun]
    exact t.registry.congr rfl rfl rfl rfl
  · rw [hstep,hrun]
    exact hsound
  · rw [hadds,← t.held]
    simp [RegistryCall.held]

theorem step {call : RegistryCall} (hc : Harmless regex before call) :
    Tidy regex cache (before ++ [call]) := by
  cases call with
  | addHandler sp handler => exact t.addHandler few sp handler
  | rmHandler h =>
    refine t.rmHandler few fun hh => ?_
    obtain ⟨sp,hx⟩ := mem_users_adds.mp hh
    exact hc sp hx
  | callConsumer info d id => exact t.callConsumer few info d id

theorem rightCall_iff (call : RegistryCall) :
    RightCall regex cache before call ↔ Harmless regex before call := by
  have hlinked : Harmless regex before call →
      (((start cache).run regex before).step regex call).Linked := by
    intro hc
    have hnext := (t.step few hc).registry.linked
    rwa [run_append] at hnext
  cases call with
  | addHandler sp handler =>
    exact ⟨fun _ => trivial,fun hc => ⟨hlinked hc,fun info d id he => by cases he⟩⟩
  | rmHandler h =>
    refine ⟨fun hr sp hx => ?_,fun hc => ⟨hlinked hc,fun info d id he => by cases he⟩⟩
    exact t.registry.rmHandler_added (mem_users_adds.mpr ⟨sp,hx⟩)
      (addedFor_of_mem (mem_adds.mpr hx)) hr.linked
  | callConsumer info d id =>
    have hinv := t.registry.invoked few t.sound info d id
    have hmem : ∀ h, AddedFor (RegistryCall.adds before) h info.queueName →
        h ∈ users (RegistryCall.adds before) := by
      intro h hin
      by_contra hh
      exact t.registry.not_added h hh _ hin
    constructor
    · intro hr h hin hlets
      by_contra hg
      have h₁ := ((hr.consumed info d id rfl).2.2 h).1 ⟨(t.held h _).mpr hin,hlets⟩
      have h₀ := (hinv h).2 fun hx => hg hx.2.2
      rw [Consumers.step,exec] at h₁
      omega
    · intro hc
      refine ⟨hlinked hc,fun info' d' id' he => ?_⟩
      cases he
      obtain ⟨cache',calls',-,hrun,-⟩ := t.registry.callConsumer few t.sound info d id
      refine ⟨?_,?_,fun h => ⟨fun hx => ?_,fun hx => ?_⟩⟩
      · refine callEach_thrown info d id t.sound _ fun v hv => ?_
        exact t.registry.linked info.queueName v (ExtTreeSet.mem_toList.mp hv)
      · rw [Consumers.step,exec,hrun]
      · have hin := (t.held h _).mp hx.1
        exact (hinv h).1 ⟨hmem h hin,hin,hc h hin hx.2⟩
      · refine (hinv h).2 fun hy => hx ⟨(t.held h _).mpr hy.2.1,?_⟩
        obtain ⟨sp,hl,hm⟩ := hy.2.2.1
        exact ⟨sp,hl,hm⟩

end Tidy

end Steps

end Consumers

/-- Along any calls of a new client's registry, each does what is asked of it
exactly when no consumer is removed after it was added and no tag that cannot be
compiled stands before a consumer that is to have a message. -/
theorem removed_handlers_iff {regex : RegexCompiler} {cache : ReCache}
    (sound : ReCache.Sound regex cache) (calls : List RegistryCall)
    (addresses : Consumers.Addresses (RegistryCall.adds calls)) :
    (∀ before call after, calls = before ++ call :: after →
        Consumers.RightCall regex cache before call) ↔
      ∀ before call after, calls = before ++ call :: after →
        Consumers.Harmless regex before call := by
  have hstart : Consumers.Tidy regex cache [] :=
    ⟨.start _ cache,sound,fun h q => by simp [RegistryCall.held,Consumers.AddedFor,
      Consumers.latestFor,RegistryCall.adds]⟩
  refine Runs.each_iff (fun call => ∀ sp h, call = .addHandler sp (some h) → h < 2^64-1)
    (I := fun before => Consumers.Tidy regex cache before ∧
      Consumers.Addresses (RegistryCall.adds before))
    ⟨hstart,fun x hx => by cases hx⟩ (fun before call h => h.1.rightCall_iff h.2.few call)
    (fun before call h hcall hc => ⟨h.1.step h.2.few hc,fun x hx g hg => ?_⟩)
    fun call hc sp h he => ?_
  · obtain ⟨sp,handler⟩ := x
    rcases List.mem_append.mp (Consumers.mem_adds.mp hx) with hx | hx
    · exact h.2 (sp,handler) (Consumers.mem_adds.mpr hx) g hg
    · cases hg
      exact hcall sp g (List.mem_singleton.mp hx).symm
  · exact addresses (sp,some h) (Consumers.mem_adds.mpr (he ▸ hc)) h rfl

/-- A consumer is removed before it is added; another one has a tag of its own. -/
theorem removed_handlers_iff_removed_before :
    Consumers.RightCall literal ∅ [.rmHandler 1,.addHandler ⟨[113],[]⟩ (some 1),
      .addHandler ⟨[113],[98]⟩ (some 2)] (.callConsumer ⟨[113],[97]⟩ [5] 0) := by
  refine (removed_handlers_iff .empty [.rmHandler 1,.addHandler ⟨[113],[]⟩ (some 1),
    .addHandler ⟨[113],[98]⟩ (some 2),.callConsumer ⟨[113],[97]⟩ [5] 0]
      (fun x hx h hh => ?_)).mpr (fun before call after he => ?_) _ _ [] rfl
  · rcases List.mem_pair.mp hx with rfl | rfl <;> cases hh <;> decide
  · rcases before with _ | ⟨b,before⟩
    · cases he
      intro settings hmem
      cases hmem
    · have hrest : _ = before ++ call :: after := (List.cons.inj he).2
      have hcall : call ∈ before ++ call :: after := by simp
      rw [← hrest] at hcall
      simp only [List.mem_cons,List.not_mem_nil,or_false] at hcall
      rcases hcall with rfl | rfl | rfl
      · trivial
      · trivial
      · exact fun h _ hlets => ⟨hlets,fun g sp _ _ _ => literal_compiles _⟩

/-- A message for the queue of a consumer that was removed. -/
theorem removed_handler_dereferenced :
    thrown (Consumers.exec literal (.callConsumer ⟨[113],[97]⟩ [5] 0)
      ((Consumers.start ∅).run literal [.addHandler ⟨[113],[]⟩ (some 1),.rmHandler 1])) =
        some .nullDereference ∧
    ¬ ∀ before call after, [.addHandler ⟨[113],[]⟩ (some 1),.rmHandler 1,
      .callConsumer ⟨[113],[97]⟩ [5] 0] = before ++ call :: after →
        Consumers.RightCall literal ∅ before call := by
  have hnull : thrown (Consumers.exec literal (.callConsumer ⟨[113],[97]⟩ [5] 0)
      ((Consumers.start ∅).run literal [.addHandler ⟨[113],[]⟩ (some 1),.rmHandler 1])) =
        some .nullDereference := by decide +kernel
  refine ⟨hnull,fun hall => ?_⟩
  exact ((hall [.addHandler ⟨[113],[]⟩ (some 1),.rmHandler 1] _ [] rfl).consumed _ _ _ rfl).1 hnull

end Dqueue
