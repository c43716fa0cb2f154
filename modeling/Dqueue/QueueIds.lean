import Dqueue.NodeMaps

/-!
The ids of queues. A queue gets the next id when it is created and keeps it until
it is removed; a queue that is created again under the same name is another one. The
counter is an `int`, so that this holds for as many queues as it can count.
-/

set_option autoImplicit false

namespace Dqueue
open Std Effects RawMem

def Str.text (name : Str) : String := String.ofList (name.map (fun b => Char.ofNat b.toNat))

namespace Node

/-- The first queue with that id in the order of the names. -/
def queueById (n : Node) (id : Int32) : Except Exception Queue :=
  match n.queues.toList.find? (fun kv => kv.2.queueId == id) with
  | some kv => .ok kv.2
  | none => .error ⟨s!"queue with id=#{id} was not founded."⟩

def queueByName (n : Node) (name : Str) : Except Exception Queue :=
  match n.queues[name]? with
  | some q => .ok q
  | none => .error ⟨"queue with name=" ++ name.text ++ " was not founded."⟩

def Named (n : Node) : Prop := ∀ (q : Str) Q, n.queues[q]? = some Q → Q.settings.name = q

structure Identified (n : Node) : Prop where
  counted : 0 ≤ n.nextQueueId.toInt
  given : ∀ (q : Str) Q, n.queues[q]? = some Q →
    0 ≤ Q.queueId.toInt ∧ Q.queueId.toInt < n.nextQueueId.toInt
  own : ∀ (q q' : Str) Q Q', n.queues[q]? = some Q → n.queues[q']? = some Q' →
    Q.queueId = Q'.queueId → q = q'

end Node

inductive QueuesStep (n : Node) : Op → Node → Prop where
  | same {op : Op} {n' : Node} (queues : ∀ q : Str, n'.queues[q]? = n.queues[q]?)
      (next : n'.nextQueueId = n.nextQueueId) : QueuesStep n op n'
  | added {qs : QueueSettings} {c : Id} {n' : Node} (missing : n.queues[qs.name]? = none)
      (queues : ∀ q : Str, n'.queues[q]? =
        if qs.name = q then some ⟨n.nextQueueId,qs⟩ else n.queues[q]?)
      (next : n'.nextQueueId = n.nextQueueId+1) : QueuesStep n (.createQueue qs c) n'
  | updated {qs : QueueSettings} {c : Id} {old : Queue} {n' : Node}
      (present : n.queues[qs.name]? = some old)
      (queues : ∀ q : Str, n'.queues[q]? =
        if qs.name = q then some { old with settings := qs } else n.queues[q]?)
      (next : n'.nextQueueId = n.nextQueueId) : QueuesStep n (.createQueue qs c) n'
  | removed {id : Id} {n' : Node}
      (queues : ∀ q : Str, n'.queues[q]? = if Node.Removed id n q then none else n.queues[q]?)
      (next : n'.nextQueueId = n.nextQueueId) : QueuesStep n (.eraseClient id) n'

theorem createQueue_queues (users : UserBase) (qs : QueueSettings) (c : Id) (n : Node) :
    QueuesStep n (.createQueue qs c) (final (Node.createQueue users qs c n)) := by
  rw [Node.createQueue_run]
  split
  · exact .same (fun _ => rfl) rfl
  · cases hq : n.queues[qs.name]? with
    | none =>
      refine .added hq (fun q => ?_) rfl
      show (n.queues.insert qs.name _)[q]? = _
      simp only [ExtTreeMap.getElem?_insert,LawfulEqCmp.compare_eq_iff_eq]
    | some old =>
      refine .updated hq (fun q => ?_) rfl
      show (n.queues.insert qs.name _)[q]? = _
      simp only [ExtTreeMap.getElem?_insert,LawfulEqCmp.compare_eq_iff_eq]

variable (regex : RegexCompiler)

theorem World.step_queues (w : World) (op : Op) :
    QueuesStep w.node op (w.step regex op).node := by
  cases op with
  | append user => exact .same (fun _ => rfl) rfl
  | setLogin id login => exact .same (fun _ => rfl) rfl
  | eraseUser id =>
    simp only [World.step,World.exec]
    split <;> exact .same (fun _ => rfl) rfl
  | compile re => exact .same (fun _ => rfl) rfl
  | createQueue qs c => exact createQueue_queues w.users qs c w.node
  | changeSubscription a sp c =>
    simp only [World.step,World.exec,Node.changeSubscription,Node.changeSubscriptionImpl_run]
    split
    · exact .same (fun _ => rfl) rfl
    · split <;> exact .same (fun _ => rfl) rfl
  | eraseClient id =>
    exact .removed (Node.queues_eraseClient id w.node) (Node.nextQueueId_eraseClient id w.node)
  | publish p rd author =>
    simp only [World.step,World.exec,World.publish,Node.localCopy]
    split <;> exact .same (fun _ => rfl) rfl

variable {regex}

theorem int32_lt_succ {x : Int32} (h : x.toInt ≤ (x+1).toInt) : x.toInt < (x+1).toInt := by
  have hlow := x.le_toInt
  have hhigh := x.toInt_lt
  have hsucc : (x+1).toInt = (x.toInt+1).bmod (2^32) := Int32.toInt_add x 1
  rw [hsucc] at h ⊢
  rw [Int.bmod_def] at h ⊢
  split at h <;> omega

/-- The counter does not overflow in the step. -/
def Node.Counts (n n' : Node) : Prop := n.nextQueueId.toInt ≤ n'.nextQueueId.toInt

theorem QueuesStep.origin {n n' : Node} {op : Op} (hs : QueuesStep n op n') {q : Str} {Q : Queue}
    (hq : n'.queues[q]? = some Q) :
    (∃ Q₀, n.queues[q]? = some Q₀ ∧ Q₀.queueId = Q.queueId ∧
      (Q₀.settings.name = q → Q.settings.name = q)) ∨
    (n.queues[q]? = none ∧ n'.nextQueueId = n.nextQueueId+1 ∧ Q.queueId = n.nextQueueId ∧
      Q.settings.name = q ∧ ∃ qs c, op = .createQueue qs c ∧ qs.name = q) := by
  cases hs with
  | same queues next =>
    rw [queues] at hq
    exact .inl ⟨Q,hq,rfl,fun h => h⟩
  | added missing queues next =>
    rw [queues] at hq
    split at hq
    · rename_i hn
      cases hq
      exact .inr ⟨hn ▸ missing,next,rfl,hn,_,_,rfl,hn⟩
    · exact .inl ⟨Q,hq,rfl,fun h => h⟩
  | updated present queues next =>
    rw [queues] at hq
    split at hq
    · rename_i hn
      cases hq
      subst hn
      exact .inl ⟨_,present,rfl,fun _ => rfl⟩
    · exact .inl ⟨Q,hq,rfl,fun h => h⟩
  | removed queues next =>
    rw [queues] at hq
    split at hq
    · cases hq
    · exact .inl ⟨Q,hq,rfl,fun h => h⟩

theorem Node.Named.step {n n' : Node} {op : Op} (h : n.Named) (hs : QueuesStep n op n') :
    n'.Named := by
  intro q Q hq
  rcases hs.origin hq with ⟨Q₀,hq₀,-,hname⟩ | ⟨-,-,-,hname,-⟩
  · exact hname (h q Q₀ hq₀)
  · exact hname

theorem Node.Identified.step {n n' : Node} {op : Op} (h : n.Identified)
    (hs : QueuesStep n op n') (hle : n.Counts n') : n'.Identified := by
  have hnew : n'.nextQueueId = n.nextQueueId+1 →
      n.nextQueueId.toInt < n'.nextQueueId.toInt := by
    intro hnext
    unfold Counts at hle
    rw [hnext] at hle ⊢
    exact int32_lt_succ hle
  refine ⟨h.counted.trans hle,fun q Q hq => ?_,fun q q' Q Q' hq hq' he => ?_⟩
  · rcases hs.origin hq with ⟨Q₀,hq₀,hid,-⟩ | ⟨-,hnext,hid,-⟩
    · rw [← hid]
      exact ⟨(h.given q Q₀ hq₀).1,(h.given q Q₀ hq₀).2.trans_le hle⟩
    · rw [hid]
      exact ⟨h.counted,hnew hnext⟩
  · rcases hs.origin hq with ⟨Q₀,hq₀,hid,-⟩ | ⟨-,-,hid,-,qs,c,hop,hn⟩
    · rcases hs.origin hq' with ⟨Q₁,hq₁,hid₁,-⟩ | ⟨-,-,hid₁,-⟩
      · exact h.own q q' Q₀ Q₁ hq₀ hq₁ (hid.trans (he.trans hid₁.symm))
      · have hsame : Q₀.queueId = n.nextQueueId := hid.trans (he.trans hid₁)
        exact absurd (h.given q Q₀ hq₀).2 (by simp [hsame])
    · rcases hs.origin hq' with ⟨Q₁,hq₁,hid₁,-⟩ | ⟨-,-,-,-,qs',c',hop',hn'⟩
      · have hsame : Q₁.queueId = n.nextQueueId := hid₁.trans (he.symm.trans hid)
        exact absurd (h.given q' Q₁ hq₁).2 (by simp [hsame])
      · rw [hop] at hop'
        cases hop'
        rw [← hn,← hn']

def Node.Retired (n : Node) (id : Int32) : Prop :=
  id.toInt < n.nextQueueId.toInt ∧ ∀ (q : Str) Q, n.queues[q]? = some Q → Q.queueId ≠ id

theorem Node.Retired.step {n n' : Node} {op : Op} {id : Int32} (h : n.Retired id)
    (hs : QueuesStep n op n') (hle : n.Counts n') : n'.Retired id := by
  refine ⟨h.1.trans_le hle,fun q Q hq => ?_⟩
  rcases hs.origin hq with ⟨Q₀,hq₀,hid,-⟩ | ⟨-,-,hid,-⟩
  · rw [← hid]
    exact h.2 q Q₀ hq₀
  · rw [hid]
    rintro rfl
    exact absurd h.1 (lt_irrefl _)

section Lookups

variable {n : Node}

theorem Node.queueByName_ok {q : Str} {Q : Queue} :
    n.queueByName q = .ok Q ↔ n.queues[q]? = some Q := by
  unfold Node.queueByName
  cases n.queues[q]? <;> simp

theorem Node.queueById_ok {id : Int32} {Q : Queue} (h : n.queueById id = .ok Q) :
    Q.queueId = id ∧ ∃ q : Str, n.queues[q]? = some Q := by
  unfold Node.queueById at h
  split at h
  · rename_i kv hkv
    cases h
    exact ⟨by simpa using List.find?_some hkv,kv.1,
      ExtTreeMap.mem_toList_iff_getElem?_eq_some.mp (List.mem_of_find?_eq_some hkv)⟩
  · cases h

theorem Node.Identified.queueById (h : n.Identified) {q : Str} {Q : Queue}
    (hq : n.queues[q]? = some Q) : n.queueById Q.queueId = .ok Q := by
  have hmem : (q,Q) ∈ n.queues.toList := ExtTreeMap.mem_toList_iff_getElem?_eq_some.mpr hq
  cases hf : n.queues.toList.find? (fun kv => kv.2.queueId == Q.queueId) with
  | none =>
    have hno := List.find?_eq_none.mp hf (q,Q) hmem
    simp at hno
  | some kv =>
    have hkv : n.queues[kv.1]? = some kv.2 :=
      ExtTreeMap.mem_toList_iff_getElem?_eq_some.mp (List.mem_of_find?_eq_some hf)
    have hid : kv.2.queueId = Q.queueId := by simpa using List.find?_some hf
    have hname := h.own kv.1 q kv.2 Q hkv hq hid
    rw [hname,hq] at hkv
    cases hkv
    simp [Node.queueById,hf]

end Lookups

def World.creates (w : World) : Op → Bool
  | .createQueue qs c => w.users.exists c && !w.node.queueIsExists qs.name
  | _ => false

def World.creations (regex : RegexCompiler) : World → List Op → Nat
  | _, [] => 0
  | w, op :: ops =>
    (if w.creates op then 1 else 0)+World.creations regex (w.step regex op) ops

theorem World.step_nextQueueId (w : World) (op : Op) : (w.step regex op).node.nextQueueId =
    w.node.nextQueueId+Int32.ofNat (if w.creates op then 1 else 0) := by
  cases op with
  | createQueue qs c =>
    have hrun := Node.createQueue_run w.users qs c w.node
    simp only [World.step,World.exec,World.creates]
    rw [hrun]
    by_cases hu : w.users.exists c = true
    · cases hq : w.node.queues[qs.name]? with
      | none =>
        have hno : w.node.queueIsExists qs.name = false := by
          rw [Bool.eq_false_iff,ne_eq,Node.queueIsExists_iff,Node.hasQueue_iff,hq]
          simp
        simp [hu,hno,Node.changed,Node.addQueue,Node.setListeners]
      | some old =>
        have hyes : w.node.queueIsExists qs.name = true := by
          rw [Node.queueIsExists_iff,Node.hasQueue_iff,hq]
          simp
        simp [hu,hyes,Node.updateQueue]
    · simp [hu]
  | append user => simp [World.step,World.exec,World.creates]
  | setLogin id login => simp [World.step,World.exec,World.creates]
  | eraseUser id =>
    simp only [World.step,World.exec,World.creates]
    split <;> simp
  | compile re => simp [World.step,World.exec,World.creates]
  | changeSubscription a sp c =>
    simp only [World.step,World.exec,Node.changeSubscription,Node.changeSubscriptionImpl_run,
      World.creates]
    split
    · simp
    · split <;> simp [Node.changed,Node.setListeners]
  | eraseClient id => simp [World.step,World.exec,World.creates,Node.nextQueueId_eraseClient]
  | publish p rd author =>
    simp only [World.step,World.exec,World.publish,Node.localCopy,World.creates]
    split <;> simp [Node.setListeners]

/-- However many queues have been created: the counter wraps. -/
theorem World.run_nextQueueId (w : World) (ops : List Op) : (w.run regex ops).node.nextQueueId =
    w.node.nextQueueId+Int32.ofNat (w.creations regex ops) := by
  induction ops generalizing w with
  | nil => simp [World.run,World.creations]
  | cons op ops ih =>
    have hrun : w.run regex (op :: ops) = (w.step regex op).run regex ops := rfl
    rw [hrun,ih,World.step_nextQueueId,World.creations,Int32.ofNat_add,Int32.add_assoc]

abbrev World.Counted (regex : RegexCompiler) : World → List Op → Prop :=
  Runs.Along (World.step regex) fun w op => w.node.Counts (w.step regex op).node

theorem World.counted {w : World} {k : Nat} (hk : w.node.nextQueueId = Int32.ofNat k)
    {ops : List Op} (few : k+w.creations regex ops < 2^31) : w.Counted regex ops := by
  induction ops generalizing w k with
  | nil => trivial
  | cons op ops ih =>
    have hnext : (w.step regex op).node.nextQueueId =
        Int32.ofNat (k+if w.creates op then 1 else 0) := by
      rw [World.step_nextQueueId,hk,Int32.ofNat_add]
    rw [World.creations] at few
    refine ⟨?_,ih hnext (by omega)⟩
    show w.node.nextQueueId.toInt ≤ (w.step regex op).node.nextQueueId.toInt
    rw [hnext,hk,Int32.toInt_ofNat_of_lt (by omega),Int32.toInt_ofNat_of_lt (by omega)]
    omega

theorem World.Fresh.counted {w₀ : World} (fresh : w₀.Fresh regex) {ops : List Op}
    (few : w₀.creations regex ops < 2^31) : w₀.Counted regex ops :=
  World.counted (k := 0) (by rw [fresh.node]; rfl) (by omega)

theorem World.run_named {w₀ : World} (fresh : w₀.Fresh regex) (ops : List Op) :
    (w₀.run regex ops).node.Named := by
  refine Runs.invariant (P := fun w : World => w.node.Named)
    (fun w op h => h.step (w.step_queues regex op)) ?_ ops
  rw [fresh.node]
  intro q Q hq
  simp [Node.empty] at hq

theorem World.run_identified {w₀ : World} (fresh : w₀.Fresh regex) {ops : List Op}
    (hc : w₀.Counted regex ops) : (w₀.run regex ops).node.Identified := by
  refine Runs.Along.invariant (P := fun w : World => w.node.Identified)
    (fun w op h hle => h.step (w.step_queues regex op) hle) ?_ hc
  rw [fresh.node]
  refine ⟨le_rfl,fun q Q hq => ?_,fun q q' Q Q' hq => ?_⟩ <;>
    simp [Node.empty] at hq

theorem Node.Identified.keeps {n n' : Node} {op : Op} (h : n.Identified)
    (hs : QueuesStep n op n') (hle : n.Counts n') {q : Str} {Q : Queue}
    (hq : n.queues[q]? = some Q) :
    (∃ Q', n'.queues[q]? = some Q' ∧ Q'.queueId = Q.queueId) ∨ n'.Retired Q.queueId := by
  have hgiven := h.given q Q hq
  cases hq' : n'.queues[q]? with
  | none =>
    refine .inr ⟨hgiven.2.trans_le hle,fun k K hk hid => ?_⟩
    rcases hs.origin hk with ⟨K₀,hk₀,hid₀,-⟩ | ⟨-,-,hid₀,-⟩
    · rw [h.own k q K₀ Q hk₀ hq (hid₀.trans hid),hq'] at hk
      cases hk
    · exact absurd hgiven.2 (by simp [← hid,hid₀])
  | some Q' =>
    refine .inl ⟨Q',rfl,?_⟩
    rcases hs.origin hq' with ⟨Q₀,hq₀,hid,-⟩ | ⟨hmissing,-⟩
    · rw [hq] at hq₀
      cases hq₀
      exact hid.symm
    · rw [hq] at hmissing
      cases hmissing

theorem World.queue_or_retired {w₀ : World} (fresh : w₀.Fresh regex) {pre d : List Op}
    (hc : w₀.Counted regex (pre ++ d)) {q : Str} {Q : Queue}
    (hq : (w₀.run regex pre).node.queues[q]? = some Q) :
    (∃ Q', (w₀.run regex (pre ++ d)).node.queues[q]? = some Q' ∧ Q'.queueId = Q.queueId) ∨
      (w₀.run regex (pre ++ d)).node.Retired Q.queueId := by
  have hrun : w₀.run regex (pre ++ d) = (w₀.run regex pre).run regex d := List.foldl_append
  obtain ⟨hpre,hd⟩ := Runs.along_append.mp hc
  have hinv : (w₀.run regex (pre ++ d)).node.Identified ∧
      ((∃ Q', (w₀.run regex (pre ++ d)).node.queues[q]? = some Q' ∧ Q'.queueId = Q.queueId) ∨
        (w₀.run regex (pre ++ d)).node.Retired Q.queueId) := by
    rw [hrun]
    refine Runs.Along.invariant (P := fun w : World => w.node.Identified ∧
      ((∃ Q', w.node.queues[q]? = some Q' ∧ Q'.queueId = Q.queueId) ∨
        w.node.Retired Q.queueId)) (fun w op h hle => ?_) ?_ hd
    · have hs := w.step_queues regex op
      refine ⟨h.1.step hs hle,?_⟩
      rcases h.2 with ⟨Q',hq',hid⟩ | hr
      · rw [← hid]
        exact h.1.keeps hs hle hq'
      · exact .inr (hr.step hs hle)
    · exact ⟨World.run_identified fresh hpre,.inl ⟨Q,hq,rfl⟩⟩
  exact hinv.2

/-- Ids are given in the order of creation, and as long as fewer than 2^31 queues have
been created no id is given twice. A queue is found by its name and by its id, and whoever
finds an id again finds the same queue, which has been there all the time. -/
theorem queue_ids {w₀ : World} (fresh : w₀.Fresh regex) (ops : List Op)
    (few : w₀.creations regex ops < 2^31) :
    (w₀.run regex ops).node.nextQueueId.toInt = w₀.creations regex ops ∧
    (∀ q Q, (w₀.run regex ops).node.queueByName q = .ok Q →
      0 ≤ Q.queueId.toInt ∧ Q.queueId.toInt < w₀.creations regex ops ∧
        (w₀.run regex ops).node.queueById Q.queueId = .ok Q) ∧
    (∀ id Q, (w₀.run regex ops).node.queueById id = .ok Q →
      Q.queueId = id ∧ (w₀.run regex ops).node.queueByName Q.settings.name = .ok Q) ∧
    ∀ pre post q Q, ops = pre ++ post → (w₀.run regex pre).node.queueByName q = .ok Q →
      ∀ Q', (w₀.run regex ops).node.queueById Q.queueId = .ok Q' →
        Q'.settings.name = q ∧ ∀ d r, post = d ++ r →
          ∃ Q'', (w₀.run regex (pre ++ d)).node.queueByName q = .ok Q'' ∧
            Q''.queueId = Q.queueId := by
  have hcounted := fresh.counted few
  have hid := World.run_identified fresh hcounted
  have hnamed := World.run_named fresh ops
  have hnext : (w₀.run regex ops).node.nextQueueId.toInt = w₀.creations regex ops := by
    rw [World.run_nextQueueId,fresh.node]
    simp only [Node.empty,Int32.zero_add]
    exact Int32.toInt_ofNat_of_lt few
  refine ⟨hnext,fun q Q hq => ?_,fun id Q hq => ?_,fun pre post q Q hops hq Q' hq' => ?_⟩
  · rw [Node.queueByName_ok] at hq
    have hgiven := hid.given q Q hq
    exact ⟨hgiven.1,hnext ▸ hgiven.2,hid.queueById hq⟩
  · obtain ⟨hQ,q,hq⟩ := Node.queueById_ok hq
    rw [Node.queueByName_ok,hnamed q Q hq]
    exact ⟨hQ,hq⟩
  · rw [Node.queueByName_ok] at hq
    obtain ⟨hsame,q',hq'⟩ := Node.queueById_ok hq'
    subst hops
    -- the id has a queue at the end, so it was not retired before
    have hlives : ∀ d r, post = d ++ r → ∃ Q'',
        (w₀.run regex (pre ++ d)).node.queues[q]? = some Q'' ∧ Q''.queueId = Q.queueId := by
      intro d r hpost
      rw [hpost,← List.append_assoc] at hcounted
      obtain ⟨hd,hr⟩ := Runs.along_append.mp hcounted
      rcases World.queue_or_retired fresh hd hq with hthere | hretired
      · exact hthere
      · have hrun : w₀.run regex (pre ++ post) = (w₀.run regex (pre ++ d)).run regex r := by
          rw [hpost,← List.append_assoc]
          exact List.foldl_append
        have hend : (w₀.run regex (pre ++ post)).node.Retired Q.queueId := by
          rw [hrun]
          exact Runs.Along.invariant (P := fun w : World => w.node.Retired Q.queueId)
            (fun w op h hle => h.step (w.step_queues regex op) hle) hretired hr
        exact absurd hsame (hend.2 q' Q' hq')
    refine ⟨?_,fun d r hpost => ?_⟩
    · obtain ⟨Q'',hq'',hsame'⟩ := hlives post [] (by simp)
      rw [hnamed q' Q' hq']
      exact hid.own q' q Q' Q'' hq' hq'' (hsame.trans hsame'.symm)
    · obtain ⟨Q'',hq'',hsame'⟩ := hlives d r hpost
      exact ⟨Q'',Node.queueByName_ok.mpr hq'',hsame'⟩

theorem queue_ids_created_again :
    (started.run literal [.createQueue ⟨[113]⟩ 1,.eraseClient 1,
      .createQueue ⟨[113]⟩ 2]).node.queueById 1 = .ok ⟨1,⟨[113]⟩⟩ := by
  have hname : (started.run literal [.createQueue ⟨[113]⟩ 1,.eraseClient 1,
      .createQueue ⟨[113]⟩ 2]).node.queueByName [113] = .ok ⟨1,⟨[113]⟩⟩ := by decide +kernel
  exact ((queue_ids ⟨rfl,.empty⟩ _ (by decide +kernel)).2.1 [113] ⟨1,⟨[113]⟩⟩ hname).2.2

end Dqueue
