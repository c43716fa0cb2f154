import Dqueue.Descriptions

/-!
`getDescription` beside other threads. It goes through the queues one by one and
takes the lock of the subscriptions anew for each of them, but it holds the lock of
the queues from the beginning to the end. Whoever changes either map takes that lock
for himself; `publish` does not take it at all.
-/

set_option autoImplicit false

namespace Dqueue
open Std Effects RawMem

/-- The call takes `_queues_locker` for itself. -/
def Op.exclusive : Op → Bool
  | .createQueue _ _ => true
  | .changeSubscription _ _ _ => true
  | .eraseClient _ => true
  | _ => false

/-- A thread in the loop of `getDescription`; `begun` is the node on which it took the
lock. -/
structure Describer where
  result : List QueueDescription
  pos : Nat
  begun : Node

structure Snapshot where
  begun : Node
  ended : Node
  result : List QueueDescription

structure DescribedWorld where
  world : World
  describers : List Describer
  returned : List Snapshot

inductive DescribeEvent where
  | call (op : Op)
  | begins
  | describes (k : Nat)
  deriving DecidableEq, Repr

namespace DescribedWorld

variable (regex : RegexCompiler)

def start (users : UserBase) (cache : ReCache) : DescribedWorld := ⟨⟨users,Node.empty,cache⟩,[],[]⟩

def begins (s : DescribedWorld) : DescribedWorld :=
  { s with describers := s.describers ++
      [⟨List.replicate s.world.node.queues.size ⟨⟨[]⟩,[]⟩,0,s.world.node⟩] }

/-- The loop reads the maps as they are at the moment. -/
def describes (s : DescribedWorld) (k : Nat) : DescribedWorld :=
  match s.describers[k]? with
  | none => s
  | some t =>
    match s.world.node.queues.toList[t.pos]? with
    | some kv =>
      let t' := ⟨t.result.set t.pos (s.world.node.describe kv),t.pos+1,t.begun⟩
      { s with describers := s.describers.set k t' }
    | none =>
      { s with
        describers := s.describers.eraseIdx k
        returned := s.returned ++ [⟨t.begun,s.world.node,t.result⟩] }

def step (s : DescribedWorld) : DescribeEvent → DescribedWorld
  | .call op =>
    if op.exclusive && !s.describers.isEmpty then s
    else { s with world := s.world.step regex op }
  | .begins => s.begins
  | .describes k => s.describes k

def run (s : DescribedWorld) (es : List DescribeEvent) : DescribedWorld := es.foldl (step regex) s

end DescribedWorld

def Node.filled (n : Node) (pos : Nat) : List QueueDescription :=
  (n.queues.toList.take pos).map n.describe ++
    List.replicate (n.queues.size-pos) ⟨⟨[]⟩,[]⟩

theorem Node.filled_set {n : Node} {pos : Nat} {kv : Str × Queue}
    (h : n.queues.toList[pos]? = some kv) :
    (n.filled pos).set pos (n.describe kv) = n.filled (pos+1) := by
  obtain ⟨hlt,hkv⟩ := List.getElem?_eq_some_iff.mp h
  rw [ExtTreeMap.length_toList] at hlt
  obtain ⟨m,hm⟩ : ∃ m, n.queues.size-pos = m+1 := ⟨n.queues.size-pos-1,by omega⟩
  have hm' : n.queues.size-(pos+1) = m := by omega
  have hlen : ((n.queues.toList.take pos).map n.describe).length = pos := by
    simp
    omega
  unfold Node.filled
  rw [hm,hm',List.replicate_succ,List.take_add_one,h]
  conv_lhs => rw [← hlen]
  simp

theorem Node.filled_end {n : Node} {pos : Nat} (h : n.queues.toList[pos]? = none) :
    n.filled pos = n.getDescription := by
  have hle : n.queues.size ≤ pos := by simpa using h
  rw [Node.getDescription_eq]
  simp [Node.filled,Nat.sub_eq_zero_of_le hle,List.take_of_length_le,hle]

namespace DescribedWorld

variable {regex : RegexCompiler} {s : DescribedWorld}

/-- Nobody changes the node behind the back of a thread that describes it. -/
structure Steady (s : DescribedWorld) : Prop where
  keyed : s.world.node.Keyed
  inside : ∀ t ∈ s.describers, t.begun = s.world.node ∧ t.result = s.world.node.filled t.pos
  done : ∀ r ∈ s.returned, r.ended = r.begun ∧ r.result = r.begun.getDescription

theorem Steady.start (users : UserBase) (cache : ReCache) : (start users cache).Steady := by
  refine ⟨fun q hq => ?_,by simp [DescribedWorld.start],by simp [DescribedWorld.start]⟩
  simp [DescribedWorld.start,Node.HasQueue,Node.empty] at hq

theorem node_of_shared {w : World} (h : w.node.Keyed) {op : Op} (shared : op.exclusive = false) :
    (w.step regex op).node = w.node := by
  cases op with
  | append user => rfl
  | setLogin id login => rfl
  | eraseUser id =>
    simp only [World.step,World.exec]
    split <;> rfl
  | compile re => rfl
  | publish p rd author => exact h.localCopy p.queueName
  | createQueue qs c => cases shared
  | changeSubscription a sp c => cases shared
  | eraseClient id => cases shared

theorem Steady.call (h : s.Steady) (op : Op) : (s.step regex (.call op)).Steady := by
  simp only [step]
  split
  · exact h
  · rename_i hfree
    refine ⟨World.step_keyed h.keyed op,fun t ht => ?_,h.done⟩
    cases hop : op.exclusive with
    | false =>
      show t.begun = (s.world.step regex op).node ∧ t.result = (s.world.step regex op).node.filled _
      rw [node_of_shared h.keyed hop]
      exact h.inside t ht
    | true =>
      have hnone : s.describers = [] := by simpa [hop] using hfree
      have ht' : t ∈ s.describers := ht
      rw [hnone] at ht'
      cases ht'

theorem Steady.begins (h : s.Steady) : s.begins.Steady := by
  refine ⟨h.keyed,fun t ht => ?_,h.done⟩
  rcases List.mem_append.mp ht with ht | ht
  · exact h.inside t ht
  · rw [List.mem_singleton.mp ht]
    exact ⟨rfl,by simp [Node.filled,DescribedWorld.begins]⟩

theorem Steady.describes (h : s.Steady) (k : Nat) : (s.describes k).Steady := by
  unfold DescribedWorld.describes
  cases hk : s.describers[k]? with
  | none => exact h
  | some t =>
    obtain ⟨hbegun,hresult⟩ := h.inside t (List.mem_of_getElem? hk)
    simp only
    cases hkv : s.world.node.queues.toList[t.pos]? with
    | some kv =>
      refine ⟨h.keyed,fun t' ht' => ?_,h.done⟩
      rcases List.mem_or_eq_of_mem_set ht' with ht' | rfl
      · exact h.inside t' ht'
      · refine ⟨hbegun,?_⟩
        show t.result.set t.pos _ = _
        rw [hresult]
        exact Node.filled_set hkv
    | none =>
      refine ⟨h.keyed,fun t' ht' => h.inside t' (List.mem_of_mem_eraseIdx ht'),fun r hr => ?_⟩
      rcases List.mem_append.mp hr with hr | hr
      · exact h.done r hr
      · rw [List.mem_singleton.mp hr]
        refine ⟨hbegun.symm,?_⟩
        show t.result = t.begun.getDescription
        rw [hresult,hbegun]
        exact Node.filled_end hkv

theorem Steady.step (h : s.Steady) (e : DescribeEvent) : (s.step regex e).Steady := by
  cases e with
  | call op => exact h.call op
  | begins => exact h.begins
  | describes k => exact h.describes k

end DescribedWorld

/-- However the rounds of any number of `getDescription` calls are mixed with each other
and with the calls of other threads, each returns the description of one state of the
node, which lasted from the beginning of the call to its end. -/
theorem description_snapshot (regex : RegexCompiler) (users : UserBase) (cache : ReCache)
    (es : List DescribeEvent) :
    ∀ r ∈ ((DescribedWorld.start users cache).run regex es).returned,
      r.ended = r.begun ∧ r.result = r.begun.getDescription := by
  have h : ((DescribedWorld.start users cache).run regex es).Steady :=
    Runs.invariant (fun _ e h => h.step e) (.start users cache) es
  exact h.done

/-- A queue cannot be created in the middle of a description. -/
def describedTwice : DescribedWorld :=
  (DescribedWorld.start started.users ∅).run literal
    [.call (.createQueue ⟨[112]⟩ 1),.begins,.call (.createQueue ⟨[113]⟩ 1),.describes 0,
      .describes 0,.call (.createQueue ⟨[113]⟩ 1),.begins,.describes 0,.describes 0,.describes 0]

theorem description_snapshot_described_twice :
    describedTwice.returned.map (fun r => r.begun.getDescription) =
      [[⟨⟨[112]⟩,[1]⟩],[⟨⟨[112]⟩,[1]⟩,⟨⟨[113]⟩,[1]⟩]] := by
  have hresults : describedTwice.returned.map Snapshot.result =
      [[⟨⟨[112]⟩,[1]⟩],[⟨⟨[112]⟩,[1]⟩,⟨⟨[113]⟩,[1]⟩]] := by decide +kernel
  rw [← hresults]
  exact List.map_congr_left
    fun r hr => (description_snapshot literal started.users ∅ _ r hr).2.symm

end Dqueue
