import Dqueue.Queries
import Dqueue.Lib.Effects

/-!
Client ids, the exceptions of the source and the way from a received frame to
its handler, and the user base that the server and its node share.
-/

set_option autoImplicit false

namespace Dqueue
open Std

abbrev Id := UInt64

/-- `std::numeric_limits<int>::max()`, converted to the unsigned id. -/
def ServerID : Id := 2147483647

theorem ofNat_inj {j k : Nat} (hj : j < 2^64) (hk : k < 2^64)
    (h : UInt64.ofNat j = UInt64.ofNat k) : j = k := by
  have ht := congrArg UInt64.toNat h
  rwa [UInt64.toNat_ofNat_of_lt' hj,UInt64.toNat_ofNat_of_lt' hk] at ht

/-- What `THROW_EXCEPTION` throws in a build without `DEBUG`. `ENSURE` is empty
in a build without `DOUBLE_CHECKS`, the default, and is left out. -/
structure Exception where
  message : String
  deriving DecidableEq, Repr

/-- How a handler ends that does not return. Only after an exception is the
state of the process defined. -/
inductive Failure where
  | thrown (e : Exception)
  | fault (f : RawMem.Fault)
  | nullDereference
  deriving DecidableEq, Repr

def attempt {σ α : Type} (x : Except RawMem.Fault α) : EStateM Failure σ α :=
  match x with
  | .ok a => pure a
  | .error f => throw (.fault f)

/-- The beginning that both parties' `onNewMessage` share: the switch over the
kinds that the party expects, and the constructor of the query. -/
def Message.ofFrame {σ : Type} (expected : List MessageKinds) (unknow : String)
    (d : NetworkMessage) : EStateM Failure σ Message := do
  let kind ← attempt d.kind
  match MessageKinds.ofNat? kind with
  | some k =>
    if k ∈ expected then attempt (Message.ofKind d k)
    else throw (.thrown ⟨s!"{unknow}{kind}"⟩)
  | none => throw (.thrown ⟨s!"{unknow}{kind}"⟩)

theorem Message.ofFrame_run {σ : Type} {m : Message} {d : NetworkMessage} (h : m.Sendable)
    (hf : d.Frame m.kind.toNat m.body) {expected : List MessageKinds} (unknow : String) (s : σ) :
    Message.ofFrame expected unknow d s =
      if m.kind ∈ expected then .ok m s
      else .error (.thrown ⟨s!"{unknow}{m.kind.toNat}"⟩) s := by
  simp only [Message.ofFrame,hf.kind_eq m.kind.toNat_lt,Effects.bind_apply,attempt,
    Effects.pure_apply,MessageKinds.ofNat?_toNat]
  split
  · rw [Message.ofKind_of_frame h hf]
    rfl
  · rfl

theorem Message.ofFrame_state {σ : Type} (expected : List MessageKinds) (unknow : String)
    (d : NetworkMessage) (s : σ) :
    (∃ m, Message.ofFrame expected unknow d s = .ok m s) ∨
      ∃ e, Message.ofFrame expected unknow d s = .error e s := by
  simp only [Message.ofFrame,Effects.bind_apply]
  cases d.kind with
  | error f => exact .inr ⟨_,rfl⟩
  | ok kind =>
    simp only [attempt,Effects.pure_apply]
    cases MessageKinds.ofNat? kind with
    | none => exact .inr ⟨_,rfl⟩
    | some k =>
      by_cases hk : k ∈ expected
      · simp only [hk,if_true]
        cases Message.ofKind d k with
        | error f => exact .inr ⟨_,rfl⟩
        | ok m => exact .inl ⟨m,rfl⟩
      · simp only [hk,if_false]
        exact .inr ⟨_,rfl⟩

structure User where
  login : Str
  id : Id
  deriving DecidableEq, Repr

structure UserBase where
  users : ExtTreeMap Id User

namespace UserBase

def create : UserBase := ⟨∅⟩

def append (ub : UserBase) (user : User) : UserBase := ⟨ub.users.insert user.id user⟩

/-- `operator[]` makes a user of its own for an id that is not there. -/
def setLogin (ub : UserBase) (id : Id) (login : Str) : UserBase :=
  ⟨ub.users.insert id { ub.users[id]?.getD ⟨[],0⟩ with login := login }⟩

def erase (ub : UserBase) (id : Id) : Except Exception UserBase :=
  match ub.users[id]? with
  | some _ => .ok ⟨ub.users.erase id⟩
  | none => .error ⟨s!"node: user id=#{id}not exists"⟩

def «exists» (ub : UserBase) (id : Id) : Bool := ub.users.contains id

theorem exists_iff (ub : UserBase) (id : Id) : ub.exists id = true ↔ id ∈ ub.users :=
  ExtTreeMap.contains_iff_mem

theorem exists_append (ub : UserBase) (user : User) (id : Id) :
    (ub.append user).exists id = true ↔ id = user.id ∨ ub.exists id = true := by
  simp only [exists_iff,append,ExtTreeMap.mem_insert,LawfulEqCmp.compare_eq_iff_eq]
  rw [eq_comm]

theorem exists_setLogin (ub : UserBase) (id id' : Id) (login : Str) :
    (ub.setLogin id login).exists id' = true ↔ id' = id ∨ ub.exists id' = true := by
  simp only [exists_iff,setLogin,ExtTreeMap.mem_insert,LawfulEqCmp.compare_eq_iff_eq]
  rw [eq_comm]

theorem exists_erase {ub ub' : UserBase} {id : Id} (h : ub.erase id = .ok ub') (id' : Id) :
    ub'.exists id' = true ↔ id' ≠ id ∧ ub.exists id' = true := by
  unfold erase at h
  split at h
  · cases h
    simp only [exists_iff,ExtTreeMap.mem_erase,ne_eq,LawfulEqCmp.compare_eq_iff_eq]
    rw [eq_comm]
  · cases h

theorem erase_of_exists {ub : UserBase} {id : Id} (h : ub.exists id = true) :
    ∃ ub', ub.erase id = .ok ub' := by
  rw [exists_iff,ExtTreeMap.mem_iff_isSome_getElem?] at h
  unfold erase
  cases hu : ub.users[id]? with
  | none => simp [hu] at h
  | some u => exact ⟨_,rfl⟩

end UserBase

end Dqueue
