import Mathlib

/-!
Little-endian integers and blocks of raw memory with bounds-checked access.
A cell is `none` until it is first written, so that reading freshly allocated
memory is an error of its own and never invents a value.
-/

set_option autoImplicit false

namespace RawMem

abbrev Bytes := List UInt8

def leBytes : Nat → Nat → Bytes
  | 0, _ => []
  | k+1, n => UInt8.ofNat (n%256) :: leBytes k (n/256)

def leNat : Bytes → Nat
  | [] => 0
  | b :: bs => b.toNat+256*leNat bs

@[simp] theorem leBytes_length (k n : Nat) : (leBytes k n).length = k := by
  induction k generalizing n with
  | zero => rfl
  | succ k ih => simp [leBytes,ih]

theorem leNat_leBytes (k n : Nat) : leNat (leBytes k n) = n%256^k := by
  induction k generalizing n with
  | zero => simp [leBytes,leNat,Nat.mod_one]
  | succ k ih =>
    have hb : (UInt8.ofNat (n%256)).toNat = n%256 := by
      simp [UInt8.toNat_ofNat']
    rw [leBytes,leNat,ih,hb,Nat.pow_succ,Nat.mul_comm (256^k) 256,Nat.mod_mul]

theorem leNat_leBytes_of_lt {k n : Nat} (h : n < 256^k) : leNat (leBytes k n) = n := by
  rw [leNat_leBytes]; exact Nat.mod_eq_of_lt h

theorem leNat_lt (bs : Bytes) : leNat bs < 256^bs.length := by
  induction bs with
  | nil => simp [leNat]
  | cons b bs ih =>
    have hb := b.toNat_lt
    simp only [leNat,List.length_cons,Nat.pow_succ]
    omega

theorem leBytes_leNat (bs : Bytes) : leBytes bs.length (leNat bs) = bs := by
  induction bs with
  | nil => rfl
  | cons b bs ih =>
    have hb := b.toNat_lt
    have h₁ : (b.toNat+256*leNat bs)%256 = b.toNat := by omega
    have h₂ : (b.toNat+256*leNat bs)/256 = leNat bs := by omega
    simp [leNat,leBytes,h₁,h₂,ih]

inductive Fault where
  | outOfBounds
  | indeterminate
  deriving DecidableEq, Repr

theorem bind_eq_ok {ε α β : Type} {x : Except ε α} {f : α → Except ε β} {b : β}
    (h : x >>= f = .ok b) : ∃ a, x = .ok a ∧ f a = .ok b := by
  cases x with
  | error e => simp [bind,Except.bind] at h
  | ok a => exact ⟨a,rfl,h⟩

structure Block where
  cells : List (Option UInt8)
  deriving DecidableEq, Repr

def Block.alloc (n : Nat) : Block := ⟨List.replicate n none⟩

def Block.size (m : Block) : Nat := m.cells.length

def Block.write (m : Block) (off : Nat) (bs : Bytes) : Except Fault Block :=
  if off+bs.length ≤ m.size then
    .ok ⟨m.cells.take off ++ bs.map some ++ m.cells.drop (off+bs.length)⟩
  else .error .outOfBounds

def known : List (Option UInt8) → Option Bytes
  | [] => some []
  | none :: _ => none
  | some b :: cs => (known cs).map (b :: ·)

def Block.read (m : Block) (off k : Nat) : Except Fault Bytes :=
  if off+k ≤ m.size then
    match known ((m.cells.drop off).take k) with
    | some bs => .ok bs
    | none => .error .indeterminate
  else .error .outOfBounds

@[simp] theorem Block.size_alloc (n : Nat) : (Block.alloc n).size = n := by
  simp [alloc,size]

def Block.Holds (m : Block) (off : Nat) (bs : Bytes) : Prop :=
  ∀ i b, bs[i]? = some b → m.cells[off+i]? = some (some b)

theorem known_map_some (bs : Bytes) : known (bs.map some) = some bs := by
  induction bs with
  | nil => rfl
  | cons b bs ih => simp [known,ih]

theorem Block.read_of_holds {m : Block} {off : Nat} {bs : Bytes} (h : m.Holds off bs)
    (hb : off+bs.length ≤ m.size) : m.read off bs.length = .ok bs := by
  have hc : (m.cells.drop off).take bs.length = bs.map some := by
    apply List.ext_getElem?
    intro i
    by_cases hi : i < bs.length
    · have hcell := h i _ (List.getElem?_eq_getElem hi)
      simp [hi,hcell]
    · simp [hi]
  simp [read,hb,hc,known_map_some]

theorem Block.write_cells {m m' : Block} {off : Nat} {bs : Bytes}
    (h : m.write off bs = .ok m') (j : Nat) :
    m'.cells[j]? = if off ≤ j ∧ j < off+bs.length then (bs[j-off]?).map some
      else m.cells[j]? := by
  unfold write at h
  split at h
  · rename_i hb
    obtain rfl := Except.ok.inj h
    unfold size at hb
    have ht : (m.cells.take off).length = off := by simp; omega
    by_cases h₁ : j < off
    · have hn : ¬ (off ≤ j ∧ j < off+bs.length) := by omega
      rw [if_neg hn,List.append_assoc,List.getElem?_append_left (by omega)]
      simp [h₁]
    · by_cases h₂ : j < off+bs.length
      · rw [if_pos ⟨by omega,h₂⟩,List.append_assoc,
          List.getElem?_append_right (by omega),ht,
          List.getElem?_append_left (by simp; omega)]
        simp
      · have hn : ¬ (off ≤ j ∧ j < off+bs.length) := by omega
        rw [if_neg hn,List.getElem?_append_right (by simp; omega)]
        simp only [List.length_append,List.length_map,ht,List.getElem?_drop]
        congr 1
        omega
  · simp at h

theorem Block.write_ok {m : Block} {off : Nat} {bs : Bytes} (h : off+bs.length ≤ m.size) :
    ∃ m', m.write off bs = .ok m' := by
  simp [write,h]

theorem Block.write_bound {m m' : Block} {off : Nat} {bs : Bytes}
    (h : m.write off bs = .ok m') : off+bs.length ≤ m.size := by
  unfold write at h
  split at h
  · assumption
  · simp at h

theorem Block.write_size {m m' : Block} {off : Nat} {bs : Bytes}
    (h : m.write off bs = .ok m') : m'.size = m.size := by
  have hb := write_bound h
  simp only [write,hb,if_true,Except.ok.injEq] at h
  subst h
  unfold size at *
  simp; omega

theorem Block.holds_write {m m' : Block} {off : Nat} {bs : Bytes}
    (h : m.write off bs = .ok m') : m'.Holds off bs := by
  intro i b hi
  obtain ⟨hlt,_⟩ := List.getElem?_eq_some_iff.mp hi
  rw [write_cells h,if_pos ⟨by omega,by omega⟩]
  simp [hi]

theorem Block.Holds.frame {m m' : Block} {off off' : Nat} {bs bs' : Bytes}
    (hold : m.Holds off' bs') (h : m.write off bs = .ok m')
    (hd : off'+bs'.length ≤ off ∨ off+bs.length ≤ off') : m'.Holds off' bs' := by
  intro i b hi
  obtain ⟨hlt,_⟩ := List.getElem?_eq_some_iff.mp hi
  rw [write_cells h,if_neg (by omega)]
  exact hold i b hi

theorem Block.Holds.append {m : Block} {off : Nat} {a b : Bytes}
    (ha : m.Holds off a) (hb : m.Holds (off+a.length) b) : m.Holds off (a ++ b) := by
  intro i c hi
  by_cases h : i < a.length
  · rw [List.getElem?_append_left h] at hi
    exact ha i c hi
  · rw [List.getElem?_append_right (by omega)] at hi
    have hcell := hb (i-a.length) c hi
    have he : off+a.length+(i-a.length) = off+i := by omega
    rwa [he] at hcell

theorem Block.Holds.left {m : Block} {off : Nat} {a b : Bytes}
    (h : m.Holds off (a ++ b)) : m.Holds off a := by
  intro i c hi
  obtain ⟨hlt,_⟩ := List.getElem?_eq_some_iff.mp hi
  exact h i c (by rw [List.getElem?_append_left hlt]; exact hi)

theorem Block.Holds.right {m : Block} {off : Nat} {a b : Bytes}
    (h : m.Holds off (a ++ b)) : m.Holds (off+a.length) b := by
  intro i c hi
  have hcell := h (a.length+i) c
    (by rw [List.getElem?_append_right (by omega),Nat.add_sub_cancel_left]; exact hi)
  rwa [← Nat.add_assoc] at hcell

end RawMem
