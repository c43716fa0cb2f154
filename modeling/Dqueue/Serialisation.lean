import Dqueue.Lib.RawMem

/-!
The length-prefixed serialisation of message fields: `get_size`, `writer`,
`reader` and the variadic `Scheme` over a list of field types. `size_t` sums
are not reduced modulo 2^64: the values they measure are in memory together.
-/

set_option autoImplicit false

namespace Dqueue.Serialisation
open RawMem

/-- The three specialisations: a POD of a given `sizeof`, `std::string`, and
`std::vector` of PODs of a given `sizeof`. -/
inductive FieldType where
  | pod (size : Nat)
  | string
  | vector (size : Nat)
  deriving DecidableEq, Repr

/-- A POD value is its object representation. -/
abbrev Pod (n : Nat) := {bs : Bytes // bs.length = n}

abbrev FieldType.Val : FieldType → Type
  | .pod n => Pod n
  | .string => Bytes
  | .vector n => List (Pod n)

def getSize : (t : FieldType) → t.Val → Nat
  | .pod n, _ => n
  | .string, s => 4+s.length
  | .vector n, s => 4+s.length*n

/-- The bytes `memcpy` takes from the storage of a vector. -/
def rawData {n : Nat} (s : List (Pod n)) : Bytes := s.flatMap Subtype.val

def writeValue (m : Block) (it : Nat) : (t : FieldType) → t.Val → Except Fault (Block × Nat)
  | .pod n, s => do
      let m ← m.write it s.1
      pure (m,n)
  | .string, s => do
      let len := s.length%2^32
      let m ← m.write it (leBytes 4 len)
      let m ← m.write (it+4) s
      pure (m,4+s.length)
  | .vector n, s => do
      let len := s.length%2^32
      let m ← m.write it (leBytes 4 len)
      let m ← m.write (it+4) (rawData s)
      pure (m,4+s.length*n)

def toPod (n : Nat) (bs : Bytes) : Pod n :=
  ⟨(bs ++ List.replicate n 0).take n,by simp⟩

def toVector (n : Nat) : Nat → Bytes → List (Pod n)
  | 0, _ => []
  | k+1, bs => toPod n bs :: toVector n k (bs.drop n)

def readValue (m : Block) (it : Nat) : (t : FieldType) → Except Fault (t.Val × Nat)
  | .pod n => do
      let bs ← m.read it n
      pure (toPod n bs,n)
  | .string => do
      let hdr ← m.read it 4
      let len := leNat hdr
      let s ← m.read (it+4) len
      pure (s,4+len)
  | .vector n => do
      let hdr ← m.read it 4
      let len := leNat hdr
      let raw ← m.read (it+4) (len*n)
      pure (toVector n len raw,4+len*n)

abbrev Vals : List FieldType → Type
  | [] => Unit
  | t :: ts => t.Val × Vals ts

def calculateSizeRec (result : Nat) : (ts : List FieldType) → Vals ts → Nat
  | [], _ => result
  | t :: ts, (v,vs) => calculateSizeRec (result+getSize t v) ts vs

def writeArgs (m : Block) (it : Nat) : (ts : List FieldType) → Vals ts → Except Fault Block
  | [], _ => pure m
  | t :: ts, (v,vs) => do
      let (m,szofcur) ← writeValue m it t v
      writeArgs m (it+szofcur) ts vs

/-- Besides the values, the iterator after the last field read. -/
def readArgs (m : Block) (it : Nat) : (ts : List FieldType) → Except Fault (Vals ts × Nat)
  | [] => pure ((),it)
  | t :: ts => do
      let (v,szofcur) ← readValue m it t
      let (vs,it) ← readArgs m (it+szofcur) ts
      pure ((v,vs),it)

def Scheme.capacity (ts : List FieldType) (vs : Vals ts) : Nat := calculateSizeRec 0 ts vs

def Scheme.write (m : Block) (it : Nat) (ts : List FieldType) (vs : Vals ts) : Except Fault Block :=
  writeArgs m it ts vs

def Scheme.read (m : Block) (it : Nat) (ts : List FieldType) : Except Fault (Vals ts) := do
  let (vs,_) ← readArgs m it ts
  pure vs

theorem calculateSizeRec_add (ts : List FieldType) (vs : Vals ts) (result : Nat) :
    calculateSizeRec result ts vs = result+Scheme.capacity ts vs := by
  induction ts generalizing result with
  | nil => simp [Scheme.capacity,calculateSizeRec]
  | cons t ts ih =>
    obtain ⟨v,vs⟩ := vs
    simp only [Scheme.capacity,calculateSizeRec]
    rw [ih,ih vs (0+getSize t v)]
    omega

@[simp] theorem Scheme.capacity_nil (vs : Vals []) : Scheme.capacity [] vs = 0 := rfl

@[simp] theorem Scheme.capacity_cons (t : FieldType) (ts : List FieldType) (v : t.Val)
    (vs : Vals ts) : Scheme.capacity (t :: ts) (v,vs) = getSize t v+Scheme.capacity ts vs := by
  show calculateSizeRec (0+getSize t v) ts vs = _
  rw [calculateSizeRec_add]; omega

def payload : (t : FieldType) → t.Val → Bytes
  | .pod _, s => s.1
  | .string, s => leBytes 4 (s.length%2^32) ++ s
  | .vector _, s => leBytes 4 (s.length%2^32) ++ rawData s

def payloads : (ts : List FieldType) → Vals ts → Bytes
  | [], _ => []
  | t :: ts, (v,vs) => payload t v ++ payloads ts vs

@[simp] theorem rawData_length {n : Nat} (s : List (Pod n)) : (rawData s).length = s.length*n := by
  induction s with
  | nil => simp [rawData]
  | cons p s ih =>
    have hp := p.2
    simp only [rawData,List.flatMap_cons,List.length_append,List.length_cons] at *
    rw [ih,hp,Nat.succ_mul,Nat.add_comm]

@[simp] theorem payload_length (t : FieldType) (v : t.Val) :
    (payload t v).length = getSize t v := by
  cases t with
  | pod n => exact v.2
  | string => simp [payload,getSize]
  | vector n => simp [payload,getSize]

@[simp] theorem payloads_length (ts : List FieldType) (vs : Vals ts) :
    (payloads ts vs).length = Scheme.capacity ts vs := by
  induction ts with
  | nil => rfl
  | cons t ts ih =>
    obtain ⟨v,vs⟩ := vs
    simp [payloads,ih]

/-- The length prefix has 32 bits: only shorter strings and vectors have one of their own. -/
def Fits : (t : FieldType) → t.Val → Prop
  | .pod _, _ => True
  | .string, s => s.length < 2^32
  | .vector _, s => s.length < 2^32

def AllFit : (ts : List FieldType) → Vals ts → Prop
  | [], _ => True
  | t :: ts, (v,vs) => Fits t v ∧ AllFit ts vs

/-- A write of `bs` at `it` that stays inside the block: it succeeds, keeps the
block's size, leaves `bs` there and every other cell as it was. -/
structure Written (m m' : Block) (it : Nat) (bs : Bytes) : Prop where
  size : m'.size = m.size
  holds : m'.Holds it bs
  frame : ∀ j, j < it ∨ it+bs.length ≤ j → m'.cells[j]? = m.cells[j]?

theorem Written.of_write {m m' : Block} {it : Nat} {bs : Bytes} (h : m.write it bs = .ok m') :
    Written m m' it bs where
  size := Block.write_size h
  holds := Block.holds_write h
  frame j hj := by rw [Block.write_cells h,if_neg (by omega)]

theorem Written.nil (m : Block) (it : Nat) : Written m m it [] where
  size := rfl
  holds := by intro i b hi; simp at hi
  frame _ _ := rfl

theorem Written.append {m m₁ m₂ : Block} {it : Nat} {a b : Bytes}
    (h₁ : Written m m₁ it a) (h₂ : Written m₁ m₂ (it+a.length) b) :
    Written m m₂ it (a ++ b) where
  size := h₂.size.trans h₁.size
  holds := by
    refine Block.Holds.append (fun i c hi => ?_) h₂.holds
    obtain ⟨hlt,_⟩ := List.getElem?_eq_some_iff.mp hi
    rw [h₂.frame (it+i) (by omega)]
    exact h₁.holds i c hi
  frame j hj := by
    rw [List.length_append] at hj
    rw [h₂.frame j (by omega),h₁.frame j (by omega)]

theorem Written.holds_before {m m' : Block} {it off : Nat} {bs as : Bytes}
    (h : Written m m' it bs) (ha : m.Holds off as) (hd : off+as.length ≤ it) :
    m'.Holds off as := by
  intro i c hi
  obtain ⟨hlt,_⟩ := List.getElem?_eq_some_iff.mp hi
  rw [h.frame (off+i) (by omega)]
  exact ha i c hi

theorem two_writes {m : Block} {it : Nat} {a b : Bytes} (h : it+(a.length+b.length) ≤ m.size) :
    ∃ m₁ m₂, m.write it a = .ok m₁ ∧ m₁.write (it+a.length) b = .ok m₂ ∧
      Written m m₂ it (a ++ b) := by
  have hfirst : it+a.length ≤ m.size := by omega
  obtain ⟨m₁,h₁⟩ := Block.write_ok hfirst
  have hsecond : it+a.length+b.length ≤ m₁.size := by rw [Block.write_size h₁]; omega
  obtain ⟨m₂,h₂⟩ := Block.write_ok hsecond
  exact ⟨m₁,m₂,h₁,h₂,(Written.of_write h₁).append (Written.of_write h₂)⟩

theorem writeValue_ok (m : Block) (it : Nat) (t : FieldType) (v : t.Val)
    (h : it+getSize t v ≤ m.size) :
    ∃ m', writeValue m it t v = .ok (m',getSize t v) ∧ Written m m' it (payload t v) := by
  cases t with
  | pod n =>
    have hv : it+v.1.length ≤ m.size := by rw [v.2]; exact h
    obtain ⟨m',hm⟩ := Block.write_ok hv
    exact ⟨m',by simp [writeValue,hm,getSize,bind,Except.bind,pure,Except.pure],Written.of_write hm⟩
  | string =>
    have hv : it+((leBytes 4 (v.length%2^32)).length+v.length) ≤ m.size := by
      simpa [getSize] using h
    obtain ⟨m₁,m₂,h₁,h₂,hw⟩ := two_writes hv
    rw [leBytes_length] at h₂
    exact ⟨m₂,by simp only [writeValue,h₁,h₂,getSize,bind,Except.bind,pure,Except.pure],hw⟩
  | vector n =>
    have hv : it+((leBytes 4 (v.length%2^32)).length+(rawData v).length) ≤ m.size := by
      simpa [getSize] using h
    obtain ⟨m₁,m₂,h₁,h₂,hw⟩ := two_writes hv
    rw [leBytes_length] at h₂
    exact ⟨m₂,by simp only [writeValue,h₁,h₂,getSize,bind,Except.bind,pure,Except.pure],hw⟩

theorem writeArgs_ok (m : Block) (it : Nat) (ts : List FieldType) (vs : Vals ts)
    (h : it+Scheme.capacity ts vs ≤ m.size) :
    ∃ m', writeArgs m it ts vs = .ok m' ∧ Written m m' it (payloads ts vs) := by
  induction ts generalizing m it with
  | nil => exact ⟨m,rfl,Written.nil m it⟩
  | cons t ts ih =>
    obtain ⟨v,vs⟩ := vs
    rw [Scheme.capacity_cons] at h
    obtain ⟨m₁,h₁,w₁⟩ := writeValue_ok m it t v (by omega)
    obtain ⟨m₂,h₂,w₂⟩ := ih m₁ (it+getSize t v) vs (by rw [w₁.size]; omega)
    refine ⟨m₂,?_,w₁.append (by simpa using w₂)⟩
    simp [writeArgs,h₁,h₂,bind,Except.bind]

theorem Scheme.write_ok (m : Block) (it : Nat) (ts : List FieldType) (vs : Vals ts)
    (h : it+Scheme.capacity ts vs ≤ m.size) :
    ∃ m', Scheme.write m it ts vs = .ok m' ∧ Written m m' it (payloads ts vs) :=
  writeArgs_ok m it ts vs h

theorem two_writes_bound {m m' : Block} {it k n : Nat} {a b : Bytes}
    (h : (do
      let m₁ ← m.write it a
      let m₂ ← m₁.write (it+4) b
      pure (m₂,n)) = Except.ok (m',k)) :
    k = n ∧ m'.size = m.size ∧ it+(4+b.length) ≤ m.size := by
  obtain ⟨m₁,h₁,h⟩ := bind_eq_ok h
  obtain ⟨m₂,h₂,h⟩ := bind_eq_ok h
  obtain ⟨rfl,rfl⟩ := Prod.mk.inj (Except.ok.inj h)
  have hb := Block.write_bound h₂
  have hs₁ := Block.write_size h₁
  have hs₂ := Block.write_size h₂
  exact ⟨rfl,by omega,by omega⟩

theorem writeValue_bound {m m' : Block} {it k : Nat} {t : FieldType} {v : t.Val}
    (h : writeValue m it t v = .ok (m',k)) :
    k = getSize t v ∧ m'.size = m.size ∧ it+getSize t v ≤ m.size := by
  cases t with
  | pod n =>
    obtain ⟨m₁,h₁,h⟩ := bind_eq_ok h
    obtain ⟨rfl,rfl⟩ := Prod.mk.inj (Except.ok.inj h)
    have hb := Block.write_bound h₁
    rw [v.2] at hb
    exact ⟨rfl,Block.write_size h₁,hb⟩
  | string => exact two_writes_bound h
  | vector n =>
    have hb := two_writes_bound h
    rwa [rawData_length] at hb

theorem writeArgs_bound {m m' : Block} {it : Nat} {ts : List FieldType} {vs : Vals ts}
    (hit : it ≤ m.size) (h : writeArgs m it ts vs = .ok m') :
    it+Scheme.capacity ts vs ≤ m.size := by
  induction ts generalizing m it with
  | nil => simpa using hit
  | cons t ts ih =>
    obtain ⟨v,vs⟩ := vs
    obtain ⟨⟨m₁,k⟩,hw,h⟩ := bind_eq_ok h
    obtain ⟨rfl,hs,hb⟩ := writeValue_bound hw
    have hrest := ih (by omega) h
    rw [Scheme.capacity_cons]
    omega

theorem toPod_of_length {n : Nat} (p : Pod n) (tail : Bytes) : toPod n (p.1 ++ tail) = p := by
  apply Subtype.ext
  have hp := p.2
  simp [toPod,List.append_assoc,hp]

theorem toVector_rawData {n : Nat} (s : List (Pod n)) : toVector n s.length (rawData s) = s := by
  induction s with
  | nil => rfl
  | cons p s ih =>
    have hp := p.2
    have hd : (rawData (p :: s)).drop n = rawData s := by
      simp [rawData,hp]
    have ht : toPod n (rawData (p :: s)) = p := toPod_of_length p (rawData s)
    simp only [List.length_cons,toVector,hd,ht,ih]

theorem read_header {m : Block} {it len : Nat} {bs : Bytes} (hlen : len < 2^32)
    (h : m.Holds it (leBytes 4 (len%2^32) ++ bs))
    (hb : it+(4+bs.length) ≤ m.size) :
    m.read it 4 = .ok (leBytes 4 len) ∧ leNat (leBytes 4 len) = len ∧
      m.read (it+4) bs.length = .ok bs := by
  rw [Nat.mod_eq_of_lt hlen] at h
  have h₁ := Block.read_of_holds h.left (by rw [leBytes_length]; omega)
  have h₂ := h.right
  rw [leBytes_length] at h₁ h₂
  exact ⟨h₁,leNat_leBytes_of_lt (by simpa using hlen),Block.read_of_holds h₂ (by omega)⟩

theorem readValue_ok {m : Block} {it : Nat} {t : FieldType} {v : t.Val} (hf : Fits t v)
    (h : m.Holds it (payload t v)) (hb : it+getSize t v ≤ m.size) :
    readValue m it t = .ok (v,getSize t v) := by
  cases t with
  | pod n =>
    have hr := Block.read_of_holds h (by simpa using hb)
    have hp := toPod_of_length v []
    rw [payload_length] at hr
    simp only [List.append_nil] at hp
    simp only [payload,getSize] at hr
    simp [readValue,hr,hp,getSize,bind,Except.bind,pure,Except.pure]
  | string =>
    obtain ⟨h₁,h₂,h₃⟩ := read_header hf h (by simpa [getSize] using hb)
    simp [readValue,h₁,h₂,h₃,getSize,bind,Except.bind,pure,Except.pure]
  | vector n =>
    obtain ⟨h₁,h₂,h₃⟩ := read_header hf h (by simpa [getSize] using hb)
    rw [rawData_length] at h₃
    simp [readValue,h₁,h₂,h₃,toVector_rawData,getSize,bind,Except.bind,pure,Except.pure]

theorem readArgs_ok {m : Block} {it : Nat} {ts : List FieldType} {vs : Vals ts}
    (hf : AllFit ts vs) (h : m.Holds it (payloads ts vs))
    (hb : it+Scheme.capacity ts vs ≤ m.size) :
    readArgs m it ts = .ok (vs,it+Scheme.capacity ts vs) := by
  induction ts generalizing it with
  | nil => rfl
  | cons t ts ih =>
    obtain ⟨v,vs⟩ := vs
    rw [Scheme.capacity_cons] at hb
    have hv := readValue_ok hf.1 h.left (by omega)
    have hr := h.right
    rw [payload_length] at hr
    have hvs := ih hf.2 hr (by omega)
    simp [readArgs,hv,hvs,bind,Except.bind,pure,Except.pure,Nat.add_assoc]

theorem Scheme.read_ok {m : Block} {it : Nat} {ts : List FieldType} {vs : Vals ts}
    (hf : AllFit ts vs) (h : m.Holds it (payloads ts vs))
    (hb : it+Scheme.capacity ts vs ≤ m.size) : Scheme.read m it ts = .ok vs := by
  simp [Scheme.read,readArgs_ok hf h hb,bind,Except.bind,pure,Except.pure]

theorem allFit_of_capacity {ts : List FieldType} {vs : Vals ts} {m : Nat}
    (hpos : ∀ n, FieldType.vector n ∈ ts → 0 < n) (h : Scheme.capacity ts vs ≤ m)
    (hm : m < 2^32) : AllFit ts vs := by
  induction ts generalizing m with
  | nil => trivial
  | cons t ts ih =>
    obtain ⟨v,vs⟩ := vs
    rw [Scheme.capacity_cons] at h
    refine ⟨?_,ih (fun n hn => hpos n (by simp [hn])) (Nat.le_refl _) (by omega)⟩
    cases t with
    | pod n => trivial
    | string => simp only [Fits,getSize] at *; omega
    | vector n =>
      have hn := hpos n (by simp)
      have hle := Nat.le_mul_of_pos_right v.length hn
      simp only [Fits,getSize] at *; omega

end Dqueue.Serialisation
