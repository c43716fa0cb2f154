import Mathlib

/-!
Machines that answer each input. One machine simulates another if related states
answer alike and stay related; then whole runs are answered alike. Where the state is
known by what stands at its locations, inputs with separate footprints may be swapped.
-/

set_option autoImplicit false

structure Machine (σ ι ο : Type) where
  next : σ → ι → σ
  answer : σ → ι → ο

namespace Machine

variable {σ τ ι κ ο π : Type} (m : Machine σ ι ο) (n : Machine τ κ π)

def run (s : σ) (is : List ι) : σ := is.foldl m.next s

def answers : σ → List ι → List ο
  | _, [] => []
  | s, i :: is => m.answer s i :: answers (m.next s i) is

theorem answers_append (s : σ) (is js : List ι) :
    m.answers s (is ++ js) = m.answers s is ++ m.answers (m.run s is) js := by
  induction is generalizing s with
  | nil => rfl
  | cons i is ih =>
    rw [List.cons_append,answers,answers,ih,List.cons_append]
    rfl

structure Simulates (input : ι → κ) (R : σ → τ → Prop) (A : ο → π → Prop) : Prop where
  next : ∀ s t i, R s t → R (m.next s i) (n.next t (input i))
  answer : ∀ s t i, R s t → A (m.answer s i) (n.answer t (input i))

variable {m n}

theorem Simulates.run {input : ι → κ} {R : σ → τ → Prop} {A : ο → π → Prop}
    (h : m.Simulates n input R A) {s : σ} {t : τ} (hst : R s t) (is : List ι) :
    R (m.run s is) (n.run t (is.map input)) := by
  induction is generalizing s t with
  | nil => exact hst
  | cons i is ih => exact ih (h.next s t i hst)

theorem Simulates.answers {input : ι → κ} {R : σ → τ → Prop} {A : ο → π → Prop}
    (h : m.Simulates n input R A) {s : σ} {t : τ} (hst : R s t) (is : List ι) :
    List.Forall₂ A (m.answers s is) (n.answers t (is.map input)) := by
  induction is generalizing s t with
  | nil => exact .nil
  | cons i is ih => exact .cons (h.answer s t i hst) (ih (h.next s t i hst))

/-- What is answered in related states is told by the input and the other machine's
answer. -/
theorem Simulates.answers_eq {input : ι → κ} {R : σ → τ → Prop} {A : ο → π → Prop}
    (h : m.Simulates n input R A) {tell : ι → π → ο}
    (htell : ∀ s t i, R s t → m.answer s i = tell i (n.answer t (input i)))
    {s : σ} {t : τ} (hst : R s t) (is : List ι) :
    m.answers s is = is.zipWith tell (n.answers t (is.map input)) := by
  induction is generalizing s t with
  | nil => rfl
  | cons i is ih => exact congrArg₂ List.cons (htell s t i hst) (ih (h.next s t i hst))

section Footprint

variable {Loc ν : Type}

/-- What stands at the locations is all of the state. An input changes only what it
writes, and what it writes and answers depends only on what it reads. -/
structure Footprint (m : Machine σ ι ο) (view : σ → Loc → ν)
    (reads writes : ι → Set Loc) : Prop where
  ext : ∀ s t, (∀ l, view s l = view t l) → s = t
  frame : ∀ s i, ∀ l ∉ writes i, view (m.next s i) l = view s l
  written : ∀ s t i, (∀ l ∈ reads i, view s l = view t l) →
    ∀ l ∈ writes i, view (m.next s i) l = view (m.next t i) l
  answer : ∀ s t i, (∀ l ∈ reads i, view s l = view t l) → m.answer s i = m.answer t i

def Separate (reads writes : ι → Set Loc) (i j : ι) : Prop :=
  Disjoint (writes i) (reads j ∪ writes j) ∧ Disjoint (writes j) (reads i ∪ writes i)

variable {view : σ → Loc → ν} {reads writes : ι → Set Loc}

theorem Separate.symm {i j : ι} (h : Separate reads writes i j) : Separate reads writes j i :=
  ⟨h.2,h.1⟩

theorem Footprint.answer_next (h : m.Footprint view reads writes) {i j : ι}
    (hij : Separate reads writes i j) (s : σ) : m.answer (m.next s i) j = m.answer s j := by
  refine h.answer _ _ j fun l hl => h.frame s i l fun hw => ?_
  exact Set.disjoint_left.mp hij.1 hw (.inl hl)

theorem Footprint.view_next (h : m.Footprint view reads writes) {i j : ι}
    (hij : Separate reads writes i j) (s : σ) {l : Loc} (hl : l ∈ writes j) :
    view (m.next (m.next s i) j) l = view (m.next s j) l := by
  refine h.written _ _ j (fun k hk => h.frame s i k fun hw => ?_) l hl
  exact Set.disjoint_left.mp hij.1 hw (.inl hk)

theorem Footprint.next_comm (h : m.Footprint view reads writes) {i j : ι}
    (hij : Separate reads writes i j) (s : σ) :
    m.next (m.next s i) j = m.next (m.next s j) i := by
  refine h.ext _ _ fun l => ?_
  by_cases hi : l ∈ writes i
  · have hj : l ∉ writes j := fun hj => Set.disjoint_left.mp hij.1 hi (.inr hj)
    rw [h.frame _ j l hj,h.view_next hij.symm s hi]
  · rw [h.frame _ i l hi]
    by_cases hj : l ∈ writes j
    · exact h.view_next hij s hj
    · rw [h.frame _ j l hj,h.frame _ i l hi,h.frame _ j l hj]

/-- Swapping the two inputs swaps their answers, and nothing that comes later can tell. -/
theorem Footprint.answers_swap (h : m.Footprint view reads writes) {i j : ι}
    (hij : Separate reads writes i j) (s : σ) (is js : List ι) :
    ∃ before a b after, m.answers s (is ++ i :: j :: js) = before ++ a :: b :: after ∧
      m.answers s (is ++ j :: i :: js) = before ++ b :: a :: after ∧
      before.length = is.length := by
  refine ⟨m.answers s is,m.answer (m.run s is) i,m.answer (m.run s is) j,
    m.answers (m.next (m.next (m.run s is) i) j) js,?_,?_,?_⟩
  · rw [answers_append,answers,answers,h.answer_next hij]
  · rw [answers_append,answers,answers,h.answer_next hij.symm,h.next_comm hij]
  · induction is generalizing s with
    | nil => rfl
    | cons i is ih => exact congrArg (·+1) (ih (m.next s i))

end Footprint

section Orders

/-- A call that takes time. It began when `begun` calls had taken effect, took effect
after the first `place` of them, and returned when there were `ended`. -/
structure Timed (ι ο : Type) where
  input : ι
  begun : Nat
  place : Nat
  ended : Nat
  output : ο

variable {order : List ι} {c : Timed ι ο}

structure Timed.Placed (order : List ι) (c : Timed ι ο) : Prop where
  begun : c.begun ≤ c.place
  ended : c.place < c.ended
  present : c.ended ≤ order.length
  input : order[c.place]? = some c.input

variable (m) in
def Timed.Answered (s : σ) (order : List ι) (c : Timed ι ο) : Prop :=
  m.answer (m.run s (order.take c.place)) c.input = c.output

theorem Timed.Placed.append (h : c.Placed order) (more : List ι) : c.Placed (order ++ more) := by
  have hlt : c.place < order.length := h.ended.trans_le h.present
  refine ⟨h.begun,h.ended,?_,(List.getElem?_append_left hlt).trans h.input⟩
  rw [List.length_append]
  exact Nat.le_add_right_of_le h.present

theorem Timed.Placed.take (h : c.Placed order) (more : List ι) :
    (order ++ more).take c.place = order.take c.place :=
  List.take_append_of_le_length (Nat.le_trans (Nat.le_of_lt h.ended) h.present)

end Orders

end Machine
