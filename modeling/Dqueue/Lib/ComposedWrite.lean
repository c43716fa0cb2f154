import Mathlib

/-!
Composed writes on one socket. A composed write is a chain of partial writes:
each partial write is queued on the socket, transfers some of what is left, and
only when it completes is the next one of its chain queued. Several chains may
be outstanding at a time; the socket serves the queue in order.
-/

set_option autoImplicit false

namespace ComposedWrite

variable {β : Type}

/-- `pending` holds what is left of each outstanding write, in the order in
which their next partial writes were queued. -/
structure Socket (β : Type) where
  wire : List β
  pending : List (List β)
  deriving DecidableEq, Repr

def Socket.issue (s : Socket β) (bs : List β) : Socket β :=
  { s with pending := s.pending ++ [bs] }

def Socket.transfer (s : Socket β) (k : Nat) : Socket β :=
  match s.pending with
  | [] => s
  | bs :: rest =>
    { wire := s.wire ++ bs.take k
      pending := if bs.length ≤ k then rest else rest ++ [bs.drop k] }

def Socket.finishes (s : Socket β) (k : Nat) : Bool :=
  match s.pending with
  | [] => false
  | bs :: _ => decide (bs.length ≤ k)

/-- A transfer that cannot disturb the order: it finishes the write it serves,
or no other write is outstanding. -/
def Socket.Undisturbed (s : Socket β) (k : Nat) : Prop :=
  s.pending.length ≤ 1 ∨ s.finishes k = true

def Socket.InOrder (s : Socket β) (sent : List β) : Prop :=
  s.wire ++ s.pending.flatten = sent

theorem Socket.InOrder.issue {s : Socket β} {sent : List β} (h : s.InOrder sent) (bs : List β) :
    (s.issue bs).InOrder (sent ++ bs) := by
  unfold InOrder Socket.issue at *
  simp [← h]

theorem Socket.InOrder.transfer {s : Socket β} {sent : List β} (h : s.InOrder sent) {k : Nat}
    (hk : s.Undisturbed k) : (s.transfer k).InOrder sent := by
  unfold InOrder Socket.transfer at *
  cases hp : s.pending with
  | nil => simpa [hp] using h
  | cons bs rest =>
    rw [← h,hp]
    by_cases hle : bs.length ≤ k
    · simp [hle,List.take_of_length_le hle]
    · have hrest : rest = [] := by
        rcases hk with hk | hk
        · simpa [hp] using hk
        · simp [Socket.finishes,hp,hle] at hk
      simp [hle,hrest]

theorem Socket.InOrder.wire_prefix {s : Socket β} {sent : List β} (h : s.InOrder sent) :
    s.wire <+: sent := ⟨_,h⟩

theorem Socket.InOrder.wire_eq {s : Socket β} {sent : List β} (h : s.InOrder sent)
    (hp : s.pending = []) : s.wire = sent := by
  simpa [InOrder,hp] using h

end ComposedWrite
