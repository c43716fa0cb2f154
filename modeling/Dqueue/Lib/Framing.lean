import Mathlib

/-!
Loops that pull items off a stream, and streams made of self-delimiting frames.
Nothing is assumed about how the elements of the stream arrive: a loop that has
seen only part of a frame waits.
-/

set_option autoImplicit false

namespace Framing

variable {α β ε φ : Type}

inductive Pull (β ε φ : Type) where
  | wait : Pull β ε φ
  | stop : ε → Pull β ε φ
  | item : φ → List β → Pull β ε φ

structure Drained (β ε φ : Type) where
  items : List φ
  left : List β
  stopped : Option ε

def Drained.cons (x : φ) (d : Drained β ε φ) : Drained β ε φ :=
  { d with items := x :: d.items }

def drain (next : List β → Pull β ε φ) : Nat → List β → Drained β ε φ
  | 0, s => ⟨[],s,none⟩
  | fuel+1, s =>
    match next s with
    | .wait => ⟨[],s,none⟩
    | .stop e => ⟨[],s,some e⟩
    | .item x rest => (drain next fuel rest).cons x

/-- The loop run to the point where it waits or stops: every item takes at
least one element off the stream, so the stream's own length is fuel enough. -/
def drainAll (next : List β → Pull β ε φ) (s : List β) : Drained β ε φ :=
  drain next (s.length+1) s

def Shrinks (next : List β → Pull β ε φ) : Prop :=
  ∀ s x rest, next s = .item x rest → rest.length < s.length

theorem drain_fuel {next : List β → Pull β ε φ} (hs : Shrinks next) (f g : Nat) (s : List β)
    (hf : s.length < f) (hg : s.length < g) : drain next f s = drain next g s := by
  induction f generalizing g s with
  | zero => omega
  | succ f ih =>
    obtain ⟨g,rfl⟩ : ∃ k, g = k+1 := ⟨g-1,by omega⟩
    simp only [drain]
    cases hn : next s with
    | wait => rfl
    | stop e => rfl
    | item x rest =>
      have hlt := hs s x rest hn
      simp only [ih g rest (by omega) (by omega)]

theorem drainAll_item {next : List β → Pull β ε φ} (hs : Shrinks next) {s rest : List β} {x : φ}
    (h : next s = .item x rest) : drainAll next s = (drainAll next rest).cons x := by
  have hlt := hs s x rest h
  have hf := drain_fuel hs s.length (rest.length+1) rest hlt (Nat.lt_succ_self _)
  simp only [drainAll,drain,h] at *
  rw [hf]

theorem drainAll_wait {next : List β → Pull β ε φ} {s : List β} (h : next s = .wait) :
    drainAll next s = ⟨[],s,none⟩ := by simp [drainAll,drain,h]

inductive Visits (next : List β → Pull β ε φ) : List β → List β → Prop where
  | here (s : List β) : Visits next s s
  | later {s rest p : List β} {x : φ} :
      next s = .item x rest → Visits next rest p → Visits next s p

/-- `next` reads the frames that `wire` writes: a whole frame is an item whatever
follows it, and a frame that has not arrived completely makes the loop wait. -/
structure Frames (next : List β → Pull β ε φ) (wire : α → List β) (frame : α → φ)
    (good : α → Prop) : Prop where
  shrinks : Shrinks next
  empty : next [] = .wait
  whole : ∀ a tail, good a → next (wire a ++ tail) = .item (frame a) tail
  short : ∀ a p, good a → p <+: wire a → p.length < (wire a).length → next p = .wait

variable {next : List β → Pull β ε φ} {wire : α → List β} {frame : α → φ} {good : α → Prop}

theorem Frames.drainAll_flatMap (h : Frames next wire frame good) (as : List α)
    (hgood : ∀ a ∈ as, good a) : drainAll next (as.flatMap wire) = ⟨as.map frame,[],none⟩ := by
  induction as with
  | nil => exact drainAll_wait h.empty
  | cons a as ih =>
    have hw := h.whole a (as.flatMap wire) (hgood a (by simp))
    rw [List.flatMap_cons,drainAll_item h.shrinks hw,ih (fun b hb => hgood b (by simp [hb]))]
    rfl

/-- Losing the end of a stream of frames loses frames from the end: what is left
either holds the first frame whole, or the loop waits for the rest of it. -/
theorem Frames.next_of_prefix (h : Frames next wire frame good) {a : α} {as : List α}
    (hgood : good a) {p : List β} (hp : p <+: (a :: as).flatMap wire) :
    next p = .wait ∨ ∃ rest, next p = .item (frame a) rest ∧ rest <+: as.flatMap wire := by
  rw [List.flatMap_cons] at hp
  by_cases hlen : (wire a).length ≤ p.length
  · right
    obtain ⟨rest,rfl⟩ := List.prefix_of_prefix_length_le (List.prefix_append _ _) hp hlen
    exact ⟨rest,h.whole a rest hgood,(List.prefix_append_right_inj _).mp hp⟩
  · left
    have hpa := List.prefix_of_prefix_length_le hp (List.prefix_append _ _) (by omega)
    exact h.short a p hgood hpa (by omega)

end Framing
