import Dqueue.Lib.Framing

/-!
Streams that arrive in pieces. A steady loop does not take back what it has made
of the elements it had, so that it hands over the same items however the stream
is split on its way.
-/

set_option autoImplicit false

namespace Framing

variable {α β ε φ : Type} {next : List β → Pull β ε φ}

/-- What comes later does not change what the loop has made of a stretch on
which it did not wait. -/
structure Steady (next : List β → Pull β ε φ) : Prop where
  shrinks : Shrinks next
  item : ∀ s x rest tail, next s = .item x rest → next (s ++ tail) = .item x (rest ++ tail)
  stop : ∀ s e tail, next s = .stop e → next (s ++ tail) = .stop e

inductive Pulls (next : List β → Pull β ε φ) : List β → List φ → List β → Prop where
  | nil (s : List β) : Pulls next s [] s
  | cons {s r r' : List β} {x : φ} {xs : List φ} :
      next s = .item x r → Pulls next r xs r' → Pulls next s (x :: xs) r'

theorem Pulls.snoc {s r r' : List β} {xs : List φ} {x : φ} (h : Pulls next s xs r)
    (hx : next r = .item x r') : Pulls next s (xs ++ [x]) r' := by
  induction h with
  | nil s => exact .cons hx (.nil r')
  | cons hi _ ih => exact .cons hi (ih hx)

theorem Pulls.unique {s r r' : List β} {xs : List φ} (h : Pulls next s xs r)
    (h' : Pulls next s xs r') : r = r' := by
  induction h with
  | nil s =>
    cases h'
    rfl
  | cons hi _ ih =>
    cases h' with
    | cons hi' h' =>
      rw [hi] at hi'
      cases hi'
      exact ih h'

theorem Pulls.last {s r : List β} {xs : List φ} {x : φ} (h : Pulls next s (xs ++ [x]) r) :
    ∃ r', Pulls next s xs r' ∧ next r' = .item x r := by
  induction xs generalizing s with
  | nil =>
    cases h with
    | cons hi h =>
      cases h
      exact ⟨s,.nil s,hi⟩
  | cons y xs ih =>
    cases h with
    | cons hi h =>
      obtain ⟨r',hr',hx⟩ := ih h
      exact ⟨r',.cons hi hr',hx⟩

theorem Pulls.append (hs : Steady next) {s r : List β} {xs : List φ} (h : Pulls next s xs r)
    (tail : List β) : Pulls next (s ++ tail) xs (r ++ tail) := by
  induction h with
  | nil s => exact .nil _
  | cons hi _ ih => exact .cons (hs.item _ _ _ _ hi) ih

theorem Pulls.drainAll_items (hs : Shrinks next) {s r : List β} {xs : List φ}
    (h : Pulls next s xs r) :
    (drainAll next s).items = xs ++ (drainAll next r).items ∧
      (drainAll next s).left = (drainAll next r).left ∧
      (drainAll next s).stopped = (drainAll next r).stopped := by
  induction h with
  | nil s => exact ⟨rfl,rfl,rfl⟩
  | cons hi _ ih =>
    rw [drainAll_item hs hi]
    exact ⟨congrArg (_ :: ·) ih.1,ih.2⟩

theorem drainAll_stop {s : List β} {e : ε} (h : next s = .stop e) :
    drainAll next s = ⟨[],s,some e⟩ := by simp [drainAll,drain,h]

/-- Only part of a sequence of frames has arrived: the loop hands over the first of
them and waits for the next. -/
theorem Frames.pulls_of_prefix {wire : α → List β} {frame : α → φ} {good : α → Prop}
    (h : Frames next wire frame good) {as : List α} (hgood : ∀ a ∈ as, good a) {p : List β}
    (hp : p <+: as.flatMap wire) :
    ∃ bs cs r, as = bs ++ cs ∧ drainAll next p = ⟨bs.map frame,r,none⟩ ∧
      p = bs.flatMap wire ++ r ∧ (cs = [] → r = []) := by
  induction as generalizing p with
  | nil =>
    have hnil : p = [] := by simpa using hp
    subst hnil
    exact ⟨[],[],[],rfl,drainAll_wait h.empty,rfl,fun _ => rfl⟩
  | cons a as ih =>
    have hga := hgood a (by simp)
    rw [List.flatMap_cons] at hp
    by_cases hlen : (wire a).length ≤ p.length
    · obtain ⟨rest,rfl⟩ := List.prefix_of_prefix_length_le (List.prefix_append _ _) hp hlen
      obtain ⟨bs,cs,r,rfl,hd,hsplit,hend⟩ := ih (fun b hb => hgood b (by simp [hb]))
        ((List.prefix_append_right_inj _).mp hp)
      refine ⟨a :: bs,cs,r,rfl,?_,?_,hend⟩
      · rw [drainAll_item h.shrinks (h.whole a rest hga),hd]
        rfl
      · rw [hsplit,List.flatMap_cons,List.append_assoc]
    · have hpa := List.prefix_of_prefix_length_le hp (List.prefix_append _ _) (by omega)
      have hw := h.short a p hga hpa (by omega)
      exact ⟨[],a :: as,p,rfl,drainAll_wait hw,by simp,by simp⟩

end Framing
