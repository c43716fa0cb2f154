import Dqueue.Lib.Effects

/-!
Programs that append to a log in an order. What two programs append one after the
other is in order when everything that the first may append comes before
everything that the second may.
-/

set_option autoImplicit false

namespace Ordered
open Effects

variable {ε σ α α' β : Type} (log : σ → List β) (inv : σ → Prop) (before : β → β → Prop)

/-- However the program ends, it keeps the invariant, and the entries that it has
appended to the log are in order and satisfy `S`. -/
def Emits (S : β → Prop) (x : EStateM ε σ α) : Prop :=
  ∀ s, inv s → inv (final (x s)) ∧
    ∃ new, log (final (x s)) = log s ++ new ∧ new.Pairwise before ∧ ∀ b ∈ new, S b

variable {log inv before} {S S' : β → Prop}

theorem Emits.silent {x : EStateM ε σ α}
    (h : ∀ s, inv s → inv (final (x s)) ∧ log (final (x s)) = log s) :
    Emits log inv before S x := by
  intro s hs
  obtain ⟨hinv,hlog⟩ := h s hs
  exact ⟨hinv,[],by simp [hlog],.nil,by simp⟩

theorem Emits.pure (a : α) : Emits log inv before S (pure a : EStateM ε σ α) :=
  .silent fun _ hs => ⟨hs,rfl⟩

theorem Emits.throw (e : ε) : Emits log inv before S (throw e : EStateM ε σ α) :=
  .silent fun _ hs => ⟨hs,rfl⟩

theorem Emits.mono {x : EStateM ε σ α} (h : Emits log inv before S x)
    (hS : ∀ b, S b → S' b) : Emits log inv before S' x := by
  intro s hs
  obtain ⟨hinv,new,hlog,hordered,hall⟩ := h s hs
  exact ⟨hinv,new,hlog,hordered,fun b hb => hS b (hall b hb)⟩

theorem Emits.bind {x : EStateM ε σ α} {f : α → EStateM ε σ α'}
    (hx : Emits log inv before S x) (hf : ∀ a, Emits log inv before S' (f a))
    (hbefore : ∀ b b', S b → S' b' → before b b') :
    Emits log inv before (fun b => S b ∨ S' b) (x >>= f) := by
  intro s hs
  obtain ⟨hinv,new,hlog,hordered,hall⟩ := hx s hs
  rw [bind_apply]
  cases h : x s with
  | error e s' =>
    rw [h] at hinv hlog
    exact ⟨hinv,new,hlog,hordered,fun b hb => .inl (hall b hb)⟩
  | ok a s' =>
    rw [h] at hinv hlog
    obtain ⟨hinv',new',hlog',hordered',hall'⟩ := hf a s' hinv
    refine ⟨hinv',new ++ new',?_,?_,fun b hb => ?_⟩
    · simp only [final_ok] at hlog
      simp [hlog',hlog]
    · exact List.pairwise_append.mpr ⟨hordered,hordered',fun b hb b' hb' =>
        hbefore b b' (hall b hb) (hall' b' hb')⟩
    · exact (List.mem_append.mp hb).imp (hall b) (hall' b)

theorem Emits.after {x : EStateM ε σ α} {f : α → EStateM ε σ α'}
    (hx : Emits log inv before (fun _ => False) x) (hf : ∀ a, Emits log inv before S (f a)) :
    Emits log inv before S (x >>= f) :=
  (hx.bind hf fun _ _ h => h.elim).mono fun _ h => h.resolve_left id

theorem Emits.times {T : Nat → β → Prop} {x : Nat → EStateM ε σ Unit}
    (hx : ∀ j, Emits log inv before (T j) (x j))
    (hbefore : ∀ i j b b', i < j → T i b → T j b' → before b b') (n : Nat) :
    Emits log inv before (fun b => ∃ j, j < n ∧ T j b) (times n x) := by
  induction n with
  | zero => exact .pure ()
  | succ n ih =>
    refine (ih.bind (fun _ => hx n) fun b b' hb hb' => ?_).mono fun b hb => ?_
    · obtain ⟨j,hj,hT⟩ := hb
      exact hbefore j n b b' hj hT hb'
    · rcases hb with ⟨j,hj,hT⟩ | hT
      · exact ⟨j,by omega,hT⟩
      · exact ⟨n,by omega,hT⟩

theorem sublist_of_before {l : List β} (h : l.Pairwise before)
    (hasymm : ∀ a b, before a b → ¬ before b a) {a b : β} (ha : a ∈ l) (hb : b ∈ l)
    (hab : before a b) : [a,b].Sublist l := by
  induction l with
  | nil => cases ha
  | cons x l ih =>
    obtain ⟨hx,hl⟩ := List.pairwise_cons.mp h
    rcases List.mem_cons.mp ha with rfl | ha'
    · rcases List.mem_cons.mp hb with rfl | hb'
      · exact absurd hab (hasymm _ _ hab)
      · exact (List.singleton_sublist.mpr hb').cons_cons a
    · rcases List.mem_cons.mp hb with rfl | hb'
      · exact absurd hab (hasymm _ _ (hx a ha'))
      · exact (ih hl ha' hb').cons x

theorem before_of_sublist {l : List β} (h : l.Pairwise before) {a b : β}
    (hab : [a,b].Sublist l) : before a b := by
  have hpair := h.sublist hab
  simpa using hpair

end Ordered
