import Mathlib

/-!
Stateful programs with exceptions. As in the languages this models, a program
that throws keeps the changes it had made to its state.
-/

set_option autoImplicit false

namespace Effects

variable {ε σ τ α β : Type}

@[simp] theorem pure_apply (a : α) (s : σ) : (pure a : EStateM ε σ α) s = .ok a s := rfl

@[simp] theorem get_apply (s : σ) : (get : EStateM ε σ σ) s = .ok s s := rfl

@[simp] theorem set_apply (s s' : σ) : (set s' : EStateM ε σ PUnit) s = .ok ⟨⟩ s' := rfl

@[simp] theorem modify_apply (f : σ → σ) (s : σ) :
    (modify f : EStateM ε σ PUnit) s = .ok ⟨⟩ (f s) := rfl

@[simp] theorem throw_apply (e : ε) (s : σ) : (throw e : EStateM ε σ α) s = .error e s := rfl

@[simp] theorem bind_apply (x : EStateM ε σ α) (f : α → EStateM ε σ β) (s : σ) :
    (x >>= f) s = match x s with
      | .ok a s' => f a s'
      | .error e s' => .error e s' := by
  simp only [bind,EStateM.bind]
  cases x s <;> rfl

@[simp] theorem map_apply (f : α → β) (x : EStateM ε σ α) (s : σ) :
    (f <$> x) s = match x s with
      | .ok a s' => .ok (f a) s'
      | .error e s' => .error e s' := by
  simp only [Functor.map,EStateM.map]
  cases x s <;> rfl

def final : EStateM.Result ε σ α → σ
  | .ok _ s => s
  | .error _ s => s

def thrown : EStateM.Result ε σ α → Option ε
  | .ok _ _ => none
  | .error e _ => some e

@[simp] theorem final_ok (a : α) (s : σ) : final (.ok a s : EStateM.Result ε σ α) = s := rfl
@[simp] theorem final_error (e : ε) (s : σ) : final (.error e s : EStateM.Result ε σ α) = s := rfl
@[simp] theorem thrown_ok (a : α) (s : σ) : thrown (.ok a s : EStateM.Result ε σ α) = none := rfl
@[simp] theorem thrown_error (e : ε) (s : σ) :
    thrown (.error e s : EStateM.Result ε σ α) = some e := rfl

def on (part : τ → σ) (put : σ → τ → τ) (x : EStateM ε σ α) : EStateM ε τ α := fun t =>
  match x (part t) with
  | .ok a s => .ok a (put s t)
  | .error e s => .error e (put s t)

def times (n : Nat) (x : Nat → EStateM ε σ Unit) : EStateM ε σ Unit :=
  match n with
  | 0 => pure ()
  | n+1 => do
    times n x
    x n

theorem bind_ok {x : EStateM ε σ α} {f : α → EStateM ε σ β} {s s' : σ} {b : β}
    (h : (x >>= f) s = .ok b s') : ∃ a s₁, x s = .ok a s₁ ∧ f a s₁ = .ok b s' := by
  rw [bind_apply] at h
  cases hx : x s with
  | ok a s₁ =>
    rw [hx] at h
    exact ⟨a,s₁,rfl,h⟩
  | error e s₁ =>
    rw [hx] at h
    cases h

/-- What a program does to its state, however it ends, stays within `R`. -/
def Within (R : σ → σ → Prop) (x : EStateM ε σ α) : Prop := ∀ s, R s (final (x s))

section Within

variable {R : σ → σ → Prop}

theorem Within.of_ok {x : EStateM ε σ α} (h : Within R x) {s s' : σ} {a : α}
    (hrun : x s = .ok a s') : R s s' := by
  have hs := h s
  rwa [hrun] at hs

theorem Within.pure (hr : ∀ s, R s s) (a : α) : Within R (pure a : EStateM ε σ α) := fun s => hr s

theorem Within.throw (hr : ∀ s, R s s) (e : ε) : Within R (throw e : EStateM ε σ α) := fun s => hr s

theorem Within.get (hr : ∀ s, R s s) : Within R (get : EStateM ε σ σ) := fun s => hr s

theorem Within.modify {f : σ → σ} (h : ∀ s, R s (f s)) :
    Within R (modify f : EStateM ε σ PUnit) := h

theorem Within.bind (ht : ∀ s₁ s₂ s₃, R s₁ s₂ → R s₂ s₃ → R s₁ s₃) {x : EStateM ε σ α}
    {f : α → EStateM ε σ β} (hx : Within R x) (hf : ∀ a, Within R (f a)) : Within R (x >>= f) := by
  intro s
  have hs := hx s
  rw [bind_apply]
  cases h : x s with
  | ok a s' =>
    rw [h] at hs
    exact ht s s' _ hs (hf a s')
  | error e s' =>
    rw [h] at hs
    exact hs

theorem Within.times (hr : ∀ s, R s s) (ht : ∀ s₁ s₂ s₃, R s₁ s₂ → R s₂ s₃ → R s₁ s₃)
    {x : Nat → EStateM ε σ Unit} (hx : ∀ j, Within R (x j)) (n : Nat) :
    Within R (Effects.times n x) := by
  induction n with
  | zero => exact .pure hr ()
  | succ n ih => exact .bind ht ih fun _ => hx n

theorem Within.on {part : τ → σ} {put : σ → τ → τ} {R : τ → τ → Prop} {x : EStateM ε σ α}
    (h : ∀ t, R t (put (final (x (part t))) t)) : Within R (Effects.on part put x) := by
  intro t
  have ht := h t
  unfold Effects.on
  cases hx : x (part t) with
  | ok a s =>
    rw [hx] at ht
    exact ht
  | error e s =>
    rw [hx] at ht
    exact ht

end Within

end Effects
