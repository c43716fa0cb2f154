import Mathlib

/-!
A loop over a list that acts on some of the elements and ends at the first one
that is faulty. Over an ordered list, an element is acted on when it is wanted
and nothing below it is faulty.
-/

set_option autoImplicit false

namespace Scan

variable {α : Type} (faulty wanted : α → Prop) [DecidablePred faulty] [DecidablePred wanted]

def reached : List α → List α
  | [] => []
  | a :: as =>
    if faulty a then []
    else if wanted a then a :: reached as
    else reached as

variable {faulty wanted}

theorem reached_sublist (as : List α) : (reached faulty wanted as).Sublist as := by
  induction as with
  | nil => exact .slnil
  | cons a as ih =>
    unfold reached
    split
    · exact List.nil_sublist _
    · split
      · exact ih.cons_cons a
      · exact ih.cons a

theorem mem_reached {r : α → α → Prop} (hasymm : ∀ a b, r a b → ¬ r b a) {as : List α}
    (hr : as.Pairwise r) {a : α} :
    a ∈ reached faulty wanted as ↔
      a ∈ as ∧ wanted a ∧ ¬ faulty a ∧ ∀ b ∈ as, r b a → ¬ faulty b := by
  induction as with
  | nil => simp [reached]
  | cons x as ih =>
    obtain ⟨hx,has⟩ := List.pairwise_cons.mp hr
    -- nothing stands below the head
    have hhead : ∀ b, b = x ∨ b ∈ as → ¬ r b x := by
      rintro b (rfl | hb) hbx
      · exact hasymm b b hbx hbx
      · exact hasymm x b (hx b hb) hbx
    unfold reached
    by_cases hf : faulty x
    · simp only [hf,if_true,List.not_mem_nil,false_iff]
      rintro ⟨ha,-,hfa,hall⟩
      rcases List.mem_cons.mp ha with rfl | ha
      · exact hfa hf
      · exact hall x (by simp) (hx a ha) hf
    · have hrest : (∀ b, b = x ∨ b ∈ as → r b a → ¬ faulty b) ↔
          ∀ b ∈ as, r b a → ¬ faulty b := by
        refine ⟨fun h b hb => h b (.inr hb),fun h b hb hba => ?_⟩
        rcases hb with rfl | hb
        · exact hf
        · exact h b hb hba
      by_cases hw : wanted x
      · simp only [hf,if_false,hw,if_true,List.mem_cons,ih has,hrest]
        constructor
        · rintro (rfl | ⟨ha,h⟩)
          · exact ⟨.inl rfl,hw,hf,hrest.mp fun b hb hba => absurd hba (hhead b hb)⟩
          · exact ⟨.inr ha,h⟩
        · rintro ⟨rfl | ha,h⟩
          · exact .inl rfl
          · exact .inr ⟨ha,h⟩
      · simp only [hf,if_false,hw,ih has,List.mem_cons,hrest]
        refine ⟨fun h => ⟨.inr h.1,h.2⟩,fun h => ⟨?_,h.2⟩⟩
        rcases h.1 with rfl | ha
        · exact absurd h.2.1 hw
        · exact ha

end Scan
