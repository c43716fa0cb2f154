import Mathlib

/-!
Runs of a deterministic machine: the state after a list of inputs is the fold
of its step function. `Along` says that each step of a run meets a condition on
the state in which it is taken.
-/

set_option autoImplicit false

namespace Runs

variable {σ α : Type} {step : σ → α → σ} {ok : σ → α → Prop}

def Along (step : σ → α → σ) (ok : σ → α → Prop) : σ → List α → Prop
  | _, [] => True
  | s, a :: as => ok s a ∧ Along step ok (step s a) as

instance Along.decidable [∀ s a, Decidable (ok s a)] :
    ∀ (s : σ) (as : List α), Decidable (Along step ok s as)
  | _, [] => isTrue trivial
  | s, a :: as =>
    have := Along.decidable (step s a) as
    inferInstanceAs (Decidable (ok s a ∧ Along step ok (step s a) as))

theorem along_append {s : σ} {as bs : List α} :
    Along step ok s (as ++ bs) ↔ Along step ok s as ∧ Along step ok (as.foldl step s) bs := by
  induction as generalizing s with
  | nil => simp [Along]
  | cons a as ih => simp [Along,ih,and_assoc]

theorem Along.imp {ok' : σ → α → Prop} (himp : ∀ s a, ok s a → ok' s a) {s : σ} {as : List α}
    (h : Along step ok s as) : Along step ok' s as := by
  induction as generalizing s with
  | nil => trivial
  | cons a as ih => exact ⟨himp s a h.1,ih h.2⟩

theorem Along.and {ok' : σ → α → Prop} {s : σ} {as : List α} (h : Along step ok s as)
    (h' : Along step ok' s as) : Along step (fun s a => ok s a ∧ ok' s a) s as := by
  induction as generalizing s with
  | nil => trivial
  | cons a as ih => exact ⟨⟨h.1,h'.1⟩,ih h.2 h'.2⟩

theorem Along.of_mem {s : σ} {as : List α} (h : ∀ a ∈ as, ∀ s, ok s a) : Along step ok s as := by
  induction as generalizing s with
  | nil => trivial
  | cons a as ih => exact ⟨h a (by simp) s,ih fun b hb => h b (by simp [hb])⟩

/-- The invariant rule for an invariant that may mention the inputs so far. -/
theorem Along.history {P : List α → σ → Prop}
    (hstep : ∀ d s a, P d s → ok s a → P (d ++ [a]) (step s a))
    {s : σ} {d as : List α} (h₀ : P d s) (h : Along step ok s as) :
    P (d ++ as) (as.foldl step s) := by
  induction as generalizing s d with
  | nil => simpa using h₀
  | cons a as ih =>
    have hnext := ih (hstep d s a h₀ h.1) h.2
    simpa using hnext

theorem Along.invariant {P : σ → Prop} (hstep : ∀ s a, P s → ok s a → P (step s a))
    {s : σ} {as : List α} (h₀ : P s) (h : Along step ok s as) : P (as.foldl step s) := by
  induction as generalizing s with
  | nil => exact h₀
  | cons a as ih => exact ih (hstep s a h₀ h.1) h.2

/-- The invariant rule for all runs. -/
theorem invariant {P : σ → Prop} (hstep : ∀ s a, P s → P (step s a)) {s : σ} (h₀ : P s)
    (as : List α) : P (as.foldl step s) := by
  induction as generalizing s with
  | nil => exact h₀
  | cons a as ih => exact ih (hstep s a h₀)

theorem Along.iff {I : σ → Prop} {ok' : σ → α → Prop} (hiff : ∀ s a, I s → (ok s a ↔ ok' s a))
    (hstep : ∀ s a, I s → ok' s a → I (step s a)) {s : σ} (hI : I s) (as : List α) :
    Along step ok s as ↔ Along step ok' s as := by
  induction as generalizing s with
  | nil => exact Iff.rfl
  | cons a as ih =>
    rw [Along,Along,hiff s a hI]
    exact and_congr_right fun h => ih (hstep s a hI h)

/-- Where a step fails exactly when it violates `ok`, and failure lasts, a run
meets `ok` all along exactly when its last state has not failed. -/
theorem Along.iff_not_failed {I Failed : σ → Prop} {allowed : σ → α → Prop}
    (hinv : ∀ s a, I s → allowed s a → I (step s a))
    (hfail : ∀ s a, I s → allowed s a → ¬ Failed s → (Failed (step s a) ↔ ¬ ok s a))
    (hlast : ∀ s a, Failed s → Failed (step s a))
    {s : σ} {as : List α} (h : Along step allowed s as) (hI : I s) (hs : ¬ Failed s) :
    Along step ok s as ↔ ¬ Failed (as.foldl step s) := by
  induction as generalizing s with
  | nil => exact ⟨fun _ => hs,fun _ => trivial⟩
  | cons a as ih =>
    have hstep := hfail s a hI h.1 hs
    by_cases hok : ok s a
    · have hs' : ¬ Failed (step s a) := fun hf => hstep.mp hf hok
      rw [Along,List.foldl_cons,ih h.2 (hinv s a hI h.1) hs']
      exact and_iff_right hok
    · refine ⟨fun h' => absurd h'.1 hok,fun hn => absurd ?_ hn⟩
      exact Runs.invariant hlast (hstep.mpr hok) as

/-- What holds in every state of a run is what each of its steps leads to. -/
theorem prefixes_iff_along {P : σ → Prop} {s : σ} (h₀ : P s) (as : List α) :
    (∀ d r, as = d ++ r → P (d.foldl step s)) ↔ Along step (fun s a => P (step s a)) s as := by
  induction as generalizing s with
  | nil =>
    refine ⟨fun _ => trivial,fun _ d r h => ?_⟩
    obtain ⟨rfl,-⟩ := List.append_eq_nil_iff.mp h.symm
    exact h₀
  | cons a as ih =>
    constructor
    · intro h
      have ha : P (step s a) := h [a] as rfl
      exact ⟨ha,(ih ha).mp fun d r hd => h (a :: d) r (by simp [hd])⟩
    · rintro ⟨ha,h⟩ d r hd
      rcases List.cons_eq_append_iff.mp hd with ⟨rfl,-⟩ | ⟨d',rfl,hd'⟩
      · exact h₀
      · exact (ih ha).mpr h d' r hd'

/-- What a step sets and nothing takes back holds at the end if it was set once. -/
theorem latched {P : σ → Prop} (hstep : ∀ s a, P (step s a) ↔ P s ∨ ok s a) {s : σ} (h₀ : ¬ P s)
    (as : List α) :
    P (as.foldl step s) ↔ ∃ d a r, as = d ++ a :: r ∧ ok (d.foldl step s) a := by
  induction as generalizing s with
  | nil => simp [h₀]
  | cons a as ih =>
    rw [List.foldl_cons]
    by_cases ha : ok s a
    · refine ⟨fun _ => ⟨[],a,as,rfl,ha⟩,fun _ => ?_⟩
      exact invariant (fun s b hs => (hstep s b).mpr (.inl hs)) ((hstep s a).mpr (.inr ha)) as
    · have hs : ¬ P (step s a) := fun h => ((hstep s a).mp h).elim h₀ ha
      rw [ih hs]
      constructor
      · rintro ⟨d,b,r,rfl,hb⟩
        exact ⟨a :: d,b,r,rfl,hb⟩
      · rintro ⟨d,b,r,he,hb⟩
        rcases List.cons_eq_append_iff.mp he with ⟨rfl,hr⟩ | ⟨d',rfl,has⟩
        · cases hr
          exact absurd hb ha
        · exact ⟨d',b,r,has,hb⟩

/-- Two conditions on a step and the inputs before it are the same along a whole
list of inputs if they are the same as long as the second has been met. -/
theorem each_iff (given : α → Prop) {I : List α → Prop} {ok ok' : List α → α → Prop} (h₀ : I [])
    (hiff : ∀ d a, I d → (ok d a ↔ ok' d a))
    (hstep : ∀ d a, I d → given a → ok' d a → I (d ++ [a]))
    {as : List α} (has : ∀ a ∈ as, given a) :
    (∀ d a r, as = d ++ a :: r → ok d a) ↔ ∀ d a r, as = d ++ a :: r → ok' d a := by
  -- as long as either is met, the other is, and the invariant holds
  have hinv : ((∀ d a r, as = d ++ a :: r → ok d a) ∨
      ∀ d a r, as = d ++ a :: r → ok' d a) →
      I as ∧ (∀ d a r, as = d ++ a :: r → ok d a) ∧ ∀ d a r, as = d ++ a :: r → ok' d a := by
    induction as using List.reverseRecOn with
    | nil => exact fun _ => ⟨h₀,by simp,by simp⟩
    | append_singleton as x ih =>
      intro h
      have hbefore : ∀ {p : List α → α → Prop}, (∀ d a r, as ++ [x] = d ++ a :: r → p d a) →
          (∀ d a r, as = d ++ a :: r → p d a) ∧ p as x := by
        intro p hp
        exact ⟨fun d a r he => hp d a (r ++ [x]) (by simp [he]),hp as x [] rfl⟩
      have hafter : ∀ {p : List α → α → Prop}, (∀ d a r, as = d ++ a :: r → p d a) → p as x →
          ∀ d a r, as ++ [x] = d ++ a :: r → p d a := by
        intro p hp hx d a r he
        rcases List.eq_nil_or_concat r with rfl | ⟨r,y,rfl⟩
        · obtain ⟨rfl,he'⟩ := List.append_inj' he rfl
          cases he'
          exact hx
        · have he' : as ++ [x] = (d ++ a :: r) ++ [y] := by simpa using he
          exact hp d a r (List.append_inj' he' rfl).1
      obtain ⟨hI,hok,hok'⟩ := ih (fun a ha => has a (by simp [ha]))
        (h.imp (fun h => (hbefore h).1) fun h => (hbefore h).1)
      have hx : ok as x ∧ ok' as x := by
        rcases h with h | h
        · exact ⟨(hbefore h).2,(hiff as x hI).mp (hbefore h).2⟩
        · exact ⟨(hiff as x hI).mpr (hbefore h).2,(hbefore h).2⟩
      exact ⟨hstep as x hI (has x (by simp)) hx.2,hafter hok hx.1,hafter hok' hx.2⟩
  exact ⟨fun h => (hinv (.inl h)).2.2,fun h => (hinv (.inr h)).2.1⟩

def latest {β : Type} (step : σ → α → σ) (tells : σ → α → Option β) : σ → List α → Option β
  | _, [] => none
  | s, a :: as => (latest step tells (step s a) as).or (tells s a)

/-- What a step decides if it tells anything, and leaves alone if not, is decided by
the latest step that told something. -/
theorem latest_iff {P : σ → Prop} {tells : σ → α → Option Bool}
    (hstep : ∀ s a, P (step s a) ↔ (tells s a = some true ∨ (tells s a = none ∧ P s)))
    (s : σ) (as : List α) : P (as.foldl step s) ↔
      (latest step tells s as = some true ∨ (latest step tells s as = none ∧ P s)) := by
  induction as generalizing s with
  | nil => simp [latest]
  | cons a as ih =>
    rw [List.foldl_cons,ih,hstep,latest]
    cases latest step tells (step s a) as with
    | none => simp
    | some b => simp

theorem latest_concat {β : Type} {tells : σ → α → Option β} (s : σ) (as : List α) (a : α) :
    latest step tells s (as ++ [a]) =
      (tells (as.foldl step s) a).or (latest step tells s as) := by
  induction as generalizing s with
  | nil => simp [latest]
  | cons b as ih =>
    rw [List.cons_append,latest,ih,latest,List.foldl_cons,Option.or_assoc]

def collect {β : Type} (step : σ → α → σ) (tells : σ → α → List β) : σ → List α → List β
  | _, [] => []
  | s, a :: as => tells s a ++ collect step tells (step s a) as

theorem collect_append {β : Type} {tells : σ → α → List β} (s : σ) (as bs : List α) :
    collect step tells s (as ++ bs) =
      collect step tells s as ++ collect step tells (as.foldl step s) bs := by
  induction as generalizing s with
  | nil => rfl
  | cons a as ih => rw [List.cons_append,collect,collect,ih,List.append_assoc,List.foldl_cons]

theorem collect_concat {β : Type} {tells : σ → α → List β} (s : σ) (as : List α) (a : α) :
    collect step tells s (as ++ [a]) = collect step tells s as ++ tells (as.foldl step s) a := by
  rw [collect_append]
  simp [collect]

theorem collect_nil {β : Type} {tells : σ → α → List β} {as : List α}
    (h : ∀ a ∈ as, ∀ s, tells s a = []) (s : σ) : collect step tells s as = [] := by
  induction as generalizing s with
  | nil => rfl
  | cons a as ih =>
    rw [collect,h a (by simp),ih fun b hb => h b (by simp [hb])]
    rfl

theorem places_concat {p : List α → α → Prop} {as : List α} {x : α} :
    (∀ d a r, as ++ [x] = d ++ a :: r → p d a) ↔
      (∀ d a r, as = d ++ a :: r → p d a) ∧ p as x := by
  constructor
  · intro h
    exact ⟨fun d a r he => h d a (r ++ [x]) (by simp [he]),h as x [] rfl⟩
  · rintro ⟨h,hx⟩ d a r he
    rcases List.eq_nil_or_concat r with rfl | ⟨r,y,rfl⟩
    · obtain ⟨rfl,he'⟩ := List.append_inj' he rfl
      cases he'
      exact hx
    · have he' : as ++ [x] = (d ++ a :: r) ++ [y] := by simpa using he
      exact h d a r (List.append_inj' he' rfl).1

end Runs
