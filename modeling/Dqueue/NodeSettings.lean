import Dqueue.Users
import Dqueue.Lib.Effects

/-!
Subscription and publish parameters, and the process-wide cache of compiled
regular expressions through which tags are checked.
-/

set_option autoImplicit false

namespace Dqueue
open Std

inductive SubscribeActions where
  | Create
  | Subscribe
  | Unsubscribe
  deriving DecidableEq, Repr

structure SubscriptionParams where
  queueName : Str
  tag : Str
  deriving DecidableEq, Repr

structure PublishParams where
  queueName : Str
  tag : Str
  deriving DecidableEq, Repr

/-- A compiled expression is known by what `std::regex_match` decides with it. -/
abbrev Regex := Str → Bool

/-- The constructor of `std::regex`: `none` where it throws `std::regex_error`. -/
abbrev RegexCompiler := Str → Option Regex

abbrev ReCache := ExtTreeMap Str Regex

variable (regex : RegexCompiler)

def ReCache.compile (re : Str) : EStateM Exception ReCache Regex := do
  let cache ← get
  match cache[re]? with
  | some cre => pure cre
  | none =>
    match regex re with
    | none => throw ⟨"regex_error"⟩
    | some cre =>
      set (cache.insert re cre)
      pure cre

def SubscriptionParams.checkTag (sp : SubscriptionParams) (tag_ : Str) :
    EStateM Exception ReCache Bool :=
  if sp.tag.isEmpty then pure true
  else do
    let tag_regex ← ReCache.compile regex sp.tag
    pure (tag_regex tag_)

/-- The cache answers as the compiler does. -/
def ReCache.Sound (cache : ReCache) : Prop := ∀ re cre, cache[re]? = some cre → regex re = some cre

def tagMatches (tag tag_ : Str) : Bool :=
  tag.isEmpty || (match regex tag with
    | some cre => cre tag_
    | none => false)

variable {regex}

theorem ReCache.Sound.empty : ReCache.Sound regex ∅ := by
  intro re cre h
  simp at h

theorem ReCache.Sound.insert {cache : ReCache} (h : ReCache.Sound regex cache) {re : Str}
    {cre : Regex} (hc : regex re = some cre) : ReCache.Sound regex (cache.insert re cre) := by
  intro re' cre' h'
  rw [ExtTreeMap.getElem?_insert] at h'
  split at h'
  · rename_i he
    rw [← LawfulEqCmp.compare_eq_iff_eq.mp he,hc,← Option.some.inj h']
  · exact h re' cre' h'

/-- Whatever was compiled before, a compilation answers as the compiler does,
and only a failing one throws. -/
theorem ReCache.compile_run {cache : ReCache} (h : ReCache.Sound regex cache) (re : Str) :
    (∃ cre cache', regex re = some cre ∧ ReCache.Sound regex cache' ∧
      ReCache.compile regex re cache = .ok cre cache') ∨
    (∃ e, regex re = none ∧ ReCache.compile regex re cache = .error e cache) := by
  cases hc : cache[re]? with
  | some cre => exact .inl ⟨cre,cache,h re cre hc,h,by simp [ReCache.compile,hc]⟩
  | none =>
    cases hr : regex re with
    | none => exact .inr ⟨⟨"regex_error"⟩,rfl,by simp [ReCache.compile,hc,hr]⟩
    | some cre =>
      exact .inl ⟨cre,cache.insert re cre,rfl,h.insert hr,by simp [ReCache.compile,hc,hr]⟩

end Dqueue
