/-!
Refinement between two systems that do the same observable things.

A system is a relation between a state, what is observed, and the next
state. `Simulates` relates the states of a system to those of a more abstract
one step by step, and `Runs.simulated` makes of it that whatever is observed
of the first in a whole run may be observed of the second.
-/

namespace AisStore.Lib

/-- From one state to another, with what is observed on the way. -/
inductive Runs {σ ε : Type} (does : σ → ε → σ → Prop) (s : σ) : List ε → σ → Prop where
  | start : Runs does s [] s
  | next {es : List ε} {s₁ s₂ : σ} (h : Runs does s es s₁) {e : ε} (hstep : does s₁ e s₂) :
      Runs does s (es ++ [e]) s₂

/-- Each step of the one is a step of the other, and leads to related states. -/
def Simulates {σ τ ε : Type} (does : σ → ε → σ → Prop) (does' : τ → ε → τ → Prop)
    (related : σ → τ → Prop) : Prop :=
  ∀ s e s' t, related s t → does s e s' → ∃ t', related s' t' ∧ does' t e t'

theorem Runs.simulated {σ τ ε : Type} {does : σ → ε → σ → Prop} {does' : τ → ε → τ → Prop}
    {related : σ → τ → Prop} (hsim : Simulates does does' related) {s s' : σ} {t : τ} {es : List ε}
    (h : Runs does s es s') (hst : related s t) : ∃ t', related s' t' ∧ Runs does' t es t' := by
  induction h with
  | start => exact ⟨t, hst, .start⟩
  | next _ hstep ih =>
      obtain ⟨t₁, hrelated, hruns⟩ := ih
      obtain ⟨t₂, hrelated', hstep'⟩ := hsim _ _ _ _ hrelated hstep
      exact ⟨t₂, hrelated', hruns.next hstep'⟩

end AisStore.Lib
