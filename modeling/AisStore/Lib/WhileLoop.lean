import AisStore.Lib.Failure

/-!
Loops whose body may throw.

A loop is run for a given number of tests of its guard, and one still
running then has not returned. The rule for such a loop takes an invariant
and a variant. It gives the invariant at the end together with the fact
that the loop is left, and asks for more tests than the variant counts at
the start.
-/

namespace AisStore.Lib

variable {σ : Type}

def whileLoop (guard : σ → Bool) (body : σ → Except Failure σ) : ℕ → σ → Except Failure σ
  | 0, _ => .error .noReturn
  | tests + 1, s => if guard s then body s >>= whileLoop guard body tests else .ok s

theorem whileLoop_ok {guard : σ → Bool} {body : σ → Except Failure σ} {Inv : σ → Prop}
    {variant : σ → ℕ}
    (hbody : ∀ s, Inv s → guard s = true →
      ∃ s', body s = .ok s' ∧ Inv s' ∧ variant s' < variant s)
    {tests : ℕ} {s : σ} (hs : Inv s) (htests : variant s < tests) :
    ∃ s', whileLoop guard body tests s = .ok s' ∧ Inv s' ∧ guard s' = false := by
  induction tests generalizing s with
  | zero => omega
  | succ tests ih =>
      unfold whileLoop
      cases hguard : guard s with
      | false => exact ⟨s, rfl, hs, hguard⟩
      | true =>
          obtain ⟨s', hstep, hs', hless⟩ := hbody s hs hguard
          obtain ⟨final, hfinal⟩ := ih hs' (by omega)
          rw [if_pos rfl, hstep]
          exact ⟨final, hfinal⟩

end AisStore.Lib
