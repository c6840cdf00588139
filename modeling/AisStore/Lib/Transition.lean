/-!
Transition systems given by a partial step function.

`step s a` is the state after the action `a`, or `none` where the action
cannot happen. `ReachedBy` collects the states of all runs whose steps
satisfy a condition; `ReachedBy.invariant` carries an invariant along them.
`RunsTo` keeps the actions, for invariants that speak of them.
-/

namespace AisStore.Lib

/-- The states that runs from `init` reach when each step, looked at in the
state it is taken in, is allowed. -/
inductive ReachedBy {σ α : Type} (step : σ → α → Option σ) (allowed : σ → α → Prop) (init : σ) :
    σ → Prop where
  | start : ReachedBy step allowed init init
  | next {s s' : σ} (h : ReachedBy step allowed init s) (a : α) (hallowed : allowed s a)
      (hstep : step s a = some s') : ReachedBy step allowed init s'

namespace ReachedBy

variable {σ α : Type} {step : σ → α → Option σ} {allowed : σ → α → Prop} {init s : σ}

/-- What holds at the start and survives each allowed step holds of every
state reached. -/
theorem invariant {P : σ → Prop} (h : ReachedBy step allowed init s) (hinit : P init)
    (hpreserve : ∀ s a s', allowed s a → step s a = some s' → P s → P s') : P s := by
  induction h with
  | start => exact hinit
  | next _ a hallowed hstep ih => exact hpreserve _ _ _ hallowed hstep ih

/-- Actions that are allowed in every state can be taken one after the other. -/
theorem steps {s' : σ} (h : ReachedBy step allowed init s) {as : List α}
    (hallowed : ∀ a ∈ as, ∀ s, allowed s a) (hrun : as.foldlM step s = some s') :
    ReachedBy step allowed init s' := by
  induction as generalizing s with
  | nil =>
      cases hrun
      exact h
  | cons a as ih =>
      obtain ⟨s₁, hstep, hrest⟩ := Option.bind_eq_some_iff.mp hrun
      have hnext := h.next a (hallowed a (List.mem_cons_self ..) s) hstep
      exact ih hnext (fun b hb => hallowed b (List.mem_cons_of_mem a hb)) hrest

/-- A run in which each action is looked at before it is taken. -/
theorem guarded {s' : σ} [∀ s a, Decidable (allowed s a)] (h : ReachedBy step allowed init s)
    {as : List α}
    (hrun : as.foldlM (fun s a => if allowed s a then step s a else none) s = some s') :
    ReachedBy step allowed init s' := by
  induction as generalizing s with
  | nil =>
      cases hrun
      exact h
  | cons a as ih =>
      obtain ⟨s₁, hstep, hrest⟩ := Option.bind_eq_some_iff.mp hrun
      dsimp only at hstep
      split at hstep
      · rename_i hallowed
        exact ih (h.next a hallowed hstep) hrest
      · cases hstep

end ReachedBy

/-- `ReachedBy` with the actions on the way. -/
inductive RunsTo {σ α : Type} (step : σ → α → Option σ) (allowed : σ → α → Prop) (init : σ) :
    List α → σ → Prop where
  | start : RunsTo step allowed init [] init
  | next {as : List α} {s s' : σ} (h : RunsTo step allowed init as s) (a : α)
      (hallowed : allowed s a) (hstep : step s a = some s') :
      RunsTo step allowed init (as ++ [a]) s'

namespace RunsTo

variable {σ α : Type} {step : σ → α → Option σ} {allowed : σ → α → Prop} {init s : σ} {as : List α}

theorem reachedBy (h : RunsTo step allowed init as s) : ReachedBy step allowed init s := by
  induction h with
  | start => exact .start
  | next _ a hallowed hstep ih => exact ih.next a hallowed hstep

theorem exists_of_reachedBy (h : ReachedBy step allowed init s) :
    ∃ as, RunsTo step allowed init as s := by
  induction h with
  | start => exact ⟨[], .start⟩
  | next _ a hallowed hstep ih =>
      obtain ⟨as, hrun⟩ := ih
      exact ⟨as ++ [a], hrun.next a hallowed hstep⟩

/-- An invariant may speak of the actions taken. -/
theorem invariant {P : List α → σ → Prop} (h : RunsTo step allowed init as s) (hinit : P [] init)
    (hpreserve : ∀ as s a s', allowed s a → step s a = some s' → P as s → P (as ++ [a]) s') :
    P as s := by
  induction h with
  | start => exact hinit
  | next _ a hallowed hstep ih => exact hpreserve _ _ _ _ hallowed hstep ih

/-- Actions that are allowed in every state can be taken one after the other. -/
theorem steps {as' : List α} {s' : σ} (h : RunsTo step allowed init as s)
    (hallowed : ∀ a ∈ as', ∀ s, allowed s a) (hrun : as'.foldlM step s = some s') :
    RunsTo step allowed init (as ++ as') s' := by
  induction as' generalizing as s with
  | nil =>
      cases hrun
      rwa [List.append_nil]
  | cons a as' ih =>
      obtain ⟨s₁, hstep, hrest⟩ := Option.bind_eq_some_iff.mp hrun
      have hnext := h.next a (hallowed a (List.mem_cons_self ..) s) hstep
      rw [List.append_cons]
      exact ih hnext (fun b hb => hallowed b (List.mem_cons_of_mem a hb)) hrest

/-- A run in which each action is looked at before it is taken. -/
theorem guarded {as' : List α} {s' : σ} [∀ s a, Decidable (allowed s a)]
    (h : RunsTo step allowed init as s)
    (hrun : as'.foldlM (fun s a => if allowed s a then step s a else none) s = some s') :
    RunsTo step allowed init (as ++ as') s' := by
  induction as' generalizing as s with
  | nil =>
      cases hrun
      rwa [List.append_nil]
  | cons a as' ih =>
      obtain ⟨s₁, hstep, hrest⟩ := Option.bind_eq_some_iff.mp hrun
      dsimp only at hstep
      split at hstep
      · rename_i hallowed
        rw [List.append_cons]
        exact ih (h.next a hallowed hstep) hrest
      · cases hstep

/-- The actions of a run, taken one after the other, lead to its end. -/
theorem foldlM_eq (h : RunsTo step allowed init as s) : as.foldlM step init = some s := by
  induction h with
  | start => rfl
  | next _ a _ hstep ih =>
      rw [List.foldlM_append, ih]
      show ([a].foldlM step _) = _
      rw [List.foldlM_cons, hstep]
      rfl

/-- A run, seen by another system that takes no part in some of the steps. -/
theorem filterMap {τ β : Type} {step' : τ → β → Option τ} (view : σ → τ) (f : α → Option β)
    (h : RunsTo step allowed init as s)
    (hsilent : ∀ s a s', f a = none → step s a = some s' → view s' = view s)
    (hseen : ∀ s a s' b, f a = some b → step s a = some s' → step' (view s) b = some (view s')) :
    RunsTo step' (fun _ _ => True) (view init) (as.filterMap f) (view s) := by
  induction h with
  | start => exact .start
  | next _ a _ hstep ih =>
      rw [List.filterMap_append]
      cases hf : f a with
      | none =>
          rw [hsilent _ a _ hf hstep]
          simpa [hf] using ih
      | some b => simpa [hf] using ih.next b trivial (hseen _ a _ b hf hstep)

/-- A measure that each counted action lowers, and no action raises, bounds
how many counted actions there are. -/
theorem countP_add_le {P : σ → Prop} (μ : σ → Nat) (counted : α → Bool)
    (h : RunsTo step allowed init as s) (hinit : P init)
    (hlower : ∀ s a s', allowed s a → step s a = some s' → P s →
      P s' ∧ μ s' + (if counted a then 1 else 0) ≤ μ s) :
    P s ∧ as.countP counted + μ s ≤ μ init := by
  induction h with
  | start => exact ⟨hinit, by simp⟩
  | next _ a hallowed hstep ih =>
      obtain ⟨hP, hle⟩ := hlower _ a _ hallowed hstep ih.1
      refine ⟨hP, ?_⟩
      rw [List.countP_append, List.countP_singleton]
      omega

end RunsTo

/-- What the actions of a run record, each in the state it is taken in. -/
def recorded {σ α β : Type} (step : σ → α → Option σ) (record : σ → α → List β) :
    σ → List α → List β
  | _, [] => []
  | s, a :: as => record s a ++ ((step s a).map (recorded step record · as)).getD []

namespace RunsTo

variable {σ α β : Type} {step : σ → α → Option σ} {allowed : σ → α → Prop} {init s : σ}
  {as : List α}

/-- The last action of a run records in the state the others lead to. -/
theorem recorded_concat (h : RunsTo step allowed init as s) (record : σ → α → List β) (a : α) :
    recorded step record init (as ++ [a]) = recorded step record init as ++ record s a := by
  have hrun := h.foldlM_eq
  clear h
  induction as generalizing init with
  | nil =>
      cases hrun
      cases hstep : step s a <;> simp [recorded, hstep]
  | cons b as ih =>
      obtain ⟨s₁, hstep, hrest⟩ := Option.bind_eq_some_iff.mp hrun
      simp only [List.cons_append, recorded, hstep, Option.map_some, Option.getD_some]
      rw [ih hrest, List.append_assoc]

end RunsTo

end AisStore.Lib
