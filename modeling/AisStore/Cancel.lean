import AisStore.Completion

/-!
`AisStoreQueryResult.cancel`.

A result can be cancelled at any time while its queries are being read. All
that `cancel` gets hold of is the future in the context. The queries do not
look at it, so they go on as if nothing had happened: a run with cancels is,
but for the future, the run without them (`Transition.steps` of
`withoutCancel`). What the future says then depends only on which came first,
the first cancel or the end of the last query (`getState_cancelled`).
-/

namespace AisStore

open Lib

namespace AisStoreQueryResult

/-- What may happen to a result of which nothing but its order is known. -/
def Cancellable (s : AisStoreQueryResult) : QueryAction → Prop
  | .computeNext i => s.Allowed (.computeNext i)
  | .cancel => True

instance (s : AisStoreQueryResult) : (a : QueryAction) → Decidable (s.Cancellable a)
  | .computeNext i => inferInstanceAs (Decidable (s.Allowed (.computeNext i)))
  | .cancel => inferInstanceAs (Decidable True)

/-- The result as it would be had nobody cancelled it. -/
def withoutCancel (s : AisStoreQueryResult) : AisStoreQueryResult :=
  { s with context.inner := if s.context.queries.isEmpty then .set else .running }

variable {queries : List AisStoreQuery} {s s' : AisStoreQueryResult}

/-- A query that ends does to the future that nobody has cancelled what it always does. -/
theorem withoutCancel_finished (i : ℕ) (queries : List SubQuery) (finishedCalls : List ℕ) :
    withoutCancel ⟨s.context.finished i, queries, finishedCalls⟩ =
      ⟨s.withoutCancel.context.finished i, queries, finishedCalls⟩ := by
  have hempty : s.context.queries.isEmpty = true → (s.context.queries.erase i).isEmpty = true := by
    intro h
    rw [List.isEmpty_iff] at h
    rw [h]
    rfl
  simp only [withoutCancel, AisStoreQueryInnerContext.finished]
  cases hbefore : s.context.queries.isEmpty with
  | true => simp [hempty hbefore, SettableFuture.complete]
  | false => by_cases hafter : (s.context.queries.erase i).isEmpty = true <;>
      simp [hafter, SettableFuture.complete]

/-- A query is advanced in the same way, cancelled or not. -/
theorem withoutCancel_computeNext {i : ℕ} (hstep : s.step (.computeNext i) = some s') :
    s.withoutCancel.step (.computeNext i) = some s'.withoutCancel := by
  obtain ⟨q, hq, hstep⟩ := Option.bind_eq_some_iff.mp hstep
  have hq' : s.withoutCancel.queries[i]? = some q := hq
  simp only [step, hq', Option.bind_eq_bind, Option.bind_some]
  split at hstep <;> cases hstep
  · rfl
  · rw [withoutCancel_finished]
    rfl
  · rfl

theorem reachedBy_withoutCancel (hne : queries ≠ []) {as : List QueryAction}
    (h : RunsTo step Cancellable (start queries) as s) :
    ReachedBy step Allowed (start queries) s.withoutCancel := by
  induction h with
  | start =>
      have hstart : (start queries).withoutCancel = start queries := by
        have hinner := (tracked_start hne).inner
        rw [withoutCancel, ← hinner]
      rw [hstart]
      exact .start
  | next _ a hallowed hstep ih =>
      cases a with
      | computeNext i => exact ih.next (.computeNext i) hallowed (withoutCancel_computeNext hstep)
      | cancel =>
          cases hstep
          exact ih

/-- A future that is done stays as it is. -/
theorem inner_step {a : QueryAction} (hstep : s.step a = some s')
    (hdone : s.context.inner ≠ .running) : s'.context.inner = s.context.inner := by
  cases a with
  | cancel =>
      cases hstep
      show s.context.inner.cancel = s.context.inner
      cases hinner : s.context.inner with
      | running => exact absurd hinner hdone
      | _ => rfl
  | computeNext i =>
      obtain ⟨q, -, hstep⟩ := Option.bind_eq_some_iff.mp hstep
      split at hstep <;> cases hstep
      · rfl
      · show (if _ then s.context.inner.complete else s.context.inner) = s.context.inner
        split
        · cases hinner : s.context.inner with
          | running => exact absurd hinner hdone
          | _ => rfl
        · rfl
      · rfl

/-- A cancel that comes in time. -/
theorem inner_cancel (hrunning : s.context.inner = .running) (hstep : s.step .cancel = some s') :
    s'.context.inner = .cancelled := by
  cases hstep
  exact congrArg SettableFuture.cancel hrunning

/-- A cancel that comes too late changes nothing. -/
theorem step_cancel_of_done (hdone : s.context.inner ≠ .running)
    (hstep : s.step .cancel = some s') : s' = s := by
  have hinner : s'.context.inner = s.context.inner := inner_step hstep hdone
  cases hstep
  obtain ⟨⟨queries, inner⟩, subqueries, finishedCalls⟩ := s
  exact congrArg (fun inner => AisStoreQueryResult.mk ⟨queries, inner⟩ subqueries finishedCalls)
    hinner

/-- The future of a result that nobody has cancelled goes on like that. -/
theorem inner_computeNext {i : ℕ} (h : s.context.inner = s.withoutCancel.context.inner)
    (hstep : s.step (.computeNext i) = some s') :
    s'.context.inner = s'.withoutCancel.context.inner := by
  have hsame : s.withoutCancel = s := by
    obtain ⟨⟨queries, inner⟩, subqueries, finishedCalls⟩ := s
    exact congrArg (fun inner => AisStoreQueryResult.mk ⟨queries, inner⟩ subqueries finishedCalls)
      h.symm
  have hwithout := withoutCancel_computeNext hstep
  rw [hsame, hstep] at hwithout
  exact congrArg (fun s => s.context.inner) (Option.some.inj hwithout)

theorem inner_withoutCancel : s.withoutCancel.context.inner ≠ .cancelled := by
  simp only [withoutCancel]
  split <;> simp

theorem getState_running : s.getState = "Running" ↔ s.context.inner = .running := by
  rw [getState]
  cases s.context.inner <;> simp

theorem getState_cancelled_iff : s.getState = "Cancelled" ↔ s.context.inner = .cancelled := by
  rw [getState]
  cases s.context.inner <;> simp

theorem inner_steps {as : List QueryAction} (hrun : as.foldlM step s = some s')
    (hdone : s.context.inner ≠ .running) : s'.context.inner = s.context.inner := by
  induction as generalizing s with
  | nil =>
      cases hrun
      rfl
  | cons a as ih =>
      obtain ⟨s₁, hstep, hrest⟩ := Option.bind_eq_some_iff.mp hrun
      have hinner : s₁.context.inner = s.context.inner := inner_step hstep hdone
      exact (ih hrest (hinner ▸ hdone)).trans hinner

/-- Who was first. The future of a result that has not been cancelled in time
is as it would be without any cancels. -/
structure FirstComes (queries : List AisStoreQuery) (as : List QueryAction)
    (s : AisStoreQueryResult) : Prop where
  inner : s.context.inner ≠ .cancelled → s.context.inner = s.withoutCancel.context.inner
  running : s.context.inner = .running → .cancel ∉ as
  cancelled : s.context.inner = .cancelled → ∃ before after s₀, as = before ++ .cancel :: after ∧
    RunsTo step Cancellable (start queries) before s₀ ∧ s₀.context.inner = .running

theorem FirstComes.step {as : List QueryAction} {a : QueryAction}
    (hrun : RunsTo step Cancellable (start queries) as s) (h : FirstComes queries as s)
    (hstep : s.step a = some s') : FirstComes queries (as ++ [a]) s' := by
  have hlater {before after : List QueryAction} {s₀ : AisStoreQueryResult}
      (has : as = before ++ .cancel :: after) :
      as ++ [a] = before ++ .cancel :: (after ++ [a]) := by
    rw [has]
    simp
  by_cases hrunning : s.context.inner = .running
  · have hnone : .cancel ∉ as := h.running hrunning
    cases a with
    | cancel =>
        have hcancelled : s'.context.inner = .cancelled := inner_cancel hrunning hstep
        refine ⟨fun hnot => absurd hcancelled hnot, fun hstill => ?_,
          fun _ => ⟨as, [], s, rfl, hrun, hrunning⟩⟩
        rw [hcancelled] at hstill
        cases hstill
    | computeNext i =>
        have hinner : s'.context.inner = s'.withoutCancel.context.inner :=
          inner_computeNext (h.inner (by simp [hrunning])) hstep
        refine ⟨fun _ => hinner, fun _ => by simp [hnone], fun hcancelled => ?_⟩
        rw [hinner] at hcancelled
        exact absurd hcancelled inner_withoutCancel
  · have hsame : s'.context.inner = s.context.inner := inner_step hstep hrunning
    refine ⟨fun hnot => ?_, fun hstill => absurd (hsame.symm.trans hstill) hrunning,
      fun hcancelled => ?_⟩
    · have hinner := h.inner (hsame ▸ hnot)
      cases a with
      | cancel => rwa [step_cancel_of_done hrunning hstep]
      | computeNext i => exact inner_computeNext hinner hstep
    · obtain ⟨before, after, s₀, has, hbefore⟩ := h.cancelled (hsame.symm.trans hcancelled)
      exact ⟨before, after ++ [a], s₀, by rw [has, List.append_assoc]; rfl, hbefore⟩

theorem firstComes (hne : queries ≠ []) {as : List QueryAction}
    (h : RunsTo AisStoreQueryResult.step Cancellable (start queries) as s) :
    FirstComes queries as s := by
  induction h with
  | start =>
      have hinner : (start queries).context.inner = (start queries).withoutCancel.context.inner :=
        (tracked_start hne).inner
      refine ⟨fun _ => hinner, fun _ => List.not_mem_nil, fun hcancelled => ?_⟩
      rw [hinner] at hcancelled
      exact absurd hcancelled inner_withoutCancel
  | next hrun a _ hstep ih => exact ih.step hrun hstep

/-- Had nobody cancelled, the result would be running as long as a query has not ended. -/
theorem exists_active_iff (h : s.withoutCancel.Tracked) :
    (∃ q ∈ s.queries, q.state ≠ .endOfData) ↔ s.withoutCancel.context.inner = .running := by
  have hempty : s.context.queries.isEmpty = true ↔ ∀ q ∈ s.queries, q.state = .endOfData :=
    h.isEmpty_iff
  simp only [withoutCancel]
  split
  · rename_i hnone
    simpa using hempty.mp hnone
  · rename_i hsome
    rw [hempty] at hsome
    simpa using hsome

end AisStoreQueryResult

/-- However a result is read and cancelled. What the queries have returned,
and whether they have ended, is as in a run without cancels; no packet is
left out, and none comes twice. The result is running while nobody has
cancelled it and not all queries have ended, cancelled if it was running when
somebody did, and what it is when it is no longer running it remains. -/
theorem getState_cancelled {Area : Type} {b : AisStoreQueryBuilder Area} {grid : Grid Area}
    {session : Session} {queries : List AisStoreQuery} (hlimit : 1 ≤ b.batchLimit)
    (hexecute : b.execute grid session = .ok queries) (hne : queries ≠ [])
    {start stop : Instant} (hinterval : b.interval = some (start, stop))
    (hrows : ∀ query ∈ queries, ∀ row ∈ query.rs.rows,
      start.millis < row.time.1 ∧ row.time.1 < stop.millis)
    {as : List QueryAction} {s : AisStoreQueryResult}
    (h : RunsTo AisStoreQueryResult.step AisStoreQueryResult.Cancellable
      (AisStoreQueryResult.start queries) as s) :
    (∀ (i : ℕ) (query : AisStoreQuery) (q : SubQuery), queries[i]? = some query →
      s.queries[i]? = some q → q.state ≠ .failed ∧
        q.returned <+: query.rs.rows.map ResultRow.packet ∧
        (q.state = .endOfData → q.returned = query.rs.rows.map ResultRow.packet)) ∧
      (s.getState = "Running" ↔ .cancel ∉ as ∧ ∃ q ∈ s.queries, q.state ≠ .endOfData) ∧
      (s.getState = "Cancelled" ↔ ∃ before after s₀, as = before ++ .cancel :: after ∧
        RunsTo AisStoreQueryResult.step AisStoreQueryResult.Cancellable
          (AisStoreQueryResult.start queries) before s₀ ∧ s₀.getState = "Running") ∧
      ∀ as' s', RunsTo AisStoreQueryResult.step AisStoreQueryResult.Cancellable s as' s' →
        s.getState ≠ "Running" → s'.getState = s.getState := by
  have hplain : ReachedBy AisStoreQueryResult.step AisStoreQueryResult.Allowed
      (AisStoreQueryResult.start queries) s.withoutCancel :=
    AisStoreQueryResult.reachedBy_withoutCancel hne h
  have htracked : s.withoutCancel.Tracked :=
    hplain.invariant (AisStoreQueryResult.tracked_start hne) fun _ _ _ hallowed hstep ht =>
      ht.step hallowed hstep
  have hfirst : AisStoreQueryResult.FirstComes queries as s := AisStoreQueryResult.firstComes hne h
  refine ⟨?_, ?_, ?_, ?_⟩
  · have hlive : ∀ query ∈ queries,
        query.Live ∧ query.pending = query.rs.rows.map ResultRow.packet := fun query hmem =>
      live_of_execute hlimit hexecute hinterval hmem (hrows query hmem)
    have haccounted : AisStoreQueryResult.AllAccounted queries s.withoutCancel :=
      hplain.invariant
        (AisStoreQueryResult.allAccounted_start fun query hmem => (hlive query hmem).1)
        fun _ _ _ hallowed hstep hs => hs.step hallowed hstep
    intro i query q hquery hq
    have hq' := haccounted.2 i query q hquery hq
    have hpending := (hlive query (List.mem_of_getElem? hquery)).2
    unfold AisStoreQueryResult.Accounted at hq'
    split at hq'
    · rename_i hstate
      refine ⟨by simp [hstate], ?_, by simp [hstate]⟩
      rw [← hpending, hq'.1]
      exact List.prefix_append ..
    · rename_i hstate
      rw [hq', hpending]
      exact ⟨by simp [hstate], List.prefix_rfl, fun _ => rfl⟩
    · cases hq'
  · rw [AisStoreQueryResult.getState_running, AisStoreQueryResult.exists_active_iff htracked]
    constructor
    · intro hrunning
      have hinner := hfirst.inner (by simp [hrunning])
      exact ⟨hfirst.running hrunning, hinner.symm.trans hrunning⟩
    · rintro ⟨hnone, hactive⟩
      have hnot : s.context.inner ≠ .cancelled := by
        intro hcancelled
        obtain ⟨before, after, -, rfl, -⟩ := hfirst.cancelled hcancelled
        simp at hnone
      exact (hfirst.inner hnot).trans hactive
  · rw [AisStoreQueryResult.getState_cancelled_iff]
    constructor
    · intro hcancelled
      obtain ⟨before, after, s₀, has, hbefore, hrunning⟩ := hfirst.cancelled hcancelled
      exact ⟨before, after, s₀, has, hbefore,
        AisStoreQueryResult.getState_running.mpr hrunning⟩
    · rintro ⟨before, after, s₀, rfl, hbefore, hrunning⟩
      rw [AisStoreQueryResult.getState_running] at hrunning
      have hrun := h.foldlM_eq
      rw [List.foldlM_append, hbefore.foldlM_eq] at hrun
      -- the cancel itself, and what comes after it
      obtain ⟨s₁, hcancel, hrest⟩ : ∃ s₁, s₀.step .cancel = some s₁ ∧
        after.foldlM AisStoreQueryResult.step s₁ = some s := Option.bind_eq_some_iff.mp hrun
      have hcancelled := AisStoreQueryResult.inner_cancel hrunning hcancel
      exact (AisStoreQueryResult.inner_steps hrest (by simp [hcancelled])).trans hcancelled
  · intro as' s' hrun hdone
    rw [Ne, AisStoreQueryResult.getState_running] at hdone
    rw [AisStoreQueryResult.getState, AisStoreQueryResult.getState,
      AisStoreQueryResult.inner_steps hrun.foldlM_eq hdone]

/-- Cancelled after the first packet, the second vessel is read to its end. -/
theorem getState_cancelled_vesselQueries :
    ∃ (queries : List AisStoreQuery) (s : AisStoreQueryResult) (q : SubQuery),
      vesselQueries.execute noCells backwards = .ok queries ∧ s.getState = "Cancelled" ∧
      s.queries[1]? = some q ∧
      q.returned = [⟨"!AIVDM,1,1,,A,13"⟩, ⟨"!AIVDM,1,1,,A,55"⟩] := by
  obtain ⟨queries, hexecute, hne, hrows, ⟨query, hquery, hpackets⟩, s₀, s, hrun₀, hrunning, hrun,
      q, hq, hended⟩ : ∃ queries, vesselQueries.execute noCells backwards = .ok queries ∧
      queries ≠ [] ∧
      (∀ query ∈ queries, ∀ row ∈ query.rs.rows,
        (Instant.ofEpochMilli (toLong 600000)).millis < row.time.1 ∧
          row.time.1 < (Instant.ofEpochMilli (toLong 1800001)).millis) ∧
      (∃ query, queries[1]? = some query ∧ query.rs.rows.map ResultRow.packet =
          [⟨"!AIVDM,1,1,,A,13"⟩, ⟨"!AIVDM,1,1,,A,55"⟩]) ∧
      ∃ s₀ s, [.computeNext 0].foldlM
          (fun s a => if AisStoreQueryResult.Cancellable s a then s.step a else none)
          (AisStoreQueryResult.start queries) = some s₀ ∧ s₀.getState = "Running" ∧
        [.computeNext 0, .cancel, .computeNext 1, .computeNext 1, .computeNext 1].foldlM
          (fun s a => if AisStoreQueryResult.Cancellable s a then s.step a else none)
          (AisStoreQueryResult.start queries) = some s ∧
        ∃ q, s.queries[1]? = some q ∧ q.state = .endOfData :=
    ⟨_, rfl, List.cons_ne_nil _ _, by decide, ⟨_, rfl, rfl⟩, _, _, rfl, rfl, rfl, _, rfl, rfl⟩
  obtain ⟨hreturned, -, hcancelled, -⟩ := getState_cancelled (le_refl 1) hexecute hne rfl hrows
    (RunsTo.start.guarded hrun)
  refine ⟨queries, s, q, hexecute, hcancelled.mpr ⟨[.computeNext 0], _, s₀, rfl,
    RunsTo.start.guarded hrun₀, hrunning⟩, hq, ?_⟩
  rw [← hpackets]
  exact (hreturned 1 query q hquery hq).2.2 hended

end AisStore
