import AisStore.Iterator
import AisStore.Lib.Transition

/-!
`AisStoreQueryInnerContext`: when a result is done.

The queries of one result share a context. Each puts itself on the context's
list when it is constructed, takes itself off when it has no more packets,
and whoever leaves the list empty completes the future. `Tracked` is the
invariant: the list holds the queries that have not ended, and the future is
pending as long as there is one.
-/

namespace AisStore

open Lib

/-- A `SettableFuture<Void>`. -/
inductive SettableFuture where
  | running
  | set
  | cancelled
  deriving DecidableEq

namespace SettableFuture

/-- `set(null)` and `cancel(..)` change a future that is not done, and no other. -/
def complete : SettableFuture → SettableFuture
  | .running => .set
  | future => future

def cancel : SettableFuture → SettableFuture
  | .running => .cancelled
  | future => future

end SettableFuture

/-- The list of queries, each given by its place in the result, and the future. -/
structure AisStoreQueryInnerContext where
  queries : List ℕ := []
  inner : SettableFuture := .running

namespace AisStoreQueryInnerContext

/-- The last line of the constructor of a query. -/
def add (context : AisStoreQueryInnerContext) (q : ℕ) : AisStoreQueryInnerContext :=
  { context with queries := context.queries ++ [q] }

def finished (context : AisStoreQueryInnerContext) (q : ℕ) : AisStoreQueryInnerContext :=
  let queries := context.queries.erase q
  { queries := queries
    inner := if queries.isEmpty then context.inner.complete else context.inner }

end AisStoreQueryInnerContext

inductive IteratorState where
  | active
  /-- `computeNext` has returned `endOfData()`. -/
  | endOfData
  /-- `computeNext` has thrown. -/
  | failed
  deriving DecidableEq

/-- A query of a result, with what it has returned so far. -/
structure SubQuery where
  query : AisStoreQuery
  state : IteratorState := .active
  returned : List AisPacket := []

structure AisStoreQueryResult where
  context : AisStoreQueryInnerContext
  queries : List SubQuery
  /-- The calls of `finished`, by the query that made them. -/
  finishedCalls : List ℕ

inductive QueryAction where
  /-- The iterator of the query at this place asks it for its next packet. -/
  | computeNext (i : ℕ)
  | cancel

namespace AisStoreQueryResult

def getState (s : AisStoreQueryResult) : String :=
  match s.context.inner with
  | .running => "Running"
  | .cancelled => "Cancelled"
  | .set => "Done"

/-- The result as `execute` returns it; the queries were added as they were made. -/
def start (queries : List AisStoreQuery) : AisStoreQueryResult where
  context := (List.range queries.length).foldl AisStoreQueryInnerContext.add {}
  queries := queries.map fun query => { query := query }
  finishedCalls := []

def step (s : AisStoreQueryResult) : QueryAction → Option AisStoreQueryResult
  | .computeNext i => do
    let q ← s.queries[i]?
    match q.query.computeNext with
    | .ok (some next, query) =>
      some { s with
        queries := s.queries.set i { q with query := query, returned := q.returned ++ [next] } }
    | .ok (none, query) =>
      some {
        context := s.context.finished i
        queries := s.queries.set i { q with query := query, state := .endOfData }
        finishedCalls := s.finishedCalls ++ [i] }
    | .error _ => some { s with queries := s.queries.set i { q with state := .failed } }
  | .cancel => some { s with context.inner := s.context.inner.cancel }

/-- Nobody cancels, and `AbstractIterator` asks for a next packet only as long
as it has neither been told that there is none nor seen an exception. -/
def Allowed (s : AisStoreQueryResult) : QueryAction → Prop
  | .computeNext i => s.queries[i]?.map SubQuery.state = some .active
  | .cancel => False

instance (s : AisStoreQueryResult) : (a : QueryAction) → Decidable (s.Allowed a)
  | .computeNext i => inferInstanceAs (Decidable (s.queries[i]?.map SubQuery.state = some .active))
  | .cancel => inferInstanceAs (Decidable False)

/-- What the list, the future and the calls of `finished` say about the queries. -/
structure Tracked (s : AisStoreQueryResult) : Prop where
  mem_queries : ∀ i, i ∈ s.context.queries ↔
    ∃ q, s.queries[i]? = some q ∧ q.state ≠ .endOfData
  nodup : s.context.queries.Nodup
  inner : s.context.inner = if s.context.queries.isEmpty then .set else .running
  finishedCalls : ∀ i q, s.queries[i]? = some q →
    s.finishedCalls.count i = if q.state = .endOfData then 1 else 0

variable {queries : List AisStoreQuery} {s s' : AisStoreQueryResult}

theorem foldl_add (added : List ℕ) (context : AisStoreQueryInnerContext) :
    added.foldl AisStoreQueryInnerContext.add context =
      { context with queries := context.queries ++ added } := by
  induction added generalizing context with
  | nil => simp
  | cons q added ih => simp [ih, AisStoreQueryInnerContext.add]

theorem tracked_start (hne : queries ≠ []) : (start queries).Tracked := by
  have hcontext : (start queries).context = { queries := List.range queries.length } := by
    simp [start, foldl_add]
  have hlength : 0 < queries.length := List.length_pos_of_ne_nil hne
  refine ⟨?_, ?_, ?_, ?_⟩
  · intro i
    rw [hcontext]
    simp [start, List.getElem?_eq_some_iff]
  · rw [hcontext]
    exact List.nodup_range
  · rw [hcontext]
    simp [hlength.ne']
  · intro i q hq
    simp only [start, List.getElem?_map, Option.map_eq_some_iff] at hq
    obtain ⟨query, -, rfl⟩ := hq
    rfl

theorem getElem?_set_some {i : ℕ} {q : SubQuery} (hq : s.queries[i]? = some q) (q' : SubQuery)
    (j : ℕ) : (s.queries.set i q')[j]? = if i = j then some q' else s.queries[j]? := by
  have hlt : i < s.queries.length := (List.getElem?_eq_some_iff.mp hq).1
  simp [List.getElem?_set, hlt]

/-- A step in which the query does not end leaves the context as it was. -/
theorem Tracked.set (h : s.Tracked) {i : ℕ} {q q' : SubQuery} (hq : s.queries[i]? = some q)
    (hstate : q.state ≠ .endOfData) (hstate' : q'.state ≠ .endOfData) :
    Tracked { s with queries := s.queries.set i q' } := by
  refine ⟨fun j => ?_, h.nodup, h.inner, fun j r hr => ?_⟩
  · rw [h.mem_queries j, getElem?_set_some hq]
    split
    · rename_i hij
      subst hij
      simp [hq, hstate, hstate']
    · exact Iff.rfl
  · rw [getElem?_set_some hq] at hr
    split at hr
    · rename_i hij
      subst hij
      cases hr
      simpa [hstate, hstate'] using h.finishedCalls i q hq
    · exact h.finishedCalls j r hr

/-- The step in which a query ends takes it, and only it, off the list. -/
theorem Tracked.finished (h : s.Tracked) {i : ℕ} {q q' : SubQuery} (hq : s.queries[i]? = some q)
    (hstate : q.state ≠ .endOfData) (hstate' : q'.state = .endOfData) :
    Tracked {
      context := s.context.finished i
      queries := s.queries.set i q'
      finishedCalls := s.finishedCalls ++ [i] } := by
  have hmem : i ∈ s.context.queries := (h.mem_queries i).mpr ⟨q, hq, hstate⟩
  have hrunning : s.context.inner = .running := by
    rw [h.inner, if_neg]
    simpa using List.ne_nil_of_mem hmem
  refine ⟨fun j => ?_, h.nodup.erase i, ?_, fun j r hr => ?_⟩
  · show j ∈ s.context.queries.erase i ↔ _
    rw [h.nodup.mem_erase_iff, h.mem_queries j, getElem?_set_some hq]
    split
    · rename_i hij
      simp [hij, hstate']
    · rename_i hij
      simp [Ne.symm hij]
  · show (if (s.context.queries.erase i).isEmpty then s.context.inner.complete else _) = _
    rw [hrunning]
    rfl
  · rw [getElem?_set_some hq] at hr
    rw [List.count_append, List.count_singleton]
    split at hr
    · rename_i hij
      subst hij
      cases hr
      simpa [hstate, hstate'] using h.finishedCalls i q hq
    · rename_i hij
      simpa [hij] using h.finishedCalls j r hr

theorem Tracked.step (h : s.Tracked) {a : QueryAction} (hallowed : s.Allowed a)
    (hstep : s.step a = some s') : s'.Tracked := by
  cases a with
  | cancel => cases hallowed
  | computeNext i =>
    obtain ⟨q, hq, hactive⟩ := Option.map_eq_some_iff.mp hallowed
    simp only [AisStoreQueryResult.step, hq, Option.bind_eq_bind, Option.bind_some] at hstep
    have hstate : q.state ≠ .endOfData := by simp [hactive]
    split at hstep <;> cases hstep
    · exact h.set hq hstate hstate
    · exact h.finished hq hstate rfl
    · exact h.set hq hstate (by simp)

/-- No query is left in the shared list exactly when all have ended. -/
theorem Tracked.isEmpty_iff (h : s.Tracked) :
    s.context.queries.isEmpty = true ↔ ∀ q ∈ s.queries, q.state = .endOfData := by
  rw [List.isEmpty_iff, List.eq_nil_iff_forall_not_mem]
  constructor
  · intro hnone q hq
    obtain ⟨i, hi⟩ := List.mem_iff_getElem?.mp hq
    by_contra hstate
    exact hnone i ((h.mem_queries i).mpr ⟨q, hi, hstate⟩)
  · rintro hall i hi
    obtain ⟨q, hq, hstate⟩ := (h.mem_queries i).mp hi
    exact hstate (hall q (List.mem_of_getElem? hq))

/-! ### What the queries have returned -/

/-- A query that has not ended has returned its packets up to what is pending,
and one that has ended all of them. -/
def Accounted (query : AisStoreQuery) (q : SubQuery) : Prop :=
  match q.state with
  | .active => query.pending = q.returned ++ q.query.pending ∧ q.query.Live
  | .endOfData => q.returned = query.pending
  | .failed => False

/-- The queries of a result, each looked at beside what it was at the start. -/
def AllAccounted (queries : List AisStoreQuery) (s : AisStoreQueryResult) : Prop :=
  s.queries.length = queries.length ∧ ∀ (i : ℕ) (query : AisStoreQuery) (q : SubQuery),
    queries[i]? = some query → s.queries[i]? = some q → Accounted query q

/-- A call of `computeNext` on a query that has not ended returns the next of its
packets, or ends it after the last. -/
theorem Accounted.computeNext {query : AisStoreQuery} {q : SubQuery} (h : Accounted query q)
    (hactive : q.state = .active) :
    (∃ next query', q.query.computeNext = .ok (some next, query') ∧
        Accounted query { q with query := query', returned := q.returned ++ [next] }) ∨
      ∃ query', q.query.computeNext = .ok (none, query') ∧
        Accounted query { q with query := query', state := .endOfData } := by
  simp only [Accounted, hactive] at h
  obtain ⟨hpending, hlive⟩ := h
  cases hrest : q.query.pending with
  | nil =>
    obtain ⟨query', hcall, -⟩ := AisStoreQuery.computeNext_nil hlive hrest
    rw [hrest, List.append_nil] at hpending
    exact .inr ⟨query', hcall, hpending.symm⟩
  | cons next rest =>
    obtain ⟨query', hcall, hrest', hlive', -⟩ := AisStoreQuery.computeNext_cons hlive hrest
    refine .inl ⟨next, query', hcall, ?_⟩
    simp only [Accounted, hactive]
    exact ⟨by rw [hpending, hrest, hrest', List.append_assoc]; rfl, hlive'⟩

theorem length_step {a : QueryAction} (hstep : s.step a = some s') :
    s'.queries.length = s.queries.length := by
  cases a with
  | cancel =>
    cases hstep
    rfl
  | computeNext i =>
    obtain ⟨q, -, hstep⟩ := Option.bind_eq_some_iff.mp hstep
    split at hstep <;> cases hstep <;> exact List.length_set

theorem AllAccounted.step (h : AllAccounted queries s) {a : QueryAction}
    (hallowed : s.Allowed a) (hstep : s.step a = some s') : AllAccounted queries s' := by
  obtain ⟨hlength, h⟩ := h
  refine ⟨(length_step hstep).trans hlength, fun i query q hquery hq => ?_⟩
  cases a with
  | cancel => cases hallowed
  | computeNext j =>
    obtain ⟨r, hr, hactive⟩ := Option.map_eq_some_iff.mp hallowed
    obtain ⟨query₀, hquery₀⟩ : ∃ query₀, queries[j]? = some query₀ :=
      ⟨_, List.getElem?_eq_getElem (hlength ▸ (List.getElem?_eq_some_iff.mp hr).1)⟩
    -- whichever way the call ends, the other queries are as before
    have hset : ∀ r', Accounted query₀ r' → (s.queries.set j r')[i]? = some q →
        Accounted query q := by
      intro r' hr' hq'
      rw [getElem?_set_some hr] at hq'
      split at hq'
      · rename_i hij
        subst hij
        cases hq'
        rw [hquery₀] at hquery
        cases hquery
        exact hr'
      · exact h i query q hquery hq'
    simp only [AisStoreQueryResult.step, hr, Option.bind_eq_bind, Option.bind_some] at hstep
    obtain ⟨next, query', hcall, hnext⟩ | ⟨query', hcall, hend⟩ :=
        (h j query₀ r hquery₀ hr).computeNext hactive
    · rw [hcall] at hstep
      cases hstep
      exact hset _ hnext hq
    · rw [hcall] at hstep
      cases hstep
      exact hset _ hend hq

theorem allAccounted_start (hlive : ∀ query ∈ queries, query.Live) :
    AllAccounted queries (start queries) := by
  refine ⟨List.length_map .., ?_⟩
  intro i query q hquery hq
  simp only [start, List.getElem?_map, hquery, Option.map_some, Option.some.injEq] at hq
  subst hq
  exact ⟨rfl, hlive query (List.mem_of_getElem? hquery)⟩

end AisStoreQueryResult

/-- A query that the builder makes starts live, with all of its rows pending. -/
theorem live_of_execute {Area : Type} {b : AisStoreQueryBuilder Area} {grid : Grid Area}
    {session : Session} {queries : List AisStoreQuery} (hlimit : 1 ≤ b.batchLimit)
    (hexecute : b.execute grid session = .ok queries) {start stop : Instant}
    (hinterval : b.interval = some (start, stop)) {query : AisStoreQuery} (hmem : query ∈ queries)
    (hrows : ∀ row ∈ query.rs.rows, start.millis < row.time.1 ∧ row.time.1 < stop.millis) :
    query.Live ∧ query.pending = query.rs.rows.map ResultRow.packet := by
  obtain ⟨_, _, _, _, start', stop', hinterval', -, hpath, hcreate⟩ :=
    AisStoreQueryBuilder.mem_execute hexecute hmem
  rw [hinterval] at hinterval'
  cases hinterval'
  obtain ⟨hlive, hpackets, -⟩ :=
    AisStoreQuery.live_of_create (Int.lt_of_lt_of_le Int.zero_lt_one hlimit) hpath hcreate hrows
  exact ⟨hlive, by rw [AisStoreQuery.pending, hpackets, List.nil_append]⟩

/-- In whatever order the queries of a result are advanced: the result is done
when all of them have ended and running until then, and each calls `finished`
once, when it ends. With the rows of a query between the ends of the
interval, as its statement asks for them, no call throws, and a query that
has ended has returned all of them. -/
theorem getState_whenExhausted {Area : Type} {b : AisStoreQueryBuilder Area} {grid : Grid Area}
    {session : Session} {queries : List AisStoreQuery} (hlimit : 1 ≤ b.batchLimit)
    (hexecute : b.execute grid session = .ok queries) (hne : queries ≠ [])
    {s : AisStoreQueryResult}
    (h : ReachedBy AisStoreQueryResult.step AisStoreQueryResult.Allowed
      (AisStoreQueryResult.start queries) s) :
    s.queries.length = queries.length ∧
      (s.getState = "Done" ↔ ∀ q ∈ s.queries, q.state = .endOfData) ∧
      (s.getState = "Running" ↔ ∃ q ∈ s.queries, q.state ≠ .endOfData) ∧
      (∀ i q, s.queries[i]? = some q →
        s.finishedCalls.count i = if q.state = .endOfData then 1 else 0) ∧
      ∀ start stop, b.interval = some (start, stop) →
        (∀ query ∈ queries, ∀ row ∈ query.rs.rows,
          start.millis < row.time.1 ∧ row.time.1 < stop.millis) →
        ∀ (i : ℕ) (query : AisStoreQuery) (q : SubQuery), queries[i]? = some query →
          s.queries[i]? = some q → q.state ≠ .failed ∧
            (q.state = .endOfData → q.returned = query.rs.rows.map ResultRow.packet) := by
  have htracked : s.Tracked :=
    h.invariant (AisStoreQueryResult.tracked_start hne) fun _ _ _ hallowed hstep ht =>
      ht.step hallowed hstep
  have hlength : s.queries.length = queries.length :=
    h.invariant (List.length_map ..) fun _ _ _ _ hstep hl =>
      (AisStoreQueryResult.length_step hstep).trans hl
  refine ⟨hlength, ?_, ?_, htracked.finishedCalls, ?_⟩
  · rw [← htracked.isEmpty_iff, AisStoreQueryResult.getState, htracked.inner]
    cases s.context.queries.isEmpty <;> decide
  · have hsome : (∃ q ∈ s.queries, q.state ≠ .endOfData) ↔ ¬ s.context.queries.isEmpty = true := by
      rw [htracked.isEmpty_iff]
      simp
    rw [hsome, AisStoreQueryResult.getState, htracked.inner]
    cases s.context.queries.isEmpty <;> decide
  · intro start stop hinterval hrows i query q hquery hq
    have hlive : ∀ query ∈ queries,
        query.Live ∧ query.pending = query.rs.rows.map ResultRow.packet := fun query hmem =>
      live_of_execute hlimit hexecute hinterval hmem (hrows query hmem)
    have haccounted : AisStoreQueryResult.AllAccounted queries s :=
      h.invariant (AisStoreQueryResult.allAccounted_start fun query hmem => (hlive query hmem).1)
        fun _ _ _ hallowed hstep hs => hs.step hallowed hstep
    have hq' := haccounted.2 i query q hquery hq
    unfold AisStoreQueryResult.Accounted at hq'
    split at hq'
    · rename_i hstate
      simp [hstate]
    · rename_i hstate
      rw [hq', (hlive query (List.mem_of_getElem? hquery)).2]
      simp [hstate]
    · cases hq'

/-- Two vessels, with two rows each. -/
def vesselQueries : AisStoreQueryBuilder Unit where
  area := none
  mmsi := some [7, 9]
  batchLimit := 1
  interval := some (.ofEpochMilli (toLong 600000), .ofEpochMilli (toLong 1800001))

/-- The first vessel has ended, and the second has a packet to give. -/
theorem getState_whenExhausted_vesselQueries :
    ∃ queries s, vesselQueries.execute noCells backwards = .ok queries ∧
      ReachedBy AisStoreQueryResult.step AisStoreQueryResult.Allowed
        (AisStoreQueryResult.start queries) s ∧
      s.finishedCalls.count 0 = 1 ∧ s.finishedCalls.count 1 = 0 ∧ s.getState = "Running" := by
  obtain ⟨queries, hexecute, hne, s, hrun, hfirst, hsecond⟩ : ∃ queries,
      vesselQueries.execute noCells backwards = .ok queries ∧ queries ≠ [] ∧
      ∃ s, [.computeNext 0, .computeNext 1, .computeNext 0, .computeNext 0].foldlM
          (fun s a => if AisStoreQueryResult.Allowed s a then s.step a else none)
          (AisStoreQueryResult.start queries) = some s ∧
        (∃ q, s.queries[0]? = some q ∧ q.state = .endOfData) ∧
        ∃ q, s.queries[1]? = some q ∧ q.state = .active :=
    ⟨_, rfl, List.cons_ne_nil _ _, _, rfl, ⟨_, rfl, rfl⟩, ⟨_, rfl, rfl⟩⟩
  have hreached := ReachedBy.start.guarded hrun
  obtain ⟨-, -, hrunning, hcount, -⟩ := getState_whenExhausted (le_refl 1) hexecute hne hreached
  obtain ⟨q, hq, hended⟩ := hfirst
  obtain ⟨r, hr, hactive⟩ := hsecond
  refine ⟨queries, s, hexecute, hreached, ?_, ?_, ?_⟩
  · simpa [hended] using hcount 0 q hq
  · simpa [hactive] using hcount 1 r hr
  · exact hrunning.mpr ⟨r, List.mem_of_getElem? hr, by simp [hactive]⟩

end AisStore
