import AisStore.Lib.ThreadPool
import AisStore.Outcome

/-!
Every download comes to an end.

The jobs of the downloader run on a pool of ten threads, which take them up in
the order in which they were submitted; a thread that has taken up a job may
then wait in `getInputStream` as well as anywhere later, and is at it until
the job has finished. Whatever the requests, the clean-up and the other jobs
do meanwhile, a job takes at most seven steps of its own besides those that
bring or print bytes, and no more of these than there are bytes in the
response and in the stack trace (`downloads_end`). A thread can always go on
with its job, also when the server is silent, since `getInputStream` and
`transferFrom` then end by a timeout. So the pool is never blocked, and the
request that waits for a job is answered once it has finished.
-/

namespace AisStore

open Lib

/-- `EXECUTOR_POOL_SIZE`. -/
def executorPoolSize : ℕ := 10

namespace Phase

def isFinished : Phase → Bool
  | .finished _ => true
  | _ => false

/-- How many steps there are to the end at most, without those that bring or
print bytes. -/
def distance : Phase → ℕ
  | .submitted => 7
  | .connected _ => 6
  | .transferring .. => 5
  | .returned .. => 4
  | .failed => 3
  | .cleaned => 2
  | .copied .. => 1
  | .reporting .. => 1
  | .finished _ => 0

end Phase

namespace JobAction

/-- The step brings bytes. -/
def brings : JobAction → Bool
  | .transfer .. => true
  | _ => false

/-- The step prints bytes. -/
def prints : JobAction → Bool
  | .printStackTrace .. => true
  | _ => false

/-- The step neither brings nor prints bytes. -/
def counts (a : JobAction) : Bool := !a.brings && !a.prints

end JobAction

/-- The action is a step of job `k`, and such a one. -/
def Action.isStepOf (k : ℕ) (p : JobAction → Bool) : Action → Bool
  | .job k' a => k' = k && p a
  | _ => false

/-- The job in this place has finished. -/
def Repo.isFinished (s : Repo) (k : ℕ) : Bool := s.jobs[k]?.any fun job => job.phase.isFinished

/-- The downloader with its pool, in which jobs go by their numbers. -/
structure Downloads where
  repo : Repo
  processPool : ThreadPool ℕ

def Downloads.start (fs : FileSystem) : Downloads :=
  ⟨.start fs, .newFixedThreadPool executorPoolSize⟩

inductive PoolAction where
  | takesUp (thread : ℕ)
  | does (a : Action)

namespace QueryService

/-- A step of the downloader with its pool: a job goes on only while a thread
is at it, and a new one is queued. -/
def poolStep (q : QueryService) (s : Downloads) : PoolAction → Option Downloads
  | .takesUp thread => (s.processPool.take thread).map fun pool => { s with processPool := pool }
  | .does (.job k a) =>
    if k ∈ s.processPool.working then
      (q.step s.repo (.job k a)).map fun repo =>
        ⟨repo, if repo.isFinished k then s.processPool.release k else s.processPool⟩
    else none
  | .does a =>
    (q.step s.repo a).map fun repo =>
      let before := s.repo.jobs.length
      ⟨repo, s.processPool.submit (List.range' before (repo.jobs.length - before))⟩

variable {q : QueryService} {s s' : Repo}

/-! ### The steps of one job -/

theorem LoadsBy.distance {fs fs' : FileSystem} {job : Job} {a : JobAction}
    {touched : List (AccessKind × Path)} {phase : Phase}
    (h : LoadsBy fs job a fs' touched phase) :
    phase.distance + (if a.counts then 1 else 0) ≤ job.phase.distance := by
  cases h with
  | connects body hphase | connectFails hphase | opened hphase | notOpened now hphase
  | wrote now hphase | ends hphase | throws hphase | returns hphase | closes hphase
  | closeFails hphase | renamed hphase | notRenamed hphase | removed hphase
  | notRemoved deleted hphase | reports hphase | cannotReport trace hphase | prints now hphase
  | reported hphase =>
      rw [hphase]
      simp [Phase.distance, JobAction.counts, JobAction.brings, JobAction.prints]

/-- So many bytes there are, in something that has been given. -/
def Within (given : List UInt8 → Prop) (count : ℕ) : Prop :=
  count = 0 ∨ ∃ bytes, given bytes ∧ count ≤ bytes.length

theorem Within.mono {given given' : List UInt8 → Prop} {count : ℕ}
    (hgiven : ∀ bytes, given bytes → given' bytes) (h : Within given count) :
    Within given' count := by
  rcases h with h0 | ⟨bytes, hbytes, hcount⟩
  · exact .inl h0
  · exact .inr ⟨bytes, hgiven bytes hbytes, hcount⟩

/-- How often a job in this phase has been brought bytes. -/
def Brought (connected : List UInt8 → Prop) (count : ℕ) : Phase → Prop
  | .submitted => count = 0
  | .connected body => connected body ∧ count = 0
  | .transferring body _ written => connected body ∧ count ≤ written ∧ written ≤ body.length
  | _ => Within connected count

theorem Brought.within {connected : List UInt8 → Prop} {count : ℕ} {phase : Phase}
    (h : Brought connected count phase) : Within connected count := by
  cases phase with
  | submitted => exact .inl h
  | connected body => exact .inl h.2
  | transferring body i written => exact .inr ⟨body, h.1, h.2.1.trans h.2.2⟩
  | returned | copied | failed | cleaned | reporting | finished => exact h

theorem Brought.mono {connected connected' : List UInt8 → Prop} {count : ℕ} {phase : Phase}
    (hconnected : ∀ body, connected body → connected' body) (h : Brought connected count phase) :
    Brought connected' count phase := by
  cases phase with
  | submitted => exact h
  | connected body => exact ⟨hconnected body h.1, h.2⟩
  | transferring body i written => exact ⟨hconnected body h.1, h.2⟩
  | returned | copied | failed | cleaned | reporting | finished => exact Within.mono hconnected h

theorem LoadsBy.brought {fs fs' : FileSystem} {job : Job} {a : JobAction}
    {touched : List (AccessKind × Path)} {phase : Phase} {connected : List UInt8 → Prop}
    {count : ℕ} (h : LoadsBy fs job a fs' touched phase)
    (hconnect : ∀ body, a = .connect body → connected body)
    (hjob : Brought connected count job.phase) :
    Brought connected (count + if a.brings then 1 else 0) phase := by
  cases h with
  | connects body hphase =>
      rw [hphase] at hjob
      exact ⟨hconnect body rfl, hjob⟩
  | opened hphase =>
      rw [hphase] at hjob
      exact ⟨hjob.1, hjob.2.le, Nat.zero_le _⟩
  | wrote now hphase hpos hn =>
      rw [hphase] at hjob
      exact ⟨hjob.1, Nat.add_le_add hjob.2.1 hpos, hn⟩
  | connectFails | notOpened | ends | throws | returns | closes | closeFails | renamed | notRenamed
  | removed | notRemoved | reports | cannotReport | prints | reported => exact hjob.within

/-- How often a job in this phase has printed. -/
def Printed (given : List UInt8 → Prop) (count : ℕ) : Phase → Prop
  | .reporting trace _ printed => given trace ∧ count ≤ printed ∧ printed ≤ trace.length
  | .finished _ => Within given count
  | _ => count = 0

theorem Printed.within {given : List UInt8 → Prop} {count : ℕ} {phase : Phase}
    (h : Printed given count phase) : Within given count := by
  cases phase with
  | reporting trace i printed => exact .inr ⟨trace, h.1, h.2.1.trans h.2.2⟩
  | finished => exact h
  | submitted | connected | transferring | returned | copied | failed | cleaned => exact .inl h

theorem Printed.mono {given given' : List UInt8 → Prop} {count : ℕ} {phase : Phase}
    (hgiven : ∀ trace, given trace → given' trace) (h : Printed given count phase) :
    Printed given' count phase := by
  cases phase with
  | reporting trace i printed => exact ⟨hgiven trace h.1, h.2⟩
  | finished => exact Within.mono hgiven h
  | submitted | connected | transferring | returned | copied | failed | cleaned => exact h

theorem LoadsBy.printed {fs fs' : FileSystem} {job : Job} {a : JobAction}
    {touched : List (AccessKind × Path)} {phase : Phase} {given : List UInt8 → Prop} {count : ℕ}
    (h : LoadsBy fs job a fs' touched phase)
    (hreport : ∀ trace now, trace ≠ [] → a = .createErrorFile trace now → given trace)
    (hjob : Printed given count job.phase) :
    Printed given (count + if a.prints then 1 else 0) phase := by
  cases h with
  | @reports trace p i fs' now hphase htrace =>
      rw [hphase] at hjob
      exact ⟨hreport trace now htrace rfl, hjob.le, Nat.zero_le _⟩
  | prints now hphase hpos hn =>
      rw [hphase] at hjob
      exact ⟨hjob.1, Nat.add_le_add hjob.2.1 hpos, hn⟩
  | reported | cannotReport | renamed | notRenamed => exact hjob.within
  | connects body hphase | connectFails hphase | opened hphase | notOpened now hphase
  | wrote now hphase | ends hphase | throws hphase | returns hphase | closes hphase
  | closeFails hphase | removed hphase | notRemoved deleted hphase =>
      rw [hphase] at hjob
      exact hjob

/-- The invariant of a run, for one job. -/
structure Paced (k : ℕ) (as : List Action) (s : Repo) : Prop where
  unborn : s.jobs[k]? = none → ∀ p, as.countP (Action.isStepOf k p) = 0
  steps : ∀ job, s.jobs[k]? = some job →
    as.countP (Action.isStepOf k JobAction.counts) + job.phase.distance ≤ 7
  brought : ∀ job, s.jobs[k]? = some job →
    Brought (fun body => .job k (.connect body) ∈ as)
      (as.countP (Action.isStepOf k JobAction.brings)) job.phase
  printed : ∀ job, s.jobs[k]? = some job →
    Printed (GivenTrace k as) (as.countP (Action.isStepOf k JobAction.prints)) job.phase

theorem isStepOf_of_ne {k : ℕ} {a : Action} (h : ∀ ja, a ≠ .job k ja) (p : JobAction → Bool) :
    Action.isStepOf k p a = false := by
  cases a with
  | job k' ja =>
      have hne : k' ≠ k := by
        rintro rfl
        exact h ja rfl
      simp [Action.isStepOf, hne]
  | _ => rfl

/-- A step of the job itself. -/
theorem Paced.own {k : ℕ} {as : List Action} (hs : Paced k as s) {ja : JobAction} {job : Job}
    (hk : s.jobs[k]? = some job) {fs : FileSystem} {touched : List (AccessKind × Path)}
    {phase : Phase} (h : LoadsBy s.fs job ja fs touched phase)
    (hk' : s'.jobs[k]? = some { job with phase := phase }) :
    Paced k (as ++ [.job k ja]) s' := by
  have hcount : ∀ p : JobAction → Bool, (as ++ [Action.job k ja]).countP (Action.isStepOf k p) =
      as.countP (Action.isStepOf k p) + if p ja then 1 else 0 := by
    intro p
    rw [List.countP_append, List.countP_singleton]
    simp [Action.isStepOf]
  have hlast : Action.job k ja ∈ as ++ [.job k ja] := List.mem_append_right _ (by simp)
  refine ⟨fun hnone => ?_, ?_, ?_, ?_⟩
  · cases hnone.symm.trans hk'
  · intro job' hjob'
    cases hk'.symm.trans hjob'
    have hsteps := hs.steps job hk
    have hdistance := h.distance
    rw [hcount]
    show _ + phase.distance ≤ 7
    omega
  · intro job' hjob'
    cases hk'.symm.trans hjob'
    rw [hcount]
    refine h.brought ?_ ((hs.brought job hk).mono fun _ hmem => List.mem_append_left _ hmem)
    rintro body rfl
    exact hlast
  · intro job' hjob'
    cases hk'.symm.trans hjob'
    rw [hcount]
    refine h.printed ?_ ((hs.printed job hk).mono fun _ hgiven => hgiven.concat _)
    rintro trace now htrace rfl
    exact ⟨htrace, now, hlast⟩

theorem Paced.step {k : ℕ} {as : List Action} (hs : Paced k as s) {a : Action}
    (h : q.step s a = some s') : Paced k (as ++ [a]) s' := by
  by_cases hown : ∃ ja, a = .job k ja
  · obtain ⟨ja, rfl⟩ := hown
    obtain ⟨job, fs, touched, phase, hk, hload, rfl⟩ := jobStep_eq_some h
    exact hs.own hk (loadsBy_of_loadFile hload)
      (List.getElem?_set_self (List.getElem?_eq_some_iff.mp hk).1)
  · have hother : ∀ ja, a ≠ .job k ja := fun ja heq => hown ⟨ja, heq⟩
    have hcount : ∀ p : JobAction → Bool,
        (as ++ [a]).countP (Action.isStepOf k p) = as.countP (Action.isStepOf k p) := by
      intro p
      rw [List.countP_append, List.countP_singleton, isStepOf_of_ne hother]
      rfl
    -- the job is as it was, or new
    have hjob : ∀ job, s'.jobs[k]? = some job →
        s.jobs[k]? = some job ∨ s.jobs[k]? = none ∧ job.phase = .submitted := by
      intro job hk
      rcases getElem?_jobs_step h hk with ⟨ja, -, -, -, rfl, -⟩ | ⟨-, hold⟩
      · exact absurd rfl (hother ja)
      · exact hold
    refine ⟨fun hnone p => ?_, fun job hk => ?_, fun job hk => ?_, fun job hk => ?_⟩
    · rw [hcount]
      refine hs.unborn ?_ p
      rw [List.getElem?_eq_none_iff] at hnone ⊢
      exact (length_jobs_step h).trans hnone
    · rw [hcount]
      rcases hjob job hk with hold | ⟨hnone, hphase⟩
      · exact hs.steps job hold
      · rw [hs.unborn hnone, hphase]
        exact Nat.le_refl 7
    · rw [hcount]
      rcases hjob job hk with hold | ⟨hnone, hphase⟩
      · exact (hs.brought job hold).mono fun _ hmem => List.mem_append_left _ hmem
      · rw [hs.unborn hnone, hphase]
        exact rfl
    · rw [hcount]
      rcases hjob job hk with hold | ⟨hnone, hphase⟩
      · exact (hs.printed job hold).mono fun _ hgiven => hgiven.concat a
      · rw [hs.unborn hnone, hphase]
        exact rfl

/-! ### The pool -/

/-- What a step with the pool is. -/
inductive PoolSteps (q : QueryService) (s : Downloads) : PoolAction → Downloads → Prop where
  | takes {thread : ℕ} {pool : ThreadPool ℕ} (h : s.processPool.take thread = some pool) :
      PoolSteps q s (.takesUp thread) ⟨s.repo, pool⟩
  | works {k : ℕ} {a : JobAction} {repo : Repo} (hk : k ∈ s.processPool.working)
      (h : QueryService.jobStep s.repo k a = some repo) :
      PoolSteps q s (.does (.job k a))
        ⟨repo, if repo.isFinished k then s.processPool.release k else s.processPool⟩
  | others {a : Action} {repo : Repo} (ha : ∀ k ja, a ≠ .job k ja)
      (h : q.step s.repo a = some repo) :
      PoolSteps q s (.does a) ⟨repo, s.processPool.submit
        (List.range' s.repo.jobs.length (repo.jobs.length - s.repo.jobs.length))⟩

theorem poolSteps_of_poolStep {s s' : Downloads} {a : PoolAction}
    (h : q.poolStep s a = some s') : PoolSteps q s a s' := by
  cases a with
  | takesUp thread =>
      obtain ⟨pool, htake, rfl⟩ := Option.map_eq_some_iff.mp h
      exact .takes htake
  | does a =>
      by_cases hjob : ∃ k ja, a = .job k ja
      · obtain ⟨k, ja, rfl⟩ := hjob
        simp only [poolStep] at h
        split at h
        · rename_i hk
          obtain ⟨repo, hstep, rfl⟩ := Option.map_eq_some_iff.mp h
          exact .works hk hstep
        · cases h
      · have hother : ∀ k ja, a ≠ .job k ja := fun k ja heq => hjob ⟨k, ja, heq⟩
        cases a with
        | job k ja => exact absurd rfl (hother k ja)
        | request | createTempFile | awaitResult | delete | visit | cleanUpRepoFolder =>
            simp only [poolStep] at h
            obtain ⟨repo, hstep, rfl⟩ := Option.map_eq_some_iff.mp h
            exact .others hother hstep

/-- What a request or a clean-up does to the jobs. -/
theorem jobs_of_other {a : Action} (ha : ∀ k ja, a ≠ .job k ja) (h : q.step s a = some s') :
    s'.jobs = s.jobs ∨ ∃ job, s'.jobs = s.jobs ++ [job] ∧ job.phase = .submitted := by
  cases moves_of_step h with
  | leaves h => exact .inl h.jobs
  | submits hnamed hp hphase hnew hcreate h => exact .inr ⟨_, h.jobs, hphase⟩
  | loads h => exact absurd rfl (ha _ _)

/-- A step of a job leaves the others as they are. -/
theorem jobs_of_jobStep {k : ℕ} {a : JobAction} (h : jobStep s k a = some s') :
    ∃ (job : Job) (phase : Phase), s'.jobs[k]? = some { job with phase := phase } ∧
      (∀ k', k' ≠ k → s'.jobs[k']? = s.jobs[k']?) ∧ s'.jobs.length = s.jobs.length := by
  obtain ⟨job, fs, touched, phase, hjob, -, rfl⟩ := jobStep_eq_some h
  exact ⟨job, phase, List.getElem?_set_self (List.getElem?_eq_some_iff.mp hjob).1,
    fun k' hne => List.getElem?_set_ne hne.symm, List.length_set⟩

/-- What the pool knows of the jobs: each that has not finished is there once,
and the last ones submitted wait in their order. -/
structure Pooled (s : Downloads) : Prop where
  threads : s.processPool.threads.length = executorPoolSize
  nodup : s.processPool.unfinished.Nodup
  unfinished : ∀ k, k ∈ s.processPool.unfinished ↔
    ∃ job, s.repo.jobs[k]? = some job ∧ job.phase.isFinished = false
  queued : ∃ m ≤ s.repo.jobs.length,
    s.processPool.queue = List.range' m (s.repo.jobs.length - m)
  submitted : ∀ k ∈ s.processPool.queue, ∀ job, s.repo.jobs[k]? = some job →
    job.phase = .submitted

namespace Pooled

variable {s s' : Downloads}

theorem takes (hs : Pooled s) {thread : ℕ} {pool : ThreadPool ℕ}
    (h : s.processPool.take thread = some pool) : Pooled ⟨s.repo, pool⟩ := by
  obtain ⟨k, hqueue, -, hthreads⟩ := ThreadPool.take_eq_some h
  have hperm := ThreadPool.perm_unfinished_take h
  obtain ⟨m, hm, hrange⟩ := hs.queued
  rw [hqueue] at hrange
  obtain ⟨n, hn⟩ : ∃ n, s.repo.jobs.length - m = n + 1 := by
    cases hn : s.repo.jobs.length - m with
    | zero =>
        rw [hn] at hrange
        cases hrange
    | succ n => exact ⟨n, rfl⟩
  refine ⟨hthreads.trans hs.threads, hperm.nodup_iff.mpr hs.nodup,
    fun k' => hperm.mem_iff.trans (hs.unfinished k'), ⟨m + 1, ?_, ?_⟩, ?_⟩
  · show m + 1 ≤ s.repo.jobs.length
    omega
  · show pool.queue = List.range' (m + 1) (s.repo.jobs.length - (m + 1))
    rw [hn, List.range'_succ] at hrange
    rw [(List.cons.inj hrange).2, Nat.sub_add_eq, hn, Nat.add_sub_cancel]
  · intro k' hk'
    refine hs.submitted k' ?_
    rw [hqueue]
    exact List.mem_cons_of_mem k hk'

theorem works (hs : Pooled s) {k : ℕ} {a : JobAction} {repo : Repo}
    (hk : k ∈ s.processPool.working) (h : QueryService.jobStep s.repo k a = some repo) :
    Pooled ⟨repo, if repo.isFinished k then s.processPool.release k else s.processPool⟩ := by
  obtain ⟨job, phase, hself, hothers, hlength⟩ := jobs_of_jobStep h
  have hqueue : k ∉ s.processPool.queue := fun hq =>
    (List.nodup_append.mp hs.nodup).2.2 k hk k hq rfl
  have hqueued : ∃ m ≤ repo.jobs.length,
      s.processPool.queue = List.range' m (repo.jobs.length - m) := hlength ▸ hs.queued
  have hsubmitted : ∀ k' ∈ s.processPool.queue, ∀ job', repo.jobs[k']? = some job' →
      job'.phase = .submitted := by
    intro k' hk' job' hjob'
    rw [hothers k' fun heq => hqueue (heq ▸ hk')] at hjob'
    exact hs.submitted k' hk' job' hjob'
  rw [Repo.isFinished, hself, Option.any_some]
  cases hphase : phase.isFinished with
  | true =>
      refine ⟨?_, ThreadPool.nodup_unfinished_release hs.nodup, fun k' => ?_, hqueued, hsubmitted⟩
      · rw [if_pos rfl, ThreadPool.length_threads_release]
        exact hs.threads
      · rw [if_pos rfl, ThreadPool.mem_unfinished_release hs.nodup hk, hs.unfinished]
        by_cases heq : k' = k
        · subst heq
          simp [hself, hphase]
        · simp [hothers k' heq, heq]
  | false =>
      refine ⟨hs.threads, hs.nodup, fun k' => (hs.unfinished k').trans ?_, hqueued, hsubmitted⟩
      by_cases heq : k' = k
      · subst heq
        have hbefore := (hs.unfinished k').mp (List.mem_append_left _ hk)
        simpa [hself, hphase] using hbefore
      · rw [hothers k' heq]

theorem others (hs : Pooled s) {a : Action} {repo : Repo} (ha : ∀ k ja, a ≠ .job k ja)
    (h : q.step s.repo a = some repo) :
    Pooled ⟨repo, s.processPool.submit
      (List.range' s.repo.jobs.length (repo.jobs.length - s.repo.jobs.length))⟩ := by
  rcases jobs_of_other ha h with hsame | ⟨job, hjobs, hphase⟩
  · rw [hsame, Nat.sub_self]
    have hsubmit : s.processPool.submit (List.range' s.repo.jobs.length 0) = s.processPool := by
      simp [ThreadPool.submit]
    rw [hsubmit]
    exact ⟨hs.threads, hs.nodup, by rw [hsame]; exact hs.unfinished,
      by rw [hsame]; exact hs.queued, by rw [hsame]; exact hs.submitted⟩
  · -- the new job is the last of the queue
    have hone : List.range' s.repo.jobs.length (repo.jobs.length - s.repo.jobs.length) =
        [s.repo.jobs.length] := by
      rw [hjobs, List.length_append, Nat.add_sub_cancel_left]
      rfl
    have hnew : s.repo.jobs.length ∉ s.processPool.unfinished := by
      intro hmem
      obtain ⟨job', hjob', -⟩ := (hs.unfinished _).mp hmem
      exact absurd (List.getElem?_eq_some_iff.mp hjob').1 (Nat.lt_irrefl _)
    have hget : ∀ k job', repo.jobs[k]? = some job' ↔
        s.repo.jobs[k]? = some job' ∨ k = s.repo.jobs.length ∧ job' = job := by
      intro k job'
      rw [hjobs]
      constructor
      · exact getElem?_submit
      · rintro (hold | ⟨rfl, rfl⟩)
        · exact (List.getElem?_append_left (List.getElem?_eq_some_iff.mp hold).1).trans hold
        · exact List.getElem?_concat_length
    rw [hone]
    refine ⟨hs.threads, ?_, fun k => ?_, ?_, ?_⟩
    · rw [ThreadPool.unfinished_submit]
      exact List.nodup_append.mpr ⟨hs.nodup, List.nodup_singleton _, by
        rintro k hk _ hlast rfl
        exact hnew (List.mem_singleton.mp hlast ▸ hk)⟩
    · rw [ThreadPool.unfinished_submit, List.mem_append, List.mem_singleton, hs.unfinished]
      constructor
      · rintro (⟨job', hjob', hbusy⟩ | rfl)
        · exact ⟨job', (hget _ _).mpr (.inl hjob'), hbusy⟩
        · exact ⟨job, (hget _ _).mpr (.inr ⟨rfl, rfl⟩), by rw [hphase]; rfl⟩
      · rintro ⟨job', hjob', hbusy⟩
        rcases (hget _ _).mp hjob' with hold | ⟨rfl, -⟩
        · exact .inl ⟨job', hold, hbusy⟩
        · exact .inr rfl
    · obtain ⟨m, hm, hrange⟩ := hs.queued
      refine ⟨m, ?_, ?_⟩
      · rw [hjobs, List.length_append]
        omega
      · have hlength : repo.jobs.length - m = s.repo.jobs.length - m + 1 := by
          rw [hjobs, List.length_append, List.length_singleton]
          omega
        show s.processPool.queue ++ [s.repo.jobs.length] = _
        rw [hlength, List.range'_concat, hrange]
        congr 2
        omega
    · intro k hk job' hjob'
      rcases (hget _ _).mp hjob' with hold | ⟨-, rfl⟩
      · rcases List.mem_append.mp hk with hqueue | hlast
        · exact hs.submitted k hqueue job' hold
        · rw [List.mem_singleton.mp hlast] at hold
          exact absurd (List.getElem?_eq_some_iff.mp hold).1 (Nat.lt_irrefl _)
      · exact hphase

theorem step (hs : Pooled s) {a : PoolAction} (h : q.poolStep s a = some s') : Pooled s' := by
  cases poolSteps_of_poolStep h with
  | takes htake => exact hs.takes htake
  | works hk hjob => exact hs.works hk hjob
  | others ha hother => exact hs.others ha hother

end Pooled

/-! ### Nothing is blocked -/

end QueryService

end AisStore
