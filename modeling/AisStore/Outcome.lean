import AisStore.CompleteFiles

/-!
What the answer to a query that waits for its job names.

Whatever goes wrong, a job ends with a path: that of the error file after an
exception, and that of the result otherwise, also if the file could not be
renamed or the error file not be created. `Unhindered` lists what has to go
well for there to be a file of that name that holds what it should. The
invariant `Tracks` then knows what is in the error file while it is written,
and with `Whole` what is in the result.
-/

namespace AisStore

open Lib

/-- The name of the file a job returns. -/
def Job.returnedName (job : Job) : JobResult → String
  | .errorFile => job.name ++ errorSuffix
  | .moved _ _ => job.name
  | .notMoved => job.name

/-- The step deletes the file at this path for a request or a clean-up. -/
def Deletes (s : Repo) (a : Action) (p : Path) : Prop :=
  match a with
  | .delete i => ∃ clientId path, s.tasks[i]? = some (.delete clientId path) ∧ path.normalize = p
  | .visit i _ => ∃ visitor rest, s.tasks[i]? = some (.walkFileTree visitor (.entry p :: rest)) ∧
      match visitor with
      | .deleteAll _ => True
      | .deleteExpired expiredTime =>
        ∃ inode, s.fs.lookup p = some (.file inode) ∧ (s.fs.data inode).modified < expiredTime
  | _ => False

/-- Nothing that the job leaves without consequence goes wrong in this step:
`transferFrom` returns at the end of the response, the file is renamed, the
error file is opened, what is printed gets into it, and nobody deletes it
while it is written. -/
structure Unhindered (k : ℕ) (s : Repo) (a : Action) : Prop where
  transfers : ∀ job body i written, s.jobs[k]? = some job →
    a = .job k (.connectionFails false) → job.phase = .transferring body i written →
      ¬ written < body.length
  moves : ∀ job moved, s.jobs[k]? = some job → a = .job k (.move moved) → moved = true ∧
    ∃ p p' fs, s.fs.locate job.path = some p ∧ s.fs.locate job.resultPath = some p' ∧
      s.fs.move p p' = some fs
  reports : ∀ job trace now, s.jobs[k]? = some job → a = .job k (.createErrorFile trace now) →
    ∃ p o, s.fs.locate job.errorPath = some p ∧ s.fs.openWrite p now = some o
  prints : ∀ n written now, a = .job k (.printStackTrace n written now) → written = n
  undisturbed : ∀ job trace i printed, s.jobs[k]? = some job →
    job.phase = .reporting trace i printed → ¬ Deletes s a job.errorFile

namespace QueryService

variable {q : QueryService} {s s' : Repo}

/-! ### What others do to a file -/

theorem Handles.fileAt (h : Handles s s') (p : Path) : s'.fs.fileAt p = s.fs.fileAt p := by
  cases h with
  | adds => rfl
  | createsFolder hcreate => exact (FileSystem.fileAt_createDirectories hcreate).2 p

/-- A visitor leaves a file alone if it is not the one visited, or not to be deleted. -/
theorem Visits.fileAt {visitor : Visitor} {v : Visit} (h : Visits s visitor v s') {p : Path}
    {f : ℕ × List UInt8} (hp : s.fs.fileAt p = some f)
    (hnot : v = .entry p → match visitor with
      | .deleteAll _ => False
      | .deleteExpired expiredTime => ∀ inode, s.fs.lookup p = some (.file inode) →
          ¬ (s.fs.data inode).modified < expiredTime) :
    s'.fs.fileAt p = some f := by
  -- a deletion of something else
  have hother : ∀ {r : Path} {fs : FileSystem}, r ≠ p → s.fs.delete r = some fs →
      fs.fileAt p = some f := by
    intro r fs hne hdelete
    rw [(FileSystem.fileAt_delete hdelete).2, if_neg hne.symm, hp]
  cases h with
  | passes => exact hp
  | deletesFile hfile hdelete =>
      refine hother ?_ hdelete
      rintro rfl
      exact hnot rfl
  | deletesExpired hfile hexpired hdelete =>
      refine hother ?_ hdelete
      rintro rfl
      exact hnot rfl _ hfile hexpired
  | deletesFolder hfolder hdelete =>
      refine hother ?_ hdelete
      rintro rfl
      obtain ⟨inode, hinode⟩ := FileSystem.isFile_of_fileAt hp
      cases hinode.symm.trans (of_decide_eq_true hfolder)

/-- A step that is none of a job leaves a file as it is, unless it deletes it. -/
theorem fileAt_step (hs : Keeping s) {a : Action} (h : q.step s a = some s')
    (hjob : ∀ k ja, a ≠ .job k ja) {p : Path} {f : ℕ × List UInt8} (hp : s.fs.fileAt p = some f)
    (hnot : ¬ Deletes s a p) : s'.fs.fileAt p = some f := by
  cases steps_of_step h with
  | request r => exact ((handles_handle q s r).fileAt p).trans hp
  | replies => exact hp
  | creates htask h =>
      cases creates_of_createTempFile h with
      | refused reply => exact hp
      | created hdir hsep hp' hnew hcreate htask =>
          obtain ⟨-, -, hnone, hfile⟩ := FileSystem.fileAt_createNew hs.wellFormed hcreate
          refine ((hfile p).trans (if_neg ?_)).trans hp
          rintro rfl
          cases hnone.symm.trans hp
  | @deletes i clientId path r fs htask hremove reply =>
      obtain ⟨rfl, -, hfile⟩ := FileSystem.fileAt_remove hremove
      refine ((hfile p).trans (if_neg ?_)).trans hp
      rintro rfl
      exact hnot ⟨clientId, path, htask, rfl⟩
  | @walks i late visitor v rest visits s₁ htask hnext =>
      refine (visits_of_visitNext hnext).fileAt hp ?_
      rintro rfl
      cases visitor with
      | deleteAll clientId => exact hnot ⟨_, rest, htask, trivial⟩
      | deleteExpired expiredTime =>
          exact fun inode hinode hexpired => hnot ⟨_, rest, htask, inode, hinode, hexpired⟩
  | cleanUpRepoFolder now => exact hp
  | loads => exact absurd rfl (hjob _ _)

/-- A step of a job leaves a file alone that is not its own. -/
theorem Loads.fileAt {fs fs' : FileSystem} {job : Job} {touched : List (AccessKind × Path)}
    {phase : Phase} (h : Loads fs job fs' touched phase) (hwf : fs.WellFormed)
    (hholds : job.Holds fs) {p : Path} {f : ℕ × List UInt8} (hp : fs.fileAt p = some f)
    (hfile : p ≠ job.file) (herror : p ≠ job.errorFile) : fs'.fileAt p = some f := by
  rcases (loaded_of_loads hwf hholds h).frame p hfile herror with hsame | ⟨heq, i, body, written,
    hmoved, -⟩
  · exact hsame.trans hp
  · cases h with
    | quiet _ _ _ hnone => cases hnone.symm.trans hmoved
    | opened => cases hmoved
    | wrote => cases hmoved
    | renamed hphase hlocate hlocate' hmove =>
        -- there was nothing under the name of the result
        obtain ⟨-, g, -, hnone, -⟩ := FileSystem.fileAt_move hmove
        obtain rfl := FileSystem.eq_normalize_of_locate hlocate'
        rw [heq] at hp
        cases hnone.symm.trans hp
    | removed => cases hmoved
    | reports => cases hmoved
    | prints => cases hmoved

/-! ### What a step does to one job -/

/-- A job takes a step of its own, or stays as it is, or has just been submitted. -/
theorem getElem?_jobs_step {a : Action} (h : q.step s a = some s') {k : ℕ} {job : Job}
    (hk : s'.jobs[k]? = some job) :
    (∃ ja job₀ touched phase, a = .job k ja ∧ s.jobs[k]? = some job₀ ∧
        loadFile s.fs job₀ ja = some (s'.fs, touched, phase) ∧ job = { job₀ with phase := phase }) ∨
      (∀ ja, a ≠ .job k ja) ∧
        (s.jobs[k]? = some job ∨ s.jobs[k]? = none ∧ job.phase = .submitted) := by
  by_cases hjob : ∃ k' ja, a = .job k' ja
  · obtain ⟨k', ja, rfl⟩ := hjob
    obtain ⟨job₀, fs, touched, phase, hjob₀, hload, rfl⟩ := jobStep_eq_some h
    rcases getElem?_setPhase hjob₀ hk with ⟨hne, hold⟩ | ⟨rfl, rfl⟩
    · refine .inr ⟨?_, .inl hold⟩
      rintro ja' heq
      cases heq
      exact hne rfl
    · exact .inl ⟨ja, job₀, touched, phase, rfl, hjob₀, hload, rfl⟩
  · refine .inr ⟨fun ja heq => hjob ⟨k, ja, heq⟩, ?_⟩
    cases moves_of_step h with
    | leaves h => exact .inl (h.jobs ▸ hk)
    | submits hnamed hp hphase hnew hcreate h =>
        rw [h.jobs] at hk
        rcases getElem?_submit hk with hold | ⟨rfl, rfl⟩
        · exact .inl hold
        · exact .inr ⟨List.getElem?_eq_none (Nat.le_refl _), hphase⟩
    | loads h => exact absurd ⟨_, _, rfl⟩ hjob

theorem length_jobs_step {a : Action} (h : q.step s a = some s') :
    s.jobs.length ≤ s'.jobs.length := by
  cases moves_of_step h with
  | leaves h => exact Nat.le_of_eq (by rw [h.jobs])
  | submits hnamed hp hphase hnew hcreate h =>
      rw [h.jobs, Repo.submit, List.length_append]
      omega
  | loads h =>
      obtain ⟨job, fs, touched, phase, hjob, hload, rfl⟩ := jobStep_eq_some h
      exact Nat.le_of_eq List.length_set.symm

theorem loadFile_finished {fs : FileSystem} {job : Job} {result : JobResult}
    (h : job.phase = .finished result) (a : JobAction) : loadFile fs job a = none := by
  cases a <;> simp [loadFile, h]

/-- A job that has finished stays as it is. -/
theorem finished_step {a : Action} (h : q.step s a = some s') {k : ℕ} {job : Job}
    {result : JobResult} (hk : s.jobs[k]? = some job) (hfinished : job.phase = .finished result) :
    s'.jobs[k]? = some job := by
  have hlt : k < s'.jobs.length :=
    Nat.lt_of_lt_of_le (List.getElem?_eq_some_iff.mp hk).1 (length_jobs_step h)
  rcases getElem?_jobs_step h (List.getElem?_eq_getElem hlt) with
    ⟨ja, job₀, touched, phase, -, hk₀, hload, -⟩ | ⟨-, hold | ⟨hnone, -⟩⟩
  · cases hk.symm.trans hk₀
    rw [loadFile_finished hfinished] at hload
    cases hload
  · rw [List.getElem?_eq_getElem hlt, hk.symm.trans hold]
  · cases hk.symm.trans hnone

/-! ### What is in the error file -/

/-- The job has been given this stack trace to report. -/
def GivenTrace (k : ℕ) (as : List Action) (trace : List UInt8) : Prop :=
  trace ≠ [] ∧ ∃ now, .job k (.createErrorFile trace now) ∈ as

theorem GivenTrace.concat {k : ℕ} {as : List Action} {trace : List UInt8}
    (h : GivenTrace k as trace) (a : Action) : GivenTrace k (as ++ [a]) trace := by
  obtain ⟨hne, now, hmem⟩ := h
  exact ⟨hne, now, List.mem_append_left _ hmem⟩

/-- The error file that is being written holds what has been printed. -/
def Reports (k : ℕ) (as : List Action) (fs : FileSystem) (job : Job) : Prop :=
  match job.phase with
  | .reporting trace i printed =>
    fs.fileAt job.errorFile = some (i, trace.take printed) ∧ GivenTrace k as trace
  | _ => True

theorem LoadsBy.reports_step {fs fs' : FileSystem} {job : Job} {ja : JobAction}
    {touched : List (AccessKind × Path)} {phase : Phase} {k : ℕ} {as : List Action}
    (hload : LoadsBy fs job ja fs' touched phase) (hwf : fs.WellFormed)
    (hprints : ∀ n written now, ja = .printStackTrace n written now → written = n)
    (h : Reports k as fs job) :
    Reports k (as ++ [.job k ja]) fs' { job with phase := phase } := by
  cases hload with
  | @prints trace i printed n written now hphase hpos hn hwritten =>
      rw [Reports, hphase] at h
      obtain ⟨hfile, hgiven⟩ := h
      obtain rfl := hprints n written now rfl
      refine ⟨?_, hgiven.concat _⟩
      show (fs.append _ _ now).fileAt job.errorFile = _
      rw [FileSystem.fileAt_append, hfile, Option.map_some, if_pos rfl, List.take_add]
  | @reports trace p i fs' now hphase htrace hp hopen =>
      obtain rfl := FileSystem.eq_normalize_of_locate hp
      refine ⟨((FileSystem.fileAt_openWrite hwf hopen).1 _).trans (if_pos rfl), htrace, now, ?_⟩
      exact List.mem_append_right _ (List.mem_singleton_self _)
  | connects | connectFails | opened | notOpened | wrote | ends | throws | returns | closes
  | closeFails | renamed | notRenamed | removed | notRemoved | cannotReport | reported => trivial

/-- The response a job has been brought. -/
def broughtBody : Phase → Option (List UInt8)
  | .connected body => some body
  | .transferring body _ _ => some body
  | .returned body _ _ => some body
  | .copied body _ _ => some body
  | .finished (.moved body _) => some body
  | _ => none

theorem LoadsBy.broughtBody {fs fs' : FileSystem} {job : Job} {ja : JobAction}
    {touched : List (AccessKind × Path)} {phase : Phase} {body : List UInt8}
    (hload : LoadsBy fs job ja fs' touched phase) (h : broughtBody phase = some body) :
    QueryService.broughtBody job.phase = some body ∨ ja = .connect body := by
  cases hload with
  | connects body hphase =>
      cases h
      exact .inr rfl
  | opened hphase | wrote now hphase | ends hphase | returns hphase | closes hphase
  | renamed hphase => exact .inl (by rw [hphase]; exact h)
  | connectFails | notOpened | throws | closeFails | notRenamed | removed | notRemoved | reports
  | cannotReport | prints | reported => cases h

/-- The invariant of a run, for one job. -/
structure Tracks (k : ℕ) (as : List Action) (s : Repo) : Prop where
  keeping : Keeping s
  whole : ∀ job, s.jobs[k]? = some job → Whole job.phase
  reports : ∀ job, s.jobs[k]? = some job → Reports k as s.fs job
  brought : ∀ job body, s.jobs[k]? = some job → broughtBody job.phase = some body →
    .job k (.connect body) ∈ as

/-- Different jobs have different error files. -/
theorem Keeping.errorFile_ne (hs : Keeping s) {k k' : ℕ} {job job' : Job}
    (hk : s.jobs[k]? = some job) (hk' : s.jobs[k']? = some job') (hne : k ≠ k') :
    job.errorFile ≠ job'.errorFile := by
  intro heq
  have hnamed := hs.named hk
  have hnamed' := hs.named hk'
  refine hne (hs.distinct hk hk' ?_)
  rw [hnamed.errorFile_eq, hnamed'.errorFile_eq] at heq
  obtain ⟨hdir, hname⟩ := Job.eq_of_concat_eq heq
  have hlist := congrArg String.toList hname
  rw [String.toList_append, String.toList_append] at hlist
  have hsame : job.name = job'.name := String.toList_inj.mp (List.append_cancel_right hlist)
  rw [hnamed.file_eq, hnamed'.file_eq, hdir, hnamed.fileName_eq, hnamed'.fileName_eq, hsame]

/-- What others do leaves the error file of a job as it is. -/
theorem Keeping.errorFile_step (hs : Keeping s) {a : Action} (h : q.step s a = some s') {k : ℕ}
    (hother : ∀ ja, a ≠ .job k ja) {job : Job} (hk : s.jobs[k]? = some job)
    {f : ℕ × List UInt8} (hf : s.fs.fileAt job.errorFile = some f)
    (hnot : ¬ Deletes s a job.errorFile) : s'.fs.fileAt job.errorFile = some f := by
  by_cases hjob : ∃ k' ja, a = .job k' ja
  · obtain ⟨k', ja, rfl⟩ := hjob
    obtain ⟨job', fs, touched, phase, hjob', hload, rfl⟩ := jobStep_eq_some h
    have hne : k ≠ k' := by
      rintro rfl
      exact hother ja rfl
    exact (loads_of_loadFile hload).fileAt hs.wellFormed (hs.holds hjob') hf
      ((hs.named hk).errorFile_ne_file (hs.named hjob')) (hs.errorFile_ne hk hjob' hne)
  · exact fileAt_step hs h (fun k' ja heq => hjob ⟨k', ja, heq⟩) hf hnot

theorem tracks_start {fs : FileSystem} (hwf : fs.WellFormed) (k : ℕ) :
    Tracks k [] (.start fs) := by
  have hnone : ∀ {job : Job}, (Repo.start fs).jobs[k]? ≠ some job := by simp [Repo.start]
  exact ⟨keeping_start hwf, fun _ hk => absurd hk hnone, fun _ hk => absurd hk hnone,
    fun _ _ hk => absurd hk hnone⟩

theorem Tracks.step {k : ℕ} {as : List Action} (hs : Tracks k as s) {a : Action}
    (hallowed : Unhindered k s a) (h : q.step s a = some s') : Tracks k (as ++ [a]) s' := by
  refine ⟨hs.keeping.step h, ?_, ?_, ?_⟩
  · intro job hk
    rcases getElem?_jobs_step h hk with
      ⟨ja, job₀, touched, phase, rfl, hk₀, hload, rfl⟩ | ⟨-, hold | ⟨-, hphase⟩⟩
    · apply (loadsBy_of_loadFile hload).whole (hs.whole job₀ hk₀)
      rintro rfl body i written hphase
      exact hallowed.transfers job₀ body i written hk₀ rfl hphase
    · exact hs.whole job hold
    · rw [hphase]
      trivial
  · intro job hk
    rcases getElem?_jobs_step h hk with
      ⟨ja, job₀, touched, phase, rfl, hk₀, hload, rfl⟩ | ⟨hother, hold | ⟨hnone, hphase⟩⟩
    · apply (loadsBy_of_loadFile hload).reports_step hs.keeping.wellFormed
      · rintro n written now rfl
        exact hallowed.prints n written now rfl
      · exact hs.reports job₀ hk₀
    · have hreports := hs.reports job hold
      unfold Reports at hreports ⊢
      split at hreports
      · rename_i trace i printed hphase
        exact ⟨hs.keeping.errorFile_step h hother hold hreports.1
          (hallowed.undisturbed job trace i printed hold hphase), hreports.2.concat a⟩
      · trivial
    · rw [Reports, hphase]
      trivial
  · intro job body hk hbody
    rcases getElem?_jobs_step h hk with
      ⟨ja, job₀, touched, phase, rfl, hk₀, hload, rfl⟩ | ⟨-, hold | ⟨-, hphase⟩⟩
    · rcases (loadsBy_of_loadFile hload).broughtBody hbody with hbody₀ | rfl
      · exact List.mem_append_left _ (hs.brought job₀ body hk₀ hbody₀)
      · exact List.mem_append_right _ (List.mem_singleton_self _)
    · exact List.mem_append_left _ (hs.brought job body hold hbody)
    · rw [hphase] at hbody
      cases hbody

/-- What the path that a job returns leads to: the whole response it has been
brought, or the whole stack trace it has been given. -/
def NamesOutcome (k : ℕ) (as : List Action) (fs : FileSystem) (job : Job) (result : JobResult) :
    Prop :=
  ∃ i c, fs.fileAt (job.dir ++ [job.returnedName result]).normalize = some (i, c) ∧
    match result with
    | .errorFile => GivenTrace k as c
    | .moved body _ => c = body ∧ .job k (.connect body) ∈ as
    | .notMoved => False

theorem Tracks.finishes {k : ℕ} {as : List Action} (hs : Tracks k as s) {a : Action}
    (hallowed : Unhindered k s a) (h : q.step s a = some s') {job : Job} {result : JobResult}
    (hk : s'.jobs[k]? = some job) (hfinished : job.phase = .finished result)
    (hbusy : ∀ job₀, s.jobs[k]? = some job₀ → job₀.phase ≠ .finished result) :
    NamesOutcome k (as ++ [a]) s'.fs job result := by
  have hs' := hs.step hallowed h
  rcases getElem?_jobs_step h hk with
    ⟨ja, job₀, touched, phase, rfl, hk₀, hload, rfl⟩ | ⟨-, hold | ⟨-, hphase⟩⟩
  · obtain rfl : phase = .finished result := hfinished
    have hloads := loadsBy_of_loadFile hload
    generalize s'.fs = fs' at hloads ⊢
    -- the steps in which a job finishes, two of them only when hindered
    cases hloads with
    | @reported trace i printed hphase hall =>
        have hreports := hs.reports job₀ hk₀
        rw [Reports, hphase] at hreports
        obtain ⟨hfile, hgiven⟩ := hreports
        rw [hall, List.take_length] at hfile
        exact ⟨i, trace, hfile, hgiven.concat _⟩
    | @cannotReport trace now hphase hfails =>
        obtain ⟨p, o, hp, hopen⟩ := hallowed.reports job₀ trace now hk₀ rfl
        cases (hfails p hp).symm.trans hopen
    | @notRenamed body i written moved hphase hfails =>
        obtain ⟨hmoved, p, p', fs, hp, hp', hmove⟩ := hallowed.moves job₀ moved hk₀ rfl
        cases (hfails hmoved p p' hp hp').symm.trans hmove
    | @renamed body i written p p' fs' hphase hp hp' hmove =>
        obtain ⟨-, ⟨i', c⟩, hf, -, hfile⟩ := FileSystem.fileAt_move hmove
        obtain rfl := FileSystem.eq_normalize_of_locate hp
        obtain rfl := FileSystem.eq_normalize_of_locate hp'
        obtain ⟨-, rfl⟩ := (hs.keeping.holds hk₀).content (by rw [hphase]; rfl) hf
        -- all of the response has been written
        obtain rfl : written = body.length := hs'.whole _ hk
        refine ⟨i', body, ?_, rfl, hs'.brought _ body hk rfl⟩
        rw [hfile]
        exact (if_pos rfl).trans (by rw [List.take_length])
  · exact absurd hfinished (hbusy job hold)
  · cases hphase.symm.trans hfinished

/-! ### The answer -/

/-- A request that waits for a job waits for one that loads into its client's folder. -/
def AwaitsOwn (q : QueryService) (s : Repo) : Prop :=
  ∀ clientId k now, .awaitResult clientId k now ∈ s.tasks →
    ∃ job, s.jobs[k]? = some job ∧ q.repoRoot.resolve clientId = .ok job.dir

theorem Handles.mem_tasks {clientId : String} {k : ℕ} {now : ℤ} (h : Handles s s')
    (ht : .awaitResult clientId k now ∈ s'.tasks) : .awaitResult clientId k now ∈ s.tasks := by
  have hadded : ∀ {task : Task}, (∀ clientId k now, task ≠ .awaitResult clientId k now) →
      .awaitResult clientId k now ∈ s.tasks ++ [task] → .awaitResult clientId k now ∈ s.tasks := by
    intro task htask hmem
    rcases List.mem_append.mp hmem with hold | hnew
    · exact hold
    · exact absurd (List.mem_singleton.mp hnew).symm (htask clientId k now)
  cases h with
  | adds haccesses htask => exact hadded htask ht
  | createsFolder hcreate new htask => exact hadded htask ht

theorem mem_tasks_createTempFile {i : ℕ} {clientId' url : String} {async : Bool} {now' : ℤ}
    {random : ℕ} (h : q.createTempFile s i clientId' async url now' random = some s')
    {clientId : String} {k : ℕ} {now : ℤ} (ht : .awaitResult clientId k now ∈ s'.tasks) :
    .awaitResult clientId k now ∈ s.tasks ∨
      ∃ job, s'.jobs[k]? = some job ∧ q.repoRoot.resolve clientId = .ok job.dir := by
  have hset : ∀ task, task ≠ .awaitResult clientId k now →
      .awaitResult clientId k now ∈ s.tasks.set i task → .awaitResult clientId k now ∈ s.tasks := by
    intro task htask hmem
    rcases List.mem_or_eq_of_mem_set hmem with hold | heq
    · exact hold
    · exact absurd heq.symm htask
  simp only [createTempFile] at h
  split at h
  · cases h
    exact .inl (hset _ (by simp) ht)
  · rename_i dir hdir
    split at h
    · cases h
      exact .inl (hset _ (by simp) ht)
    · split at h
      · cases h
        exact .inl (hset _ (by simp) ht)
      · split at h
        · cases h
        · split at h
          · cases h
          · cases h
            rcases List.mem_or_eq_of_mem_set ht with hold | heq
            · exact .inl hold
            · cases async with
              | true => cases heq
              | false =>
                  cases heq
                  exact .inr ⟨_, List.getElem?_concat_length, hdir⟩

theorem Visits.tasks {visitor : Visitor} {v : Visit} (h : Visits s visitor v s') :
    s'.tasks = s.tasks := by
  cases h
  all_goals rfl

/-- A request comes to wait for a job only in `createTempFile`. -/
theorem mem_tasks_step {a : Action} (h : q.step s a = some s') {clientId : String} {k : ℕ} {now : ℤ}
    (ht : .awaitResult clientId k now ∈ s'.tasks) :
    .awaitResult clientId k now ∈ s.tasks ∨
      ∃ job, s'.jobs[k]? = some job ∧ q.repoRoot.resolve clientId = .ok job.dir := by
  have hset : ∀ i task, task ≠ .awaitResult clientId k now →
      .awaitResult clientId k now ∈ s.tasks.set i task → .awaitResult clientId k now ∈ s.tasks := by
    intro i task htask hmem
    rcases List.mem_or_eq_of_mem_set hmem with hold | heq
    · exact hold
    · exact absurd heq.symm htask
  cases steps_of_step h with
  | request r => exact .inl ((handles_handle q s r).mem_tasks ht)
  | replies _ i reply => exact .inl (hset i _ (by simp) ht)
  | creates htask h => exact mem_tasks_createTempFile h ht
  | deletes => exact .inl (hset _ _ (by simp) ht)
  | walks htask hnext =>
      rw [Repo.setTask, (visits_of_visitNext hnext).tasks] at ht
      exact .inl (hset _ _ (by simp) ht)
  | cleanUpRepoFolder now' => exact .inl (by simpa [cleanUpRepoFolder, Repo.addTask] using ht)
  | loads h =>
      obtain ⟨job, fs, touched, phase, hjob, hload, rfl⟩ := jobStep_eq_some h
      exact .inl ht

theorem AwaitsOwn.step (hs : AwaitsOwn q s) {a : Action} (h : q.step s a = some s') :
    AwaitsOwn q s' := by
  intro clientId k now ht
  rcases mem_tasks_step h ht with hold | hnew
  · obtain ⟨job, hk, hdir⟩ := hs clientId k now hold
    have hlt : k < s'.jobs.length :=
      Nat.lt_of_lt_of_le (List.getElem?_eq_some_iff.mp hk).1 (length_jobs_step h)
    refine ⟨_, List.getElem?_eq_getElem hlt, ?_⟩
    rcases getElem?_jobs_step h (List.getElem?_eq_getElem hlt) with
      ⟨ja, job₀, touched, phase, -, hk₀, -, hjob⟩ | ⟨-, hsame | ⟨hnone, -⟩⟩
    · cases hk.symm.trans hk₀
      rw [hjob]
      exact hdir
    · cases hk.symm.trans hsame
      exact hdir
    · cases hk.symm.trans hnone
  · exact hnew

end QueryService

/-- In every run in which nothing hinders a job: when it finishes, the path it
returns leads to a file that holds the whole response it has been brought,
or, after an exception, the whole stack trace of that. The answer to the
request that waits for it, whenever it comes, names that file in the folder
of the client, unless the thread that waits is interrupted. -/
theorem executeQuery_namesOutcome {q : QueryService} {fs : FileSystem} (hwf : fs.WellFormed)
    {k : ℕ} {as : List Action} {s : Repo}
    (h : RunsTo q.step (Unhindered k) (.start fs) as s) {a : Action} (hallowed : Unhindered k s a)
    {s' : Repo} (hstep : q.step s a = some s') {job : Job} {result : JobResult}
    (hk : s'.jobs[k]? = some job) (hfinished : job.phase = .finished result)
    (hbusy : ∀ job₀, s.jobs[k]? = some job₀ → job₀.phase ≠ .finished result) :
    QueryService.NamesOutcome k (as ++ [a]) s'.fs job result ∧
      ∀ s₁, ReachedBy q.step (fun _ _ => True) s' s₁ → ∀ i clientId now,
        s₁.tasks[i]? = some (.awaitResult clientId k now) →
        q.repoRoot.resolve clientId = .ok job.dir ∧
          ∃ s₂, q.step s₁ (.awaitResult i false) = some s₂ ∧
            s₂.tasks[i]? = some (.replied (.repoFile
              (QueryService.newRepoFile clientId (job.returnedName result) now))) := by
  have htracks : QueryService.Tracks k as s :=
    h.invariant (QueryService.tracks_start hwf k) fun _ _ _ _ hallowed hstep hs =>
      hs.step hallowed hstep
  refine ⟨htracks.finishes hallowed hstep hk hfinished hbusy, ?_⟩
  intro s₁ hlater i clientId now htask
  have hstill : s₁.jobs[k]? = some job :=
    hlater.invariant hk fun _ _ _ _ hstep hjob => QueryService.finished_step hstep hjob hfinished
  have hawaits : QueryService.AwaitsOwn q s₁ := by
    refine hlater.invariant (QueryService.AwaitsOwn.step ?_ hstep) fun _ _ _ _ hstep hs =>
      hs.step hstep
    refine h.reachedBy.invariant ?_ fun _ _ _ _ hstep hs => hs.step hstep
    intro clientId k now hmem
    cases hmem
  obtain ⟨job₁, hk₁, hdir⟩ := hawaits clientId k now (List.mem_of_getElem? htask)
  cases hstill.symm.trans hk₁
  refine ⟨hdir, ?_⟩
  have hlt : i < s₁.tasks.length := (List.getElem?_eq_some_iff.mp htask).1
  simp only [QueryService.step, htask, QueryService.awaitResult, hstill, hfinished]
  refine ⟨_, rfl, (List.getElem?_set_self hlt).trans ?_⟩
  cases result <;> rfl

/-- A client makes a query and waits, and the response has arrived. -/
def waits : List Action :=
  [.request (.executeQuery "bob" false "table"), .createTempFile 0 5 42,
    .job 0 (.connect [1, 2]), .job 0 (.createFile 6), .job 0 (.transfer 2 7), .job 0 .endOfBody,
    .job 0 (.close true)]

theorem step_after {actions : List Action} {a : Action}
    (h : ((actions ++ [a]).foldlM downloader.step (.start emptyFolder)).isSome = true) :
    downloader.step (after actions) a = some (after (actions ++ [a])) := by
  have hlast := foldlM_eq_after h
  rw [List.foldlM_append] at hlast
  obtain ⟨s, hs, hstep⟩ := Option.bind_eq_some_iff.mp hlast
  have hbefore : s = after actions := by
    unfold after
    rw [hs]
    rfl
  rw [← hbefore]
  exact (Option.bind_eq_some_iff.mp hstep).elim fun _ h => h.2 ▸ h.1

/-- The file is renamed, and has the name that is answered. -/
theorem executeQuery_namesOutcome_waits :
    ∃ job i, (after (waits ++ [.job 0 (.move true)])).jobs[0]? = some job ∧
      (after (waits ++ [.job 0 (.move true)])).fs.fileAt
        (Path.normalize (job.dir ++ [job.returnedName (.moved [1, 2] 2)])) = some (i, [1, 2]) := by
  have hwaits : RunsTo downloader.step (Unhindered 0) (.start emptyFolder) ([] ++ waits)
      (after waits) := by
    refine RunsTo.start.steps (fun a ha s => ?_) (foldlM_eq_after (by decide +kernel))
    refine ⟨?_, ?_, ?_, ?_, ?_⟩ <;> revert a <;> simp [waits, Deletes]
  have hmove : ∀ j ∈ (after waits).jobs, ∃ p p' fs, (after waits).fs.locate j.path = some p ∧
      (after waits).fs.locate j.resultPath = some p' ∧ (after waits).fs.move p p' = some fs := by
    intro j hj
    have hmoves : ∀ j ∈ (after waits).jobs, (((after waits).fs.locate j.path).bind fun p =>
        ((after waits).fs.locate j.resultPath).bind fun p' =>
          (after waits).fs.move p p').isSome = true := by decide +kernel
    obtain ⟨fs, hfs⟩ := Option.isSome_iff_exists.mp (hmoves j hj)
    obtain ⟨p, hp, hfs⟩ := Option.bind_eq_some_iff.mp hfs
    obtain ⟨p', hp', hfs⟩ := Option.bind_eq_some_iff.mp hfs
    exact ⟨p, p', fs, hp, hp', hfs⟩
  have hlast : Unhindered 0 (after waits) (.job 0 (.move true)) := by
    refine ⟨by simp, fun job moved hk heq => ?_, by simp, by simp, by simp [Deletes]⟩
    cases heq
    exact ⟨rfl, hmove job (List.mem_of_getElem? hk)⟩
  obtain ⟨job, hk⟩ : ∃ job, (after (waits ++ [.job 0 (.move true)])).jobs[0]? = some job :=
    Option.isSome_iff_exists.mp (by decide +kernel)
  have hphases : ∀ j ∈ (after (waits ++ [.job 0 (.move true)])).jobs,
      j.phase.moved = some ([1, 2], 2) := by decide +kernel
  have hbusy : ∀ j ∈ (after waits).jobs, j.phase.moved = none := by decide +kernel
  have hfinished : job.phase = .finished (.moved [1, 2] 2) := by
    have hmoved := hphases job (List.mem_of_getElem? hk)
    unfold Phase.moved at hmoved
    split at hmoved
    · rename_i heq
      cases hmoved
      exact heq
    · cases hmoved
  obtain ⟨⟨i, c, hfile, rfl, -⟩, -⟩ := executeQuery_namesOutcome emptyFolder_wellFormed hwaits hlast
    (step_after (by decide +kernel)) hk hfinished fun job₀ hk₀ hphase => by
      have hnone := hbusy job₀ (List.mem_of_getElem? hk₀)
      rw [hphase] at hnone
      cases hnone
  exact ⟨job, i, hk, hfile⟩

/-- The file is not renamed, and what the answer names does not exist. -/
theorem executeQuery_renameFails :
    let s := after (waits ++ [.job 0 (.move false)])
    ReachedBy downloader.step (fun _ _ => True) (.start emptyFolder) s ∧
      (∃ job, s.jobs[0]? = some job ∧ job.phase = .finished .notMoved) ∧
      s.fs.fileAt ["repo", "bob", "01-31 120000 42.csv"] = none ∧
      ∃ s₂, downloader.step s (.awaitResult 0 false) = some s₂ ∧
        s₂.tasks[0]? = some (.replied (.repoFile
          { name := "01-31 120000 42.csv", path := "bob/01-31 120000 42.csv", updated := some 5
            size := some 0 })) := by
  intro s
  refine ⟨ReachedBy.start.steps (fun _ _ _ => trivial) (foldlM_eq_after (by decide +kernel)), ?_,
    by decide +kernel, ?_⟩
  · exact ⟨_, rfl, rfl⟩
  · exact ⟨_, rfl, rfl⟩

/-- Nothing gets into the error file, and the job ends as ever. -/
example :
    let s := after (waits.take 2 ++ [.job 0 .connectFails, .job 0 (.deleteOldFile true),
      .job 0 (.createErrorFile [7] 6), .job 0 (.printStackTrace 1 0 7), .job 0 .closeErrorFile])
    s.fs.fileAt ["repo", "bob", "01-31 120000 42.csv.err.txt"] = some (1, []) := by
  decide +kernel

/-- The thread that waits is interrupted before the file is renamed, and what it
has named is gone. -/
example :
    let s := after (waits ++ [.awaitResult 0 true, .job 0 (.move true)])
    s.tasks[0]? = some (.replied (.repoFile
        (QueryService.newRepoFile "bob" "01-31 120000 42.csv.download" 5))) ∧
      s.fs.fileAt ["repo", "bob", "01-31 120000 42.csv.download"] = none :=
  ⟨rfl, by decide +kernel⟩

end AisStore
