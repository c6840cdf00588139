import AisStore.DownloadNames

/-!
That a file shown as complete is complete.

Every name without the suffix `.download` should stand for the whole response
of a job that ended well. The weak point is the number that `transferFrom`
returns. When it returns early because the connection has failed, the job
goes on as if it had all, and what it renames is what it has
(`completeFile_isFull_breaksOff`). `completeFile_isFull` is about the runs in
which that does not happen.
-/

namespace AisStore

open Lib

/-- The step is a return of `transferFrom` before the end of the response. -/
def CutsShort (s : Repo) : Action → Prop
  | .job k (.connectionFails false) => ∃ job body i written, s.jobs[k]? = some job ∧
      job.phase = .transferring body i written ∧ written < body.length
  | _ => False

namespace QueryService

variable {q : QueryService} {s s' : Repo}

/-! ### How much is written -/

/-- No more of a response is written than there is, and where `transferFrom`
has returned, it is all there. -/
def Whole : Phase → Prop
  | .transferring body _ written => written ≤ body.length
  | .returned body _ written => written = body.length
  | .copied body _ written => written = body.length
  | .finished (.moved body written) => written = body.length
  | _ => True

theorem LoadsBy.whole {fs fs' : FileSystem} {job : Job} {a : JobAction}
    {touched : List (AccessKind × Path)} {phase : Phase}
    (h : LoadsBy fs job a fs' touched phase) (hwhole : Whole job.phase)
    (huncut : a = .connectionFails false → ∀ body i written,
      job.phase = .transferring body i written → ¬ written < body.length) : Whole phase := by
  cases h with
  | opened => exact Nat.zero_le _
  | wrote now hphase hpos hn => exact hn
  | ends hphase hall => exact hall
  | @returns body i written hphase =>
      have hnotShort := huncut rfl body i written hphase
      rw [hphase] at hwhole
      exact Nat.le_antisymm hwhole (Nat.le_of_not_lt hnotShort)
  | closes hphase =>
      rw [hphase] at hwhole
      exact hwhole
  | renamed hphase =>
      rw [hphase] at hwhole
      exact hwhole
  | _ => trivial

/-- In every job, what is written is a whole response where it should be. -/
theorem whole_step {a : Action} (hcut : ¬ CutsShort s a) (h : q.step s a = some s')
    (hs : ∀ job ∈ s.jobs, Whole job.phase) : ∀ job ∈ s'.jobs, Whole job.phase := by
  cases moves_of_step h with
  | leaves h =>
      rw [h.jobs]
      exact hs
  | submits hnamed hp hphase hnew hcreate h =>
      rw [h.jobs]
      intro job hjob
      rcases List.mem_append.mp hjob with hold | hnew
      · exact hs job hold
      · rw [List.mem_singleton.mp hnew, hphase]
        trivial
  | @loads k a _ h =>
      obtain ⟨job, fs, touched, phase, hjob, hload, rfl⟩ := jobStep_eq_some h
      intro j hj
      rcases List.mem_or_eq_of_mem_set hj with hold | rfl
      · exact hs j hold
      · apply (loadsBy_of_loadFile hload).whole (hs job (List.mem_of_getElem? hjob))
        rintro rfl body i written hphase hshort
        exact hcut ⟨job, body, i, written, hjob, hphase, hshort⟩

/-! ### Complete files -/

/-- The job has loaded all of this response and renamed the file. -/
def Delivered (job : Job) (body : List UInt8) : Prop := job.phase.moved = some (body, body.length)

/-- A result in the repository is the whole response of one job. -/
structure IsFull (s : Repo) (p : Path) (k : ℕ) (body : List UInt8) : Prop where
  content : ∃ i, s.fs.fileAt p = some (i, body)
  delivered : ∃ job, s.jobs[k]? = some job ∧ job.resultFile = p ∧ Delivered job body
  only : ∀ k' job body', s.jobs[k']? = some job → job.resultFile = p → Delivered job body' → k' = k

namespace Orderly

/-- Jobs with one result are one. -/
theorem eq_of_resultFile_eq (hs : q.Orderly s) {k k' : ℕ} {job job' : Job}
    (hk : s.jobs[k]? = some job) (hk' : s.jobs[k']? = some job')
    (h : job.resultFile = job'.resultFile) : k = k' :=
  hs.distinct hk hk' ((hs.named hk).file_eq_of_resultFile_eq (hs.named hk') h)

theorem exists_isFull (hs : q.Orderly s) (hwhole : ∀ job ∈ s.jobs, Whole job.phase) {p : Path}
    (hresult : IsResult p) (hinside : p.StrictlyInside q.repoRoot.normalize)
    (hfile : s.fs.IsFile p) : ∃ k body, IsFull s p k body := by
  obtain ⟨⟨i, c⟩, hcontent⟩ := hfile.exists_fileAt
  obtain ⟨k, job, body, written, hk, hmoved, rfl, htake⟩ := hs.results hresult hinside hcontent
  have hall : written = body.length := by
    have hphase := hwhole job (List.mem_of_getElem? hk)
    unfold Phase.moved at hmoved
    split at hmoved
    · rename_i heq
      cases hmoved
      rw [heq] at hphase
      exact hphase
    · cases hmoved
  subst hall
  rw [List.take_length] at htake
  refine ⟨k, body, ⟨i, htake ▸ hcontent⟩, ⟨job, hk, rfl, hmoved⟩, ?_⟩
  intro k' job' body' hk' heq _
  exact hs.eq_of_resultFile_eq hk' hk heq

/-- What is under the name of a delivered result is that, at all times. -/
theorem content_eq (hs : q.Orderly s) {p : Path} {k i : ℕ} {job : Job} {body c : List UInt8}
    (hk : s.jobs[k]? = some job) (hdelivered : Delivered job body) (hp : job.resultFile = p)
    (hresult : IsResult p) (hinside : p.StrictlyInside q.repoRoot.normalize)
    (hfile : s.fs.fileAt p = some (i, c)) : c = body := by
  obtain ⟨k', job', body', written, hk', hmoved, hp', rfl⟩ := hs.results hresult hinside hfile
  obtain rfl := hs.eq_of_resultFile_eq hk hk' (hp.trans hp'.symm)
  cases hk.symm.trans hk'
  cases hdelivered.symm.trans hmoved
  exact List.take_length

end Orderly

/-- In every run in which `transferFrom` does not return before the end of the
response, a file in the repository that is shown as complete, and is not an
error file, holds the whole response of one job that has ended well. Whatever
happens after that, it holds that or is gone. -/
theorem completeFile_isFull {fs : FileSystem} (hwf : fs.WellFormed)
    (hempty : ∀ p, p.StrictlyInside q.repoRoot.normalize → ¬ fs.IsFile p)
    (h : ReachedBy q.step (fun s a => ¬ CutsShort s a) (.start fs) s) {clientId : String}
    {files : List (Path × RepoFile)} (hlist : q.listFiles s.fs clientId = .ok files) {p : Path}
    {vo : RepoFile} (hmem : (p, vo) ∈ files) (hinside : p.StrictlyInside q.repoRoot.normalize)
    (hcomplete : vo.complete = true) (herror : endsWith vo.name errorSuffix = false) :
    ∃ k body, IsFull s p k body ∧
      ∀ s', ReachedBy q.step (fun _ _ => True) s s' →
        ∀ i c, s'.fs.fileAt p = some (i, c) → c = body := by
  obtain ⟨hs, -⟩ := (Orderly.start hwf hempty).reachedBy h
  have hwhole : ∀ job ∈ s.jobs, Whole job.phase :=
    h.invariant (by simp [Repo.start]) fun _ _ _ hcut hstep hs => whole_step hcut hstep hs
  obtain ⟨folder, -, hpath, hfile, hshown⟩ := mem_listFiles hlist hmem
  have hresult : IsResult p := by
    refine ⟨folder.normalize, vo.name, hpath, ?_, herror⟩
    rw [hcomplete] at hshown
    exact Bool.not_eq_true' _ |>.mp hshown.symm
  obtain ⟨k, body, hfull⟩ := hs.exists_isFull hwhole hresult hinside hfile
  refine ⟨k, body, hfull, ?_⟩
  intro s' hlater i c hp
  obtain ⟨job, hk, heq, hdelivered⟩ := hfull.delivered
  obtain ⟨hs', hkept⟩ := hs.reachedBy hlater
  have hstill := hkept k job hk (by rw [hdelivered]; simp)
  exact hs'.content_eq hstill hdelivered heq hresult hinside hp

end QueryService

/-- The folder of a client, with nothing in it. -/
def emptyFolder : FileSystem where
  entries := ([⟨[], .directory⟩, ⟨["repo"], .directory⟩, ⟨["repo", "bob"], .directory⟩] :
    List (Σ _ : Path, DirEntry)).toAList
  data := fun _ => ⟨[], 0⟩
  nextInode := 0

theorem emptyFolder_not_isFile (p : Path) : ¬ emptyFolder.IsFile p := by
  have hentries : ∀ e ∈ emptyFolder.entries.entries, e.2 = .directory := by decide
  rintro ⟨i, hi⟩
  cases hentries _ (AList.mem_lookup_iff.mp hi)

theorem emptyFolder_wellFormed : emptyFolder.WellFormed := by
  constructor
  · intro p i c hp
    exact absurd (FileSystem.isFile_of_fileAt hp) (emptyFolder_not_isFile p)
  · intro p q i c d hp _
    exact absurd (FileSystem.isFile_of_fileAt hp) (emptyFolder_not_isFile p)

/-- A client makes a query, and its file is open for a response of two bytes. -/
def opened : List Action :=
  [.request (.executeQuery "bob" true "table"), .createTempFile 0 5 42,
    .job 0 (.connect [1, 2]), .job 0 (.createFile 6)]

/-- The response arrives. -/
def arrives : List Action :=
  opened ++ [.job 0 (.transfer 2 7), .job 0 .endOfBody, .job 0 (.close true), .job 0 (.move true)]

/-- The connection fails after the first byte, and `transferFrom` returns. -/
def breaksOff : List Action :=
  opened ++ [.job 0 (.transfer 1 7), .job 0 (.connectionFails false), .job 0 (.close true),
    .job 0 (.move true)]

/-- The state after these actions. -/
def after (actions : List Action) : Repo :=
  (actions.foldlM downloader.step (.start emptyFolder)).getD (.start emptyFolder)

theorem foldlM_eq_after {actions : List Action}
    (h : (actions.foldlM downloader.step (.start emptyFolder)).isSome = true) :
    actions.foldlM downloader.step (.start emptyFolder) = some (after actions) := by
  obtain ⟨s, hs⟩ := Option.isSome_iff_exists.mp h
  unfold after
  rw [hs]
  rfl

/-- The file of the client, as it is listed when so many bytes are in it. -/
def csvFile (size : ℤ) : Path × RepoFile :=
  (["repo", "bob", "01-31 120000 42.csv"],
    { name := "01-31 120000 42.csv", path := "bob/01-31 120000 42.csv", updated := some 7
      size := some size, complete := true })

/-- A response that has arrived is shown as complete, and is. -/
theorem completeFile_isFull_arrives :
    downloader.listFiles (after arrives).fs "bob" = .ok [csvFile 2] ∧
      ∃ k body, QueryService.IsFull (after arrives) (csvFile 2).1 k body ∧
        ∀ s', ReachedBy downloader.step (fun _ _ => True) (after arrives) s' →
          ∀ i c, s'.fs.fileAt (csvFile 2).1 = some (i, c) → c = body := by
  have huncut : ∀ a ∈ arrives, ∀ s, ¬ CutsShort s a := by simp [arrives, opened, CutsShort]
  have hreached : ReachedBy downloader.step (fun s a => ¬ CutsShort s a) (.start emptyFolder)
      (after arrives) := ReachedBy.start.steps huncut (foldlM_eq_after (by decide +kernel))
  have hlist : downloader.listFiles (after arrives).fs "bob" = .ok [csvFile 2] := by decide +kernel
  refine ⟨hlist, ?_⟩
  exact QueryService.completeFile_isFull emptyFolder_wellFormed
    (fun p _ => emptyFolder_not_isFile p) hreached hlist (List.mem_singleton_self _)
    ⟨["bob", "01-31 120000 42.csv"], List.cons_ne_nil _ _, rfl⟩ rfl (by decide)

/-- A response of which the first byte has arrived is shown as complete. -/
theorem completeFile_isFull_breaksOff :
    ReachedBy downloader.step (fun _ _ => True) (.start emptyFolder) (after breaksOff) ∧
      downloader.listFiles (after breaksOff).fs "bob" = .ok [csvFile 1] ∧
      (after breaksOff).fs.fileAt (csvFile 1).1 = some (0, [1]) ∧
      ¬ ∃ k body, QueryService.IsFull (after breaksOff) (csvFile 1).1 k body := by
  have hreached : ReachedBy downloader.step (fun _ _ => True) (.start emptyFolder)
      (after breaksOff) :=
    ReachedBy.start.steps (fun _ _ _ => trivial) (foldlM_eq_after (by decide +kernel))
  refine ⟨hreached, by decide +kernel, by decide +kernel, ?_⟩
  rintro ⟨k, body, hfull⟩
  obtain ⟨job, hk, -, hdelivered⟩ := hfull.delivered
  have hmoved : ∀ j ∈ (after breaksOff).jobs, j.phase.moved = some ([1, 2], 1) := by decide +kernel
  cases hdelivered.symm.trans (hmoved job (List.mem_of_getElem? hk))

end AisStore
