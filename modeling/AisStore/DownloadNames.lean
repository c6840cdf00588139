import AisStore.DownloaderSteps

/-!
The names that jobs load files under.

A job loads under a name that ends in `.download` and renames the file when
it has been loaded, and `createTempFile` gives each job a name of its own.
`Orderly` is the invariant of this protocol. It knows how much of its
response each job has written, and it holds in every run (`Orderly.step`),
whatever connections, requests and clean-ups do: what is still being written
is under the name of its job only, and every other file in the repository is
an error file or what one job has renamed.
-/

namespace AisStore

open Lib

/-- A path whose name is neither that of a download in progress nor of an error file. -/
def IsResult (p : Path) : Prop :=
  ∃ folder name, p = folder ++ [name] ∧ endsWith name downloadSuffix = false ∧
    endsWith name errorSuffix = false

/-! ### The files of a job -/

theorem endsWith_append (s ending : String) : endsWith (s ++ ending) ending = true := by
  unfold endsWith
  rw [String.toList_append]
  exact decide_eq_true (List.suffix_append ..)

/-- Two endings of one name overlap. -/
theorem endsWith_of_endsWith {s a b : String} (ha : endsWith s a = true)
    (hb : endsWith s b = true) : endsWith a b = true ∨ endsWith b a = true := by
  rcases List.suffix_or_suffix_of_suffix (of_decide_eq_true ha) (of_decide_eq_true hb) with h | h
  · exact .inr (decide_eq_true h)
  · exact .inl (decide_eq_true h)

namespace Job

def file (job : Job) : Path := job.path.normalize

def resultFile (job : Job) : Path := job.resultPath.normalize

def errorFile (job : Job) : Path := job.errorPath.normalize

variable {job job' : Job}

theorem Named.file_eq (h : job.Named) : job.file = job.dir.normalize ++ [job.fileName] := by
  unfold file path
  rw [Path.normalize_concat, Path.enter_name h.isName_fileName]

theorem Named.resultFile_eq (h : job.Named) :
    job.resultFile = job.dir.normalize ++ [job.name] := by
  unfold resultFile resultPath
  rw [Path.normalize_concat, Path.enter_name h.isName_name]

theorem Named.errorFile_eq (h : job.Named) :
    job.errorFile = job.dir.normalize ++ [job.name ++ errorSuffix] := by
  unfold errorFile errorPath
  rw [Path.normalize_concat, Path.enter_name h.isName_errorName]

theorem Named.endsWith_fileName (h : job.Named) : endsWith job.fileName downloadSuffix = true := by
  rw [h.fileName_eq]
  exact endsWith_append ..

/-- A result does not look like a download in progress. -/
theorem Named.endsWith_name (h : job.Named) : endsWith job.name downloadSuffix = false := by
  obtain ⟨stem, url, heq⟩ := h.exists_fileType
  have hno : ∀ t ∈ [".kml", ".html", ".csv", ".json", ".txt"],
      ¬ (endsWith t downloadSuffix = true ∨ endsWith downloadSuffix t = true) := by decide
  rw [Bool.eq_false_iff, heq]
  intro hends
  exact hno _ (fileType_mem url) (endsWith_of_endsWith (endsWith_append stem (fileType url)) hends)

theorem eq_of_concat_eq {p q : Path} {c d : String} (h : p ++ [c] = q ++ [d]) : p = q ∧ c = d := by
  obtain ⟨hp, hc⟩ := List.append_inj' h rfl
  exact ⟨hp, (List.cons.inj hc).1⟩

theorem Named.ne_file (h : job.Named) {p : Path} (hp : IsResult p) : p ≠ job.file := by
  obtain ⟨folder, name, rfl, hdownload, -⟩ := hp
  rw [h.file_eq]
  intro heq
  obtain ⟨-, rfl⟩ := eq_of_concat_eq heq
  exact absurd h.endsWith_fileName (by rw [hdownload]; exact Bool.false_ne_true)

theorem Named.ne_errorFile (h : job.Named) {p : Path} (hp : IsResult p) : p ≠ job.errorFile := by
  obtain ⟨folder, name, rfl, -, herror⟩ := hp
  rw [h.errorFile_eq]
  intro heq
  obtain ⟨-, rfl⟩ := eq_of_concat_eq heq
  exact absurd (endsWith_append job.name errorSuffix) (by rw [herror]; exact Bool.false_ne_true)

theorem Named.errorFile_ne_file (h : job.Named) (h' : job'.Named) : job.errorFile ≠ job'.file := by
  rw [h.errorFile_eq, h'.file_eq]
  intro heq
  obtain ⟨-, hname⟩ := eq_of_concat_eq heq
  have hends := h'.endsWith_fileName
  rw [← hname] at hends
  have hno : ¬ (endsWith errorSuffix downloadSuffix = true ∨
      endsWith downloadSuffix errorSuffix = true) := by decide
  exact hno (endsWith_of_endsWith (endsWith_append job.name errorSuffix) hends)

theorem Named.resultFile_ne_file (h : job.Named) (h' : job'.Named) :
    job.resultFile ≠ job'.file := by
  rw [h.resultFile_eq, h'.file_eq]
  intro heq
  obtain ⟨-, hname⟩ := eq_of_concat_eq heq
  have hends := h'.endsWith_fileName
  rw [← hname, h.endsWith_name] at hends
  cases hends

/-- Jobs with one result have one file. -/
theorem Named.file_eq_of_resultFile_eq (h : job.Named) (h' : job'.Named)
    (heq : job.resultFile = job'.resultFile) : job.file = job'.file := by
  rw [h.resultFile_eq, h'.resultFile_eq] at heq
  obtain ⟨hdir, hname⟩ := eq_of_concat_eq heq
  rw [h.file_eq, h'.file_eq, hdir, h.fileName_eq, h'.fileName_eq, hname]

/-! ### What a job knows of its files -/

/-- While a job has its download, no other path leads to it, and its path
leads to nothing else than what the job has written. Of the error file only
the first matters. -/
structure Holds (fs : FileSystem) (job : Job) : Prop where
  held : ∀ {body : List UInt8} {i written : ℕ}, job.phase.held = some (body, i, written) →
    fs.OnlyAt i job.file
  content : ∀ {body : List UInt8} {i written i' : ℕ} {c : List UInt8},
    job.phase.held = some (body, i, written) → fs.fileAt job.file = some (i', c) →
      i' = i ∧ c = body.take written
  reported : ∀ {i : ℕ}, job.phase.reported = some i → fs.OnlyAt i job.errorFile

/-- A job without an open file. -/
theorem Holds.idle {fs : FileSystem} (hheld : job.phase.held = none)
    (hreported : job.phase.reported = none) : job.Holds fs := by
  refine ⟨?_, ?_, ?_⟩
  · intro body i written heq
    cases hheld.symm.trans heq
  · intro body i written i' c heq
    cases hheld.symm.trans heq
  · intro i heq
    cases hreported.symm.trans heq

/-- What others do to files leaves that alone: no other path leads to the
files of the job, and its download stays as it is or is removed. -/
theorem Holds.mono {fs fs' : FileSystem} (h : job.Holds fs)
    (honly : ∀ i p, p = job.file ∨ p = job.errorFile → fs.OnlyAt i p → fs'.OnlyAt i p)
    (hown : fs'.fileAt job.file = fs.fileAt job.file ∨ fs'.fileAt job.file = none) :
    job.Holds fs' := by
  refine ⟨?_, ?_, ?_⟩
  · exact fun hheld => honly _ _ (.inl rfl) (h.held hheld)
  · intro body i written i' c hheld hc
    rcases hown with hsame | hgone
    · exact h.content hheld (hsame.symm.trans hc)
    · cases hgone.symm.trans hc
  · exact fun hreported => honly _ _ (.inr rfl) (h.reported hreported)

end Job

namespace QueryService

/-! ### The invariant -/

/-- What jobs have to do with files, whatever else is in the repository. -/
structure Keeping (s : Repo) : Prop where
  wellFormed : s.fs.WellFormed
  named : ∀ {k : ℕ} {job : Job}, s.jobs[k]? = some job → job.Named
  used : ∀ {k : ℕ} {job : Job}, s.jobs[k]? = some job → job.file ∈ s.used
  /-- No two jobs have the same file. -/
  distinct : ∀ {k k' : ℕ} {job job' : Job}, s.jobs[k]? = some job → s.jobs[k']? = some job' →
    job.file = job'.file → k = k'
  holds : ∀ {k : ℕ} {job : Job}, s.jobs[k]? = some job → job.Holds s.fs

structure Orderly (q : QueryService) (s : Repo) : Prop extends Keeping s where
  /-- A result in the repository is what a job has renamed. -/
  results : ∀ {p : Path} {i : ℕ} {c : List UInt8}, IsResult p →
    p.StrictlyInside q.repoRoot.normalize → s.fs.fileAt p = some (i, c) →
    ∃ (k : ℕ) (job : Job) (body : List UInt8) (written : ℕ), s.jobs[k]? = some job ∧
      job.phase.moved = some (body, written) ∧ job.resultFile = p ∧ c = body.take written

/-- A job that has renamed its file is over. -/
def KeepsMoved (s s' : Repo) : Prop :=
  ∀ (k : ℕ) (job : Job), s.jobs[k]? = some job → job.phase.moved ≠ none → s'.jobs[k]? = some job

/-- The step removes files at most, and has nothing to do with jobs. -/
structure Leaves (s s' : Repo) : Prop where
  shrinks : s.fs.Shrinks s'.fs
  jobs : s'.jobs = s.jobs
  used : s'.used = s.used

variable {q : QueryService} {s s' : Repo}

theorem KeepsMoved.trans {s'' : Repo} (h : KeepsMoved s s') (h' : KeepsMoved s' s'') :
    KeepsMoved s s'' := fun k job hk hmoved => h' k job (h k job hk hmoved) hmoved

theorem Leaves.quiet (hfs : s'.fs = s.fs) (hjobs : s'.jobs = s.jobs) (hused : s'.used = s.used) :
    Leaves s s' := by
  refine ⟨?_, hjobs, hused⟩
  rw [hfs]
  exact .refl s.fs

/-- The job in some place after a new one has been submitted. -/
theorem getElem?_submit {k : ℕ} {job job' : Job} (hk : (s.jobs ++ [job])[k]? = some job') :
    s.jobs[k]? = some job' ∨ k = s.jobs.length ∧ job' = job := by
  rw [List.getElem?_append] at hk
  split at hk
  · exact .inl hk
  · rename_i hle
    obtain ⟨hindex, heq⟩ := List.getElem?_eq_some_iff.mp hk
    rw [List.length_singleton] at hindex
    rw [List.getElem_singleton] at heq
    exact .inr ⟨by omega, heq.symm⟩

namespace Keeping

theorem leaves (hs : Keeping s) (h : Leaves s s') : Keeping s' := by
  obtain ⟨hshrinks, hjobs, hused⟩ := h
  refine ⟨hshrinks.wellFormed hs.wellFormed, ?_, ?_, ?_, ?_⟩
  · rw [hjobs]
    exact hs.named
  · rw [hjobs, hused]
    exact hs.used
  · rw [hjobs]
    exact hs.distinct
  · rw [hjobs]
    exact fun hjob => (hs.holds hjob).mono (fun _ _ _ h => h.shrinks hshrinks) (hshrinks.files _)

/-- A new job, with a new file for it. -/
theorem submit (hs : Keeping s) {p : Path} {now : ℤ} {inode : ℕ} {fs : FileSystem} {job : Job}
    (hnamed : job.Named) (hp : job.file = p) (hphase : job.phase = .submitted) (hnew : p ∉ s.used)
    (hcreate : s.fs.createNew p now = some (inode, fs)) : Keeping (s.submit fs p job) := by
  obtain ⟨-, -, -, hfiles⟩ := FileSystem.fileAt_createNew hs.wellFormed hcreate
  subst hp
  refine ⟨hs.wellFormed.createNew hcreate, ?_, ?_, ?_, ?_⟩
  · intro k job' hk
    rcases getElem?_submit hk with hold | ⟨-, rfl⟩
    · exact hs.named hold
    · exact hnamed
  · intro k job' hk
    rcases getElem?_submit hk with hold | ⟨-, rfl⟩
    · exact List.mem_cons_of_mem _ (hs.used hold)
    · exact List.mem_cons_self ..
  · intro k k' j j' hk hk' heq
    rcases getElem?_submit hk with hold | ⟨rfl, rfl⟩ <;>
      rcases getElem?_submit hk' with hold' | ⟨rfl, rfl⟩
    · exact hs.distinct hold hold' heq
    · exact absurd (heq ▸ hs.used hold) hnew
    · exact absurd (heq ▸ hs.used hold') hnew
    · rfl
  · intro k job' hk
    rcases getElem?_submit hk with hold | ⟨-, rfl⟩
    · have hne : job'.file ≠ job.file := fun heq => hnew (heq ▸ hs.used hold)
      exact (hs.holds hold).mono (fun _ _ _ h => h.createNew hs.wellFormed hcreate)
        (.inl ((hfiles _).trans (if_neg hne)))
    · exact .idle (by rw [hphase]; rfl) (by rw [hphase]; rfl)

end Keeping

namespace Orderly

theorem leaves (hs : q.Orderly s) (h : Leaves s s') : q.Orderly s' ∧ KeepsMoved s s' := by
  have hkeeping := hs.toKeeping.leaves h
  obtain ⟨hshrinks, hjobs, -⟩ := h
  refine ⟨⟨hkeeping, ?_⟩, ?_⟩
  · rw [hjobs]
    intro p i c hresult hinside hp
    rcases hshrinks.files p with hsame | hgone
    · exact hs.results hresult hinside (hsame.symm.trans hp)
    · rw [hgone] at hp
      cases hp
  · intro k job hk _
    rw [hjobs]
    exact hk

theorem submit (hs : q.Orderly s) {p : Path} {now : ℤ} {inode : ℕ} {fs : FileSystem} {job : Job}
    (hnamed : job.Named) (hp : job.file = p) (hphase : job.phase = .submitted) (hnew : p ∉ s.used)
    (hcreate : s.fs.createNew p now = some (inode, fs)) :
    q.Orderly (s.submit fs p job) ∧ KeepsMoved s (s.submit fs p job) := by
  have hkeeping := hs.toKeeping.submit hnamed hp hphase hnew hcreate
  obtain ⟨-, -, -, hfiles⟩ := FileSystem.fileAt_createNew hs.wellFormed hcreate
  subst hp
  have hkept : ∀ {k : ℕ} {job' : Job}, s.jobs[k]? = some job' → (s.jobs ++ [job])[k]? = some job' :=
    fun hk => (List.getElem?_append_left (List.getElem?_eq_some_iff.mp hk).1).trans hk
  refine ⟨⟨hkeeping, ?_⟩, fun k j hk _ => hkept hk⟩
  intro p i c hresult hinside hp
  have hsame : fs.fileAt p = s.fs.fileAt p := by rw [hfiles, if_neg (hnamed.ne_file hresult)]
  obtain ⟨k, j, body, written, hk, hrest⟩ :=
    hs.results hresult hinside (hsame.symm.trans hp)
  exact ⟨k, j, body, written, hkept hk, hrest⟩

end Orderly

/-! ### A step of a job -/

/-- What a step of a job is to the other jobs: its own files change, and in
the last step what it has written gets the name of the result. -/
structure Loaded (fs fs' : FileSystem) (job : Job) (phase : Phase) : Prop where
  wellFormed : fs'.WellFormed
  holds : Job.Holds fs' { job with phase := phase }
  only : ∀ i p, p ≠ job.file → fs.OnlyAt i p → fs'.OnlyAt i p
  frame : ∀ p, p ≠ job.file → p ≠ job.errorFile →
    fs'.fileAt p = fs.fileAt p ∨ p = job.resultFile ∧ ∃ i body written,
      phase.moved = some (body, written) ∧ fs'.fileAt p = some (i, body.take written)

/-- A job that takes a step is not over. -/
theorem Loads.moved_eq_none {fs fs' : FileSystem} {job : Job} {touched : List (AccessKind × Path)}
    {phase : Phase} (h : Loads fs job fs' touched phase) : job.phase.moved = none := by
  cases h with
  | quiet hbusy => exact hbusy
  | opened hphase => rw [hphase]; rfl
  | wrote now hphase => rw [hphase]; rfl
  | renamed hphase => rw [hphase]; rfl
  | removed hphase => rw [hphase]; rfl
  | reports trace hphase => rw [hphase]; rfl
  | prints printed text now hphase => rw [hphase]; rfl

theorem loaded_of_loads {fs fs' : FileSystem} {job : Job} {touched : List (AccessKind × Path)}
    {phase : Phase} (hwf : fs.WellFormed) (hholds : job.Holds fs)
    (h : Loads fs job fs' touched phase) : Loaded fs fs' job phase := by
  cases h with
  | quiet hbusy hheld hreported hmoved =>
      refine ⟨hwf, ?_, fun _ _ _ honly => honly, fun _ _ _ => .inl rfl⟩
      rcases hheld with hnone | hsame
      · exact .idle hnone hreported
      · refine ⟨fun heq => hholds.held (hsame.symm.trans heq),
          fun heq => hholds.content (hsame.symm.trans heq), ?_⟩
        intro i heq
        cases hreported.symm.trans heq
  | @opened body p i fs' now hphase hp hopen =>
      obtain rfl : p = job.file := FileSystem.eq_normalize_of_locate hp
      have hfile := (FileSystem.fileAt_openWrite hwf hopen).1
      refine ⟨hwf.openWrite hopen, ⟨?_, ?_, ?_⟩, fun _ _ _ honly => honly.openWrite hwf hopen,
        fun p hne _ => .inl ((hfile p).trans (if_neg hne))⟩
      · intro body' i' written heq
        cases heq
        exact FileSystem.onlyAt_of_openWrite hwf hopen
      · intro body' i' written i'' c heq hc
        cases heq
        cases ((hfile _).trans (if_pos rfl)).symm.trans hc
        exact ⟨rfl, rfl⟩
      · intro i' heq
        cases heq
  | @wrote body i written n now hphase hn =>
      have hheld : job.phase.held = some (body, i, written) := by rw [hphase]; rfl
      have hopen := hholds.held hheld
      refine ⟨hwf.append .., ⟨?_, ?_, ?_⟩, fun _ _ _ honly => honly.append ..,
        fun p hne _ => .inl (hopen.fileAt_append _ now hne)⟩
      · intro body' i' written' heq
        cases heq
        exact hopen.append ..
      · intro body' i' written' i'' c heq hc
        cases heq
        obtain ⟨d, hd, rfl⟩ := FileSystem.exists_fileAt_of_append hc
        obtain ⟨rfl, rfl⟩ := hholds.content hheld hd
        exact ⟨rfl, (if_pos rfl).trans List.take_add.symm⟩
      · intro i' heq
        cases heq
  | @renamed body i written p p' fs' hphase hp hp' hmove =>
      obtain rfl : p = job.file := FileSystem.eq_normalize_of_locate hp
      obtain rfl : p' = job.resultFile := FileSystem.eq_normalize_of_locate hp'
      obtain ⟨-, ⟨i', c⟩, hfrom, -, hfile⟩ := FileSystem.fileAt_move hmove
      obtain ⟨rfl, rfl⟩ := hholds.content (by rw [hphase]; rfl) hfrom
      refine ⟨hwf.move hmove, .idle rfl rfl, fun _ _ hne honly => honly.move hmove hne, ?_⟩
      intro p hne _
      by_cases hresult : p = job.resultFile
      · exact .inr ⟨hresult, i', body, written, rfl, (hfile p).trans (if_pos hresult)⟩
      · exact .inl (by rw [hfile, if_neg hresult, if_neg hne])
  | @removed p fs' hphase hremove =>
      obtain ⟨hp, -, hfile⟩ := FileSystem.fileAt_remove hremove
      obtain rfl : p = job.file := hp
      have hshrinks := FileSystem.Shrinks.remove hremove
      exact ⟨hshrinks.wellFormed hwf, .idle rfl rfl, fun _ _ _ honly => honly.shrinks hshrinks,
        fun p hne _ => .inl ((hfile p).trans (if_neg hne))⟩
  | @reports trace p i fs' now hphase hp hopen =>
      obtain rfl : p = job.errorFile := FileSystem.eq_normalize_of_locate hp
      have hfile := (FileSystem.fileAt_openWrite hwf hopen).1
      refine ⟨hwf.openWrite hopen, ⟨?_, ?_, ?_⟩, fun _ _ _ honly => honly.openWrite hwf hopen,
        fun p _ hne => .inl ((hfile p).trans (if_neg hne))⟩
      · intro body i' written heq
        cases heq
      · intro body i' written i'' c heq
        cases heq
      · intro i' heq
        cases heq
        exact FileSystem.onlyAt_of_openWrite hwf hopen
  | @prints trace i printed printed' text now hphase =>
      have hopen := hholds.reported (by rw [hphase]; rfl : job.phase.reported = some i)
      refine ⟨hwf.append .., ⟨?_, ?_, ?_⟩, fun _ _ _ honly => honly.append ..,
        fun p _ hne => .inl (hopen.fileAt_append text now hne)⟩
      · intro body i' written heq
        cases heq
      · intro body i' written i'' c heq
        cases heq
      · intro i' heq
        cases heq
        exact hopen.append ..

/-- What a step of one job leaves to another. -/
theorem holds_of_loaded {fs fs' : FileSystem} {job other : Job} {phase : Phase}
    (h : other.Holds fs) (hnamed : job.Named) (hother : other.Named)
    (hne : other.file ≠ job.file) (hloaded : Loaded fs fs' job phase) : other.Holds fs' := by
  refine h.mono ?_ ?_
  · rintro i p (rfl | rfl) honly
    · exact hloaded.only i _ hne honly
    · exact hloaded.only i _ (hother.errorFile_ne_file hnamed) honly
  · rcases hloaded.frame _ hne (hnamed.errorFile_ne_file hother).symm with hsame | ⟨heq, -⟩
    · exact .inl hsame
    · exact absurd heq.symm (hnamed.resultFile_ne_file hother)

/-- Each job is one there was, with the files it had. -/
theorem getElem?_setPhase {k k' : ℕ} {job j : Job} {phase : Phase} (hjob : s.jobs[k]? = some job)
    (hj : (s.jobs.set k { job with phase := phase })[k']? = some j) :
    k' ≠ k ∧ s.jobs[k']? = some j ∨ k' = k ∧ j = { job with phase := phase } := by
  have hlt : k < s.jobs.length := (List.getElem?_eq_some_iff.mp hjob).1
  by_cases heq : k' = k
  · subst heq
    exact .inr ⟨rfl, Option.some.inj (hj.symm.trans (List.getElem?_set_self hlt))⟩
  · exact .inl ⟨heq, (List.getElem?_set_ne (Ne.symm heq)).symm.trans hj⟩

theorem Keeping.jobStep (hs : Keeping s) {k : ℕ} {a : JobAction}
    (h : QueryService.jobStep s k a = some s') : Keeping s' := by
  obtain ⟨job, fs, touched, phase, hjob, hload, rfl⟩ := jobStep_eq_some h
  have hnamed := hs.named hjob
  have hloaded := loaded_of_loads hs.wellFormed (hs.holds hjob) (loads_of_loadFile hload)
  have hbefore : ∀ {k' : ℕ} {j : Job}, (s.jobs.set k { job with phase := phase })[k']? = some j →
      ∃ j₀, s.jobs[k']? = some j₀ ∧ j₀.file = j.file ∧ (j₀.Named → j.Named) := by
    intro k' j hj
    rcases getElem?_setPhase hjob hj with ⟨-, hold⟩ | ⟨rfl, rfl⟩
    · exact ⟨j, hold, rfl, id⟩
    · exact ⟨job, hjob, rfl, id⟩
  refine ⟨hloaded.wellFormed, ?_, ?_, ?_, ?_⟩
  · intro k' j hj
    obtain ⟨j₀, hj₀, -, hname⟩ := hbefore hj
    exact hname (hs.named hj₀)
  · intro k' j hj
    obtain ⟨j₀, hj₀, hfile, -⟩ := hbefore hj
    exact hfile ▸ hs.used hj₀
  · intro k₁ k₂ j₁ j₂ hj₁ hj₂ heq
    obtain ⟨i₁, hi₁, hfile₁, -⟩ := hbefore hj₁
    obtain ⟨i₂, hi₂, hfile₂, -⟩ := hbefore hj₂
    exact hs.distinct hi₁ hi₂ (hfile₁.trans (heq.trans hfile₂.symm))
  · intro k' j hj
    rcases getElem?_setPhase hjob hj with ⟨hne, hold⟩ | ⟨rfl, rfl⟩
    · have hfile : j.file ≠ job.file := fun heq => hne (hs.distinct hold hjob heq)
      exact holds_of_loaded (hs.holds hold) hnamed (hs.named hold) hfile hloaded
    · exact hloaded.holds

namespace Orderly

theorem jobStep (hs : q.Orderly s) {k : ℕ} {a : JobAction}
    (h : QueryService.jobStep s k a = some s') : q.Orderly s' ∧ KeepsMoved s s' := by
  have hkeeping := hs.toKeeping.jobStep h
  obtain ⟨job, fs, touched, phase, hjob, hload, rfl⟩ := jobStep_eq_some h
  have hloads := loads_of_loadFile hload
  have hnamed := hs.named hjob
  have hloaded := loaded_of_loads hs.wellFormed (hs.holds hjob) hloads
  have hlt : k < s.jobs.length := (List.getElem?_eq_some_iff.mp hjob).1
  have hkept : KeepsMoved s { s with jobs := s.jobs.set k { job with phase := phase } } := by
    intro k' j hj hmoved
    have hne : k ≠ k' := by
      rintro rfl
      cases hjob.symm.trans hj
      exact hmoved hloads.moved_eq_none
    exact (List.getElem?_set_ne hne).trans hj
  refine ⟨⟨hkeeping, ?_⟩, hkept⟩
  intro p i c hresult hinside hp
  rcases hloaded.frame p (hnamed.ne_file hresult) (hnamed.ne_errorFile hresult) with
    hsame | ⟨heq, i', body, written, hmoved, hnew⟩
  · obtain ⟨k', j, body, written, hj, hmoved, hrest⟩ :=
      hs.results hresult hinside (hsame.symm.trans hp)
    exact ⟨k', j, body, written, hkept k' j hj (by rw [hmoved]; simp), hmoved, hrest⟩
  · cases hnew.symm.trans hp
    exact ⟨k, _, body, written, List.getElem?_set_self hlt, hmoved, heq.symm, rfl⟩

end Orderly

/-! ### The other steps -/

theorem Handles.leaves (h : Handles s s') : Leaves s s' := by
  cases h with
  | adds => exact .quiet rfl rfl rfl
  | createsFolder hcreate => exact ⟨.createDirectories hcreate, rfl, rfl⟩

/-- A visitor deletes at most what it is shown. -/
theorem Visits.leaves {visitor : Visitor} {v : Visit} (h : Visits s visitor v s') :
    Leaves s s' := by
  cases h with
  | passes => exact .quiet rfl rfl rfl
  | deletesFile hfile hdelete => exact ⟨.delete hdelete, rfl, rfl⟩
  | deletesExpired hfile hexpired hdelete => exact ⟨.delete hdelete, rfl, rfl⟩
  | deletesFolder hfolder hdelete => exact ⟨.delete hdelete, rfl, rfl⟩

/-- What a step is to the protocol. -/
inductive Moves (q : QueryService) (s : Repo) : Action → Repo → Prop where
  | leaves {a : Action} {s' : Repo} (h : Leaves s s') : Moves q s a s'
  /-- A job for a new file. -/
  | submits {p : Path} {now : ℤ} {inode : ℕ} {fs : FileSystem} {job : Job} {a : Action} {s' : Repo}
      (hnamed : job.Named) (hp : job.file = p) (hphase : job.phase = .submitted)
      (hnew : p ∉ s.used) (hcreate : s.fs.createNew p now = some (inode, fs))
      (h : Leaves (s.submit fs p job) s') : Moves q s a s'
  | loads {k : ℕ} {a : JobAction} {s' : Repo} (h : jobStep s k a = some s') :
      Moves q s (.job k a) s'

theorem moves_of_step {a : Action} (h : q.step s a = some s') : Moves q s a s' := by
  cases steps_of_step h with
  | request r =>
      exact .leaves (handles_handle q s r).leaves
  | replies => exact .leaves (.quiet rfl rfl rfl)
  | creates htask h =>
      cases creates_of_createTempFile h with
      | refused reply => exact .leaves (.quiet rfl rfl rfl)
      | created hdir hsep hp hnew hcreate htask =>
          refine .submits (named_of_tempFileName hsep) ?_ rfl hnew hcreate (.quiet rfl rfl rfl)
          exact (FileSystem.eq_normalize_of_locate hp).symm
  | deletes htask hremove => exact .leaves ⟨.remove hremove, rfl, rfl⟩
  | walks htask hnext =>
      obtain ⟨hshrinks, hjobs, hused⟩ := (visits_of_visitNext hnext).leaves
      exact .leaves ⟨hshrinks, hjobs, hused⟩
  | cleanUpRepoFolder now => exact .leaves (.quiet rfl rfl rfl)
  | loads h => exact .loads h

theorem Keeping.step (hs : Keeping s) {a : Action} (h : q.step s a = some s') : Keeping s' := by
  cases moves_of_step h with
  | leaves h => exact hs.leaves h
  | submits hnamed hp hphase hnew hcreate h =>
      exact (hs.submit hnamed hp hphase hnew hcreate).leaves h
  | loads h => exact hs.jobStep h

theorem keeping_start {fs : FileSystem} (hwf : fs.WellFormed) : Keeping (.start fs) := by
  have hnone : ∀ {k : ℕ} {job : Job}, (Repo.start fs).jobs[k]? ≠ some job := by simp [Repo.start]
  refine ⟨hwf, ?_, ?_, ?_, ?_⟩
  all_goals exact fun hk => absurd hk hnone

namespace Orderly

/-- Each step keeps to the protocol, and leaves a job that is over alone. -/
theorem step (hs : q.Orderly s) {a : Action} (h : q.step s a = some s') :
    q.Orderly s' ∧ KeepsMoved s s' := by
  cases moves_of_step h with
  | leaves h => exact hs.leaves h
  | submits hnamed hp hphase hnew hcreate h =>
      obtain ⟨hsubmitted, hkept⟩ := hs.submit hnamed hp hphase hnew hcreate
      obtain ⟨hs', hkept'⟩ := hsubmitted.leaves h
      exact ⟨hs', hkept.trans hkept'⟩
  | loads h => exact hs.jobStep h

theorem reachedBy {allowed : Repo → Action → Prop} (hs : q.Orderly s)
    (h : ReachedBy q.step allowed s s') : q.Orderly s' ∧ KeepsMoved s s' := by
  apply h.invariant ⟨hs, fun _ _ hk _ => hk⟩
  intro s₁ a s₂ _ hstep ⟨hs₁, hkept₁⟩
  obtain ⟨hs₂, hkept₂⟩ := hs₁.step hstep
  exact ⟨hs₂, hkept₁.trans hkept₂⟩

theorem start {fs : FileSystem} (hwf : fs.WellFormed)
    (hempty : ∀ p, p.StrictlyInside q.repoRoot.normalize → ¬ fs.IsFile p) :
    q.Orderly (.start fs) := by
  refine ⟨keeping_start hwf, ?_⟩
  intro p i c _ hinside hp
  exact absurd (FileSystem.isFile_of_fileAt hp) (hempty p hinside)

end Orderly

end QueryService

end AisStore
