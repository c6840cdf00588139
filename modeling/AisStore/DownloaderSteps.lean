import AisStore.Downloader

/-!
What the steps of the downloader can do.

Each function that takes a step is taken apart once, into a relation with one
case for each way it can go: `LoadsBy` for a job, `Handles` for a request,
`Visits` for a walk, `Creates` for a temporary file, and `Steps` for them
all. What is said about runs later on goes by cases over these.
-/

namespace AisStore

open Lib

/-! ### How far a job has come -/

namespace Phase

/-- The response being loaded, the file it goes into, and how much of it has
been written there; until the file is renamed or given up. -/
def held : Phase → Option (List UInt8 × ℕ × ℕ)
  | .transferring body i written => some (body, i, written)
  | .returned body i written => some (body, i, written)
  | .copied body i written => some (body, i, written)
  | _ => none

/-- The error file being written. -/
def reported : Phase → Option ℕ
  | .reporting _ i _ => some i
  | _ => none

/-- The response of a job that has renamed its file, and how much of it that holds. -/
def moved : Phase → Option (List UInt8 × ℕ)
  | .finished (.moved body written) => some (body, written)
  | _ => none

end Phase

/-! ### Names -/

theorem fileType_mem (url : String) :
    fileType url ∈ [".kml", ".html", ".csv", ".json", ".txt"] := by
  unfold fileType
  split_ifs <;> simp

/-- A name of more than two characters is no `.` or `..`. -/
theorem isName_of_length {c : String} (hsep : '/' ∉ c.toList) (hlength : 2 < c.toList.length) :
    Path.IsName c := by
  refine ⟨?_, hsep, ?_, ?_⟩
  all_goals
    rintro rfl
    exact absurd hlength (by decide)

namespace Job

/-- The job loads into a file that `createTempFile` has named. -/
def Named (job : Job) : Prop :=
  ∃ stem url, job.fileName = stem ++ fileType url ++ downloadSuffix ∧ '/' ∉ job.fileName.toList

theorem name_eq {job : Job} {stem : String} (h : job.fileName = stem ++ downloadSuffix) :
    job.name = stem := by
  unfold name
  rw [h, String.toList_append, List.length_append, Nat.add_sub_cancel, List.take_left,
    String.ofList_toList]

variable {job : Job}

theorem Named.fileName_eq (h : job.Named) : job.fileName = job.name ++ downloadSuffix := by
  obtain ⟨stem, url, heq, -⟩ := h
  rw [name_eq heq, heq]

theorem Named.exists_fileType (h : job.Named) : ∃ stem url, job.name = stem ++ fileType url := by
  obtain ⟨stem, url, heq, -⟩ := h
  exact ⟨stem, url, name_eq heq⟩

theorem Named.length_name (h : job.Named) : 2 < job.name.toList.length := by
  obtain ⟨stem, url, heq⟩ := h.exists_fileType
  have htype : ∀ t ∈ [".kml", ".html", ".csv", ".json", ".txt"], 2 < t.toList.length := by decide
  have hlength := htype _ (fileType_mem url)
  rw [heq, String.toList_append, List.length_append]
  omega

theorem Named.isName_fileName (h : job.Named) : Path.IsName job.fileName := by
  have hlength := h.length_name
  have heq := h.fileName_eq
  obtain ⟨-, -, -, hsep⟩ := h
  refine isName_of_length hsep ?_
  rw [heq, String.toList_append, List.length_append]
  omega

theorem Named.sep_name (h : job.Named) : '/' ∉ job.name.toList := by
  have heq := h.fileName_eq
  obtain ⟨-, -, -, hsep⟩ := h
  rw [heq, String.toList_append, List.mem_append] at hsep
  exact fun hmem => hsep (.inl hmem)

theorem Named.isName_name (h : job.Named) : Path.IsName job.name :=
  isName_of_length h.sep_name h.length_name

theorem Named.isName_errorName (h : job.Named) : Path.IsName (job.name ++ errorSuffix) := by
  have hsep := h.sep_name
  have hlength := h.length_name
  have herror : '/' ∉ errorSuffix.toList := by decide
  refine isName_of_length ?_ ?_
  · rw [String.toList_append, List.mem_append]
    rintro (hmem | hmem)
    · exact hsep hmem
    · exact herror hmem
  · rw [String.toList_append, List.length_append]
    omega

end Job

namespace QueryService

/-! ### The steps of a job -/

/-- A file that has been opened where the folder was found. -/
theorem openWrite_of_bind {fs fs' : FileSystem} {path p : Path} {i : ℕ} {now : ℤ}
    (h : ((fs.locate path).bind fun p => (fs.openWrite p now).map fun o => (p, o)) =
      some (p, i, fs')) : fs.locate path = some p ∧ fs.openWrite p now = some (i, fs') := by
  obtain ⟨p', hp, hmap⟩ := Option.bind_eq_some_iff.mp h
  obtain ⟨⟨i', fs₁⟩, hwrite, heq⟩ := Option.map_eq_some_iff.mp hmap
  cases heq
  exact ⟨hp, hwrite⟩

/-- The ways a job goes on, one for each branch of `loadFile`. -/
inductive LoadsBy (fs : FileSystem) (job : Job) :
    JobAction → FileSystem → List (AccessKind × Path) → Phase → Prop where
  | connects (body : List UInt8) (hphase : job.phase = .submitted) :
      LoadsBy fs job (.connect body) fs [] (.connected body)
  | connectFails (hphase : job.phase = .submitted) : LoadsBy fs job .connectFails fs [] .failed
  | opened {body : List UInt8} {p : Path} {i : ℕ} {fs' : FileSystem} {now : ℤ}
      (hphase : job.phase = .connected body) (hp : fs.locate job.path = some p)
      (hopen : fs.openWrite p now = some (i, fs')) :
      LoadsBy fs job (.createFile now) fs' [(.create, p)] (.transferring body i 0)
  | notOpened {body : List UInt8} (now : ℤ) (hphase : job.phase = .connected body) :
      LoadsBy fs job (.createFile now) fs [] .failed
  | wrote {body : List UInt8} {i written n : ℕ} (now : ℤ)
      (hphase : job.phase = .transferring body i written) (hpos : 0 < n)
      (hn : written + n ≤ body.length) :
      LoadsBy fs job (.transfer n now) (fs.append i ((body.drop written).take n) now) []
        (.transferring body i (written + n))
  | ends {body : List UInt8} {i written : ℕ}
      (hphase : job.phase = .transferring body i written) (hall : written = body.length) :
      LoadsBy fs job .endOfBody fs [] (.returned body i written)
  | throws {body : List UInt8} {i written : ℕ}
      (hphase : job.phase = .transferring body i written) :
      LoadsBy fs job (.connectionFails true) fs [] .failed
  | returns {body : List UInt8} {i written : ℕ}
      (hphase : job.phase = .transferring body i written) :
      LoadsBy fs job (.connectionFails false) fs [] (.returned body i written)
  | closes {body : List UInt8} {i written : ℕ} (hphase : job.phase = .returned body i written) :
      LoadsBy fs job (.close true) fs [] (.copied body i written)
  | closeFails {body : List UInt8} {i written : ℕ}
      (hphase : job.phase = .returned body i written) :
      LoadsBy fs job (.close false) fs [] .failed
  | renamed {body : List UInt8} {i written : ℕ} {p p' : Path} {fs' : FileSystem}
      (hphase : job.phase = .copied body i written) (hp : fs.locate job.path = some p)
      (hp' : fs.locate job.resultPath = some p') (hmove : fs.move p p' = some fs') :
      LoadsBy fs job (.move true) fs' [(.delete, p), (.create, p')]
        (.finished (.moved body written))
  | notRenamed {body : List UInt8} {i written : ℕ} {moved : Bool}
      (hphase : job.phase = .copied body i written)
      (hfails : moved = true → ∀ p p', fs.locate job.path = some p →
        fs.locate job.resultPath = some p' → fs.move p p' = none) :
      LoadsBy fs job (.move moved) fs [] (.finished .notMoved)
  | removed {p : Path} {fs' : FileSystem} (hphase : job.phase = .failed)
      (hremove : fs.remove job.path = some (p, fs')) :
      LoadsBy fs job (.deleteOldFile true) fs' [(.delete, p)] .cleaned
  | notRemoved (deleted : Bool) (hphase : job.phase = .failed) :
      LoadsBy fs job (.deleteOldFile deleted) fs [] .cleaned
  | reports {trace : List UInt8} {p : Path} {i : ℕ} {fs' : FileSystem} {now : ℤ}
      (hphase : job.phase = .cleaned) (htrace : trace ≠ [])
      (hp : fs.locate job.errorPath = some p) (hopen : fs.openWrite p now = some (i, fs')) :
      LoadsBy fs job (.createErrorFile trace now) fs' [(.create, p)] (.reporting trace i 0)
  | cannotReport (trace : List UInt8) {now : ℤ} (hphase : job.phase = .cleaned)
      (hfails : ∀ p, fs.locate job.errorPath = some p → fs.openWrite p now = none) :
      LoadsBy fs job (.createErrorFile trace now) fs [] (.finished .errorFile)
  | prints {trace : List UInt8} {i printed n written : ℕ} (now : ℤ)
      (hphase : job.phase = .reporting trace i printed) (hpos : 0 < n)
      (hn : printed + n ≤ trace.length) (hwritten : written ≤ n) :
      LoadsBy fs job (.printStackTrace n written now)
        (fs.append i ((trace.drop printed).take written) now) [] (.reporting trace i (printed + n))
  | reported {trace : List UInt8} {i printed : ℕ} (hphase : job.phase = .reporting trace i printed)
      (hall : printed = trace.length) : LoadsBy fs job .closeErrorFile fs [] (.finished .errorFile)

theorem loadsBy_of_loadFile {fs fs' : FileSystem} {job : Job} {a : JobAction}
    {touched : List (AccessKind × Path)} {phase : Phase}
    (h : loadFile fs job a = some (fs', touched, phase)) :
    LoadsBy fs job a fs' touched phase := by
  cases a with
  | connect body =>
      simp only [loadFile] at h
      split at h
      · rename_i hphase
        cases h
        exact .connects body hphase
      · cases h
  | connectFails =>
      simp only [loadFile] at h
      split at h
      · rename_i hphase
        cases h
        exact .connectFails hphase
      · cases h
  | createFile now =>
      simp only [loadFile] at h
      split at h
      · rename_i body hphase
        split at h
        · cases h
          exact .notOpened now hphase
        · rename_i p i fs₁ hopen
          cases h
          obtain ⟨hp, hwrite⟩ := openWrite_of_bind hopen
          exact .opened hphase hp hwrite
      · cases h
  | transfer n now =>
      simp only [loadFile] at h
      split at h
      · rename_i body i written hphase
        split at h
        · rename_i hn
          cases h
          exact .wrote now hphase hn.1 hn.2
        · cases h
      · cases h
  | endOfBody =>
      simp only [loadFile] at h
      split at h
      · rename_i body i written hphase
        split at h
        · rename_i hall
          cases h
          exact .ends hphase hall
        · cases h
      · cases h
  | connectionFails noticed =>
      simp only [loadFile] at h
      split at h
      · rename_i body i written hphase
        cases noticed with
        | true =>
            cases h
            exact .throws hphase
        | false =>
            rw [if_neg Bool.false_ne_true] at h
            split at h
            · cases h
              exact .returns hphase
            · cases h
      · cases h
  | close closed =>
      simp only [loadFile] at h
      split at h
      · rename_i body i written hphase
        cases h
        cases closed with
        | true => exact .closes hphase
        | false => exact .closeFails hphase
      · cases h
  | move moved =>
      simp only [loadFile] at h
      split at h
      · rename_i body i written hphase
        split at h
        · rename_i p p' hp hp'
          cases moved with
          | false => cases hp
          | true =>
              split at h
              · rename_i fs₁ hmove
                cases h
                exact .renamed hphase hp hp' hmove
              · rename_i hmove
                cases h
                refine .notRenamed hphase ?_
                intro _ r r' hr hr'
                cases hr.symm.trans hp
                cases hr'.symm.trans hp'
                exact hmove
        · rename_i hnone
          cases h
          refine .notRenamed hphase ?_
          rintro rfl p p' hp hp'
          exact absurd hp' (hnone p p' hp)
      · cases h
  | deleteOldFile deleted =>
      simp only [loadFile] at h
      split at h
      · rename_i hphase
        split at h
        · rename_i hdeleted
          subst hdeleted
          split at h
          · rename_i hremove
            cases h
            exact .removed hphase hremove
          · cases h
            exact .notRemoved true hphase
        · cases h
          exact .notRemoved deleted hphase
      · cases h
  | createErrorFile trace now =>
      simp only [loadFile] at h
      split at h
      · rename_i hphase
        split at h
        · cases h
        · rename_i htrace
          split at h
          · rename_i hnone
            cases h
            refine .cannotReport trace hphase ?_
            intro p hp
            simpa [hp] using hnone
          · rename_i p i fs₁ hopen
            cases h
            obtain ⟨hp, hwrite⟩ := openWrite_of_bind hopen
            exact .reports hphase htrace hp hwrite
      · cases h
  | printStackTrace n written now =>
      simp only [loadFile] at h
      split at h
      · rename_i trace i printed hphase
        split at h
        · rename_i hn
          cases h
          exact .prints now hphase hn.1 hn.2.1 hn.2.2
        · cases h
      · cases h
  | closeErrorFile =>
      simp only [loadFile] at h
      split at h
      · rename_i trace i printed hphase
        split at h
        · rename_i hall
          cases h
          exact .reported hphase hall
        · cases h
      · cases h

/-- What that does to the files. -/
inductive Loads (fs : FileSystem) (job : Job) :
    FileSystem → List (AccessKind × Path) → Phase → Prop where
  | quiet {phase : Phase} (hbusy : job.phase.moved = none)
      (hheld : phase.held = none ∨ phase.held = job.phase.held) (hreported : phase.reported = none)
      (hmoved : phase.moved = none) : Loads fs job fs [] phase
  | opened {body : List UInt8} {p : Path} {i : ℕ} {fs' : FileSystem} {now : ℤ}
      (hphase : job.phase = .connected body) (hp : fs.locate job.path = some p)
      (hopen : fs.openWrite p now = some (i, fs')) :
      Loads fs job fs' [(.create, p)] (.transferring body i 0)
  | wrote {body : List UInt8} {i written n : ℕ} (now : ℤ)
      (hphase : job.phase = .transferring body i written) (hn : written + n ≤ body.length) :
      Loads fs job (fs.append i ((body.drop written).take n) now) []
        (.transferring body i (written + n))
  | renamed {body : List UInt8} {i written : ℕ} {p p' : Path} {fs' : FileSystem}
      (hphase : job.phase = .copied body i written) (hp : fs.locate job.path = some p)
      (hp' : fs.locate job.resultPath = some p') (hmove : fs.move p p' = some fs') :
      Loads fs job fs' [(.delete, p), (.create, p')] (.finished (.moved body written))
  | removed {p : Path} {fs' : FileSystem} (hphase : job.phase = .failed)
      (hremove : fs.remove job.path = some (p, fs')) : Loads fs job fs' [(.delete, p)] .cleaned
  | reports (trace : List UInt8) {p : Path} {i : ℕ} {fs' : FileSystem} {now : ℤ}
      (hphase : job.phase = .cleaned) (hp : fs.locate job.errorPath = some p)
      (hopen : fs.openWrite p now = some (i, fs')) :
      Loads fs job fs' [(.create, p)] (.reporting trace i 0)
  | prints {trace : List UInt8} {i printed : ℕ} (printed' : ℕ) (text : List UInt8) (now : ℤ)
      (hphase : job.phase = .reporting trace i printed) :
      Loads fs job (fs.append i text now) [] (.reporting trace i printed')

/-- A job touches the files that come or go. -/
theorem Loads.changesAt {fs fs' : FileSystem} {job : Job} {touched : List (AccessKind × Path)}
    {phase : Phase} (h : Loads fs job fs' touched phase) :
    fs.ChangesAt fs' (touched.map Prod.snd) := by
  cases h with
  | quiet => exact FileSystem.changesAt_refl fs []
  | opened hphase hp hopen => exact FileSystem.changesAt_openWrite hopen
  | wrote now hphase hn => exact FileSystem.changesAt_refl fs []
  | renamed hphase hp hp' hmove => exact FileSystem.changesAt_move hmove
  | removed hphase hremove => exact FileSystem.changesAt_remove hremove
  | reports trace hphase hp hopen => exact FileSystem.changesAt_openWrite hopen
  | prints => exact FileSystem.changesAt_refl fs []

theorem LoadsBy.loads {fs fs' : FileSystem} {job : Job} {a : JobAction}
    {touched : List (AccessKind × Path)} {phase : Phase}
    (h : LoadsBy fs job a fs' touched phase) : Loads fs job fs' touched phase := by
  cases h with
  | connects body hphase => exact .quiet (by rw [hphase]; rfl) (.inl rfl) rfl rfl
  | connectFails hphase => exact .quiet (by rw [hphase]; rfl) (.inl rfl) rfl rfl
  | opened hphase hp hopen => exact .opened hphase hp hopen
  | notOpened now hphase => exact .quiet (by rw [hphase]; rfl) (.inl rfl) rfl rfl
  | wrote now hphase hpos hn => exact .wrote now hphase hn
  | ends hphase hall => exact .quiet (by rw [hphase]; rfl) (.inr (by rw [hphase]; rfl)) rfl rfl
  | throws hphase => exact .quiet (by rw [hphase]; rfl) (.inl rfl) rfl rfl
  | returns hphase => exact .quiet (by rw [hphase]; rfl) (.inr (by rw [hphase]; rfl)) rfl rfl
  | closes hphase => exact .quiet (by rw [hphase]; rfl) (.inr (by rw [hphase]; rfl)) rfl rfl
  | closeFails hphase => exact .quiet (by rw [hphase]; rfl) (.inl rfl) rfl rfl
  | renamed hphase hp hp' hmove => exact .renamed hphase hp hp' hmove
  | notRenamed hphase hfails => exact .quiet (by rw [hphase]; rfl) (.inl rfl) rfl rfl
  | removed hphase hremove => exact .removed hphase hremove
  | notRemoved deleted hphase => exact .quiet (by rw [hphase]; rfl) (.inl rfl) rfl rfl
  | reports hphase htrace hp hopen => exact .reports _ hphase hp hopen
  | cannotReport trace hphase hfails => exact .quiet (by rw [hphase]; rfl) (.inl rfl) rfl rfl
  | prints now hphase hpos hn hwritten => exact .prints _ _ now hphase
  | reported hphase hall => exact .quiet (by rw [hphase]; rfl) (.inl rfl) rfl rfl

theorem loads_of_loadFile {fs fs' : FileSystem} {job : Job} {a : JobAction}
    {touched : List (AccessKind × Path)} {phase : Phase}
    (h : loadFile fs job a = some (fs', touched, phase)) : Loads fs job fs' touched phase :=
  (loadsBy_of_loadFile h).loads

variable {q : QueryService} {s s' : Repo}

/-- A step of a job changes the files, that job's phase, and the record. -/
theorem jobStep_eq_some {k : ℕ} {a : JobAction} (h : jobStep s k a = some s') :
    ∃ job fs touched phase, s.jobs[k]? = some job ∧
      loadFile s.fs job a = some (fs, touched, phase) ∧
      s' = { s with
        fs := fs
        jobs := s.jobs.set k { job with phase := phase }
        accesses := s.accesses ++ touched.map fun t => ⟨job.clientId, t.1, t.2⟩ } := by
  obtain ⟨job, hjob, hmap⟩ := Option.bind_eq_some_iff.mp h
  obtain ⟨⟨fs, touched, phase⟩, hload, rfl⟩ := Option.map_eq_some_iff.mp hmap
  exact ⟨job, fs, touched, phase, hjob, hload, rfl⟩

/-! ### Requests and walks -/

/-- What the creation of a temporary file does. -/
inductive Creates (q : QueryService) (s : Repo) (i : ℕ) (clientId url : String) : Repo → Prop where
  | refused (reply : Reply) : Creates q s i clientId url (s.setTask i (.replied reply))
  | created {dir p : Path} {now : ℤ} {random inode : ℕ} {fs : FileSystem} {task : Task}
      (hdir : q.repoRoot.resolve clientId = .ok dir)
      (hsep : '/' ∉ (q.tempFileName url now random).toList)
      (hp : s.fs.locate (dir ++ [q.tempFileName url now random]) = some p) (hnew : p ∉ s.used)
      (hcreate : s.fs.createNew p now = some (inode, fs))
      (htask : (∃ reply, task = .replied reply) ∨ ∃ k, task = .awaitResult clientId k now) :
      Creates q s i clientId url
        (((s.submit fs p ⟨clientId, url, dir, q.tempFileName url now random, .submitted⟩).note
          clientId .create p).setTask i task)

theorem named_of_tempFileName {clientId url : String} {dir : Path} {now : ℤ} {random : ℕ}
    {phase : Phase} (hsep : '/' ∉ (q.tempFileName url now random).toList) :
    Job.Named ⟨clientId, url, dir, q.tempFileName url now random, phase⟩ := by
  refine ⟨q.dateFormat now ++ toString random, url, ?_, hsep⟩
  exact (String.append_assoc ..).symm

theorem creates_of_createTempFile {i : ℕ} {clientId url : String} {async : Bool} {now : ℤ}
    {random : ℕ} (h : q.createTempFile s i clientId async url now random = some s') :
    Creates q s i clientId url s' := by
  simp only [createTempFile] at h
  split at h
  · cases h
    exact .refused .exception
  · rename_i dir hdir
    split at h
    · cases h
      exact .refused .exception
    · rename_i hsep
      split at h
      · cases h
        exact .refused .exception
      · rename_i p hp
        split at h
        · cases h
        · rename_i hnew
          split at h
          · cases h
          · rename_i inode fs hcreate
            cases h
            refine .created hdir hsep hp hnew hcreate ?_
            cases async with
            | true => exact .inl ⟨_, rfl⟩
            | false => exact .inr ⟨_, rfl⟩

/-- What a request does at once: it is recorded, `executeQuery` makes a folder
where there is none, and the rest is left to a task. -/
inductive Handles (s : Repo) : Repo → Prop where
  | adds {accesses : List Access} (haccesses : s.accesses <+: accesses) {task : Task}
      (htask : ∀ clientId k now, task ≠ .awaitResult clientId k now) :
      Handles s ({ s with accesses := accesses }.addTask task)
  | createsFolder {dir : Path} {fs : FileSystem} (hcreate : s.fs.createDirectories dir = some fs)
      (new : List Access) {task : Task}
      (htask : ∀ clientId k now, task ≠ .awaitResult clientId k now) :
      Handles s ({ s with fs := fs, accesses := s.accesses ++ new }.addTask task)

theorem handles_handle (q : QueryService) (s : Repo) (r : Request) : Handles s (q.handle s r) := by
  cases r with
  | executeQuery clientId async params =>
      simp only [handle, executeQuery]
      split
      · exact .adds (List.prefix_refl _) nofun
      · rename_i dir hdir
        split
        · exact .adds (List.prefix_append ..) nofun
        · split
          · exact .adds (List.prefix_append ..) nofun
          · rename_i fs hcreate
            exact Handles.createsFolder (s := s) hcreate [⟨clientId, .folder, dir.normalize⟩] nofun
  | streamFile clientId file =>
      simp only [handle, streamFile]
      split
      · exact .adds (List.prefix_refl _) nofun
      · split
        · exact .adds (List.prefix_append ..) nofun
        · split
          · exact .adds (List.prefix_append ..) nofun
          · split
            · exact .adds ((List.prefix_append ..).trans (List.prefix_append ..)) nofun
            · exact .adds (List.prefix_append ..) nofun
  | deleteFile clientId file =>
      simp only [handle, deleteFile]
      split
      · exact .adds (List.prefix_refl _) nofun
      · split
        · exact .adds (List.prefix_append ..) nofun
        · split <;> exact .adds (List.prefix_append ..) nofun
  | deleteFiles clientId =>
      simp only [handle, deleteFiles]
      split
      · exact .adds (List.prefix_refl _) nofun
      · split <;> exact .adds (List.prefix_append ..) nofun
  | listFiles clientId =>
      simp only [handle, replyListFiles]
      split
      · exact .adds ((List.prefix_append ..).trans (List.prefix_append ..)) nofun
      · exact .adds (List.prefix_refl _) nofun

/-- What a visitor does with what it comes to: it passes it, or deletes it. -/
inductive Visits (s : Repo) : Visitor → Visit → Repo → Prop where
  | passes (visitor : Visitor) (v : Visit) : Visits s visitor v s
  | deletesFile {clientId : String} {p : Path} {inode : ℕ} {fs : FileSystem}
      (hfile : s.fs.lookup p = some (.file inode)) (hdelete : s.fs.delete p = some fs) :
      Visits s (.deleteAll clientId) (.entry p) ({ s with fs := fs }.note clientId .delete p)
  | deletesExpired {expiredTime : ℤ} {p : Path} {inode : ℕ} {fs : FileSystem}
      (hfile : s.fs.lookup p = some (.file inode))
      (hexpired : (s.fs.data inode).modified < expiredTime) (hdelete : s.fs.delete p = some fs) :
      Visits s (.deleteExpired expiredTime) (.entry p) { s with fs := fs }
  | deletesFolder {expiredTime : ℤ} {p : Path} {fs : FileSystem}
      (hfolder : s.fs.isDirectory p) (hdelete : s.fs.delete p = some fs) :
      Visits s (.deleteExpired expiredTime) (.leave p) { s with fs := fs }

theorem visits_of_visitNext {visitor : Visitor} {late : List String} {v : Visit}
    {visits : List Visit} (h : q.visitNext s visitor late v = some (s', visits)) :
    Visits s visitor v s' := by
  cases v with
  | leave p =>
      obtain ⟨s₁, hpost, heq⟩ := Option.map_eq_some_iff.mp h
      cases heq
      cases visitor with
      | deleteAll clientId =>
          cases hpost
          exact .passes _ _
      | deleteExpired expiredTime =>
          simp only [postVisitDirectory] at hpost
          split at hpost
          · rename_i hempty
            obtain ⟨fs, hdelete, rfl⟩ := Option.map_eq_some_iff.mp hpost
            exact .deletesFolder hempty.2.1 hdelete
          · cases hpost
            exact .passes _ _
  | entry p =>
      simp only [visitNext] at h
      split at h
      · cases h
      · cases h
        exact .passes _ _
      · rename_i inode hfile
        obtain ⟨s₁, hvisit, heq⟩ := Option.map_eq_some_iff.mp h
        cases heq
        cases visitor with
        | deleteAll clientId =>
            obtain ⟨fs, hdelete, rfl⟩ := Option.map_eq_some_iff.mp hvisit
            exact .deletesFile hfile hdelete
        | deleteExpired expiredTime =>
            simp only [visitFile] at hvisit
            split at hvisit
            · rename_i hexpired
              obtain ⟨fs, hdelete, rfl⟩ := Option.map_eq_some_iff.mp hvisit
              exact .deletesExpired hfile hexpired hdelete
            · cases hvisit
              exact .passes _ _

/-! ### All steps -/

/-- What a step is, given the task or the job that goes on with it. -/
inductive Steps (q : QueryService) (s : Repo) : Action → Repo → Prop where
  | request (r : Request) : Steps q s (.request r) (q.handle s r)
  | replies (a : Action) (i : ℕ) (reply : Reply) : Steps q s a (s.setTask i (.replied reply))
  | creates {i : ℕ} {clientId url : String} {async : Bool} {now : ℤ} {random : ℕ} {s' : Repo}
      (htask : s.tasks[i]? = some (.createTempFile clientId async url))
      (h : q.createTempFile s i clientId async url now random = some s') :
      Steps q s (.createTempFile i now random) s'
  | deletes {i : ℕ} {clientId : String} {path p : Path} {fs : FileSystem}
      (htask : s.tasks[i]? = some (.delete clientId path))
      (hremove : s.fs.remove path = some (p, fs)) (reply : Reply) :
      Steps q s (.delete i)
        (({ s with fs := fs }.note clientId .delete p).setTask i (.replied reply))
  | walks {i : ℕ} {late : List String} {visitor : Visitor} {v : Visit} {rest visits : List Visit}
      {s₁ : Repo} (htask : s.tasks[i]? = some (.walkFileTree visitor (v :: rest)))
      (hnext : q.visitNext s visitor late v = some (s₁, visits)) :
      Steps q s (.visit i late) (s₁.setTask i (.walkFileTree visitor (visits ++ rest)))
  | cleanUpRepoFolder (now : ℤ) :
      Steps q s (.cleanUpRepoFolder now) (q.cleanUpRepoFolder s now)
  | loads {k : ℕ} {a : JobAction} {s' : Repo} (h : jobStep s k a = some s') :
      Steps q s (.job k a) s'

theorem steps_of_step {a : Action} (h : q.step s a = some s') : Steps q s a s' := by
  cases a with
  | request r =>
      cases h
      exact .request r
  | createTempFile i now random =>
      simp only [step] at h
      split at h
      · rename_i clientId async url htask
        exact .creates htask h
      · cases h
  | awaitResult i interrupted =>
      simp only [step, awaitResult] at h
      split at h
      · split at h
        · split at h
          · cases h
            exact .replies _ i _
          · split at h
            · cases h
              exact .replies _ i _
            · cases h
        · cases h
      · cases h
  | delete i =>
      simp only [step] at h
      split at h
      · rename_i clientId path htask
        cases h
        simp only [deletePath]
        split
        · exact .replies _ i _
        · rename_i p fs hremove
          exact .deletes htask hremove _
      · cases h
  | visit i late =>
      simp only [step] at h
      split at h
      · rename_i visitor visits htask
        cases h
        cases visits with
        | nil => exact .replies _ i _
        | cons v rest =>
            simp only [visit]
            split
            · exact .replies _ i _
            · rename_i s₁ visits hnext
              exact .walks htask hnext
      · cases h
  | cleanUpRepoFolder now =>
      cases h
      exact .cleanUpRepoFolder now
  | job k a => exact .loads h

/-! ### Listings -/

theorem mem_repoFiles {fs : FileSystem} {clientId : String} {folder : Path} {f : Path × RepoFile}
    (h : f ∈ repoFiles fs clientId folder) :
    f.1 = folder ++ [f.2.name] ∧ fs.IsFile f.1 ∧
      f.2.complete = !endsWith f.2.name downloadSuffix := by
  obtain ⟨c, hc, hf⟩ := List.mem_filterMap.mp h
  obtain ⟨⟨name, rfl⟩, -⟩ := FileSystem.mem_children hc
  split at hf
  · rename_i i hi
    simp only [List.getLast?_concat, Option.getD_some] at hf
    split at hf
    · cases hf
    · cases hf
      exact ⟨rfl, ⟨i, hi⟩, rfl⟩
  · cases hf

/-- A listing shows files of the folder, under their names. -/
theorem mem_listFiles {fs : FileSystem} {clientId : String} {files : List (Path × RepoFile)}
    {f : Path × RepoFile} (h : q.listFiles fs clientId = .ok files) (hf : f ∈ files) :
    ∃ folder, q.repoRoot.resolve clientId = .ok folder ∧ f.1 = folder.normalize ++ [f.2.name] ∧
      fs.IsFile f.1 ∧ f.2.complete = !endsWith f.2.name downloadSuffix := by
  obtain ⟨folder, hfolder, hfiles⟩ := bind_eq_ok.mp h
  cases hfiles
  split at hf
  · exact ⟨folder, hfolder, mem_repoFiles ((List.mem_insertionSort _).mp hf)⟩
  · cases hf

end QueryService

end AisStore
