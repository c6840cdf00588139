import AisStore.DownloaderSteps

/-!
Client isolation in the downloader.

A request reaches files by resolving its client id, and then its file name,
against the root of the repository. `Isolated` is what the client folders
are for: what is done for a request is done to files in the folder of its
client, which is one of the folders of the repository. It holds in every run
in which no client id is `.` or `..` (`clientIsolation`). The name of the
file needs no such condition, for a file name `.` or `..` leads to a
directory, and the handlers stop there. With the client id `..` they reach
everything (`clientIsolation_upwards`).

What is said is said of the record, `accesses`. `records_of_step` is why that
is enough: apart from the clean-up, no file comes or goes without a record.
-/

namespace AisStore

open Lib

/-- A single segment of a path. -/
def IsSegment (s : String) : Prop := s ≠ "" ∧ '/' ∉ s.toList

instance (s : String) : Decidable (IsSegment s) := inferInstanceAs (Decidable (_ ∧ _))

namespace Request

def clientId : Request → String
  | .executeQuery clientId _ _ => clientId
  | .streamFile clientId _ => clientId
  | .deleteFile clientId _ => clientId
  | .deleteFiles clientId => clientId
  | .listFiles clientId => clientId

/-- The client id and the file name are single segments. -/
def Segments : Request → Prop
  | .executeQuery clientId _ _ => IsSegment clientId
  | .streamFile clientId file => IsSegment clientId ∧ IsSegment file
  | .deleteFile clientId file => IsSegment clientId ∧ IsSegment file
  | .deleteFiles clientId => IsSegment clientId
  | .listFiles clientId => IsSegment clientId

end Request

/-- If the step is a request, its strings are single segments. -/
def Action.Segments : Action → Prop
  | .request r => r.Segments
  | _ => True

/-- If the step is a request, its client id is not `.` or `..`. -/
def Action.NamesClient : Action → Prop
  | .request r => r.clientId ≠ "." ∧ r.clientId ≠ ".."
  | _ => True

theorem Request.Segments.isSegment {r : Request} (h : r.Segments) : IsSegment r.clientId := by
  cases r with
  | executeQuery clientId async params => exact h
  | streamFile clientId file => exact h.1
  | deleteFile clientId file => exact h.1
  | deleteFiles clientId => exact h
  | listFiles clientId => exact h

namespace QueryService

variable (q : QueryService)

/-- `repoRoot/<clientId>`, normalised. -/
def clientFolder (clientId : String) : Path :=
  (q.repoRoot ++ Path.components clientId).normalize

/-- What was done for a request stayed in the folder of its client. -/
structure Isolated (a : Access) : Prop where
  /-- That folder is a direct child of the root of the repository. -/
  child : ∃ name, q.clientFolder a.clientId = q.repoRoot.normalize ++ [name]
  inside : a.kind ≠ .folder → a.path.StrictlyInside (q.clientFolder a.clientId)
  /-- No file of another client was reached. -/
  apart : a.kind ≠ .folder → ∀ other, Path.IsName other → other ≠ a.clientId →
    ¬ a.path.StrictlyInside (q.clientFolder other)

variable {q} {s s' : Repo} {clientId : String} {kind : AccessKind} {p : Path}

theorem clientFolder_eq (h : Path.IsName clientId) :
    q.clientFolder clientId = q.repoRoot.normalize ++ [clientId] := by
  unfold clientFolder
  rw [Path.components_of_segment h.1 h.2.1, Path.normalize_concat, Path.enter_name h]

/-- Resolving the name of a client gives its folder. -/
theorem resolve_client (h : Path.IsName clientId) {dir : Path}
    (hdir : q.repoRoot.resolve clientId = .ok dir) :
    dir = q.repoRoot ++ [clientId] ∧ dir.normalize = q.clientFolder clientId := by
  have heq := Path.resolve_segment h.1 h.2.1 hdir
  refine ⟨heq, ?_⟩
  rw [heq, clientFolder_eq h, Path.normalize_concat, Path.enter_name h]

theorem isolated_of_inside (h : Path.IsName clientId)
    (hp : p.StrictlyInside (q.clientFolder clientId)) : q.Isolated ⟨clientId, kind, p⟩ := by
  have hfolder : q.clientFolder clientId = q.repoRoot.normalize ++ [clientId] := clientFolder_eq h
  refine ⟨⟨clientId, hfolder⟩, fun _ => hp, ?_⟩
  intro _ other hother hne
  rw [clientFolder_eq hother]
  rw [hfolder] at hp
  exact Path.not_strictlyInside_sibling (Ne.symm hne) hp

theorem isolated_folder (h : Path.IsName clientId) : q.Isolated ⟨clientId, .folder, p⟩ :=
  ⟨⟨clientId, clientFolder_eq h⟩, fun hne => absurd rfl hne, fun hne => absurd rfl hne⟩

/-- A path with a name in the folder of a client leads into it. -/
theorem inside_of_name {dir : Path} {name : String}
    (h : Path.IsName clientId) (hdir : dir = q.repoRoot ++ [clientId]) (hname : Path.IsName name)
    (hp : p = (dir ++ [name]).normalize) : p.StrictlyInside (q.clientFolder clientId) := by
  refine ⟨[name], List.cons_ne_nil _ _, ?_⟩
  rw [hp, hdir, Path.normalize_concat, Path.enter_name hname, Path.normalize_concat,
    Path.enter_name h, clientFolder_eq h]

/-- A segment in the folder of a client that leads to a file leads into it:
`.` and `..` lead to directories. -/
theorem inside_of_find {fs : FileSystem} {file : String} {i : ℕ} (h : Path.IsName clientId)
    (hfile : IsSegment file)
    (hfind : fs.find (q.repoRoot ++ [clientId] ++ [file]) = some (.file i)) :
    (q.repoRoot ++ [clientId] ++ [file]).normalize.StrictlyInside (q.clientFolder clientId) := by
  obtain ⟨r, hr, hlookup⟩ := Option.bind_eq_some_iff.mp hfind
  obtain ⟨henter, hfolder, hisFolder⟩ := FileSystem.locate_concat hr
  obtain ⟨-, -, hisRoot⟩ := FileSystem.locate_concat hfolder
  have hnormal : (q.repoRoot ++ [clientId]).normalize = q.repoRoot.normalize ++ [clientId] := by
    rw [Path.normalize_concat, Path.enter_name h]
  by_cases hdot : file = "."
  · rw [hdot, Path.enter, if_pos rfl] at henter
    rw [FileSystem.isDirectory, ← henter, hlookup] at hisFolder
    cases of_decide_eq_true hisFolder
  · by_cases hdots : file = ".."
    · have hparent : r = q.repoRoot.normalize := by
        rw [hdots, Path.enter, if_neg (by decide), if_pos rfl, hnormal, List.dropLast_concat]
          at henter
        exact henter
      rw [FileSystem.isDirectory, ← hparent, hlookup] at hisRoot
      cases of_decide_eq_true hisRoot
    · exact inside_of_name h rfl ⟨hfile.1, hfile.2, hdot, hdots⟩ rfl

/-! ### The record -/

/-- Where files have come or gone, that has been recorded. -/
def Records (s s' : Repo) : Prop :=
  ∃ new, s.accesses ++ new = s'.accesses ∧ s.fs.ChangesAt s'.fs (new.map Access.path)

/-- The step is one of a clean-up, which works for no client. -/
def CleansUp (s : Repo) : Action → Prop
  | .visit i _ => ∃ expiredTime visits,
      s.tasks[i]? = some (.walkFileTree (.deleteExpired expiredTime) visits)
  | _ => False

theorem Records.of_fs (hfs : s'.fs = s.fs) (h : s.accesses <+: s'.accesses) : Records s s' := by
  obtain ⟨new, hnew⟩ := h
  refine ⟨new, hnew, ?_⟩
  rw [hfs]
  exact FileSystem.changesAt_refl s.fs _

theorem Handles.records (h : Handles s s') : Records s s' := by
  cases h with
  | adds haccesses => exact .of_fs rfl haccesses
  | createsFolder hcreate new => exact ⟨new, rfl, FileSystem.changesAt_createDirectories hcreate _⟩

theorem Visits.records {v : Visit} (h : Visits s (.deleteAll clientId) v s') : Records s s' := by
  cases h with
  | passes => exact .of_fs rfl (List.prefix_refl _)
  | deletesFile hfile hdelete => exact ⟨_, rfl, FileSystem.changesAt_delete hdelete⟩

/-- No file comes or goes without a record, except in a clean-up. -/
theorem records_of_step {a : Action} (h : q.step s a = some s') : Records s s' ∨ CleansUp s a := by
  cases steps_of_step h with
  | request r => exact .inl (handles_handle q s r).records
  | replies => exact .inl (.of_fs rfl (List.prefix_refl _))
  | creates htask h =>
      cases creates_of_createTempFile h with
      | refused reply => exact .inl (.of_fs rfl (List.prefix_refl _))
      | created hdir hsep hp hnew hcreate htask =>
          exact .inl ⟨_, rfl, FileSystem.changesAt_createNew hcreate⟩
  | deletes htask hremove => exact .inl ⟨_, rfl, FileSystem.changesAt_remove hremove⟩
  | @walks i late visitor v rest visits s₁ htask hnext =>
      cases visitor with
      | deleteAll clientId =>
          obtain ⟨new, hnew, hchanges⟩ := (visits_of_visitNext hnext).records
          exact .inl ⟨new, hnew, hchanges⟩
      | deleteExpired expiredTime => exact .inr ⟨expiredTime, v :: rest, htask⟩
  | cleanUpRepoFolder now => exact .inl (.of_fs rfl (List.prefix_refl _))
  | loads h =>
      obtain ⟨job, fs, touched, phase, hjob, hload, rfl⟩ := jobStep_eq_some h
      refine .inl ⟨_, rfl, ?_⟩
      rw [List.map_map]
      exact (loads_of_loadFile hload).changesAt

/-! ### The invariant -/

/-- The job works in the folder of a client. -/
structure JobConfined (q : QueryService) (job : Job) : Prop where
  client : Path.IsName job.clientId
  dir : job.dir = q.repoRoot ++ [job.clientId]
  named : job.Named

/-- The thread will work in the folder of a client. A walk that is still to
look at the folder itself will not find a file there. -/
def TaskConfined (q : QueryService) (fs : FileSystem) : Task → Prop
  | .createTempFile clientId _ _ => Path.IsName clientId
  | .awaitResult _ _ _ => True
  | .delete clientId path => Path.IsName clientId ∧
      ∃ file, IsSegment file ∧ path = q.repoRoot ++ [clientId] ++ [file]
  | .walkFileTree (.deleteAll clientId) visits => Path.IsName clientId ∧
      ∀ p, .entry p ∈ visits → p.StrictlyInside (q.clientFolder clientId) ∨
        p = q.clientFolder clientId ∧ ¬ fs.IsFile p
  | .walkFileTree (.deleteExpired _) _ => True
  | .replied _ => True

structure Confined (q : QueryService) (s : Repo) : Prop where
  accesses : ∀ a ∈ s.accesses, q.Isolated a
  jobs : ∀ job ∈ s.jobs, q.JobConfined job
  tasks : ∀ task ∈ s.tasks, q.TaskConfined s.fs task

/-- The files that are new are not where the folders of clients are. -/
def KeepsFolders (q : QueryService) (fs fs' : FileSystem) : Prop :=
  ∀ clientId, Path.IsName clientId →
    fs'.IsFile (q.clientFolder clientId) → fs.IsFile (q.clientFolder clientId)

theorem keepsFolders_of_shrinks {fs fs' : FileSystem} (h : fs.Shrinks fs') :
    q.KeepsFolders fs fs' := fun _ _ hfile => h.isFile hfile

/-- A file in the folder of a client is not where one of them is. -/
theorem keepsFolders_of_changesAt {fs fs' : FileSystem} {ps : List Path} (h : fs.ChangesAt fs' ps)
    (hclient : Path.IsName clientId)
    (hps : ∀ p ∈ ps, p.StrictlyInside (q.clientFolder clientId)) : q.KeepsFolders fs fs' := by
  intro other hother hfile
  refine (h _ ?_).mp hfile
  intro hmem
  obtain ⟨rest, hne, hrest⟩ := hps _ hmem
  rw [clientFolder_eq hclient, clientFolder_eq hother, List.append_assoc] at hrest
  have htail := List.append_cancel_left hrest
  cases rest with
  | nil => exact hne rfl
  | cons c rest => cases htail

theorem TaskConfined.tail {fs : FileSystem} {visitor : Visitor} {v : Visit} {rest : List Visit}
    (h : q.TaskConfined fs (.walkFileTree visitor (v :: rest))) :
    q.TaskConfined fs (.walkFileTree visitor rest) := by
  cases visitor with
  | deleteAll clientId => exact ⟨h.1, fun p hp => h.2 p (List.mem_cons_of_mem v hp)⟩
  | deleteExpired expiredTime => trivial

theorem TaskConfined.mono {fs fs' : FileSystem} {task : Task} (h : q.KeepsFolders fs fs')
    (ht : q.TaskConfined fs task) : q.TaskConfined fs' task := by
  cases task with
  | createTempFile clientId async url => exact ht
  | awaitResult clientId k now => trivial
  | delete clientId path => exact ht
  | walkFileTree visitor visits =>
      cases visitor with
      | deleteAll clientId =>
          obtain ⟨hclient, hvisits⟩ := ht
          refine ⟨hclient, ?_⟩
          intro p hp
          rcases hvisits p hp with hinside | ⟨rfl, hnot⟩
          · exact .inl hinside
          · exact .inr ⟨rfl, fun hfile => hnot (h clientId hclient hfile)⟩
      | deleteExpired expiredTime => trivial
  | replied reply => trivial

namespace Confined

theorem noteAll (hs : q.Confined s) {new : List Access} (h : ∀ a ∈ new, q.Isolated a) :
    q.Confined { s with accesses := s.accesses ++ new } := by
  refine ⟨?_, hs.jobs, hs.tasks⟩
  intro a ha
  rcases List.mem_append.mp ha with hold | hnew
  · exact hs.accesses a hold
  · exact h a hnew

theorem note (hs : q.Confined s) (h : q.Isolated ⟨clientId, kind, p⟩) :
    q.Confined (s.note clientId kind p) :=
  hs.noteAll (List.forall_mem_singleton.mpr h)

theorem addTask (hs : q.Confined s) {task : Task} (h : q.TaskConfined s.fs task) :
    q.Confined (s.addTask task) := by
  refine ⟨hs.accesses, hs.jobs, ?_⟩
  intro t ht
  rcases List.mem_append.mp ht with hold | hnew
  · exact hs.tasks t hold
  · rw [List.mem_singleton.mp hnew]
    exact h

theorem setTask (hs : q.Confined s) {task : Task} (h : q.TaskConfined s.fs task) (i : ℕ) :
    q.Confined (s.setTask i task) := by
  refine ⟨hs.accesses, hs.jobs, ?_⟩
  intro t ht
  rcases List.mem_or_eq_of_mem_set ht with hold | hnew
  · exact hs.tasks t hold
  · rw [hnew]
    exact h

theorem replied (hs : q.Confined s) (i : ℕ) (reply : Reply) :
    q.Confined (s.setTask i (.replied reply)) := @setTask q s hs (.replied reply) trivial i

theorem setFs (hs : q.Confined s) {fs : FileSystem} (h : q.KeepsFolders s.fs fs) :
    q.Confined { s with fs := fs } :=
  ⟨hs.accesses, hs.jobs, fun t ht => (hs.tasks t ht).mono h⟩

theorem submit (hs : q.Confined s) {fs : FileSystem} (h : q.KeepsFolders s.fs fs) {job : Job}
    (hjob : q.JobConfined job) : q.Confined (s.submit fs p job) := by
  refine ⟨hs.accesses, ?_, (hs.setFs h).tasks⟩
  intro j hj
  rcases List.mem_append.mp hj with hold | hnew
  · exact hs.jobs j hold
  · rw [List.mem_singleton.mp hnew]
    exact hjob

/-! ### Requests -/

theorem executeQuery (hs : q.Confined s) (h : Path.IsName clientId) (async : Bool)
    (params : String) : q.Confined (q.executeQuery s clientId async params) := by
  simp only [QueryService.executeQuery]
  split
  · exact hs.addTask trivial
  · rename_i dir hdir
    have hnoted : q.Confined (s.note clientId .folder dir.normalize) := hs.note (isolated_folder h)
    split
    · exact hnoted.addTask h
    · split
      · exact hnoted.addTask trivial
      · rename_i fs hcreate
        have hkept : q.KeepsFolders s.fs fs := keepsFolders_of_shrinks (.createDirectories hcreate)
        exact (hnoted.setFs hkept).addTask h

theorem streamFile (hs : q.Confined s) (h : Path.IsName clientId) {file : String}
    (hfile : IsSegment file) : q.Confined (q.streamFile s clientId file) := by
  simp only [QueryService.streamFile]
  split
  · exact hs.addTask trivial
  · rename_i folder hfolder
    obtain ⟨rfl, -⟩ := resolve_client h hfolder
    have hnoted : q.Confined (s.note clientId .folder (q.repoRoot ++ [clientId]).normalize) :=
      hs.note (isolated_folder h)
    split
    · exact hnoted.addTask trivial
    · rename_i path hpath
      obtain rfl := Path.resolve_segment hfile.1 hfile.2 hpath
      split
      · exact hnoted.addTask trivial
      · split
        · rename_i i hfind
          have hinside := inside_of_find h hfile hfind
          exact (hnoted.note (isolated_of_inside h hinside)).addTask trivial
        · exact hnoted.addTask trivial

theorem deleteFile (hs : q.Confined s) (h : Path.IsName clientId) {file : String}
    (hfile : IsSegment file) : q.Confined (q.deleteFile s clientId file) := by
  simp only [QueryService.deleteFile]
  split
  · exact hs.addTask trivial
  · rename_i folder hfolder
    obtain ⟨rfl, -⟩ := resolve_client h hfolder
    have hnoted : q.Confined (s.note clientId .folder (q.repoRoot ++ [clientId]).normalize) :=
      hs.note (isolated_folder h)
    split
    · exact hnoted.addTask trivial
    · rename_i path hpath
      obtain rfl := Path.resolve_segment hfile.1 hfile.2 hpath
      split
      · exact hnoted.addTask trivial
      · exact hnoted.addTask ⟨h, file, hfile, rfl⟩

theorem deleteFiles (hs : q.Confined s) (h : Path.IsName clientId) :
    q.Confined (q.deleteFiles s clientId) := by
  simp only [QueryService.deleteFiles]
  split
  · exact hs.addTask trivial
  · rename_i path hpath
    obtain ⟨-, hfolder⟩ := resolve_client h hpath
    have hnoted : q.Confined (s.note clientId .folder path.normalize) := hs.note (isolated_folder h)
    split
    · rename_i hfind
      refine hnoted.addTask ⟨h, ?_⟩
      intro p hp
      obtain ⟨rfl⟩ : p = path.normalize := by
        cases hp with
        | head => rfl
        | tail _ hp => cases hp
      -- the walk starts at a directory
      obtain ⟨r, hr, hlookup⟩ := Option.bind_eq_some_iff.mp hfind
      rw [FileSystem.eq_normalize_of_locate hr] at hlookup
      refine .inr ⟨hfolder, ?_⟩
      rintro ⟨i, hi⟩
      cases hi.symm.trans hlookup
    · exact hnoted.addTask trivial

theorem replyListFiles (hs : q.Confined s) (h : Path.IsName clientId) :
    q.Confined (q.replyListFiles s clientId) := by
  simp only [QueryService.replyListFiles]
  split
  · rename_i folder files hfolder hlist
    obtain ⟨-, hnormal⟩ := resolve_client h hfolder
    have hnoted : q.Confined (s.note clientId .folder folder.normalize) :=
      hs.note (isolated_folder h)
    have hlisted : ∀ a ∈ files.map fun f => (⟨clientId, .list, f.1⟩ : Access), q.Isolated a := by
      intro a ha
      obtain ⟨f, hf, rfl⟩ := List.mem_map.mp ha
      apply isolated_of_inside h
      obtain ⟨folder', hfolder', hpath, -, -⟩ := mem_listFiles hlist hf
      cases hfolder.symm.trans hfolder'
      exact ⟨[f.2.name], List.cons_ne_nil _ _, hpath.trans (by rw [hnormal])⟩
    exact (hnoted.noteAll hlisted).addTask trivial
  · exact hs.addTask trivial

theorem handle (hs : q.Confined s) {r : Request} (hr : r.Segments)
    (hdot : r.clientId ≠ "." ∧ r.clientId ≠ "..") : q.Confined (q.handle s r) := by
  have hname : Path.IsName r.clientId := ⟨hr.isSegment.1, hr.isSegment.2, hdot⟩
  cases r with
  | executeQuery clientId async params => exact hs.executeQuery hname async params
  | streamFile clientId file => exact hs.streamFile hname hr.2
  | deleteFile clientId file => exact hs.deleteFile hname hr.2
  | deleteFiles clientId => exact hs.deleteFiles hname
  | listFiles clientId => exact hs.replyListFiles hname

/-! ### Threads and jobs -/

theorem task_of_getElem (hs : q.Confined s) {i : ℕ} {task : Task} (h : s.tasks[i]? = some task) :
    q.TaskConfined s.fs task := hs.tasks task (List.mem_of_getElem? h)

theorem creates (hs : q.Confined s) {i : ℕ} {url : String} (h : Path.IsName clientId)
    (hstep : Creates q s i clientId url s') : q.Confined s' := by
  cases hstep with
  | refused reply => exact hs.replied i reply
  | @created dir p now random inode fs task hdir hsep hp hnew hcreate htask =>
      obtain ⟨rfl, -⟩ := resolve_client h hdir
      have hnamed : Job.Named ⟨clientId, url, q.repoRoot ++ [clientId],
          q.tempFileName url now random, .submitted⟩ := named_of_tempFileName hsep
      have hinside : p.StrictlyInside (q.clientFolder clientId) :=
        inside_of_name h rfl hnamed.isName_fileName (FileSystem.eq_normalize_of_locate hp)
      have hkept := keepsFolders_of_changesAt (FileSystem.changesAt_createNew hcreate) h
        (List.forall_mem_singleton.mpr hinside)
      have hsubmitted := hs.submit (p := p) hkept ⟨h, rfl, hnamed⟩
      refine (hsubmitted.note (isolated_of_inside h hinside)).setTask ?_ i
      rcases htask with ⟨reply, rfl⟩ | ⟨k, rfl⟩ <;> trivial

theorem deletes (hs : q.Confined s) {path : Path} {fs : FileSystem}
    (h : q.TaskConfined s.fs (.delete clientId path)) (hremove : s.fs.remove path = some (p, fs)) :
    q.Confined ({ s with fs := fs }.note clientId .delete p) := by
  obtain ⟨hname, file, hfile, rfl⟩ := h
  have hkept : q.KeepsFolders s.fs fs :=
    keepsFolders_of_shrinks (.remove hremove)
  have hp := (FileSystem.fileAt_remove hremove).1
  -- a path that ends in `.` or `..` is not removed
  have hdots : file ≠ "." ∧ file ≠ ".." := by
    unfold FileSystem.remove at hremove
    rw [List.getLast?_concat] at hremove
    split at hremove
    · cases hremove
    · rename_i hnot
      refine ⟨?_, ?_⟩
      · exact fun heq => hnot (.inl (congrArg some heq))
      · exact fun heq => hnot (.inr (congrArg some heq))
  have hinside : p.StrictlyInside (q.clientFolder clientId) :=
    inside_of_name hname rfl ⟨hfile.1, hfile.2, hdots⟩ hp
  exact (hs.setFs hkept).note (isolated_of_inside hname hinside)

/-- A walk deletes files it comes to, and a clean-up folders. -/
theorem visits (hs : q.Confined s) {visitor : Visitor} {v : Visit} {rest : List Visit}
    (h : q.TaskConfined s.fs (.walkFileTree visitor (v :: rest)))
    (hvisits : Visits s visitor v s') : q.Confined s' ∧ q.KeepsFolders s.fs s'.fs := by
  cases hvisits with
  | passes => exact ⟨hs, fun _ _ hold => hold⟩
  | @deletesFile clientId p inode fs hfile hdelete =>
      have hkept : q.KeepsFolders s.fs fs := keepsFolders_of_shrinks (.delete hdelete)
      obtain ⟨hname, hentries⟩ := h
      have hinside : p.StrictlyInside (q.clientFolder clientId) := by
        rcases hentries p (List.mem_cons_self ..) with hinside | ⟨-, hnot⟩
        · exact hinside
        · exact absurd ⟨inode, hfile⟩ hnot
      exact ⟨(hs.setFs hkept).note (isolated_of_inside hname hinside), hkept⟩
  | deletesExpired hfile hexpired hdelete =>
      have hkept := keepsFolders_of_shrinks (q := q) (.delete hdelete)
      exact ⟨hs.setFs hkept, hkept⟩
  | deletesFolder hfolder hdelete =>
      have hkept := keepsFolders_of_shrinks (q := q) (.delete hdelete)
      exact ⟨hs.setFs hkept, hkept⟩

/-- A walk that opens a directory comes to what is in it. -/
theorem taskConfined_children {fs : FileSystem} {visitor : Visitor} {rest : List Visit}
    {late : List String} (h : q.TaskConfined fs (.walkFileTree visitor (.entry p :: rest))) :
    q.TaskConfined fs (.walkFileTree visitor
      (((fs.children p ++ late.map (p ++ [·])).map Visit.entry ++ [.leave p]) ++ rest)) := by
  cases visitor with
  | deleteAll clientId =>
      obtain ⟨hname, hvisits⟩ := h
      refine ⟨hname, ?_⟩
      intro r hr
      rcases List.mem_append.mp hr with hnew | hold
      · rcases List.mem_append.mp hnew with hentry | hleave
        · obtain ⟨c, hc, heq⟩ := List.mem_map.mp hentry
          cases heq
          have hchild : ∃ name, r = p ++ [name] := by
            rcases List.mem_append.mp hc with hmem | hlate
            · exact (FileSystem.mem_children hmem).1
            · obtain ⟨name, -, rfl⟩ := List.mem_map.mp hlate
              exact ⟨name, rfl⟩
          obtain ⟨name, rfl⟩ := hchild
          rcases hvisits p (List.mem_cons_self ..) with ⟨inner, -, rfl⟩ | ⟨rfl, -⟩
          · exact .inl ⟨inner ++ [name], by simp, by rw [List.append_assoc]⟩
          · exact .inl ⟨[name], List.cons_ne_nil _ _, rfl⟩
        · cases List.mem_singleton.mp hleave
      · exact hvisits r (List.mem_cons_of_mem _ hold)
  | deleteExpired expiredTime => trivial

/-- What a walk comes to next is in the folder of the client. -/
theorem taskConfined_visitNext {visitor : Visitor} {late : List String} {v : Visit}
    {rest visits : List Visit} (h : q.TaskConfined s.fs (.walkFileTree visitor (v :: rest)))
    (hkept : q.KeepsFolders s.fs s'.fs) (hnext : q.visitNext s visitor late v = some (s', visits)) :
    q.TaskConfined s'.fs (.walkFileTree visitor (visits ++ rest)) := by
  cases v with
  | leave p =>
      obtain ⟨s₁, -, heq⟩ := Option.map_eq_some_iff.mp hnext
      cases heq
      exact h.tail.mono hkept
  | entry p =>
      simp only [QueryService.visitNext] at hnext
      split at hnext
      · cases hnext
      · cases hnext
        exact taskConfined_children h
      · obtain ⟨s₁, -, heq⟩ := Option.map_eq_some_iff.mp hnext
        cases heq
        exact h.tail.mono hkept

/-- The files of a job are in the folder of its client. -/
theorem inside_of_loads {fs fs' : FileSystem} {job : Job} {touched : List (AccessKind × Path)}
    {phase : Phase} (hjob : q.JobConfined job) (h : Loads fs job fs' touched phase) :
    ∀ p ∈ touched.map Prod.snd, p.StrictlyInside (q.clientFolder job.clientId) := by
  have hin : ∀ {name : String} {p : Path}, Path.IsName name →
      fs.locate (job.dir ++ [name]) = some p → p.StrictlyInside (q.clientFolder job.clientId) :=
    fun hname hp =>
      inside_of_name hjob.client hjob.dir hname (FileSystem.eq_normalize_of_locate hp)
  have hnone : ∀ p ∈ ([] : List Path), p.StrictlyInside (q.clientFolder job.clientId) := by simp
  cases h with
  | quiet => exact hnone
  | opened hphase hp hopen =>
      exact List.forall_mem_singleton.mpr (hin hjob.named.isName_fileName hp)
  | wrote => exact hnone
  | renamed hphase hp hp' hmove =>
      exact List.forall_mem_cons.mpr ⟨hin hjob.named.isName_fileName hp,
        List.forall_mem_singleton.mpr (hin hjob.named.isName_name hp')⟩
  | removed hphase hremove =>
      have hp := (FileSystem.fileAt_remove hremove).1
      exact List.forall_mem_singleton.mpr
        (inside_of_name hjob.client hjob.dir hjob.named.isName_fileName hp)
  | reports trace hphase hp hopen =>
      exact List.forall_mem_singleton.mpr (hin hjob.named.isName_errorName hp)
  | prints => exact hnone

theorem jobStep (hs : q.Confined s) {k : ℕ} {a : JobAction}
    (h : QueryService.jobStep s k a = some s') : q.Confined s' := by
  obtain ⟨job, fs, touched, phase, hjob, hload, rfl⟩ := jobStep_eq_some h
  have hconfined := hs.jobs job (List.mem_of_getElem? hjob)
  have hloads := loads_of_loadFile hload
  have hinside := inside_of_loads hconfined hloads
  have hkept := keepsFolders_of_changesAt hloads.changesAt hconfined.client hinside
  refine ⟨?_, ?_, (hs.setFs hkept).tasks⟩
  · intro a ha
    rcases List.mem_append.mp ha with hold | hnew
    · exact hs.accesses a hold
    · obtain ⟨t, ht, rfl⟩ := List.mem_map.mp hnew
      exact isolated_of_inside hconfined.client (hinside t.2 (List.mem_map_of_mem ht))
  · intro j hj
    rcases List.mem_or_eq_of_mem_set hj with hold | rfl
    · exact hs.jobs j hold
    · exact ⟨hconfined.client, hconfined.dir, hconfined.named⟩

/-- Each step keeps to the folders of the clients. -/
theorem step (hs : q.Confined s) {a : Action} (hsegments : a.Segments) (hnames : a.NamesClient)
    (h : q.step s a = some s') : q.Confined s' := by
  cases steps_of_step h with
  | request r => exact hs.handle hsegments hnames
  | replies _ i reply => exact hs.replied i reply
  | creates htask h => exact hs.creates (hs.task_of_getElem htask) (creates_of_createTempFile h)
  | deletes htask hremove reply =>
      exact (hs.deletes (hs.task_of_getElem htask) hremove).replied _ reply
  | walks htask hnext =>
      have htask := hs.task_of_getElem htask
      obtain ⟨hs₁, hkept⟩ := hs.visits htask (visits_of_visitNext hnext)
      exact hs₁.setTask (taskConfined_visitNext htask hkept hnext) _
  | cleanUpRepoFolder now => exact hs.addTask trivial
  | loads h => exact hs.jobStep h

end Confined

/-- In every run in which no client id is `.` or `..`, all that is done for a
request is done in the folder of its client, whatever the file names are. -/
theorem clientIsolation {fs : FileSystem}
    (h : ReachedBy q.step (fun _ a => a.Segments ∧ a.NamesClient) (.start fs) s) :
    ∀ a ∈ s.accesses, q.Isolated a := by
  have hinit : q.Confined (.start fs) := ⟨by simp [Repo.start], by simp [Repo.start],
    by simp [Repo.start]⟩
  have hconfined : q.Confined s := h.invariant hinit fun s a s' hallowed hstep hs =>
    hs.step hallowed.1 hallowed.2 hstep
  exact hconfined.accesses

end QueryService

/-- Two clients, a file of one of them, and a file outside the repository. -/
def twoClients : FileSystem where
  entries := ([⟨[], .directory⟩, ⟨["repo"], .directory⟩, ⟨["repo", "alice"], .directory⟩,
    ⟨["repo", "bob"], .directory⟩, ⟨["repo", "bob", "a.csv"], .file 0⟩, ⟨["secret"], .file 1⟩] :
      List (Σ _ : Path, DirEntry)).toAList
  data := fun _ => ⟨[1, 2, 3], 0⟩
  nextInode := 2

/-- A client streams its own file. -/
theorem clientIsolation_ownFile :
    ∃ s, ReachedBy downloader.step (fun _ a => a.Segments ∧ a.NamesClient) (.start twoClients) s ∧
      ⟨"bob", .read, ["repo", "bob", "a.csv"]⟩ ∈ s.accesses ∧
      downloader.Isolated ⟨"bob", .read, ["repo", "bob", "a.csv"]⟩ := by
  have hstart : ReachedBy downloader.step (fun _ a => a.Segments ∧ a.NamesClient)
      (.start twoClients) (.start twoClients) := .start
  have hbob : "bob" ≠ "." ∧ "bob" ≠ ".." := by decide
  have hstreamed := hstart.next (.request (.streamFile "bob" "a.csv"))
    ⟨⟨by decide, by decide⟩, hbob⟩ rfl
  have hread : (⟨"bob", .read, ["repo", "bob", "a.csv"]⟩ : Access) ∈
      (downloader.handle (.start twoClients) (.streamFile "bob" "a.csv")).accesses := by decide
  exact ⟨_, hstreamed, hread, QueryService.clientIsolation hstreamed _ hread⟩

/-- With the client id `..` a file outside the repository is read, and with
`.` the files of every client are deleted. -/
theorem clientIsolation_upwards :
    (∃ s, ReachedBy downloader.step (fun _ a => a.Segments) (.start twoClients) s ∧
      ⟨"..", .read, ["secret"]⟩ ∈ s.accesses) ∧
    (∃ s, ReachedBy downloader.step (fun _ a => a.Segments) (.start twoClients) s ∧
      ⟨".", .delete, ["repo", "bob", "a.csv"]⟩ ∈ s.accesses) ∧
    ¬ ∀ s, ReachedBy downloader.step (fun _ a => a.Segments) (.start twoClients) s →
      ∀ a ∈ s.accesses, downloader.Isolated a := by
  have hstart : ReachedBy downloader.step (fun _ a => a.Segments) (.start twoClients)
      (.start twoClients) := .start
  have hstreamed := hstart.next (.request (.streamFile ".." "secret"))
    ⟨by decide, by decide⟩ rfl
  have hread : (⟨"..", .read, ["secret"]⟩ : Access) ∈
      (downloader.handle (.start twoClients) (.streamFile ".." "secret")).accesses := by decide
  -- the walk from the root goes through both folders
  have hasked := hstart.next (.request (.deleteFiles ".")) (by decide : IsSegment ".") rfl
  have hroot := hasked.next (.visit 0 []) trivial rfl
  have halice := hroot.next (.visit 0 []) trivial rfl
  have hleft := halice.next (.visit 0 []) trivial rfl
  have hbob := hleft.next (.visit 0 []) trivial rfl
  have hdeleted := hbob.next (.visit 0 []) trivial rfl
  refine ⟨⟨_, hstreamed, hread⟩, ⟨_, hdeleted, ?_⟩, ?_⟩
  · decide
  · intro h
    obtain ⟨⟨name, hchild⟩, -, -⟩ := h _ hstreamed _ hread
    have hroot : downloader.clientFolder ".." = [] := by decide
    rw [hroot] at hchild
    cases hchild

end AisStore
