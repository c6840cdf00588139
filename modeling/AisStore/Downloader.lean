import AisStore.Lib.FileSystem
import AisStore.Lib.Transition
import Mathlib.Data.List.Infix
import Mathlib.Data.List.Sort
import Mathlib.Algebra.Order.Ring.Int

/-!
`QueryService`: the downloader.

A request is answered by a thread of its own, and each query it makes is
loaded into a file by a job on another. Both work on one file system, so
they are given as one state and one step function, like the archiver: an
action is what a thread does between two looks at the files, and the actions
of the threads come in any order. What the threads do to files is recorded,
with the client id of the request, in `accesses`.

A job loads into a file whose name ends in `.download` and renames it at the
end. The connection is the environment's: it brings a response piece by
piece and can fail at any point, also by one of the timeouts.
`FileChannel.transferFrom` may then throw, but may also return having
transferred less than there was, and its callers are told so only by the
number it returns. A `PrintStream` does not throw when a write fails.
-/

namespace AisStore

open Lib

def downloadSuffix : String := ".download"

def errorSuffix : String := ".err.txt"

/-- `FILE_EXPIRY_MS`, 4 hours. -/
def fileExpiryMs : ℤ := 1000 * 60 * 60 * 4

def contains (s part : String) : Bool := part.toList <:+: s.toList

def endsWith (s ending : String) : Bool := ending.toList <:+ s.toList

/-- The file type of a URL. -/
def fileType (url : String) : String :=
  if contains url "OUTPUT_TO_KML" then ".kml"
  else if contains url "OUTPUT_TO_HTML" then ".html"
  else if contains url "table" then ".csv"
  else if contains url "json" then ".json"
  else ".txt"

/-- A file in the repository, as it is reported. -/
structure RepoFile where
  name : String
  path : String
  updated : Option ℤ
  size : Option ℤ
  complete : Bool := false
  deriving DecidableEq, Repr

/-- `a.compareTo(b) <= 0`. -/
def RepoFile.le (a b : RepoFile) : Prop :=
  match a.updated, b.updated with
  | none, _ => True
  | some _, none => False
  | some s, some t => s ≤ t

instance : DecidableRel RepoFile.le := fun a b => by
  unfold RepoFile.le
  split <;> infer_instance

/-- The settings. `dateFormat` is `new SimpleDateFormat("MM-dd HHmmss ").format`
in the time zone of the server. -/
structure QueryService where
  repoRoot : Path
  aisViewUrl : String
  dateFormat : ℤ → String

/-! ### Jobs -/

/-- How `asyncLoadFile` ends: with an error file, or with the download, of so
many bytes of a response, renamed or not. -/
inductive JobResult where
  | errorFile
  | moved (body : List UInt8) (written : ℕ)
  | notMoved

/-- How far a job has come. -/
inductive Phase where
  | submitted
  /-- The connection is open and will bring this response. -/
  | connected (body : List UInt8)
  /-- The file is open, and so much has been written to it. -/
  | transferring (body : List UInt8) (inode written : ℕ)
  /-- `transferFrom` has returned. -/
  | returned (body : List UInt8) (inode written : ℕ)
  /-- The streams are closed. -/
  | copied (body : List UInt8) (inode written : ℕ)
  /-- An exception has been caught. -/
  | failed
  /-- The old file has been deleted, where it could be. -/
  | cleaned
  /-- The error file is open, and so much of the stack trace has been printed. -/
  | reporting (trace : List UInt8) (inode printed : ℕ)
  | finished (result : JobResult)

structure Job where
  clientId : String
  url : String
  dir : Path
  fileName : String
  phase : Phase

namespace Job

/-- The name of the resulting file, which drops the suffix. -/
def name (job : Job) : String :=
  String.ofList
    (job.fileName.toList.take (job.fileName.toList.length - downloadSuffix.toList.length))

def path (job : Job) : Path := job.dir ++ [job.fileName]

def resultPath (job : Job) : Path := job.dir ++ [job.name]

def errorPath (job : Job) : Path := job.dir ++ [job.name ++ errorSuffix]

end Job

/-! ### The state -/

inductive AccessKind where
  | folder
  | read
  | create
  | list
  | delete
  deriving DecidableEq, Repr

/-- What was done for a request, and to which file. -/
structure Access where
  clientId : String
  kind : AccessKind
  path : Path
  deriving DecidableEq, Repr

inductive Visitor where
  /-- That of `deleteFiles`. -/
  | deleteAll (clientId : String)
  /-- That of `cleanUpRepoFolder`. -/
  | deleteExpired (expiredTime : ℤ)

/-- What a walk of a file tree has yet to come to: a file or a directory, or
the end of a directory. -/
inductive Visit where
  | entry (p : Path)
  | leave (p : Path)

inductive Reply where
  | repoFile (vo : RepoFile)
  | files (vos : List RepoFile)
  | content (bytes : List UInt8)
  | text (body : String)
  | notFound (body : String)
  | exception
  | nothing

/-- What a thread that answers a request does next. -/
inductive Task where
  | createTempFile (clientId : String) (async : Bool) (url : String)
  | awaitResult (clientId : String) (job : ℕ) (now : ℤ)
  | delete (clientId : String) (path : Path)
  | walkFileTree (visitor : Visitor) (visits : List Visit)
  | replied (reply : Reply)

structure Repo where
  fs : FileSystem
  jobs : List Job
  tasks : List Task
  /-- Every file that `createTempFile` has created. -/
  used : List Path
  accesses : List Access

namespace Repo

/-- Before the first request. -/
def start (fs : FileSystem) : Repo := ⟨fs, [], [], [], []⟩

def note (s : Repo) (clientId : String) (kind : AccessKind) (path : Path) : Repo :=
  { s with accesses := s.accesses ++ [⟨clientId, kind, path⟩] }

def addTask (s : Repo) (task : Task) : Repo := { s with tasks := s.tasks ++ [task] }

def setTask (s : Repo) (i : ℕ) (task : Task) : Repo := { s with tasks := s.tasks.set i task }

/-- A file has been created for a new job. -/
def submit (s : Repo) (fs : FileSystem) (p : Path) (job : Job) : Repo :=
  { s with fs := fs, used := p :: s.used, jobs := s.jobs ++ [job] }

end Repo

inductive Request where
  | executeQuery (clientId : String) (async : Bool) (params : String)
  | streamFile (clientId file : String)
  | deleteFile (clientId file : String)
  | deleteFiles (clientId : String)
  | listFiles (clientId : String)

/-- What the environment decides about a job. -/
inductive JobAction where
  /-- `getInputStream` returns, or throws. -/
  | connect (body : List UInt8)
  | connectFails
  /-- `new FileOutputStream(path.toFile())`. -/
  | createFile (now : ℤ)
  /-- The next bytes of the response arrive and are written. -/
  | transfer (n : ℕ) (now : ℤ)
  /-- The response ends, and `transferFrom` returns. -/
  | endOfBody
  /-- The connection fails. `transferFrom` throws, or returns what it has. -/
  | connectionFails (noticed : Bool)
  | close (closed : Bool)
  | move (moved : Bool)
  | deleteOldFile (deleted : Bool)
  /-- The error file is opened for an exception with this stack trace. -/
  | createErrorFile (trace : List UInt8) (now : ℤ)
  /-- The next `n` bytes of the trace are printed, and so many of them get
  into the file. -/
  | printStackTrace (n written : ℕ) (now : ℤ)
  | closeErrorFile

inductive Action where
  | request (r : Request)
  /-- `createTempFile` takes the time and a random number into the name. -/
  | createTempFile (task : ℕ) (now : ℤ) (random : ℕ)
  /-- `result.get()` returns, or throws. -/
  | awaitResult (task : ℕ) (interrupted : Bool)
  | delete (task : ℕ)
  /-- The walk goes on. A directory that is opened may also show names that
  come into it later. -/
  | visit (task : ℕ) (late : List String)
  | cleanUpRepoFolder (now : ℤ)
  | job (k : ℕ) (a : JobAction)

/-! ### Requests -/

namespace QueryService

variable (q : QueryService)

/-- The files of a folder that are shown, and how. -/
def repoFiles (fs : FileSystem) (clientId : String) (folder : Path) : List (Path × RepoFile) :=
  (fs.children folder).filterMap fun f =>
    match fs.lookup f with
    | some (.file i) =>
      let name := f.getLast?.getD ""
      if name.toList.head? = some '.' then none
      else some (f, {
        name := name
        path := clientId ++ "/" ++ name
        updated := some (fs.data i).modified
        size := some ((fs.data i).content.length : ℕ)
        complete := !endsWith name downloadSuffix })
    | _ => none

/-- The list a request for it is given, at one moment. -/
def listFiles (fs : FileSystem) (clientId : String) : Except Failure (List (Path × RepoFile)) := do
  let folder ← q.repoRoot.resolve clientId
  return if fs.find folder = some .directory then
      (repoFiles fs clientId folder.normalize).insertionSort fun a b => a.2.le b.2
    else []

def executeQuery (s : Repo) (clientId : String) (async : Bool) (params : String) : Repo :=
  let url := q.aisViewUrl ++ params
  match q.repoRoot.resolve clientId with
  | .error _ => s.addTask (.replied .exception)
  | .ok dir =>
    let s := s.note clientId .folder dir.normalize
    if (s.fs.find dir).isSome then s.addTask (.createTempFile clientId async url)
    else match s.fs.createDirectories dir.normalize with
      | none => s.addTask (.replied .exception)
      | some fs => { s with fs := fs }.addTask (.createTempFile clientId async url)

def streamFile (s : Repo) (clientId file : String) : Repo :=
  match q.repoRoot.resolve clientId with
  | .error _ => s.addTask (.replied .exception)
  | .ok folder =>
    let s := s.note clientId .folder folder.normalize
    match folder.resolve file with
    | .error _ => s.addTask (.replied .exception)
    | .ok path =>
      if s.fs.notExists path || s.fs.find path = some .directory then
        s.addTask (.replied (.notFound ""))
      else match s.fs.find path with
        | some (.file i) =>
          (s.note clientId .read path.normalize).addTask
            (.replied (.content (s.fs.data i).content))
        | _ => s.addTask (.replied .exception)

def deleteFile (s : Repo) (clientId file : String) : Repo :=
  match q.repoRoot.resolve clientId with
  | .error _ => s.addTask (.replied .exception)
  | .ok folder =>
    let s := s.note clientId .folder folder.normalize
    match folder.resolve file with
    | .error _ => s.addTask (.replied .exception)
    | .ok path =>
      if s.fs.notExists path || s.fs.find path = some .directory then
        s.addTask (.replied (.notFound "404"))
      else s.addTask (.delete clientId path)

def deleteFiles (s : Repo) (clientId : String) : Repo :=
  match q.repoRoot.resolve clientId with
  | .error _ => s.addTask (.replied .exception)
  | .ok path =>
    let s := s.note clientId .folder path.normalize
    if s.fs.find path = some .directory then
      s.addTask (.walkFileTree (.deleteAll clientId) [.entry path.normalize])
    else s.addTask (.replied (.notFound ("Failed deleting files in " ++ clientId)))

def replyListFiles (s : Repo) (clientId : String) : Repo :=
  match q.repoRoot.resolve clientId, q.listFiles s.fs clientId with
  | .ok folder, .ok files =>
    let s := s.note clientId .folder folder.normalize
    let listed : List Access := files.map fun f => ⟨clientId, .list, f.1⟩
    { s with accesses := s.accesses ++ listed }.addTask (.replied (.files (files.map Prod.snd)))
  | _, _ => s.addTask (.replied .exception)

def handle (s : Repo) : Request → Repo
  | .executeQuery clientId async params => q.executeQuery s clientId async params
  | .streamFile clientId file => q.streamFile s clientId file
  | .deleteFile clientId file => q.deleteFile s clientId file
  | .deleteFiles clientId => q.deleteFiles s clientId
  | .listFiles clientId => q.replyListFiles s clientId

/-! ### What the threads do later -/

/-- The name that `createTempFile` makes up. -/
def tempFileName (url : String) (now : ℤ) (random : ℕ) : String :=
  q.dateFormat now ++ toString random ++ (fileType url ++ downloadSuffix)

/-- The `RepoFile` that `executeQuery` returns. -/
def newRepoFile (clientId fileName : String) (now : ℤ) : RepoFile :=
  { name := fileName, path := clientId ++ "/" ++ fileName, updated := some now, size := some 0 }

/-- The rest of `executeQuery`. A random number that does not give a new name
is not the one `createTempFile` ends up with. -/
def createTempFile (s : Repo) (i : ℕ) (clientId : String) (async : Bool) (url : String) (now : ℤ)
    (random : ℕ) : Option Repo :=
  let fileName := q.tempFileName url now random
  match q.repoRoot.resolve clientId with
  | .error _ => some (s.setTask i (.replied .exception))
  | .ok dir =>
    let path := dir ++ [fileName]
    if '/' ∈ fileName.toList then some (s.setTask i (.replied .exception))
    else match s.fs.locate path with
      | none => some (s.setTask i (.replied .exception))
      | some p =>
        if p ∈ s.used then none
        else match s.fs.createNew p now with
          | none => none
          | some (_, fs) =>
            let task : Task := if async then .replied (.repoFile (newRepoFile clientId fileName now))
              else .awaitResult clientId s.jobs.length now
            let s := s.submit fs p ⟨clientId, url, dir, fileName, .submitted⟩
            some ((s.note clientId .create p).setTask i task)

/-- The end of an `executeQuery` that waits for its job. When the thread that
waits is interrupted, the name is still that of the temporary file. -/
def awaitResult (s : Repo) (i : ℕ) (clientId : String) (k : ℕ) (now : ℤ) (interrupted : Bool) :
    Option Repo :=
  match s.jobs[k]? with
  | some job =>
    if interrupted then
      some (s.setTask i (.replied (.repoFile (newRepoFile clientId job.fileName now))))
    else match job.phase with
      | .finished result =>
        let fileName := match result with
          | .errorFile => job.name ++ errorSuffix
          | _ => job.name
        some (s.setTask i (.replied (.repoFile (newRepoFile clientId fileName now))))
      | _ => none
  | none => none

/-- The rest of `deleteFile`. -/
def deletePath (s : Repo) (i : ℕ) (clientId : String) (path : Path) : Repo :=
  match s.fs.remove path with
  | none => s.setTask i (.replied .exception)
  | some (p, fs) =>
    ({ s with fs := fs }.note clientId .delete p).setTask i
      (.replied (.text ("Deleted /" ++ "/".intercalate path)))

/-- What the caller of a walk makes of its end. -/
def walkReply (visitor : Visitor) (completed : Bool) : Reply :=
  match visitor with
  | .deleteAll clientId =>
    .text ((if completed then "Deleted files in dir " else "Failed deleting files in ") ++ clientId)
  | .deleteExpired _ => .nothing

/-- `visitFile`. -/
def visitFile (s : Repo) (visitor : Visitor) (p : Path) (modified : ℤ) : Option Repo :=
  match visitor with
  | .deleteAll clientId => (s.fs.delete p).map fun fs => { s with fs := fs }.note clientId .delete p
  | .deleteExpired expiredTime =>
    if modified < expiredTime then (s.fs.delete p).map fun fs => { s with fs := fs } else some s

/-- `postVisitDirectory`. -/
def postVisitDirectory (s : Repo) (visitor : Visitor) (p : Path) : Option Repo :=
  match visitor with
  | .deleteAll _ => some s
  | .deleteExpired _ =>
    if p ≠ q.repoRoot.normalize ∧ s.fs.isDirectory p ∧ s.fs.children p = [] then
      (s.fs.delete p).map fun fs => { s with fs := fs }
    else some s

/-- A walk goes on: `none` when a visitor throws. -/
def visitNext (s : Repo) (visitor : Visitor) (late : List String) :
    Visit → Option (Repo × List Visit)
  | .leave p => (q.postVisitDirectory s visitor p).map fun s => (s, [])
  | .entry p =>
    match s.fs.lookup p with
    | none => none
    | some .directory =>
      some (s, (s.fs.children p ++ late.map (p ++ [·])).map .entry ++ [.leave p])
    | some (.file i) => (visitFile s visitor p (s.fs.data i).modified).map fun s => (s, [])

def visit (s : Repo) (i : ℕ) (visitor : Visitor) (late : List String) : List Visit → Repo
  | [] => s.setTask i (.replied (walkReply visitor true))
  | v :: rest =>
    match q.visitNext s visitor late v with
    | none => s.setTask i (.replied (walkReply visitor false))
    | some (s, visits) => s.setTask i (.walkFileTree visitor (visits ++ rest))

/-- The scheduled clean-up starts. -/
def cleanUpRepoFolder (s : Repo) (now : ℤ) : Repo :=
  s.addTask (.walkFileTree (.deleteExpired (now - fileExpiryMs)) [.entry q.repoRoot.normalize])

/-! ### What a job does -/

/-- A step of a job: what becomes of the files, which of them it has created
or deleted, and how far the job has come. -/
def loadFile (fs : FileSystem) (job : Job) :
    JobAction → Option (FileSystem × List (AccessKind × Path) × Phase)
  | .connect body =>
    match job.phase with
    | .submitted => some (fs, [], .connected body)
    | _ => none
  | .connectFails =>
    match job.phase with
    | .submitted => some (fs, [], .failed)
    | _ => none
  | .createFile now =>
    match job.phase with
    | .connected body =>
      match (fs.locate job.path).bind fun p => (fs.openWrite p now).map fun o => (p, o) with
      | none => some (fs, [], .failed)
      | some (p, i, fs) => some (fs, [(.create, p)], .transferring body i 0)
    | _ => none
  | .transfer n now =>
    match job.phase with
    | .transferring body i written =>
      if 0 < n ∧ written + n ≤ body.length then
        some (fs.append i ((body.drop written).take n) now, [],
          .transferring body i (written + n))
      else none
    | _ => none
  | .endOfBody =>
    match job.phase with
    | .transferring body i written =>
      if written = body.length then some (fs, [], .returned body i written) else none
    | _ => none
  | .connectionFails noticed =>
    match job.phase with
    | .transferring body i written =>
      if noticed then some (fs, [], .failed)
      else if 0 < written then some (fs, [], .returned body i written)
      else none
    | _ => none
  | .close closed =>
    match job.phase with
    | .returned body i written =>
      some (fs, [], if closed then .copied body i written else .failed)
    | _ => none
  | .move moved =>
    match job.phase with
    | .copied body _ written =>
      match (if moved then fs.locate job.path else none), fs.locate job.resultPath with
      | some p, some p' =>
        match fs.move p p' with
        | some fs => some (fs, [(.delete, p), (.create, p')], .finished (.moved body written))
        | none => some (fs, [], .finished .notMoved)
      | _, _ => some (fs, [], .finished .notMoved)
    | _ => none
  | .deleteOldFile deleted =>
    match job.phase with
    | .failed =>
      if deleted then
        match fs.remove job.path with
        | some (p, fs) => some (fs, [(.delete, p)], .cleaned)
        | none => some (fs, [], .cleaned)
      else some (fs, [], .cleaned)
    | _ => none
  | .createErrorFile trace now =>
    match job.phase with
    | .cleaned =>
      -- a stack trace at least names the exception
      if trace = [] then none
      else match (fs.locate job.errorPath).bind fun p =>
          (fs.openWrite p now).map fun o => (p, o) with
        | none => some (fs, [], .finished .errorFile)
        | some (p, i, fs) => some (fs, [(.create, p)], .reporting trace i 0)
    | _ => none
  | .printStackTrace n written now =>
    match job.phase with
    | .reporting trace i printed =>
      if 0 < n ∧ printed + n ≤ trace.length ∧ written ≤ n then
        some (fs.append i ((trace.drop printed).take written) now, [],
          .reporting trace i (printed + n))
      else none
    | _ => none
  | .closeErrorFile =>
    match job.phase with
    | .reporting trace _ printed =>
      if printed = trace.length then some (fs, [], .finished .errorFile) else none
    | _ => none

def jobStep (s : Repo) (k : ℕ) (a : JobAction) : Option Repo :=
  s.jobs[k]?.bind fun job => (loadFile s.fs job a).map fun (fs, touched, phase) =>
    { s with
      fs := fs
      jobs := s.jobs.set k { job with phase := phase }
      accesses := s.accesses ++ touched.map fun t => ⟨job.clientId, t.1, t.2⟩ }

/-- The system takes a step. -/
def step (s : Repo) : Action → Option Repo
  | .request r => some (q.handle s r)
  | .createTempFile i now random =>
    match s.tasks[i]? with
    | some (.createTempFile clientId async url) =>
      q.createTempFile s i clientId async url now random
    | _ => none
  | .awaitResult i interrupted =>
    match s.tasks[i]? with
    | some (.awaitResult clientId k now) => awaitResult s i clientId k now interrupted
    | _ => none
  | .delete i =>
    match s.tasks[i]? with
    | some (.delete clientId path) => some (deletePath s i clientId path)
    | _ => none
  | .visit i late =>
    match s.tasks[i]? with
    | some (.walkFileTree visitor visits) => some (q.visit s i visitor late visits)
    | _ => none
  | .cleanUpRepoFolder now => some (q.cleanUpRepoFolder s now)
  | .job k a => jobStep s k a

end QueryService

/-- A downloader with its repository under `/repo`. -/
def downloader : QueryService := ⟨["repo"], "rest/store/query?", fun _ => "01-31 120000 "⟩

end AisStore
