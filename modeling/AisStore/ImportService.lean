import AisStore.Archiver
import AisStore.RestoreFile

/-!
`FileImportService.run`: the loop that looks for backup files and restores
them, for as long as the service runs.

`RestoreFile` follows one call of `restoreFile`. Here the calls come one
after the other as the loop makes them, with the tests, the sleeps and the
directory stream in between, and with everything else going on as it does
there: the stage takes messages off its queue, the sources put some there,
files come into the directory, and the service is shut down. Each step of a
call is a step of `RestoreFile.step`. Of the directory stream the model has
that it yields files that are there, each at most once, in any order and
leaving out any of them.

What holds over all runs is said in `BackupsKept`, `LiveTraffic`,
`ImportShutdown` and `BackupsRestored`.
-/

namespace AisStore

open Lib

/-- The settings, as far as the import service knows them. -/
structure ImportConfig where
  batchSize : ℤ
  /-- The bound of the input queue of the main stage. -/
  queueSize : ℕ
  findUnique : (String → Bool) → String → String

/-- What a call of `restoreFile` gets. -/
def ImportConfig.call (cfg : ImportConfig) (path : String) : RestoreConfig :=
  ⟨cfg.batchSize, cfg.queueSize, path, cfg.findUnique⟩

@[simp] theorem ImportConfig.path_call (cfg : ImportConfig) (path : String) :
    (cfg.call path).path = path := rfl

/-- A directory stream, with what it has yielded, and the variable `count`. -/
structure Listing where
  yielded : List String
  count : ℤ

/-- What `run` does next. -/
inductive ImportControl where
  | createDirectories
  | whileRunning
  | sleep
  | ifNoPressure
  | ifExists
  | newDirectoryStream
  | next (ds : Listing)
  | ifNotRunning (ds : Listing) (path : String)
  /-- A call is under way, with what `Restore` has of it. -/
  | restoreFile (ds : Listing) (path : String) (position : ℕ) (accepted : List AisPacket)
      (control : RestoreControl)
  | longBreak (ds : Listing)
  /-- The loop that waits until there is plenty of room in the queue. -/
  | whileOutstanding (ds : Listing)
  | outstanding (ds : Listing)
  | sleepOutstanding (ds : Listing)
  | returned
  /-- `sleepUnlessShutdown` has thrown. -/
  | failed
  /-- The backup directory could not be created. -/
  | exited

structure ImportService where
  /-- `isRunning()`. -/
  running : Bool
  inputQueue : List AisPacket
  /-- Of each packet in the queue, whether a restore has put it there. -/
  fromBackup : List Bool
  /-- The backup directory. -/
  files : String → Option (List AisPacket)
  /-- The files that were deleted, each with what the queue accepted of it. -/
  restored : List (String × List AisPacket)
  control : ImportControl

inductive ImportAction where
  | createDirectories (created : Bool)
  /-- A look at `isRunning()`. -/
  | test
  | sleep (slept : Bool)
  | getNumberOfOutstandingPackets
  | ifExists (found : Bool)
  | newDirectoryStream (opened : Bool)
  /-- The directory stream yields a file. -/
  | next (path : String)
  /-- It has come to its end, or throws. -/
  | endOfStream
  /-- A step of `restoreFile`. -/
  | restoreFile (a : RestoreAction)
  | takeBatch (n : ℕ)
  | deliver (packet : AisPacket)
  | newFile (path : String) (packets : List AisPacket)
  | shutdown

/-- A step of the call, not of those around it. -/
def RestoreAction.isOwn : RestoreAction → Bool
  | .takeBatch _ => false
  | .deliver _ => false
  | .newFile _ _ => false
  | .shutdown => false
  | _ => true

/-- The step of a call that is no failure. -/
def RestoreAction.succeeds : RestoreAction → Bool
  | .createFromFile created => created
  | .readPacket read => read
  | .sleep slept => slept
  | .close closed => closed
  | .delete deleted => deleted
  | .moveUnreadable _ => false
  | _ => true

/-- The call is on its way to the delete. -/
def RestoreControl.isFine : RestoreControl → Bool
  | .close atEnd => atEnd
  | .moveUnreadable => false
  | _ => true

/-- `count++` is left out when `restoreFile` has thrown. -/
def Listing.after (ds : Listing) : RestoreOutcome → Listing
  | .renamed _ => ds
  | .notRenamed => ds
  | _ => { ds with count := wrapInt (ds.count + 1) }

namespace ImportService

variable (cfg : ImportConfig)

def start (inputQueue : List AisPacket) (files : String → Option (List AisPacket)) :
    ImportService :=
  ⟨true, inputQueue, inputQueue.map fun _ => false, files, [], .createDirectories⟩

def goto (s : ImportService) (control : ImportControl) : ImportService :=
  { s with control := control }

/-- The call that is under way. -/
def call (s : ImportService) (position : ℕ) (accepted : List AisPacket)
    (control : RestoreControl) : Restore :=
  ⟨s.running, s.inputQueue, s.files, position, accepted, control⟩

/-- Where `run` is when the call has come to `r`. -/
def controlAfter (ds : Listing) (path : String) (r : Restore) : ImportControl :=
  match r.control with
  | .ended outcome =>
    if (ds.after outcome).count.tmod 50 = 49 then .longBreak (ds.after outcome)
    else .whileOutstanding (ds.after outcome)
  | _ => .restoreFile ds path r.position r.accepted r.control

/-- The service after a step of the call. -/
def resume (s : ImportService) (ds : Listing) (path : String) (r : Restore) : ImportService where
  running := r.running
  inputQueue := r.inputQueue
  fromBackup :=
    s.fromBackup ++ List.replicate (r.inputQueue.length - s.inputQueue.length) true
  files := r.files
  restored :=
    if r.control = .ended .deleted then s.restored ++ [(path, r.accepted)] else s.restored
  control := controlAfter ds path r

def step (s : ImportService) : ImportAction → Option ImportService
  | .createDirectories created =>
    match s.control with
    | .createDirectories => some (goto s (if created then .whileRunning else .exited))
    | _ => none
  | .test =>
    match s.control with
    | .whileRunning => some (goto s (if s.running then .sleep else .returned))
    | .ifNotRunning ds path =>
      some (goto s
        (if s.running then
          if Archiver.isZip path then .restoreFile ds path 0 [] .createFromFile else .next ds
         else .whileRunning))
    | .whileOutstanding ds => some (goto s (if s.running then .outstanding ds else .next ds))
    | _ => none
  | .sleep slept =>
    match s.control with
    | .sleep => some (goto s (if slept then .ifNoPressure else .failed))
    -- in the inner try, which only logs
    | .longBreak ds => some (goto s (if slept then .whileOutstanding ds else .whileRunning))
    | .sleepOutstanding ds => some (goto s (if slept then .whileOutstanding ds else .whileRunning))
    | _ => none
  | .getNumberOfOutstandingPackets =>
    match s.control with
    | .ifNoPressure =>
      some (goto s (if s.inputQueue.length < cfg.batchSize then .ifExists else .whileRunning))
    | .outstanding ds =>
      some (goto s (if s.inputQueue.length > cfg.batchSize then .sleepOutstanding ds else .next ds))
    | _ => none
  | .ifExists found =>
    match s.control with
    | .ifExists => some (goto s (if found then .newDirectoryStream else .whileRunning))
    | _ => none
  | .newDirectoryStream opened =>
    match s.control with
    | .newDirectoryStream => some (goto s (if opened then .next ⟨[], 0⟩ else .whileRunning))
    | _ => none
  | .next path =>
    match s.control with
    | .next ds =>
      if path ∉ ds.yielded ∧ (s.files path).isSome then
        some (goto s (.ifNotRunning { ds with yielded := path :: ds.yielded } path))
      else none
    | _ => none
  | .endOfStream =>
    match s.control with
    | .next _ => some (goto s .whileRunning)
    | _ => none
  | .restoreFile a =>
    match s.control with
    | .restoreFile ds path position accepted control =>
      if a.isOwn then
        (RestoreFile.step (cfg.call path) (s.call position accepted control) a).map
          (resume s ds path)
      else none
    | _ => none
  | .takeBatch n =>
    if n ≤ s.inputQueue.length then
      some { s with inputQueue := s.inputQueue.drop n, fromBackup := s.fromBackup.drop n }
    else none
  | .deliver packet =>
    if s.inputQueue.length < cfg.queueSize then
      some { s with
        inputQueue := s.inputQueue ++ [packet]
        fromBackup := s.fromBackup ++ [false] }
    else none
  | .newFile path packets =>
    if s.files path = none then
      some { s with files := Function.update s.files path (some packets) }
    else none
  | .shutdown => some { s with running := false }

end ImportService

end AisStore
