import AisStore.ImportService

/-!
What the steps of the import service can do.

As for the downloader, each function that takes a step is taken apart once:
`RestoreFile.Steps` has one case for each branch of a call of `restoreFile`,
and `ImportService.Steps` one for each branch of `run`, and for what others
do. What is said about runs later on goes by cases over these.
-/

namespace AisStore

open Lib

/-! ### A call -/

namespace RestoreFile

/-- The ways a call moves on without a change to anything else. -/
inductive Goes (cfg : RestoreConfig) (r : Restore) : RestoreAction → RestoreControl → Prop where
  | created (hcontrol : r.control = .createFromFile) :
      Goes cfg r (.createFromFile true) .readPacket
  | notCreated (hcontrol : r.control = .createFromFile) :
      Goes cfg r (.createFromFile false) .moveUnreadable
  | endOfFile (hcontrol : r.control = .readPacket)
      (hend : ((r.files cfg.path).getD [])[r.position]? = none) :
      Goes cfg r (.readPacket true) (.close true)
  | notRead (hcontrol : r.control = .readPacket) : Goes cfg r (.readPacket false) .moveUnreadable
  | running {packet : AisPacket} (hcontrol : r.control = .whileRunning packet)
      (hrunning : r.running = true) : Goes cfg r .test (.getNumberOfOutstandingPackets packet)
  | stopped {packet : AisPacket} (hcontrol : r.control = .whileRunning packet)
      (hstopped : r.running = false) : Goes cfg r .test .ifNotRunning
  | readsOn (hcontrol : r.control = .ifNotRunning) (hrunning : r.running = true) :
      Goes cfg r .test .readPacket
  | breaksOff (hcontrol : r.control = .ifNotRunning) (hstopped : r.running = false) :
      Goes cfg r .test (.close false)
  | tooMany {packet : AisPacket} (hcontrol : r.control = .getNumberOfOutstandingPackets packet)
      (hmany : wrapInt (10 * cfg.batchSize) < r.inputQueue.length) :
      Goes cfg r .getNumberOfOutstandingPackets (.sleep packet)
  | room {packet : AisPacket} (hcontrol : r.control = .getNumberOfOutstandingPackets packet)
      (hfew : r.inputQueue.length ≤ wrapInt (10 * cfg.batchSize)) :
      Goes cfg r .getNumberOfOutstandingPackets (.offer packet)
  | refused {packet : AisPacket} (hcontrol : r.control = .offer packet)
      (hfull : cfg.queueSize ≤ r.inputQueue.length) : Goes cfg r .offer (.sleep packet)
  | slept {packet : AisPacket} (hcontrol : r.control = .sleep packet) :
      Goes cfg r (.sleep true) (.whileRunning packet)
  | interrupted {packet : AisPacket} (hcontrol : r.control = .sleep packet) :
      Goes cfg r (.sleep false) .moveUnreadable
  | closed (hcontrol : r.control = .close true) : Goes cfg r (.close true) .delete
  | closedEarly (hcontrol : r.control = .close false) :
      Goes cfg r (.close true) (.ended .returnedEarly)
  | notClosed {atEnd : Bool} (hcontrol : r.control = .close atEnd) :
      Goes cfg r (.close false) .moveUnreadable
  | notDeleted (hcontrol : r.control = .delete) : Goes cfg r (.delete false) (.ended .notDeleted)
  | notRenamed {moved : Bool} (hcontrol : r.control = .moveUnreadable) :
      Goes cfg r (.moveUnreadable moved) (.ended .notRenamed)

/-- The ways a call goes on. -/
inductive Steps (cfg : RestoreConfig) (r : Restore) : RestoreAction → Restore → Prop where
  | goes {a : RestoreAction} {control : RestoreControl} (h : Goes cfg r a control) :
      Steps cfg r a (goto r control)
  | read {packet : AisPacket} (hcontrol : r.control = .readPacket)
      (hpacket : ((r.files cfg.path).getD [])[r.position]? = some packet) :
      Steps cfg r (.readPacket true)
        { r with position := r.position + 1, control := .whileRunning packet }
  | offered {packet : AisPacket} (hcontrol : r.control = .offer packet)
      (hroom : r.inputQueue.length < cfg.queueSize) :
      Steps cfg r .offer
        { r with
          inputQueue := r.inputQueue ++ [packet]
          accepted := r.accepted ++ [packet]
          control := .ifNotRunning }
  | deleted (hcontrol : r.control = .delete) :
      Steps cfg r (.delete true)
        { r with files := Function.update r.files cfg.path none, control := .ended .deleted }
  | renamed (hcontrol : r.control = .moveUnreadable)
      (hfree : r.files (unreadable cfg r.files) = none) :
      Steps cfg r (.moveUnreadable true)
        { r with
          files := Function.update (Function.update r.files cfg.path none)
            (unreadable cfg r.files) (r.files cfg.path)
          control := .ended (.renamed (unreadable cfg r.files)) }

variable {cfg : RestoreConfig} {r r' : Restore} {a : RestoreAction}

theorem steps_of_step (hown : a.isOwn = true) (hstep : step cfg r a = some r') :
    Steps cfg r a r' := by
  cases a with
  | createFromFile created =>
      simp only [step] at hstep
      split at hstep <;> cases hstep
      rename_i hcontrol
      cases created with
      | true => exact .goes (.created hcontrol)
      | false => exact .goes (.notCreated hcontrol)
  | readPacket read =>
      simp only [step] at hstep
      split at hstep
      · rename_i hcontrol
        cases read with
        | true =>
            rw [if_pos rfl] at hstep
            split at hstep <;> cases hstep
            · rename_i hend
              exact .goes (.endOfFile hcontrol hend)
            · rename_i hpacket
              exact .read hcontrol hpacket
        | false =>
            cases hstep
            exact .goes (.notRead hcontrol)
      · cases hstep
  | test =>
      simp only [step] at hstep
      split at hstep <;> cases hstep
      · rename_i packet hcontrol
        split
        · rename_i hrunning
          exact .goes (.running hcontrol hrunning)
        · rename_i hstopped
          exact .goes (.stopped hcontrol (Bool.not_eq_true _ ▸ hstopped))
      · rename_i hcontrol
        split
        · rename_i hrunning
          exact .goes (.readsOn hcontrol hrunning)
        · rename_i hstopped
          exact .goes (.breaksOff hcontrol (Bool.not_eq_true _ ▸ hstopped))
  | getNumberOfOutstandingPackets =>
      simp only [step] at hstep
      split at hstep <;> cases hstep
      rename_i packet hcontrol
      split
      · rename_i hmany
        exact .goes (.tooMany hcontrol hmany)
      · rename_i hfew
        exact .goes (.room hcontrol (not_lt.mp hfew))
  | offer =>
      simp only [step] at hstep
      split at hstep
      · rename_i packet hcontrol
        split at hstep <;> cases hstep
        · rename_i hroom
          exact .offered hcontrol hroom
        · rename_i hfull
          exact .goes (.refused hcontrol (not_lt.mp hfull))
      · cases hstep
  | sleep slept =>
      simp only [step] at hstep
      split at hstep <;> cases hstep
      rename_i packet hcontrol
      cases slept with
      | true => exact .goes (.slept hcontrol)
      | false => exact .goes (.interrupted hcontrol)
  | close closed =>
      simp only [step] at hstep
      split at hstep <;> cases hstep
      rename_i atEnd hcontrol
      cases closed with
      | false => exact .goes (.notClosed hcontrol)
      | true =>
          cases atEnd with
          | true => exact .goes (.closed hcontrol)
          | false => exact .goes (.closedEarly hcontrol)
  | delete deleted =>
      simp only [step] at hstep
      split at hstep
      · rename_i hcontrol
        cases deleted with
        | true =>
            cases hstep
            exact .deleted hcontrol
        | false =>
            cases hstep
            exact .goes (.notDeleted hcontrol)
      · cases hstep
  | moveUnreadable moved =>
      simp only [step] at hstep
      split at hstep
      · rename_i hcontrol
        split at hstep <;> cases hstep
        · rename_i hmoved
          obtain ⟨rfl, hfree⟩ := hmoved
          exact .renamed hcontrol hfree
        · exact .goes (.notRenamed hcontrol)
      · cases hstep
  | _ => cases hown

end RestoreFile

/-! ### What a step does to the queue and the directory -/

/-- What a step of a call can do to what it shares. -/
inductive Touches (cfg : RestoreConfig) (r r' : Restore) : Prop where
  /-- Nothing, and it comes to its offer only when there was room. -/
  | nothing (hqueue : r'.inputQueue = r.inputQueue) (hfiles : r'.files = r.files)
      (hoffer : ∀ packet, r'.control = .offer packet →
        r.inputQueue.length ≤ wrapInt (10 * cfg.batchSize))
      (hgoing : ∀ outcome, r'.control = .ended outcome → outcome = .returnedEarly ∨
        outcome = .notDeleted ∨ outcome = .notRenamed)
  | offered (packet : AisPacket) (hoffer : r.control = .offer packet)
      (hqueue : r'.inputQueue = r.inputQueue ++ [packet]) (hfiles : r'.files = r.files)
      (hcontrol : r'.control = .ifNotRunning)
  | deleted (hqueue : r'.inputQueue = r.inputQueue) (hcontrol : r'.control = .ended .deleted)
      (hfiles : r'.files = Function.update r.files cfg.path none)
  | renamed (hqueue : r'.inputQueue = r.inputQueue)
      (hfree : r.files (RestoreFile.unreadable cfg r.files) = none)
      (hcontrol : r'.control = .ended (.renamed (RestoreFile.unreadable cfg r.files)))
      (hfiles : r'.files = Function.update (Function.update r.files cfg.path none)
        (RestoreFile.unreadable cfg r.files) (r.files cfg.path))
section
variable {cfg : RestoreConfig} {r r' : Restore} {a : RestoreAction}

theorem touches_of_step (hown : a.isOwn = true) (hstep : RestoreFile.step cfg r a = some r') :
    Touches cfg r r' := by
  cases RestoreFile.steps_of_step hown hstep with
  | goes h =>
      refine .nothing rfl rfl (fun packet hoffer => ?_) (fun outcome hended => ?_)
      · cases h <;> cases hoffer
        assumption
      · cases h <;> cases hended <;> simp
  | read _ _ => exact .nothing rfl rfl (by simp) (by simp)
  | offered hcontrol _ => exact .offered _ hcontrol rfl rfl rfl
  | deleted _ => exact .deleted rfl rfl rfl
  | renamed _ hfree => exact .renamed rfl hfree rfl rfl

theorem running_of_step (hown : a.isOwn = true) (hstep : RestoreFile.step cfg r a = some r') :
    r'.running = r.running := by
  cases RestoreFile.steps_of_step hown hstep <;> rfl

end

/-! ### The loop -/

namespace ImportService

/-- The ways `run` moves on outside of a call. -/
inductive Goes (cfg : ImportConfig) (s : ImportService) : ImportAction → ImportControl → Prop where
  | created (hcontrol : s.control = .createDirectories) :
      Goes cfg s (.createDirectories true) .whileRunning
  | notCreated (hcontrol : s.control = .createDirectories) :
      Goes cfg s (.createDirectories false) .exited
  | running (hcontrol : s.control = .whileRunning) (hrunning : s.running = true) :
      Goes cfg s .test .sleep
  | returns (hcontrol : s.control = .whileRunning) (hstopped : s.running = false) :
      Goes cfg s .test .returned
  | restores {ds : Listing} {path : String} (hcontrol : s.control = .ifNotRunning ds path)
      (hrunning : s.running = true) (hzip : Archiver.isZip path = true) :
      Goes cfg s .test (.restoreFile ds path 0 [] .createFromFile)
  | passesOver {ds : Listing} {path : String} (hcontrol : s.control = .ifNotRunning ds path)
      (hrunning : s.running = true) (hother : Archiver.isZip path = false) :
      Goes cfg s .test (.next ds)
  | breaksOff {ds : Listing} {path : String} (hcontrol : s.control = .ifNotRunning ds path)
      (hstopped : s.running = false) : Goes cfg s .test .whileRunning
  | looks {ds : Listing} (hcontrol : s.control = .whileOutstanding ds)
      (hrunning : s.running = true) : Goes cfg s .test (.outstanding ds)
  | looksNoMore {ds : Listing} (hcontrol : s.control = .whileOutstanding ds)
      (hstopped : s.running = false) : Goes cfg s .test (.next ds)
  | slept (hcontrol : s.control = .sleep) : Goes cfg s (.sleep true) .ifNoPressure
  | interrupted (hcontrol : s.control = .sleep) : Goes cfg s (.sleep false) .failed
  | sleptLong {ds : Listing} (hcontrol : s.control = .longBreak ds) :
      Goes cfg s (.sleep true) (.whileOutstanding ds)
  | longInterrupted {ds : Listing} (hcontrol : s.control = .longBreak ds) :
      Goes cfg s (.sleep false) .whileRunning
  | waited {ds : Listing} (hcontrol : s.control = .sleepOutstanding ds) :
      Goes cfg s (.sleep true) (.whileOutstanding ds)
  | waitInterrupted {ds : Listing} (hcontrol : s.control = .sleepOutstanding ds) :
      Goes cfg s (.sleep false) .whileRunning
  | noPressure (hcontrol : s.control = .ifNoPressure)
      (hfew : s.inputQueue.length < cfg.batchSize) :
      Goes cfg s .getNumberOfOutstandingPackets .ifExists
  | pressure (hcontrol : s.control = .ifNoPressure)
      (hmany : cfg.batchSize ≤ s.inputQueue.length) :
      Goes cfg s .getNumberOfOutstandingPackets .whileRunning
  | tooMany {ds : Listing} (hcontrol : s.control = .outstanding ds)
      (hmany : cfg.batchSize < s.inputQueue.length) :
      Goes cfg s .getNumberOfOutstandingPackets (.sleepOutstanding ds)
  | plentyOfRoom {ds : Listing} (hcontrol : s.control = .outstanding ds)
      (hfew : s.inputQueue.length ≤ cfg.batchSize) :
      Goes cfg s .getNumberOfOutstandingPackets (.next ds)
  | found (hcontrol : s.control = .ifExists) : Goes cfg s (.ifExists true) .newDirectoryStream
  | notFound (hcontrol : s.control = .ifExists) : Goes cfg s (.ifExists false) .whileRunning
  | opened (hcontrol : s.control = .newDirectoryStream) :
      Goes cfg s (.newDirectoryStream true) (.next ⟨[], 0⟩)
  | notOpened (hcontrol : s.control = .newDirectoryStream) :
      Goes cfg s (.newDirectoryStream false) .whileRunning
  | yielded {ds : Listing} {path : String} (hcontrol : s.control = .next ds)
      (hnew : path ∉ ds.yielded) (hthere : (s.files path).isSome = true) :
      Goes cfg s (.next path) (.ifNotRunning { ds with yielded := path :: ds.yielded } path)
  | atEnd {ds : Listing} (hcontrol : s.control = .next ds) : Goes cfg s .endOfStream .whileRunning

/-- The ways the service goes on. -/
inductive Steps (cfg : ImportConfig) (s : ImportService) : ImportAction → ImportService → Prop where
  | goes {a : ImportAction} {control : ImportControl} (h : Goes cfg s a control) :
      Steps cfg s a (goto s control)
  | calls {ds : Listing} {path : String} {position : ℕ} {accepted : List AisPacket}
      {control : RestoreControl} {a : RestoreAction} {r : Restore}
      (hcontrol : s.control = .restoreFile ds path position accepted control)
      (hown : a.isOwn = true)
      (hcall : RestoreFile.step (cfg.call path) (s.call position accepted control) a = some r) :
      Steps cfg s (.restoreFile a) (s.resume ds path r)
  | takesBatch {n : ℕ} (hn : n ≤ s.inputQueue.length) :
      Steps cfg s (.takeBatch n)
        { s with inputQueue := s.inputQueue.drop n, fromBackup := s.fromBackup.drop n }
  | delivers (packet : AisPacket) (hroom : s.inputQueue.length < cfg.queueSize) :
      Steps cfg s (.deliver packet)
        { s with
          inputQueue := s.inputQueue ++ [packet]
          fromBackup := s.fromBackup ++ [false] }
  | comes {path : String} (packets : List AisPacket) (hfree : s.files path = none) :
      Steps cfg s (.newFile path packets)
        { s with files := Function.update s.files path (some packets) }
  | stops : Steps cfg s .shutdown { s with running := false }

variable {cfg : ImportConfig} {s s' : ImportService} {a : ImportAction}

theorem steps_of_step (hstep : step cfg s a = some s') : Steps cfg s a s' := by
  cases a with
  | createDirectories created =>
      simp only [step] at hstep
      split at hstep <;> cases hstep
      rename_i hcontrol
      cases created with
      | true => exact .goes (.created hcontrol)
      | false => exact .goes (.notCreated hcontrol)
  | test =>
      simp only [step] at hstep
      split at hstep <;> cases hstep
      · rename_i hcontrol
        cases hrunning : s.running with
        | true => exact .goes (.running hcontrol hrunning)
        | false => exact .goes (.returns hcontrol hrunning)
      · rename_i ds path hcontrol
        cases hrunning : s.running with
        | true =>
            cases hzip : Archiver.isZip path with
            | true => exact .goes (.restores hcontrol hrunning hzip)
            | false => exact .goes (.passesOver hcontrol hrunning hzip)
        | false => exact .goes (.breaksOff hcontrol hrunning)
      · rename_i ds hcontrol
        cases hrunning : s.running with
        | true => exact .goes (.looks hcontrol hrunning)
        | false => exact .goes (.looksNoMore hcontrol hrunning)
  | sleep slept =>
      simp only [step] at hstep
      split at hstep <;> cases hstep
      · rename_i hcontrol
        cases slept with
        | true => exact .goes (.slept hcontrol)
        | false => exact .goes (.interrupted hcontrol)
      · rename_i ds hcontrol
        cases slept with
        | true => exact .goes (.sleptLong hcontrol)
        | false => exact .goes (.longInterrupted hcontrol)
      · rename_i ds hcontrol
        cases slept with
        | true => exact .goes (.waited hcontrol)
        | false => exact .goes (.waitInterrupted hcontrol)
  | getNumberOfOutstandingPackets =>
      simp only [step] at hstep
      split at hstep <;> cases hstep
      · rename_i hcontrol
        split
        · rename_i hfew
          exact .goes (.noPressure hcontrol hfew)
        · rename_i hmany
          exact .goes (.pressure hcontrol (not_lt.mp hmany))
      · rename_i ds hcontrol
        split
        · rename_i hmany
          exact .goes (.tooMany hcontrol hmany)
        · rename_i hfew
          exact .goes (.plentyOfRoom hcontrol (not_lt.mp hfew))
  | ifExists found =>
      simp only [step] at hstep
      split at hstep <;> cases hstep
      rename_i hcontrol
      cases found with
      | true => exact .goes (.found hcontrol)
      | false => exact .goes (.notFound hcontrol)
  | newDirectoryStream opened =>
      simp only [step] at hstep
      split at hstep <;> cases hstep
      rename_i hcontrol
      cases opened with
      | true => exact .goes (.opened hcontrol)
      | false => exact .goes (.notOpened hcontrol)
  | next path =>
      simp only [step] at hstep
      split at hstep
      · rename_i ds hcontrol
        split at hstep <;> cases hstep
        rename_i hpath
        exact .goes (.yielded hcontrol hpath.1 hpath.2)
      · cases hstep
  | endOfStream =>
      simp only [step] at hstep
      split at hstep <;> cases hstep
      rename_i ds hcontrol
      exact .goes (.atEnd hcontrol)
  | restoreFile a =>
      simp only [step] at hstep
      split at hstep
      · rename_i ds path position accepted control hcontrol
        split at hstep
        · rename_i hown
          obtain ⟨r, hcall, rfl⟩ := Option.map_eq_some_iff.mp hstep
          exact .calls hcontrol hown hcall
        · cases hstep
      · cases hstep
  | takeBatch n =>
      simp only [step] at hstep
      split at hstep <;> cases hstep
      rename_i hn
      exact .takesBatch hn
  | deliver packet =>
      simp only [step] at hstep
      split at hstep <;> cases hstep
      rename_i hroom
      exact .delivers packet hroom
  | newFile path packets =>
      simp only [step] at hstep
      split at hstep <;> cases hstep
      rename_i hfree
      exact .comes packets hfree
  | shutdown =>
      cases hstep
      exact .stops

end ImportService

end AisStore
