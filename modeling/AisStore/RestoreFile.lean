import AisStore.Packet
import AisStore.Lib.Transition
import Mathlib.Logic.Function.Basic

/-!
`FileImportService.restoreFile`, test by test.

`Archiver` has a restore take a packet from a file to the queue in one go.
Here a call is followed from one look at something shared to the next: each
test of `isRunning()`, each look at the length of the queue and each offer is
a step of its own, and between any two of them the stage may take messages
off its queue, the sources may put some there, files may come into the
directory, and the service may be shut down. Reading, sleeping, closing,
deleting and renaming may fail. The `catch` clause of `run` belongs to the
call, for it decides what becomes of a file that cannot be read.

`Handing` is the invariant: the packets accepted are those before the one at
hand, and the file is where it was. So the call comes to its delete only with
all packets accepted (`restored_ifDeleted`).
-/

namespace AisStore

open Lib

/-- How a call of `restoreFile`, with the clause that catches its exceptions, ends. -/
inductive RestoreOutcome where
  /-- It returns because the service is shutting down. -/
  | returnedEarly
  | deleted
  /-- The file could not be deleted. -/
  | notDeleted
  /-- An exception was thrown, and the file has another name, or could not be moved. -/
  | renamed (target : String)
  | notRenamed
  deriving DecidableEq

/-- What a call does next. -/
inductive RestoreControl where
  | createFromFile
  | readPacket
  /-- The test of the inner loop. -/
  | whileRunning (packet : AisPacket)
  | getNumberOfOutstandingPackets (packet : AisPacket)
  | offer (packet : AisPacket)
  | sleep (packet : AisPacket)
  /-- The test after the inner loop. -/
  | ifNotRunning
  /-- The reader is closed, with the end of the file reached or not. -/
  | close (atEnd : Bool)
  | delete
  | moveUnreadable
  | ended (outcome : RestoreOutcome)
  deriving DecidableEq

/-- The settings, and the file. `findUnique` is `PathUtil.findUnique`, given
which names are taken. -/
structure RestoreConfig where
  batchSize : ℤ
  /-- The bound of the input queue of the main stage. -/
  queueSize : ℕ
  path : String
  findUnique : (String → Bool) → String → String

structure Restore where
  /-- `isRunning()`. -/
  running : Bool
  /-- The input queue of the main stage. -/
  inputQueue : List AisPacket
  /-- The backup directory. -/
  files : String → Option (List AisPacket)
  /-- How many packets the reader has returned. -/
  position : ℕ
  /-- What the queue has accepted of this call. -/
  accepted : List AisPacket
  control : RestoreControl

inductive RestoreAction where
  /-- `AisPacketReader.createFromFile` returns, or throws. -/
  | createFromFile (created : Bool)
  | readPacket (read : Bool)
  | test
  | getNumberOfOutstandingPackets
  | offer
  /-- `sleepUnlessShutdown` returns, or is interrupted. -/
  | sleep (slept : Bool)
  | close (closed : Bool)
  | delete (deleted : Bool)
  | moveUnreadable (moved : Bool)
  /-- The stage takes messages off its queue. -/
  | takeBatch (n : ℕ)
  /-- A source delivers a packet. -/
  | deliver (packet : AisPacket)
  /-- The file service puts a file into the directory. -/
  | newFile (path : String) (packets : List AisPacket)
  | shutdown

namespace RestoreFile

variable (cfg : RestoreConfig)

/-- The name an unreadable file is given. -/
def unreadable (files : String → Option (List AisPacket)) : String :=
  cfg.findUnique (fun name => (files name).isSome) (cfg.path ++ ".unreadable")

/-- The call, as it begins. -/
def start (running : Bool) (inputQueue : List AisPacket)
    (files : String → Option (List AisPacket)) : Restore :=
  ⟨running, inputQueue, files, 0, [], .createFromFile⟩

def goto (s : Restore) (control : RestoreControl) : Restore := { s with control := control }

def step (s : Restore) : RestoreAction → Option Restore
  | .createFromFile created =>
    match s.control with
    | .createFromFile => some (goto s (if created then .readPacket else .moveUnreadable))
    | _ => none
  | .readPacket read =>
    match s.control with
    | .readPacket =>
      if read then
        match ((s.files cfg.path).getD [])[s.position]? with
        | none => some (goto s (.close true))
        | some packet =>
          some { s with position := s.position + 1, control := .whileRunning packet }
      else some (goto s .moveUnreadable)
    | _ => none
  | .test =>
    match s.control with
    | .whileRunning packet =>
      some (goto s (if s.running then .getNumberOfOutstandingPackets packet else .ifNotRunning))
    | .ifNotRunning => some (goto s (if s.running then .readPacket else .close false))
    | _ => none
  | .getNumberOfOutstandingPackets =>
    match s.control with
    | .getNumberOfOutstandingPackets packet =>
      some (goto s
        (if s.inputQueue.length > wrapInt (10 * cfg.batchSize) then .sleep packet
         else .offer packet))
    | _ => none
  | .offer =>
    match s.control with
    | .offer packet =>
      if s.inputQueue.length < cfg.queueSize then
        some { s with
          inputQueue := s.inputQueue ++ [packet]
          accepted := s.accepted ++ [packet]
          control := .ifNotRunning }
      else some (goto s (.sleep packet))
    | _ => none
  | .sleep slept =>
    match s.control with
    | .sleep packet => some (goto s (if slept then .whileRunning packet else .moveUnreadable))
    | _ => none
  | .close closed =>
    match s.control with
    | .close atEnd =>
      some (goto s
        (if closed then if atEnd then .delete else .ended .returnedEarly else .moveUnreadable))
    | _ => none
  | .delete deleted =>
    match s.control with
    | .delete =>
      if deleted then
        some { s with files := Function.update s.files cfg.path none, control := .ended .deleted }
      else some (goto s (.ended .notDeleted))
    | _ => none
  | .moveUnreadable moved =>
    match s.control with
    | .moveUnreadable =>
      -- a move to a name that is taken fails
      if moved ∧ s.files (unreadable cfg s.files) = none then
        some { s with
          files := Function.update (Function.update s.files cfg.path none)
            (unreadable cfg s.files) (s.files cfg.path)
          control := .ended (.renamed (unreadable cfg s.files)) }
      else some (goto s (.ended .notRenamed))
    | _ => none
  | .takeBatch n =>
    if n ≤ s.inputQueue.length then some { s with inputQueue := s.inputQueue.drop n } else none
  | .deliver packet =>
    if s.inputQueue.length < cfg.queueSize then
      some { s with inputQueue := s.inputQueue ++ [packet] }
    else none
  | .newFile path packets =>
    if s.files path = none ∧ path ≠ cfg.path then
      some { s with files := Function.update s.files path (some packets) }
    else none
  | .shutdown => some { s with running := false }

/-! ### The invariant -/

variable {cfg} {packets : List AisPacket} {s s' : Restore}

/-- A packet has been read, and those before it have been accepted. -/
def AtHand (packets : List AisPacket) (s : Restore) (packet : AisPacket) : Prop :=
  ∃ n, s.position = n + 1 ∧ packets[n]? = some packet ∧ s.accepted = packets.take n

/-- How much has been accepted, given what the call does next. -/
def Progress (packets : List AisPacket) (s : Restore) : Prop :=
  match s.control with
  | .createFromFile => s.position = 0 ∧ s.accepted = []
  | .readPacket => s.accepted = packets.take s.position
  | .whileRunning packet => AtHand packets s packet
  | .getNumberOfOutstandingPackets packet => AtHand packets s packet
  | .offer packet => AtHand packets s packet
  | .sleep packet => AtHand packets s packet
  -- the inner loop is left without the packet only if the service is not running
  | .ifNotRunning => s.running = true → s.accepted = packets.take s.position
  | .close atEnd => atEnd = true → s.accepted = packets
  | .delete => s.accepted = packets
  | .moveUnreadable => True
  | .ended outcome => outcome = .deleted → s.accepted = packets

/-- Where the file is. -/
def Whereabouts (cfg : RestoreConfig) (packets : List AisPacket) (s : Restore) : Prop :=
  match s.control with
  | .ended .deleted => True
  | .ended (.renamed target) => s.files target = some packets ∧
      ∃ taken, target = cfg.findUnique taken (cfg.path ++ ".unreadable")
  | _ => s.files cfg.path = some packets

structure Handing (cfg : RestoreConfig) (packets : List AisPacket) (s : Restore) : Prop where
  inOrder : s.accepted <+: packets
  progress : Progress packets s
  whereabouts : Whereabouts cfg packets s

theorem handing_start {running : Bool} {inputQueue : List AisPacket}
    {files : String → Option (List AisPacket)} (hfile : files cfg.path = some packets) :
    Handing cfg packets (start running inputQueue files) :=
  ⟨List.nil_prefix, ⟨rfl, rfl⟩, hfile⟩

/-- A step of the call that leaves the queue and the directory alone. -/
theorem Handing.goto {control : RestoreControl} (h : Handing cfg packets s)
    (hfile : s.files cfg.path = some packets)
    (hprogress : Progress packets (RestoreFile.goto s control))
    (hended : ∀ outcome, control = .ended outcome → outcome = .returnedEarly ∨
      outcome = .notDeleted ∨ outcome = .notRenamed) :
    Handing cfg packets (RestoreFile.goto s control) := by
  refine ⟨h.inOrder, hprogress, ?_⟩
  show Whereabouts cfg packets { s with control := control }
  unfold Whereabouts
  split
  · trivial
  · rename_i target heq
    rcases hended _ heq with hcase | hcase | hcase <;> cases hcase
  · exact hfile

/-- What others do leaves the call as it is. -/
theorem Handing.others (h : Handing cfg packets s) (hcontrol : s'.control = s.control)
    (hposition : s'.position = s.position) (haccepted : s'.accepted = s.accepted)
    (hrunning : s'.running = true → s.running = true)
    (hfiles : ∀ path content, s.files path = some content → s'.files path = some content) :
    Handing cfg packets s' := by
  obtain ⟨hinOrder, hprogress, hwhere⟩ := h
  refine ⟨haccepted ▸ hinOrder, ?_, ?_⟩
  · unfold Progress AtHand at hprogress ⊢
    rw [hcontrol, hposition, haccepted]
    cases hc : s.control with
    | ifNotRunning =>
        rw [hc] at hprogress
        exact fun hr => hprogress (hrunning hr)
    | _ =>
        rw [hc] at hprogress
        exact hprogress
  · unfold Whereabouts at hwhere ⊢
    rw [hcontrol]
    split at hwhere
    · trivial
    · exact ⟨hfiles _ _ hwhere.1, hwhere.2⟩
    · exact hfiles _ _ hwhere

/-- Before the call has ended the file is in its place. -/
theorem Handing.file (h : Handing cfg packets s) (hgoing : ∀ outcome, s.control ≠ .ended outcome) :
    s.files cfg.path = some packets := by
  have hwhere := h.whereabouts
  unfold Whereabouts at hwhere
  split at hwhere
  · rename_i heq
    exact absurd heq (hgoing _)
  · rename_i heq
    exact absurd heq (hgoing _)
  · exact hwhere

theorem Handing.progress_eq {control : RestoreControl} (h : Handing cfg packets s)
    (hcontrol : s.control = control) :
    Progress packets (RestoreFile.goto s control) := by
  have heq : RestoreFile.goto s control = s := by rw [← hcontrol]; rfl
  rw [heq]
  exact h.progress

/-- The reader returns the next packet, or has come to the end. -/
theorem Handing.readPacket (h : Handing cfg packets s) (hcontrol : s.control = .readPacket)
    (hstep : step cfg s (.readPacket true) = some s') : Handing cfg packets s' := by
  have hfile : s.files cfg.path = some packets := h.file (by simp [hcontrol])
  have haccepted : s.accepted = packets.take s.position := h.progress_eq hcontrol
  simp only [step, hcontrol, if_true, hfile, Option.getD_some] at hstep
  split at hstep
  · rename_i hend
    cases hstep
    refine h.goto hfile ?_ nofun
    intro _
    show s.accepted = packets
    rw [haccepted, List.take_of_length_le (List.getElem?_eq_none_iff.mp hend)]
  · rename_i packet hpacket
    cases hstep
    exact ⟨h.inOrder, ⟨s.position, rfl, hpacket, haccepted⟩, hfile⟩

/-- The queue accepts the packet, or is full. -/
theorem Handing.offer (h : Handing cfg packets s) {packet : AisPacket}
    (hcontrol : s.control = .offer packet) (hstep : step cfg s .offer = some s') :
    Handing cfg packets s' := by
  have hfile : s.files cfg.path = some packets := h.file (by simp [hcontrol])
  have hatHand : AtHand packets s packet := h.progress_eq hcontrol
  simp only [step, hcontrol] at hstep
  split at hstep
  · cases hstep
    obtain ⟨n, hposition, hpacket, haccepted⟩ := hatHand
    have hmore : s.accepted ++ [packet] = packets.take (n + 1) := by
      rw [haccepted, List.take_add_one, hpacket]
      rfl
    refine ⟨?_, fun _ => ?_, hfile⟩
    · show s.accepted ++ [packet] <+: packets
      rw [hmore]
      exact List.take_prefix ..
    · show s.accepted ++ [packet] = packets.take s.position
      rw [hmore, hposition]
  · cases hstep
    exact h.goto hfile hatHand nofun

/-- The file is deleted, or cannot be. -/
theorem Handing.delete (h : Handing cfg packets s) {deleted : Bool} (hcontrol : s.control = .delete)
    (hstep : step cfg s (.delete deleted) = some s') : Handing cfg packets s' := by
  have hfile : s.files cfg.path = some packets := h.file (by simp [hcontrol])
  have haccepted : s.accepted = packets := h.progress_eq hcontrol
  simp only [step, hcontrol] at hstep
  split at hstep
  · cases hstep
    exact ⟨h.inOrder, fun _ => haccepted, trivial⟩
  · cases hstep
    exact h.goto hfile (fun _ => haccepted) (by simp)

/-- The file is moved out of the way, or cannot be. -/
theorem Handing.moveUnreadable (h : Handing cfg packets s) {moved : Bool}
    (hcontrol : s.control = .moveUnreadable)
    (hstep : step cfg s (.moveUnreadable moved) = some s') : Handing cfg packets s' := by
  have hfile : s.files cfg.path = some packets := h.file (by simp [hcontrol])
  simp only [step, hcontrol] at hstep
  split at hstep
  · cases hstep
    refine ⟨h.inOrder, nofun, ?_, _, rfl⟩
    rw [hfile]
    exact Function.update_self ..
  · cases hstep
    exact h.goto hfile nofun (by simp)

theorem Handing.step (h : Handing cfg packets s) {a : RestoreAction}
    (hstep : step cfg s a = some s') : Handing cfg packets s' := by
  cases a with
  | createFromFile created =>
      cases hc : s.control with
      | createFromFile =>
          simp only [RestoreFile.step, hc] at hstep
          cases hstep
          obtain ⟨hposition, haccepted⟩ : s.position = 0 ∧ s.accepted = [] := h.progress_eq hc
          refine h.goto (h.file (by simp [hc])) ?_ (by split <;> nofun)
          split
          · show s.accepted = packets.take s.position
            rw [haccepted, hposition, List.take_zero]
          · trivial
      | _ => simp [RestoreFile.step, hc] at hstep
  | readPacket read =>
      cases hc : s.control with
      | readPacket =>
          cases read with
          | true => exact h.readPacket hc hstep
          | false =>
              simp only [RestoreFile.step, hc] at hstep
              cases hstep
              exact h.goto (h.file (by simp [hc])) trivial nofun
      | _ => simp [RestoreFile.step, hc] at hstep
  | test =>
      cases hc : s.control with
      | whileRunning packet =>
          have hatHand : AtHand packets s packet := h.progress_eq hc
          simp only [RestoreFile.step, hc] at hstep
          cases hstep
          refine h.goto (h.file (by simp [hc])) ?_ (by split <;> nofun)
          split
          · exact hatHand
          · rename_i hstopped
            exact fun hr => absurd hr hstopped
      | ifNotRunning =>
          simp only [RestoreFile.step, hc] at hstep
          cases hstep
          refine h.goto (h.file (by simp [hc])) ?_ (by split <;> nofun)
          split
          · rename_i hrunning
            exact h.progress_eq hc hrunning
          · nofun
      | _ => simp [RestoreFile.step, hc] at hstep
  | getNumberOfOutstandingPackets =>
      cases hc : s.control with
      | getNumberOfOutstandingPackets packet =>
          have hatHand : AtHand packets s packet := h.progress_eq hc
          simp only [RestoreFile.step, hc] at hstep
          cases hstep
          refine h.goto (h.file (by simp [hc])) ?_ (by split <;> nofun)
          split <;> exact hatHand
      | _ => simp [RestoreFile.step, hc] at hstep
  | offer =>
      cases hc : s.control with
      | offer packet => exact h.offer hc hstep
      | _ => simp [RestoreFile.step, hc] at hstep
  | sleep slept =>
      cases hc : s.control with
      | sleep packet =>
          have hatHand : AtHand packets s packet := h.progress_eq hc
          simp only [RestoreFile.step, hc] at hstep
          cases hstep
          refine h.goto (h.file (by simp [hc])) ?_ (by split <;> nofun)
          split
          · exact hatHand
          · trivial
      | _ => simp [RestoreFile.step, hc] at hstep
  | close closed =>
      cases hc : s.control with
      | close atEnd =>
          have hend : atEnd = true → s.accepted = packets := h.progress_eq hc
          simp only [RestoreFile.step, hc] at hstep
          cases hstep
          refine h.goto (h.file (by simp [hc])) ?_ (by split <;> [split; skip] <;> simp)
          split
          · split
            · rename_i hat
              exact hend hat
            · nofun
          · trivial
      | _ => simp [RestoreFile.step, hc] at hstep
  | delete deleted =>
      cases hc : s.control with
      | delete => exact h.delete hc hstep
      | _ => simp [RestoreFile.step, hc] at hstep
  | moveUnreadable moved =>
      cases hc : s.control with
      | moveUnreadable => exact h.moveUnreadable hc hstep
      | _ => simp [RestoreFile.step, hc] at hstep
  | takeBatch n =>
      simp only [RestoreFile.step] at hstep
      split at hstep
      · cases hstep
        exact h.others rfl rfl rfl id fun _ _ => id
      · cases hstep
  | deliver packet =>
      simp only [RestoreFile.step] at hstep
      split at hstep
      · cases hstep
        exact h.others rfl rfl rfl id fun _ _ => id
      · cases hstep
  | newFile path content =>
      simp only [RestoreFile.step] at hstep
      split at hstep
      · rename_i hfree
        cases hstep
        refine h.others rfl rfl rfl id ?_
        intro path' content' hcontent
        have hne : path' ≠ path := by
          rintro rfl
          rw [hfree.1] at hcontent
          cases hcontent
        exact (Function.update_of_ne hne ..).trans hcontent
      · cases hstep
  | shutdown =>
      cases hstep
      exact h.others rfl rfl rfl nofun fun _ _ => id

end RestoreFile

/-- Whatever the bound of the queue, whoever puts messages there and takes
them off, at whichever test the service turns out to be shut down, and
wherever a call throws: `restoreFile` hands on a prefix of the file, in
order, deletes the file only when that is all of it, and otherwise leaves it
under its name or the one for unreadable files. -/
theorem restored_ifDeleted {cfg : RestoreConfig} {running : Bool} {inputQueue : List AisPacket}
    {files : String → Option (List AisPacket)} {packets : List AisPacket}
    (hfile : files cfg.path = some packets) {s : Restore}
    (h : ReachedBy (RestoreFile.step cfg) (fun _ _ => True)
      (RestoreFile.start running inputQueue files) s) :
    s.accepted <+: packets ∧
      match s.control with
      | .ended .deleted => s.accepted = packets
      | .ended (.renamed target) => s.files target = some packets ∧
          ∃ taken, target = cfg.findUnique taken (cfg.path ++ ".unreadable")
      | _ => s.files cfg.path = some packets := by
  have hhanding : RestoreFile.Handing cfg packets s :=
    h.invariant (RestoreFile.handing_start hfile) fun _ _ _ _ hstep hs => hs.step hstep
  refine ⟨hhanding.inOrder, ?_⟩
  have hwhere := hhanding.whereabouts
  unfold RestoreFile.Whereabouts at hwhere
  split
  · rename_i hc
    exact hhanding.progress_eq hc rfl
  · rename_i target hc
    rw [hc] at hwhere
    exact hwhere
  · rename_i hdeleted hrenamed
    split at hwhere
    · rename_i hc
      exact absurd hc hdeleted
    · rename_i target hc
      exact absurd hc (hrenamed target)
    · exact hwhere

/-- A file of two packets, and a queue with room for one. -/
def narrowQueue : RestoreConfig := ⟨1, 1, "backup.zip", fun _ name => name⟩

/-- The call finds the queue full, sleeps until the stage has taken the first
packet, and comes to the end. -/
theorem restored_ifDeleted_narrowQueue :
    ∃ s, ReachedBy (RestoreFile.step narrowQueue) (fun _ _ => True)
        (RestoreFile.start true [] (Function.update (fun _ => none) "backup.zip"
          (some [⟨"!AIVDM,1,1,,A,13"⟩, ⟨"!AIVDM,1,1,,A,55"⟩]))) s ∧
      s.control = .ended .deleted ∧
      s.accepted = [⟨"!AIVDM,1,1,,A,13"⟩, ⟨"!AIVDM,1,1,,A,55"⟩] := by
  obtain ⟨s, hrun, hcontrol⟩ : ∃ s, [.createFromFile true, .readPacket true, .test,
      .getNumberOfOutstandingPackets, .offer, .test, .readPacket true, .test,
      .getNumberOfOutstandingPackets, .offer, .sleep true, .takeBatch 1, .test,
      .getNumberOfOutstandingPackets, .offer, .test, .readPacket true, .close true,
      .delete true].foldlM (RestoreFile.step narrowQueue)
        (RestoreFile.start true [] (Function.update (fun _ => none) "backup.zip"
          (some [⟨"!AIVDM,1,1,,A,13"⟩, ⟨"!AIVDM,1,1,,A,55"⟩]))) = some s ∧
      s.control = .ended .deleted := ⟨_, rfl, rfl⟩
  have hreached : ReachedBy (RestoreFile.step narrowQueue) (fun _ _ => True) _ s :=
    ReachedBy.start.steps (fun _ _ _ => trivial) hrun
  have hrestored := (restored_ifDeleted (Function.update_self ..) hreached).2
  rw [hcontrol] at hrestored
  exact ⟨s, hreached, hcontrol, hrestored⟩

end AisStore
