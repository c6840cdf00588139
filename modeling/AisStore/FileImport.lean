import AisStore.Archiver

/-!
`FileImport`: the command that reads the files of a directory and writes
their packets to Cassandra.

A reader thread hands each packet to its handlers, one of which offers it to
the queue of a batched stage, sleeping while the queue is full, and another
of which keeps to the rate that was asked for; the thread of the stage takes
batches off the queue and writes them. The reader is library code; what it
reads is a list of packets, with the tag overwritten where there is a new
one. The counter of the verbose option only prints.

The stage cuts what it is given into batches of any size. None of this shows
in the store (`import_written`): it is what one pass over the packets writes,
since the writer carries its tracker from batch to batch.
-/

namespace AisStore

open Lib

/-! ### Batches -/

section
variable {Pos : Type} (lib : AisLib Pos)

/-- What is in the batch already only stands before what is added. -/
theorem assembleStatements_statements (clock : ℕ → ℤ) (tracker : Tracker Pos)
    (statements : List Insert) (packets : List AisPacket) :
    assembleStatements lib clock ⟨tracker, statements⟩ packets =
      ⟨(assembleStatements lib clock ⟨tracker, []⟩ packets).tracker,
        statements ++ (assembleStatements lib clock ⟨tracker, []⟩ packets).statements⟩ := by
  induction packets using List.reverseRecOn with
  | nil => simp [assembleStatements, runClocked]
  | append_singleton packets packet ih =>
      simp only [assembleStatements, runClocked_concat] at ih ⊢
      rw [ih, tryHandleMessage_eq, tryHandleMessage_eq, List.append_assoc]

/-- A batch that is assembled where the last one has left the tracker is the
rest of one run. -/
theorem assembleStatements_append (clock clock' : ℕ → ℤ) (packets batch : List AisPacket)
    {s : WriterState Pos} (hs : assembleStatements lib clock ⟨Cache.empty, []⟩ packets = s) :
    assembleStatements lib (spliceClock packets.length clock clock') ⟨Cache.empty, []⟩
        (packets ++ batch) =
      ⟨(assembleStatements lib clock' ⟨s.tracker, []⟩ batch).tracker,
        s.statements ++ (assembleStatements lib clock' ⟨s.tracker, []⟩ batch).statements⟩ := by
  rw [assembleStatements, runClocked_append]
  have hfirst : runClocked (tryHandleMessage lib) clock ⟨Cache.empty, []⟩ packets = s := hs
  rw [hfirst]
  exact assembleStatements_statements lib clock' s.tracker s.statements batch

end

/-- The options. -/
structure FileImportConfig (Pos : Type) where
  lib : AisLib Pos
  batchSize : ℤ
  rate : ℤ

def FileImportConfig.mainQueueSize {Pos : Type} (cfg : FileImportConfig Pos) : ℤ :=
  min 100000 (wrapInt (cfg.batchSize * 100))

/-- What the thread of the reader does next. -/
inductive ReaderControl where
  | read
  | offer (p : AisPacket)
  /-- It waits for the queue to open. -/
  | sleep (p : AisPacket)
  | incrementAndGet
  /-- The handler for the rate. -/
  | gate
  | sleepGate
  | finished
  deriving DecidableEq

/-- The packet that the reader holds. -/
def ReaderControl.inHand : ReaderControl → List AisPacket
  | .offer p => [p]
  | .sleep p => [p]
  | _ => []

structure FileImport (Pos : Type) where
  /-- What is left of the directory. -/
  unread : List AisPacket
  reader : ReaderControl
  acceptedCount : ℤ
  mainQueue : List AisPacket
  /-- The messages `handleMessages` is working on. -/
  batch : List AisPacket
  tracker : Tracker Pos
  /-- The statements Cassandra has executed. -/
  cassandra : List Insert
  /-- `shutdown()` has been called. -/
  shutdown : Bool
  /-- Everything the queue has accepted. -/
  accepted : List AisPacket
  /-- What the reader has given up, its sleep having been interrupted. -/
  dropped : List AisPacket
  /-- The packets of the batches that were written, and of those that were not. -/
  handled : List AisPacket
  failed : List AisPacket
  /-- How many seconds the reader has slept for the rate. -/
  seconds : ℕ

inductive FileImportAction where
  | read
  | offer
  /-- `Thread.sleep` returns, or is interrupted. -/
  | sleep (slept : Bool)
  | incrementAndGet
  | gate
  /-- The stage takes messages off its queue. -/
  | takeBatch (n : ℕ)
  | handleMessages (clock : ℕ → ℤ) (outcome : WriteOutcome)

namespace FileImport

variable {Pos : Type} (cfg : FileImportConfig Pos)

def start (packets : List AisPacket) : FileImport Pos where
  unread := packets
  reader := .read
  acceptedCount := 0
  mainQueue := []
  batch := []
  tracker := Cache.empty
  cassandra := []
  shutdown := false
  accepted := []
  dropped := []
  handled := []
  failed := []
  seconds := 0

/-- The handler after the one that offers. It is registered only with a rate. -/
def nextHandler : ReaderControl := if cfg.rate > 0 then .gate else .read

def handleMessages (s : FileImport Pos) (clock : ℕ → ℤ) (outcome : WriteOutcome) :
    FileImport Pos :=
  let w := assembleStatements cfg.lib clock ⟨s.tracker, []⟩ s.batch
  match outcome with
  | .success =>
    { s with
      batch := []
      tracker := w.tracker
      cassandra := s.cassandra ++ w.statements
      handled := s.handled ++ s.batch }
  | .queryValidationException =>
    { s with batch := [], tracker := w.tracker, failed := s.failed ++ s.batch }
  -- `onFailure` is `shutdown()`
  | .otherException executed =>
    { s with
      batch := []
      tracker := w.tracker
      cassandra := if executed then s.cassandra ++ w.statements else s.cassandra
      shutdown := true
      failed := s.failed ++ s.batch }

def step (s : FileImport Pos) : FileImportAction → Option (FileImport Pos)
  | .read =>
    match s.reader, s.unread with
    | .read, [] => some { s with reader := .finished }
    | .read, p :: unread => some { s with unread := unread, reader := .offer p }
    | _, _ => none
  | .offer =>
    match s.reader with
    | .offer p =>
      if s.mainQueue.length < cfg.mainQueueSize then
        some { s with
          mainQueue := s.mainQueue ++ [p]
          accepted := s.accepted ++ [p]
          reader := .incrementAndGet }
      else some { s with reader := .sleep p }
    | _ => none
  | .sleep slept =>
    match s.reader with
    | .sleep p =>
      if slept then some { s with reader := .offer p }
      else some { s with dropped := s.dropped ++ [p], reader := nextHandler cfg }
    | .sleepGate =>
      some { s with
        seconds := if slept then s.seconds + 1 else s.seconds
        reader := .read }
    | _ => none
  | .incrementAndGet =>
    match s.reader with
    | .incrementAndGet =>
      some { s with acceptedCount := wrapInt (s.acceptedCount + 1), reader := nextHandler cfg }
    | _ => none
  | .gate =>
    match s.reader with
    | .gate =>
      some { s with reader := if s.acceptedCount.tmod cfg.rate = 0 then .sleepGate else .read }
    | _ => none
  | .takeBatch n =>
    if s.batch = [] ∧ 0 < n ∧ n ≤ cfg.batchSize ∧ n ≤ s.mainQueue.length then
      some { s with batch := s.mainQueue.take n, mainQueue := s.mainQueue.drop n }
    else none
  | .handleMessages clock outcome =>
    if s.batch ≠ [] then some (handleMessages cfg s clock outcome) else none

end FileImport

section
variable {Pos : Type} {cfg : FileImportConfig Pos} {packets : List AisPacket}
  {s s' : FileImport Pos}

/-! ### Where the packets are -/

/-- Each packet of the directory is in one place, as often as it was read,
and Cassandra has those of the batches that were written. -/
structure Accounted (lib : AisLib Pos) (packets : List AisPacket) (s : FileImport Pos) : Prop where
  count : ∀ p, packets.count p = s.handled.count p + s.failed.count p + s.batch.count p +
    s.mainQueue.count p + s.dropped.count p + s.reader.inHand.count p + s.unread.count p
  persisted : ∀ p ∈ s.handled, Fits lib p → Executed lib s.cassandra p

/-- A step of the reader that does not go near Cassandra. -/
theorem Accounted.reads (h : Accounted cfg.lib packets s)
    (hcount : ∀ p, s'.mainQueue.count p + s'.dropped.count p + s'.reader.inHand.count p +
      s'.unread.count p = s.mainQueue.count p + s.dropped.count p + s.reader.inHand.count p +
        s.unread.count p)
    (hhandled : s'.handled = s.handled) (hfailed : s'.failed = s.failed)
    (hbatch : s'.batch = s.batch) (hcassandra : s'.cassandra = s.cassandra) :
    Accounted cfg.lib packets s' := by
  refine ⟨fun p => ?_, ?_⟩
  · have hbefore := h.count p
    have hsame := hcount p
    rw [hhandled, hfailed, hbatch]
    omega
  · rw [hhandled, hcassandra]
    exact h.persisted

/-- The handler after the one that offers holds no packet. -/
@[simp] theorem inHand_nextHandler : (FileImport.nextHandler cfg).inHand = [] := by
  rw [FileImport.nextHandler]
  split_ifs <;> rfl

theorem Accounted.handleMessages (h : Accounted cfg.lib packets s) (clock : ℕ → ℤ)
    (outcome : WriteOutcome) :
    Accounted cfg.lib packets (FileImport.handleMessages cfg s clock outcome) := by
  have hkeep : ∀ statements, ∀ p ∈ s.handled, Fits cfg.lib p →
      Executed cfg.lib (s.cassandra ++ statements) p := fun statements p hp hfits =>
    (h.persisted p hp hfits).append statements
  have hbatch := @executed_assembleStatements _ cfg.lib clock ⟨s.tracker, []⟩ s.batch
  cases outcome with
  | success =>
      refine ⟨fun p => ?_, fun p hp hfits => ?_⟩
      · have hbefore := h.count p
        simp only [FileImport.handleMessages, List.count_append,
          List.count_nil] at hbefore ⊢
        omega
      · rcases List.mem_append.mp hp with hp | hp
        · exact hkeep _ p hp hfits
        · obtain ⟨position, hinserts⟩ := hbatch p hp hfits
          exact ⟨position, fun i hi => List.mem_append_right _ (hinserts i hi)⟩
  | queryValidationException =>
      refine ⟨fun p => ?_, h.persisted⟩
      have hbefore := h.count p
      simp only [FileImport.handleMessages, List.count_append,
        List.count_nil] at hbefore ⊢
      omega
  | otherException executed =>
      refine ⟨fun p => ?_, fun p hp hfits => ?_⟩
      · have hbefore := h.count p
        simp only [FileImport.handleMessages, List.count_append,
          List.count_nil] at hbefore ⊢
        omega
      · cases executed with
        | true => exact hkeep _ p hp hfits
        | false => exact h.persisted p hp hfits

theorem Accounted.step (h : Accounted cfg.lib packets s) {a : FileImportAction}
    (hstep : FileImport.step cfg s a = some s') : Accounted cfg.lib packets s' := by
  cases a with
  | read =>
      simp only [FileImport.step] at hstep
      split at hstep <;> cases hstep
      · rename_i hreader hunread
        exact h.reads (fun p => by simp [ReaderControl.inHand, hreader]) rfl rfl rfl rfl
      · rename_i p unread hreader hunread
        refine h.reads (fun q => ?_) rfl rfl rfl rfl
        simp only [ReaderControl.inHand, hreader, hunread, List.count_cons, List.count_nil]
        omega
  | offer =>
      simp only [FileImport.step] at hstep
      split at hstep
      · rename_i p hreader
        split at hstep <;> cases hstep
        · refine h.reads (fun q => ?_) rfl rfl rfl rfl
          simp only [ReaderControl.inHand, hreader, List.count_append, List.count_nil]
          omega
        · exact h.reads (fun q => by simp [ReaderControl.inHand, hreader]) rfl rfl rfl rfl
      · cases hstep
  | sleep slept =>
      simp only [FileImport.step] at hstep
      split at hstep
      · rename_i p hreader
        split at hstep <;> cases hstep
        · exact h.reads (fun q => by simp [ReaderControl.inHand, hreader]) rfl rfl rfl rfl
        · refine h.reads (fun q => ?_) rfl rfl rfl rfl
          simp only [inHand_nextHandler, hreader, List.count_append, List.count_nil]
          simp only [ReaderControl.inHand]
          omega
      · rename_i hreader
        cases hstep
        exact h.reads (fun q => by simp [ReaderControl.inHand, hreader]) rfl rfl rfl rfl
      · cases hstep
  | incrementAndGet =>
      simp only [FileImport.step] at hstep
      split at hstep <;> cases hstep
      rename_i hreader
      refine h.reads (fun q => ?_) rfl rfl rfl rfl
      simp only [inHand_nextHandler, hreader]
      rfl
  | gate =>
      simp only [FileImport.step] at hstep
      split at hstep <;> cases hstep
      rename_i hreader
      refine h.reads (fun q => ?_) rfl rfl rfl rfl
      split_ifs <;> simp [ReaderControl.inHand, hreader]
  | takeBatch n =>
      simp only [FileImport.step] at hstep
      split at hstep <;> cases hstep
      rename_i hidle
      refine ⟨fun p => ?_, h.persisted⟩
      have hbefore := h.count p
      have hsplit : (s.mainQueue.take n).count p + (s.mainQueue.drop n).count p =
          s.mainQueue.count p := by
        rw [← List.count_append, List.take_append_drop]
      simp only [hidle.1, List.count_nil] at hbefore ⊢
      omega
  | handleMessages clock outcome =>
      simp only [FileImport.step] at hstep
      split at hstep <;> cases hstep
      exact h.handleMessages clock outcome

end

/-- Whatever fails and is interrupted on the way: each packet of the
directory is still to be read, in the hands of the reader, in the queue or
the batch of the stage, given up by the reader, in a batch that was not
written, or in one that was, and then Cassandra has every statement there is
for it, unless a block of it does not fit. None is in two of these places. -/
theorem import_accounts {Pos : Type} {cfg : FileImportConfig Pos} {packets : List AisPacket}
    {s : FileImport Pos}
    (h : ReachedBy (FileImport.step cfg) (fun _ _ => True) (FileImport.start packets) s) :
    packets.Perm (s.handled ++ s.failed ++ s.batch ++ s.mainQueue ++ s.dropped ++ s.reader.inHand ++
      s.unread) ∧
      ∀ p ∈ s.handled, Fits cfg.lib p → Executed cfg.lib s.cassandra p := by
  have hstart : Accounted cfg.lib packets (FileImport.start packets) :=
    ⟨fun p => by simp [FileImport.start, ReaderControl.inHand], nofun⟩
  have haccounted : Accounted cfg.lib packets s :=
    h.invariant hstart fun _ _ _ _ hstep h => h.step hstep
  refine ⟨List.perm_iff_count.mpr fun p => ?_, haccounted.persisted⟩
  simp only [List.count_append]
  exact haccounted.count p

/-- Two messages of one vessel, and the defaults of the command line with a
packet a second. -/
def directoryImport : FileImportConfig ℤ := ⟨.ofDecoded [positionReport, staticReport], 3000, 1⟩

def report55 : AisPacket := .fromString "!AIVDM,1,1,,A,55"

/-- The second packet is in the hands of the reader when the write of the
first one fails. -/
theorem import_accounts_failed :
    ∃ s : FileImport ℤ, ReachedBy (FileImport.step directoryImport) (fun _ _ => True)
        (FileImport.start [report13, report55]) s ∧
      s.failed = [report13] ∧ s.reader = .offer report55 ∧
      [report13, report55].Perm (s.handled ++ s.failed ++ s.batch ++ s.mainQueue ++ s.dropped ++
        s.reader.inHand ++ s.unread) := by
  obtain ⟨s, hrun, hfailed, hreader⟩ : ∃ s : FileImport ℤ, [.read, .offer, .incrementAndGet, .gate,
      .sleep true, .takeBatch 1, .read,
      .handleMessages (fun _ => 0) (.otherException false)].foldlM
        (FileImport.step directoryImport) (FileImport.start [report13, report55]) = some s ∧
      s.failed = [report13] ∧ s.reader = .offer report55 := ⟨_, rfl, rfl, rfl⟩
  have hreached : ReachedBy (FileImport.step directoryImport) (fun _ _ => True)
      (FileImport.start [report13, report55]) s :=
    ReachedBy.start.steps (fun _ _ _ => trivial) hrun
  exact ⟨s, hreached, hfailed, hreader, (import_accounts hreached).1⟩

/-! ### One pass over the directory -/

/-- No batch fails, and no wait for the queue is interrupted. -/
def FileImport.Undisturbed {Pos : Type} (s : FileImport Pos) : FileImportAction → Prop
  | .sleep slept => slept = true ∨ s.reader = .sleepGate
  | .handleMessages _ outcome => outcome = .success
  | _ => True

/-- What the writer reads of the clock, once for each message of its batch. -/
def FileImport.readings {Pos : Type} (s : FileImport Pos) : FileImportAction → List ℤ
  | .handleMessages clock _ => (List.range s.batch.length).map clock
  | _ => []

/-- All readings of a run, in order. -/
def FileImport.clockReadings {Pos : Type} (cfg : FileImportConfig Pos) (packets : List AisPacket) :
    List FileImportAction → List ℤ :=
  recorded (FileImport.step cfg) FileImport.readings (FileImport.start packets)

section
variable {Pos : Type} {cfg : FileImportConfig Pos} {packets : List AisPacket}
  {readings : List ℤ} {s s' : FileImport Pos}

/-- Everything is in the order it was read in, and the writer is where one
pass over the packets handled so far, with the same readings of the clock,
would have left it. -/
structure OnePass (lib : AisLib Pos) (packets : List AisPacket) (readings : List ℤ)
    (s : FileImport Pos) : Prop where
  inOrder : packets = s.handled ++ s.batch ++ s.mainQueue ++ s.reader.inHand ++ s.unread
  length : readings.length = s.handled.length
  pass : assembleStatements lib (readings.getD · 0) ⟨Cache.empty, []⟩ s.handled =
    ⟨s.tracker, s.cassandra⟩
  finished : s.reader = .finished → s.unread = []

/-- A step of the reader that does not go near Cassandra. -/
theorem OnePass.reads (h : OnePass cfg.lib packets readings s)
    (hqueue : s'.mainQueue ++ s'.reader.inHand ++ s'.unread =
      s.mainQueue ++ s.reader.inHand ++ s.unread)
    (hhandled : s'.handled = s.handled) (hbatch : s'.batch = s.batch)
    (htracker : s'.tracker = s.tracker) (hcassandra : s'.cassandra = s.cassandra)
    (hfinished : s'.reader = .finished → s'.unread = []) :
    OnePass cfg.lib packets (readings ++ []) s' := by
  rw [List.append_nil]
  refine ⟨?_, ?_, ?_, hfinished⟩
  · have hbefore := h.inOrder
    rw [List.append_assoc, List.append_assoc, ← List.append_assoc s.mainQueue, ← hqueue] at hbefore
    rw [hhandled, hbatch, hbefore]
    simp only [List.append_assoc]
  · rw [hhandled]
    exact h.length
  · rw [hhandled, htracker, hcassandra]
    exact h.pass

/-- Writing a batch goes on with the pass. -/
theorem OnePass.handleMessages (h : OnePass cfg.lib packets readings s) (clock : ℕ → ℤ) :
    OnePass cfg.lib packets (readings ++ (List.range s.batch.length).map clock)
      (FileImport.handleMessages cfg s clock .success) := by
  refine ⟨?_, ?_, ?_, h.finished⟩
  · simpa only [FileImport.handleMessages, List.append_nil] using h.inOrder
  · simp [FileImport.handleMessages, h.length]
  · have hlonger :=
      assembleStatements_append cfg.lib (readings.getD · 0) clock s.handled s.batch h.pass
    refine Eq.trans (runClocked_congr _ _ _ _ fun k hk => ?_) hlonger
    have hk' : k < (s.handled ++ s.batch).length := hk
    rw [List.length_append] at hk'
    exact getD_append_readings clock h.length hk'

theorem nextHandler_ne_finished : FileImport.nextHandler cfg ≠ .finished := by
  rw [FileImport.nextHandler]
  split_ifs <;> simp

theorem OnePass.step (h : OnePass cfg.lib packets readings s) {a : FileImportAction}
    (hundisturbed : s.Undisturbed a) (hstep : FileImport.step cfg s a = some s') :
    OnePass cfg.lib packets (readings ++ s.readings a) s' := by
  cases a with
  | read =>
      simp only [FileImport.step] at hstep
      split at hstep <;> cases hstep
      · rename_i hreader hunread
        refine h.reads ?_ rfl rfl rfl rfl fun _ => hunread
        simp only [ReaderControl.inHand, hreader]
      · rename_i p unread hreader hunread
        refine h.reads ?_ rfl rfl rfl rfl nofun
        simp [ReaderControl.inHand, hreader, hunread]
  | offer =>
      simp only [FileImport.step] at hstep
      split at hstep
      · rename_i p hreader
        split at hstep <;> cases hstep
        · refine h.reads ?_ rfl rfl rfl rfl nofun
          simp [ReaderControl.inHand, hreader]
        · refine h.reads ?_ rfl rfl rfl rfl nofun
          simp only [ReaderControl.inHand, hreader]
      · cases hstep
  | sleep slept =>
      simp only [FileImport.step] at hstep
      split at hstep
      · rename_i p hreader
        have hslept : slept = true := hundisturbed.resolve_right (by simp [hreader])
        rw [if_pos hslept] at hstep
        cases hstep
        refine h.reads ?_ rfl rfl rfl rfl nofun
        simp only [ReaderControl.inHand, hreader]
      · rename_i hreader
        cases hstep
        refine h.reads ?_ rfl rfl rfl rfl nofun
        simp only [ReaderControl.inHand, hreader]
      · cases hstep
  | incrementAndGet =>
      simp only [FileImport.step] at hstep
      split at hstep <;> cases hstep
      rename_i hreader
      refine h.reads ?_ rfl rfl rfl rfl fun hend => absurd hend nextHandler_ne_finished
      simp only [inHand_nextHandler, hreader]
      rfl
  | gate =>
      simp only [FileImport.step] at hstep
      split at hstep <;> cases hstep
      rename_i hreader
      refine h.reads ?_ rfl rfl rfl rfl fun hend => ?_
      · split_ifs <;> simp only [ReaderControl.inHand, hreader]
      · simp only at hend
        split_ifs at hend
  | takeBatch n =>
      simp only [FileImport.step] at hstep
      split at hstep <;> cases hstep
      rename_i hidle
      show OnePass cfg.lib packets (readings ++ []) _
      rw [List.append_nil]
      refine ⟨?_, h.length, h.pass, h.finished⟩
      have hbefore := h.inOrder
      rw [hidle.1, List.append_nil, ← List.take_append_drop n s.mainQueue] at hbefore
      simpa only [List.append_assoc] using hbefore
  | handleMessages clock outcome =>
      simp only [FileImport.step] at hstep
      split at hstep <;> cases hstep
      have hsuccess : outcome = .success := hundisturbed
      rw [hsuccess]
      exact h.handleMessages clock

theorem onePass_of_runsTo {as : List FileImportAction}
    (h : RunsTo (FileImport.step cfg) FileImport.Undisturbed (FileImport.start packets) as s) :
    OnePass cfg.lib packets (FileImport.clockReadings cfg packets as) s := by
  have hstart : OnePass cfg.lib packets [] (FileImport.start packets) := ⟨rfl, rfl, rfl, nofun⟩
  induction h with
  | start => exact hstart
  | next hrun a hundisturbed hstep ih =>
      rw [FileImport.clockReadings, hrun.recorded_concat]
      exact ih.step hundisturbed hstep

theorem onePass_of_reachedBy
    (h : ReachedBy (FileImport.step cfg) FileImport.Undisturbed (FileImport.start packets) s) :
    ∃ readings, OnePass cfg.lib packets readings s := by
  obtain ⟨as, hrun⟩ := RunsTo.exists_of_reachedBy h
  exact ⟨_, onePass_of_runsTo hrun⟩

/-- At the end everything has been handled. -/
theorem OnePass.handled_eq (h : OnePass cfg.lib packets readings s) (hfinished : s.reader = .finished)
    (hqueue : s.mainQueue = []) (hbatch : s.batch = []) : s.handled = packets := by
  have hinOrder := h.inOrder
  rw [hqueue, hbatch, hfinished, h.finished hfinished] at hinOrder
  simpa [ReaderControl.inHand] using hinOrder.symm

end

/-- Unless a batch fails or the reader is interrupted: in whatever batches
the stage takes the packets off its queue, Cassandra has executed what one
writer would have sent in one pass over the packets handled so far, had it
read the clock when the writer of the run did. So a finished import leaves
the store that is written from the directory. -/
theorem import_written {Pos : Type} {cfg : FileImportConfig Pos} {packets : List AisPacket}
    {as : List FileImportAction} {s : FileImport Pos}
    (h : RunsTo (FileImport.step cfg) FileImport.Undisturbed (FileImport.start packets) as s) :
    packets = s.handled ++ s.batch ++ s.mainQueue ++ s.reader.inHand ++ s.unread ∧
      (FileImport.clockReadings cfg packets as).length = s.handled.length ∧
      s.cassandra =
        statementsOf cfg.lib ((FileImport.clockReadings cfg packets as).getD · 0) s.handled ∧
      (s.reader = .finished → s.mainQueue = [] → s.batch = [] →
        Store.ofInserts s.cassandra =
          written cfg.lib ((FileImport.clockReadings cfg packets as).getD · 0) packets) := by
  have hpass := onePass_of_runsTo h
  have hcassandra : s.cassandra =
      statementsOf cfg.lib ((FileImport.clockReadings cfg packets as).getD · 0) s.handled := by
    rw [statementsOf, hpass.pass]
  refine ⟨hpass.inOrder, hpass.length, hcassandra, fun hfinished hqueue hbatch => ?_⟩
  rw [hcassandra, hpass.handled_eq hfinished hqueue hbatch]
  rfl

/-- Two packets in two batches, a second apart. The second is filed where the
first has been. -/
theorem import_written_twoBatches :
    ∃ as, ∃ s : FileImport ℤ,
      RunsTo (FileImport.step directoryImport) FileImport.Undisturbed
        (FileImport.start [report13, report55]) as s ∧
      FileImport.clockReadings directoryImport [report13, report55] as = [0, 1000000000] ∧
      Store.ofInserts s.cassandra =
        written (.ofDecoded [positionReport, staticReport]) ([0, 1000000000].getD · 0)
          [report13, report55] := by
  have hstart : RunsTo (FileImport.step directoryImport) FileImport.Undisturbed
      (FileImport.start [report13, report55]) [] (FileImport.start [report13, report55]) := .start
  have hfirst := (hstart.next .read trivial rfl).next .offer trivial rfl
  have hgate := (hfirst.next .incrementAndGet trivial rfl).next .gate trivial rfl
  have hwritten := (hgate.next (.takeBatch 1) trivial rfl).next
    (.handleMessages (fun _ => 0) .success) rfl rfl
  have hsecond := ((hwritten.next (.sleep true) (.inl rfl) rfl).next .read trivial rfl).next .offer
    trivial rfl
  have hgate' := ((hsecond.next .incrementAndGet trivial rfl).next .gate trivial rfl).next
    (.sleep true) (.inl rfl) rfl
  have hend := ((hgate'.next (.takeBatch 1) trivial rfl).next
    (.handleMessages (fun _ => 1000000000) .success) rfl rfl).next .read trivial rfl
  obtain ⟨-, -, -, hstore⟩ := import_written hend
  exact ⟨_, _, hend, rfl, hstore rfl rfl rfl⟩

/-! ### The rate -/

/-- Nobody interrupts the reader while it sleeps for the rate. -/
def FileImport.SleepsOut {Pos : Type} (s : FileImport Pos) : FileImportAction → Prop
  | .sleep slept => slept = true ∨ s.reader ≠ .sleepGate
  | _ => True

/-- How far the count is behind what the queue has accepted. -/
def ReaderControl.behind : ReaderControl → ℤ
  | .incrementAndGet => 1
  | _ => 0

/-- How many packets the rate leaves room for at least. None are accepted
between an offer and the next look at the rate. -/
def ReaderControl.room : ReaderControl → ℤ
  | .incrementAndGet => 0
  | .gate => 0
  | .sleepGate => 0
  | _ => 1

section
variable {Pos : Type} {cfg : FileImportConfig Pos} {s s' : FileImport Pos}

/-- While the count has not overflowed it is right, and it has not run away
from the seconds. -/
structure Gated (rate : ℤ) (s : FileImport Pos) : Prop where
  count : s.accepted.length ≤ maxInt → s.acceptedCount + s.reader.behind = s.accepted.length
  bound : s.accepted.length ≤ maxInt →
    s.accepted.length + s.reader.room ≤ rate * (s.seconds + 1)

/-- A step that accepts nothing and does not count. -/
theorem Gated.goto {rate : ℤ} (h : Gated rate s) (haccepted : s'.accepted = s.accepted)
    (hcount : s'.acceptedCount = s.acceptedCount) (hseconds : s'.seconds = s.seconds)
    (hbehind : s'.reader.behind = s.reader.behind) (hroom : s'.reader.room ≤ s.reader.room) :
    Gated rate s' := by
  refine ⟨fun hint => ?_, fun hint => ?_⟩
  · rw [haccepted] at hint
    rw [haccepted, hcount, hbehind]
    exact h.count hint
  · rw [haccepted] at hint
    rw [haccepted, hseconds]
    have hbefore := h.bound hint
    omega

/-- A count that is no multiple of the rate is below the next one. -/
theorem lt_of_tmod_ne {n rate k : ℤ} (hle : n ≤ rate * k) (hmod : n.tmod rate ≠ 0) :
    n < rate * k := by
  refine lt_of_le_of_ne hle fun heq => hmod ?_
  rw [heq, Int.mul_tmod_right]

theorem Gated.step (hrate : 0 < cfg.rate) (h : Gated cfg.rate s) {a : FileImportAction}
    (hsleeps : s.SleepsOut a) (hstep : FileImport.step cfg s a = some s') :
    Gated cfg.rate s' := by
  have hnext : FileImport.nextHandler cfg = .gate := if_pos hrate
  cases a with
  | read =>
      simp only [FileImport.step] at hstep
      split at hstep <;> cases hstep <;> rename_i hreader _ <;>
        exact h.goto rfl rfl rfl (by rw [hreader]; rfl) (by rw [hreader]; exact le_refl 1)
  | offer =>
      simp only [FileImport.step] at hstep
      split at hstep
      · rename_i p hreader
        split at hstep <;> cases hstep
        · have hlength : ((s.accepted ++ [p]).length : ℤ) = s.accepted.length + 1 := by
            rw [List.length_append]
            rfl
          refine ⟨fun hint => ?_, fun hint => ?_⟩
          · dsimp only at hint
            have hcount := h.count (by omega)
            rw [hreader] at hcount
            simp only [ReaderControl.behind] at hcount ⊢
            omega
          · dsimp only at hint
            have hbound := h.bound (by omega)
            rw [hreader] at hbound
            simp only [ReaderControl.room] at hbound ⊢
            omega
        · exact h.goto rfl rfl rfl (by rw [hreader]; rfl) (by rw [hreader]; exact le_refl 1)
      · cases hstep
  | sleep slept =>
      simp only [FileImport.step] at hstep
      split at hstep
      · rename_i p hreader
        split at hstep <;> cases hstep
        · exact h.goto rfl rfl rfl (by rw [hreader]; rfl) (by rw [hreader]; exact le_refl 1)
        · rw [hnext]
          exact h.goto rfl rfl rfl (by rw [hreader]; rfl) (by rw [hreader]; exact zero_le_one)
      · rename_i hreader
        have hslept : slept = true := hsleeps.resolve_right (absurd hreader)
        rw [if_pos hslept] at hstep
        cases hstep
        refine ⟨fun hint => ?_, fun hint => ?_⟩
        · have hcount := h.count hint
          rw [hreader] at hcount
          exact hcount
        · have hbound := h.bound hint
          rw [hreader] at hbound
          show (s.accepted.length : ℤ) + 1 ≤ cfg.rate * (((s.seconds + 1 : ℕ) : ℤ) + 1)
          simp only [ReaderControl.room, add_zero] at hbound
          rw [mul_add, Nat.cast_add]
          simp only [mul_add, mul_one, Nat.cast_one] at hbound ⊢
          omega
      · cases hstep
  | incrementAndGet =>
      simp only [FileImport.step] at hstep
      split at hstep <;> cases hstep
      rename_i hreader
      rw [hnext]
      refine ⟨fun hint => ?_, fun hint => ?_⟩
      · have hcount := h.count hint
        rw [hreader] at hcount
        simp only [ReaderControl.behind, add_zero] at hcount ⊢
        rw [hcount]
        exact wrapInt_eq ⟨by omega, hint⟩
      · have hbound := h.bound hint
        rw [hreader] at hbound
        exact hbound
  | gate =>
      simp only [FileImport.step] at hstep
      split at hstep <;> cases hstep
      rename_i hreader
      split_ifs with hmod
      · exact h.goto rfl rfl rfl (by rw [hreader]; rfl) (by rw [hreader]; exact le_refl 0)
      · refine ⟨fun hint => ?_, fun hint => ?_⟩
        · have hcount := h.count hint
          rw [hreader] at hcount
          exact hcount
        · have hcount := h.count hint
          have hbound := h.bound hint
          rw [hreader] at hcount hbound
          simp only [ReaderControl.behind, ReaderControl.room, add_zero] at hcount hbound
          rw [hcount] at hmod
          exact Int.add_one_le_iff.mpr (lt_of_tmod_ne hbound hmod)
  | takeBatch n =>
      simp only [FileImport.step] at hstep
      split at hstep <;> cases hstep
      exact h.goto rfl rfl rfl rfl (le_refl _)
  | handleMessages clock outcome =>
      simp only [FileImport.step] at hstep
      split at hstep <;> cases hstep
      cases outcome <;> exact h.goto rfl rfl rfl rfl (le_refl _)

end

/-- With a rate, and unless the sleep for it is interrupted: as long as the
count of accepted packets has not overflowed, there are never more of them
than the rate allows for the seconds slept and one second more. -/
theorem import_atRate {Pos : Type} {cfg : FileImportConfig Pos} (hrate : 0 < cfg.rate)
    {packets : List AisPacket} {s : FileImport Pos}
    (h : ReachedBy (FileImport.step cfg) FileImport.SleepsOut (FileImport.start packets) s)
    (hint : s.accepted.length ≤ maxInt) :
    (s.accepted.length : ℤ) ≤ cfg.rate * (s.seconds + 1) := by
  have hstart : Gated cfg.rate (FileImport.start packets : FileImport Pos) := by
    refine ⟨fun _ => rfl, fun _ => ?_⟩
    show ((0 : ℕ) : ℤ) + 1 ≤ cfg.rate * (((0 : ℕ) : ℤ) + 1)
    omega
  have hgated : Gated cfg.rate s :=
    h.invariant hstart fun _ _ _ hsleeps hstep h => h.step hrate hsleeps hstep
  have hbound := hgated.bound hint
  have hroom : 0 ≤ s.reader.room := by
    unfold ReaderControl.room
    split <;> omega
  omega

/-- After one second the second packet has been accepted. -/
theorem import_atRate_twoPackets :
    ∃ s : FileImport ℤ, s.accepted = [report13, report55] ∧ s.seconds = 1 ∧
      (s.accepted.length : ℤ) ≤ directoryImport.rate * (s.seconds + 1) := by
  have hstart : ReachedBy (FileImport.step directoryImport) FileImport.SleepsOut
      (FileImport.start [report13, report55]) (FileImport.start [report13, report55]) := .start
  have hfirst := (hstart.next .read trivial rfl).next .offer trivial rfl
  have hgate := (hfirst.next .incrementAndGet trivial rfl).next .gate trivial rfl
  have hsecond := ((hgate.next (.sleep true) (.inl rfl) rfl).next .read trivial rfl).next .offer
    trivial rfl
  exact ⟨_, rfl, rfl, import_atRate (by decide) hsecond (by decide)⟩

end AisStore
