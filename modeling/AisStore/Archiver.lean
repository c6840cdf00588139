import AisStore.Writer
import AisStore.Lib.Transition
import Mathlib.Logic.Function.Basic

/-!
`Archiver`, with `CassandraBatchedStagedWriter` and `FileImportService`: the
daemon that writes the packets of its sources to Cassandra, puts what it
cannot write into backup files, and restores those.

The three threads and the sources share two bounded queues and the backup
directory. They are given as one state and one step function. An action is
what a thread does between two looks at something shared, and the actions of
the threads come in any order. The stage and the file service that the
queues belong to are library code; of them the model has only that the first
hands over what is in the main queue in batches, and that the second moves
what is in the backup queue into some file. A backup file is the list of the
packets in it, and reading it gives them back one by one.

A packet is never forgotten while the threads hand it on (`noPacketLost`),
with three exceptions, which `Harmless` excludes. A batch whose write ends
with a `QueryValidationException` is dropped, since that branch does not call
`onFailure` (`noPacketLost_droppedBatch`). A packet `handleMessage` has no
statement for is gone with a batch that is written. And what is appended to a
backup file after it was read to its end is deleted with it.
-/

namespace AisStore

open Lib

/-- The settings. The size of the backup queue is the file service's. -/
structure ArchiverConfig (Pos : Type) where
  lib : AisLib Pos
  batchSize : ℤ
  backupQueueSize : ℤ

/-- The queue size that `CassandraBatchedStagedWriter` asks for. -/
def ArchiverConfig.mainQueueSize {Pos : Type} (cfg : ArchiverConfig Pos) : ℤ :=
  min 100000 (wrapInt (cfg.batchSize * 100))

/-- A call of `restoreFile`: how many packets it has read, and whether it
has come to the end of the file. -/
structure Restoring where
  path : String
  position : ℕ
  atEnd : Bool

structure Archiver (Pos : Type) where
  /-- `isRunning()` of the import service. -/
  running : Bool
  mainQueue : List AisPacket
  /-- The messages `handleMessages` is working on. -/
  batch : List AisPacket
  tracker : Tracker Pos
  /-- The statements Cassandra has executed. -/
  cassandra : List Insert
  backupQueue : List AisPacket
  /-- The backup directory. -/
  files : String → Option (List AisPacket)
  restoring : Option Restoring
  /-- What `System.err` was told could not be persisted. -/
  reported : List AisPacket
  /-- Everything the sources have delivered. -/
  delivered : List AisPacket

/-- How `getUninterruptibly` ends. A write that fails with another exception
may have been carried out all the same. -/
inductive WriteOutcome where
  | success
  | queryValidationException
  | otherException (executed : Bool)

inductive ArchiverAction where
  /-- A source delivers a packet to the subscriber. -/
  | deliver (aisPacket : AisPacket)
  /-- The stage takes messages off its queue. -/
  | takeBatch (n : ℕ)
  /-- `handleMessages`; the writer reads the clock at each message. -/
  | handleMessages (clock : ℕ → ℤ) (outcome : WriteOutcome)
  /-- The file service moves messages into a file. -/
  | writeBackup (path : String) (n : ℕ)
  /-- `restoreFile` is called. -/
  | restoreFile (path : String)
  /-- It reads a packet and offers it to the stage, or finds it must wait. -/
  | readPacket
  /-- It returns because the service is shutting down. -/
  | leave
  /-- It deletes the file, or fails to. -/
  | delete (deleted : Bool)
  /-- It throws, and the file is moved out of the way, or cannot be. -/
  | moveUnreadable (target : Option String)
  | shutdown

namespace Archiver

variable {Pos : Type} (cfg : ArchiverConfig Pos)

/-- `backupService.getInputQueue().offer(p)`, and the report if it fails. -/
def offerBackup (s : Archiver Pos) (p : AisPacket) : Archiver Pos :=
  if s.backupQueue.length < cfg.backupQueueSize then
    { s with backupQueue := s.backupQueue ++ [p] }
  else { s with reported := s.reported ++ [p] }

def onFailure (s : Archiver Pos) (messages : List AisPacket) : Archiver Pos :=
  messages.foldl (offerBackup cfg) s

/-- The subscriber of the sources. -/
def deliver (s : Archiver Pos) (aisPacket : AisPacket) : Archiver Pos :=
  let s := { s with delivered := s.delivered ++ [aisPacket] }
  if s.mainQueue.length < cfg.mainQueueSize then
    { s with mainQueue := s.mainQueue ++ [aisPacket] }
  else offerBackup cfg s aisPacket

def handleMessages (s : Archiver Pos) (clock : ℕ → ℤ) (outcome : WriteOutcome) : Archiver Pos :=
  let messages := s.batch
  let w := assembleStatements cfg.lib clock ⟨s.tracker, []⟩ messages
  let s := { s with batch := [], tracker := w.tracker }
  match outcome with
  | .success => { s with cassandra := s.cassandra ++ w.statements }
  -- logged as an internal error, and that is all
  | .queryValidationException => s
  | .otherException executed =>
    onFailure cfg
      { s with cassandra := if executed then s.cassandra ++ w.statements else s.cassandra } messages

/-- One round of the loop of `restoreFile`. -/
def readPacket (s : Archiver Pos) (r : Restoring) : Archiver Pos :=
  match ((s.files r.path).getD [])[r.position]? with
  | none => { s with restoring := some { r with atEnd := true } }
  | some packet =>
    if s.running then
      if s.mainQueue.length > wrapInt (10 * cfg.batchSize) then s
      else if s.mainQueue.length < cfg.mainQueueSize then
        { s with
          mainQueue := s.mainQueue ++ [packet]
          restoring := some { r with position := r.position + 1 } }
      else s
    else { s with restoring := none }

/-- `p.getFileName().toString().endsWith(".zip")`. -/
def isZip (path : String) : Bool := ".zip".toList.isSuffixOf path.toList

def step (s : Archiver Pos) : ArchiverAction → Option (Archiver Pos)
  | .deliver aisPacket => some (deliver cfg s aisPacket)
  | .takeBatch n =>
    if s.batch = [] ∧ 0 < n ∧ n ≤ cfg.batchSize ∧ n ≤ s.mainQueue.length then
      some { s with batch := s.mainQueue.take n, mainQueue := s.mainQueue.drop n }
    else none
  | .handleMessages clock outcome =>
    if s.batch ≠ [] then some (handleMessages cfg s clock outcome) else none
  | .writeBackup path n =>
    if 0 < n ∧ n ≤ s.backupQueue.length then
      some { s with
        files := Function.update s.files path
          (some ((s.files path).getD [] ++ s.backupQueue.take n))
        backupQueue := s.backupQueue.drop n }
    else none
  -- how many packets are outstanding only decides when it is called
  | .restoreFile path =>
    if s.running ∧ s.restoring.isNone ∧ (s.files path).isSome ∧ isZip path then
      some { s with restoring := some ⟨path, 0, false⟩ }
    else none
  | .readPacket =>
    match s.restoring with
    | some r => if r.atEnd then none else some (readPacket cfg s r)
    | none => none
  | .leave =>
    match s.restoring with
    | some r => if s.running ∨ r.atEnd then none else some { s with restoring := none }
    | none => none
  | .delete deleted =>
    match s.restoring with
    | some r =>
      if r.atEnd then
        some { s with
          files := if deleted then Function.update s.files r.path none else s.files
          restoring := none }
      else none
    | none => none
  | .moveUnreadable target =>
    match s.restoring, target with
    | some r, some target =>
      if s.files target = none then
        some { s with
          files := Function.update (Function.update s.files r.path none) target (s.files r.path)
          restoring := none }
      else none
    | some _, none => some { s with restoring := none }
    | none, _ => none
  | .shutdown => some { s with running := false }

/-- The daemon as it starts, over the backup files an earlier one left. -/
def start (files : String → Option (List AisPacket)) : Archiver Pos where
  running := true
  mainQueue := []
  batch := []
  tracker := Cache.empty
  cassandra := []
  backupQueue := []
  files := files
  restoring := none
  reported := []
  delivered := []

/-! ### Where packets are -/

end Archiver

section
variable {Pos : Type} (lib : AisLib Pos)

/-- `handleMessage` has a statement for the packet: it has a time, or a vessel. -/
def HasStatement (p : AisPacket) : Prop :=
  (lib.getBestTimestamp p).1 > 0 ∨ mmsiOf lib p > 0

instance (p : AisPacket) : Decidable (HasStatement lib p) :=
  inferInstanceAs (Decidable (_ ∨ _))

/-- Cassandra has executed every statement there is for the packet. -/
def Executed (cassandra : List Insert) (p : AisPacket) : Prop :=
  ∃ position, ∀ i ∈ insertsOf lib p position, i ∈ cassandra

/-- The packet is in Cassandra: there are statements for it, and all of them
have been executed. -/
def Persisted (cassandra : List Insert) (p : AisPacket) : Prop :=
  ∃ position, insertsOf lib p position ≠ [] ∧ ∀ i ∈ insertsOf lib p position, i ∈ cassandra

/-- A packet is in one of the places where it can be found again. -/
inductive Kept (s : Archiver Pos) (p : AisPacket) : Prop where
  | mainQueue (h : p ∈ s.mainQueue)
  | batch (h : p ∈ s.batch)
  | cassandra (h : Persisted lib s.cassandra p)
  | backupQueue (h : p ∈ s.backupQueue)
  | file (path : String) (packets : List AisPacket) (hfile : s.files path = some packets)
      (h : p ∈ packets)
  | reported (h : p ∈ s.reported)

/-- How far a file has been read by a restore that is under way. -/
def Archiver.position (s : Archiver Pos) (path : String) : ℕ :=
  match s.restoring with
  | some r => if r.path = path then r.position else 0
  | none => 0

/-- The part of a backup file that a restore has not read. -/
def Archiver.unread (s : Archiver Pos) (path : String) : List AisPacket :=
  ((s.files path).getD []).drop (s.position path)

/-- Like `Kept`, not counting what has been read of a file, since that may be
deleted. -/
inductive Held (s : Archiver Pos) (p : AisPacket) : Prop where
  | mainQueue (h : p ∈ s.mainQueue)
  | batch (h : p ∈ s.batch)
  | cassandra (h : Persisted lib s.cassandra p)
  | backupQueue (h : p ∈ s.backupQueue)
  | file (path : String) (h : p ∈ s.unread path)
  | reported (h : p ∈ s.reported)

/-- The steps that lose nothing. -/
def Harmless (s : Archiver Pos) : ArchiverAction → Prop
  | .handleMessages _ .success => ∀ p ∈ s.batch, Fits lib p → HasStatement lib p
  | .handleMessages _ .queryValidationException => ∀ p ∈ s.batch, ¬ Fits lib p
  | .delete true => ∀ r ∈ s.restoring, s.unread r.path = []
  | _ => True

/-! ### What one step does to a packet -/

/-- No restore has read more than there is. -/
def Archiver.InFile (s : Archiver Pos) : Prop :=
  ∀ path, s.position path ≤ ((s.files path).getD []).length

/-- A step that lets go of no packet, and of nothing just delivered. -/
structure Carries (s s' : Archiver Pos) : Prop where
  held : ∀ p, Fits lib p → Held lib s p → Held lib s' p
  delivered : ∀ p ∈ s'.delivered, p ∈ s.delivered ∨ Held lib s' p
  inFile : s'.InFile

variable {lib} in
theorem Held.kept {s : Archiver Pos} {p : AisPacket} (h : Held lib s p) : Kept lib s p := by
  cases h with
  | mainQueue h => exact .mainQueue h
  | batch h => exact .batch h
  | cassandra h => exact .cassandra h
  | backupQueue h => exact .backupQueue h
  | reported h => exact .reported h
  | file path h =>
      have hmem := List.mem_of_mem_drop h
      cases hfile : s.files path with
      | none =>
          rw [hfile] at hmem
          cases hmem
      | some packets =>
          rw [hfile] at hmem
          exact .file path packets hfile hmem

/-- Wherever the packet was, it is held afterwards. A place that the step
leaves alone needs no word. -/
structure HandsOn (s s' : Archiver Pos) (p : AisPacket) : Prop where
  mainQueue : p ∈ s.mainQueue → Held lib s' p := by exact fun h => .mainQueue h
  batch : p ∈ s.batch → Held lib s' p := by exact fun h => .batch h
  cassandra : Persisted lib s.cassandra p → Held lib s' p := by exact fun h => .cassandra h
  backupQueue : p ∈ s.backupQueue → Held lib s' p := by exact fun h => .backupQueue h
  file : ∀ path, p ∈ s.unread path → Held lib s' p := by exact fun path h => .file path h
  reported : p ∈ s.reported → Held lib s' p := by exact fun h => .reported h

variable {lib}

theorem Held.handOn {s s' : Archiver Pos} {p : AisPacket} (h : Held lib s p)
    (hhands : HandsOn lib s s' p) : Held lib s' p := by
  cases h with
  | mainQueue h => exact hhands.mainQueue h
  | batch h => exact hhands.batch h
  | cassandra h => exact hhands.cassandra h
  | backupQueue h => exact hhands.backupQueue h
  | file path h => exact hhands.file path h
  | reported h => exact hhands.reported h

theorem insertsOf_ne_nil_iff (p : AisPacket) (position : Option Pos) :
    insertsOf lib p position ≠ [] ↔ HasStatement lib p := by
  unfold insertsOf HasStatement
  split_ifs <;> simp_all

theorem Executed.append {cassandra : List Insert} {p : AisPacket}
    (h : Executed lib cassandra p) (statements : List Insert) :
    Executed lib (cassandra ++ statements) p := by
  obtain ⟨position, hinserts⟩ := h
  exact ⟨position, fun i hi => List.mem_append_left _ (hinserts i hi)⟩

theorem Executed.persisted {cassandra : List Insert} {p : AisPacket}
    (h : Executed lib cassandra p) (hstatement : HasStatement lib p) :
    Persisted lib cassandra p := by
  obtain ⟨position, hinserts⟩ := h
  exact ⟨position, (insertsOf_ne_nil_iff p position).mpr hstatement, hinserts⟩

theorem Persisted.append {cassandra : List Insert} {p : AisPacket}
    (h : Persisted lib cassandra p) (statements : List Insert) :
    Persisted lib (cassandra ++ statements) p := by
  obtain ⟨position, hne, hinserts⟩ := h
  exact ⟨position, hne, fun i hi => List.mem_append_left _ (hinserts i hi)⟩

/-- The statements of a batch are complete for each packet that does not throw. -/
theorem executed_assembleStatements (clock : ℕ → ℤ) (s : WriterState Pos)
    (messages : List AisPacket) :
    ∀ p ∈ messages, Fits lib p →
      Executed lib (assembleStatements lib clock s messages).statements p := by
  refine runClocked_induction (tryHandleMessage lib) clock s
    (P := fun messages s => ∀ p ∈ messages, Fits lib p → Executed lib s.statements p) nofun ?_
    messages
  intro messages packet s ih p hp hfits
  rw [tryHandleMessage_eq]
  rcases List.mem_append.mp hp with hp | hp
  · exact (ih p hp hfits).append _
  · cases List.mem_singleton.mp hp
    refine ⟨(getPosition lib (clock messages.length) s.tracker packet).1, fun i hi => ?_⟩
    rw [if_pos hfits]
    exact List.mem_append_right _ hi

/-- `handleMessage` returns exactly if the packet fits. -/
theorem outcome_handleMessage (now : ℤ) (tracker : Tracker Pos) (statements : List Insert)
    (p : AisPacket) :
    (handleMessage lib now tracker statements p).outcome = .ok () ↔ Fits lib p := by
  by_cases h : Fits lib p
  · rw [handleMessage_ok lib p statements now tracker h]
    exact iff_of_true rfl h
  · obtain ⟨e, he⟩ := handleMessage_error lib p statements now tracker h
    rw [he]
    exact iff_of_false nofun h

section
variable (cfg : ArchiverConfig Pos) {s : Archiver Pos}

theorem held_offerBackup_self (p : AisPacket) : Held lib (s.offerBackup cfg p) p := by
  simp only [Archiver.offerBackup]
  split_ifs
  · exact .backupQueue (List.mem_append_right _ (List.mem_singleton.mpr rfl))
  · exact .reported (List.mem_append_right _ (List.mem_singleton.mpr rfl))

theorem held_offerBackup {p : AisPacket} (h : Held lib s p) (q : AisPacket) :
    Held lib (s.offerBackup cfg q) p := by
  simp only [Archiver.offerBackup]
  split_ifs
  · exact h.handOn { backupQueue := fun h => .backupQueue (List.mem_append_left _ h) }
  · exact h.handOn { reported := fun h => .reported (List.mem_append_left _ h) }

theorem held_onFailure {p : AisPacket} {messages : List AisPacket}
    (h : Held lib s p ∨ p ∈ messages) : Held lib (s.onFailure cfg messages) p := by
  induction messages generalizing s with
  | nil => exact h.resolve_right (List.not_mem_nil)
  | cons q messages ih =>
      refine @ih (s.offerBackup cfg q) ?_
      rcases h with h | h
      · exact .inl (held_offerBackup cfg h q)
      · rcases List.mem_cons.mp h with rfl | h
        · exact .inl (held_offerBackup_self cfg p)
        · exact .inr h

/-- Offering to the backup service touches nothing but its queue and the report. -/
theorem offerBackup_frame (p : AisPacket) :
    (s.offerBackup cfg p).delivered = s.delivered ∧ (s.offerBackup cfg p).files = s.files ∧
      (s.offerBackup cfg p).restoring = s.restoring := by
  simp only [Archiver.offerBackup]
  split_ifs <;> exact ⟨rfl, rfl, rfl⟩

theorem onFailure_frame (messages : List AisPacket) :
    (s.onFailure cfg messages).delivered = s.delivered ∧
      (s.onFailure cfg messages).files = s.files ∧
      (s.onFailure cfg messages).restoring = s.restoring := by
  induction messages generalizing s with
  | nil => exact ⟨rfl, rfl, rfl⟩
  | cons q messages ih =>
      obtain ⟨hdelivered, hfiles, hrestoring⟩ := offerBackup_frame cfg (s := s) q
      rw [← hdelivered, ← hfiles, ← hrestoring]
      exact ih

theorem Archiver.InFile.of_frame {s' : Archiver Pos} (h : s.InFile) (hfiles : s'.files = s.files)
    (hrestoring : s'.restoring = s.restoring) : s'.InFile := by
  intro path
  have hposition : s'.position path = s.position path := by
    rw [Archiver.position, hrestoring, Archiver.position]
  rw [hposition, hfiles]
  exact h path

/-! ### Each action -/

theorem carries_deliver (hin : s.InFile) (aisPacket : AisPacket) :
    Carries lib s (s.deliver cfg aisPacket) := by
  have hnew {p : AisPacket} (hp : p ∈ s.delivered ++ [aisPacket])
      (hself : Held lib (s.deliver cfg aisPacket) aisPacket) :
      p ∈ s.delivered ∨ Held lib (s.deliver cfg aisPacket) p := by
    rcases List.mem_append.mp hp with hp | hp
    · exact .inl hp
    · exact .inr (List.mem_singleton.mp hp ▸ hself)
  simp only [Archiver.deliver] at hnew ⊢
  split_ifs at hnew ⊢ with hroom
  · refine ⟨fun p _ h => ?_, fun p hp => hnew hp ?_, hin.of_frame rfl rfl⟩
    · exact h.handOn { mainQueue := fun h => .mainQueue (List.mem_append_left _ h) }
    · exact .mainQueue (List.mem_append_right _ (List.mem_singleton.mpr rfl))
  · obtain ⟨hdelivered, hfiles, hrestoring⟩ :=
      offerBackup_frame cfg (s := { s with delivered := s.delivered ++ [aisPacket] }) aisPacket
    refine ⟨fun p _ h => held_offerBackup cfg ?_ aisPacket, fun p hp => ?_,
      hin.of_frame hfiles hrestoring⟩
    · exact h.handOn {}
    · rw [hdelivered] at hp
      exact hnew hp (held_offerBackup_self cfg aisPacket)

theorem carries_takeBatch (hin : s.InFile) (hempty : s.batch = []) (n : ℕ) :
    Carries lib s { s with batch := s.mainQueue.take n, mainQueue := s.mainQueue.drop n } := by
  refine ⟨fun p _ h => h.handOn { mainQueue := fun h => ?_, batch := fun h => ?_ },
    fun p hp => .inl hp, hin.of_frame rfl rfl⟩
  · rw [← List.take_append_drop n s.mainQueue, List.mem_append] at h
    rcases h with h | h
    · exact .batch h
    · exact .mainQueue h
  · rw [hempty] at h
    cases h

theorem carries_handleMessages (hin : s.InFile) (clock : ℕ → ℤ) (outcome : WriteOutcome)
    (hharmless : Harmless cfg.lib s (.handleMessages clock outcome)) :
    Carries cfg.lib s (s.handleMessages cfg clock outcome) := by
  cases outcome with
  | success =>
      refine ⟨fun p hfits h => h.handOn { batch := fun h => ?_, cassandra := fun h => ?_ },
        fun p hp => .inl hp, hin.of_frame rfl rfl⟩
      · obtain ⟨position, hinserts⟩ :=
          executed_assembleStatements clock ⟨s.tracker, []⟩ s.batch p h hfits
        have hexecuted : Executed cfg.lib
            (s.handleMessages cfg clock .success).cassandra p :=
          ⟨position, fun i hi => List.mem_append_right _ (hinserts i hi)⟩
        exact .cassandra (hexecuted.persisted (hharmless p h hfits))
      · exact .cassandra (h.append _)
  | queryValidationException =>
      refine ⟨fun p hfits h => h.handOn { batch := fun h => ?_ }, fun p hp => .inl hp,
        hin.of_frame rfl rfl⟩
      exact absurd hfits (hharmless p h)
  | otherException executed =>
      simp only [Archiver.handleMessages]
      -- what Cassandra has, whether or not the batch was executed
      have hexecuted {p : AisPacket} (h : Persisted cfg.lib s.cassandra p) :
          Persisted cfg.lib (if executed = true then s.cassandra ++
            (assembleStatements cfg.lib clock ⟨s.tracker, []⟩ s.batch).statements
            else s.cassandra) p := by
        split_ifs
        · exact h.append _
        · exact h
      generalize (if executed = true then s.cassandra ++
        (assembleStatements cfg.lib clock ⟨s.tracker, []⟩ s.batch).statements
        else s.cassandra) = written at hexecuted
      obtain ⟨hdelivered, hfiles, hrestoring⟩ := onFailure_frame cfg
        (s := { s with
          batch := []
          tracker := (assembleStatements cfg.lib clock ⟨s.tracker, []⟩ s.batch).tracker
          cassandra := written }) s.batch
      refine ⟨fun p _ h => held_onFailure cfg ?_, fun p hp => .inl ?_,
        hin.of_frame hfiles hrestoring⟩
      · by_cases hbatch : p ∈ s.batch
        · exact .inr hbatch
        · exact .inl (h.handOn
            { batch := fun h => absurd h hbatch, cassandra := fun h => .cassandra (hexecuted h) })
      · rwa [hdelivered] at hp

theorem carries_writeBackup (hin : s.InFile) (path : String) (n : ℕ) :
    Carries lib s { s with
      files := Function.update s.files path
        (some ((s.files path).getD [] ++ s.backupQueue.take n))
      backupQueue := s.backupQueue.drop n } := by
  have hfile : Function.update s.files path
      (some ((s.files path).getD [] ++ s.backupQueue.take n)) path =
        some ((s.files path).getD [] ++ s.backupQueue.take n) := Function.update_self ..
  refine ⟨fun p _ h => h.handOn { backupQueue := fun h => ?_, file := fun path' h => ?_ },
    fun p hp => .inl hp, ?_⟩
  · rw [← List.take_append_drop n s.backupQueue, List.mem_append] at h
    rcases h with h | h
    · -- what is appended lies beyond what has been read
      refine .file path ?_
      change p ∈ List.drop (s.position path) (Option.getD (Function.update s.files path _ path) [])
      rw [hfile, Option.getD_some, List.drop_append_of_le_length (hin path)]
      exact List.mem_append_right _ h
    · exact .backupQueue h
  · refine .file path' ?_
    change p ∈ List.drop (s.position path') (Option.getD (Function.update s.files path _ path') [])
    by_cases heq : path' = path
    · subst heq
      rw [hfile, Option.getD_some, List.drop_append_of_le_length (hin path')]
      exact List.mem_append_left _ h
    · rw [Function.update_of_ne heq]
      exact h
  · intro path'
    change s.position path' ≤ (Option.getD (Function.update s.files path _ path') []).length
    by_cases heq : path' = path
    · subst heq
      rw [hfile, Option.getD_some, List.length_append]
      exact (hin path').trans (Nat.le_add_right _ _)
    · rw [Function.update_of_ne heq]
      exact hin path'

/-- Actions of the import service that hand on nothing. -/
theorem carries_files {running : Bool} {files : String → Option (List AisPacket)}
    {restoring : Option Restoring}
    (hunread : ∀ path, ∀ p ∈ s.unread path, ∃ path', p ∈
      ({ s with running := running, files := files, restoring := restoring } :
        Archiver Pos).unread path')
    (hin : ({ s with running := running, files := files, restoring := restoring } :
      Archiver Pos).InFile) :
    Carries lib s { s with running := running, files := files, restoring := restoring } := by
  refine ⟨fun p _ h => h.handOn { file := fun path h => ?_ }, fun p hp => .inl hp, hin⟩
  obtain ⟨path', h⟩ := hunread path p h
  exact .file path' h

theorem position_of_restoring {r : Restoring} (hr : s.restoring = some r) (path : String) :
    s.position path = if r.path = path then r.position else 0 := by
  rw [Archiver.position, hr]

theorem inFile_of_not_restoring (h : s.restoring = none) : s.InFile := by
  intro path
  rw [Archiver.position, h]
  exact Nat.zero_le _

/-- A restore that ends without deleting the file. -/
theorem carries_stop : Carries lib s { s with restoring := none } := by
  refine carries_files (fun path p hp => ⟨path, ?_⟩) (inFile_of_not_restoring rfl)
  exact List.mem_of_mem_drop hp

theorem carries_restoreFile (hnone : s.restoring = none) (path : String) :
    Carries lib s { s with restoring := some ⟨path, 0, false⟩ } := by
  have hzero (path' : String) :
      ({ s with restoring := some ⟨path, 0, false⟩ } : Archiver Pos).position path' = 0 :=
    ite_self _
  have hbefore (path' : String) : s.position path' = 0 := by
    rw [Archiver.position, hnone]
  refine carries_files (fun path' p hp => ⟨path', ?_⟩) fun path' => ?_
  · rw [Archiver.unread, hbefore] at hp
    rw [Archiver.unread, hzero]
    exact hp
  · rw [hzero]
    exact Nat.zero_le _

theorem carries_readPacket (hin : s.InFile) {r : Restoring} (hr : s.restoring = some r) :
    Carries lib s (s.readPacket cfg r) := by
  have hself : s.position r.path = r.position := by
    rw [position_of_restoring hr, if_pos rfl]
  simp only [Archiver.readPacket]
  cases hnext : ((s.files r.path).getD [])[r.position]? with
  | none =>
      have hsame (path : String) :
          ({ s with restoring := some { r with atEnd := true } } : Archiver Pos).position path =
            s.position path := (position_of_restoring hr path).symm
      refine carries_files (fun path p hp => ⟨path, ?_⟩) fun path => ?_
      · rw [Archiver.unread, hsame]
        exact hp
      · rw [hsame]
        exact hin path
  | some packet =>
      have hsame : Carries lib s s := ⟨fun _ _ h => h, fun _ hp => .inl hp, hin⟩
      simp only
      split_ifs
      · exact hsame
      · have hlt : r.position < ((s.files r.path).getD []).length :=
          (List.getElem?_eq_some_iff.mp hnext).1
        have hother {path : String} (hne : r.path ≠ path) : s.position path = 0 := by
          rw [position_of_restoring hr, if_neg hne]
        refine ⟨fun p _ h => h.handOn
          { mainQueue := fun h => .mainQueue (List.mem_append_left _ h), file := fun path h => ?_ },
          fun p hp => .inl hp, ?_⟩
        · by_cases hpath : r.path = path
          · subst hpath
            rw [Archiver.unread, hself, List.drop_eq_getElem_cons hlt] at h
            rcases List.mem_cons.mp h with rfl | h
            · -- it has been offered to the stage
              rw [List.getElem?_eq_getElem hlt] at hnext
              cases hnext
              exact .mainQueue (List.mem_append_right _ (List.mem_singleton.mpr rfl))
            · refine .file r.path ?_
              rw [Archiver.unread, Archiver.position]
              simp only [if_true]
              exact h
          · refine .file path ?_
            rw [Archiver.unread, hother hpath] at h
            rw [Archiver.unread, Archiver.position]
            simp only [if_neg hpath]
            exact h
        · intro path
          rw [Archiver.position]
          by_cases hpath : r.path = path
          · subst hpath
            simp only [if_true]
            exact hlt
          · simp only [if_neg hpath]
            exact Nat.zero_le _
      · exact hsame
      · exact carries_stop

theorem carries_delete {r : Restoring} (hread : s.unread r.path = []) :
    Carries lib s { s with files := Function.update s.files r.path none, restoring := none } := by
  refine carries_files (fun path p hp => ⟨path, ?_⟩) (inFile_of_not_restoring rfl)
  by_cases hpath : path = r.path
  · rw [hpath, hread] at hp
    cases hp
  · have hmem := List.mem_of_mem_drop hp
    change p ∈ List.drop 0 (Option.getD (Function.update s.files r.path none path) [])
    rw [Function.update_of_ne hpath]
    exact hmem

theorem carries_moveUnreadable (r : Restoring) {target : String}
    (htarget : s.files target = none) :
    Carries lib s { s with
      files := Function.update (Function.update s.files r.path none) target (s.files r.path)
      restoring := none } := by
  refine carries_files (fun path p hp => ?_) (inFile_of_not_restoring rfl)
  have hmem := List.mem_of_mem_drop hp
  by_cases hpath : path = r.path
  · refine ⟨target, ?_⟩
    change p ∈ List.drop 0 ((Function.update (Function.update s.files r.path none) target
      (s.files r.path) target).getD [])
    rw [Function.update_self, ← hpath]
    exact hmem
  · have hne : path ≠ target := by
      rintro rfl
      rw [htarget] at hmem
      cases hmem
    refine ⟨path, ?_⟩
    change p ∈ List.drop 0 ((Function.update (Function.update s.files r.path none) target
      (s.files r.path) path).getD [])
    rw [Function.update_of_ne hne, Function.update_of_ne hpath]
    exact hmem

/-! ### Runs -/

theorem carries_step {s' : Archiver Pos} {a : ArchiverAction} (hin : s.InFile)
    (hharmless : Harmless cfg.lib s a) (hstep : s.step cfg a = some s') :
    Carries cfg.lib s s' := by
  cases a with
  | deliver aisPacket =>
      cases hstep
      exact carries_deliver cfg hin aisPacket
  | takeBatch n =>
      simp only [Archiver.step, Option.ite_none_right_eq_some] at hstep
      obtain ⟨⟨hempty, -⟩, hstep⟩ := hstep
      cases hstep
      exact carries_takeBatch hin hempty n
  | handleMessages clock outcome =>
      simp only [Archiver.step, Option.ite_none_right_eq_some] at hstep
      obtain ⟨-, hstep⟩ := hstep
      cases hstep
      exact carries_handleMessages cfg hin clock outcome hharmless
  | writeBackup path n =>
      simp only [Archiver.step, Option.ite_none_right_eq_some] at hstep
      obtain ⟨-, hstep⟩ := hstep
      cases hstep
      exact carries_writeBackup hin path n
  | restoreFile path =>
      simp only [Archiver.step, Option.ite_none_right_eq_some] at hstep
      obtain ⟨⟨-, hnone, -⟩, hstep⟩ := hstep
      cases hstep
      exact carries_restoreFile (Option.isNone_iff_eq_none.mp hnone) path
  | shutdown =>
      cases hstep
      exact carries_files (fun path p hp => ⟨path, hp⟩) (hin.of_frame rfl rfl)
  -- the others go on with a restore that is under way
  | readPacket =>
      cases hr : s.restoring with
      | none => simp only [Archiver.step, hr, reduceCtorEq] at hstep
      | some r =>
          simp only [Archiver.step, hr, Option.ite_none_left_eq_some] at hstep
          obtain ⟨-, hstep⟩ := hstep
          cases hstep
          exact carries_readPacket cfg hin hr
  | leave =>
      cases hr : s.restoring with
      | none => simp only [Archiver.step, hr, reduceCtorEq] at hstep
      | some r =>
          simp only [Archiver.step, hr, Option.ite_none_left_eq_some] at hstep
          obtain ⟨-, hstep⟩ := hstep
          cases hstep
          exact carries_stop
  | delete deleted =>
      cases hr : s.restoring with
      | none => simp only [Archiver.step, hr, reduceCtorEq] at hstep
      | some r =>
          simp only [Archiver.step, hr, Option.ite_none_right_eq_some] at hstep
          obtain ⟨-, hstep⟩ := hstep
          cases hstep
          cases deleted with
          | false => exact carries_stop
          | true => exact carries_delete (hharmless r hr)
  | moveUnreadable target =>
      cases hr : s.restoring with
      | none => simp only [Archiver.step, hr, reduceCtorEq] at hstep
      | some r =>
          cases target with
          | none =>
              simp only [Archiver.step, hr] at hstep
              cases hstep
              exact carries_stop
          | some target =>
              simp only [Archiver.step, hr, Option.ite_none_right_eq_some] at hstep
              obtain ⟨htarget, hstep⟩ := hstep
              cases hstep
              exact carries_moveUnreadable r htarget

/-- In every state of a run of harmless steps, a packet that was delivered,
and that `handleMessage` does not throw at, is kept. -/
theorem noPacketLost (files : String → Option (List AisPacket)) (s : Archiver Pos)
    (h : ReachedBy (Archiver.step cfg) (Harmless cfg.lib) (.start files) s) :
    ∀ p ∈ s.delivered,
      (∃ now tracker statements,
        (handleMessage cfg.lib now tracker statements p).outcome = .ok ()) →
      Kept cfg.lib s p := by
  have hinvariant : s.InFile ∧ ∀ p ∈ s.delivered, Fits cfg.lib p → Held cfg.lib s p := by
    refine h.invariant (P := fun s =>
      s.InFile ∧ ∀ p ∈ s.delivered, Fits cfg.lib p → Held cfg.lib s p) ?_ ?_
    · exact ⟨inFile_of_not_restoring rfl, nofun⟩
    · rintro s a s' hharmless hstep ⟨hin, hheld⟩
      have hcarries := carries_step cfg hin hharmless hstep
      refine ⟨hcarries.inFile, fun p hp hfits => ?_⟩
      rcases hcarries.delivered p hp with hp | hp
      · exact hcarries.held p hfits (hheld p hp hfits)
      · exact hp
  rintro p hp ⟨now, tracker, statements, houtcome⟩
  have hfits : Fits cfg.lib p := (outcome_handleMessage now tracker statements p).mp houtcome
  exact (hinvariant.2 p hp hfits).kept

end

end

/-- A position report. -/
def oneReport : List Decoded :=
  [positionReport]

/-- The settings of the command line, and room for a thousand packets in the
backup queue. -/
def defaultConfig (messages : List Decoded) : ArchiverConfig ℤ := ⟨.ofDecoded messages, 1000, 1000⟩

def report13 : AisPacket := .fromString "!AIVDM,1,1,,A,13"

/-- A packet on its way through a failed write, a backup file and a restore. -/
theorem noPacketLost_restored :
    ∃ s : Archiver ℤ, report13 ∈ s.delivered ∧ s.mainQueue = [report13] ∧
      Kept (.ofDecoded oneReport) s report13 := by
  have hrun : ∃ s : Archiver ℤ, ReachedBy (Archiver.step (defaultConfig oneReport))
      (Harmless (.ofDecoded oneReport)) (.start fun _ => none) s ∧
      s.delivered = [report13] ∧ s.mainQueue = [report13] := by
    have hstart : ReachedBy (Archiver.step (defaultConfig oneReport))
        (Harmless (.ofDecoded oneReport)) (.start fun _ => none) (.start fun _ => none) := .start
    have hdelivered := hstart.next (.deliver report13) trivial rfl
    have htaken := hdelivered.next (.takeBatch 1) trivial rfl
    have hfailed := htaken.next (.handleMessages (fun _ => 0) (.otherException false)) trivial rfl
    have hbackup := hfailed.next (.writeBackup "1970.01.01 00:10.txt.zip" 1) trivial rfl
    have hrestore := hbackup.next (.restoreFile "1970.01.01 00:10.txt.zip") trivial rfl
    have hread := hrestore.next (.readPacket) trivial rfl
    have hend := hread.next (.readPacket) trivial rfl
    exact ⟨_, hend, rfl, rfl⟩
  obtain ⟨s, hs, hdelivered, hqueue⟩ := hrun
  have hmem : report13 ∈ s.delivered := hdelivered ▸ List.mem_singleton.mpr rfl
  exact ⟨s, hmem, hqueue, noPacketLost (defaultConfig oneReport) (fun _ => none) s hs report13 hmem
    ⟨0, Cache.empty, [], rfl⟩⟩

/-- A batch that Cassandra rejects with a `QueryValidationException` is gone. -/
theorem noPacketLost_droppedBatch :
    ∃ s : Archiver ℤ, ReachedBy (Archiver.step (defaultConfig oneReport)) (fun _ _ => True)
        (.start fun _ => none) s ∧
      report13 ∈ s.delivered ∧
      (handleMessage (.ofDecoded oneReport) 0 Cache.empty [] report13).outcome = .ok () ∧
      ¬ Kept (.ofDecoded oneReport) s report13 := by
  have hstart : ReachedBy (Archiver.step (defaultConfig oneReport)) (fun _ _ => True)
      (.start fun _ => none) (.start fun _ => none) := .start
  have hdelivered := hstart.next (.deliver report13) trivial rfl
  have htaken := hdelivered.next (.takeBatch 1) trivial rfl
  have hrejected := htaken.next
    (.handleMessages (fun _ => 0) .queryValidationException) trivial rfl
  refine ⟨_, hrejected, List.mem_singleton.mpr rfl, rfl, ?_⟩
  intro h
  cases h with
  | mainQueue h => cases h
  | batch h => cases h
  | cassandra h =>
      -- at least the insert into the table by time is missing
      obtain ⟨position, -, hinserts⟩ := h
      have htime := hinserts _ ((mem_insertsOf _).mpr (.inl ⟨by decide, rfl⟩))
      cases htime
  | backupQueue h => cases h
  | file path packets hfile h => cases hfile
  | reported h => cases h

end AisStore
