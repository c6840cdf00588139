import AisStore.Tracker

/-!
`DefaultAisStoreWriter` and the batch assembly of
`CassandraBatchedStagedWriter`.

`handleMessage` appends insert statements to a batch and may throw half way
through; what it appended before the throw stays in the batch, and so does
what it did to the tracker. The code is therefore written in a monad that
keeps both on a throw. `handleMessage_ok` and `handleMessage_error` then say
what came of it: since the ten-minute block is computed first and is the
first to overflow, a throw leaves nothing behind in the batch, and a normal
return leaves the complete `insertsOf` of the packet.
-/

namespace AisStore

open Lib

/-! ### Statements of a batch -/

/-- Code that appends to a batch and may throw; a throw keeps the batch. -/
abbrev BatchM := ExceptT Failure (StateM (List Insert))

def BatchM.exec {α : Type} (m : BatchM α) (batch : List Insert) :
    Except Failure α × List Insert :=
  (ExceptT.run m).run batch

/-- `batch.add(i)`. -/
def addInsert (i : Insert) : BatchM Unit := modify (· ++ [i])

/-- Stores the specified packet by time. -/
def storeByTime (timestamp : Instant) (digest : List UInt8) (rawMessage : String) :
    BatchM Unit := do
  let timeblock ← timeBlock .packetsTime timestamp
  let time ← timestamp.toEpochMilli
  addInsert ⟨.packetsTime, ⟨none, none, timeblock, time, digest, rawMessage⟩⟩

/-- Stores the specified packet by MMSI. -/
def storeByMmsi (timestamp : Instant) (mmsi : ℤ) (digest : List UInt8) (rawMessage : String) :
    BatchM Unit := do
  let timeblock ← timeBlock .packetsMmsi timestamp
  let time ← timestamp.toEpochMilli
  addInsert ⟨.packetsMmsi, ⟨none, some mmsi, timeblock, time, digest, rawMessage⟩⟩

section
variable {Pos : Type} (lib : AisLib Pos)

/-- Stores the specified packet by position (area). -/
def storeByArea (timestamp : Instant) (mmsi : ℤ) (p : Option Pos) (digest : List UInt8)
    (rawMessage : String) : BatchM Unit := do
  match p with
  | none =>
    let timeblock ← timeBlock .packetsAreaUnknown timestamp
    let time ← timestamp.toEpochMilli
    addInsert ⟨.packetsAreaUnknown, ⟨none, some mmsi, timeblock, time, digest, rawMessage⟩⟩
  | some p =>
    let timeblock ← timeBlock .packetsAreaCell1 timestamp
    let time ← timestamp.toEpochMilli
    addInsert ⟨.packetsAreaCell1,
      ⟨some (lib.getCellInt p 1), none, timeblock, time, digest, rawMessage⟩⟩
    if tablePacketsAreaCell10Enabled then
      let timeblock ← timeBlock .packetsAreaCell10 timestamp
      let time ← timestamp.toEpochMilli
      addInsert ⟨.packetsAreaCell10,
        ⟨some (lib.getCellInt p 10), none, timeblock, time, digest, rawMessage⟩⟩

def getPosition (now : ℤ) (tracker : Tracker Pos) (packet : AisPacket) :
    Option Pos × Tracker Pos :=
  trackPosition lib positionTimeoutNanos now tracker packet

/-- What a call of `handleMessage` leaves behind. -/
structure Handled (Pos : Type) where
  outcome : Except Failure Unit
  batch : List Insert
  tracker : Tracker Pos

/-- `message == null ? -1 : message.getUserId()`. -/
def mmsiOf (packet : AisPacket) : ℤ :=
  match lib.tryGetAisMessage packet with
  | none => -1
  | some message => message.userId

def handleMessage (now : ℤ) (tracker : Tracker Pos) (batch : List Insert) (packet : AisPacket) :
    Handled Pos :=
  let millisSinceEpoch := lib.getBestTimestamp packet
  let mmsi := mmsiOf lib packet
  let timestamp := Instant.ofEpochMilli millisSinceEpoch
  let (position, tracker) := getPosition lib now tracker packet
  let digest := digest lib packet
  let rawMessage := packet.stringMessage
  let store : BatchM Unit := do
    if millisSinceEpoch.1 > 0 then
      storeByTime timestamp digest rawMessage
    if mmsi > 0 then
      storeByMmsi timestamp mmsi digest rawMessage
    if millisSinceEpoch.1 > 0 ∧ mmsi > 0 then
      storeByArea lib timestamp mmsi position digest rawMessage
  let (outcome, batch) := store.exec batch
  ⟨outcome, batch, tracker⟩

/-- The state of the writer between packets: its tracker, and the
statements of the batch being assembled. -/
structure WriterState (Pos : Type) where
  tracker : Tracker Pos
  statements : List Insert

/-- One round of the loop of `handleMessages`: a packet whose handling
throws is logged and skipped. -/
def tryHandleMessage (now : ℤ) (s : WriterState Pos) (packet : AisPacket) : WriterState Pos :=
  let h := handleMessage lib now s.tracker s.statements packet
  ⟨h.tracker, h.batch⟩

/-- The loop of `handleMessages` over a list of packets. -/
def assembleStatements (clock : ℕ → ℤ) (s : WriterState Pos) (packets : List AisPacket) :
    WriterState Pos :=
  runClocked (tryHandleMessage lib) clock s packets

/-- The store a fresh writer leaves behind. -/
def written (clock : ℕ → ℤ) (packets : List AisPacket) : Store :=
  Store.ofInserts (assembleStatements lib clock ⟨Cache.empty, []⟩ packets).statements

/-! ### The statements of one packet -/

/-- The row of a packet in a table, without its key column. -/
def rowOf (table : Table) (cellid mmsi : Option ℤ) (packet : AisPacket) : Row where
  cellid := cellid
  mmsi := mmsi
  timeblock := block table (.ofEpochMilli (lib.getBestTimestamp packet))
  time := lib.getBestTimestamp packet
  digest := digest lib packet
  aisdata := packet.stringMessage

/-- The insert into an area table of a packet at a position, or at none. -/
def areaInsert (packet : AisPacket) : Option Pos → Insert
  | none =>
    ⟨.packetsAreaUnknown, rowOf lib .packetsAreaUnknown none (some (mmsiOf lib packet)) packet⟩
  | some p =>
    ⟨.packetsAreaCell1, rowOf lib .packetsAreaCell1 (some (lib.getCellInt p 1)) none packet⟩

/-- The complete statement set of a packet filed at a position. -/
def insertsOf (packet : AisPacket) (position : Option Pos) : List Insert :=
  (if (lib.getBestTimestamp packet).1 > 0 then
      [⟨.packetsTime, rowOf lib .packetsTime none none packet⟩] else []) ++
  (if mmsiOf lib packet > 0 then
      [⟨.packetsMmsi, rowOf lib .packetsMmsi none (some (mmsiOf lib packet)) packet⟩] else []) ++
  (if (lib.getBestTimestamp packet).1 > 0 ∧ mmsiOf lib packet > 0 then
      [areaInsert lib packet position] else [])

/-- Every block the writer computes for the packet is an `int`. -/
def Fits (packet : AisPacket) : Prop :=
  ((lib.getBestTimestamp packet).1 > 0 →
    IsInt (block .packetsTime (.ofEpochMilli (lib.getBestTimestamp packet)))) ∧
  (mmsiOf lib packet > 0 →
    IsInt (block .packetsMmsi (.ofEpochMilli (lib.getBestTimestamp packet))))

instance (packet : AisPacket) : Decidable (Fits lib packet) :=
  inferInstanceAs (Decidable (_ ∧ _))

end

/-! ### Running a batch -/

theorem exec_bind {α β : Type} (m : BatchM α) (f : α → BatchM β) (batch : List Insert) :
    (m >>= f).exec batch =
      match m.exec batch with
      | (.ok a, batch') => (f a).exec batch'
      | (.error e, batch') => (.error e, batch') := by
  simp only [BatchM.exec, ExceptT.run_bind, StateT.run_bind]
  cases h : StateT.run (ExceptT.run m) batch with
  | mk r batch' => cases r <;> rfl

theorem exec_lift {α : Type} (r : Except Failure α) (batch : List Insert) :
    (liftM r : BatchM α).exec batch = (r, batch) := rfl

theorem exec_pure {α : Type} (a : α) (batch : List Insert) :
    (pure a : BatchM α).exec batch = (.ok a, batch) := rfl

theorem exec_addInsert (i : Insert) (batch : List Insert) :
    (addInsert i).exec batch = (.ok (), batch ++ [i]) := rfl

/-- The two computations every store starts with, and the insert that
follows them. -/
theorem exec_insert_ok {table : Table} {m : Long} (mk : ℤ → Long → Insert) (batch : List Insert)
    (h : IsInt (block table (.ofEpochMilli m))) :
    (do
      let timeblock ← timeBlock table (.ofEpochMilli m)
      let time ← (Instant.ofEpochMilli m).toEpochMilli
      addInsert (mk timeblock time) : BatchM Unit).exec batch =
        (.ok (), batch ++ [mk (block table (.ofEpochMilli m)) m]) := by
  have hblock := timeBlock_of_isInt h
  have htime := toEpochMilli_of_isInt h (Instant.ofEpochMilli_millis m).symm
  simp only [exec_bind, exec_lift, hblock, htime, exec_addInsert]

theorem exec_insert_error {table : Table} {m : Long} (f : ℤ → BatchM Unit) (batch : List Insert)
    (h : ¬ IsInt (block table (.ofEpochMilli m))) :
    ∃ e, (do
      let timeblock ← timeBlock table (.ofEpochMilli m)
      f timeblock : BatchM Unit).exec batch = (.error e, batch) := by
  cases hblock : timeBlock table (.ofEpochMilli m) with
  | error e => exact ⟨e, by simp only [exec_bind, exec_lift]⟩
  | ok b => exact absurd (timeBlock_eq_ok.mp hblock).1 h

/-- A ten-minute block that is an `int` has a thirty-day block that is one. -/
theorem isInt_block_of_packetsTime {t : Instant} (h : IsInt (block .packetsTime t)) :
    IsInt (block .packetsMmsi t) := by
  simp only [IsInt, block, Table.unit] at h ⊢
  grind

section
variable {Pos : Type} (lib : AisLib Pos) (packet : AisPacket) (batch : List Insert)

theorem exec_storeByTime_ok
    (h : IsInt (block .packetsTime (.ofEpochMilli (lib.getBestTimestamp packet)))) :
    (storeByTime (.ofEpochMilli (lib.getBestTimestamp packet)) (digest lib packet)
      packet.stringMessage).exec batch =
      (.ok (), batch ++ [⟨.packetsTime, rowOf lib .packetsTime none none packet⟩]) :=
  exec_insert_ok _ _ h

theorem exec_storeByMmsi_ok {mmsi : ℤ}
    (h : IsInt (block .packetsMmsi (.ofEpochMilli (lib.getBestTimestamp packet)))) :
    (storeByMmsi (.ofEpochMilli (lib.getBestTimestamp packet)) mmsi (digest lib packet)
      packet.stringMessage).exec batch =
      (.ok (), batch ++ [⟨.packetsMmsi, rowOf lib .packetsMmsi none (some mmsi) packet⟩]) :=
  exec_insert_ok _ _ h

theorem exec_storeByArea_ok (position : Option Pos)
    (h : IsInt (block .packetsTime (.ofEpochMilli (lib.getBestTimestamp packet)))) :
    (storeByArea lib (.ofEpochMilli (lib.getBestTimestamp packet)) (mmsiOf lib packet) position
      (digest lib packet) packet.stringMessage).exec batch =
      (.ok (), batch ++ [areaInsert lib packet position]) := by
  cases position with
  | none =>
    have h30 := isInt_block_of_packetsTime h
    exact @exec_insert_ok .packetsAreaUnknown _ _ _ h30
  | some p => exact @exec_insert_ok .packetsAreaCell1 _ _ _ h

variable (now : ℤ) (tracker : Tracker Pos)

/-- A packet whose blocks fit is stored completely. -/
theorem handleMessage_ok (h : Fits lib packet) :
    handleMessage lib now tracker batch packet =
      ⟨.ok (), batch ++ insertsOf lib packet (getPosition lib now tracker packet).1,
        (getPosition lib now tracker packet).2⟩ := by
  obtain ⟨htime, hmmsi⟩ := h
  simp only [handleMessage]
  generalize getPosition lib now tracker packet = found
  obtain ⟨position, tracker'⟩ := found
  by_cases h0 : (lib.getBestTimestamp packet).1 > 0
  · have h10 := htime h0
    by_cases hm : mmsiOf lib packet > 0
    · have h30 := hmmsi hm
      simp only [h0, hm, if_true, and_self, exec_bind, exec_storeByTime_ok lib packet _ h10,
        exec_storeByMmsi_ok lib packet _ h30, exec_storeByArea_ok lib packet _ _ h10, insertsOf,
        List.append_assoc]
    · simp [h0, hm, exec_storeByTime_ok lib packet _ h10, insertsOf]
  · by_cases hm : mmsiOf lib packet > 0
    · have h30 := hmmsi hm
      simp only [h0, hm, if_true, if_false, false_and, exec_bind, exec_pure,
        exec_storeByMmsi_ok lib packet _ h30, insertsOf, List.append_nil, List.nil_append]
    · simp [h0, hm, exec_pure, insertsOf]

/-- A packet with a block that does not fit throws before anything is added
to the batch: the ten-minute block is tried first, and it is the first to
overflow. -/
theorem handleMessage_error (h : ¬ Fits lib packet) :
    ∃ e, handleMessage lib now tracker batch packet =
      ⟨.error e, batch, (getPosition lib now tracker packet).2⟩ := by
  simp only [handleMessage]
  generalize getPosition lib now tracker packet = found
  obtain ⟨position, tracker'⟩ := found
  by_cases h0 : (lib.getBestTimestamp packet).1 > 0
  · have h10 : ¬ IsInt (block .packetsTime (.ofEpochMilli (lib.getBestTimestamp packet))) := by
      intro h10
      exact h ⟨fun _ => h10, fun _ => isInt_block_of_packetsTime h10⟩
    obtain ⟨e, he⟩ := exec_insert_error (fun timeblock => do
      let time ← (Instant.ofEpochMilli (lib.getBestTimestamp packet)).toEpochMilli
      addInsert ⟨.packetsTime,
        ⟨none, none, timeblock, time, digest lib packet, packet.stringMessage⟩⟩) batch h10
    refine ⟨e, ?_⟩
    simp only [h0, if_true, exec_bind, storeByTime] at he ⊢
    rw [he]
  · have hm : mmsiOf lib packet > 0 := by
      by_contra hm
      exact h ⟨fun h0' => absurd h0' h0, fun hm' => absurd hm' hm⟩
    have h30 : ¬ IsInt (block .packetsMmsi (.ofEpochMilli (lib.getBestTimestamp packet))) :=
      fun h30 => h ⟨fun h0' => absurd h0' h0, fun _ => h30⟩
    obtain ⟨e, he⟩ := exec_insert_error (fun timeblock => do
      let time ← (Instant.ofEpochMilli (lib.getBestTimestamp packet)).toEpochMilli
      addInsert ⟨.packetsMmsi, ⟨none, some (mmsiOf lib packet), timeblock, time,
        digest lib packet, packet.stringMessage⟩⟩) batch h30
    refine ⟨e, ?_⟩
    simp only [h0, hm, if_true, if_false, exec_bind, storeByMmsi] at he ⊢
    rw [he]

end

/-! ### The statements of a run -/

section
variable {Pos : Type} (lib : AisLib Pos) (clock : ℕ → ℤ)

/-- The position a packet is filed at after the packets before it. -/
def positionAt (before : List AisPacket) (packet : AisPacket) : Option Pos :=
  (getPosition lib (clock before.length) (trackAll lib positionTimeoutNanos clock before) packet).1

/-- The statements a packet contributes after the packets before it. -/
def contributed (before : List AisPacket) (packet : AisPacket) : List Insert :=
  if Fits lib packet then insertsOf lib packet (positionAt lib clock before packet) else []

/-- The statements of a fresh writer. -/
abbrev statementsOf (packets : List AisPacket) : List Insert :=
  (assembleStatements lib clock ⟨Cache.empty, []⟩ packets).statements

theorem tryHandleMessage_eq (now : ℤ) (s : WriterState Pos) (packet : AisPacket) :
    tryHandleMessage lib now s packet =
      ⟨(getPosition lib now s.tracker packet).2,
        s.statements ++ if Fits lib packet then
          insertsOf lib packet (getPosition lib now s.tracker packet).1 else []⟩ := by
  by_cases h : Fits lib packet
  · simp [tryHandleMessage, handleMessage_ok lib packet _ now s.tracker h, h]
  · obtain ⟨e, he⟩ := handleMessage_error lib packet s.statements now s.tracker h
    simp [tryHandleMessage, he, h]

theorem tracker_assembleStatements (packets : List AisPacket) :
    (assembleStatements lib clock ⟨Cache.empty, []⟩ packets).tracker =
      trackAll lib positionTimeoutNanos clock packets := by
  induction packets using List.reverseRecOn with
  | nil => rfl
  | append_singleton packets packet ih =>
    rw [trackAll_concat, ← ih]
    simp only [assembleStatements, runClocked_concat, tryHandleMessage_eq]
    rfl

theorem statementsOf_concat (packets : List AisPacket) (packet : AisPacket) :
    statementsOf lib clock (packets ++ [packet]) =
      statementsOf lib clock packets ++ contributed lib clock packets packet := by
  have htracker := tracker_assembleStatements lib clock packets
  simp only [statementsOf, assembleStatements, runClocked_concat, tryHandleMessage_eq] at htracker ⊢
  rw [htracker]
  rfl

/-- A statement of a run comes from one of its packets, filed where the
packets before it leave it. -/
theorem mem_statementsOf {packets : List AisPacket} {i : Insert} :
    i ∈ statementsOf lib clock packets ↔
      ∃ before packet after, packets = before ++ packet :: after ∧
        i ∈ contributed lib clock before packet :=
  mem_iff_of_concat rfl (statementsOf_concat lib clock)

theorem mem_insertsOf {packet : AisPacket} {position : Option Pos} {i : Insert} :
    i ∈ insertsOf lib packet position ↔
      ((lib.getBestTimestamp packet).1 > 0 ∧
        i = ⟨.packetsTime, rowOf lib .packetsTime none none packet⟩) ∨
      (mmsiOf lib packet > 0 ∧
        i = ⟨.packetsMmsi, rowOf lib .packetsMmsi none (some (mmsiOf lib packet)) packet⟩) ∨
      (((lib.getBestTimestamp packet).1 > 0 ∧ mmsiOf lib packet > 0) ∧
        i = areaInsert lib packet position) := by
  simp only [insertsOf, List.mem_append, List.mem_ite_nil_right, List.mem_singleton, or_assoc]

/-- Every statement a packet contributes holds its time, its message and a
block that belongs to that time. -/
theorem row_of_contributed {before : List AisPacket} {packet : AisPacket} {i : Insert}
    (h : i ∈ contributed lib clock before packet) :
    i.row.InBlock i.table ∧ i.row.time = lib.getBestTimestamp packet ∧
      i.row.digest = digest lib packet ∧ i.row.aisdata = packet.stringMessage := by
  by_cases hfits : Fits lib packet
  · simp only [contributed, hfits, if_true, mem_insertsOf] at h
    rcases h with ⟨h0, rfl⟩ | ⟨hm, rfl⟩ | ⟨⟨h0, hm⟩, rfl⟩
    · exact ⟨timeBlock_of_isInt (hfits.1 h0), rfl, rfl, rfl⟩
    · exact ⟨timeBlock_of_isInt (hfits.2 hm), rfl, rfl, rfl⟩
    · cases positionAt lib clock before packet with
      | none => exact ⟨@timeBlock_of_isInt .packetsAreaUnknown _ (hfits.2 hm), rfl, rfl, rfl⟩
      | some p => exact ⟨@timeBlock_of_isInt .packetsAreaCell1 _ (hfits.1 h0), rfl, rfl, rfl⟩
  · simp [contributed, hfits] at h

theorem mem_written {packets : List AisPacket} {table : Table} {r : Row}
    (h : r ∈ (written lib clock packets table).rows) :
    ∃ before packet after, packets = before ++ packet :: after ∧
      ⟨table, r⟩ ∈ contributed lib clock before packet :=
  (mem_statementsOf lib clock).mp (mem_rowsFor.mp (KeyedTable.mem_of_mem_ofInserts h))

/-- Every row of a table is the row of one of the packets. -/
theorem row_of_written {packets : List AisPacket} {table : Table} {r : Row}
    (h : r ∈ (written lib clock packets table).rows) :
    ∃ packet ∈ packets, r.InBlock table ∧ r.time = lib.getBestTimestamp packet ∧
      r.digest = digest lib packet ∧ r.aisdata = packet.stringMessage := by
  obtain ⟨before, packet, after, rfl, hi⟩ := mem_written lib clock h
  exact ⟨packet, by simp, row_of_contributed lib clock hi⟩

theorem written_inBlocks (packets : List AisPacket) : (written lib clock packets).InBlocks := by
  intro table r h
  obtain ⟨packet, -, hblock, -⟩ := row_of_written lib clock h
  exact hblock

end

end AisStore
