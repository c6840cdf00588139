import AisStore.Lib.KeyedTable
import AisStore.Schema

/-!
Packets, the rows they are stored in, and the store.

A packet is its raw message: `AisPacket.from` reads the timestamp and the
decoded message out of the string, so everything the program asks of a
packet is a function of it. Those functions, the geographical grid and the
hash belong to libraries whose code is not part of this repository; they
are the fields of `AisLib` and a parameter of everything below.

All five tables share one shape of row. A table is keyed by the columns its
primary key names, and since the columns a table lacks are `none` in each of
its rows, one key serves all of them.
-/

namespace AisStore

open Lib

structure AisPacket where
  stringMessage : String
  deriving DecidableEq, Repr

/-- `AisPacket.from(String)`. -/
def AisPacket.fromString (stringMessage : String) : AisPacket := ⟨stringMessage⟩

/-- A decoded message: `getUserId()` and `getValidPosition()`. -/
structure AisMessage (Pos : Type) where
  userId : ℤ
  validPosition : Option Pos

/-- A position with the time it was reported at. -/
structure PositionTime (Pos : Type) where
  position : Pos
  time : Long

/-- The library functions the program calls on packets and positions. -/
structure AisLib (Pos : Type) where
  /-- `AisPacket.getBestTimestamp()`, in milliseconds since the epoch. -/
  getBestTimestamp : AisPacket → Long
  /-- `AisPacket.tryGetAisMessage()`; `none` for a message that cannot be decoded. -/
  tryGetAisMessage : AisPacket → Option (AisMessage Pos)
  /-- `Position.getCellInt(size)`, the cell of the grid with cells of `size` degrees. -/
  getCellInt : Pos → ℕ → ℤ
  /-- `Position.isValid(latitude, longitude)`. -/
  isValid : Pos → Bool
  /-- `Hashing.murmur3_128().hashUnencodedChars(s).asBytes()`. -/
  murmur3 : String → List UInt8

/-- `getValidPosition` returns null or a position that is valid. -/
def AisLib.ValidPositions {Pos : Type} (lib : AisLib Pos) : Prop :=
  ∀ packet message position, lib.tryGetAisMessage packet = some message →
    message.validPosition = some position → lib.isValid position = true

/-- What a library says about one message. Positions are given by their cell
of the one-degree grid. -/
structure Decoded where
  stringMessage : String
  bestTimestamp : Long
  userId : Option ℤ
  validPosition : Option ℤ
  digest : List UInt8

/-- The library cut down to a finite list of messages, for examples. A
packet without a timestamp has best timestamp -1. -/
def AisLib.ofDecoded (messages : List Decoded) : AisLib ℤ :=
  let find (s : String) := messages.find? (·.stringMessage = s)
  { getBestTimestamp := fun packet =>
      (find packet.stringMessage).elim ⟨-1, by decide⟩ Decoded.bestTimestamp
    tryGetAisMessage := fun packet => (find packet.stringMessage).bind fun d =>
      d.userId.map fun userId => ⟨userId, d.validPosition⟩
    getCellInt := fun position size => position / size
    isValid := fun _ => true
    murmur3 := fun s => (find s).elim [] Decoded.digest }

/-- A position report of a vessel, ten minutes after the epoch. -/
def positionReport : Decoded :=
  ⟨"!AIVDM,1,1,,A,13", toLong 600000, some 219000001, some 42, [1]⟩

/-- A static report of the same vessel, a second later. -/
def staticReport : Decoded :=
  ⟨"!AIVDM,1,1,,A,55", toLong 601000, some 219000001, none, [2]⟩

/-- `AisStoreSchema.digest`. -/
def digest {Pos : Type} (lib : AisLib Pos) (packet : AisPacket) : List UInt8 :=
  lib.murmur3 packet.stringMessage

/-! ### Rows and tables -/

@[ext]
structure Row where
  cellid : Option ℤ
  mmsi : Option ℤ
  timeblock : ℤ
  time : Long
  digest : List UInt8
  aisdata : String
  deriving DecidableEq

/-- The packet a row holds. -/
def Row.packet (r : Row) : AisPacket := AisPacket.fromString r.aisdata

/-- The columns of the primary key. -/
def Row.primaryKey (r : Row) : Option ℤ × Option ℤ × ℤ × Long × List UInt8 :=
  (r.cellid, r.mmsi, r.timeblock, r.time, r.digest)

/-- An insert statement. -/
structure Insert where
  table : Table
  row : Row
  deriving DecidableEq

/-- The five tables. -/
abbrev Store := Table → KeyedTable Row.primaryKey

/-- The rows a list of inserts sends to a table, in order. -/
def rowsFor (table : Table) (inserts : List Insert) : List Row :=
  (inserts.filter (fun i => i.table = table)).map Insert.row

/-- The store a list of inserts leaves behind. -/
def Store.ofInserts (inserts : List Insert) : Store :=
  fun table => KeyedTable.ofInserts (rowsFor table inserts)

@[simp] theorem rowsFor_append (table : Table) (is js : List Insert) :
    rowsFor table (is ++ js) = rowsFor table is ++ rowsFor table js := by
  simp [rowsFor]

theorem mem_rowsFor {table : Table} {inserts : List Insert} {r : Row} :
    r ∈ rowsFor table inserts ↔ ⟨table, r⟩ ∈ inserts := by
  rw [rowsFor]
  constructor
  · intro h
    obtain ⟨⟨t, r'⟩, hi, rfl⟩ := List.mem_map.mp h
    obtain ⟨hmem, htable⟩ := List.mem_filter.mp hi
    have ht : t = table := by simpa using htable
    subst ht
    exact hmem
  · intro h
    exact List.mem_map.mpr ⟨⟨table, r⟩, List.mem_filter.mpr ⟨h, by simp⟩, rfl⟩

/-- The invariant the writers keep: a row's block is the block of its time. -/
def Row.InBlock (table : Table) (r : Row) : Prop :=
  timeBlock table (.ofEpochMilli r.time) = .ok r.timeblock

instance (table : Table) (r : Row) : Decidable (r.InBlock table) :=
  inferInstanceAs (Decidable (_ = _))

def Store.InBlocks (store : Store) : Prop :=
  ∀ table, ∀ r ∈ (store table).rows, r.InBlock table

theorem Store.inBlocks_ofInserts {inserts : List Insert}
    (h : ∀ i ∈ inserts, i.row.InBlock i.table) : (Store.ofInserts inserts).InBlocks := by
  intro table r hr
  have hmem : ⟨table, r⟩ ∈ inserts := mem_rowsFor.mp (KeyedTable.mem_of_mem_ofInserts hr)
  exact h _ hmem

end AisStore
