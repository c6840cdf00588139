import AisStore.Pieces
import AisStore.Reimport
import Mathlib.Data.List.Dedup

/-!
The past track of a vessel, as the REST service gives it.

A request names a vessel, how far back to go, and perhaps a filter on the
sources of packets. `AisPastTrackRepository` asks the store for the packets
of the vessel and keeps the position messages of those whose source passes.
Seen from the writer's end (`track_exact`): each packet that was handed to
it, once, however often it came, in the order of time.
-/

namespace AisStore

open Lib

/-- `java.time.Duration`: whole seconds, and nanoseconds that are never negative. -/
structure Duration where
  seconds : Long
  nanos : ℕ
  nanos_lt : nanos < 1000000000

/-- `t.minus(d)`, which takes off the seconds first. -/
def Lib.Instant.minus (t : Instant) (d : Duration) : Except Failure Instant :=
  if IsLong (t.seconds - d.seconds.1) then do
    let u ← Instant.create (t.seconds - d.seconds.1) t.nanos t.nanos_lt
    Instant.create (u.seconds + ((u.nanos : ℤ) - d.nanos) / 1000000000)
      (((u.nanos : ℤ) - d.nanos) % 1000000000).toNat (by omega)
  else .error (.arithmetic "long overflow")

/-- The library functions of the service. -/
structure TrackLib (Message Source : Type) where
  /-- `AisPacketSource.create`. -/
  createSource : AisPacket → Source
  /-- `tryGetAisMessage`, where what it gives is an `IPositionMessage`. -/
  positionMessage : AisPacket → Option Message
  /-- `AisPacketSourceFilters.parseSourceFilter`. -/
  parseSourceFilter : String → Except Failure (Source → Bool)
  /-- `Duration.parse`. -/
  parseDuration : String → Except Failure Duration

inductive TrackFailure where
  /-- `CannotParseFilterExpressionException`. -/
  | cannotParseFilterExpression (e : Failure) (filterExpression : String)
  | other (e : Failure)

def TrackFailure.lift {α : Type} : Except Failure α → Except TrackFailure α
  | .ok a => .ok a
  | .error e => .error (.other e)

/-- `Character.isWhitespace`. -/
def isWhitespace (c : Char) : Bool :=
  c.toNat ∈ [0x9, 0xA, 0xB, 0xC, 0xD, 0x1C, 0x1D, 0x1E, 0x1F, 0x20, 0x1680, 0x180E, 0x2000, 0x2001,
    0x2002, 0x2003, 0x2004, 0x2005, 0x2006, 0x2008, 0x2009, 0x200A, 0x2028, 0x2029, 0x205F, 0x3000]

def isBlank (s : Option String) : Bool := s.all fun s => s.toList.all isWhitespace

section
variable {Message Source : Type} (lib : TrackLib Message Source)

/-- `AisPastTrackRepository.findByMmsi`. -/
def findByMmsi (session : Session) (combine : List (List AisPacket) → List AisPacket)
    (sourceFilterPredicate : Source → Bool) (t0 t1 : Instant) (mmsi : ℤ) :
    Except Failure (List Message) := do
  let query ← (AisStoreQueryBuilder.forMmsi [mmsi] : Except Failure (AisStoreQueryBuilder Unit))
  let queries ← ((query.setInterval t0 t1).setFetchSize 1000).execute noCells session
  let result ← AisStoreQueryResult.drained combine queries
  return (result.filter fun packet => sourceFilterPredicate (lib.createSource packet)).filterMap
    lib.positionMessage

/-- A blank expression keeps every source. -/
def createSourceFilterPredicate (sourceFilterExpression : Option String) :
    Except TrackFailure (Source → Bool) :=
  match sourceFilterExpression with
  | none => .ok fun _ => true
  | some expression =>
    if isBlank (some expression) then .ok fun _ => true
    else match lib.parseSourceFilter expression with
      | .ok sourceFilter => .ok sourceFilter
      | .error e => .error (.cannotParseFilterExpression e expression)

/-- `PastTrackResource.track`. The clock is read twice. -/
def track (session : Session) (combine : List (List AisPacket) → List AisPacket) (mmsi : ℤ)
    (sourceFilterExpression iso8601Duration : Option String) (now now' : Instant) :
    Except TrackFailure (List Message) := do
  let iso8601Duration ← TrackFailure.lift (requireNonNull iso8601Duration)
  let sourceFilter ← createSourceFilterPredicate lib sourceFilterExpression
  let maxAge ← TrackFailure.lift (lib.parseDuration iso8601Duration)
  let t0 ← TrackFailure.lift (now.minus maxAge)
  TrackFailure.lift (findByMmsi lib session combine sourceFilter t0 now' mmsi)

end

/-! ### The packets that were handed in -/

section
variable {Pos : Type} (lib : AisLib Pos) {table : Table}

/-- Where no two of the packets share a digest, nothing that was written is
overwritten. -/
theorem mem_ofInserts_own {rows : List Row} {packets : List AisPacket}
    (hrows : ∀ r, r ∈ rows ↔ ∃ packet ∈ packets, r ∈ ownRows lib table packet)
    (hdigest : ∀ p ∈ packets, ∀ q ∈ packets, digest lib p = digest lib q → p = q) {r : Row} :
    r ∈ (KeyedTable.ofInserts rows : KeyedTable Row.primaryKey).rows ↔
      ∃ packet ∈ packets, r ∈ ownRows lib table packet := by
  rw [← hrows]
  refine KeyedTable.mem_ofInserts fun x hx y hy hkey => ?_
  obtain ⟨p, hp, hxp⟩ := (hrows x).mp hx
  obtain ⟨q, hq, hyq⟩ := (hrows y).mp hy
  have hdigests : x.digest = y.digest := congrArg (fun k => k.2.2.2.2) hkey
  rw [digest_of_ownRows lib hxp, digest_of_ownRows lib hyq] at hdigests
  obtain rfl := hdigest p hp q hq hdigests
  exact ownRows_unique lib hxp hyq

/-- Some of the rows of a table, and the packets they hold. -/
theorem packets_of_rows_perm {rows : List Row} {packets : List AisPacket}
    (hrows : ∀ r, r ∈ rows ↔ ∃ packet ∈ packets, r ∈ ownRows lib table packet)
    (hdigest : ∀ p ∈ packets, ∀ q ∈ packets, digest lib p = digest lib q → p = q)
    {P : Row → Prop} [DecidablePred P] {Q : AisPacket → Prop} [DecidablePred Q]
    (hPQ : ∀ p, Q p ↔ ∃ r ∈ ownRows lib table p, P r) :
    (((KeyedTable.ofInserts rows : KeyedTable Row.primaryKey).rows.filter (fun r => P r)).map
      Row.packet).Perm (packets.dedup.filter fun p => Q p) := by
  have hown : ∀ r ∈ (KeyedTable.ofInserts rows : KeyedTable Row.primaryKey).rows,
      r ∈ ownRows lib table r.packet := by
    intro r hr
    obtain ⟨p, -, hp⟩ := (mem_ofInserts_own lib hrows hdigest).mp hr
    rwa [packet_of_ownRows lib hp]
  rw [List.perm_ext_iff_of_nodup ?_ ((List.nodup_dedup packets).filter _)]
  · intro p
    simp only [List.mem_map, List.mem_filter, List.mem_dedup, decide_eq_true_eq, hPQ,
      mem_ofInserts_own lib hrows hdigest]
    constructor
    · rintro ⟨r, ⟨⟨q, hq, hown⟩, hP⟩, rfl⟩
      rw [packet_of_ownRows lib hown]
      exact ⟨hq, r, hown, hP⟩
    · rintro ⟨hp, r, hown, hP⟩
      exact ⟨r, ⟨⟨p, hp, hown⟩, hP⟩, packet_of_ownRows lib hown⟩
  · refine ((KeyedTable.rows_nodup _).filter _).map_on fun r hr r' hr' heq => ?_
    have hr := hown r (List.mem_filter.mp hr).1
    rw [heq] at hr
    exact ownRows_unique lib hr (hown r' (List.mem_filter.mp hr').1)

end

/-- The packet is in the table by vessel under this number. -/
def FiledUnder {Pos : Type} (lib : AisLib Pos) (mmsi : ℤ) (packet : AisPacket) : Prop :=
  Fits lib packet ∧ mmsiOf lib packet > 0 ∧ mmsiOf lib packet = mmsi

instance {Pos : Type} (lib : AisLib Pos) (mmsi : ℤ) (packet : AisPacket) :
    Decidable (FiledUnder lib mmsi packet) := inferInstanceAs (Decidable (_ ∧ _))

/-- A request whose blocks can be computed is answered. -/
theorem findByMmsi_eq {Pos Message Source : Type} {lib : AisLib Pos}
    (trackLib : TrackLib Message Source) {clock : ℕ → ℤ} {packets : List AisPacket}
    (hdigest : ∀ p ∈ packets, ∀ q ∈ packets, digest lib p = digest lib q → p = q)
    {session : Session} (hsession : session.ReturnsInOrder (written lib clock packets))
    {combine : List (List AisPacket) → List AisPacket} (hcombine : CombineUnion combine)
    (hsorted : CombineSorted lib combine) (sourceFilter : Source → Bool) {t0 t1 : Instant}
    (hle : t0 ≤ t1) (hblocks : BlocksFit .packetsMmsi t0 t1) (mmsi : ℤ) :
    ∃ sent : List AisPacket,
      findByMmsi trackLib session combine sourceFilter t0 t1 mmsi =
        .ok ((sent.filter fun p => sourceFilter (trackLib.createSource p)).filterMap
          trackLib.positionMessage) ∧
      sent.Perm (packets.dedup.filter fun p => FiledUnder lib mmsi p ∧
        t0.millis < (lib.getBestTimestamp p).1 ∧ (lib.getBestTimestamp p).1 < t1.millis) ∧
      sent.Pairwise fun p q => (lib.getBestTimestamp p).1 ≤ (lib.getBestTimestamp q).1 := by
  let kind : QueryKind Unit := .forMmsi [mmsi]
  have hproper : kind.Proper := ⟨List.cons_ne_nil _ _, List.nodup_singleton _⟩
  have hstore := written_inBlocks lib clock packets
  obtain ⟨sent, hquery, hperm⟩ := @query_perm _ noCells _ _ _ kind _ _ hstore
    hsession.evaluatesWhere hcombine hproper 1000 (by decide) hle hblocks
  refine ⟨sent, ?_, hperm.trans ?_, pairwise_of_query hstore hsession hsorted
    (bestTimestamp_written lib clock packets) (by decide) hquery⟩
  · obtain ⟨b, hbuilder, hrest⟩ := bind_eq_ok.mp hquery
    obtain ⟨queries, hexecute, hdrained⟩ := bind_eq_ok.mp hrest
    have hb : (AisStoreQueryBuilder.forMmsi [mmsi] : Except Failure (AisStoreQueryBuilder Unit)) =
      .ok b := hbuilder
    simp only [findByMmsi, hb, hexecute, hdrained, bind, Except.bind, pure, Except.pure]
  · refine packets_of_rows_perm lib (fun r => mem_statementsOf_own lib (.inr rfl) clock) hdigest
      fun p => ?_
    constructor
    · rintro ⟨⟨hfits, hpos, hmmsi⟩, hlow, hhigh⟩
      refine ⟨rowOf lib .packetsMmsi none (some (mmsiOf lib p)) p, ?_, ?_, hlow, hhigh⟩
      · exact (mem_ownRows lib).mpr ⟨hfits, .inr ⟨rfl, hpos, rfl⟩⟩
      · exact ⟨mmsi, List.mem_singleton_self _, congrArg some hmmsi⟩
    · rintro ⟨r, hown, ⟨m, hm, hselects⟩, hlow, hhigh⟩
      rcases (mem_ownRows lib).mp hown with ⟨hfits, ⟨h, -⟩ | ⟨-, hpos, rfl⟩⟩
      · cases h
      · rw [List.mem_singleton.mp hm] at hselects
        exact ⟨⟨hfits, hpos, Option.some.inj hselects⟩, hlow, hhigh⟩

/-- Over what the writer has stored of packets with distinct digests: a
request whose filter and duration can be read gets the position messages of
the packets of the vessel, strictly between the two instants, whose source
passes, each packet once and in the order of time. -/
theorem track_exact {Pos Message Source : Type} {lib : AisLib Pos}
    {trackLib : TrackLib Message Source} {clock : ℕ → ℤ} {packets : List AisPacket}
    (hdigest : ∀ p ∈ packets, ∀ q ∈ packets, digest lib p = digest lib q → p = q)
    {session : Session} (hsession : session.ReturnsInOrder (written lib clock packets))
    {combine : List (List AisPacket) → List AisPacket} (hcombine : CombineUnion combine)
    (hsorted : CombineSorted lib combine) (mmsi : ℤ) {expression : Option String}
    {sourceFilter : Source → Bool}
    (hfilter : createSourceFilterPredicate trackLib expression = .ok sourceFilter)
    {duration : String} {maxAge : Duration}
    (hduration : trackLib.parseDuration duration = .ok maxAge)
    {now now' t0 : Instant} (ht0 : now.minus maxAge = .ok t0) (hle : t0 ≤ now')
    (hblocks : BlocksFit .packetsMmsi t0 now') :
    ∃ sent : List AisPacket,
      track trackLib session combine mmsi expression (some duration) now now' =
        .ok ((sent.filter fun p => sourceFilter (trackLib.createSource p)).filterMap
          trackLib.positionMessage) ∧
      sent.Perm (packets.dedup.filter fun p => FiledUnder lib mmsi p ∧
        t0.millis < (lib.getBestTimestamp p).1 ∧ (lib.getBestTimestamp p).1 < now'.millis) ∧
      sent.Pairwise fun p q => (lib.getBestTimestamp p).1 ≤ (lib.getBestTimestamp q).1 := by
  obtain ⟨sent, hfound, hperm, hpairwise⟩ := findByMmsi_eq trackLib hdigest hsession hcombine
    hsorted sourceFilter hle hblocks mmsi
  refine ⟨sent, ?_, hperm, hpairwise⟩
  simp only [track, requireNonNull, TrackFailure.lift, hfilter, hduration, ht0, hfound, bind,
    Except.bind]

/-- A service that reads one duration. Every message is a position message. -/
def quarterOfAnHour : TrackLib String Unit where
  createSource := fun _ => ()
  positionMessage := fun packet => some packet.stringMessage
  parseSourceFilter := fun _ => .ok fun _ => true
  parseDuration := fun s =>
    if s = "PT15M" then .ok ⟨⟨900, by decide⟩, 0, by decide⟩
    else .error (.dateTime "Text cannot be parsed to a Duration")

/-- At twenty past, the last quarter of an hour of a vessel heard at ten past. -/
theorem track_exact_tenPast :
    track quarterOfAnHour (.ofStore tenPastStore) (combineByTime (.ofDecoded tenPast)) 219000001
      (some " ") (some "PT15M") (.ofEpochMilli ⟨1200000, by decide⟩)
        (.ofEpochMilli ⟨1200000, by decide⟩) = .ok ["!AIVDM,1,1,,A,13"] := by
  have hsession : (Session.ofStore tenPastStore).ReturnsInOrder (written (.ofDecoded tenPast)
      (fun _ => 0) [.fromString "!AIVDM,1,1,,A,13"]) :=
    Session.returnsInOrder_ofStore tenPastStore
  have hdigest : ∀ p ∈ [AisPacket.fromString "!AIVDM,1,1,,A,13"],
      ∀ q ∈ [AisPacket.fromString "!AIVDM,1,1,,A,13"],
        digest (.ofDecoded tenPast) p = digest (.ofDecoded tenPast) q → p = q := by decide
  have ht0 : (Instant.ofEpochMilli ⟨1200000, by decide⟩).minus ⟨⟨900, by decide⟩, 0, by decide⟩ =
      .ok (.ofEpochMilli ⟨300000, by decide⟩) := by decide
  have hfilter : createSourceFilterPredicate quarterOfAnHour (some " ") = .ok fun _ => true := rfl
  have hduration : quarterOfAnHour.parseDuration "PT15M" =
      .ok ⟨⟨900, by decide⟩, 0, by decide⟩ := rfl
  have hle : Instant.ofEpochMilli ⟨300000, by decide⟩ ≤ .ofEpochMilli ⟨1200000, by decide⟩ :=
    Instant.ofEpochMilli_le (by decide)
  have hblocks : BlocksFit .packetsMmsi (.ofEpochMilli ⟨300000, by decide⟩)
      (.ofEpochMilli ⟨1200000, by decide⟩) :=
    ⟨by decide, by decide, by decide, by decide⟩
  obtain ⟨sent, htrack, hperm, -⟩ := track_exact hdigest hsession (combineUnion_combineByTime _)
    (combineSorted_combineByTime _) 219000001 hfilter hduration ht0 hle hblocks
  obtain rfl : sent = [⟨"!AIVDM,1,1,,A,13"⟩] := List.perm_singleton.mp hperm
  exact htrack

end AisStore
