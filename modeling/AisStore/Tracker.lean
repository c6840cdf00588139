import AisStore.Lib.Clocked
import AisStore.Lib.ExpiringCache
import AisStore.Packet

/-!
The position tracker.

`DefaultAisStoreWriter.getPosition` and
`PositionTrackingSSTableWriter.targetPosition` are the same code over a
tracker of their own: a packet that carries a valid position reports it and
is filed there, and a packet that carries none is filed at the position the
tracker still holds for its vessel. The tracker is a cache that forgets an
entry `POSITION_TIMEOUT_MS` after its last write, on the wall clock.

Three facts about a whole run are proved here and nothing below looks inside
the cache again. `writeTime_trackAll` says when the entry of a vessel was
last written, whatever expired meanwhile: at its last report. Its value is
another matter, since a report that finds the entry expired starts afresh:
`outlasts_of_trackAll` says that it is a report no later one is as new as,
and `value_trackAll` what it is when nothing expires, namely the best
report, the one with the greatest timestamp, and the later of equals.
-/

namespace AisStore

open Lib

/-- `POSITION_TIMEOUT_MS`, the same in both classes: twenty minutes. -/
def positionTimeoutMs : ℤ := 20 * 60 * 1000

/-- The time to live of a tracker entry. The cache keeps nanoseconds. -/
def positionTimeoutNanos : ℤ := positionTimeoutMs * 1000000

abbrev Tracker (Pos : Type) := Cache ℤ (PositionTime Pos)

/-- `(a, b) -> a.getTime() > b.getTime() ? a : b`. -/
def newerOf {Pos : Type} (a b : PositionTime Pos) : PositionTime Pos :=
  if a.time.1 > b.time.1 then a else b

section
variable {Pos : Type} (lib : AisLib Pos) (ttl : ℤ) (clock : ℕ → ℤ)

/-- The position a packet is filed at, and the tracker afterwards. -/
def trackPosition (now : ℤ) (tracker : Tracker Pos) (packet : AisPacket) :
    Option Pos × Tracker Pos :=
  match lib.tryGetAisMessage packet with
  | none => (none, tracker)
  | some message =>
    match message.validPosition with
    | none => ((tracker.get ttl now message.userId).map PositionTime.position, tracker)
    | some position =>
      (some position,
        tracker.merge ttl now message.userId ⟨position, lib.getBestTimestamp packet⟩ newerOf)

/-- What a packet reports: its vessel, and its position with its time. -/
def report (packet : AisPacket) : Option (ℤ × PositionTime Pos) :=
  match lib.tryGetAisMessage packet with
  | none => none
  | some message =>
    message.validPosition.map fun position =>
      (message.userId, ⟨position, lib.getBestTimestamp packet⟩)

/-- What a packet reports about vessel `m`. -/
def reportOf (m : ℤ) (packet : AisPacket) : Option (PositionTime Pos) :=
  match report lib packet with
  | none => none
  | some (vessel, r) => if vessel = m then some r else none

/-- A packet reports the position that its message carries. -/
theorem report_eq_some {packet : AisPacket} {m : ℤ} {r : PositionTime Pos} :
    report lib packet = some (m, r) ↔ ∃ message position,
      lib.tryGetAisMessage packet = some message ∧ message.validPosition = some position ∧
        m = message.userId ∧ r = ⟨position, lib.getBestTimestamp packet⟩ := by
  rw [report]
  constructor
  · intro h
    cases hmsg : lib.tryGetAisMessage packet with
    | none => simp [hmsg] at h
    | some message =>
      rw [hmsg] at h
      obtain ⟨position, hpos, heq⟩ := Option.map_eq_some_iff.mp h
      cases heq
      exact ⟨message, position, rfl, hpos, rfl, rfl⟩
  · rintro ⟨message, position, hmsg, hpos, rfl, rfl⟩
    rw [hmsg]
    simp only [hpos, Option.map_some]

theorem report_of_reportOf {m : ℤ} {packet : AisPacket} {r : PositionTime Pos}
    (h : reportOf lib m packet = some r) : report lib packet = some (m, r) := by
  rw [reportOf] at h
  cases hr : report lib packet with
  | none => simp [hr] at h
  | some vr =>
    obtain ⟨vessel, r'⟩ := vr
    simp only [hr, Option.ite_none_right_eq_some, Option.some.injEq] at h
    obtain ⟨rfl, rfl⟩ := h
    rfl

theorem userId_of_reportOf {packet : AisPacket} {m : ℤ} {r : PositionTime Pos}
    (h : reportOf lib m packet = some r) :
    ∃ message, lib.tryGetAisMessage packet = some message ∧ message.userId = m := by
  obtain ⟨message, position, hmsg, -, heq, -⟩ :=
    (report_eq_some lib).mp (report_of_reportOf lib h)
  exact ⟨message, hmsg, heq.symm⟩

/-- A report has the time of the packet that makes it. -/
theorem time_of_reportOf {m : ℤ} {packet : AisPacket} {r : PositionTime Pos}
    (h : reportOf lib m packet = some r) : r.time = lib.getBestTimestamp packet := by
  obtain ⟨message, position, -, -, -, rfl⟩ := (report_eq_some lib).mp (report_of_reportOf lib h)
  rfl

theorem trackPosition_of_report {now : ℤ} {tracker : Tracker Pos} {packet : AisPacket}
    {m : ℤ} {r : PositionTime Pos} (h : report lib packet = some (m, r)) :
    trackPosition lib ttl now tracker packet =
      (some r.position, tracker.merge ttl now m r newerOf) := by
  obtain ⟨message, position, hmsg, hpos, rfl, rfl⟩ := (report_eq_some lib).mp h
  simp only [trackPosition, hmsg, hpos]

/-- A packet that reports nothing leaves the tracker alone. -/
theorem trackPosition_of_no_report {now : ℤ} {tracker : Tracker Pos} {packet : AisPacket}
    (h : report lib packet = none) :
    trackPosition lib ttl now tracker packet =
      ((lib.tryGetAisMessage packet).bind fun message =>
        (tracker.get ttl now message.userId).map PositionTime.position, tracker) := by
  rw [report] at h
  rw [trackPosition]
  cases hmsg : lib.tryGetAisMessage packet with
  | none => rfl
  | some message =>
    rw [hmsg] at h
    simp only [Option.map_eq_none_iff] at h
    simp [h]

/-- What a packet does to the entry of one vessel. -/
theorem trackPosition_entry (now : ℤ) (tracker : Tracker Pos) (packet : AisPacket) (m : ℤ) :
    (trackPosition lib ttl now tracker packet).2 m =
      match reportOf lib m packet with
      | none => tracker m
      | some r => tracker.merge ttl now m r newerOf m := by
  rw [reportOf]
  cases h : report lib packet with
  | none => rw [trackPosition_of_no_report lib ttl h]
  | some vr =>
    obtain ⟨vessel, r⟩ := vr
    rw [trackPosition_of_report lib ttl h]
    by_cases hv : vessel = m
    · subst hv
      simp
    · simp [hv, Cache.merge_other (Ne.symm hv)]

/-! ### Whole runs -/

/-- The tracker after a list of packets, starting from an empty one. -/
def trackAll (packets : List AisPacket) : Tracker Pos :=
  runClocked (fun now tracker packet => (trackPosition lib ttl now tracker packet).2) clock
    Cache.empty packets

/-- The clock reading at the last report of vessel `m`. -/
def lastReportTime (m : ℤ) (packets : List AisPacket) : Option ℤ :=
  runClocked (fun now last packet => if (reportOf lib m packet).isSome then some now else last)
    clock none packets

/-- The report with the greatest timestamp, the last such if there are several. -/
def bestReport (m : ℤ) (packets : List AisPacket) : Option (PositionTime Pos) :=
  packets.foldl (fun best packet =>
    match reportOf lib m packet with
    | none => best
    | some r => some (match best with
      | none => r
      | some b => newerOf b r)) none

theorem trackAll_concat (packets : List AisPacket) (packet : AisPacket) :
    trackAll lib ttl clock (packets ++ [packet]) =
      (trackPosition lib ttl (clock packets.length) (trackAll lib ttl clock packets) packet).2 :=
  runClocked_concat ..

theorem lastReportTime_concat (m : ℤ) (packets : List AisPacket) (packet : AisPacket) :
    lastReportTime lib clock m (packets ++ [packet]) =
      if (reportOf lib m packet).isSome then some (clock packets.length)
      else lastReportTime lib clock m packets :=
  runClocked_concat ..

theorem bestReport_concat (m : ℤ) (packets : List AisPacket) (packet : AisPacket) :
    bestReport lib m (packets ++ [packet]) =
      match reportOf lib m packet with
      | none => bestReport lib m packets
      | some r => some (match bestReport lib m packets with
        | none => r
        | some b => newerOf b r) := by
  simp [bestReport]

/-- The entry of a vessel was last written at the vessel's last report. -/
theorem writeTime_trackAll (m : ℤ) (packets : List AisPacket) :
    (trackAll lib ttl clock packets m).map Entry.writeTime =
      lastReportTime lib clock m packets := by
  induction packets using List.reverseRecOn with
  | nil => rfl
  | append_singleton packets packet ih =>
    rw [trackAll_concat, lastReportTime_concat, trackPosition_entry]
    cases h : reportOf lib m packet with
    | none => simpa using ih
    | some r =>
      obtain ⟨value, hvalue⟩ : ∃ value,
          (trackAll lib ttl clock packets).merge ttl (clock packets.length) m r newerOf m =
            some ⟨value, clock packets.length⟩ := Cache.merge_self
      simp [hvalue]

/-- Whether the tracker still knows a position of vessel `m` is a matter of
how long ago its last report was. -/
theorem isSome_get_trackAll (m now : ℤ) (packets : List AisPacket) :
    ((trackAll lib ttl clock packets).get ttl now m).isSome = true ↔
      ∃ t, lastReportTime lib clock m packets = some t ∧ now - t < ttl := by
  rw [← writeTime_trackAll lib ttl clock]
  cases h : trackAll lib ttl clock packets m with
  | none => simp [Cache.get_of_none h]
  | some e =>
    rw [Cache.get_of_some h]
    by_cases hlt : now - e.writeTime < ttl <;> simp [hlt]

/-- The packet carries a valid position, or its vessel reported one less than
a time to live ago. -/
def Located (before : List AisPacket) (packet : AisPacket) : Prop :=
  (report lib packet).isSome = true ∨
    ∃ message, lib.tryGetAisMessage packet = some message ∧
      ∃ t, lastReportTime lib clock message.userId before = some t ∧
        clock before.length - t < ttl

/-- A packet is filed at some position exactly when it is located. -/
theorem isSome_trackPosition (before : List AisPacket) (packet : AisPacket) :
    (trackPosition lib ttl (clock before.length) (trackAll lib ttl clock before) packet).1.isSome =
        true ↔ Located lib ttl clock before packet := by
  cases hr : report lib packet with
  | some vr =>
    obtain ⟨m, r⟩ := vr
    simp [trackPosition_of_report lib ttl hr, Located, hr]
  | none =>
    rw [trackPosition_of_no_report lib ttl hr]
    cases hmsg : lib.tryGetAisMessage packet with
    | none => simp [Located, hr, hmsg]
    | some message => simp [Located, hr, hmsg, ← isSome_get_trackAll lib ttl clock]

/-! ### Which report survives -/

/-- A report of vessel `m` in the list that has only older ones after it. -/
def Outlasts (m : ℤ) (packets : List AisPacket) (r : PositionTime Pos) : Prop :=
  ∃ before source after, packets = before ++ source :: after ∧ reportOf lib m source = some r ∧
    ∀ p ∈ after, ∀ r', reportOf lib m p = some r' → r'.time.1 < r.time.1

theorem Outlasts.exists_mem {m : ℤ} {packets : List AisPacket} {r : PositionTime Pos}
    (h : Outlasts lib m packets r) : ∃ p ∈ packets, reportOf lib m p = some r := by
  obtain ⟨before, source, after, rfl, hsource, -⟩ := h
  exact ⟨source, by simp, hsource⟩

theorem outlasts_last {m : ℤ} (packets : List AisPacket) {packet : AisPacket}
    {r : PositionTime Pos} (h : reportOf lib m packet = some r) :
    Outlasts lib m (packets ++ [packet]) r :=
  ⟨packets, packet, [], rfl, h, by simp⟩

theorem Outlasts.concat {m : ℤ} {packets : List AisPacket} {packet : AisPacket}
    {r : PositionTime Pos} (h : Outlasts lib m packets r)
    (hpacket : ∀ r', reportOf lib m packet = some r' → r'.time.1 < r.time.1) :
    Outlasts lib m (packets ++ [packet]) r := by
  obtain ⟨before, source, after, hsplit, hsource, hafter⟩ := h
  refine ⟨before, source, after ++ [packet], by simp [hsplit], hsource, ?_⟩
  intro p hp r' hr'
  rcases List.mem_append.mp hp with hp | hp
  · exact hafter p hp r' hr'
  · rw [List.mem_singleton.mp hp] at hr'
    exact hpacket r' hr'

/-- Of a report that outlasts a list and one more report, the tracker keeps
the one that outlasts both. -/
theorem Outlasts.newerOf {m : ℤ} {packets : List AisPacket} {packet : AisPacket}
    {old new : PositionTime Pos} (h : Outlasts lib m packets old)
    (hnew : reportOf lib m packet = some new) :
    Outlasts lib m (packets ++ [packet]) (newerOf old new) := by
  rw [AisStore.newerOf]
  split
  · rename_i hnewer
    refine h.concat lib ?_
    intro r' hr'
    cases hnew.symm.trans hr'
    exact hnewer
  · exact outlasts_last lib packets hnew

/-- Reports that outlast a list and have the same time are the same report. -/
theorem Outlasts.unique {m : ℤ} {packets : List AisPacket} {r r' : PositionTime Pos}
    (h : Outlasts lib m packets r) (h' : Outlasts lib m packets r')
    (htime : r.time.1 = r'.time.1) : r = r' := by
  obtain ⟨before, source, after, rfl, hsource, hafter⟩ := h
  obtain ⟨before', source', after', hsplit, hsource', hafter'⟩ := h'
  rcases List.append_eq_append_iff.mp hsplit with ⟨between, -, heq⟩ | ⟨between, -, heq⟩
  · cases between with
    | nil =>
      obtain ⟨rfl, -⟩ := List.cons.inj heq
      exact Option.some.inj (hsource.symm.trans hsource')
    | cons x between =>
      obtain ⟨rfl, rfl⟩ := List.cons.inj heq
      exact absurd (hafter source' (by simp) r' hsource') (by omega)
  · cases between with
    | nil =>
      obtain ⟨rfl, -⟩ := List.cons.inj heq
      exact Option.some.inj (hsource.symm.trans hsource')
    | cons x between =>
      obtain ⟨rfl, rfl⟩ := List.cons.inj heq
      exact absurd (hafter' source (by simp) r hsource) (by omega)

/-- What the tracker holds for a vessel is a report of the vessel that no
later one is as new as, whatever expired meanwhile. -/
theorem outlasts_of_trackAll {packets : List AisPacket} {m : ℤ} {e : Entry (PositionTime Pos)}
    (h : trackAll lib ttl clock packets m = some e) : Outlasts lib m packets e.value := by
  induction packets using List.reverseRecOn generalizing e with
  | nil => cases h
  | append_singleton packets packet ih =>
    rw [trackAll_concat, trackPosition_entry] at h
    cases hr : reportOf lib m packet with
    | none =>
      rw [hr] at h
      exact (ih h).concat lib (by simp [hr])
    | some r =>
      rw [hr] at h
      -- the new value is the report, or the newer of it and what a read of the old entry gave
      cases hget : (trackAll lib ttl clock packets).get ttl (clock packets.length) m with
      | none =>
        simp only [Cache.merge_self_of_get_none hget, Option.some.injEq] at h
        subst h
        exact outlasts_last lib packets hr
      | some old =>
        simp only [Cache.merge_self_of_get hget, Option.some.injEq] at h
        subst h
        obtain ⟨e, he, rfl⟩ := Cache.exists_of_get hget
        exact (ih he).newerOf lib hr

/-- There is a best report as soon as there is any. -/
theorem bestReport_eq_none {m : ℤ} {packets : List AisPacket} :
    bestReport lib m packets = none ↔ ∀ p ∈ packets, reportOf lib m p = none := by
  induction packets using List.reverseRecOn with
  | nil => simp [bestReport]
  | append_singleton packets packet ih =>
    rw [bestReport_concat]
    cases hr : reportOf lib m packet with
    | none => simp [ih, or_imp, forall_and, hr]
    | some r => simp [hr]

theorem outlasts_of_bestReport {m : ℤ} {packets : List AisPacket} {r : PositionTime Pos}
    (h : bestReport lib m packets = some r) :
    Outlasts lib m packets r ∧
      ∀ p ∈ packets, ∀ r', reportOf lib m p = some r' → r'.time.1 ≤ r.time.1 := by
  induction packets using List.reverseRecOn generalizing r with
  | nil => simp [bestReport] at h
  | append_singleton packets packet ih =>
    rw [bestReport_concat] at h
    cases hr : reportOf lib m packet with
    | none =>
      rw [hr] at h
      obtain ⟨houtlasts, hmax⟩ := ih h
      refine ⟨houtlasts.concat lib (by simp [hr]), ?_⟩
      intro p hp r' hr'
      rcases List.mem_append.mp hp with hp | hp
      · exact hmax p hp r' hr'
      · rw [List.mem_singleton.mp hp, hr] at hr'
        cases hr'
    | some new =>
      rw [hr] at h
      cases hb : bestReport lib m packets with
      | none =>
        rw [hb] at h
        cases h
        refine ⟨outlasts_last lib packets hr, ?_⟩
        intro p hp r' hr'
        rcases List.mem_append.mp hp with hp | hp
        · rw [(bestReport_eq_none lib).mp hb p hp] at hr'
          cases hr'
        · rw [List.mem_singleton.mp hp] at hr'
          cases hr.symm.trans hr'
          exact le_rfl
      | some old =>
        rw [hb] at h
        cases h
        obtain ⟨houtlasts, hmax⟩ := ih hb
        refine ⟨houtlasts.newerOf lib hr, ?_⟩
        have hle :
            old.time.1 ≤ (newerOf old new).time.1 ∧ new.time.1 ≤ (newerOf old new).time.1 := by
          rw [newerOf]
          split <;> omega
        intro p hp r' hr'
        rcases List.mem_append.mp hp with hp | hp
        · exact (hmax p hp r' hr').trans hle.1
        · rw [List.mem_singleton.mp hp] at hr'
          cases hr.symm.trans hr'
          exact hle.2

/-- The best report is the one that nothing is newer than and everything
after it is older than. -/
theorem bestReport_eq_some {m : ℤ} {packets : List AisPacket} {r : PositionTime Pos} :
    bestReport lib m packets = some r ↔ Outlasts lib m packets r ∧
      ∀ p ∈ packets, ∀ r', reportOf lib m p = some r' → r'.time.1 ≤ r.time.1 := by
  constructor
  · exact outlasts_of_bestReport lib
  · rintro ⟨houtlasts, hmax⟩
    obtain ⟨p, hp, hreport⟩ := houtlasts.exists_mem
    cases hb : bestReport lib m packets with
    | none =>
      rw [(bestReport_eq_none lib).mp hb p hp] at hreport
      cases hreport
    | some b =>
      obtain ⟨hb', hbmax⟩ := outlasts_of_bestReport lib hb
      obtain ⟨q, hq, hqreport⟩ := hb'.exists_mem
      have htime : b.time.1 = r.time.1 := le_antisymm (hmax q hq b hqreport) (hbmax p hp r hreport)
      rw [hb'.unique lib houtlasts htime]

/-- Wherever a packet is filed, some packet reported that position. -/
theorem exists_report_of_trackPosition {before : List AisPacket} {packet : AisPacket}
    {position : Pos} (h : (trackPosition lib ttl (clock before.length)
      (trackAll lib ttl clock before) packet).1 = some position) :
    ∃ p m r, report lib p = some (m, r) ∧ r.position = position := by
  cases hr : report lib packet with
  | some vr =>
    obtain ⟨m, r⟩ := vr
    rw [trackPosition_of_report lib ttl hr] at h
    exact ⟨packet, m, r, hr, Option.some.inj h⟩
  | none =>
    rw [trackPosition_of_no_report lib ttl hr] at h
    obtain ⟨message, hmsg, hfound⟩ := Option.bind_eq_some_iff.mp h
    obtain ⟨r, hget, rfl⟩ := Option.map_eq_some_iff.mp hfound
    obtain ⟨e, he, rfl⟩ := Cache.exists_of_get hget
    obtain ⟨p, -, hp⟩ := (outlasts_of_trackAll lib ttl clock he).exists_mem
    exact ⟨p, _, _, report_of_reportOf lib hp, rfl⟩

/-- Positions are valid wherever they come from. -/
theorem isValid_of_trackPosition (hlib : lib.ValidPositions) {before : List AisPacket}
    {packet : AisPacket} {position : Pos} (h : (trackPosition lib ttl (clock before.length)
      (trackAll lib ttl clock before) packet).1 = some position) :
    lib.isValid position = true := by
  obtain ⟨p, m, r, hreport, rfl⟩ := exists_report_of_trackPosition lib ttl clock h
  obtain ⟨message, position, hmsg, hpos, -, rfl⟩ := (report_eq_some lib).mp hreport
  exact hlib p message position hmsg hpos

/-- No packet of the run finds the entry of its vessel expired. -/
def NoExpiry (packets : List AisPacket) : Prop :=
  ∀ before packet after, packets = before ++ packet :: after →
    ∀ message, lib.tryGetAisMessage packet = some message →
      ∀ t, lastReportTime lib clock message.userId before = some t →
        clock before.length - t < ttl

theorem NoExpiry.left {packets packets' : List AisPacket}
    (h : NoExpiry lib ttl clock (packets ++ packets')) : NoExpiry lib ttl clock packets := by
  intro before p after heq
  exact h before p (after ++ packets') (by simp [heq])

/-- A run without expiry, cut after one of its packets. -/
theorem NoExpiry.upTo {packets before after : List AisPacket} {packet : AisPacket}
    (h : NoExpiry lib ttl clock packets) (hsplit : packets = before ++ packet :: after) :
    NoExpiry lib ttl clock (before ++ [packet]) := by
  have heq : packets = (before ++ [packet]) ++ after := by simp [hsplit]
  exact NoExpiry.left lib ttl clock (heq ▸ h)

theorem NoExpiry.last {packets : List AisPacket} {packet : AisPacket}
    (h : NoExpiry lib ttl clock (packets ++ [packet])) {message : AisMessage Pos}
    (hmsg : lib.tryGetAisMessage packet = some message) :
    (trackAll lib ttl clock packets).get ttl (clock packets.length) message.userId =
      (trackAll lib ttl clock packets message.userId).map Entry.value := by
  have hlast := h packets packet [] rfl message hmsg
  rw [← writeTime_trackAll lib ttl clock] at hlast
  cases hentry : trackAll lib ttl clock packets message.userId with
  | none => rw [Cache.get_of_none hentry, Option.map_none]
  | some e =>
    rw [hentry] at hlast
    rw [Cache.get_of_some hentry, if_pos (hlast _ rfl), Option.map_some]

/-- While nothing expires, the tracker holds the best report of each vessel. -/
theorem value_trackAll {packets : List AisPacket} (h : NoExpiry lib ttl clock packets) (m : ℤ) :
    (trackAll lib ttl clock packets m).map Entry.value = bestReport lib m packets := by
  induction packets using List.reverseRecOn with
  | nil => rfl
  | append_singleton packets packet ih =>
    rw [trackAll_concat, bestReport_concat, trackPosition_entry]
    have hbest := ih h.left
    cases hr : reportOf lib m packet with
    | none => simpa using hbest
    | some r =>
      obtain ⟨message, hmsg, rfl⟩ := userId_of_reportOf lib hr
      have hget := h.last lib ttl clock hmsg
      rw [hbest] at hget
      cases hb : bestReport lib message.userId packets with
      | none => simp [Cache.merge_self_of_get_none (hget.trans hb)]
      | some b => simp [Cache.merge_self_of_get (hget.trans hb)]

/-- Nothing expires while the clock stands still. -/
theorem noExpiry_const (now : ℤ) (h : 0 < ttl) (packets : List AisPacket) :
    NoExpiry lib ttl (fun _ => now) packets := by
  have hlast : ∀ m packets t, lastReportTime lib (fun _ => now) m packets = some t → t = now := by
    intro m packets t ht
    induction packets using List.reverseRecOn with
    | nil => cases ht
    | append_singleton packets packet ih =>
      rw [lastReportTime_concat] at ht
      split at ht
      · exact (Option.some.inj ht).symm
      · exact ih ht
  intro before packet after _ message _ t ht
  rw [hlast _ _ t ht]
  show now - now < ttl
  omega

/-- The position of a packet with no regard to time: its own, or that of the
best report of its vessel so far. -/
def bestPosition (before : List AisPacket) (packet : AisPacket) : Option Pos :=
  match report lib packet with
  | some (_, r) => some r.position
  | none => (lib.tryGetAisMessage packet).bind fun message =>
      (bestReport lib message.userId before).map PositionTime.position

/-- A run without expiry files each packet at its best position. -/
theorem position_of_noExpiry {packets : List AisPacket} {packet : AisPacket}
    (h : NoExpiry lib ttl clock (packets ++ [packet])) :
    (trackPosition lib ttl (clock packets.length) (trackAll lib ttl clock packets) packet).1 =
      bestPosition lib packets packet := by
  rw [bestPosition]
  cases hr : report lib packet with
  | some vr =>
    obtain ⟨m, r⟩ := vr
    rw [trackPosition_of_report lib ttl hr]
  | none =>
    rw [trackPosition_of_no_report lib ttl hr]
    cases hmsg : lib.tryGetAisMessage packet with
    | none => rfl
    | some message =>
      simp only [Option.bind_some]
      rw [h.last lib ttl clock hmsg, value_trackAll lib ttl clock h.left]

end

end AisStore
