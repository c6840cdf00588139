import AisStore.Bulk

/-!
The tracker does not depend on the order in which packets arrive.

Backup files are replayed beside live data, so the same packets reach a
tracker in different orders. Each merge keeps the newer of two reports and,
of equals, the later, which is an order-dependent rule; but when no two
packets report one vessel at the same time it never meets equals. Then what
a run without expiry leaves for a vessel is `Newest`, a property of the set
of packets.
-/

namespace AisStore

open Lib

section
variable {Pos : Type} (lib : AisLib Pos)

/-- The positions a tracker holds, without the times they were written at. -/
def held (tracker : Tracker Pos) (m : ℤ) : Option (PositionTime Pos) :=
  (tracker m).map Entry.value

/-- What there is to know of vessel `m` from a set of packets: its valid
position with the greatest timestamp, or nothing if it has none. -/
def Newest (packets : List AisPacket) (m : ℤ) : Option (PositionTime Pos) → Prop
  | none => ∀ p ∈ packets, reportOf lib m p = none
  | some r => (∃ p ∈ packets, reportOf lib m p = some r) ∧
      ∀ p ∈ packets, ∀ r', reportOf lib m p = some r' → r'.time.1 ≤ r.time.1

/-- Two packets that report one vessel at the same time are the same packet. -/
def DistinctTimes (packets : List AisPacket) : Prop :=
  ∀ p ∈ packets, ∀ q ∈ packets, ∀ m r r', reportOf lib m p = some r → reportOf lib m q = some r' →
    r.time.1 = r'.time.1 → p = q

/-- The trackers of the program after an input: that of the live writer, fed
by `getPosition`, and those of the bulk writers that have one, fed by
`targetPosition`. -/
inductive TrackerAfter (clock : ℕ → ℤ) (packets : List AisPacket) : Tracker Pos → Prop where
  | getPosition :
      TrackerAfter clock packets (assembleStatements lib clock ⟨Cache.empty, []⟩ packets).tracker
  | targetPosition (table : Table) (htable : table.Tracks) :
      TrackerAfter clock packets (streamAllAisPacketsTo lib table clock packets).tracker

variable {lib}

theorem TrackerAfter.eq_trackAll {clock : ℕ → ℤ} {packets : List AisPacket} {tracker : Tracker Pos}
    (h : TrackerAfter lib clock packets tracker) :
    tracker = trackAll lib positionTimeoutNanos clock packets := by
  cases h with
  | getPosition => exact tracker_assembleStatements lib clock packets
  | targetPosition table htable => exact tracker_streamAllAisPacketsTo lib clock htable packets

theorem newest_bestReport (packets : List AisPacket) (m : ℤ) :
    Newest lib packets m (bestReport lib m packets) := by
  cases hb : bestReport lib m packets with
  | none => exact (bestReport_eq_none lib).mp hb
  | some r =>
    obtain ⟨houtlasts, hmax⟩ := (bestReport_eq_some lib).mp hb
    exact ⟨houtlasts.exists_mem, hmax⟩

theorem Newest.of_perm {packets packets' : List AisPacket} (hperm : packets.Perm packets') {m : ℤ}
    {r : Option (PositionTime Pos)} (h : Newest lib packets' m r) : Newest lib packets m r := by
  cases r with
  | none => exact fun p hp => h p (hperm.mem_iff.mp hp)
  | some r =>
    obtain ⟨⟨p, hp, hreport⟩, hmax⟩ := h
    exact ⟨⟨p, hperm.mem_iff.mpr hp, hreport⟩, fun q hq => hmax q (hperm.mem_iff.mp hq)⟩

/-- Where times are distinct, there is only one newest report. -/
theorem Newest.unique {packets : List AisPacket} (hdistinct : DistinctTimes lib packets) {m : ℤ}
    {r r' : Option (PositionTime Pos)} (h : Newest lib packets m r)
    (h' : Newest lib packets m r') : r = r' := by
  cases r with
  | none =>
    cases r' with
    | none => rfl
    | some r' =>
      obtain ⟨⟨p, hp, hreport⟩, -⟩ := h'
      rw [h p hp] at hreport
      cases hreport
  | some r =>
    obtain ⟨⟨p, hp, hreport⟩, hmax⟩ := h
    cases r' with
    | none =>
      rw [h' p hp] at hreport
      cases hreport
    | some r' =>
      obtain ⟨⟨q, hq, hreport'⟩, hmax'⟩ := h'
      have htime : r.time.1 = r'.time.1 :=
        le_antisymm (hmax' p hp r hreport) (hmax q hq r' hreport')
      obtain rfl := hdistinct p hp q hq m r r' hreport hreport' htime
      exact hreport.symm.trans hreport'

theorem held_newest {clock : ℕ → ℤ} {packets : List AisPacket} {tracker : Tracker Pos}
    (hexpiry : NoExpiry lib positionTimeoutNanos clock packets)
    (h : TrackerAfter lib clock packets tracker) (m : ℤ) :
    Newest lib packets m (held tracker m) := by
  have hheld : held tracker m = bestReport lib m packets := by
    rw [h.eq_trackAll]
    exact value_trackAll lib positionTimeoutNanos clock hexpiry m
  rw [hheld]
  exact newest_bestReport packets m

/-- A packet without a message, or whose message has no valid position,
leaves every tracker as it was. -/
theorem tracker_unchanged {packet : AisPacket}
    (h : ∀ message, lib.tryGetAisMessage packet = some message → message.validPosition = none)
    (now : ℤ) (tracker : Tracker Pos) :
    (getPosition lib now tracker packet).2 = tracker ∧
      (targetPosition lib now tracker packet).2 = tracker := by
  have hreport : report lib packet = none := by
    rw [Option.eq_none_iff_forall_ne_some]
    rintro ⟨m, r⟩ hr
    obtain ⟨message, position, hmsg, hpos, -⟩ := (report_eq_some lib).mp hr
    rw [h message hmsg] at hpos
    cases hpos
  have hkeep : (trackPosition lib positionTimeoutNanos now tracker packet).2 = tracker := by
    rw [trackPosition_of_no_report lib positionTimeoutNanos hreport]
  exact ⟨hkeep, hkeep⟩

/-- In whatever order a set of packets arrives, and whichever writer tracks
them, the tracker ends up with the newest position of each vessel and
nothing else, and packets that report nothing change nothing. -/
theorem tracker_arrivalOrder {packets packets' : List AisPacket} (hperm : packets.Perm packets')
    (hdistinct : DistinctTimes lib packets) {clock clock' : ℕ → ℤ}
    (hexpiry : NoExpiry lib positionTimeoutNanos clock packets)
    (hexpiry' : NoExpiry lib positionTimeoutNanos clock' packets') {tracker tracker' : Tracker Pos}
    (h : TrackerAfter lib clock packets tracker) (h' : TrackerAfter lib clock' packets' tracker') :
    held tracker = held tracker' ∧ (∀ m, Newest lib packets m (held tracker m)) ∧
      ∀ packet, (∀ message, lib.tryGetAisMessage packet = some message →
          message.validPosition = none) → ∀ now before,
        (getPosition lib now before packet).2 = before ∧
          (targetPosition lib now before packet).2 = before := by
  refine ⟨?_, held_newest hexpiry h, fun packet hpacket => tracker_unchanged hpacket⟩
  ext1 m
  exact (held_newest hexpiry h m).unique hdistinct ((held_newest hexpiry' h' m).of_perm hperm)

end

/-- A vessel's position, its name, and its position again a second after. -/
def twoReportsAndName : List Decoded :=
  [positionReport, staticReport, ⟨"!AIVDM,1,1,,A,14", toLong 601000, some 219000001, some 43, [3]⟩]

/-- The two positions arrive in either order. -/
theorem tracker_arrivalOrder_swapped :
    let lib := AisLib.ofDecoded twoReportsAndName
    let position : AisPacket := ⟨"!AIVDM,1,1,,A,13"⟩
    let name : AisPacket := ⟨"!AIVDM,1,1,,A,55"⟩
    let again : AisPacket := ⟨"!AIVDM,1,1,,A,14"⟩
    held (assembleStatements lib (fun _ => 0) ⟨Cache.empty, []⟩ [position, name, again]).tracker =
      held (streamAllAisPacketsTo lib .packetsAreaCell1 (fun _ => 0)
        [again, position, name]).tracker := by
  intro lib position name again
  have hperm : [position, name, again].Perm [again, position, name] := by decide
  have htimes : ∀ p ∈ [position, name, again], ∀ q ∈ [position, name, again],
      (report lib p).isSome → (report lib q).isSome →
        (lib.getBestTimestamp p).1 = (lib.getBestTimestamp q).1 → p = q := by decide
  have hdistinct : DistinctTimes lib [position, name, again] := by
    intro p hp q hq m r r' hr hr' htime
    rw [time_of_reportOf lib hr, time_of_reportOf lib hr'] at htime
    have hp' := Option.isSome_of_eq_some (report_of_reportOf lib hr)
    have hq' := Option.isSome_of_eq_some (report_of_reportOf lib hr')
    exact htimes p hp q hq hp' hq' htime
  have htracks : Table.Tracks .packetsAreaCell1 := trivial
  exact (tracker_arrivalOrder hperm hdistinct (noExpiry_const _ _ 0 (by decide) _)
    (noExpiry_const _ _ 0 (by decide) _) .getPosition (.targetPosition _ htracks)).1

end AisStore
