import AisStore.AllOrNothing
import AisStore.Redelivery

/-!
What a packet that cannot be stored does to the others.

`handleMessage` looks the position up, and so updates the tracker, before it
computes the blocks that may throw. The statements of a rejected packet
never reach a batch, but its position stays in the tracker, and since the
tracker prefers the greatest timestamp, one that is too far in the future to
have a block is preferred to all that follow. `rejectedHarmless_iff` says
exactly when that shows.
-/

namespace AisStore

open Lib

section
variable {Pos : Type} (lib : AisLib Pos) (clock : ℕ → ℤ)

/-- A writer that has not handled anything. -/
def freshWriter : WriterState Pos := ⟨Cache.empty, []⟩

/-- `handleMessage` returns on the packet, after the packets before it. -/
def Accepts (before : List AisPacket) (packet : AisPacket) : Prop :=
  (handledAfter lib clock freshWriter before packet).outcome = .ok ()

/-- The packets on which `handleMessage` does not throw. -/
def accepted (packets : List AisPacket) : List AisPacket :=
  (packets.zipIdx.filter fun x =>
    (handledAfter lib clock freshWriter (packets.take x.2) x.1).outcome.isOk).map Prod.fst

/-- The statements the call on a packet adds to the batch. -/
def generated (before : List AisPacket) (packet : AisPacket) : List Insert :=
  (handledAfter lib clock freshWriter before packet).batch.drop
    (statementsOf lib clock before).length

/-- The best report of the vessel of `packet` is that of a rejected packet,
and lies in another cell than the best report of the packets that can be
stored, if there is one. -/
def Misled (before : List AisPacket) (packet : AisPacket) : Prop :=
  ∃ rejected ∈ before, ¬ Fits lib rejected ∧
    ∃ r, reportOf lib (mmsiOf lib packet) rejected = some r ∧
      bestReport lib (mmsiOf lib packet) before = some r ∧
      cellOf lib ((bestReport lib (mmsiOf lib packet) (before.filter (Fits lib ·))).map
        PositionTime.position) ≠ some (lib.getCellInt r.position 1)

/-- Whether handling a packet throws is a matter of the packet alone. -/
theorem outcome_handledAfter (before : List AisPacket) (packet : AisPacket) :
    (Accepts lib clock before packet ↔ Fits lib packet) ∧
      (handledAfter lib clock freshWriter before packet).outcome.isOk =
        decide (Fits lib packet) := by
  rw [Accepts, handledAfter]
  by_cases h : Fits lib packet
  · simp [handleMessage_ok lib packet _ _ _ h, h, Except.isOk, Except.toBool]
  · obtain ⟨e, he⟩ := handleMessage_error lib packet
      (assembleStatements lib clock freshWriter before).statements (clock before.length)
      (assembleStatements lib clock freshWriter before).tracker h
    simp [he, h, Except.isOk, Except.toBool]

theorem accepted_eq (packets : List AisPacket) :
    accepted lib clock packets = packets.filter (Fits lib ·) := by
  have hpred : (fun x : AisPacket × ℕ =>
      (handledAfter lib clock freshWriter (packets.take x.2) x.1).outcome.isOk) =
        (fun packet => decide (Fits lib packet)) ∘ Prod.fst := by
    ext1 x
    exact (outcome_handledAfter lib clock (packets.take x.2) x.1).2
  rw [accepted, hpred, ← List.filter_map, List.zipIdx_map_fst]

theorem generated_eq (before : List AisPacket) (packet : AisPacket) :
    generated lib clock before packet = contributed lib clock before packet := by
  have hconcat := statementsOf_concat lib clock before packet
  have hbatch : (handledAfter lib clock freshWriter before packet).batch =
      statementsOf lib clock (before ++ [packet]) := by
    rw [statementsOf, assembleStatements, runClocked_concat]
    rfl
  rw [generated, hbatch, hconcat, List.drop_left]

/-! ### What a rejected report changes -/

variable {lib clock}

theorem fits_congr {p q : AisPacket} (htime : lib.getBestTimestamp p = lib.getBestTimestamp q)
    (hmmsi : mmsiOf lib p = mmsiOf lib q) : Fits lib p ↔ Fits lib q := by
  rw [Fits, Fits, htime, hmmsi]

theorem mmsiOf_of_reportOf {m : ℤ} {packet : AisPacket} {r : PositionTime Pos}
    (h : reportOf lib m packet = some r) : mmsiOf lib packet = m := by
  obtain ⟨message, hmsg, rfl⟩ := userId_of_reportOf lib h
  simp only [mmsiOf, hmsg]

/-- A best report that can be stored is the best of those that can. -/
theorem bestReport_filter {m : ℤ} {before : List AisPacket} {r : PositionTime Pos}
    (h : bestReport lib m before = some r)
    (hfits : ∀ p ∈ before, reportOf lib m p = some r → Fits lib p) :
    bestReport lib m (before.filter (Fits lib ·)) = some r := by
  obtain ⟨⟨pre, source, post, rfl, hsource, hpost⟩, hmax⟩ := (bestReport_eq_some lib).mp h
  have hsourceFits : Fits lib source := hfits source (by simp) hsource
  refine (bestReport_eq_some lib).mpr ⟨⟨pre.filter (Fits lib ·), source, post.filter (Fits lib ·),
    ?_, hsource, ?_⟩, ?_⟩
  · simp [hsourceFits]
  · exact fun p hp => hpost p (List.mem_of_mem_filter hp)
  · exact fun p hp => hmax p (List.mem_of_mem_filter hp)

theorem bestPosition_of_estimated {packet : AisPacket} (h : Estimated lib packet)
    (before : List AisPacket) :
    bestPosition lib before packet =
      (bestReport lib (mmsiOf lib packet) before).map PositionTime.position := by
  obtain ⟨-, -, hm, hreport⟩ := h
  rw [mmsiOf] at hm ⊢
  rw [bestPosition, hreport]
  cases hmsg : lib.tryGetAisMessage packet with
  | none => simp [hmsg] at hm
  | some message => rfl

/-- The packets that are stored see the cell an estimated packet is filed in
unless a rejected report misleads it. -/
theorem cellOf_bestPosition_iff {packet : AisPacket} (h : Estimated lib packet)
    (before : List AisPacket) :
    cellOf lib (bestPosition lib before packet) =
        cellOf lib (bestPosition lib (before.filter (Fits lib ·)) packet) ↔
      ¬ Misled lib before packet := by
  rw [bestPosition_of_estimated h, bestPosition_of_estimated h, Misled]
  cases hbest : bestReport lib (mmsiOf lib packet) before with
  | none =>
    have hnone : bestReport lib (mmsiOf lib packet) (before.filter (Fits lib ·)) = none := by
      rw [bestReport_eq_none] at hbest ⊢
      exact fun p hp => hbest p (List.mem_of_mem_filter hp)
    simp [hnone]
  | some r =>
    obtain ⟨source, hsource, hreport⟩ := (outlasts_of_bestReport lib hbest).1.exists_mem
    -- whoever makes this report is stored just when its source is
    have hsame : ∀ p, reportOf lib (mmsiOf lib packet) p = some r →
        (Fits lib p ↔ Fits lib source) := by
      intro p hp
      refine fits_congr ?_ ?_
      · rw [← time_of_reportOf lib hp, ← time_of_reportOf lib hreport]
      · rw [mmsiOf_of_reportOf hp, mmsiOf_of_reportOf hreport]
    by_cases hfits : Fits lib source
    · rw [bestReport_filter hbest fun p _ hp => (hsame p hp).mpr hfits]
      simp only [true_iff]
      rintro ⟨rejected, -, hnot, r', hr', hrr', -⟩
      cases hrr'
      exact hnot ((hsame rejected hr').mpr hfits)
    · constructor
      · rintro heq ⟨-, -, -, r', -, hrr', hne⟩
        cases hrr'
        exact hne heq.symm
      · intro hmisled
        by_contra hne
        exact hmisled ⟨source, hsource, hfits, r, hreport, rfl, fun heq => hne heq.symm⟩

/-- Deleting the packets on which `handleMessage` throws leaves the
statements of every other packet as they are exactly when none of those
filed at an estimated position is misled by a rejected report. -/
theorem rejectedHarmless_iff {clock clock' : ℕ → ℤ} {packets : List AisPacket}
    (hexpiry : NoExpiry lib positionTimeoutNanos clock packets)
    (hexpiry' : NoExpiry lib positionTimeoutNanos clock' (accepted lib clock packets)) :
    (∀ before packet after, packets = before ++ packet :: after → Accepts lib clock before packet →
        generated lib clock' (accepted lib clock before) packet =
          generated lib clock before packet) ↔
      ∀ before packet after, packets = before ++ packet :: after → Estimated lib packet →
        ¬ Misled lib before packet := by
  have hsides : ∀ before packet after, packets = before ++ packet :: after → Fits lib packet →
      generated lib clock before packet = insertsOf lib packet (bestPosition lib before packet) ∧
      generated lib clock' (accepted lib clock before) packet =
        insertsOf lib packet (bestPosition lib (before.filter (Fits lib ·)) packet) := by
    intro before packet after hsplit hfits
    have hsplit' : accepted lib clock packets =
        before.filter (Fits lib ·) ++ packet :: after.filter (Fits lib ·) := by
      simp [accepted_eq, hsplit, hfits]
    rw [generated_eq, generated_eq, accepted_eq, contributed_of_noExpiry lib hexpiry hsplit,
      contributed_of_noExpiry lib hexpiry' hsplit', if_pos hfits, if_pos hfits]
    exact ⟨rfl, rfl⟩
  constructor
  · intro h before packet after hsplit hest
    have hfits := hest.1
    have heq := h before packet after hsplit ((outcome_handledAfter lib clock before packet).1.mpr
      hfits)
    rw [(hsides before packet after hsplit hfits).1, (hsides before packet after hsplit hfits).2]
      at heq
    rw [← cellOf_bestPosition_iff hest]
    exact ((insertsOf_eq_iff_of_estimated lib hest).mp heq).symm
  · intro h before packet after hsplit haccepts
    have hfits := (outcome_handledAfter lib clock before packet).1.mp haccepts
    rw [(hsides before packet after hsplit hfits).1, (hsides before packet after hsplit hfits).2]
    by_cases hest : Estimated lib packet
    · rw [insertsOf_eq_iff_of_estimated lib hest]
      exact ((cellOf_bestPosition_iff hest before).mpr (h before packet after hsplit hest)).symm
    · exact insertsOf_bestPosition_congr lib hfits hest _ _

end

/-- A vessel's position and name, and the two again with a time in the far
future, the first whose ten-minute block is no `int`. -/
def farFuture : List Decoded :=
  [positionReport, staticReport,
    ⟨"!AIVDM,1,1,,A,16", toLong 1288490188800000, some 219000001, some 43, [4]⟩,
    ⟨"!AIVDM,1,1,,A,56", toLong 1288490188800000, some 219000001, none, [5]⟩]

/-- A rejected name between the position and the name is without effect. -/
theorem rejectedHarmless_iff_farName :
    let lib := AisLib.ofDecoded farFuture
    let position : AisPacket := ⟨"!AIVDM,1,1,,A,13"⟩
    let name : AisPacket := ⟨"!AIVDM,1,1,,A,55"⟩
    let farName : AisPacket := ⟨"!AIVDM,1,1,,A,56"⟩
    ¬ Accepts lib (fun _ => 0) [position] farName ∧
      generated lib (fun _ => 0) (accepted lib (fun _ => 0) [position, farName]) name =
        generated lib (fun _ => 0) [position, farName] name := by
  intro lib position name farName
  have hrejected : ¬ Fits lib farName := by decide
  have hname : Fits lib name := by decide
  refine ⟨fun h => hrejected ((outcome_handledAfter lib _ [position] farName).1.mp h), ?_⟩
  have hharmless := rejectedHarmless_iff
    (noExpiry_const lib positionTimeoutNanos 0 (by decide) [position, farName, name])
    (noExpiry_const lib positionTimeoutNanos 0 (by decide) _)
  refine hharmless.mpr ?_ [position, farName] name [] rfl
    ((outcome_handledAfter lib _ _ name).1.mpr hname)
  rintro before packet after hsplit - ⟨rejected, hmem, hnot, r, hr, -⟩
  have hin : rejected ∈ [position, farName, name] := by
    rw [hsplit]
    exact List.mem_append_left _ hmem
  have hsilent : ∀ p ∈ [position, farName, name], ¬ Fits lib p → report lib p = none := by decide
  have hreport := report_of_reportOf lib hr
  rw [hsilent rejected hin hnot] at hreport
  cases hreport

/-- A rejected position moves the name that follows it into a cell. -/
theorem rejectedHarmless_farPosition :
    let lib := AisLib.ofDecoded farFuture
    let name : AisPacket := ⟨"!AIVDM,1,1,,A,55"⟩
    let farPosition : AisPacket := ⟨"!AIVDM,1,1,,A,16"⟩
    NoExpiry lib positionTimeoutNanos (fun _ => 0) [farPosition, name] ∧
      accepted lib (fun _ => 0) [farPosition, name] = [name] ∧
      (generated lib (fun _ => 0) [farPosition] name).map Insert.table =
        [.packetsTime, .packetsMmsi, .packetsAreaCell1] ∧
      (generated lib (fun _ => 0) [] name).map Insert.table =
        [.packetsTime, .packetsMmsi, .packetsAreaUnknown] ∧
      ¬ ∀ before packet after, [farPosition, name] = before ++ packet :: after →
        Accepts lib (fun _ => 0) before packet →
          generated lib (fun _ => 0) (accepted lib (fun _ => 0) before) packet =
            generated lib (fun _ => 0) before packet := by
  intro lib name farPosition
  have hname : Fits lib name := by decide
  have hwith : (generated lib (fun _ => 0) [farPosition] name).map Insert.table =
      [.packetsTime, .packetsMmsi, .packetsAreaCell1] := by decide
  have hwithout : (generated lib (fun _ => 0) [] name).map Insert.table =
      [.packetsTime, .packetsMmsi, .packetsAreaUnknown] := by decide
  have haccepted : accepted lib (fun _ => 0) [farPosition] = [] := by
    rw [accepted_eq]
    decide
  refine ⟨noExpiry_const _ _ 0 (by decide) _, ?_, hwith, hwithout, ?_⟩
  · rw [accepted_eq]
    decide
  · intro h
    have heq := h [farPosition] name [] rfl ((outcome_handledAfter lib _ _ name).1.mpr hname)
    rw [haccepted] at heq
    rw [← heq, hwithout] at hwith
    exact absurd hwith (by decide)

end AisStore
