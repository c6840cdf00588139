import AisStore.BackupsKept
import Mathlib.Data.Bool.Count

/-!
The room for the sources.

`restoreFile` and the sources put their packets into the same queue, and what
a source finds no room for goes to the backup. As a call looks at the length
of the queue before each offer, the restored packets never take up the room
that is there for the sources (`liveTraffic_reserve`).
-/

namespace AisStore

open Lib

/-- How many packets may be in the queue when another is restored. -/
def ImportConfig.limit (cfg : ImportConfig) : ℤ := max 0 (wrapInt (10 * cfg.batchSize))

/-- The call is about to offer a packet. -/
def ImportControl.isOffer : ImportControl → Bool
  | .restoreFile _ _ _ _ (.offer _) => true
  | _ => false

/-- There are few restored packets in the queue. -/
structure Reserve (cfg : ImportConfig) (s : ImportService) : Prop where
  length : s.fromBackup.length = s.inputQueue.length
  few : s.fromBackup.count true ≤ cfg.limit + 1
  /-- There was room when the call looked, and it is the only one that restores. -/
  offering : s.control.isOffer = true → s.fromBackup.count true ≤ cfg.limit

section
variable {cfg : ImportConfig} {s s' : ImportService}

theorem Reserve.goto {control : ImportControl} (h : Reserve cfg s)
    (hcontrol : control.isOffer = false) : Reserve cfg (ImportService.goto s control) :=
  ⟨h.length, h.few, fun hoffer => nomatch hcontrol.symm.trans hoffer⟩

/-- `run` is at an offer only if the call is. -/
theorem isOffer_controlAfter {ds : Listing} {path : String} {r : Restore}
    (h : (ImportService.controlAfter ds path r).isOffer = true) :
    ∃ packet, r.control = .offer packet := by
  unfold ImportService.controlAfter at h
  split at h
  · split at h <;> cases h
  · cases hcontrol : r.control with
    | offer packet => exact ⟨packet, rfl⟩
    | _ =>
        rw [hcontrol] at h
        cases h

/-- A step of the call that leaves the queue as it is. -/
theorem Reserve.resume {ds : Listing} {path : String} {r : Restore} (h : Reserve cfg s)
    (hqueue : r.inputQueue = s.inputQueue)
    (hoffer : ∀ packet, r.control = .offer packet → s.inputQueue.length ≤ cfg.limit) :
    Reserve cfg (s.resume ds path r) := by
  have hsame : (s.resume ds path r).fromBackup = s.fromBackup := by
    show s.fromBackup ++ List.replicate (r.inputQueue.length - s.inputQueue.length) true = _
    rw [hqueue, Nat.sub_self]
    exact List.append_nil _
  refine ⟨?_, ?_, fun hcontrol => ?_⟩
  · rw [hsame, h.length]
    exact congrArg List.length hqueue.symm
  · rw [hsame]
    exact h.few
  · rw [hsame]
    obtain ⟨packet, hpacket⟩ := isOffer_controlAfter hcontrol
    have hlength := hoffer packet hpacket
    have hcount : s.fromBackup.count true ≤ s.inputQueue.length := h.length ▸ List.count_le_length
    omega

theorem Reserve.restoreFile {ds : Listing} {path : String} {position : ℕ}
    {accepted : List AisPacket} {control : RestoreControl} {r : Restore} {a : RestoreAction}
    (h : Reserve cfg s) (hcontrol : s.control = .restoreFile ds path position accepted control)
    (hown : a.isOwn = true)
    (hstep : RestoreFile.step (cfg.call path) (s.call position accepted control) a = some r) :
    Reserve cfg (s.resume ds path r) := by
  cases touches_of_step hown hstep with
  | nothing hqueue _ hoffer _ =>
      exact h.resume hqueue fun packet hpacket => (hoffer packet hpacket).trans (le_max_right ..)
  | offered packet hoffer hqueue _ hnext =>
      have hlength : r.inputQueue.length = s.inputQueue.length + 1 := by
        rw [hqueue]
        exact List.length_append
      have hone : (s.resume ds path r).fromBackup = s.fromBackup ++ [true] := by
        show s.fromBackup ++ List.replicate (r.inputQueue.length - s.inputQueue.length) true = _
        rw [hlength, Nat.add_sub_cancel_left]
        rfl
      have hfew : s.fromBackup.count true ≤ cfg.limit := by
        refine h.offering ?_
        have hcall : control = .offer packet := hoffer
        rw [hcontrol, hcall]
        rfl
      refine ⟨?_, ?_, fun hagain => ?_⟩
      · rw [hone, List.length_append, h.length]
        exact hlength.symm
      · rw [hone, List.count_append, List.count_singleton_self]
        omega
      · obtain ⟨packet', hpacket'⟩ := isOffer_controlAfter hagain
        rw [hnext] at hpacket'
        cases hpacket'
  | deleted hqueue hend _ =>
      refine h.resume hqueue fun packet hpacket => ?_
      rw [hend] at hpacket
      cases hpacket
  | renamed hqueue _ hend _ =>
      refine h.resume hqueue fun packet hpacket => ?_
      rw [hend] at hpacket
      cases hpacket

theorem Reserve.takeBatch (h : Reserve cfg s) (n : ℕ) :
    Reserve cfg { s with
      inputQueue := s.inputQueue.drop n
      fromBackup := s.fromBackup.drop n } := by
  have hcount : (s.fromBackup.drop n).count true ≤ s.fromBackup.count true :=
    (List.drop_sublist n _).count_le _
  have hfew := h.few
  refine ⟨?_, ?_, fun hoffer => ?_⟩
  · show (s.fromBackup.drop n).length = (s.inputQueue.drop n).length
    rw [List.length_drop, List.length_drop, h.length]
  · show ((s.fromBackup.drop n).count true : ℤ) ≤ cfg.limit + 1
    omega
  · show ((s.fromBackup.drop n).count true : ℤ) ≤ cfg.limit
    have hbefore := h.offering hoffer
    omega

theorem Reserve.deliver (h : Reserve cfg s) (packet : AisPacket) :
    Reserve cfg { s with
      inputQueue := s.inputQueue ++ [packet]
      fromBackup := s.fromBackup ++ [false] } := by
  have hcount : (s.fromBackup ++ [false]).count true = s.fromBackup.count true := by
    rw [List.count_append]
    rfl
  refine ⟨?_, ?_, fun hoffer => ?_⟩
  · show (s.fromBackup ++ [false]).length = (s.inputQueue ++ [packet]).length
    rw [List.length_append, List.length_append, h.length]
    rfl
  · show ((s.fromBackup ++ [false]).count true : ℤ) ≤ cfg.limit + 1
    rw [hcount]
    exact h.few
  · show ((s.fromBackup ++ [false]).count true : ℤ) ≤ cfg.limit
    rw [hcount]
    exact h.offering hoffer

theorem Reserve.step (h : Reserve cfg s) {a : ImportAction}
    (hstep : ImportService.step cfg s a = some s') : Reserve cfg s' := by
  cases ImportService.steps_of_step hstep with
  | goes hgoes => exact h.goto (by cases hgoes <;> rfl)
  | calls hcontrol hown hcall => exact h.restoreFile hcontrol hown hcall
  | takesBatch _ => exact h.takeBatch _
  | delivers packet _ => exact h.deliver packet
  | comes _ _ => exact ⟨h.length, h.few, h.offering⟩
  | stops => exact ⟨h.length, h.few, h.offering⟩

end

/-- Of the packets in the queue, at most `10 * batchSize` and one are there
because a file was restored. So a source that finds the queue full finds it
full of what the sources have delivered, up to those. -/
theorem liveTraffic_reserve {cfg : ImportConfig} {inputQueue : List AisPacket}
    {files : String → Option (List AisPacket)} {s : ImportService}
    (h : ReachedBy (ImportService.step cfg) (fun _ _ => True)
      (ImportService.start inputQueue files) s) :
    s.fromBackup.count true ≤ cfg.limit + 1 ∧
      ∀ packet, ImportService.step cfg s (.deliver packet) = none →
        (cfg.queueSize : ℤ) ≤ s.fromBackup.count false + (cfg.limit + 1) := by
  have hstart : Reserve cfg (ImportService.start inputQueue files) := by
    have hnone : (inputQueue.map fun _ => false).count true = 0 := by
      rw [List.count_eq_zero]
      simp
    refine ⟨List.length_map .., ?_, nofun⟩
    show ((inputQueue.map fun _ => false).count true : ℤ) ≤ _
    rw [hnone, ImportConfig.limit]
    omega
  have hreserve : Reserve cfg s := h.invariant hstart fun _ _ _ _ hstep h => h.step hstep
  refine ⟨hreserve.few, fun packet hrefused => ?_⟩
  simp only [ImportService.step] at hrefused
  split at hrefused
  · cases hrefused
  · rename_i hfull
    have hall : s.fromBackup.count true + s.fromBackup.count false = s.fromBackup.length :=
      List.count_add_count_not s.fromBackup true
    have hfew := hreserve.few
    have hlength := hreserve.length
    omega

/-- A source finds the queue full of restored packets. -/
theorem liveTraffic_reserve_oneBackup :
    ∃ s, ReachedBy (ImportService.step oneBackup) (fun _ _ => True) oneBackupStart s ∧
      s.fromBackup = [true, true] ∧
      (oneBackup.queueSize : ℤ) ≤ s.fromBackup.count false + (oneBackup.limit + 1) := by
  obtain ⟨s, hrun, hfrom, hfull⟩ : ∃ s,
      offerBoth.foldlM (ImportService.step oneBackup) oneBackupStart = some s ∧
      s.fromBackup = [true, true] ∧
      ImportService.step oneBackup s (.deliver ⟨"!AIVDM,1,1,,B,13"⟩) = none := ⟨_, rfl, rfl, rfl⟩
  have hreached : ReachedBy (ImportService.step oneBackup) (fun _ _ => True) oneBackupStart s :=
    ReachedBy.start.steps (fun _ _ _ => trivial) hrun
  exact ⟨s, hreached, hfrom, (liveTraffic_reserve hreached).2 _ hfull⟩

end AisStore
