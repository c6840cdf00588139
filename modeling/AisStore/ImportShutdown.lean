import AisStore.BackupsKept

/-!
Shutting the import service down.

Every loop of `run` and of `restoreFile` tests `isRunning()`. So once the
service is shut down, `run` comes to its end after few steps, wherever it is
(`shutdown_returns`).
-/

namespace AisStore

open Lib

/-- An action of the service, not of those around it. -/
def ImportAction.isOwn : ImportAction → Bool
  | .takeBatch _ => false
  | .deliver _ => false
  | .newFile _ _ => false
  | .shutdown => false
  | _ => true

/-- `run` has come to an end, one way or another. -/
def ImportControl.isEnd : ImportControl → Bool
  | .returned => true
  | .failed => true
  | .exited => true
  | _ => false

/-- How many more steps a call takes, once the service is shut down. -/
@[simp] def RestoreControl.stepsLeft : RestoreControl → ℕ
  | .createFromFile => 6
  | .readPacket => 5
  | .whileRunning _ => 4
  | .getNumberOfOutstandingPackets _ => 7
  | .offer _ => 6
  | .sleep _ => 5
  | .ifNotRunning => 3
  | .close _ => 2
  | .delete => 1
  | .moveUnreadable => 1
  | .ended _ => 0

/-- How many more steps `run` takes. -/
@[simp] def ImportControl.stepsLeft : ImportControl → ℕ
  | .createDirectories => 2
  | .whileRunning => 1
  | .sleep => 7
  | .ifNoPressure => 6
  | .ifExists => 5
  | .newDirectoryStream => 4
  | .next _ => 3
  | .ifNotRunning _ _ => 2
  | .restoreFile _ _ _ _ control => 5 + control.stepsLeft
  | .longBreak _ => 5
  | .whileOutstanding _ => 4
  | .outstanding _ => 6
  | .sleepOutstanding _ => 5
  | .returned => 0
  | .failed => 0
  | .exited => 0

theorem ImportControl.stepsLeft_le (control : ImportControl) : control.stepsLeft ≤ 12 := by
  unfold ImportControl.stepsLeft
  split <;> try omega
  rename_i control
  unfold RestoreControl.stepsLeft
  split <;> omega

/-- Each step of a call comes nearer to its end. -/
theorem stepsLeft_of_step {cfg : RestoreConfig} {r r' : Restore} {a : RestoreAction}
    (hown : a.isOwn = true) (hstopped : r.running = false)
    (hstep : RestoreFile.step cfg r a = some r') :
    r'.control.stepsLeft < r.control.stepsLeft := by
  cases RestoreFile.steps_of_step hown hstep with
  | goes h =>
      cases h with
      | running _ hrunning => cases hstopped.symm.trans hrunning
      | readsOn _ hrunning => cases hstopped.symm.trans hrunning
      | _ hcontrol => simp [RestoreFile.goto, hcontrol]
  | read hcontrol _ => simp [hcontrol]
  | offered hcontrol _ => simp [hcontrol]
  | deleted hcontrol => simp [hcontrol]
  | renamed hcontrol _ => simp [hcontrol]

section
variable {cfg : ImportConfig} {s s' : ImportService} {as : List ImportAction}

/-- Nobody starts the service again. -/
theorem stopped_of_step (hstopped : s.running = false) {a : ImportAction}
    (hstep : ImportService.step cfg s a = some s') : s'.running = false := by
  cases ImportService.steps_of_step hstep with
  | calls _ hown hcall => exact (running_of_step hown hcall).trans hstopped
  | stops => rfl
  | _ => exact hstopped

/-- After a step of a call `run` is not further from its end than the call was. -/
theorem stepsLeft_controlAfter (ds : Listing) (path : String) (r : Restore) :
    (ImportService.controlAfter ds path r).stepsLeft ≤ 5 + r.control.stepsLeft := by
  unfold ImportService.controlAfter
  split
  · split <;> simp only [ImportControl.stepsLeft] <;> omega
  · exact Nat.le_refl _

/-- Once the service is shut down, each of its steps comes nearer to the end
of `run`, and what others do changes nothing about that. -/
theorem stepsLeft_step (hstopped : s.running = false) {a : ImportAction}
    (hstep : ImportService.step cfg s a = some s') :
    s'.control.stepsLeft + (if a.isOwn then 1 else 0) ≤ s.control.stepsLeft := by
  cases ImportService.steps_of_step hstep with
  | goes hgoes =>
      cases hgoes with
      | running _ hrunning => cases hstopped.symm.trans hrunning
      | restores _ hrunning _ => cases hstopped.symm.trans hrunning
      | passesOver _ hrunning _ => cases hstopped.symm.trans hrunning
      | looks _ hrunning => cases hstopped.symm.trans hrunning
      | _ hcontrol => simp [ImportService.goto, hcontrol, ImportAction.isOwn]
  | calls hcontrol hown hcall =>
      rename_i ds path position accepted control a r
      have hless : r.control.stepsLeft < control.stepsLeft := stepsLeft_of_step hown hstopped hcall
      have hafter := stepsLeft_controlAfter ds path r
      rw [hcontrol]
      show (ImportService.controlAfter ds path r).stepsLeft + 1 ≤ 5 + control.stepsLeft
      omega
  | _ => exact Nat.le_refl _

/-- A call that has not ended can go on, and nothing need fail in one that is fine. -/
theorem exists_step_call {cfg : RestoreConfig} {r : Restore}
    (hgoing : ∀ outcome, r.control ≠ .ended outcome) :
    ∃ a r', a.isOwn = true ∧ (r.control.isFine = true → a.succeeds = true) ∧
      RestoreFile.step cfg r a = some r' := by
  cases hcontrol : r.control with
  | createFromFile =>
      exact ⟨.createFromFile true, _, rfl, fun _ => rfl, by rw [RestoreFile.step, hcontrol]⟩
  | readPacket =>
      refine ⟨.readPacket true, ?_⟩
      simp only [RestoreFile.step, hcontrol, if_true]
      split
      · exact ⟨_, rfl, fun _ => rfl, rfl⟩
      · exact ⟨_, rfl, fun _ => rfl, rfl⟩
  | whileRunning packet =>
      exact ⟨.test, _, rfl, fun _ => rfl, by rw [RestoreFile.step, hcontrol]⟩
  | getNumberOfOutstandingPackets packet =>
      exact ⟨.getNumberOfOutstandingPackets, _, rfl, fun _ => rfl,
        by rw [RestoreFile.step, hcontrol]⟩
  | offer packet =>
      refine ⟨.offer, ?_⟩
      simp only [RestoreFile.step, hcontrol]
      split
      · exact ⟨_, rfl, fun _ => rfl, rfl⟩
      · exact ⟨_, rfl, fun _ => rfl, rfl⟩
  | sleep packet =>
      exact ⟨.sleep true, _, rfl, fun _ => rfl, by rw [RestoreFile.step, hcontrol]⟩
  | ifNotRunning => exact ⟨.test, _, rfl, fun _ => rfl, by rw [RestoreFile.step, hcontrol]⟩
  | close atEnd =>
      exact ⟨.close true, _, rfl, fun _ => rfl, by rw [RestoreFile.step, hcontrol]⟩
  | delete =>
      exact ⟨.delete true, _, rfl, fun _ => rfl, by rw [RestoreFile.step, hcontrol]; rfl⟩
  | moveUnreadable =>
      exact ⟨.moveUnreadable false, _, rfl, fun hfine => absurd hfine Bool.false_ne_true,
        by simp only [RestoreFile.step, hcontrol]; rfl⟩
  | ended outcome => exact absurd hcontrol (hgoing outcome)

/-- `run` that has not come to its end can go on. -/
theorem exists_step (h : Importing cfg s) (hgoing : s.control.isEnd = false) :
    ∃ a s', a.isOwn = true ∧ ImportService.step cfg s a = some s' := by
  cases hcontrol : s.control with
  | createDirectories =>
      exact ⟨.createDirectories true, _, rfl, by rw [ImportService.step, hcontrol]⟩
  | whileRunning => exact ⟨.test, _, rfl, by rw [ImportService.step, hcontrol]⟩
  | sleep => exact ⟨.sleep true, _, rfl, by rw [ImportService.step, hcontrol]⟩
  | ifNoPressure =>
      exact ⟨.getNumberOfOutstandingPackets, _, rfl, by rw [ImportService.step, hcontrol]⟩
  | ifExists => exact ⟨.ifExists true, _, rfl, by rw [ImportService.step, hcontrol]⟩
  | newDirectoryStream =>
      exact ⟨.newDirectoryStream true, _, rfl, by rw [ImportService.step, hcontrol]⟩
  | next ds => exact ⟨.endOfStream, _, rfl, by rw [ImportService.step, hcontrol]⟩
  | ifNotRunning ds path => exact ⟨.test, _, rfl, by rw [ImportService.step, hcontrol]⟩
  | restoreFile ds path position accepted control =>
      rw [Importing, hcontrol] at h
      obtain ⟨a, r, hown, -, hcall⟩ := @exists_step_call (cfg.call path)
        (s.call position accepted control) h.2.1
      exact ⟨.restoreFile a, s.resume ds path r, rfl, by
        simp only [ImportService.step, hcontrol, if_pos hown, hcall, Option.map_some]⟩
  | longBreak ds => exact ⟨.sleep true, _, rfl, by rw [ImportService.step, hcontrol]⟩
  | whileOutstanding ds => exact ⟨.test, _, rfl, by rw [ImportService.step, hcontrol]⟩
  | outstanding ds =>
      exact ⟨.getNumberOfOutstandingPackets, _, rfl, by rw [ImportService.step, hcontrol]⟩
  | sleepOutstanding ds => exact ⟨.sleep true, _, rfl, by rw [ImportService.step, hcontrol]⟩
  | _ =>
      rw [hcontrol] at hgoing
      cases hgoing

end

/-- From wherever `run` is when the service is shut down, and however the
others go on: it takes at most twelve steps more, and it stops only where it
has returned, has thrown or has left the program. -/
theorem shutdown_returns {cfg : ImportConfig} {inputQueue : List AisPacket}
    {files : String → Option (List AisPacket)} {s s' : ImportService} {as : List ImportAction}
    (hs : ReachedBy (ImportService.step cfg) (fun _ _ => True)
      (ImportService.start inputQueue files) s)
    (hstopped : s.running = false)
    (h : RunsTo (ImportService.step cfg) (fun _ _ => True) s as s') :
    as.countP ImportAction.isOwn ≤ 12 ∧
      (s'.control.isEnd = true ∨
        ∃ a s'', a.isOwn = true ∧ ImportService.step cfg s' a = some s'') := by
  have himporting : Importing cfg s :=
    hs.invariant trivial fun _ _ _ _ hstep h => (Safely.step h hstep).importing
  have hbound : (s'.running = false ∧ Importing cfg s') ∧
      as.countP ImportAction.isOwn + s'.control.stepsLeft ≤ s.control.stepsLeft :=
    h.countP_add_le (P := fun s => s.running = false ∧ Importing cfg s)
      (fun s => s.control.stepsLeft) ImportAction.isOwn ⟨hstopped, himporting⟩
      fun _ _ _ _ hstep hP => ⟨⟨stopped_of_step hP.1 hstep, (Safely.step hP.2 hstep).importing⟩,
        stepsLeft_step hP.1 hstep⟩
  refine ⟨?_, ?_⟩
  · have hle := s.control.stepsLeft_le
    omega
  · cases hend : s'.control.isEnd with
    | true => exact .inl rfl
    | false => exact .inr (exists_step hbound.1.2 hend)

/-- The service is shut down between two packets of the file. -/
theorem shutdown_returns_oneBackup :
    ∃ s s' as, ReachedBy (ImportService.step oneBackup) (fun _ _ => True) oneBackupStart s ∧
      RunsTo (ImportService.step oneBackup) (fun _ _ => True) s as s' ∧
      s'.control.isEnd = true ∧ as.countP ImportAction.isOwn ≤ 12 := by
  obtain ⟨s, hrun, hstopped⟩ : ∃ s, (offerBoth.append [.shutdown]).foldlM
      (ImportService.step oneBackup) oneBackupStart = some s ∧ s.running = false := ⟨_, rfl, rfl⟩
  obtain ⟨s', hrun', hend⟩ : ∃ s', (offerBoth.append [.shutdown]).foldlM
      (ImportService.step oneBackup) oneBackupStart >>= [.restoreFile .test,
        .restoreFile (.close true), .test, .endOfStream, .test].foldlM
          (ImportService.step oneBackup) = some s' ∧ s'.control.isEnd = true := ⟨_, rfl, rfl⟩
  rw [hrun] at hrun'
  have hreached : ReachedBy (ImportService.step oneBackup) (fun _ _ => True) oneBackupStart s :=
    ReachedBy.start.steps (fun _ _ _ => trivial) hrun
  have hruns : RunsTo (ImportService.step oneBackup) (fun _ _ => True) s _ s' :=
    RunsTo.start.steps (fun _ _ _ => trivial) hrun'
  exact ⟨s, s', _, hreached, hruns, hend, (shutdown_returns hreached hstopped hruns).1⟩

end AisStore
