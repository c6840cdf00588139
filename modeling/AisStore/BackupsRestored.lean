import AisStore.ImportShutdown

/-!
What the import service gets done.

`BackupsKept` says what never happens to a backup file. Here nothing goes
wrong with the files: they can be opened, read, closed and deleted, no sleep
between two packets is interrupted, and the service is not shut down. Then
each backup file that the directory stream yields is restored, one after the
other, complete, and no other file is (`backups_restored`). How long a call
takes is bounded by the packets of its file and by how often it has to wait.
-/

namespace AisStore

open Lib

/-! ### One call -/

def RestoreAction.isSleep : RestoreAction → Bool
  | .sleep _ => true
  | _ => false

/-- How many more steps the call takes if it does not have to wait, with as
many packets of the file still to be read. -/
@[simp] def RestoreControl.stepsToDelete (unread : ℕ) : RestoreControl → ℕ
  | .createFromFile => 5 * unread + 4
  | .readPacket => 5 * unread + 3
  | .whileRunning _ => 5 * unread + 7
  | .getNumberOfOutstandingPackets _ => 5 * unread + 6
  | .offer _ => 5 * unread + 5
  -- the three steps back to the offer are paid for by the sleep
  | .sleep _ => 5 * unread + 4
  | .ifNotRunning => 5 * unread + 4
  | .close _ => 2
  | .delete => 1
  | .moveUnreadable => 0
  | .ended _ => 0

/-- What a step of a call does that succeeds: the file is deleted, or it is
where it was and the call goes on. -/
structure Advances (cfg : RestoreConfig) (packets : List AisPacket) (r : Restore)
    (a : RestoreAction) (r' : Restore) : Prop where
  isFine : r'.control.isFine = true
  ended : r'.control = .ended .deleted ∨
    (∀ outcome, r'.control ≠ .ended outcome) ∧ r'.files = r.files
  nearer : r'.control.stepsToDelete (packets.length - r'.position) + 1 ≤
    r.control.stepsToDelete (packets.length - r.position) + if a.isSleep then 4 else 0

section
variable {cfg : RestoreConfig} {packets : List AisPacket} {r r' : Restore} {a : RestoreAction}

/-- A step that only moves on in the call. -/
theorem Advances.goto {control : RestoreControl} (hfine : control.isFine = true)
    (hgoing : ∀ outcome, control ≠ .ended outcome)
    (hnearer : control.stepsToDelete (packets.length - r.position) + 1 ≤
      r.control.stepsToDelete (packets.length - r.position) + if a.isSleep then 4 else 0) :
    Advances cfg packets r a (RestoreFile.goto r control) :=
  ⟨hfine, .inr ⟨hgoing, rfl⟩, hnearer⟩

theorem advances_of_step (hown : a.isOwn = true) (hsucceeds : a.succeeds = true)
    (hrunning : r.running = true) (hfine : r.control.isFine = true)
    (hfile : r.files cfg.path = some packets) (hstep : RestoreFile.step cfg r a = some r') :
    Advances cfg packets r a r' := by
  cases RestoreFile.steps_of_step hown hstep with
  | goes h =>
      cases h with
      | stopped _ hstopped => cases hstopped.symm.trans hrunning
      | breaksOff _ hstopped => cases hstopped.symm.trans hrunning
      | closedEarly hcontrol =>
          rw [hcontrol] at hfine
          cases hfine
      | notCreated _ => cases hsucceeds
      | notRead _ => cases hsucceeds
      | interrupted _ => cases hsucceeds
      | notClosed _ => cases hsucceeds
      | notDeleted _ => cases hsucceeds
      | notRenamed _ => cases hsucceeds
      | _ hcontrol => exact .goto rfl (by simp) (by simp [hcontrol, RestoreAction.isSleep])
  | read hcontrol hpacket =>
      rw [hfile, Option.getD_some] at hpacket
      have hmore : r.position < packets.length := (List.getElem?_eq_some_iff.mp hpacket).1
      refine ⟨rfl, .inr ⟨by simp, rfl⟩, ?_⟩
      rw [hcontrol]
      simp only [RestoreControl.stepsToDelete]
      omega
  | offered hcontrol _ => exact ⟨rfl, .inr ⟨by simp, rfl⟩, by simp [hcontrol]⟩
  | deleted hcontrol => exact ⟨rfl, .inl rfl, by simp [hcontrol]⟩
  | renamed _ _ => cases hsucceeds

end

/-! ### The calls one after the other -/

/-- Nothing fails in a call, and nobody shuts the service down. -/
def ImportAction.succeeds : ImportAction → Bool
  | .restoreFile a => a.succeeds
  | .shutdown => false
  | _ => true

def ImportAction.isCallStep : ImportAction → Bool
  | .restoreFile _ => true
  | _ => false

def ImportAction.isCallSleep : ImportAction → Bool
  | .restoreFile a => a.isSleep
  | _ => false

/-- The directory stream has yielded no file that has not been looked at. -/
def ImportControl.isIdle : ImportControl → Bool
  | .ifNotRunning _ _ => false
  | .restoreFile _ _ _ _ _ => false
  | _ => true

namespace ImportService

/-- The backup file at that name, with its packets. -/
def backup (s : ImportService) (path : String) : String × List AisPacket :=
  (path, (s.files path).getD [])

/-- The backup file that the directory stream has yielded and that has not
been restored yet. -/
def underWay (s : ImportService) : List (String × List AisPacket) :=
  match s.control with
  | .ifNotRunning _ path => if Archiver.isZip path then [s.backup path] else []
  | .restoreFile _ path _ _ _ => [s.backup path]
  | _ => []

/-- How many more steps its call takes if it does not have to wait. -/
def stepsToDelete (s : ImportService) : ℕ :=
  match s.control with
  | .ifNotRunning _ path =>
    if Archiver.isZip path then 5 * (s.backup path).2.length + 4 else 0
  | .restoreFile _ path position _ control =>
    control.stepsToDelete ((s.backup path).2.length - position)
  | _ => 0

/-- The backup file that the directory stream yields with an action. -/
def yields (s : ImportService) : ImportAction → List (String × List AisPacket)
  | .next path => if Archiver.isZip path then [s.backup path] else []
  | _ => []

/-- The backup files that the directory stream yields in a run, each with
the packets it has then. -/
def backupsSeen (cfg : ImportConfig) :
    ImportService → List ImportAction → List (String × List AisPacket) :=
  recorded (step cfg) yields

end ImportService

/-- Nothing has failed in the call that is under way. -/
def Fine (s : ImportService) : Prop :=
  match s.control with
  | .restoreFile _ _ _ _ control => control.isFine = true
  | _ => True

/-- How many steps a call for the file takes. -/
def callSteps (backup : String × List AisPacket) : ℕ := 5 * backup.2.length + 4

/-- What a step does to the backup files, and to what is left of the call. -/
structure Restores (s : ImportService) (a : ImportAction) (s' : ImportService) : Prop where
  running : s'.running = true
  fine : Fine s'
  restored : s'.restored ++ s'.underWay = s.restored ++ s.underWay ++ s.yields a
  steps : s'.stepsToDelete + (if a.isCallStep then 1 else 0) ≤
    s.stepsToDelete + ((s.yields a).map callSteps).sum + if a.isCallSleep then 4 else 0

section
variable {cfg : ImportConfig} {s s' : ImportService}

/-- Then there is nothing left to do for a file. -/
theorem of_isIdle (h : s.control.isIdle = true) :
    Fine s ∧ s.underWay = [] ∧ s.stepsToDelete = 0 := by
  unfold Fine ImportService.underWay ImportService.stepsToDelete
  cases hcontrol : s.control with
  | ifNotRunning ds path =>
      rw [hcontrol] at h
      cases h
  | restoreFile ds path position accepted control =>
      rw [hcontrol] at h
      cases h
  | _ => exact ⟨trivial, rfl, rfl⟩

/-- The file that a call is working on, as it is. -/
theorem backup_eq {path : String} {packets : List AisPacket} (h : s.files path = some packets) :
    s.backup path = (path, packets) := by
  rw [ImportService.backup, h]
  rfl

/-- A step that goes somewhere else in `run`, with no file under way. -/
theorem Restores.goto {control : ImportControl} {a : ImportAction} (hrunning : s.running = true)
    (hbefore : s.control.isIdle = true) (hafter : control.isIdle = true)
    (hyields : s.yields a = []) (hcall : a.isCallStep = false) :
    Restores s a (ImportService.goto s control) := by
  obtain ⟨-, hnone, -⟩ := of_isIdle hbefore
  obtain ⟨hfine, hnone', hsteps⟩ :=
    of_isIdle (show (ImportService.goto s control).control.isIdle = true from hafter)
  refine ⟨hrunning, hfine, ?_, ?_⟩
  · rw [hyields, hnone, hnone']
    simp only [List.append_nil]
    rfl
  · rw [hcall, hsteps]
    exact Nat.zero_le _

/-- What others do in between leaves the file under way where it is. -/
theorem Restores.others {a : ImportAction} (himporting : Importing cfg s) (hfine : Fine s)
    (hrunning : s.running = true) (hyields : s.yields a = []) (hcall : a.isCallStep = false)
    (hcontrol : s'.control = s.control) (hrunning' : s'.running = s.running)
    (hrestored : s'.restored = s.restored)
    (hfiles : ∀ path content, s.files path = some content → s'.files path = some content) :
    Restores s a s' := by
  have hbackup : ∀ path, (s.files path).isSome = true → s'.backup path = s.backup path := by
    intro path h
    obtain ⟨packets, hfile⟩ := Option.isSome_iff_exists.mp h
    rw [backup_eq hfile, backup_eq (hfiles path packets hfile)]
  have hsame : s'.underWay = s.underWay ∧ s'.stepsToDelete = s.stepsToDelete := by
    unfold ImportService.underWay ImportService.stepsToDelete
    rw [hcontrol]
    unfold Importing at himporting
    split at himporting
    · rename_i ds path position accepted control hcall'
      obtain ⟨-, hgoing, packets, hhanding⟩ := himporting
      have hfile : s.files path = some packets := hhanding.file hgoing
      simp only [hcall', hbackup path (Option.isSome_iff_exists.mpr ⟨packets, hfile⟩), and_self]
    · rename_i hnext
      simp only [hnext, hbackup _ himporting, and_self]
    · rename_i hcall' hnext
      split
      · rename_i heq
        exact absurd heq (hnext _ _)
      · rename_i heq
        exact absurd heq (hcall' _ _ _ _ _)
      · exact ⟨rfl, rfl⟩
  refine ⟨hrunning'.trans hrunning, ?_, ?_, ?_⟩
  · unfold Fine at hfine ⊢
    rwa [hcontrol]
  · rw [hyields, hsame.1, hrestored, List.append_nil]
  · rw [hcall, hsame.2]
    exact Nat.le_add_right_of_le (Nat.le_add_right ..)

/-- A step of the call: the file is restored, or the call goes on with it. -/
theorem Restores.restoreFile {ds : Listing} {path : String} {position : ℕ}
    {accepted packets : List AisPacket} {control : RestoreControl} {r : Restore}
    {a : RestoreAction} (hrunning : s.running = true)
    (hcontrol : s.control = .restoreFile ds path position accepted control)
    (hgoing : ∀ outcome, control ≠ .ended outcome) (hfine : control.isFine = true)
    (hhanding : RestoreFile.Handing (cfg.call path) packets (s.call position accepted control))
    (hown : a.isOwn = true) (hsucceeds : a.succeeds = true)
    (hstep : RestoreFile.step (cfg.call path) (s.call position accepted control) a = some r) :
    Restores s (.restoreFile a) (s.resume ds path r) := by
  have hfile : s.files path = some packets := hhanding.file hgoing
  have hrunning' : r.running = true := (running_of_step hown hstep).trans hrunning
  have hadvances : Advances (cfg.call path) packets (s.call position accepted control) a r :=
    advances_of_step hown hsucceeds hrunning hfine hfile hstep
  have hnearer := hadvances.nearer
  have hbefore : s.underWay = [(path, packets)] ∧
      s.stepsToDelete = control.stepsToDelete (packets.length - position) := by
    simp only [ImportService.underWay, ImportService.stepsToDelete, hcontrol, backup_eq hfile,
      and_self]
  rcases hadvances.ended with hended | ⟨hgoing', hfiles⟩
  · have haccepted : r.accepted = packets := (hhanding.step hstep).progress_eq hended rfl
    have hidle : (s.resume ds path r).control.isIdle = true := by
      simp only [ImportService.resume, ImportService.controlAfter, hended]
      split
      · rfl
      · rfl
    obtain ⟨hfine', hnone, hsteps⟩ := of_isIdle hidle
    refine ⟨hrunning', hfine', ?_, ?_⟩
    · have hrestored : (s.resume ds path r).restored = s.restored ++ [(path, r.accepted)] :=
        if_pos hended
      rw [hrestored, hnone, hbefore.1, haccepted]
      simp only [ImportService.yields, List.append_nil]
    · rw [hsteps, hbefore.2]
      show 0 + 1 ≤ control.stepsToDelete (packets.length - position) + 0 +
        if a.isSleep then 4 else 0
      have hle : 1 ≤ control.stepsToDelete (packets.length - position) +
          if a.isSleep then 4 else 0 := le_trans (Nat.le_add_left ..) hnearer
      omega
  · have hnotDeleted : r.control ≠ .ended .deleted := hgoing' .deleted
    have hafter : (s.resume ds path r).control =
        .restoreFile ds path r.position r.accepted r.control := by
      show ImportService.controlAfter ds path r = _
      unfold ImportService.controlAfter
      split
      · rename_i heq
        exact absurd heq (hgoing' _)
      · rfl
    have hfile' : (s.resume ds path r).files path = some packets := by
      show r.files path = _
      rw [hfiles]
      exact hfile
    refine ⟨hrunning', ?_, ?_, ?_⟩
    · rw [Fine, hafter]
      exact hadvances.isFine
    · have hrestored : (s.resume ds path r).restored = s.restored := if_neg hnotDeleted
      rw [hrestored, hbefore.1]
      simp only [ImportService.underWay, hafter, backup_eq hfile', ImportService.yields,
        List.append_nil]
    · rw [hbefore.2]
      simp only [ImportService.stepsToDelete, hafter, backup_eq hfile']
      exact hnearer

/-- A backup file that was yielded is going to be restored. -/
theorem Restores.startCall {ds : Listing} {path : String} (hrunning : s.running = true)
    (hcontrol : s.control = .ifNotRunning ds path) (hzip : Archiver.isZip path = true) :
    Restores s .test
      (ImportService.goto s (.restoreFile ds path 0 [] .createFromFile)) := by
  refine ⟨hrunning, rfl, ?_, ?_⟩
  · simp only [ImportService.underWay, ImportService.goto, hcontrol, if_pos hzip,
      ImportService.yields, List.append_nil]
    rfl
  · simp only [ImportService.stepsToDelete, ImportService.goto, hcontrol, if_pos hzip]
    exact Nat.le_refl _

/-- A file that is no backup file is passed over. -/
theorem Restores.passOver {ds : Listing} {path : String} (hrunning : s.running = true)
    (hcontrol : s.control = .ifNotRunning ds path) (hother : Archiver.isZip path = false) :
    Restores s .test (ImportService.goto s (.next ds)) := by
  refine ⟨hrunning, trivial, ?_, Nat.zero_le _⟩
  simp only [ImportService.underWay, ImportService.goto, hcontrol, hother, Bool.false_eq_true,
    if_false, ImportService.yields, List.append_nil]

/-- The directory stream yields a file. -/
theorem Restores.next {ds ds' : Listing} {path : String} (hrunning : s.running = true)
    (hcontrol : s.control = .next ds) :
    Restores s (.next path) (ImportService.goto s (.ifNotRunning ds' path)) := by
  obtain ⟨-, hnone, -⟩ := of_isIdle (s := s) (by rw [hcontrol]; rfl)
  refine ⟨hrunning, trivial, ?_, ?_⟩
  · rw [hnone, List.append_nil]
    rfl
  · simp only [ImportService.stepsToDelete, ImportService.goto, ImportService.yields]
    split
    · simp only [List.map_cons, List.map_nil, List.sum_cons, List.sum_nil, callSteps]
      exact Nat.le_add_left ..
    · exact Nat.zero_le _

theorem Restores.step (himporting : Importing cfg s) (hfine : Fine s)
    (hrunning : s.running = true) {a : ImportAction} (hsucceeds : a.succeeds = true)
    (hstep : ImportService.step cfg s a = some s') : Restores s a s' := by
  cases ImportService.steps_of_step hstep with
  | goes hgoes =>
      cases hgoes with
      | restores hcontrol _ hzip => exact .startCall hrunning hcontrol hzip
      | passesOver hcontrol _ hother => exact .passOver hrunning hcontrol hother
      | breaksOff _ hstopped => cases hstopped.symm.trans hrunning
      | yielded hcontrol _ _ => exact .next hrunning hcontrol
      | _ hcontrol => exact .goto hrunning (by rw [hcontrol]; rfl) rfl rfl rfl
  | calls hcontrol hown hcall =>
      rw [Importing, hcontrol] at himporting
      obtain ⟨-, hgoing, packets, hhanding⟩ := himporting
      rw [Fine, hcontrol] at hfine
      exact .restoreFile hrunning hcontrol hgoing hfine hhanding hown hsucceeds hcall
  | takesBatch _ => exact .others himporting hfine hrunning rfl rfl rfl rfl rfl fun _ _ => id
  | delivers _ _ => exact .others himporting hfine hrunning rfl rfl rfl rfl rfl fun _ _ => id
  | comes packets hfree =>
      exact .others himporting hfine hrunning rfl rfl rfl rfl rfl (kept_newFile hfree packets)
  | stops => cases hsucceeds

/-- What a run has done for the backup files that were yielded in it. -/
structure RestoredSince (cfg : ImportConfig) (s : ImportService) (as : List ImportAction)
    (s' : ImportService) : Prop where
  importing : Importing cfg s'
  fine : Fine s'
  running : s'.running = true
  restored : s'.restored ++ s'.underWay = s.restored ++ ImportService.backupsSeen cfg s as
  steps : as.countP ImportAction.isCallStep + s'.stepsToDelete ≤
    ((ImportService.backupsSeen cfg s as).map callSteps).sum +
      4 * as.countP ImportAction.isCallSleep

/-- The run lemma, by what each step restores. -/
theorem restoredSince {s₀ : ImportService} {as : List ImportAction} (himporting : Importing cfg s₀)
    (hrunning : s₀.running = true) (hidle : s₀.control.isIdle = true)
    (h : RunsTo (ImportService.step cfg) (fun _ a => a.succeeds = true) s₀ as s) :
    RestoredSince cfg s₀ as s := by
  obtain ⟨hfine, hnone, hsteps⟩ := of_isIdle hidle
  induction h with
  | start => exact ⟨himporting, hfine, hrunning, by rw [hnone]; rfl, by rw [hsteps]; rfl⟩
  | next hrun a hsucceeds hstep ih =>
      have hone := Restores.step ih.importing ih.fine ih.running hsucceeds hstep
      have hseen := hrun.recorded_concat ImportService.yields a
      have hcount := hone.steps
      have hbefore := ih.steps
      refine ⟨(Safely.step ih.importing hstep).importing, hone.fine, hone.running, ?_, ?_⟩
      · rw [hone.restored, ih.restored, ImportService.backupsSeen, hseen, List.append_assoc]
      · rw [ImportService.backupsSeen, hseen]
        rw [ImportService.backupsSeen] at hbefore
        have hfour : 4 * (if a.isCallSleep = true then 1 else 0) =
            if a.isCallSleep = true then 4 else 0 := by
          split
          · rfl
          · rfl
        simp only [List.countP_append, List.countP_singleton, List.map_append, List.sum_append,
          Nat.mul_add, hfour]
        omega

end

/-- As long as nothing fails with the files and the service is not shut down:
the files restored, with all their packets, are those that the directory
stream has yielded, one after the other, and the last of them may still be
under way. For each of its packets a call takes five steps, and four more
each time it has to wait; and it need never stop. -/
theorem backups_restored {cfg : ImportConfig} {inputQueue : List AisPacket}
    {files : String → Option (List AisPacket)} {s s' : ImportService} {as : List ImportAction}
    (hs : ReachedBy (ImportService.step cfg) (fun _ _ => True)
      (ImportService.start inputQueue files) s)
    (hrunning : s.running = true) (hidle : s.control.isIdle = true)
    (h : RunsTo (ImportService.step cfg) (fun _ a => a.succeeds = true) s as s') :
    s'.restored ++ s'.underWay = s.restored ++ ImportService.backupsSeen cfg s as ∧
      as.countP ImportAction.isCallStep + s'.stepsToDelete ≤
        ((ImportService.backupsSeen cfg s as).map callSteps).sum +
          4 * as.countP ImportAction.isCallSleep ∧
      (s'.underWay ≠ [] →
        ∃ a s'', a.isOwn = true ∧ a.succeeds = true ∧ ImportService.step cfg s' a = some s'') := by
  have himporting : Importing cfg s :=
    hs.invariant trivial fun _ _ _ _ hstep h => (Safely.step h hstep).importing
  have hsince := restoredSince himporting hrunning hidle h
  refine ⟨hsince.restored, hsince.steps, fun hunder => ?_⟩
  have hbusy : s'.control.isIdle = false := by
    by_contra hnot
    exact hunder (of_isIdle (by simpa using hnot)).2.1
  cases hcontrol : s'.control with
  | ifNotRunning ds path =>
      exact ⟨.test, _, rfl, rfl, by rw [ImportService.step, hcontrol]⟩
  | restoreFile ds path position accepted control =>
      have hcalling := hsince.importing
      have hfine := hsince.fine
      rw [Importing, hcontrol] at hcalling
      rw [Fine, hcontrol] at hfine
      obtain ⟨a, r, hown, hsucceeds, hcall⟩ := @exists_step_call (cfg.call path)
        (s'.call position accepted control) hcalling.2.1
      exact ⟨.restoreFile a, s'.resume ds path r, rfl, hsucceeds hfine, by
        simp only [ImportService.step, hcontrol, if_pos hown, hcall, Option.map_some]⟩
  | _ =>
      rw [hcontrol] at hbusy
      cases hbusy

/-- The call for the file, from its first packet to the delete. -/
def restoreBoth : List ImportAction :=
  offerBoth.append [.restoreFile .test, .restoreFile (.readPacket true),
    .restoreFile (.close true), .restoreFile (.delete true)]

/-- Both packets of the file are offered at once. -/
theorem backups_restored_oneBackup :
    ∃ s, RunsTo (ImportService.step oneBackup) (fun _ a => a.succeeds = true)
        oneBackupStart restoreBoth s ∧
      s.restored ++ s.underWay = [("backup.zip", [⟨"!AIVDM,1,1,,A,13"⟩, ⟨"!AIVDM,1,1,,A,55"⟩])] ∧
      restoreBoth.countP ImportAction.isCallStep + s.stepsToDelete ≤ 14 := by
  obtain ⟨s, hrun⟩ : ∃ s,
      restoreBoth.foldlM (ImportService.step oneBackup) oneBackupStart = some s := ⟨_, rfl⟩
  have hsucceed : ∀ a ∈ restoreBoth, ImportAction.succeeds a = true := by decide
  have hruns : RunsTo (ImportService.step oneBackup) (fun _ a => a.succeeds = true)
      oneBackupStart restoreBoth s := RunsTo.start.steps (fun a ha _ => hsucceed a ha) hrun
  have hseen : ImportService.backupsSeen oneBackup oneBackupStart restoreBoth =
    [("backup.zip", [⟨"!AIVDM,1,1,,A,13"⟩, ⟨"!AIVDM,1,1,,A,55"⟩])] := rfl
  have hstart : ReachedBy (ImportService.step oneBackup) (fun _ _ => True) oneBackupStart
      oneBackupStart := .start
  obtain ⟨hrestored, hsteps, -⟩ := backups_restored hstart rfl rfl hruns
  exact ⟨s, hruns, hrestored.trans hseen, hsteps⟩

end AisStore
