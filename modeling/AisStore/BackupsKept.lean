import AisStore.ImportSteps

/-!
No backup file is ever lost.

While the import service runs, a file of the backup directory stays there,
with what was in it, or else the stage has accepted all of it, in order
(`fileKept`).
-/

namespace AisStore

open Lib

/-- The names a backup file may come to have. -/
inductive NameOf (cfg : ImportConfig) (path : String) : String → Prop where
  | self : NameOf cfg path path
  | unreadable {name : String} (h : NameOf cfg path name) (hzip : Archiver.isZip name = true)
      (taken : String → Bool) : NameOf cfg path (cfg.findUnique taken (name ++ ".unreadable"))

/-- The file that a call is working on is there, and the call hands it on. -/
def Importing (cfg : ImportConfig) (s : ImportService) : Prop :=
  match s.control with
  | .restoreFile _ path position accepted control =>
    Archiver.isZip path = true ∧ (∀ outcome, control ≠ .ended outcome) ∧
      ∃ packets, RestoreFile.Handing (cfg.call path) packets (s.call position accepted control)
  | .ifNotRunning _ path => (s.files path).isSome = true
  | _ => True

/-- What a step makes of a file: it stays, a backup file may be renamed, and
it is deleted only with all its packets accepted. -/
inductive Keeps (cfg : ImportConfig) (s s' : ImportService) (path : String)
    (packets : List AisPacket) : Prop where
  | stays (h : s'.files path = some packets)
  | renamed (hzip : Archiver.isZip path = true) (taken : String → Bool)
      (h : s'.files (cfg.findUnique taken (path ++ ".unreadable")) = some packets)
  | restored (hzip : Archiver.isZip path = true)
      (h : s'.restored = s.restored ++ [(path, packets)])

/-- What a step does: it keeps every file, and what was restored before. -/
structure Safely (cfg : ImportConfig) (s s' : ImportService) : Prop where
  importing : Importing cfg s'
  keeps : ∀ path packets, s.files path = some packets → Keeps cfg s s' path packets
  restored : s.restored <+: s'.restored

section
variable {cfg : ImportConfig} {s s' : ImportService}

/-- A file that comes into the directory leaves those that are there alone. -/
theorem kept_newFile {path : String} (hfree : s.files path = none) (packets : List AisPacket)
    (path' : String) (content : List AisPacket) (hcontent : s.files path' = some content) :
    Function.update s.files path (some packets) path' = some content := by
  have hne : path' ≠ path := by
    intro heq
    rw [heq, hfree] at hcontent
    cases hcontent
  exact (Function.update_of_ne hne ..).trans hcontent

/-- A step that goes somewhere else in `run`. -/
theorem Safely.goto {control : ImportControl}
    (h : Importing cfg (ImportService.goto s control)) :
    Safely cfg s (ImportService.goto s control) :=
  ⟨h, fun _ _ hfile => .stays hfile, List.prefix_rfl⟩

/-- What others do in between leaves `run` where it is. -/
theorem Safely.others (h : Importing cfg s) (hcontrol : s'.control = s.control)
    (hrunning : s'.running = true → s.running = true) (hrestored : s'.restored = s.restored)
    (hfiles : ∀ path content, s.files path = some content → s'.files path = some content) :
    Safely cfg s s' := by
  refine ⟨?_, fun path packets hfile => .stays (hfiles path packets hfile),
    hrestored ▸ List.prefix_rfl⟩
  unfold Importing at h ⊢
  rw [hcontrol]
  split at h
  · obtain ⟨hzip, hgoing, packets, hhanding⟩ := h
    exact ⟨hzip, hgoing, packets, hhanding.others rfl rfl rfl hrunning hfiles⟩
  · rename_i path _
    obtain ⟨packets, hfile⟩ := Option.isSome_iff_exists.mp h
    exact Option.isSome_iff_exists.mpr ⟨packets, hfiles path packets hfile⟩
  · trivial

/-- After a step of the call the call goes on, or `run` does. -/
theorem importing_resume {ds : Listing} {path : String} {r : Restore} {packets : List AisPacket}
    (hzip : Archiver.isZip path = true) (hhanding : RestoreFile.Handing (cfg.call path) packets r) :
    Importing cfg (s.resume ds path r) := by
  unfold Importing
  split
  · rename_i ds' path' position accepted control hcontrol
    simp only [ImportService.resume, ImportService.controlAfter] at hcontrol
    split at hcontrol
    · split at hcontrol <;> cases hcontrol
    · rename_i hgoing
      cases hcontrol
      exact ⟨hzip, hgoing, packets, hhanding⟩
  · rename_i hcontrol
    simp only [ImportService.resume, ImportService.controlAfter] at hcontrol
    split at hcontrol
    · split at hcontrol <;> cases hcontrol
    · cases hcontrol
  · trivial

theorem Safely.restoreFile {ds : Listing} {path : String} {r r' : Restore} {a : RestoreAction}
    {packets : List AisPacket} (hzip : Archiver.isZip path = true) (hfiles : r.files = s.files)
    (hgoing : ∀ outcome, r.control ≠ .ended outcome)
    (hhanding : RestoreFile.Handing (cfg.call path) packets r) (hown : a.isOwn = true)
    (hstep : RestoreFile.step (cfg.call path) r a = some r') :
    Safely cfg s (s.resume ds path r') := by
  have hhanding' : RestoreFile.Handing (cfg.call path) packets r' := hhanding.step hstep
  have hfile : s.files path = some packets := by
    rw [← hfiles]
    exact hhanding.file hgoing
  refine ⟨importing_resume hzip hhanding', fun name content hname => ?_, ?_⟩
  · cases touches_of_step hown hstep with
    | nothing _ hfiles' =>
        exact .stays (by rw [← hname, ← hfiles, ← hfiles']; rfl)
    | offered _ _ _ hfiles' =>
        exact .stays (by rw [← hname, ← hfiles, ← hfiles']; rfl)
    | deleted _ hcontrol hfiles' =>
        by_cases hsame : name = path
        · subst hsame
          refine .restored hzip ?_
          have haccepted : r'.accepted = packets := hhanding'.progress_eq hcontrol rfl
          have hcontent : content = packets := Option.some.inj (hname.symm.trans hfile)
          show (if r'.control = .ended .deleted then _ else _) = _
          rw [if_pos hcontrol, haccepted, hcontent]
        · refine .stays ?_
          show r'.files name = some content
          rw [hfiles', hfiles, ImportConfig.path_call, Function.update_of_ne hsame]
          exact hname
    | renamed _ hfree _ hfiles' =>
        by_cases hsame : name = path
        · subst hsame
          refine .renamed hzip (fun name => (r.files name).isSome) ?_
          show r'.files _ = some content
          rw [hfiles', ← hname, hfiles]
          exact Function.update_self ..
        · refine .stays ?_
          show r'.files name = some content
          have hother : name ≠ RestoreFile.unreadable (cfg.call path) r.files := by
            intro heq
            rw [← heq, hfiles, hname] at hfree
            cases hfree
          rw [hfiles', Function.update_of_ne hother, ImportConfig.path_call,
            Function.update_of_ne hsame, hfiles]
          exact hname
  · show s.restored <+: if r'.control = .ended .deleted then _ else _
    split
    · exact List.prefix_append ..
    · exact List.prefix_rfl

theorem Safely.step (h : Importing cfg s) {a : ImportAction}
    (hstep : ImportService.step cfg s a = some s') : Safely cfg s s' := by
  cases ImportService.steps_of_step hstep with
  | goes hgoes =>
      refine .goto ?_
      cases hgoes with
      | restores hcontrol _ hzip =>
          rw [Importing, hcontrol] at h
          obtain ⟨packets, hfile⟩ := Option.isSome_iff_exists.mp h
          exact ⟨hzip, by simp, packets, RestoreFile.handing_start hfile⟩
      | yielded _ _ hthere => exact hthere
      | _ => trivial
  | calls hcontrol hown hcall =>
      rw [Importing, hcontrol] at h
      obtain ⟨hzip, hgoing, packets, hhanding⟩ := h
      exact .restoreFile hzip rfl hgoing hhanding hown hcall
  | takesBatch _ => exact .others h rfl id rfl fun _ _ => id
  | delivers _ _ => exact .others h rfl id rfl fun _ _ => id
  | comes packets hfree => exact .others h rfl id rfl (kept_newFile hfree packets)
  | stops => exact .others h rfl (by simp) rfl fun _ _ => id

/-- What has become of a file since `s`. -/
structure KeptSince (cfg : ImportConfig) (s : ImportService) (path : String)
    (packets : List AisPacket) (s' : ImportService) : Prop where
  importing : Importing cfg s'
  restored : s.restored <+: s'.restored
  kept : ∃ name, NameOf cfg path name ∧ (s'.files name = some packets ∨
    Archiver.isZip name = true ∧ (name, packets) ∈ s'.restored.drop s.restored.length)
  other : Archiver.isZip path = false → s'.files path = some packets

theorem KeptSince.step {s₀ : ImportService} {path : String} {packets : List AisPacket}
    (h : KeptSince cfg s₀ path packets s) {a : ImportAction}
    (hstep : ImportService.step cfg s a = some s') : KeptSince cfg s₀ path packets s' := by
  have hsafely : Safely cfg s s' := .step h.importing hstep
  have hlength : s₀.restored.length ≤ s.restored.length := h.restored.length_le
  refine ⟨hsafely.importing, h.restored.trans hsafely.restored, ?_, fun hzip => ?_⟩
  · obtain ⟨name, hname, hthere | ⟨hzip, hrestored⟩⟩ := h.kept
    · cases hsafely.keeps name packets hthere with
      | stays h => exact ⟨name, hname, .inl h⟩
      | renamed hzip taken h => exact ⟨_, hname.unreadable hzip taken, .inl h⟩
      | restored hzip h =>
          refine ⟨name, hname, .inr ⟨hzip, ?_⟩⟩
          rw [h, List.drop_append_of_le_length hlength]
          exact List.mem_append_right _ (List.mem_singleton.mpr rfl)
    · obtain ⟨later, hlater⟩ := hsafely.restored
      refine ⟨name, hname, .inr ⟨hzip, ?_⟩⟩
      rw [← hlater, List.drop_append_of_le_length hlength]
      exact List.mem_append_left _ hrestored
  · cases hsafely.keeps path packets (h.other hzip) with
    | stays h => exact h
    | renamed hzip' _ _ =>
        rw [hzip] at hzip'
        cases hzip'
    | restored hzip' _ =>
        rw [hzip] at hzip'
        cases hzip'

end

/-- A file of two packets in the backup directory, and a queue with room for two. -/
def oneBackup : ImportConfig := ⟨1, 2, fun _ name => name⟩

def oneBackupStart : ImportService :=
  .start [] (Function.update (fun _ => none) "backup.zip"
    (some [⟨"!AIVDM,1,1,,A,13"⟩, ⟨"!AIVDM,1,1,,A,55"⟩]))

/-- The service finds the file, and its packets are accepted. -/
def offerBoth : List ImportAction :=
  [.createDirectories true, .test, .sleep true, .getNumberOfOutstandingPackets, .ifExists true,
    .newDirectoryStream true, .next "backup.zip", .test, .restoreFile (.createFromFile true),
    .restoreFile (.readPacket true), .restoreFile .test,
    .restoreFile .getNumberOfOutstandingPackets, .restoreFile .offer, .restoreFile .test,
    .restoreFile (.readPacket true), .restoreFile .test,
    .restoreFile .getNumberOfOutstandingPackets, .restoreFile .offer]

end AisStore
