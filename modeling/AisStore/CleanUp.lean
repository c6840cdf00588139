import AisStore.Downloader

/-!
`cleanUpRepoFolder`, when nothing else changes the files.

The walk deletes while it goes: a file that has expired when it is visited,
and a directory that is empty when it is left. What is left of a directory
then depends on what the walk has done below it. `Pruned` says what has
become of the paths the walk has been through: whatever has no fresh file at
or below it is gone, and nothing else has changed. It holds of a subtree by
induction on the depth of the tree, from the same for the children one after
another (`pruned_children`).
-/

namespace AisStore

open Lib

namespace QueryService

/-- A file at this path, or somewhere below it, has not expired. -/
def HasFresh (fs : FileSystem) (expiredTime : ℤ) (p : Path) : Prop :=
  ∃ r i, p <+: r ∧ fs.lookup r = some (.file i) ∧ expiredTime ≤ (fs.data i).modified

/-- Of these paths, those without a fresh file are gone, except the root. -/
structure Pruned (root : Path) (expiredTime : ℤ) (fs : FileSystem) (visited : Path → Prop)
    (fs' : FileSystem) : Prop where
  data : fs'.data = fs.data
  gone : ∀ r, visited r → r ≠ root → ¬ HasFresh fs expiredTime r → fs'.lookup r = none
  kept : ∀ r, ¬ visited r ∨ r = root ∨ HasFresh fs expiredTime r → fs'.lookup r = fs.lookup r

namespace Pruned

variable {root : Path} {expiredTime : ℤ} {fs fs' fs'' : FileSystem} {visited visited' : Path → Prop}

theorem refl (root : Path) (expiredTime : ℤ) (fs : FileSystem) :
    Pruned root expiredTime fs (fun _ => False) fs :=
  ⟨rfl, fun _ h => h.elim, fun _ _ => rfl⟩

theorem lookup_eq (h : Pruned root expiredTime fs visited fs') (r : Path) :
    fs'.lookup r = fs.lookup r ∨
      fs'.lookup r = none ∧ visited r ∧ r ≠ root ∧ ¬ HasFresh fs expiredTime r := by
  by_cases hgone : visited r ∧ r ≠ root ∧ ¬ HasFresh fs expiredTime r
  · exact .inr ⟨h.gone r hgone.1 hgone.2.1 hgone.2.2, hgone⟩
  · refine .inl (h.kept r ?_)
    tauto

theorem lookup_of_some (h : Pruned root expiredTime fs visited fs') {r : Path} {e : DirEntry}
    (hr : fs'.lookup r = some e) : fs.lookup r = some e := by
  rcases h.lookup_eq r with hsame | ⟨hnone, -⟩
  · exact hsame.symm.trans hr
  · cases hnone.symm.trans hr

/-- The fresh files are still there. -/
theorem hasFresh_iff (h : Pruned root expiredTime fs visited fs') (r : Path) :
    HasFresh fs' expiredTime r ↔ HasFresh fs expiredTime r := by
  constructor
  · rintro ⟨r', i, hunder, hfile, hfresh⟩
    exact ⟨r', i, hunder, h.lookup_of_some hfile, h.data ▸ hfresh⟩
  · rintro ⟨r', i, hunder, hfile, hfresh⟩
    have hkept := h.kept r' (.inr (.inr ⟨r', i, List.prefix_rfl, hfile, hfresh⟩))
    exact ⟨r', i, hunder, hkept.trans hfile, h.data.symm ▸ hfresh⟩

theorem trans (h : Pruned root expiredTime fs visited fs')
    (h' : Pruned root expiredTime fs' visited' fs'') :
    Pruned root expiredTime fs (fun r => visited r ∨ visited' r) fs'' := by
  refine ⟨h'.data.trans h.data, ?_, ?_⟩
  · rintro r (hvisited | hvisited) hroot hstale
    · have hnone := h.gone r hvisited hroot hstale
      rcases h'.lookup_eq r with hsame | ⟨hgone, -⟩
      · exact hsame.trans hnone
      · exact hgone
    · exact h'.gone r hvisited hroot (fun hfresh => hstale ((h.hasFresh_iff r).mp hfresh))
  · intro r hr
    rw [h'.kept r, h.kept r]
    · tauto
    · rw [h.hasFresh_iff]
      tauto

theorem congr (h : Pruned root expiredTime fs visited fs')
    (hiff : ∀ r, visited r → visited' r)
    (hnone : ∀ r, visited' r → ¬ visited r → fs.lookup r = none) :
    Pruned root expiredTime fs visited' fs' := by
  refine ⟨h.data, ?_, ?_⟩
  · intro r hvisited' hroot hstale
    by_cases hvisited : visited r
    · exact h.gone r hvisited hroot hstale
    · rw [h.kept r (.inl hvisited), hnone r hvisited' hvisited]
  · intro r hr
    exact h.kept r (hr.imp_left fun hnot hvisited => hnot (hiff r hvisited))

/-- What is left is a tree, if with a path everything below it was visited. -/
theorem isTree (h : Pruned root expiredTime fs visited fs') (htree : fs.IsTree)
    (hbelow : ∀ r name, visited r → root <+: r ∧ visited (r ++ [name])) : fs'.IsTree := by
  intro r name hsome
  obtain ⟨e, he⟩ := Option.isSome_iff_exists.mp hsome
  have hdirectory : fs.lookup r = some .directory :=
    htree r name (by rw [h.lookup_of_some he]; rfl)
  rcases h.lookup_eq r with hsame | ⟨-, hvisited, hroot, hstale⟩
  · exact hsame.trans hdirectory
  · -- then what is below has gone too
    obtain ⟨hunder, hvisited'⟩ := hbelow r name hvisited
    have hne : r ++ [name] ≠ root := by
      rintro heq
      have hlength := hunder.length_le
      rw [← heq, List.length_append, List.length_singleton] at hlength
      omega
    have hnone := h.gone (r ++ [name]) hvisited' hne (by
      rintro ⟨r', i, hunder', hfile⟩
      exact hstale ⟨r', i, (List.prefix_append r [name]).trans hunder', hfile⟩)
    cases hnone.symm.trans he

end Pruned

/-! ### The walk -/

/-- The state of the walk, which is the task at place `i`. -/
def walking (s : Repo) (i : ℕ) (expiredTime : ℤ) (fs : FileSystem) (visits : List Visit) : Repo :=
  { s with fs := fs }.setTask i (.walkFileTree (.deleteExpired expiredTime) visits)

/-- Only the walk has taken steps. -/
def Walked (q : QueryService) (i : ℕ) (s s' : Repo) : Prop :=
  ∃ n, (List.replicate n (Action.visit i [])).foldlM q.step s = some s'

variable {q : QueryService} {s s' : Repo} {i : ℕ} {expiredTime : ℤ} {fs fs' : FileSystem}
  {p : Path} {v : Visit} {visits rest : List Visit}

theorem Walked.refl (s : Repo) : Walked q i s s := ⟨0, rfl⟩

theorem Walked.trans {s'' : Repo} (h : Walked q i s s') (h' : Walked q i s' s'') :
    Walked q i s s'' := by
  obtain ⟨n, hn⟩ := h
  obtain ⟨m, hm⟩ := h'
  refine ⟨n + m, ?_⟩
  rw [← List.replicate_append_replicate, List.foldlM_append, hn]
  exact hm

theorem step_walking (hi : i < s.tasks.length) :
    q.step (walking s i expiredTime fs visits) (.visit i []) =
      some
        (q.visit (walking s i expiredTime fs visits) i (.deleteExpired expiredTime) [] visits) := by
  have htask : (walking s i expiredTime fs visits).tasks[i]? =
      some (.walkFileTree (.deleteExpired expiredTime) visits) :=
    List.getElem?_set_self hi
  simp only [step, htask]

/-- One visit, which may add others. -/
theorem walked_visitNext (hi : i < s.tasks.length)
    (h : q.visitNext (walking s i expiredTime fs (v :: rest)) (.deleteExpired expiredTime) [] v =
      some ({ walking s i expiredTime fs (v :: rest) with fs := fs' }, visits)) :
    Walked q i (walking s i expiredTime fs (v :: rest))
      (walking s i expiredTime fs' (visits ++ rest)) := by
  refine ⟨1, ?_⟩
  have hvisit : q.visit (walking s i expiredTime fs (v :: rest)) i (.deleteExpired expiredTime) []
      (v :: rest) = walking s i expiredTime fs' (visits ++ rest) := by
    rw [visit, h]
    simp [walking, Repo.setTask]
  show (q.step _ _).bind _ = _
  rw [step_walking hi, hvisit]
  rfl

theorem walked_directory (hi : i < s.tasks.length) (hp : fs.lookup p = some .directory) :
    Walked q i (walking s i expiredTime fs (.entry p :: rest))
      (walking s i expiredTime fs ((fs.children p).map .entry ++ (.leave p :: rest))) := by
  have hnext := @walked_visitNext q s i expiredTime fs fs (.entry p)
    ((fs.children p).map .entry ++ [.leave p]) rest hi
  rw [List.append_assoc] at hnext
  refine hnext ?_
  have hlookup : (walking s i expiredTime fs (.entry p :: rest)).fs.lookup p = some .directory := hp
  simp only [visitNext, hlookup, List.map_nil, List.append_nil]
  rfl

theorem walked_file (hi : i < s.tasks.length) {inode : ℕ} (hp : fs.lookup p = some (.file inode)) :
    Walked q i (walking s i expiredTime fs (.entry p :: rest))
      (walking s i expiredTime
        (if (fs.data inode).modified < expiredTime then fs.dropName p else fs) rest) := by
  refine @walked_visitNext q s i expiredTime fs _ (.entry p) [] rest hi ?_
  have hlookup : (walking s i expiredTime fs (.entry p :: rest)).fs.lookup p =
      some (.file inode) := hp
  have hdelete : (walking s i expiredTime fs (.entry p :: rest)).fs.delete p =
      some (fs.dropName p) := by
    simp only [FileSystem.delete, hlookup]
    rfl
  simp only [visitNext, hlookup, visitFile, hdelete]
  show Option.map _ (if (fs.data inode).modified < expiredTime then _ else _) = _
  split <;> rfl

theorem walked_leave (hi : i < s.tasks.length) (hp : fs.lookup p = some .directory) :
    Walked q i (walking s i expiredTime fs (.leave p :: rest))
      (walking s i expiredTime
        (if p ≠ q.repoRoot.normalize ∧ fs.children p = [] then fs.dropName p else fs) rest) := by
  refine @walked_visitNext q s i expiredTime fs _ (.leave p) [] rest hi ?_
  have hdirectory : (walking s i expiredTime fs (.leave p :: rest)).fs.isDirectory p = true :=
    decide_eq_true hp
  simp only [visitNext, postVisitDirectory, hdirectory, true_and]
  show Option.map _ (if p ≠ q.repoRoot.normalize ∧ fs.children p = [] then _ else _) = _
  split
  · rename_i hempty
    have hdelete : fs.delete p = some (fs.dropName p) := by
      simp only [FileSystem.delete, hp, hempty.2, if_true]
    show Option.map _ (Option.map _ (fs.delete p)) = _
    rw [hdelete]
    rfl
  · rfl

/-! ### What the walk leaves of a subtree -/

/-- Entries of one directory, one after the other, if the walk prunes each of
them in a tree no deeper than this. -/
theorem pruned_children {d : ℕ} {children : List Path}
    (hnodup : children.Nodup)
    (hchildren : ∀ c ∈ children, q.repoRoot.normalize <+: c ∧ c.length = p.length + 1)
    (hentry : ∀ {fs : FileSystem} {c : Path} {rest : List Visit}, fs.IsTree → c ∈ children →
      (fs.lookup c).isSome = true →
      (∀ r, (fs.lookup r).isSome = true → c <+: r → r.length < c.length + d) →
      ∃ fs', Walked q i (walking s i expiredTime fs (.entry c :: rest))
          (walking s i expiredTime fs' rest) ∧
        Pruned q.repoRoot.normalize expiredTime fs (c <+: ·) fs')
    (htree : fs.IsTree) (hsome : ∀ c ∈ children, (fs.lookup c).isSome = true)
    (hdepth : ∀ r, (fs.lookup r).isSome = true → p <+: r → r.length < p.length + (d + 1))
    (hbelow : ∀ c ∈ children, p <+: c) :
    ∃ fs', Walked q i (walking s i expiredTime fs (children.map .entry ++ rest))
        (walking s i expiredTime fs' rest) ∧
      Pruned q.repoRoot.normalize expiredTime fs (fun r => ∃ c ∈ children, c <+: r) fs' := by
  induction children generalizing fs with
  | nil =>
    refine ⟨fs, .refl _, (Pruned.refl _ _ fs).congr (fun _ h => h.elim) ?_⟩
    rintro r ⟨c, hc, -⟩
    cases hc
  | cons c children ih =>
    obtain ⟨hroot, hlength⟩ := hchildren c (List.mem_cons_self ..)
    obtain ⟨fs₁, hwalked, hpruned⟩ := @hentry fs c (children.map .entry ++ rest) htree
      (List.mem_cons_self ..) (hsome c (List.mem_cons_self ..)) (by
        intro r hr hunder
        have := hdepth r hr ((hbelow c (List.mem_cons_self ..)).trans hunder)
        omega)
    have htree₁ : fs₁.IsTree := hpruned.isTree htree fun r name hunder =>
      ⟨hroot.trans hunder, hunder.trans (List.prefix_append ..)⟩
    -- the other entries are not below the first
    have hsome₁ : ∀ c' ∈ children, (fs₁.lookup c').isSome = true := by
      intro c' hc'
      rw [hpruned.kept c' (.inl ?_)]
      · exact hsome c' (List.mem_cons_of_mem c hc')
      · intro hunder
        have hlength' := (hchildren c' (List.mem_cons_of_mem c hc')).2
        have heq := hunder.eq_of_length (hlength.trans hlength'.symm)
        exact (List.nodup_cons.mp hnodup).1 (heq ▸ hc')
    have hdepth₁ : ∀ r, (fs₁.lookup r).isSome = true → p <+: r → r.length < p.length + (d + 1) := by
      intro r hr
      obtain ⟨e, he⟩ := Option.isSome_iff_exists.mp hr
      exact hdepth r (by rw [hpruned.lookup_of_some he]; rfl)
    obtain ⟨fs₂, hwalked₂, hpruned₂⟩ := ih (List.nodup_cons.mp hnodup).2
      (fun c' hc' => hchildren c' (List.mem_cons_of_mem c hc'))
      (fun htree hc' => hentry htree (List.mem_cons_of_mem c hc'))
      htree₁ hsome₁ hdepth₁ (fun c' hc' => hbelow c' (List.mem_cons_of_mem c hc'))
    refine ⟨fs₂, hwalked.trans hwalked₂, (hpruned.trans hpruned₂).congr ?_ ?_⟩
    · rintro r (hunder | ⟨c', hc', hunder⟩)
      · exact ⟨c, List.mem_cons_self .., hunder⟩
      · exact ⟨c', List.mem_cons_of_mem c hc', hunder⟩
    · rintro r ⟨c', hc', hunder⟩ hnot
      rcases List.mem_cons.mp hc' with rfl | hmem
      · exact absurd (.inl hunder) hnot
      · exact absurd (.inr ⟨c', hmem, hunder⟩) hnot

/-- The entries that are left in a directory are those with a fresh file, so it
is empty if and only if it has no fresh file below it. -/
theorem children_eq_nil (htree : fs.IsTree) (hp : fs.lookup p = some .directory)
    (hleft : ∀ c ∈ fs.children p, HasFresh fs expiredTime c) :
    fs.children p = [] ↔ ¬ HasFresh fs expiredTime p := by
  constructor
  · rintro hnil ⟨r, inode, hunder, hfile, -⟩
    have hne : r ≠ p := by
      rintro rfl
      cases hp.symm.trans hfile
    obtain ⟨c, hc, -⟩ := htree.exists_child (by rw [hfile]; rfl) hunder hne
    rw [hnil] at hc
    cases hc
  · intro hstale
    refine List.eq_nil_iff_forall_not_mem.mpr fun c hc => hstale ?_
    obtain ⟨r, inode, hunder, hfile⟩ := hleft c hc
    obtain ⟨⟨name, rfl⟩, -⟩ := FileSystem.mem_children hc
    exact ⟨r, inode, (List.prefix_append p [name]).trans hunder, hfile⟩

theorem pruned_leave {root : Path}
    (hempty : fs.children p = [] ↔ ¬ HasFresh fs expiredTime p) :
    Pruned root expiredTime fs (· = p)
      (if p ≠ root ∧ fs.children p = [] then fs.dropName p else fs) := by
  refine ⟨by split <;> rfl, ?_, ?_⟩
  · rintro r rfl hroot hstale
    rw [if_pos ⟨hroot, hempty.mpr hstale⟩, FileSystem.lookup_dropName, if_pos rfl]
  · intro r hr
    split
    · rename_i hdropped
      have hne : r ≠ p := by
        rintro rfl
        have := hempty.mp hdropped.2
        tauto
      rw [FileSystem.lookup_dropName, if_neg hne]
    · rfl

theorem pruned_file {root : Path} (htree : fs.IsTree) {inode : ℕ}
    (hp : fs.lookup p = some (.file inode)) (hroot : p ≠ root) :
    Pruned root expiredTime fs (p <+: ·)
      (if (fs.data inode).modified < expiredTime then fs.dropName p else fs) := by
  have hnothing : ∀ r, p <+: r → r ≠ p → fs.lookup r = none := by
    rintro r ⟨below, rfl⟩ hne
    by_contra hsome
    rw [← ne_eq, Option.ne_none_iff_isSome] at hsome
    have hbelow : below ≠ [] := by
      rintro rfl
      exact hne (List.append_nil p)
    cases hp.symm.trans (htree.directory_of_append hbelow hsome)
  refine ⟨by split <;> rfl, ?_, ?_⟩
  · intro r hunder _ hstale
    by_cases hrp : r = p
    · subst hrp
      rw [if_pos, FileSystem.lookup_dropName, if_pos rfl]
      by_contra hfresh
      exact hstale ⟨r, inode, List.prefix_rfl, hp, not_lt.mp hfresh⟩
    · have hnone := hnothing r hunder hrp
      split
      · rw [FileSystem.lookup_dropName, if_neg hrp, hnone]
      · exact hnone
  · intro r hr
    split
    · rename_i hexpired
      rw [FileSystem.lookup_dropName, if_neg]
      rintro rfl
      rcases hr with hnot | hr | ⟨r', inode', hunder, hfile, hfresh⟩
      · exact hnot List.prefix_rfl
      · exact hroot hr
      · -- the fresh file would be this one
        obtain rfl : r' = r := by
          by_contra hne
          rw [hnothing r' hunder hne] at hfile
          cases hfile
        cases hp.symm.trans hfile
        omega
    · rfl

/-- The walk prunes what is below an entry, and the entry. -/
theorem pruned_entry (hi : i < s.tasks.length) (d : ℕ) :
    ∀ {fs : FileSystem} {p : Path} {rest : List Visit}, fs.IsTree →
      q.repoRoot.normalize <+: p → (p = q.repoRoot.normalize → fs.lookup p = some .directory) →
      (fs.lookup p).isSome = true →
      (∀ r, (fs.lookup r).isSome = true → p <+: r → r.length < p.length + d) →
      ∃ fs', Walked q i (walking s i expiredTime fs (.entry p :: rest))
          (walking s i expiredTime fs' rest) ∧
        Pruned q.repoRoot.normalize expiredTime fs (p <+: ·) fs' := by
  induction d with
  | zero =>
    intro fs p rest _ _ _ hsome hdepth
    exact absurd (hdepth p hsome List.prefix_rfl) (lt_irrefl _)
  | succ d ih =>
    intro fs p rest htree hroot hrootDirectory hsome hdepth
    obtain ⟨e, he⟩ := Option.isSome_iff_exists.mp hsome
    cases e with
    | file inode =>
      refine ⟨_, walked_file hi he, pruned_file htree he ?_⟩
      intro heq
      cases he.symm.trans (hrootDirectory heq)
    | directory =>
      have hchild : ∀ c ∈ fs.children p, p <+: c ∧ c.length = p.length + 1 := by
        intro c hc
        obtain ⟨⟨name, rfl⟩, -⟩ := FileSystem.mem_children hc
        exact ⟨List.prefix_append .., by simp⟩
      have hne : ∀ c ∈ fs.children p, c ≠ q.repoRoot.normalize := by
        rintro c hc rfl
        have := hroot.length_le
        have := (hchild _ hc).2
        omega
      obtain ⟨fs₁, hwalked, hpruned⟩ := @pruned_children q s i expiredTime fs p (.leave p :: rest) d
        (fs.children p) (fs.nodup_children p)
        (fun c hc => ⟨hroot.trans (hchild c hc).1, (hchild c hc).2⟩)
        (fun htree hc => ih htree (hroot.trans (hchild _ hc).1) (fun heq => absurd heq (hne _ hc)))
        htree (fun c hc => (FileSystem.mem_children hc).2) hdepth (fun c hc => (hchild c hc).1)
      have hp₁ : fs₁.lookup p = some .directory := by
        rw [hpruned.kept p (.inl ?_), he]
        rintro ⟨c, hc, hunder⟩
        have := hunder.length_le
        have := (hchild c hc).2
        omega
      have htree₁ : fs₁.IsTree := hpruned.isTree htree fun r name ⟨c, hc, hunder⟩ =>
        ⟨(hroot.trans (hchild c hc).1).trans hunder, c, hc, hunder.trans (List.prefix_append ..)⟩
      have hleft : ∀ c ∈ fs₁.children p, HasFresh fs₁ expiredTime c := by
        intro c hc
        obtain ⟨hname, hsome₁⟩ := FileSystem.mem_children hc
        obtain ⟨e, he₁⟩ := Option.isSome_iff_exists.mp hsome₁
        have hc₀ : c ∈ fs.children p :=
          FileSystem.mem_children_iff.mpr ⟨hname, by rw [hpruned.lookup_of_some he₁]; rfl⟩
        rw [hpruned.hasFresh_iff]
        by_contra hstale
        cases (hpruned.gone c ⟨c, hc₀, List.prefix_rfl⟩ (hne c hc₀) hstale).symm.trans he₁
      refine ⟨_, ((walked_directory hi he).trans hwalked).trans (walked_leave hi hp₁),
        (hpruned.trans (pruned_leave (children_eq_nil htree₁ hp₁ hleft))).congr ?_ ?_⟩
      · rintro r (⟨c, hc, hunder⟩ | rfl)
        · exact (hchild c hc).1.trans hunder
        · exact List.prefix_rfl
      · intro r hunder hnot
        by_contra hsome
        rw [← ne_eq, Option.ne_none_iff_isSome] at hsome
        obtain ⟨c, hc, hunder'⟩ := htree.exists_child hsome hunder fun heq => hnot (.inr heq)
        exact hnot (.inl ⟨c, hc, hunder'⟩)

/-- The whole walk, from its start to its end. -/
theorem pruned_cleanUpRepoFolder (htree : s.fs.IsTree)
    (hroot : s.fs.lookup q.repoRoot.normalize = some .directory) (now : ℤ) :
    ∃ s', Walked q s.tasks.length (q.cleanUpRepoFolder s now) s' ∧
      s'.tasks[s.tasks.length]? = some (.replied .nothing) ∧
      Pruned q.repoRoot.normalize (now - fileExpiryMs) s.fs (q.repoRoot.normalize <+: ·) s'.fs := by
  obtain ⟨task, htask⟩ : ∃ task, task = Task.walkFileTree (.deleteExpired (now - fileExpiryMs))
      [.entry q.repoRoot.normalize] := ⟨_, rfl⟩
  have hi : s.tasks.length < (s.addTask task).tasks.length := by simp [Repo.addTask]
  have hstart : q.cleanUpRepoFolder s now = walking (s.addTask task) s.tasks.length
      (now - fileExpiryMs) s.fs [.entry q.repoRoot.normalize] := by
    simp [cleanUpRepoFolder, walking, Repo.setTask, Repo.addTask, htask]
  obtain ⟨d, hd⟩ := s.fs.exists_depth
  obtain ⟨fs', hwalked, hpruned⟩ := @pruned_entry q (s.addTask task) s.tasks.length
    (now - fileExpiryMs) hi d s.fs q.repoRoot.normalize [] htree List.prefix_rfl (fun _ => hroot)
    (by rw [hroot]; rfl) (fun r hr _ => Nat.lt_add_left _ (hd r hr))
  refine ⟨(walking (s.addTask task) s.tasks.length (now - fileExpiryMs) fs' []).setTask
    s.tasks.length (.replied .nothing), hstart ▸ hwalked.trans ⟨1, ?_⟩, ?_, hpruned⟩
  · show (q.step _ _).bind _ = _
    rw [step_walking hi]
    rfl
  · exact List.getElem?_set_self (by rwa [walking, Repo.setTask, List.length_set])

end QueryService

/-- Left to itself, the clean-up of a tree comes to its end, and then there are
exactly the files that have not expired, with what is in them, and the
directories with such a file below them; the root, and what is not below it,
is as before. -/
theorem cleanUpRepoFolder_keepsFresh {q : QueryService} {s : Repo} (htree : s.fs.IsTree)
    (hroot : s.fs.lookup q.repoRoot.normalize = some .directory) (now : ℤ) :
    ∃ n s', (List.replicate n (.visit s.tasks.length [])).foldlM q.step
        (q.cleanUpRepoFolder s now) = some s' ∧
      s'.tasks[s.tasks.length]? = some (.replied .nothing) ∧ s'.fs.data = s.fs.data ∧
      (∀ p inode, p.StrictlyInside q.repoRoot.normalize →
        (s'.fs.lookup p = some (.file inode) ↔ s.fs.lookup p = some (.file inode) ∧
          now - fileExpiryMs ≤ (s.fs.data inode).modified)) ∧
      (∀ p, p.StrictlyInside q.repoRoot.normalize →
        (s'.fs.lookup p = some .directory ↔ s.fs.lookup p = some .directory ∧
          ∃ r inode, r.StrictlyInside p ∧ s.fs.lookup r = some (.file inode) ∧
            now - fileExpiryMs ≤ (s.fs.data inode).modified)) ∧
      ∀ p, ¬ p.StrictlyInside q.repoRoot.normalize → s'.fs.lookup p = s.fs.lookup p := by
  obtain ⟨s', ⟨n, hn⟩, hreplied, hpruned⟩ :=
    QueryService.pruned_cleanUpRepoFolder htree hroot now
  have hgone : ∀ p, p.StrictlyInside q.repoRoot.normalize →
      ¬ QueryService.HasFresh s.fs (now - fileExpiryMs) p → s'.fs.lookup p = none := by
    rintro p ⟨rest, hne, rfl⟩ hstale
    refine hpruned.gone _ (List.prefix_append ..) ?_ hstale
    simpa using hne
  refine ⟨n, s', hn, hreplied, hpruned.data, ?_, ?_, ?_⟩
  · intro p inode hinside
    constructor
    · intro hfile
      have hbefore := hpruned.lookup_of_some hfile
      refine ⟨hbefore, ?_⟩
      by_contra hexpired
      refine absurd (hgone p hinside ?_) (by rw [hfile]; simp)
      rintro ⟨r, inode', ⟨below, rfl⟩, hfile', hfresh⟩
      by_cases hbelow : below = []
      · rw [hbelow, List.append_nil, hbefore] at hfile'
        cases hfile'
        exact hexpired hfresh
      · cases hbefore.symm.trans (htree.directory_of_append hbelow (by rw [hfile']; rfl))
    · rintro ⟨hfile, hfresh⟩
      rw [hpruned.kept p (.inr (.inr ⟨p, inode, List.prefix_rfl, hfile, hfresh⟩)), hfile]
  · intro p hinside
    constructor
    · intro hdirectory
      have hbefore := hpruned.lookup_of_some hdirectory
      refine ⟨hbefore, ?_⟩
      by_contra hnone
      refine absurd (hgone p hinside ?_) (by rw [hdirectory]; simp)
      rintro ⟨r, inode, ⟨below, rfl⟩, hfile, hfresh⟩
      refine hnone ⟨_, inode, ⟨below, ?_, rfl⟩, hfile, hfresh⟩
      rintro rfl
      rw [List.append_nil, hbefore] at hfile
      cases hfile
    · rintro ⟨hdirectory, r, inode, ⟨below, -, rfl⟩, hfile, hfresh⟩
      rw [hpruned.kept p (.inr (.inr ⟨_, inode, List.prefix_append .., hfile, hfresh⟩)), hdirectory]
  · intro p houtside
    apply hpruned.kept
    by_cases hunder : q.repoRoot.normalize <+: p
    · obtain ⟨below, rfl⟩ := hunder
      refine .inr (.inl ?_)
      by_contra hne
      exact houtside ⟨below, by simpa using hne, rfl⟩
    · exact .inl hunder

/-- A client's folder with an expired file, and one with a fresh file two
directories down. -/
def staleAndFresh : FileSystem where
  entries := ([⟨[], .directory⟩, ⟨["repo"], .directory⟩, ⟨["repo", "alice"], .directory⟩,
    ⟨["repo", "alice", "a.csv"], .file 0⟩, ⟨["repo", "bob"], .directory⟩,
    ⟨["repo", "bob", "old"], .directory⟩, ⟨["repo", "bob", "new"], .directory⟩,
    ⟨["repo", "bob", "new", "b.csv"], .file 1⟩] : List (Σ _ : Path, DirEntry)).toAList
  data := fun inode => ⟨[1, 2, 3], if inode = 0 then 0 else fileExpiryMs⟩
  nextInode := 2

/-- One chain of directories is gone, and the other is there. -/
theorem cleanUpRepoFolder_keepsFresh_staleAndFresh :
    ∃ n s', (List.replicate n (.visit 0 [])).foldlM downloader.step
        (downloader.cleanUpRepoFolder (.start staleAndFresh) (2 * fileExpiryMs)) = some s' ∧
      s'.fs.lookup ["repo", "alice"] ≠ some .directory ∧
      s'.fs.lookup ["repo", "bob"] = some .directory ∧
      s'.fs.lookup ["repo", "bob", "new", "b.csv"] = some (.file 1) := by
  have htree : (Repo.start staleAndFresh).fs.IsTree :=
    FileSystem.isTree_of_keys (by decide +kernel)
  obtain ⟨n, s', hrun, -, -, hfiles, hdirectories, -⟩ :=
    @cleanUpRepoFolder_keepsFresh downloader (.start staleAndFresh) htree rfl (2 * fileExpiryMs)
  have hroot : downloader.repoRoot.normalize = ["repo"] := rfl
  have hinside : ∀ rest, rest ≠ [] → (["repo"] ++ rest : Path).StrictlyInside
      downloader.repoRoot.normalize := fun rest hne => ⟨rest, hne, by rw [hroot]⟩
  refine ⟨n, s', hrun, ?_, ?_, ?_⟩
  · rw [ne_eq, hdirectories ["repo", "alice"] (hinside ["alice"] (by simp))]
    rintro ⟨-, r, inode, ⟨below, -, rfl⟩, hfile, hfresh⟩
    have hstale : ∀ e ∈ staleAndFresh.entries.entries, e.1.take 2 = ["repo", "alice"] →
        e.2 = .directory ∨ e.2 = .file 0 := by decide +kernel
    rcases hstale _ (AList.mem_lookup_iff.mp hfile) rfl with hdirectory | hfile
    · cases hdirectory
    · cases hfile
      exact absurd hfresh (by decide)
  · rw [hdirectories ["repo", "bob"] (hinside ["bob"] (by simp))]
    exact ⟨rfl, ["repo", "bob", "new", "b.csv"], 1, ⟨["new", "b.csv"], by simp, rfl⟩, rfl,
      by decide⟩
  · rw [hfiles ["repo", "bob", "new", "b.csv"] 1 (hinside ["bob", "new", "b.csv"] (by simp))]
    exact ⟨rfl, by decide⟩

end AisStore
