import AisStore.Lib.Failure
import Mathlib.Data.List.AList
import Mathlib.Data.List.Induction
import Mathlib.Logic.Function.Basic

/-!
A file system as a tree of names over numbered files.

A path is a list of components as written. Following it from the root goes
through directories only, and `.` and `..` are resolved on the way, so what
it leads to is the path normalised (`eq_normalize_of_locate`). A name stands
for a directory or for the number of a file; an open file is that number, and
writing to it after its name is gone changes no name.

`fileAt` is the view of a file system the proofs use: what file a path names
and what is in it. Each operation has one lemma that says how it changes
this view. `WellFormed` is what makes writing to one file leave the others
alone: no file has two names.
-/

namespace AisStore.Lib

/-- An absolute path, as its components. -/
abbrev Path := List String

namespace Path

/-- The components of a relative path given as a string. -/
def components (s : String) : Path :=
  ((s.toList.splitOn '/').filter (· ≠ [])).map String.ofList

/-- `p.resolve(other)`. -/
def resolve (p : Path) (other : String) : Except Failure Path :=
  if '\x00' ∈ other.toList then .error (.illegalArgument s!"Nul character not allowed: {other}")
  else if other.toList.head? = some '/' then .ok (components other)
  else .ok (p ++ components other)

/-- Where a component leads from a normalised path. -/
def enter (p : Path) (c : String) : Path :=
  if c = "." then p else if c = ".." then p.dropLast else p ++ [c]

/-- `p.normalize()`, for an absolute path. -/
def normalize (p : Path) : Path := p.foldl enter []

/-- The file a path leads to lies below a directory, at any depth. -/
def StrictlyInside (p folder : Path) : Prop := ∃ rest, rest ≠ [] ∧ p = folder ++ rest

/-- A name that a path can have as a component and that stands for itself. -/
def IsName (c : String) : Prop := c ≠ "" ∧ '/' ∉ c.toList ∧ c ≠ "." ∧ c ≠ ".."

instance (c : String) : Decidable (IsName c) := inferInstanceAs (Decidable (_ ∧ _))

theorem components_of_segment {s : String} (hne : s ≠ "") (hsep : '/' ∉ s.toList) :
    components s = [s] := by
  have hsingle : s.toList.splitOn '/' = [s.toList] := by
    apply List.splitOnP_eq_singleton
    intro x hx
    rw [beq_eq_false_iff_ne]
    rintro rfl
    exact hsep hx
  have hlist : s.toList ≠ [] := fun h => hne (String.toList_inj.mp h)
  unfold components
  rw [hsingle]
  simp [hlist, String.ofList_toList]

/-- Resolving a single segment appends it. -/
theorem resolve_segment {p q : Path} {s : String} (hne : s ≠ "") (hsep : '/' ∉ s.toList)
    (h : p.resolve s = .ok q) : q = p ++ [s] := by
  have hhead : s.toList.head? ≠ some '/' := fun hhead => hsep (List.mem_of_mem_head? hhead)
  simp only [resolve, if_neg hhead] at h
  split at h
  · cases h
  · rw [components_of_segment hne hsep] at h
    cases h
    rfl

@[simp] theorem normalize_concat (p : Path) (c : String) :
    (p ++ [c]).normalize = p.normalize.enter c := by
  unfold normalize
  rw [List.foldl_append]
  rfl

theorem enter_name {p : Path} {c : String} (h : IsName c) : p.enter c = p ++ [c] := by
  unfold enter
  rw [if_neg h.2.2.1, if_neg h.2.2.2]

/-- Nothing lies below two different directories of one directory. -/
theorem not_strictlyInside_sibling {root p : Path} {c d : String} (hne : c ≠ d)
    (h : p.StrictlyInside (root ++ [c])) : ¬ p.StrictlyInside (root ++ [d]) := by
  rintro ⟨rest', -, heq'⟩
  obtain ⟨rest, -, heq⟩ := h
  rw [heq, List.append_assoc, List.append_assoc] at heq'
  have htail := List.append_cancel_left heq'
  exact hne (List.cons.inj htail).1

end Path

structure FileData where
  content : List UInt8
  modified : ℤ
  deriving DecidableEq

inductive DirEntry where
  | directory
  | file (inode : ℕ)
  deriving DecidableEq

structure FileSystem where
  entries : AList fun _ : Path => DirEntry
  data : ℕ → FileData
  nextInode : ℕ

namespace FileSystem

/-! ### Names -/

/-- What a normalised path names. -/
def lookup (fs : FileSystem) (p : Path) : Option DirEntry := fs.entries.lookup p

def isDirectory (fs : FileSystem) (p : Path) : Bool := fs.lookup p = some .directory

/-- Follow the components of a path through directories. -/
def follow (fs : FileSystem) (p : Path) : List String → Option Path
  | [] => some p
  | c :: rest => if fs.isDirectory p then fs.follow (p.enter c) rest else none

/-- The normalised path that a path leads to, if the way there exists. -/
def locate (fs : FileSystem) (p : Path) : Option Path := fs.follow [] p

/-- What a path names. -/
def find (fs : FileSystem) (p : Path) : Option DirEntry := (fs.locate p).bind fs.lookup

/-- `Files.notExists`. Of a path that leads through a file it is not known. -/
def notExists (fs : FileSystem) (p : Path) : Bool :=
  (fs.find p).isNone && p.inits.all fun q => !(fs.find q matches some (.file _))

def children (fs : FileSystem) (p : Path) : List Path :=
  fs.entries.keys.filter fun q => q ≠ [] ∧ q.dropLast = p

theorem follow_append (fs : FileSystem) (p : Path) (xs ys : List String) :
    fs.follow p (xs ++ ys) = (fs.follow p xs).bind fun q => fs.follow q ys := by
  induction xs generalizing p with
  | nil => rfl
  | cons c xs ih =>
      simp only [List.cons_append, follow]
      split
      · exact ih _
      · rfl

theorem eq_foldl_of_follow {fs : FileSystem} {p q : Path} {cs : List String}
    (h : fs.follow p cs = some q) : q = cs.foldl Path.enter p := by
  induction cs generalizing p with
  | nil =>
      cases h
      rfl
  | cons c cs ih =>
      unfold follow at h
      split at h
      · exact ih h
      · cases h

/-- A path leads where it does once normalised. -/
theorem eq_normalize_of_locate {fs : FileSystem} {p q : Path} (h : fs.locate p = some q) :
    q = p.normalize := eq_foldl_of_follow h

/-- The last step of the way to a path starts from a directory. -/
theorem locate_concat {fs : FileSystem} {p q : Path} {c : String}
    (h : fs.locate (p ++ [c]) = some q) :
    q = p.normalize.enter c ∧ fs.locate p = some p.normalize ∧
      fs.isDirectory p.normalize = true := by
  have hq := eq_normalize_of_locate h
  rw [Path.normalize_concat] at hq
  unfold locate at h
  rw [follow_append] at h
  obtain ⟨r, hr, hlast⟩ := Option.bind_eq_some_iff.mp h
  have hrp : r = p.normalize := eq_foldl_of_follow hr
  subst hrp
  refine ⟨hq, hr, ?_⟩
  unfold follow at hlast
  split at hlast
  · assumption
  · cases hlast

theorem mem_children {fs : FileSystem} {p q : Path} (h : q ∈ fs.children p) :
    (∃ name, q = p ++ [name]) ∧ (fs.lookup q).isSome = true := by
  obtain ⟨hmem, hchild⟩ := List.mem_filter.mp h
  obtain ⟨hne, rfl⟩ := of_decide_eq_true hchild
  refine ⟨⟨q.getLast hne, (List.dropLast_append_getLast hne).symm⟩, ?_⟩
  exact AList.lookup_isSome.mpr (AList.mem_keys.mpr hmem)

/-! ### Operations -/

/-- Give a name to a file or a directory. -/
def bindName (fs : FileSystem) (p : Path) (e : DirEntry) : FileSystem :=
  { fs with entries := fs.entries.insert p e }

def dropName (fs : FileSystem) (p : Path) : FileSystem :=
  { fs with entries := fs.entries.erase p }

def setData (fs : FileSystem) (inode : ℕ) (d : FileData) : FileSystem :=
  { fs with data := Function.update fs.data inode d }

/-- Create a file where there is nothing. -/
def createNew (fs : FileSystem) (p : Path) (now : ℤ) : Option (ℕ × FileSystem) :=
  if fs.lookup p = none ∧ fs.isDirectory p.dropLast = true then
    some (fs.nextInode,
      { (fs.setData fs.nextInode ⟨[], now⟩).bindName p (.file fs.nextInode) with
        nextInode := fs.nextInode + 1 })
  else none

/-- Open a file for writing: an existing one is emptied, a missing one created. -/
def openWrite (fs : FileSystem) (p : Path) (now : ℤ) : Option (ℕ × FileSystem) :=
  match fs.lookup p with
  | some (.file i) => some (i, fs.setData i ⟨[], now⟩)
  | some .directory => none
  | none => fs.createNew p now

/-- Write to the end of an open file. -/
def append (fs : FileSystem) (inode : ℕ) (bytes : List UInt8) (now : ℤ) : FileSystem :=
  fs.setData inode ⟨(fs.data inode).content ++ bytes, now⟩

/-- Rename a file, unless there is something under the new name. -/
def move (fs : FileSystem) (p q : Path) : Option FileSystem :=
  match fs.lookup p, fs.lookup q with
  | some (.file i), none =>
    if fs.isDirectory q.dropLast then some ((fs.dropName p).bindName q (.file i)) else none
  | _, _ => none

/-- Delete a file, or a directory with nothing in it. -/
def delete (fs : FileSystem) (p : Path) : Option FileSystem :=
  match fs.lookup p with
  | some (.file _) => some (fs.dropName p)
  | some .directory => if fs.children p = [] then some (fs.dropName p) else none
  | none => none

/-- Delete what a path names. A path that ends in `.` or `..` cannot be removed. -/
def remove (fs : FileSystem) (p : Path) : Option (Path × FileSystem) :=
  if p.getLast? = some "." ∨ p.getLast? = some ".." then none
  else (fs.locate p).bind fun q => (fs.delete q).map fun fs' => (q, fs')

/-- Create a directory unless it is there. -/
def makeDirectory (fs : FileSystem) (p : Path) : Option FileSystem :=
  match fs.lookup p with
  | some .directory => some fs
  | some (.file _) => none
  | none => some (fs.bindName p .directory)

/-- Create a directory together with those it is in. -/
def createDirectories (fs : FileSystem) (p : Path) : Option FileSystem :=
  p.inits.foldlM makeDirectory fs

@[simp] theorem lookup_bindName (fs : FileSystem) (p q : Path) (e : DirEntry) :
    (fs.bindName p e).lookup q = if q = p then some e else fs.lookup q := by
  unfold bindName lookup
  by_cases hq : q = p
  · subst hq
    rw [if_pos rfl]
    exact AList.lookup_insert _
  · rw [if_neg hq]
    exact AList.lookup_insert_ne hq

@[simp] theorem lookup_dropName (fs : FileSystem) (p q : Path) :
    (fs.dropName p).lookup q = if q = p then none else fs.lookup q := by
  unfold dropName lookup
  by_cases hq : q = p
  · subst hq
    rw [if_pos rfl]
    exact AList.lookup_erase _ _
  · rw [if_neg hq]
    exact AList.lookup_erase_ne hq

@[simp] theorem lookup_setData (fs : FileSystem) (i : ℕ) (d : FileData) (q : Path) :
    (fs.setData i d).lookup q = fs.lookup q := rfl

@[simp] theorem data_setData (fs : FileSystem) (i j : ℕ) (d : FileData) :
    (fs.setData i d).data j = if j = i then d else fs.data j := by
  unfold setData
  exact Function.update_apply ..

/-! ### What a path shows -/

/-- The file a path names, and its content. -/
def fileAt (fs : FileSystem) (p : Path) : Option (ℕ × List UInt8) :=
  match fs.lookup p with
  | some (.file i) => some (i, (fs.data i).content)
  | _ => none

/-- Every named file has been created, and has one name. -/
structure WellFormed (fs : FileSystem) : Prop where
  created : ∀ {p i c}, fs.fileAt p = some (i, c) → i < fs.nextInode
  oneName : ∀ {p q i c d}, fs.fileAt p = some (i, c) → fs.fileAt q = some (i, d) → p = q

variable {fs fs' : FileSystem} {p q : Path} {i : ℕ} {now : ℤ}

theorem fileAt_eq_some {c : List UInt8} :
    fs.fileAt p = some (i, c) ↔ fs.lookup p = some (.file i) ∧ (fs.data i).content = c := by
  unfold fileAt
  split
  · rename_i j hj
    rw [hj]
    simp only [Option.some.injEq, Prod.mk.injEq, DirEntry.file.injEq]
    constructor
    · rintro ⟨rfl, rfl⟩
      exact ⟨rfl, rfl⟩
    · rintro ⟨rfl, rfl⟩
      exact ⟨rfl, rfl⟩
  · rename_i hnot
    constructor
    · intro h
      cases h
    · rintro ⟨h, -⟩
      exact absurd h (hnot i)

theorem fileAt_eq_none : fs.fileAt p = none ↔ ∀ i, fs.lookup p ≠ some (.file i) := by
  rw [← Option.not_isSome_iff_eq_none, Option.isSome_iff_exists]
  constructor
  · intro h i hi
    exact h ⟨_, fileAt_eq_some.mpr ⟨hi, rfl⟩⟩
  · rintro h ⟨⟨i, c⟩, hc⟩
    exact h i (fileAt_eq_some.mp hc).1

/-- What a path shows depends on what it names and on what is in that. -/
theorem fileAt_congr (hlookup : fs'.lookup p = fs.lookup p)
    (hdata : ∀ i, fs.lookup p = some (.file i) → fs'.data i = fs.data i) :
    fs'.fileAt p = fs.fileAt p := by
  ext ⟨i, c⟩
  rw [fileAt_eq_some, fileAt_eq_some, hlookup]
  refine and_congr_right fun hi => ?_
  rw [hdata i hi]

theorem fileAt_createNew (hwf : fs.WellFormed) (h : fs.createNew p now = some (i, fs')) :
    i = fs.nextInode ∧ fs'.nextInode = fs.nextInode + 1 ∧ fs.fileAt p = none ∧
      ∀ q, fs'.fileAt q = if q = p then some (i, []) else fs.fileAt q := by
  unfold createNew at h
  split at h
  · rename_i hfree
    cases h
    have hnone : fs.fileAt p = none := by
      rw [fileAt_eq_none, hfree.1]
      simp
    refine ⟨rfl, rfl, hnone, ?_⟩
    intro q
    by_cases hq : q = p
    · subst hq
      rw [if_pos rfl, fileAt_eq_some]
      constructor
      · exact (lookup_bindName ..).trans (if_pos rfl)
      · exact congrArg FileData.content ((data_setData ..).trans (if_pos rfl))
    · rw [if_neg hq]
      apply fileAt_congr
      · exact (lookup_bindName ..).trans (if_neg hq)
      · intro j hj
        -- a file that has a name already is not the new one
        have hlt := hwf.created (fileAt_eq_some.mpr ⟨hj, rfl⟩)
        exact (data_setData ..).trans (if_neg (by omega))
  · cases h

/-- Changing what is in one file. -/
theorem fileAt_setData (fs : FileSystem) (i : ℕ) (d : FileData) (q : Path) :
    (fs.setData i d).fileAt q =
      (fs.fileAt q).map fun f => if f.1 = i then (i, d.content) else f := by
  cases hq : fs.fileAt q with
  | none =>
      have hnone := fileAt_eq_none.mp hq
      rw [Option.map_none, fileAt_eq_none]
      exact hnone
  | some f =>
      obtain ⟨hlookup, hcontent⟩ := fileAt_eq_some.mp (show fs.fileAt q = some (f.1, f.2) from hq)
      rw [Option.map_some]
      by_cases hi : f.1 = i
      · rw [if_pos hi, fileAt_eq_some, lookup_setData, data_setData, if_pos rfl, ← hi]
        exact ⟨hlookup, rfl⟩
      · rw [if_neg hi]
        rw [← hq]
        apply fileAt_congr (lookup_setData ..)
        intro j hj
        have hji : j = f.1 := DirEntry.file.inj (Option.some.inj (hj.symm.trans hlookup))
        rw [data_setData, if_neg (hji ▸ hi)]

theorem fileAt_openWrite (hwf : fs.WellFormed) (h : fs.openWrite p now = some (i, fs')) :
    (∀ q, fs'.fileAt q = if q = p then some (i, []) else fs.fileAt q) ∧
      ((∃ c, fs.fileAt p = some (i, c)) ∧ fs'.nextInode = fs.nextInode ∨
        fs.fileAt p = none ∧ i = fs.nextInode ∧ fs'.nextInode = fs.nextInode + 1) := by
  unfold openWrite at h
  split at h
  · rename_i j hj
    cases h
    have hp : fs.fileAt p = some (i, (fs.data i).content) := fileAt_eq_some.mpr ⟨hj, rfl⟩
    refine ⟨?_, .inl ⟨⟨_, hp⟩, rfl⟩⟩
    intro q
    rw [fileAt_setData]
    by_cases hq : q = p
    · subst hq
      rw [hp, if_pos rfl, Option.map_some, if_pos rfl]
    · rw [if_neg hq]
      cases hf : fs.fileAt q with
      | none => rfl
      | some f =>
          have hne : f.1 ≠ i := by
            rintro rfl
            exact hq (hwf.oneName hf hp)
          rw [Option.map_some, if_neg hne]
  · cases h
  · obtain ⟨hi, hnext, hnone, hfile⟩ := fileAt_createNew hwf h
    exact ⟨hfile, .inr ⟨hnone, hi, hnext⟩⟩

theorem fileAt_append (fs : FileSystem) (i : ℕ) (bytes : List UInt8) (now : ℤ) (q : Path) :
    (fs.append i bytes now).fileAt q =
      (fs.fileAt q).map fun f => if f.1 = i then (i, f.2 ++ bytes) else f := by
  unfold append
  rw [fileAt_setData]
  cases hf : fs.fileAt q with
  | none => rfl
  | some f =>
      have hcontent := (fileAt_eq_some.mp (show fs.fileAt q = some (f.1, f.2) from hf)).2
      rw [Option.map_some, Option.map_some]
      by_cases hi : f.1 = i
      · subst hi
        rw [if_pos rfl, if_pos rfl, hcontent]
      · rw [if_neg hi, if_neg hi]

/-- Writing gives no name to a file. -/
theorem exists_fileAt_of_append {bytes c : List UInt8} {j : ℕ}
    (h : (fs.append i bytes now).fileAt q = some (j, c)) :
    ∃ d, fs.fileAt q = some (j, d) ∧ c = if j = i then d ++ bytes else d := by
  rw [fileAt_append] at h
  obtain ⟨⟨k, d⟩, hk, heq⟩ := Option.map_eq_some_iff.mp h
  by_cases hki : k = i
  · rw [if_pos hki] at heq
    obtain ⟨rfl, rfl⟩ := Prod.mk.inj heq
    exact ⟨d, by rw [hk, hki], (if_pos rfl).symm⟩
  · rw [if_neg hki] at heq
    obtain ⟨rfl, rfl⟩ := Prod.mk.inj heq
    exact ⟨d, hk, (if_neg hki).symm⟩

/-- A path that does not lead to the file shows nothing of it. -/
theorem fileAt_append_of_ne {bytes : List UInt8} (h : ∀ c, fs.fileAt q ≠ some (i, c)) :
    (fs.append i bytes now).fileAt q = fs.fileAt q := by
  rw [fileAt_append]
  cases hq : fs.fileAt q with
  | none => rfl
  | some f =>
      have hne : f.1 ≠ i := by
        rintro rfl
        exact h f.2 hq
      rw [Option.map_some, if_neg hne]

theorem fileAt_dropName (fs : FileSystem) (p q : Path) :
    (fs.dropName p).fileAt q = if q = p then none else fs.fileAt q := by
  by_cases hq : q = p
  · subst hq
    rw [if_pos rfl, fileAt_eq_none]
    simp
  · rw [if_neg hq]
    apply fileAt_congr
    · rw [lookup_dropName, if_neg hq]
    · intro i _
      rfl

theorem fileAt_delete (h : fs.delete p = some fs') :
    fs'.nextInode = fs.nextInode ∧ ∀ q, fs'.fileAt q = if q = p then none else fs.fileAt q := by
  unfold delete at h
  split at h
  · cases h
    exact ⟨rfl, fileAt_dropName fs p⟩
  · split at h
    · cases h
      exact ⟨rfl, fileAt_dropName fs p⟩
    · cases h
  · cases h

theorem fileAt_move (h : fs.move p q = some fs') :
    fs'.nextInode = fs.nextInode ∧ ∃ f, fs.fileAt p = some f ∧ fs.fileAt q = none ∧
      ∀ r, fs'.fileAt r = if r = q then some f else if r = p then none else fs.fileAt r := by
  unfold move at h
  split at h
  · rename_i i hp hq
    split at h
    · cases h
      have hnone : fs.fileAt q = none := by
        rw [fileAt_eq_none, hq]
        simp
      refine ⟨rfl, _, fileAt_eq_some.mpr ⟨hp, rfl⟩, hnone, ?_⟩
      intro r
      by_cases hr : r = q
      · subst hr
        rw [if_pos rfl, fileAt_eq_some, lookup_bindName, if_pos rfl]
        exact ⟨rfl, rfl⟩
      · rw [if_neg hr, ← fileAt_dropName]
        apply fileAt_congr
        · rw [lookup_bindName, if_neg hr]
        · intro j _
          rfl
    · cases h
  · cases h

theorem fileAt_makeDirectory (h : fs.makeDirectory p = some fs') :
    fs'.nextInode = fs.nextInode ∧ ∀ q, fs'.fileAt q = fs.fileAt q := by
  unfold makeDirectory at h
  split at h
  · cases h
    exact ⟨rfl, fun _ => rfl⟩
  · cases h
  · rename_i hp
    cases h
    refine ⟨rfl, ?_⟩
    intro q
    by_cases hq : q = p
    · subst hq
      have hafter : (fs.bindName q .directory).fileAt q = none := by
        rw [fileAt_eq_none]
        simp
      have hbefore : fs.fileAt q = none := by
        rw [fileAt_eq_none, hp]
        simp
      rw [hafter, hbefore]
    · apply fileAt_congr
      · rw [lookup_bindName, if_neg hq]
      · intro i _
        rfl

theorem fileAt_createDirectories (h : fs.createDirectories p = some fs') :
    fs'.nextInode = fs.nextInode ∧ ∀ q, fs'.fileAt q = fs.fileAt q := by
  unfold createDirectories at h
  generalize p.inits = ps at h
  induction ps generalizing fs with
  | nil =>
      cases h
      exact ⟨rfl, fun _ => rfl⟩
  | cons p ps ih =>
      obtain ⟨fs₁, hmake, hrest⟩ := Option.bind_eq_some_iff.mp h
      obtain ⟨hnext, hfile⟩ := fileAt_makeDirectory hmake
      obtain ⟨hnext', hfile'⟩ := ih hrest
      exact ⟨hnext'.trans hnext, fun q => (hfile' q).trans (hfile q)⟩

theorem fileAt_remove {fs₀ : FileSystem} (h : fs.remove p = some (q, fs₀)) :
    q = p.normalize ∧ fs₀.nextInode = fs.nextInode ∧
      ∀ r, fs₀.fileAt r = if r = q then none else fs.fileAt r := by
  unfold remove at h
  split at h
  · cases h
  · obtain ⟨q', hq', hmap⟩ := Option.bind_eq_some_iff.mp h
    obtain ⟨fs₁, hdelete, heq⟩ := Option.map_eq_some_iff.mp hmap
    cases heq
    obtain ⟨hnext, hfile⟩ := fileAt_delete hdelete
    exact ⟨eq_normalize_of_locate hq', hnext, hfile⟩

/-! ### Which paths name files -/

def IsFile (fs : FileSystem) (p : Path) : Prop := ∃ i, fs.lookup p = some (.file i)

/-- Only at these paths have files come or gone. -/
def ChangesAt (fs fs' : FileSystem) (ps : List Path) : Prop :=
  ∀ r, r ∉ ps → (fs'.IsFile r ↔ fs.IsFile r)

theorem isFile_of_fileAt {f : ℕ × List UInt8} (h : fs.fileAt p = some f) : fs.IsFile p :=
  ⟨f.1, (fileAt_eq_some.mp (show fs.fileAt p = some (f.1, f.2) from h)).1⟩

theorem IsFile.exists_fileAt (h : fs.IsFile p) : ∃ f, fs.fileAt p = some f := by
  obtain ⟨i, hi⟩ := h
  exact ⟨_, fileAt_eq_some.mpr ⟨hi, rfl⟩⟩

theorem changesAt_refl (fs : FileSystem) (ps : List Path) : fs.ChangesAt fs ps :=
  fun _ _ => Iff.rfl

theorem changesAt_of_fileAt {ps : List Path}
    (h : ∀ r, r ∉ ps → fs'.fileAt r = fs.fileAt r) : fs.ChangesAt fs' ps := by
  intro r hr
  have hsame := h r hr
  constructor
  · intro hfile
    obtain ⟨f, hf⟩ := hfile.exists_fileAt
    exact isFile_of_fileAt (hsame.symm.trans hf)
  · intro hfile
    obtain ⟨f, hf⟩ := hfile.exists_fileAt
    exact isFile_of_fileAt (hsame.trans hf)

theorem changesAt_bindName (fs : FileSystem) (p : Path) (e : DirEntry) :
    fs.ChangesAt (fs.bindName p e) [p] := by
  intro r hr
  unfold IsFile
  rw [lookup_bindName, if_neg (List.mem_singleton.not.mp hr)]

theorem changesAt_createNew (h : fs.createNew p now = some (i, fs')) : fs.ChangesAt fs' [p] := by
  unfold createNew at h
  split at h
  · cases h
    exact changesAt_bindName (fs.setData fs.nextInode ⟨[], now⟩) p (.file fs.nextInode)
  · cases h

theorem changesAt_openWrite (h : fs.openWrite p now = some (i, fs')) : fs.ChangesAt fs' [p] := by
  unfold openWrite at h
  split at h
  · cases h
    exact changesAt_refl fs [p]
  · cases h
  · exact changesAt_createNew h

theorem changesAt_move (h : fs.move p q = some fs') : fs.ChangesAt fs' [p, q] := by
  obtain ⟨-, f, -, -, hfile⟩ := fileAt_move h
  apply changesAt_of_fileAt
  intro r hr
  rw [List.mem_pair, not_or] at hr
  rw [hfile, if_neg hr.2, if_neg hr.1]

theorem changesAt_delete (h : fs.delete p = some fs') : fs.ChangesAt fs' [p] := by
  apply changesAt_of_fileAt
  intro r hr
  rw [(fileAt_delete h).2, if_neg (List.mem_singleton.not.mp hr)]

theorem changesAt_remove (h : fs.remove p = some (q, fs')) : fs.ChangesAt fs' [q] := by
  apply changesAt_of_fileAt
  intro r hr
  rw [(fileAt_remove h).2.2, if_neg (List.mem_singleton.not.mp hr)]

theorem changesAt_createDirectories (h : fs.createDirectories p = some fs') (ps : List Path) :
    fs.ChangesAt fs' ps := changesAt_of_fileAt fun r _ => (fileAt_createDirectories h).2 r

/-! ### Well-formedness is kept -/

namespace WellFormed

/-- Where every name stands for what it stood for, or for nothing. -/
theorem of_fewer (hwf : fs.WellFormed) (hnext : fs.nextInode ≤ fs'.nextInode)
    (h : ∀ q j c, fs'.fileAt q = some (j, c) → ∃ d, fs.fileAt q = some (j, d)) :
    fs'.WellFormed := by
  constructor
  · intro q j c hq
    obtain ⟨d, hd⟩ := h q j c hq
    exact Nat.lt_of_lt_of_le (hwf.created hd) hnext
  · intro q r j c d hq hr
    obtain ⟨c', hc'⟩ := h q j c hq
    obtain ⟨d', hd'⟩ := h r j d hr
    exact hwf.oneName hc' hd'

/-- Where one name is given to a file that has no other. -/
theorem of_renamed (hwf : fs.WellFormed) (hnext : fs.nextInode ≤ fs'.nextInode)
    (hi : i < fs'.nextInode) (hone : ∀ q c, q ≠ p → fs'.fileAt q ≠ some (i, c))
    (hself : ∀ j c, fs'.fileAt p = some (j, c) → j = i)
    (h : ∀ q, q ≠ p → fs'.fileAt q = fs.fileAt q ∨ fs'.fileAt q = none) : fs'.WellFormed := by
  have hold : ∀ q j c, q ≠ p → fs'.fileAt q = some (j, c) → fs.fileAt q = some (j, c) := by
    intro q j c hne hq
    rcases h q hne with hsame | hgone
    · exact hsame.symm.trans hq
    · rw [hgone] at hq
      cases hq
  constructor
  · intro q j c hq
    by_cases hqp : q = p
    · subst hqp
      rw [hself j c hq]
      exact hi
    · exact Nat.lt_of_lt_of_le (hwf.created (hold q j c hqp hq)) hnext
  · intro q r j c d hq hr
    by_cases hqp : q = p <;> by_cases hrp : r = p
    · rw [hqp, hrp]
    · subst hqp
      rw [hself j c hq] at hr
      exact absurd hr (hone r d hrp)
    · subst hrp
      rw [hself j d hr] at hq
      exact absurd hq (hone q c hqp)
    · exact hwf.oneName (hold q j c hqp hq) (hold r j d hrp hr)

theorem createNew (hwf : fs.WellFormed) (h : fs.createNew p now = some (i, fs')) :
    fs'.WellFormed := by
  obtain ⟨rfl, hnext, -, hfile⟩ := fileAt_createNew hwf h
  apply @of_renamed fs fs' p fs.nextInode hwf (by omega) (by omega)
  · intro q c hq hfresh
    rw [hfile, if_neg hq] at hfresh
    exact absurd (hwf.created hfresh) (lt_irrefl _)
  · intro j c hj
    rw [hfile, if_pos rfl] at hj
    cases hj
    rfl
  · intro q hq
    rw [hfile, if_neg hq]
    exact .inl rfl

theorem openWrite (hwf : fs.WellFormed) (h : fs.openWrite p now = some (i, fs')) :
    fs'.WellFormed := by
  obtain ⟨hfile, hinode⟩ := fileAt_openWrite hwf h
  have hother : ∀ q c, q ≠ p → fs.fileAt q ≠ some (i, c) := by
    intro q c hq hi
    rcases hinode with ⟨⟨d, hd⟩, -⟩ | ⟨-, rfl, -⟩
    · exact hq (hwf.oneName hi hd)
    · exact absurd (hwf.created hi) (lt_irrefl _)
  have hlt : i < fs'.nextInode := by
    rcases hinode with ⟨⟨d, hd⟩, hnext⟩ | ⟨-, rfl, hnext⟩
    · rw [hnext]
      exact hwf.created hd
    · omega
  apply @of_renamed fs fs' p i hwf (by omega) hlt
  · intro q c hq
    rw [hfile, if_neg hq]
    exact hother q c hq
  · intro j c hj
    rw [hfile, if_pos rfl] at hj
    cases hj
    rfl
  · intro q hq
    rw [hfile, if_neg hq]
    exact .inl rfl

theorem append (hwf : fs.WellFormed) (i : ℕ) (bytes : List UInt8) (now : ℤ) :
    (fs.append i bytes now).WellFormed := by
  apply @of_fewer fs (fs.append i bytes now) hwf (Nat.le_refl _)
  intro q j c hq
  obtain ⟨d, hd, -⟩ := exists_fileAt_of_append hq
  exact ⟨d, hd⟩

theorem move (hwf : fs.WellFormed) (h : fs.move p q = some fs') : fs'.WellFormed := by
  obtain ⟨hnext, ⟨i, c⟩, hp, hq, hfile⟩ := fileAt_move h
  apply @of_renamed fs fs' q i hwf (Nat.le_of_eq hnext.symm) (by rw [hnext]; exact hwf.created hp)
  · intro r d hr hi
    rw [hfile, if_neg hr] at hi
    split at hi
    · cases hi
    · rename_i hrp
      exact hrp (hwf.oneName hi hp)
  · intro j d hj
    rw [hfile, if_pos rfl] at hj
    cases hj
    rfl
  · intro r hr
    rw [hfile, if_neg hr]
    split
    · exact .inr rfl
    · exact .inl rfl

end WellFormed

/-- Files have been removed at most. -/
structure Shrinks (fs fs' : FileSystem) : Prop where
  nextInode : fs'.nextInode = fs.nextInode
  files : ∀ q, fs'.fileAt q = fs.fileAt q ∨ fs'.fileAt q = none

namespace Shrinks

theorem refl (fs : FileSystem) : fs.Shrinks fs := ⟨rfl, fun _ => .inl rfl⟩

theorem of_fileAt (hnext : fs'.nextInode = fs.nextInode)
    (h : ∀ q, fs'.fileAt q = if q = p then none else fs.fileAt q) : fs.Shrinks fs' := by
  refine ⟨hnext, ?_⟩
  intro q
  rw [h]
  split
  · exact .inr rfl
  · exact .inl rfl

theorem delete (h : fs.delete p = some fs') : fs.Shrinks fs' :=
  of_fileAt (fileAt_delete h).1 (fileAt_delete h).2

theorem remove (h : fs.remove p = some (q, fs')) : fs.Shrinks fs' :=
  of_fileAt (fileAt_remove h).2.1 (fileAt_remove h).2.2

theorem createDirectories (h : fs.createDirectories p = some fs') : fs.Shrinks fs' :=
  ⟨(fileAt_createDirectories h).1, fun q => .inl ((fileAt_createDirectories h).2 q)⟩

theorem isFile (h : fs.Shrinks fs') (hp : fs'.IsFile p) : fs.IsFile p := by
  obtain ⟨f, hf⟩ := hp.exists_fileAt
  rcases h.files p with hsame | hgone
  · exact isFile_of_fileAt (hsame.symm.trans hf)
  · cases hgone.symm.trans hf

theorem wellFormed (h : fs.Shrinks fs') (hwf : fs.WellFormed) : fs'.WellFormed := by
  apply hwf.of_fewer (Nat.le_of_eq h.nextInode.symm)
  intro q j c hq
  rcases h.files q with hsame | hgone
  · exact ⟨c, hsame.symm.trans hq⟩
  · rw [hgone] at hq
    cases hq

end Shrinks

/-! ### Files that are open -/

/-- No path but this leads to the file. -/
structure OnlyAt (fs : FileSystem) (i : ℕ) (p : Path) : Prop where
  created : i < fs.nextInode
  names : ∀ {q : Path} {c : List UInt8}, fs.fileAt q = some (i, c) → q = p

theorem onlyAt_of_openWrite (hwf : fs.WellFormed) (h : fs.openWrite p now = some (i, fs')) :
    fs'.OnlyAt i p := by
  have hp : fs'.fileAt p = some (i, []) := ((fileAt_openWrite hwf h).1 p).trans (if_pos rfl)
  exact ⟨(hwf.openWrite h).created hp, fun hq => (hwf.openWrite h).oneName hq hp⟩

namespace OnlyAt

theorem of_fewer (h : fs.OnlyAt i p) (hnext : fs.nextInode ≤ fs'.nextInode)
    (hfewer : ∀ q c, fs'.fileAt q = some (i, c) → ∃ d, fs.fileAt q = some (i, d)) :
    fs'.OnlyAt i p := by
  refine ⟨Nat.lt_of_lt_of_le h.created hnext, ?_⟩
  intro q c hq
  obtain ⟨d, hd⟩ := hfewer q c hq
  exact h.names hd

theorem shrinks (h : fs.OnlyAt i p) (hshrinks : fs.Shrinks fs') : fs'.OnlyAt i p := by
  apply h.of_fewer (Nat.le_of_eq hshrinks.nextInode.symm)
  intro q c hq
  rcases hshrinks.files q with hsame | hgone
  · exact ⟨c, hsame.symm.trans hq⟩
  · rw [hgone] at hq
    cases hq

theorem append (h : fs.OnlyAt i p) (j : ℕ) (bytes : List UInt8) (now : ℤ) :
    (fs.append j bytes now).OnlyAt i p := by
  apply @of_fewer fs (fs.append j bytes now) p i h (Nat.le_refl _)
  intro q c hq
  obtain ⟨d, hd, -⟩ := exists_fileAt_of_append hq
  exact ⟨d, hd⟩

/-- Writing shows at that path only. -/
theorem fileAt_append (h : fs.OnlyAt i p) (bytes : List UInt8) (now : ℤ) (hq : q ≠ p) :
    (fs.append i bytes now).fileAt q = fs.fileAt q :=
  fileAt_append_of_ne fun _ hc => hq (h.names hc)

theorem createNew (h : fs.OnlyAt i p) (hwf : fs.WellFormed) {j : ℕ}
    (hcreate : fs.createNew q now = some (j, fs')) : fs'.OnlyAt i p := by
  obtain ⟨rfl, hnext, -, hfile⟩ := fileAt_createNew hwf hcreate
  apply h.of_fewer (by omega)
  intro r c hr
  rw [hfile] at hr
  split at hr
  · cases hr
    exact absurd h.created (lt_irrefl _)
  · exact ⟨c, hr⟩

theorem openWrite (h : fs.OnlyAt i p) (hwf : fs.WellFormed) {j : ℕ}
    (hopen : fs.openWrite q now = some (j, fs')) : fs'.OnlyAt i p := by
  obtain ⟨hfile, hinode⟩ := fileAt_openWrite hwf hopen
  have hnext : fs.nextInode ≤ fs'.nextInode := by
    rcases hinode with ⟨-, hsame⟩ | ⟨-, -, hmore⟩ <;> omega
  apply h.of_fewer hnext
  intro r c hr
  rw [hfile] at hr
  split at hr
  · rename_i heq
    cases hr
    subst heq
    rcases hinode with ⟨hold, -⟩ | ⟨-, rfl, -⟩
    · exact hold
    · exact absurd h.created (lt_irrefl _)
  · exact ⟨c, hr⟩

/-- Renaming another file. -/
theorem move (h : fs.OnlyAt i p) {r : Path} (hmove : fs.move q r = some fs') (hne : p ≠ q) :
    fs'.OnlyAt i p := by
  obtain ⟨hnext, f, hq, -, hfile⟩ := fileAt_move hmove
  apply h.of_fewer (Nat.le_of_eq hnext.symm)
  intro r' c hr
  rw [hfile] at hr
  split at hr
  · cases hr
    exact absurd (h.names hq).symm hne
  · split at hr
    · cases hr
    · exact ⟨c, hr⟩

end OnlyAt

/-! ### Trees -/

/-- Everything is in a directory. -/
def IsTree (fs : FileSystem) : Prop :=
  ∀ p name, (fs.lookup (p ++ [name])).isSome = true → fs.lookup p = some .directory

theorem isTree_of_keys
    (h : ∀ r ∈ fs.entries.keys, r ≠ [] → fs.lookup r.dropLast = some .directory) : fs.IsTree := by
  intro p name hsome
  have hparent := h (p ++ [name]) (AList.mem_keys.mp (AList.lookup_isSome.mp hsome)) (by simp)
  rwa [List.dropLast_concat] at hparent

theorem IsTree.directory_of_append (h : fs.IsTree) {rest : List String} (hne : rest ≠ [])
    (hrest : (fs.lookup (p ++ rest)).isSome = true) : fs.lookup p = some .directory := by
  induction rest using List.reverseRecOn with
  | nil => exact absurd rfl hne
  | append_singleton rest name ih =>
      rw [← List.append_assoc] at hrest
      have hparent := h _ name hrest
      by_cases hrest' : rest = []
      · rw [hrest', List.append_nil] at hparent
        exact hparent
      · exact ih hrest' (by rw [hparent]; rfl)

theorem mem_children_iff {r : Path} :
    r ∈ fs.children p ↔ (∃ name, r = p ++ [name]) ∧ (fs.lookup r).isSome = true := by
  constructor
  · exact mem_children
  · rintro ⟨⟨name, rfl⟩, hsome⟩
    refine List.mem_filter.mpr ⟨AList.mem_keys.mp (AList.lookup_isSome.mp hsome), ?_⟩
    simp

/-- The way down to something below a directory goes through one of its entries. -/
theorem IsTree.exists_child (h : fs.IsTree) {r : Path} (hr : (fs.lookup r).isSome = true)
    (hunder : p <+: r) (hne : r ≠ p) : ∃ c ∈ fs.children p, c <+: r := by
  obtain ⟨below, rfl⟩ := hunder
  cases below with
  | nil => exact absurd (List.append_nil p) hne
  | cons name below =>
      have hsplit : p ++ name :: below = (p ++ [name]) ++ below := by simp
      refine ⟨p ++ [name], mem_children_iff.mpr ⟨⟨name, rfl⟩, ?_⟩, below, hsplit.symm⟩
      rw [hsplit] at hr
      by_cases hbelow : below = []
      · rw [hbelow, List.append_nil] at hr
        exact hr
      · rw [h.directory_of_append hbelow hr]
        rfl

theorem nodup_children (fs : FileSystem) (p : Path) : (fs.children p).Nodup :=
  List.Nodup.filter _ fs.entries.nodupKeys

/-- The paths are bounded in length. -/
theorem exists_depth (fs : FileSystem) :
    ∃ d, ∀ r, (fs.lookup r).isSome = true → r.length < d := by
  obtain ⟨d, hd⟩ : ∃ d, ∀ r ∈ fs.entries.keys, r.length < d := by
    induction fs.entries.keys with
    | nil => exact ⟨0, by simp⟩
    | cons r rs ih =>
        obtain ⟨d, hd⟩ := ih
        refine ⟨max d (r.length + 1), ?_⟩
        rw [List.forall_mem_cons]
        exact ⟨by omega, fun r' hr' => by have := hd r' hr'; omega⟩
  exact ⟨d, fun r hr => hd r (AList.mem_keys.mp (AList.lookup_isSome.mp hr))⟩

end FileSystem

end AisStore.Lib
