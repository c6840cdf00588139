import AisStore.Cassandra
import AisStore.Lib.Transition

/-!
`FileDiff`: which packets of some files are not in the database.

The reader submits a task for each packet to a pool of threads, and each
task looks the packet up, prints it if nothing is found, and counts. Tasks
run step by step in any interleaving, which is what any number of threads,
any queue in front of them and any order of completion come to.

The statement names the time block and the timestamp of a packet but not its
digest, the last column of the primary key. A packet that is not stored is
thus taken for one that is if any packet of its millisecond is
(`diffPackets_iff`).
-/

namespace AisStore

open Lib

/-- `resultSet.one()`. -/
def Lib.Paged.one {α : Type} (rs : Paged α) : Option α :=
  (Paged.prepareNext rs.available rs.pages).available.head?

/-- How far a task has come. From `printing` on the flag says whether the
packet was found. -/
inductive TaskPhase where
  | submitted
  | answered (one : Option ResultRow)
  /-- `packetsNotInCassandra` is incremented, and the packet not yet printed. -/
  | printing
  /-- `packetsProcessed` is not yet incremented. -/
  | counting (inCassandra : Bool)
  | finished (inCassandra : Bool)
  /-- `timeBlock` has thrown, and the executor keeps the exception to itself. -/
  | threw
  deriving DecidableEq

structure DiffTask where
  packet : AisPacket
  phase : TaskPhase := .submitted
  deriving DecidableEq

structure FileDiff where
  /-- What the reader has yet to deliver. -/
  unread : List AisPacket
  tasks : List DiffTask
  packetsProcessed : ℕ
  packetsInCassandra : ℕ
  packetsNotInCassandra : ℕ
  printed : List AisPacket
  deriving DecidableEq

inductive DiffAction where
  /-- The reader hands the next packet to `accept`, which submits its task. -/
  | accept
  /-- The task at this place makes its next step. -/
  | run (i : ℕ)

namespace FileDiff

section
variable {Pos : Type} (lib : AisLib Pos) (session : Session)

def select (table : Table) (timeBlock : ℤ) (timestamp : Long) : Select where
  columns := [.aisdata]
  table := table
  whereClauses := [.eq .timeblock timeBlock, .eq .timestamp timestamp.1]
  fetchSize := 0

/-- The query of a task. -/
def lookup (table : Table) (p : AisPacket) : Except Failure (Option ResultRow) := do
  let timestamp := lib.getBestTimestamp p
  let timeBlock ← timeBlock table (.ofEpochMilli timestamp)
  return (session (select table timeBlock timestamp)).one

def start (files : List AisPacket) : FileDiff := ⟨files, [], 0, 0, 0, []⟩

def setPhase (s : FileDiff) (i : ℕ) (p : AisPacket) (phase : TaskPhase) : FileDiff :=
  { s with tasks := s.tasks.set i ⟨p, phase⟩ }

def step (table : Table) (s : FileDiff) : DiffAction → Option FileDiff
  | .accept =>
    match s.unread with
    | [] => none
    | p :: unread => some { s with unread := unread, tasks := s.tasks ++ [{ packet := p }] }
  | .run i => do
    let ⟨p, phase⟩ ← s.tasks[i]?
    match phase with
    | .submitted =>
      match lookup lib session table p with
      | .ok one => some (s.setPhase i p (.answered one))
      | .error _ => some (s.setPhase i p .threw)
    | .answered none =>
      some { s.setPhase i p .printing with packetsNotInCassandra := s.packetsNotInCassandra + 1 }
    | .printing => some { s.setPhase i p (.counting false) with printed := s.printed ++ [p] }
    | .answered (some _) =>
      some { s.setPhase i p (.counting true) with packetsInCassandra := s.packetsInCassandra + 1 }
    | .counting inCassandra =>
      some
        { s.setPhase i p (.finished inCassandra) with packetsProcessed := s.packetsProcessed + 1 }
    | .finished _ => none
    | .threw => none

/-- All packets are read, and no task has a step left. -/
def Ended (s : FileDiff) : Prop :=
  s.unread = [] ∧ ∀ t ∈ s.tasks, (∃ inCassandra, t.phase = .finished inCassandra) ∨ t.phase = .threw

end

/-! ### What the tasks have done -/

/-- The tasks that have incremented `packetsProcessed`, and so on. -/
def processed (t : DiffTask) : Bool := t.phase matches .finished _

def inCassandra (t : DiffTask) : Bool := t.phase matches .counting true | .finished true

def notInCassandra (t : DiffTask) : Bool :=
  t.phase matches .printing | .counting false | .finished false

def hasPrinted (t : DiffTask) : Bool := t.phase matches .counting false | .finished false

section
variable {Pos : Type} (lib : AisLib Pos) (session : Session) (table : Table)

/-- The phase of a task agrees with what its query answers. -/
def Agrees (t : DiffTask) : Prop :=
  match t.phase with
  | .submitted => True
  | .answered one => lookup lib session table t.packet = .ok one
  | .printing => lookup lib session table t.packet = .ok none
  | .counting inCassandra =>
    ∃ one, lookup lib session table t.packet = .ok one ∧ one.isSome = inCassandra
  | .finished inCassandra =>
    ∃ one, lookup lib session table t.packet = .ok one ∧ one.isSome = inCassandra
  | .threw => ¬ Returns (lookup lib session table t.packet)

/-- The invariant: there is a task for each packet read, the counters count
tasks, and what is printed is the packets of the tasks that have printed. -/
structure Tallied (packets : List AisPacket) (s : FileDiff) : Prop where
  packets_eq : packets = s.tasks.map DiffTask.packet ++ s.unread
  agrees : ∀ t ∈ s.tasks, Agrees lib session table t
  packetsProcessed : s.packetsProcessed = s.tasks.countP processed
  packetsInCassandra : s.packetsInCassandra = s.tasks.countP inCassandra
  packetsNotInCassandra : s.packetsNotInCassandra = s.tasks.countP notInCassandra
  printed : ∀ p, s.printed.count p = s.tasks.countP fun t => t.packet = p ∧ hasPrinted t

end

section
variable {Pos : Type} {lib : AisLib Pos} {session : Session} {table : Table}
  {packets : List AisPacket} {s s' : FileDiff}

theorem tallied_start : Tallied lib session table packets (start packets) where
  packets_eq := rfl
  agrees := by simp [start]
  packetsProcessed := rfl
  packetsInCassandra := rfl
  packetsNotInCassandra := rfl
  printed _ := rfl

/-- How a number of tasks changes when one of them moves on. -/
theorem countP_setPhase {i : ℕ} {t : DiffTask} (ht : s.tasks[i]? = some t)
    (counted : DiffTask → Bool) (phase : TaskPhase) :
    (s.setPhase i t.packet phase).tasks.countP counted + (if counted t then 1 else 0) =
      s.tasks.countP counted + if counted ⟨t.packet, phase⟩ then 1 else 0 := by
  obtain ⟨hlt, rfl⟩ := List.getElem?_eq_some_iff.mp ht
  have hle : (if counted s.tasks[i] then 1 else 0) ≤ s.tasks.countP counted := by
    split
    · rename_i hcounted
      exact List.countP_pos_iff.mpr ⟨_, List.getElem_mem hlt, hcounted⟩
    · exact Nat.zero_le _
  rw [setPhase, List.countP_set hlt]
  omega

/-- A step of one task keeps the invariant if it accounts for that task. -/
theorem Tallied.run (h : Tallied lib session table packets s) {i : ℕ} {t : DiffTask}
    (ht : s.tasks[i]? = some t) (phase : TaskPhase)
    (hagrees : Agrees lib session table ⟨t.packet, phase⟩)
    (htasks : s'.tasks = (s.setPhase i t.packet phase).tasks) (hunread : s'.unread = s.unread)
    (hprocessed : s'.packetsProcessed + (if processed t then 1 else 0) =
      s.packetsProcessed + if processed ⟨t.packet, phase⟩ then 1 else 0)
    (hin : s'.packetsInCassandra + (if inCassandra t then 1 else 0) =
      s.packetsInCassandra + if inCassandra ⟨t.packet, phase⟩ then 1 else 0)
    (hnotIn : s'.packetsNotInCassandra + (if notInCassandra t then 1 else 0) =
      s.packetsNotInCassandra + if notInCassandra ⟨t.packet, phase⟩ then 1 else 0)
    (hprinted : ∀ p, s'.printed.count p + (if t.packet = p ∧ hasPrinted t then 1 else 0) =
      s.printed.count p + if t.packet = p ∧ hasPrinted ⟨t.packet, phase⟩ then 1 else 0) :
    Tallied lib session table packets s' where
  packets_eq := by
    obtain ⟨hlt, rfl⟩ := List.getElem?_eq_some_iff.mp ht
    rw [htasks, hunread, h.packets_eq, setPhase, List.map_set]
    have hsame : (s.tasks.map DiffTask.packet).set i s.tasks[i].packet =
        s.tasks.map DiffTask.packet := by
      have hlt' : i < (s.tasks.map DiffTask.packet).length := by simpa using hlt
      simpa using List.set_getElem_self hlt'
    rw [hsame]
  agrees := by
    intro t' ht'
    rw [htasks] at ht'
    rcases List.mem_or_eq_of_mem_set ht' with hmem | rfl
    · exact h.agrees t' hmem
    · exact hagrees
  packetsProcessed := by
    have := countP_setPhase ht processed phase
    have := h.packetsProcessed
    rw [htasks]
    omega
  packetsInCassandra := by
    have := countP_setPhase ht inCassandra phase
    have := h.packetsInCassandra
    rw [htasks]
    omega
  packetsNotInCassandra := by
    have := countP_setPhase ht notInCassandra phase
    have := h.packetsNotInCassandra
    rw [htasks]
    omega
  printed p := by
    have hcount := countP_setPhase ht (fun t => t.packet = p ∧ hasPrinted t) phase
    have hbefore := h.printed p
    have hstep := hprinted p
    simp only [decide_eq_true_eq] at hcount
    rw [htasks]
    omega

theorem Tallied.step (h : Tallied lib session table packets s) {a : DiffAction}
    (hstep : FileDiff.step lib session table s a = some s') :
    Tallied lib session table packets s' := by
  cases a with
  | accept =>
    simp only [FileDiff.step] at hstep
    split at hstep
    · cases hstep
    · rename_i p unread hunread
      cases hstep
      refine ⟨?_, ?_, ?_, ?_, ?_, fun q => ?_⟩
      · simp [h.packets_eq, hunread]
      · intro t ht
        rcases List.mem_append.mp ht with hmem | hnew
        · exact h.agrees t hmem
        · rw [List.mem_singleton.mp hnew]
          trivial
      · simpa [List.countP_append, processed] using h.packetsProcessed
      · simpa [List.countP_append, inCassandra] using h.packetsInCassandra
      · simpa [List.countP_append, notInCassandra] using h.packetsNotInCassandra
      · simpa [List.countP_append, hasPrinted] using h.printed q
  | run i =>
    obtain ⟨⟨p, phase⟩, ht, hstep⟩ := Option.bind_eq_some_iff.mp hstep
    have hagrees := h.agrees _ (List.mem_of_getElem? ht)
    cases phase with
    | submitted =>
      cases hlookup : lookup lib session table p with
      | ok one =>
        simp only [hlookup] at hstep
        cases hstep
        exact h.run ht (.answered one) hlookup rfl rfl rfl rfl rfl fun _ => rfl
      | error e =>
        simp only [hlookup] at hstep
        cases hstep
        refine h.run ht .threw ?_ rfl rfl rfl rfl rfl fun _ => rfl
        rintro ⟨one, hone⟩
        rw [hlookup] at hone
        cases hone
    | answered one =>
      cases one with
      | none =>
        cases hstep
        exact h.run ht .printing hagrees rfl rfl rfl rfl rfl fun _ => rfl
      | some row =>
        cases hstep
        exact h.run ht (.counting true) ⟨some row, hagrees, rfl⟩ rfl rfl rfl rfl rfl fun _ => rfl
    | printing =>
      cases hstep
      refine h.run ht (.counting false) ⟨none, hagrees, rfl⟩ rfl rfl rfl rfl rfl fun q => ?_
      rw [List.count_append, List.count_singleton]
      simp [hasPrinted]
    | counting inCassandra =>
      cases hstep
      cases inCassandra <;> exact h.run ht (.finished _) hagrees rfl rfl rfl rfl rfl fun _ => rfl
    | finished inCassandra => cases hstep
    | threw => cases hstep

/-! ### What is left when all tasks have ended -/

/-- The row has the packet's block and time. -/
def SameMillisecond (lib : AisLib Pos) (p : AisPacket) (r : Row) : Prop :=
  timeBlock .packetsTime (.ofEpochMilli (lib.getBestTimestamp p)) = .ok r.timeblock ∧
    r.time = lib.getBestTimestamp p

instance (lib : AisLib Pos) (p : AisPacket) (r : Row) : Decidable (SameMillisecond lib p r) :=
  inferInstanceAs (Decidable (_ ∧ _))

/-- There is a row under the packet's key. -/
def Stored (lib : AisLib Pos) (store : Store) (p : AisPacket) : Prop :=
  ∃ r ∈ (store .packetsTime).rows, SameMillisecond lib p r ∧ r.digest = digest lib p

instance (lib : AisLib Pos) (store : Store) (p : AisPacket) : Decidable (Stored lib store p) :=
  inferInstanceAs (Decidable (∃ r ∈ (store .packetsTime).rows, _))

/-- The query of the packet returns nothing. -/
def missing (lib : AisLib Pos) (session : Session) (table : Table) (p : AisPacket) : Bool :=
  lookup lib session table p matches .ok none

/-- The query of the packet returns. -/
def answered (lib : AisLib Pos) (session : Session) (table : Table) (p : AisPacket) : Bool :=
  lookup lib session table p matches .ok _

/-- What an ended task has done is what its query answers. -/
theorem Agrees.ended {t : DiffTask} (h : Agrees lib session table t)
    (hended : (∃ inCassandra, t.phase = .finished inCassandra) ∨ t.phase = .threw) :
    hasPrinted t = missing lib session table t.packet ∧
      processed t = answered lib session table t.packet ∧
      (if inCassandra t then 1 else 0) + (if notInCassandra t then 1 else 0) =
        if processed t then 1 else 0 := by
  obtain ⟨p, phase⟩ := t
  obtain ⟨found, rfl⟩ | rfl := hended
  · obtain ⟨one, hlookup, rfl⟩ := h
    cases one <;> simp_all [hasPrinted, missing, notInCassandra, processed, answered, inCassandra]
  · cases hlookup : lookup lib session table p with
    | ok one => exact absurd ⟨one, hlookup⟩ h
    | error e =>
        simp [hasPrinted, missing, notInCassandra, processed, answered, inCassandra, hlookup]

/-- Two kinds of elements that make up a third without overlap. -/
theorem countP_add_countP {α : Type} {p q r : α → Bool} {l : List α}
    (h : ∀ a ∈ l, (if p a then 1 else 0) + (if q a then 1 else 0) = if r a then 1 else 0) :
    l.countP p + l.countP q = l.countP r := by
  induction l with
  | nil => rfl
  | cons a l ih =>
    have hhead := h a (List.mem_cons_self ..)
    have htail := ih fun b hb => h b (List.mem_cons_of_mem a hb)
    simp only [List.countP_cons]
    omega

/-- What is printed and counted in the end, in terms of the queries' answers. -/
theorem Tallied.ended (h : Tallied lib session table packets s) (hended : s.Ended) :
    s.printed.Perm (packets.filter (missing lib session table)) ∧
      s.packetsInCassandra + s.packetsNotInCassandra = s.packetsProcessed ∧
      s.packetsProcessed = packets.countP (answered lib session table) := by
  obtain ⟨hunread, htasks⟩ := hended
  have hpackets : packets = s.tasks.map DiffTask.packet := by
    rw [h.packets_eq, hunread, List.append_nil]
  have hall : ∀ t ∈ s.tasks, _ := fun t ht => (h.agrees t ht).ended (htasks t ht)
  refine ⟨?_, ?_, ?_⟩
  · rw [List.perm_iff_count]
    intro p
    rw [h.printed p, hpackets, List.count_eq_countP, List.countP_filter, List.countP_map]
    refine List.countP_congr fun t ht => ?_
    simp [(hall t ht).1]
  · rw [h.packetsInCassandra, h.packetsNotInCassandra, h.packetsProcessed]
    exact countP_add_countP fun t ht => (hall t ht).2.2
  · rw [h.packetsProcessed, hpackets, List.countP_map]
    refine List.countP_congr fun t ht => ?_
    simp [(hall t ht).2.1]

/-- `one()` returns a row exactly when one is left. -/
theorem one_eq_none {α : Type} {rs : Paged α} : rs.one = none ↔ rs.rows = [] := by
  have hrows := Paged.rows_prepareNext rs.available rs.pages
  rw [Paged.one, List.head?_eq_none_iff]
  constructor
  · intro hnil
    rw [Paged.rows, hnil, Paged.pages_prepareNext hnil] at hrows
    exact hrows.symm
  · intro hnil
    rw [show rs.available ++ rs.pages.flatten = [] from hnil] at hrows
    exact (List.append_eq_nil_iff.mp hrows).1

/-- The query of a packet that has a block finds nothing if no row has that
block and the packet's time. -/
theorem one_select_eq_none {store : Store} (hsession : session.EvaluatesWhere store)
    {p : AisPacket} {timeBlock : ℤ}
    (hblock : AisStore.timeBlock .packetsTime (.ofEpochMilli (lib.getBestTimestamp p)) =
      .ok timeBlock) :
    (session (select .packetsTime timeBlock (lib.getBestTimestamp p))).one = none ↔
      ∀ r ∈ (store .packetsTime).rows, ¬ SameMillisecond lib p r := by
  have hempty : ∀ {rows rows' : List ResultRow}, rows.Perm rows' → (rows = [] ↔ rows' = []) :=
    fun hperm => by rw [← List.length_eq_zero_iff, hperm.length_eq, List.length_eq_zero_iff]
  rw [one_eq_none, hempty (hsession _), List.map_eq_nil_iff, Select.matching,
    List.filter_eq_nil_iff]
  refine forall₂_congr fun r _ => not_congr ?_
  rw [SameMillisecond, hblock, Subtype.ext_iff]
  simp only [select, List.all_cons, List.all_nil, Clause.holds, Row.column, Bool.and_true,
    Bool.and_eq_true, decide_eq_true_eq, Option.some.injEq, Except.ok.injEq]
  exact and_congr_left' eq_comm

/-- The query of a packet returns once the packet has a block. -/
theorem lookup_eq {p : AisPacket} :
    lookup lib session .packetsTime p =
      (timeBlock .packetsTime (.ofEpochMilli (lib.getBestTimestamp p))).map fun timeBlock =>
        (session (select .packetsTime timeBlock (lib.getBestTimestamp p))).one := by
  rw [lookup]
  cases timeBlock .packetsTime (.ofEpochMilli (lib.getBestTimestamp p)) <;> rfl

/-- A query answers once the packet has a block. -/
theorem answered_iff (p : AisPacket) : answered lib session .packetsTime p = true ↔
    Returns (timeBlock .packetsTime (.ofEpochMilli (lib.getBestTimestamp p))) := by
  rw [answered, lookup_eq]
  cases timeBlock .packetsTime (.ofEpochMilli (lib.getBestTimestamp p)) <;>
    simp [Except.map, Returns]

theorem missing_iff {store : Store} (hsession : session.EvaluatesWhere store) (p : AisPacket) :
    missing lib session .packetsTime p = true ↔
      Returns (timeBlock .packetsTime (.ofEpochMilli (lib.getBestTimestamp p))) ∧
        ∀ r ∈ (store .packetsTime).rows, ¬ SameMillisecond lib p r := by
  rw [missing, lookup_eq]
  cases hblock : timeBlock .packetsTime (.ofEpochMilli (lib.getBestTimestamp p)) with
  | error e => simp [Except.map, Returns]
  | ok timeBlock =>
    rw [← one_select_eq_none hsession hblock]
    cases hone : (session (select .packetsTime timeBlock (lib.getBestTimestamp p))).one <;>
      simp [Except.map, Returns, hone]

end

end FileDiff

/-- For each packet read the time block exists, and if there is a row of its
block and time then there is one under its key: that is exactly when
`FileDiff`, with any number of threads and in any order of completion,
prints the packets that have no row under their key, and counts all. -/
theorem diffPackets_iff {Pos : Type} {lib : AisLib Pos} {store : Store} {session : Session}
    (hsession : session.EvaluatesWhere store) {files : List AisPacket} {s : FileDiff}
    (h : ReachedBy (FileDiff.step lib session .packetsTime) (fun _ _ => True)
      (FileDiff.start files) s) (hended : s.Ended) :
    (s.printed.Perm (files.filter fun p => ¬ FileDiff.Stored lib store p) ∧
        s.packetsInCassandra + s.packetsNotInCassandra = s.packetsProcessed ∧
        s.packetsProcessed = files.length) ↔
      ∀ p ∈ files, Returns (timeBlock .packetsTime (.ofEpochMilli (lib.getBestTimestamp p))) ∧
        ((∃ r ∈ (store .packetsTime).rows, FileDiff.SameMillisecond lib p r) →
          FileDiff.Stored lib store p) := by
  have htallied : FileDiff.Tallied lib session .packetsTime files s :=
    h.invariant FileDiff.tallied_start fun _ _ _ _ hstep hs => hs.step hstep
  obtain ⟨hprinted, hcounts, hprocessed⟩ := htallied.ended hended
  constructor
  · rintro ⟨hperm, -, hlength⟩ p hp
    have hreturns := (FileDiff.answered_iff p).mp
      (List.countP_eq_length.mp (hprocessed.symm.trans hlength) p hp)
    refine ⟨hreturns, ?_⟩
    rintro ⟨r, hr, hsame⟩
    by_contra hstored
    have hmem : p ∈ files.filter fun p => ¬ FileDiff.Stored lib store p :=
      List.mem_filter.mpr ⟨hp, by simpa using hstored⟩
    have hmem' := (hprinted.symm.trans hperm).mem_iff.mpr hmem
    exact ((FileDiff.missing_iff hsession p).mp (List.mem_filter.mp hmem').2).2 r hr hsame
  · intro hfiles
    refine ⟨?_, hcounts, ?_⟩
    · have hfilter : files.filter (FileDiff.missing lib session .packetsTime) =
          files.filter fun p => ¬ FileDiff.Stored lib store p := by
        refine List.filter_congr fun p hp => ?_
        obtain ⟨hreturns, hstored⟩ := hfiles p hp
        rw [Bool.eq_iff_iff, FileDiff.missing_iff hsession, decide_eq_true_eq]
        constructor
        · rintro ⟨-, hnone⟩ ⟨r, hr, hsame, -⟩
          exact hnone r hr hsame
        · intro hnot
          exact ⟨hreturns, fun r hr hsame => hnot (hstored ⟨r, hr, hsame⟩)⟩
      rw [← hfilter]
      exact hprinted
    · rw [hprocessed, List.countP_eq_length]
      exact fun p hp => (FileDiff.answered_iff p).mpr (hfiles p hp).1

def Decoded.packet (d : Decoded) : AisPacket := ⟨d.stringMessage⟩

/-- The time table holds the position report. -/
def onlyPositionReport : Store := Store.ofInserts
  [⟨.packetsTime, ⟨none, none, 1, toLong 600000, [1], positionReport.stringMessage⟩⟩]

/-- A packet that is stored and one of another second that is not, the second
looked up first. -/
theorem diffPackets_iff_otherSecond :
    let lib := AisLib.ofDecoded [positionReport, staticReport]
    let files := [positionReport.packet, staticReport.packet]
    ∃ s, ReachedBy (FileDiff.step lib (.ofStore onlyPositionReport) .packetsTime)
        (fun _ _ => True) (FileDiff.start files) s ∧ s.Ended ∧
      s.printed.Perm (files.filter fun p => ¬ FileDiff.Stored lib onlyPositionReport p) ∧
      s.packetsProcessed = 2 := by
  intro lib files
  have hsession := (Session.returnsInOrder_ofStore onlyPositionReport).evaluatesWhere
  obtain ⟨s, hs⟩ : ∃ s : FileDiff, s = ⟨[], [⟨positionReport.packet, .finished true⟩,
      ⟨staticReport.packet, .finished false⟩], 2, 1, 1, [staticReport.packet]⟩ := ⟨_, rfl⟩
  have hrun : [.accept, .accept, .run 1, .run 0, .run 1, .run 0, .run 0, .run 1, .run 1].foldlM
      (FileDiff.step lib (.ofStore onlyPositionReport) .packetsTime) (FileDiff.start files) =
        some s := by
    rw [hs]
    decide +kernel
  have hreached : ReachedBy (FileDiff.step lib (.ofStore onlyPositionReport) .packetsTime)
      (fun _ _ => True) _ s := ReachedBy.start.steps (fun _ _ _ => trivial) hrun
  have hended : s.Ended := by
    rw [hs]
    simp [FileDiff.Ended]
  have hdiff := (diffPackets_iff hsession hreached hended).mpr (by
    simp only [files, List.forall_mem_cons, List.not_mem_nil, false_implies, implies_true, and_true]
    exact ⟨⟨⟨_, rfl⟩, by decide +kernel⟩, ⟨⟨_, rfl⟩, by decide +kernel⟩⟩)
  exact ⟨s, hreached, hended, hdiff.1, hdiff.2.2⟩

/-- The same two messages with one time: the one that is not stored is taken
for stored. -/
theorem diffPackets_sameMillisecond :
    let lib := AisLib.ofDecoded
      [positionReport, { staticReport with bestTimestamp := positionReport.bestTimestamp }]
    let files := [positionReport.packet, staticReport.packet]
    (Session.ofStore onlyPositionReport).EvaluatesWhere onlyPositionReport ∧
      ¬ FileDiff.Stored lib onlyPositionReport staticReport.packet ∧
      ∃ s, ReachedBy (FileDiff.step lib (.ofStore onlyPositionReport) .packetsTime)
        (fun _ _ => True) (FileDiff.start files) s ∧ s.Ended ∧ s.printed = [] := by
  intro lib files
  have hrun : [.accept, .accept, .run 0, .run 0, .run 0, .run 1, .run 1, .run 1].foldlM
      (FileDiff.step lib (.ofStore onlyPositionReport) .packetsTime) (FileDiff.start files) =
        some ⟨[], [⟨positionReport.packet, .finished true⟩, ⟨staticReport.packet, .finished true⟩],
          2, 2, 0, []⟩ := by
    decide +kernel
  refine ⟨(Session.returnsInOrder_ofStore _).evaluatesWhere, by decide +kernel, _,
    ReachedBy.start.steps (fun _ _ _ => trivial) hrun, ?_, rfl⟩
  simp [FileDiff.Ended]

end AisStore
