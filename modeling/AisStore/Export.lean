import AisStore.Packet
import Mathlib.Data.List.Induction

/-!
`FileExportRest`: a download that can be resumed.

A run reads the meta file its predecessor left behind, asks the server for
the whole interval and drops what the meta file says it has. It appends
what remains to the output file and now and then replaces the meta file.
The code is given as the list of its effects on the outside world, in
order, so that a run can be cut off between any two of them and the effects
can be carried out on files (here and in `Resume`) or through a buffer (in
`Checkpoint`).

`run_saved` and `resumeTimestamp_run` say what one run does to the files.
The server's answer, what a run has received when it stops, is arbitrary.
-/

namespace AisStore

open Lib

/-- The meta file. -/
structure Meta where
  timestamp : ℤ
  packageCount : ℕ
  deriving DecidableEq, Repr

/-- What a run does to the outside world. -/
inductive Effect where
  /-- The line break before resumed data. -/
  | newline
  /-- `sink.process(outputStream, t, count)`. -/
  | process (t : AisPacket) (count : ℕ)
  /-- Replaces the meta file: `writeMetaInit` and `writeMetaUpdate`. -/
  | writeMeta (contents : Meta)
  /-- `outputStream.flush()`. -/
  | flushOutput
  /-- `fileOutputStream.flush()`. -/
  | flushFile
  /-- `sink.footer(outputStream, count)`. -/
  | footer (count : ℕ)
  deriving DecidableEq, Repr

/-- The fields a run works on. -/
structure FileExportRest where
  currentTimeStamp : ℤ
  lastFlushTimestamp : ℤ
  lastLoadedTimestamp : ℤ
  counter : ℕ

namespace FileExportRest

/-- The beginning of `run` once the output is open, up to the request: resume
what the meta file describes, if it is read and counts any packet, or start
afresh. -/
def start (forceDownload : Bool) (intervalStart : ℤ) (found : Option Meta) :
    FileExportRest × List Effect :=
  match forceDownload with
  | false =>
    let packageCount := found.elim 0 Meta.packageCount
    let lastLoadedTimestamp := found.elim 0 Meta.timestamp
    if packageCount ≠ 0 then
      (⟨0, 0, lastLoadedTimestamp, packageCount⟩, [.newline])
    else
      (⟨0, 0, intervalStart, packageCount⟩, [.writeMeta ⟨intervalStart, packageCount⟩])
  -- `packageCount` is still 0
  | true => (⟨0, 0, intervalStart, 0⟩, [.writeMeta ⟨intervalStart, 0⟩])

section
variable {Pos : Type} (lib : AisLib Pos)

/-- The packet handler of `aisReadWriter`. -/
def accept (c : FileExportRest) (t : AisPacket) : FileExportRest × List Effect :=
  let message := lib.tryGetAisMessage t
  let c := { c with currentTimeStamp := (lib.getBestTimestamp t).1 }
  if c.lastLoadedTimestamp ≥ c.currentTimeStamp then (c, [])
  else if message.isNone then (c, [])
  else
    let c := { c with counter := c.counter + 1 }
    if c.currentTimeStamp ≠ c.lastFlushTimestamp ∧ c.counter % 10000 = 0 then
      ({ c with lastFlushTimestamp := c.currentTimeStamp },
        [.process t c.counter, .writeMeta ⟨c.currentTimeStamp, c.counter⟩, .flushOutput,
          .flushFile])
    else (c, [.process t c.counter])

/-- The handler on one packet after another. -/
def aisReadWriter (c : FileExportRest) (received : List AisPacket) :
    FileExportRest × List Effect :=
  received.foldl (fun x t => ((accept lib x.1 t).1, x.2 ++ (accept lib x.1 t).2)) (c, [])

/-- The end of `run`, when the response has ended. -/
def finish (c : FileExportRest) : List Effect :=
  [.writeMeta ⟨c.currentTimeStamp, c.counter⟩, .footer c.counter, .flushOutput, .flushOutput,
    .flushFile, .flushFile]

end

end FileExportRest

/-- One run: what it was handed, and whether it came to its end or was
stopped after that. -/
structure Run where
  received : List AisPacket
  completed : Bool

section
variable {Pos : Type} (lib : AisLib Pos) (intervalStart : ℤ)

/-- Everything a run does once the output is open. -/
def Run.effects (forceDownload : Bool) (found : Option Meta) (r : Run) : List Effect :=
  let opened := FileExportRest.start forceDownload intervalStart found
  let body := FileExportRest.aisReadWriter lib opened.1 r.received
  opened.2 ++ body.2 ++ if r.completed then FileExportRest.finish body.1 else []

/-- The two files, the output as the packets in it. -/
structure Saved where
  found : Option Meta
  file : List AisPacket

/-- An effect on the files, all data reaching the output file. -/
def Saved.apply (w : Saved) : Effect → Saved
  | .process t _ => { w with file := w.file ++ [t] }
  | .writeMeta contents => { w with found := some contents }
  | .newline => w
  | .flushOutput => w
  | .flushFile => w
  | .footer _ => w

/-- A run without `-force`. -/
def Saved.run (w : Saved) (r : Run) : Saved :=
  (r.effects lib intervalStart false w.found).foldl Saved.apply w

/-- Several runs, one after the other, starting with no files. -/
def download (runs : List Run) : Saved :=
  runs.foldl (Saved.run lib intervalStart) ⟨none, []⟩

/-- What a run reads of the meta file. With `-force` that is nothing. -/
def metaRead (forceDownload : Bool) (found : Option Meta) : Option Meta :=
  if forceDownload then none else found

/-- The time up to which a run with this meta file drops what it receives. -/
def resumeTimestamp (found : Option Meta) : ℤ :=
  match found with
  | none => intervalStart
  | some m => if m.packageCount ≠ 0 then m.timestamp else intervalStart

theorem download_concat (runs : List Run) (r : Run) :
    download lib intervalStart (runs ++ [r]) =
      (download lib intervalStart runs).run lib intervalStart r := by
  simp [download]

/-! ### Effects on the files -/

/-- The packets a list of effects writes. -/
def processed (es : List Effect) : List AisPacket :=
  es.filterMap fun
    | .process t _ => some t
    | _ => none

/-- The meta file a list of effects leaves, if it touches it. -/
def lastMeta (es : List Effect) : Option Meta :=
  es.foldl (fun found e => match e with
    | .writeMeta contents => some contents
    | _ => found) none

@[simp] theorem processed_append (es es' : List Effect) :
    processed (es ++ es') = processed es ++ processed es' := by
  simp [processed]

theorem lastMeta_concat (es : List Effect) (e : Effect) :
    lastMeta (es ++ [e]) = match e with
      | .writeMeta contents => some contents
      | _ => lastMeta es := by
  rw [lastMeta, List.foldl_append]
  rfl

theorem lastMeta_append (es es' : List Effect) :
    lastMeta (es ++ es') = (lastMeta es').or (lastMeta es) := by
  induction es' using List.reverseRecOn with
  | nil => simp [lastMeta]
  | append_singleton es' e ih =>
    rw [← List.append_assoc, lastMeta_concat, lastMeta_concat, ih]
    cases e <;> rfl

theorem foldl_apply (es : List Effect) (w : Saved) :
    es.foldl Saved.apply w = ⟨(lastMeta es).or w.found, w.file ++ processed es⟩ := by
  induction es using List.reverseRecOn with
  | nil => simp [lastMeta, processed]
  | append_singleton es e ih =>
    rw [List.foldl_append, ih, lastMeta_concat, processed_append]
    cases e <;> simp [Saved.apply, processed]

/-! ### What a run does -/

/-- The packets a run that resumes at `lastLoadedTimestamp` counts. -/
def Counts (lastLoadedTimestamp : ℤ) (t : AisPacket) : Prop :=
  lastLoadedTimestamp < (lib.getBestTimestamp t).1 ∧ (lib.tryGetAisMessage t).isSome

instance (lastLoadedTimestamp : ℤ) (t : AisPacket) :
    Decidable (Counts lib lastLoadedTimestamp t) :=
  inferInstanceAs (Decidable (_ ∧ _))

namespace FileExportRest

theorem accept_of_not_counts {c : FileExportRest} {t : AisPacket}
    (h : ¬ Counts lib c.lastLoadedTimestamp t) :
    accept lib c t = ({ c with currentTimeStamp := (lib.getBestTimestamp t).1 }, []) := by
  by_cases hskip : c.lastLoadedTimestamp ≥ (lib.getBestTimestamp t).1
  · simp only [accept, if_pos hskip]
  · have hnone : (lib.tryGetAisMessage t).isNone = true := by
      rw [← Option.not_isSome, Bool.not_eq_true', Bool.eq_false_iff]
      exact fun hmessage => h ⟨not_le.mp hskip, hmessage⟩
    simp only [accept, if_neg hskip, if_pos hnone]

theorem accept_of_counts {c : FileExportRest} {t : AisPacket}
    (h : Counts lib c.lastLoadedTimestamp t) :
    accept lib c t =
      if (lib.getBestTimestamp t).1 ≠ c.lastFlushTimestamp ∧ (c.counter + 1) % 10000 = 0 then
        (⟨(lib.getBestTimestamp t).1, (lib.getBestTimestamp t).1, c.lastLoadedTimestamp,
            c.counter + 1⟩,
          [.process t (c.counter + 1), .writeMeta ⟨(lib.getBestTimestamp t).1, c.counter + 1⟩,
            .flushOutput, .flushFile])
      else
        (⟨(lib.getBestTimestamp t).1, c.lastFlushTimestamp, c.lastLoadedTimestamp, c.counter + 1⟩,
          [.process t (c.counter + 1)]) := by
  obtain ⟨hts, hmessage⟩ := h
  have hskip : ¬ c.lastLoadedTimestamp ≥ (lib.getBestTimestamp t).1 := not_le.mpr hts
  have hnone : ¬ (lib.tryGetAisMessage t).isNone = true := by
    rw [← Option.not_isSome, hmessage]
    decide
  simp only [accept, if_neg hskip, if_neg hnone]

theorem aisReadWriter_concat (c : FileExportRest) (received : List AisPacket) (t : AisPacket) :
    aisReadWriter lib c (received ++ [t]) =
      ((accept lib (aisReadWriter lib c received).1 t).1,
        (aisReadWriter lib c received).2 ++ (accept lib (aisReadWriter lib c received).1 t).2) := by
  simp [aisReadWriter]

@[simp] theorem accept_lastLoadedTimestamp (c : FileExportRest) (t : AisPacket) :
    (accept lib c t).1.lastLoadedTimestamp = c.lastLoadedTimestamp := by
  by_cases h : Counts lib c.lastLoadedTimestamp t
  · rw [accept_of_counts lib h]
    split_ifs <;> rfl
  · rw [accept_of_not_counts lib h]

@[simp] theorem aisReadWriter_lastLoadedTimestamp (c : FileExportRest)
    (received : List AisPacket) :
    (aisReadWriter lib c received).1.lastLoadedTimestamp = c.lastLoadedTimestamp := by
  induction received using List.reverseRecOn with
  | nil => rfl
  | append_singleton received t ih =>
      rw [aisReadWriter_concat, accept_lastLoadedTimestamp, ih]

theorem aisReadWriter_of_not_counts {c : FileExportRest} (received : List AisPacket)
    {t : AisPacket} (h : ¬ Counts lib c.lastLoadedTimestamp t) :
    aisReadWriter lib c (received ++ [t]) =
      ({ (aisReadWriter lib c received).1 with
          currentTimeStamp := (lib.getBestTimestamp t).1 },
        (aisReadWriter lib c received).2) := by
  rw [← aisReadWriter_lastLoadedTimestamp lib c received] at h
  rw [aisReadWriter_concat, accept_of_not_counts lib h, List.append_nil]

/-- A counted packet is written, and then there may be a checkpoint. -/
theorem aisReadWriter_of_counts {c : FileExportRest} (received : List AisPacket) {t : AisPacket}
    (h : Counts lib c.lastLoadedTimestamp t) :
    ∃ state checkpoint,
      aisReadWriter lib c (received ++ [t]) = (state, (aisReadWriter lib c received).2 ++
        .process t ((aisReadWriter lib c received).1.counter + 1) :: checkpoint) ∧
      state.counter = (aisReadWriter lib c received).1.counter + 1 ∧
      (checkpoint = [] ∨ checkpoint = [.writeMeta ⟨(lib.getBestTimestamp t).1,
        (aisReadWriter lib c received).1.counter + 1⟩, .flushOutput, .flushFile]) := by
  rw [← aisReadWriter_lastLoadedTimestamp lib c received] at h
  rw [aisReadWriter_concat, accept_of_counts lib h]
  split_ifs
  · exact ⟨_, _, rfl, rfl, .inr rfl⟩
  · exact ⟨_, _, rfl, rfl, .inl rfl⟩

theorem processed_aisReadWriter (c : FileExportRest) (received : List AisPacket) :
    processed (aisReadWriter lib c received).2 =
      received.filter (Counts lib c.lastLoadedTimestamp) := by
  induction received using List.reverseRecOn with
  | nil => rfl
  | append_singleton received t ih =>
      rw [List.filter_append, ← ih, List.filter_singleton]
      by_cases hcounts : Counts lib c.lastLoadedTimestamp t
      · obtain ⟨state, checkpoint, heq, -, hcheckpoint⟩ :=
          aisReadWriter_of_counts lib received hcounts
        rw [heq, processed_append, decide_eq_true hcounts]
        rcases hcheckpoint with rfl | rfl <;> rfl
      · rw [aisReadWriter_of_not_counts lib received hcounts, decide_eq_false hcounts]
        exact (List.append_nil _).symm

theorem aisReadWriter_counter (c : FileExportRest) (received : List AisPacket) :
    (aisReadWriter lib c received).1.counter =
      c.counter + (received.filter (Counts lib c.lastLoadedTimestamp)).length := by
  induction received using List.reverseRecOn with
  | nil => rfl
  | append_singleton received t ih =>
      rw [List.filter_append, List.length_append, ← Nat.add_assoc, ← ih, List.filter_singleton]
      by_cases hcounts : Counts lib c.lastLoadedTimestamp t
      · obtain ⟨state, checkpoint, heq, hcounter, -⟩ :=
          aisReadWriter_of_counts lib received hcounts
        rw [heq, hcounter, decide_eq_true hcounts]
        rfl
      · rw [aisReadWriter_of_not_counts lib received hcounts, decide_eq_false hcounts]
        rfl

/-- Before the count reaches a multiple of 10000 there is no checkpoint. -/
theorem aisReadWriter_below (c : FileExportRest) (received : List AisPacket)
    (h : c.counter % 10000 +
      (received.filter (Counts lib c.lastLoadedTimestamp)).length < 10000) :
    lastMeta (aisReadWriter lib c received).2 = none ∧
      (aisReadWriter lib c received).1.lastFlushTimestamp = c.lastFlushTimestamp := by
  induction received using List.reverseRecOn with
  | nil => exact ⟨rfl, rfl⟩
  | append_singleton received t ih =>
      rw [List.filter_append, List.length_append, List.filter_singleton] at h
      obtain ⟨hmeta, hflush⟩ := ih (by omega)
      by_cases hcounts : Counts lib c.lastLoadedTimestamp t
      · rw [decide_eq_true hcounts] at h
        change _ + (_ + 1) < 10000 at h
        have hnot : ¬ ((aisReadWriter lib c received).1.counter + 1) % 10000 = 0 := by
          rw [aisReadWriter_counter]
          omega
        rw [aisReadWriter_concat, lastMeta_append, hmeta, Option.or_none,
          accept_of_counts lib (by rwa [aisReadWriter_lastLoadedTimestamp]),
          if_neg fun hcheckpoint => hnot hcheckpoint.2]
        exact ⟨rfl, hflush⟩
      · rw [aisReadWriter_of_not_counts lib received hcounts]
        exact ⟨hmeta, hflush⟩

/-- The packet with which the count reaches a multiple of 10000 is made a
checkpoint. -/
theorem lastMeta_checkpoint (c : FileExportRest) (received : List AisPacket) {t : AisPacket}
    (hcounts : Counts lib c.lastLoadedTimestamp t)
    (hflush : (lib.getBestTimestamp t).1 ≠ c.lastFlushTimestamp)
    (h : c.counter % 10000 +
      (received.filter (Counts lib c.lastLoadedTimestamp)).length = 9999) :
    lastMeta (aisReadWriter lib c (received ++ [t])).2 = some ⟨(lib.getBestTimestamp t).1,
      c.counter + (received.filter (Counts lib c.lastLoadedTimestamp)).length + 1⟩ := by
  obtain ⟨-, hlast⟩ := aisReadWriter_below lib c received (by omega)
  rw [aisReadWriter_concat, lastMeta_append,
    accept_of_counts lib (by rwa [aisReadWriter_lastLoadedTimestamp]), hlast,
    aisReadWriter_counter, if_pos ⟨hflush, by omega⟩]
  rfl

@[simp] theorem accept_currentTimeStamp (c : FileExportRest) (t : AisPacket) :
    (accept lib c t).1.currentTimeStamp = (lib.getBestTimestamp t).1 := by
  by_cases h : Counts lib c.lastLoadedTimestamp t
  · rw [accept_of_counts lib h]
    split_ifs <;> rfl
  · rw [accept_of_not_counts lib h]

/-- Where there has been a checkpoint, the last one names the timestamp that
is remembered as flushed. -/
theorem lastMeta_flushed (c : FileExportRest) (received : List AisPacket) :
    (lastMeta (aisReadWriter lib c received).2 = none ∧
        (aisReadWriter lib c received).1.lastFlushTimestamp = c.lastFlushTimestamp) ∨
      ∃ n, n ≠ 0 ∧ lastMeta (aisReadWriter lib c received).2 =
        some ⟨(aisReadWriter lib c received).1.lastFlushTimestamp, n⟩ := by
  induction received using List.reverseRecOn with
  | nil => exact .inl ⟨rfl, rfl⟩
  | append_singleton received t ih =>
      by_cases hcounts : Counts lib c.lastLoadedTimestamp t
      · rw [aisReadWriter_concat,
          accept_of_counts lib (by rwa [aisReadWriter_lastLoadedTimestamp])]
        split_ifs
        · refine .inr ⟨(aisReadWriter lib c received).1.counter + 1, Nat.succ_ne_zero _, ?_⟩
          rw [lastMeta_append]
          rfl
        · simp only [lastMeta_append]
          exact ih
      · rw [aisReadWriter_of_not_counts lib received hcounts]
        exact ih

/-- The number a counted packet gets. -/
def countOf (c : FileExportRest) (upto : List AisPacket) : ℕ :=
  c.counter + (upto.filter (Counts lib c.lastLoadedTimestamp)).length + 1

/-- With a packet whose number is a multiple of 10000 its timestamp is flushed,
and stays that while no later timestamp comes. -/
theorem lastFlushTimestamp_eq (c : FileExportRest) {upto : List AisPacket} {q : AisPacket}
    {rest : List AisPacket} (hcounts : Counts lib c.lastLoadedTimestamp q)
    (hcount : countOf lib c upto % 10000 = 0)
    (hrest : ∀ p ∈ rest, (lib.getBestTimestamp p).1 = (lib.getBestTimestamp q).1) :
    (aisReadWriter lib c (upto ++ q :: rest)).1.lastFlushTimestamp =
      (lib.getBestTimestamp q).1 := by
  induction rest using List.reverseRecOn with
  | nil =>
      rw [aisReadWriter_concat,
        accept_of_counts lib (by rwa [aisReadWriter_lastLoadedTimestamp]), aisReadWriter_counter]
      split_ifs with hflush
      · rfl
      · exact (not_not.mp fun hne => hflush ⟨hne, hcount⟩).symm
  | append_singleton rest t ih =>
      have hbefore := ih fun p hp => hrest p (List.mem_append_left _ hp)
      have ht := hrest t (List.mem_append_right _ (List.mem_singleton.mpr rfl))
      rw [← List.cons_append, ← List.append_assoc]
      by_cases htcounts : Counts lib c.lastLoadedTimestamp t
      · rw [aisReadWriter_concat,
          accept_of_counts lib (by rwa [aisReadWriter_lastLoadedTimestamp]), hbefore, ht,
          if_neg fun hflush => hflush.1 rfl]
      · rw [aisReadWriter_of_not_counts lib _ htcounts]
        exact hbefore

/-- The last checkpoint was made with a packet whose number is a multiple of
10000. -/
theorem lastMeta_split (c : FileExportRest) (received : List AisPacket) :
    lastMeta (aisReadWriter lib c received).2 = none ∨
      ∃ upto q rest n, received = upto ++ q :: rest ∧ n ≠ 0 ∧
        Counts lib c.lastLoadedTimestamp q ∧ countOf lib c upto % 10000 = 0 ∧
        lastMeta (aisReadWriter lib c received).2 = some ⟨(lib.getBestTimestamp q).1, n⟩ := by
  induction received using List.reverseRecOn with
  | nil => exact .inl rfl
  | append_singleton received t ih =>
      have hkeep (h : lastMeta (aisReadWriter lib c (received ++ [t])).2 =
          lastMeta (aisReadWriter lib c received).2) :
          lastMeta (aisReadWriter lib c (received ++ [t])).2 = none ∨
            ∃ upto q rest n, received ++ [t] = upto ++ q :: rest ∧ n ≠ 0 ∧
              Counts lib c.lastLoadedTimestamp q ∧ countOf lib c upto % 10000 = 0 ∧
              lastMeta (aisReadWriter lib c (received ++ [t])).2 =
                some ⟨(lib.getBestTimestamp q).1, n⟩ := by
        rw [h]
        rcases ih with hnone | ⟨upto, q, rest, n, hsplit, hq⟩
        · exact .inl hnone
        · exact .inr ⟨upto, q, rest ++ [t], n, by rw [hsplit, List.append_assoc]; rfl, hq⟩
      by_cases hcounts : Counts lib c.lastLoadedTimestamp t
      · have haccept := accept_of_counts lib
          (show Counts lib (aisReadWriter lib c received).1.lastLoadedTimestamp t by
            rwa [aisReadWriter_lastLoadedTimestamp])
        rw [aisReadWriter_counter] at haccept
        split_ifs at haccept with hflush
        · refine .inr ⟨received, t, [], countOf lib c received, rfl, Nat.succ_ne_zero _, hcounts,
            hflush.2, ?_⟩
          rw [aisReadWriter_concat, haccept, lastMeta_append]
          rfl
        · refine hkeep ?_
          rw [aisReadWriter_concat, haccept, lastMeta_append]
          rfl
      · exact hkeep (by rw [aisReadWriter_of_not_counts lib received hcounts])

end FileExportRest

/-- What `run` does before the request, and where it leaves the resume point. -/
theorem start_cases (found : Option Meta) :
    (∃ m, found = some m ∧ m.packageCount ≠ 0 ∧ resumeTimestamp intervalStart found = m.timestamp ∧
        FileExportRest.start false intervalStart found =
          (⟨0, 0, m.timestamp, m.packageCount⟩, [.newline])) ∨
      resumeTimestamp intervalStart found = intervalStart ∧
        FileExportRest.start false intervalStart found =
          (⟨0, 0, intervalStart, 0⟩, [.writeMeta ⟨intervalStart, 0⟩]) := by
  cases found with
  | none => exact .inr ⟨rfl, rfl⟩
  | some m =>
      by_cases hcount : m.packageCount ≠ 0
      · exact .inl ⟨m, rfl, hcount, if_pos hcount, if_pos hcount⟩
      · refine .inr ⟨if_neg hcount, ?_⟩
        have hzero : m.packageCount = 0 := not_not.mp hcount
        simp [FileExportRest.start, hzero]

/-- With `-force` a run does what it does where there is no meta file. -/
theorem Run.effects_metaRead (forceDownload : Bool) (found : Option Meta) (r : Run) :
    r.effects lib intervalStart forceDownload found =
      r.effects lib intervalStart false (metaRead forceDownload found) := by
  cases forceDownload with
  | false => rfl
  | true => rfl

theorem start_lastLoadedTimestamp (found : Option Meta) :
    (FileExportRest.start false intervalStart found).1.lastLoadedTimestamp =
      resumeTimestamp intervalStart found := by
  rcases start_cases intervalStart found with ⟨m, -, -, hresume, hstart⟩ | ⟨hresume, hstart⟩ <;>
    rw [hstart, hresume]

theorem start_counter (found : Option Meta) :
    (FileExportRest.start false intervalStart found).1.counter =
      found.elim 0 Meta.packageCount := by
  simp only [FileExportRest.start]
  split_ifs <;> rfl

theorem start_lastFlushTimestamp (found : Option Meta) :
    (FileExportRest.start false intervalStart found).1.lastFlushTimestamp = 0 := by
  rcases start_cases intervalStart found with ⟨m, -, -, -, hstart⟩ | ⟨-, hstart⟩ <;>
    rw [hstart]

/-- Opening leaves the resume point where it is. -/
theorem resumeTimestamp_start (found : Option Meta) :
    resumeTimestamp intervalStart
        ((lastMeta (FileExportRest.start false intervalStart found).2).or found) =
      resumeTimestamp intervalStart found := by
  rcases start_cases intervalStart found with ⟨m, -, -, -, hstart⟩ | ⟨hresume, hstart⟩
  · rw [hstart]
    rfl
  · rw [hstart, hresume]
    rfl

theorem processed_start (found : Option Meta) :
    processed (FileExportRest.start false intervalStart found).2 = [] := by
  rcases start_cases intervalStart found with ⟨m, -, -, -, hstart⟩ | ⟨-, hstart⟩ <;>
    rw [hstart] <;> rfl

theorem processed_effects (found : Option Meta) (r : Run) :
    processed (r.effects lib intervalStart false found) =
      r.received.filter (Counts lib (resumeTimestamp intervalStart found)) := by
  have hfinish (c : FileExportRest) :
      processed (if r.completed then FileExportRest.finish c else []) = [] := by
    split_ifs <;> rfl
  rw [Run.effects, processed_append, processed_append, processed_start, hfinish,
    FileExportRest.processed_aisReadWriter, start_lastLoadedTimestamp, List.append_nil,
    List.nil_append]

/-- A run appends what it counts. -/
theorem run_saved (w : Saved) (r : Run) :
    (w.run lib intervalStart r).file =
      w.file ++ r.received.filter (Counts lib (resumeTimestamp intervalStart w.found)) := by
  rw [Saved.run, foldl_apply, processed_effects]

/-- The meta file that a stopped run leaves. -/
theorem found_stopped (w : Saved) (received : List AisPacket) :
    (w.run lib intervalStart ⟨received, false⟩).found =
      (lastMeta (FileExportRest.aisReadWriter lib
        (FileExportRest.start false intervalStart w.found).1 received).2).or
        ((lastMeta (FileExportRest.start false intervalStart w.found).2).or w.found) := by
  rw [Saved.run, foldl_apply, Run.effects]
  simp only [Bool.false_eq_true, if_false, List.append_nil, lastMeta_append, Option.or_assoc]

/-- And that of a run whose response has ended. -/
theorem found_completed (w : Saved) (received : List AisPacket) :
    let state := (FileExportRest.aisReadWriter lib
      (FileExportRest.start false intervalStart w.found).1 received).1
    (w.run lib intervalStart ⟨received, true⟩).found =
      some ⟨state.currentTimeStamp, state.counter⟩ := by
  intro state
  rw [Saved.run, foldl_apply, Run.effects, lastMeta_append]
  rfl

/-- Only at a counted packet does a stopped run leave another resume point. -/
theorem resumeTimestamp_run (w : Saved) (received : List AisPacket) :
    resumeTimestamp intervalStart (w.run lib intervalStart ⟨received, false⟩).found =
        resumeTimestamp intervalStart w.found ∨
      ∃ q ∈ received,
        resumeTimestamp intervalStart w.found < (lib.getBestTimestamp q).1 ∧
        resumeTimestamp intervalStart (w.run lib intervalStart ⟨received, false⟩).found =
          (lib.getBestTimestamp q).1 := by
  rw [found_stopped]
  rcases FileExportRest.lastMeta_split lib
      (FileExportRest.start false intervalStart w.found).1 received with
    hnone | ⟨upto, q, rest, n, rfl, hn, hcounts, -, hmeta⟩
  · left
    rw [hnone, Option.none_or, resumeTimestamp_start]
  · right
    rw [start_lastLoadedTimestamp] at hcounts
    refine ⟨q, by simp, hcounts.1, ?_⟩
    rw [hmeta]
    exact if_pos hn

end

end AisStore
