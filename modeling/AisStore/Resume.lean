import AisStore.Export

/-!
Resumed downloads, over any number of runs.

A run drops every packet that is not later than its resume point and keeps
the others, so everything depends on how the resume points lie to what has
been received. `missesNothing_iff` says when a completed download has every
packet: whenever a run starts, the packets with the very timestamp of its
resume point must have been received before. A stop inside such a group
loses the rest of it (`missesNothing_tie`). `notTwice_iff` says when no
packet is written twice: before each run that goes beyond its resume point,
the last run that counted anything must have ended with its response, or
have been stopped right after a checkpoint, and nothing later may have been
handed to any run before (`CaughtUp`). Nothing cuts the output file back to
the checkpoint, so a run that stops in between is written again
(`notTwice_stopped`).
-/

namespace AisStore

open Lib

section
variable {Pos : Type} (lib : AisLib Pos) (intervalStart : ℤ)

/-- The resume point of a run that follows these runs. -/
def resumePoint (runs : List Run) : ℤ :=
  resumeTimestamp intervalStart (download lib intervalStart runs).found

theorem file_concat (runs : List Run) (r : Run) :
    (download lib intervalStart (runs ++ [r])).file =
      (download lib intervalStart runs).file ++
        r.received.filter (Counts lib (resumePoint lib intervalStart runs)) := by
  rw [download_concat, run_saved, resumePoint]

/-- What is in the file was counted by one of the runs. -/
theorem mem_file {runs : List Run} {p : AisPacket} :
    p ∈ (download lib intervalStart runs).file ↔
      ∃ before r, before ++ [r] <+: runs ∧ p ∈ r.received ∧
        Counts lib (resumePoint lib intervalStart before) p := by
  induction runs using List.reverseRecOn with
  | nil =>
      constructor
      · intro h
        cases h
      · rintro ⟨before, r, hinit, -⟩
        simp at hinit
  | append_singleton runs r ih =>
      rw [file_concat, List.mem_append, ih, List.mem_filter, decide_eq_true_iff]
      constructor
      · rintro (⟨before, r', hinit, hp⟩ | ⟨hp, hcounts⟩)
        · exact ⟨before, r', hinit.trans (List.prefix_append runs [r]), hp⟩
        · exact ⟨runs, r, List.prefix_rfl, hp, hcounts⟩
      · rintro ⟨before, r', hinit, hp, hcounts⟩
        rcases List.prefix_concat_iff.mp hinit with heq | hinit
        · obtain ⟨rfl, hr⟩ := List.append_inj' heq rfl
          cases hr
          exact .inr ⟨hp, hcounts⟩
        · exact .inl ⟨before, r', hinit, hp, hcounts⟩

/-! ### Missing packets -/

/-- A run stopped after the first `k` packets. -/
def stoppedAfter (packets : List AisPacket) (k : ℕ) : Run := ⟨packets.take k, false⟩

variable (packets : List AisPacket)

theorem resumePoint_stopped (ks : List ℕ) (k : ℕ) :
    resumePoint lib intervalStart ((ks ++ [k]).map (stoppedAfter packets)) =
        resumePoint lib intervalStart (ks.map (stoppedAfter packets)) ∨
      ∃ q ∈ packets.take k,
        resumePoint lib intervalStart (ks.map (stoppedAfter packets)) <
          (lib.getBestTimestamp q).1 ∧
        resumePoint lib intervalStart ((ks ++ [k]).map (stoppedAfter packets)) =
          (lib.getBestTimestamp q).1 := by
  rw [List.map_append, List.map_singleton, resumePoint, download_concat]
  exact resumeTimestamp_run lib intervalStart _ _

theorem resumePoint_mono {before ks : List ℕ} (h : before <+: ks) :
    resumePoint lib intervalStart (before.map (stoppedAfter packets)) ≤
      resumePoint lib intervalStart (ks.map (stoppedAfter packets)) := by
  obtain ⟨rest, rfl⟩ := h
  induction rest using List.reverseRecOn with
  | nil => rw [List.append_nil]
  | append_singleton rest k ih =>
      rw [← List.append_assoc]
      rcases resumePoint_stopped lib intervalStart packets (before ++ rest) k with
        heq | ⟨q, -, hlt, heq⟩
      · rw [heq]
        exact ih
      · rw [heq]
        exact ih.trans hlt.le

theorem file_stopped (ks : List ℕ) (k : ℕ) :
    (download lib intervalStart ((ks ++ [k]).map (stoppedAfter packets))).file =
      (download lib intervalStart (ks.map (stoppedAfter packets))).file ++
        (packets.take k).filter
          (Counts lib (resumePoint lib intervalStart (ks.map (stoppedAfter packets)))) := by
  rw [List.map_append, List.map_singleton, file_concat]
  rfl

variable {packets}

/-- Once a resume point has reached a packet, the packet is not written any more. -/
theorem mem_file_of_le_resumePoint {before ks : List ℕ} (h : before <+: ks) {p : AisPacket}
    (hp : p ∈ (download lib intervalStart (ks.map (stoppedAfter packets))).file)
    (hle : (lib.getBestTimestamp p).1 ≤
      resumePoint lib intervalStart (before.map (stoppedAfter packets))) :
    p ∈ (download lib intervalStart (before.map (stoppedAfter packets))).file := by
  obtain ⟨rest, rfl⟩ := h
  induction rest using List.reverseRecOn with
  | nil => rwa [List.append_nil] at hp
  | append_singleton rest k ih =>
      rw [← List.append_assoc, file_stopped, List.mem_append] at hp
      rcases hp with hp | hp
      · exact ih hp
      · have hcounts : Counts lib _ p := of_decide_eq_true (List.mem_filter.mp hp).2
        have hmono := resumePoint_mono lib intervalStart packets (List.prefix_append before rest)
        exact absurd hcounts.1 (not_lt.mpr (hle.trans hmono))

theorem received_of_mem_file {ks : List ℕ} {p : AisPacket}
    (hp : p ∈ (download lib intervalStart (ks.map (stoppedAfter packets))).file) :
    ∃ k ∈ ks, p ∈ packets.take k := by
  obtain ⟨before, r, hinit, hr, -⟩ := (mem_file lib intervalStart).mp hp
  have hmem : r ∈ ks.map (stoppedAfter packets) :=
    hinit.subset (List.mem_append_right _ (List.mem_singleton.mpr rfl))
  obtain ⟨k, hk, rfl⟩ := List.mem_map.mp hmem
  exact ⟨k, hk, hr⟩

/-- What the stopped runs received beyond the resume point is in the file. -/
theorem mem_file_of_received (hdecodable : ∀ p ∈ packets, (lib.tryGetAisMessage p).isSome)
    {ks : List ℕ} {k : ℕ} (hk : k ∈ ks) {p : AisPacket} (hp : p ∈ packets.take k)
    (hlt : resumePoint lib intervalStart (ks.map (stoppedAfter packets)) <
      (lib.getBestTimestamp p).1) :
    p ∈ (download lib intervalStart (ks.map (stoppedAfter packets))).file := by
  induction ks using List.reverseRecOn with
  | nil => cases hk
  | append_singleton ks k' ih =>
      have hlt' : resumePoint lib intervalStart (ks.map (stoppedAfter packets)) <
          (lib.getBestTimestamp p).1 :=
        (resumePoint_mono lib intervalStart packets (List.prefix_append ks [k'])).trans_lt hlt
      rw [file_stopped, List.mem_append]
      rcases List.mem_append.mp hk with hk | hk
      · exact .inl (ih hk hlt')
      · have hcounts :
            Counts lib (resumePoint lib intervalStart (ks.map (stoppedAfter packets))) p :=
          ⟨hlt', hdecodable p (List.mem_of_mem_take hp)⟩
        cases List.mem_singleton.mp hk
        exact .inr (List.mem_filter.mpr ⟨hp, decide_eq_true hcounts⟩)

/-- Up to the resume point nothing is missing, if the packets with the
timestamp of each resume point had been received when it was resumed from. -/
theorem mem_file_upTo (hdecodable : ∀ p ∈ packets, (lib.tryGetAisMessage p).isSome)
    (hsorted : packets.Pairwise fun p q =>
      (lib.getBestTimestamp p).1 ≤ (lib.getBestTimestamp q).1)
    (hstart : ∀ p ∈ packets, intervalStart < (lib.getBestTimestamp p).1) {ks : List ℕ}
    (hwhole : ∀ before, before <+: ks → ∀ p ∈ packets, (lib.getBestTimestamp p).1 =
      resumePoint lib intervalStart (before.map (stoppedAfter packets)) →
      ∃ k ∈ before, p ∈ packets.take k) {p : AisPacket} (hp : p ∈ packets)
    (hle : (lib.getBestTimestamp p).1 ≤
      resumePoint lib intervalStart (ks.map (stoppedAfter packets))) :
    p ∈ (download lib intervalStart (ks.map (stoppedAfter packets))).file := by
  induction ks using List.reverseRecOn with
  | nil => exact absurd (hstart p hp) (not_lt.mpr hle)
  | append_singleton ks k ih =>
      rw [file_stopped, List.mem_append]
      by_cases hbefore : (lib.getBestTimestamp p).1 ≤
          resumePoint lib intervalStart (ks.map (stoppedAfter packets))
      · refine .inl (ih ?_ hbefore)
        exact fun before h => hwhole before (h.trans (List.prefix_append ks [k]))
      -- the run just made moved the resume point past the packet
      have hlt : resumePoint lib intervalStart (ks.map (stoppedAfter packets)) <
          (lib.getBestTimestamp p).1 := not_le.mp hbefore
      have hwritten (hk : p ∈ packets.take k) : p ∈ (packets.take k).filter
          (Counts lib (resumePoint lib intervalStart (ks.map (stoppedAfter packets)))) :=
        List.mem_filter.mpr ⟨hk, decide_eq_true ⟨hlt, hdecodable p hp⟩⟩
      rcases resumePoint_stopped lib intervalStart packets ks k with
        heq | ⟨q, hq, -, heq⟩
      · exact absurd (heq ▸ hle) hbefore
      · rcases hle.eq_or_lt with htie | hearlier
        · obtain ⟨k', hk', hp'⟩ := hwhole _ List.prefix_rfl p hp htie
          rcases List.mem_append.mp hk' with hk' | hk'
          · exact .inl (mem_file_of_received lib intervalStart hdecodable hk' hp' hlt)
          · cases List.mem_singleton.mp hk'
            exact .inr (hwritten hp')
        · rw [heq] at hearlier
          refine .inr (hwritten ?_)
          -- the list is sorted, so the packet came before the checkpoint
          by_contra hnot
          have hdrop : p ∈ packets.drop k := by
            rw [← List.take_append_drop k packets, List.mem_append] at hp
            exact hp.resolve_left hnot
          rw [← List.take_append_drop k packets, List.pairwise_append] at hsorted
          exact absurd hearlier (not_lt.mpr (hsorted.2.2 q hq p hdrop))

theorem missesNothing_iff (hdecodable : ∀ p ∈ packets, (lib.tryGetAisMessage p).isSome)
    (hsorted : packets.Pairwise fun p q =>
      (lib.getBestTimestamp p).1 ≤ (lib.getBestTimestamp q).1)
    (hstart : ∀ p ∈ packets, intervalStart < (lib.getBestTimestamp p).1) (ks : List ℕ) :
    (∀ p ∈ packets, p ∈ (download lib intervalStart
        (ks.map (stoppedAfter packets) ++ [⟨packets, true⟩])).file) ↔
      ∀ before, before <+: ks → ∀ p ∈ packets, (lib.getBestTimestamp p).1 =
        resumePoint lib intervalStart (before.map (stoppedAfter packets)) →
        ∃ k ∈ before, p ∈ packets.take k := by
  constructor
  · intro hall before hinit p hp htie
    have hmem := hall p hp
    rw [file_concat, List.mem_append] at hmem
    rcases hmem with hmem | hmem
    · exact received_of_mem_file lib intervalStart
        (mem_file_of_le_resumePoint lib intervalStart hinit hmem htie.le)
    · have hcounts : Counts lib _ p := of_decide_eq_true (List.mem_filter.mp hmem).2
      have hmono := resumePoint_mono lib intervalStart packets hinit
      exact absurd hcounts.1 (not_lt.mpr (htie.le.trans hmono))
  · intro hwhole p hp
    rw [file_concat, List.mem_append]
    by_cases hle : (lib.getBestTimestamp p).1 ≤
        resumePoint lib intervalStart (ks.map (stoppedAfter packets))
    · exact .inl (mem_file_upTo lib intervalStart hdecodable hsorted hstart hwhole hp hle)
    · exact .inr (List.mem_filter.mpr ⟨hp, decide_eq_true ⟨not_le.mp hle, hdecodable p hp⟩⟩)

/-- A first run stopped right after its first checkpoint. -/
theorem resumePoint_checkpoint {received : List AisPacket} {t : AisPacket}
    (hreceived : ∀ p ∈ received ++ [t], Counts lib intervalStart p)
    (hlength : received.length = 9999) (hzero : (lib.getBestTimestamp t).1 ≠ 0) :
    resumePoint lib intervalStart [⟨received ++ [t], false⟩] = (lib.getBestTimestamp t).1 := by
  have hcounted : received.filter (Counts lib intervalStart) = received :=
    List.filter_eq_self.mpr fun p hp => decide_eq_true (hreceived p (List.mem_append_left _ hp))
  have ht : Counts lib intervalStart t :=
    hreceived t (List.mem_append_right _ (List.mem_singleton.mpr rfl))
  have hmeta := FileExportRest.lastMeta_checkpoint lib
    (FileExportRest.start false intervalStart none).1 received ht hzero (by
      change 0 + (received.filter (Counts lib intervalStart)).length = 9999
      rw [hcounted, hlength])
  rw [resumePoint, ← List.nil_append [(⟨received ++ [t], false⟩ : Run)], download_concat, Saved.run,
    foldl_apply, Run.effects]
  simp only [Bool.false_eq_true, if_false, List.append_nil, lastMeta_append]
  exact hmeta ▸ rfl

end

/-- Two position reports of a vessel, ten minutes apart. -/
def twoReports : List Decoded :=
  [positionReport, ⟨"!AIVDM,1,1,,A,14", toLong 1200000, some 219000001, some 43, [2]⟩]

theorem missesNothing_iff_twoReports :
    let packets := twoReports.map fun d => AisPacket.fromString d.stringMessage
    .fromString "!AIVDM,1,1,,A,14" ∈ (download (.ofDecoded twoReports) 0
      ([1].map (stoppedAfter packets) ++ [⟨packets, true⟩])).file := by
  intro packets
  have hlate : ∀ p ∈ packets, 0 < ((AisLib.ofDecoded twoReports).getBestTimestamp p).1 := by decide
  refine (missesNothing_iff (.ofDecoded twoReports) 0 (by decide) (by decide) hlate [1]).mpr
    ?_ _ (by decide)
  intro before hbefore p hp htie
  have hearly : resumePoint (.ofDecoded twoReports) 0 (before.map (stoppedAfter packets)) = 0 := by
    rcases List.prefix_cons_iff.mp hbefore with rfl | ⟨rest, rfl, hrest⟩
    · rfl
    · rw [List.prefix_nil.mp hrest]
      rfl
  rw [hearly] at htie
  exact absurd htie (hlate p hp).ne'

/-- A library that dates every message ten minutes after the epoch. -/
def sameTimeLib : AisLib ℤ where
  getBestTimestamp _ := toLong 600000
  tryGetAisMessage _ := some ⟨219000001, none⟩
  getCellInt position size := position / size
  isValid _ := true
  murmur3 _ := []

/-- Messages that differ in their number of zeros. -/
def zeros (n : ℕ) : List AisPacket :=
  (List.range n).map fun i =>
    .fromString ("!AIVDM,1,1,,A," ++ String.ofList (List.replicate i '0'))

theorem zeros_succ (n : ℕ) : zeros (n + 1) = zeros n ++
    [.fromString ("!AIVDM,1,1,,A," ++ String.ofList (List.replicate n '0'))] := by
  rw [zeros, List.range_succ, List.map_append, List.map_singleton, zeros]

theorem length_zeros (n : ℕ) : (zeros n).length = n := by
  rw [zeros, List.length_map, List.length_range]

theorem nodup_zeros (n : ℕ) : (zeros n).Nodup := by
  refine List.Nodup.map ?_ List.nodup_range
  intro i j h
  have hlength := congrArg (fun p : AisPacket => p.stringMessage.length) h
  simpa [AisPacket.fromString] using hlength

/-- Of 10001 messages with one timestamp the first 10000 are written before
the stop, and the last is skipped after it. -/
theorem missesNothing_tie :
    let packets := zeros 10001
    (∀ p ∈ packets, (sameTimeLib.tryGetAisMessage p).isSome) ∧
      packets.Pairwise (fun p q =>
        (sameTimeLib.getBestTimestamp p).1 ≤ (sameTimeLib.getBestTimestamp q).1) ∧
      (∀ p ∈ packets, 0 < (sameTimeLib.getBestTimestamp p).1) ∧
      ¬ ∀ p ∈ packets, p ∈ (download sameTimeLib 0
        ([10000].map (stoppedAfter packets) ++ [⟨packets, true⟩])).file := by
  intro packets
  have hlate (p : AisPacket) : 0 < (sameTimeLib.getBestTimestamp p).1 := by
    change 0 < (toLong 600000).1
    decide
  have hsplit : packets = zeros 10000 ++ _ := zeros_succ 10000
  have htake : packets.take 10000 = zeros 10000 := by
    rw [hsplit, List.take_left' (length_zeros 10000)]
  have hresume : resumePoint sameTimeLib 0 [stoppedAfter packets 10000] = 600000 := by
    rw [stoppedAfter, htake, zeros_succ 9999]
    exact resumePoint_checkpoint sameTimeLib 0 (fun p _ => ⟨hlate p, rfl⟩) (length_zeros 9999)
      (hlate _).ne'
  refine ⟨fun _ _ => rfl, List.pairwise_of_forall fun _ _ => le_rfl, fun p _ => hlate p, ?_⟩
  intro hall
  have hlast := hall _ (hsplit ▸ List.mem_append_right _ (List.mem_singleton.mpr rfl))
  rw [List.map_singleton, file_concat, hresume, List.mem_append] at hlast
  rcases hlast with hlast | hlast
  · rw [← List.map_singleton] at hlast
    obtain ⟨k, hk, hp⟩ := received_of_mem_file sameTimeLib 0 hlast
    have hnodup : (zeros 10001).Nodup := nodup_zeros 10001
    rw [zeros_succ 10000, List.nodup_append] at hnodup
    rw [List.mem_singleton.mp hk, htake] at hp
    exact hnodup.2.2 _ hp _ (List.mem_singleton.mpr rfl) rfl
  · have hcounts := of_decide_eq_true (List.mem_filter.mp hlast).2
    exact lt_irrefl _ hcounts.1

section
variable {Pos : Type} (lib : AisLib Pos) (intervalStart : ℤ)

/-! ### Packets written twice -/

/-- What the meta file counts that a run finds after these runs. -/
def packageCount (runs : List Run) : ℕ :=
  (download lib intervalStart runs).found.elim 0 Meta.packageCount

/-- After these runs the next one resumes behind everything they were handed,
for one of these reasons. -/
inductive CaughtUp : List Run → Prop where
  /-- There is nothing. -/
  | nothing {runs : List Run} (h : ∀ r ∈ runs, r.received = []) : CaughtUp runs
  /-- It was so before a run that was stopped without counting a packet. -/
  | idle {runs : List Run} {received : List AisPacket} (h : CaughtUp runs)
      (hidle : ∀ p ∈ received, (lib.getBestTimestamp p).1 ≤ resumePoint lib intervalStart runs) :
      CaughtUp (runs ++ [⟨received, false⟩])
  /-- The last run was stopped after a checkpoint, the count having reached a
  multiple of 10000 with `q`, and nothing later has been handed to any run. -/
  | checkpoint {runs : List Run} {upto : List AisPacket} {q : AisPacket} {rest : List AisPacket}
      (hcounts : Counts lib (resumePoint lib intervalStart runs) q)
      (hcount : (packageCount lib intervalStart runs +
        (upto.filter (Counts lib (resumePoint lib intervalStart runs))).length + 1) % 10000 = 0)
      (hzero : (lib.getBestTimestamp q).1 ≠ 0)
      (hrest : ∀ p ∈ rest, (lib.getBestTimestamp p).1 ≤ (lib.getBestTimestamp q).1)
      (hearlier : ∀ r ∈ runs, ∀ p ∈ r.received,
        (lib.getBestTimestamp p).1 ≤ (lib.getBestTimestamp q).1) :
      CaughtUp (runs ++ [⟨upto ++ q :: rest, false⟩])
  /-- The response of the last run ended after this packet, and nothing later
  was handed to the runs before. -/
  | completed {runs : List Run} {received : List AisPacket} {last : AisPacket}
      (hearlier : ∀ r ∈ runs, ∀ p ∈ r.received,
        (lib.getBestTimestamp p).1 ≤ (lib.getBestTimestamp last).1) :
      CaughtUp (runs ++ [⟨received ++ [last], true⟩])

theorem resumePoint_of_packageCount {runs : List Run}
    (h : packageCount lib intervalStart runs = 0) :
    resumePoint lib intervalStart runs = intervalStart := by
  unfold packageCount at h
  unfold resumePoint resumeTimestamp
  cases hfound : (download lib intervalStart runs).found with
  | none => rfl
  | some m =>
      rw [hfound] at h
      exact if_neg (not_not.mpr h)

theorem resumePoint_idle {runs : List Run} {received : List AisPacket}
    (hidle : ∀ p ∈ received, ¬ Counts lib (resumePoint lib intervalStart runs) p) :
    resumePoint lib intervalStart (runs ++ [⟨received, false⟩]) =
      resumePoint lib intervalStart runs := by
  rw [resumePoint, download_concat, found_stopped]
  rcases FileExportRest.lastMeta_split lib (FileExportRest.start false intervalStart
      (download lib intervalStart runs).found).1 received with
    hnone | ⟨upto, q, rest, n, rfl, -, hcounts, -⟩
  · rw [hnone, Option.none_or, resumeTimestamp_start]
    rfl
  · rw [start_lastLoadedTimestamp] at hcounts
    exact absurd hcounts (hidle q (by simp))

/-- A checkpoint is where the next run resumes, if nothing later comes before
the stop. -/
theorem resumePoint_stoppedAfter {runs : List Run} {upto : List AisPacket} {q : AisPacket}
    {rest : List AisPacket} (hcounts : Counts lib (resumePoint lib intervalStart runs) q)
    (hcount : (packageCount lib intervalStart runs +
      (upto.filter (Counts lib (resumePoint lib intervalStart runs))).length + 1) % 10000 = 0)
    (hzero : (lib.getBestTimestamp q).1 ≠ 0)
    (hrest : ∀ p ∈ rest, (lib.getBestTimestamp p).1 = (lib.getBestTimestamp q).1) :
    resumePoint lib intervalStart (runs ++ [⟨upto ++ q :: rest, false⟩]) =
      (lib.getBestTimestamp q).1 := by
  rw [resumePoint, download_concat, found_stopped]
  generalize hfound : (download lib intervalStart runs).found = found at *
  let c := (FileExportRest.start false intervalStart found).1
  have hlast : c.lastLoadedTimestamp = resumePoint lib intervalStart runs := by
    rw [resumePoint, hfound, start_lastLoadedTimestamp]
  have hnumber : FileExportRest.countOf lib c upto % 10000 = 0 := by
    rw [FileExportRest.countOf, start_counter, hlast, ← hfound]
    exact hcount
  have hflushed := FileExportRest.lastFlushTimestamp_eq lib c (hlast ▸ hcounts) hnumber hrest
  rcases FileExportRest.lastMeta_flushed lib c (upto ++ q :: rest) with ⟨-, hnever⟩ | ⟨n, hn, hmeta⟩
  · rw [hflushed, start_lastFlushTimestamp] at hnever
    exact absurd hnever hzero
  · rw [hmeta, hflushed]
    exact if_pos hn

/-- When the response has ended, the next run resumes at the last packet, if
any has been counted by then. -/
theorem resumePoint_completed (runs : List Run) (received : List AisPacket) (last : AisPacket) :
    resumePoint lib intervalStart (runs ++ [⟨received ++ [last], true⟩]) =
      if packageCount lib intervalStart runs + ((received ++ [last]).filter
        (Counts lib (resumePoint lib intervalStart runs))).length ≠ 0
      then (lib.getBestTimestamp last).1 else intervalStart := by
  rw [resumePoint, download_concat, found_completed, resumeTimestamp,
    FileExportRest.aisReadWriter_counter, start_counter, start_lastLoadedTimestamp,
    FileExportRest.aisReadWriter_concat, FileExportRest.accept_currentTimeStamp]
  rfl

theorem resumePoint_completed_nil (runs : List Run) :
    resumePoint lib intervalStart (runs ++ [⟨[], true⟩]) =
      if packageCount lib intervalStart runs ≠ 0 then 0 else intervalStart := by
  rw [resumePoint, download_concat, found_completed, resumeTimestamp,
    FileExportRest.aisReadWriter_counter, start_counter]
  rcases start_cases intervalStart (download lib intervalStart runs).found with
    ⟨m, -, -, -, hstart⟩ | ⟨-, hstart⟩
  · rw [hstart]
    rfl
  · rw [hstart]
    rfl

/-- A resume point is the start, 0, or the timestamp of something handed on before. -/
theorem resumePoint_cases (runs : List Run) :
    resumePoint lib intervalStart runs = intervalStart ∨ resumePoint lib intervalStart runs = 0 ∨
      ∃ r ∈ runs, ∃ p ∈ r.received,
        resumePoint lib intervalStart runs = (lib.getBestTimestamp p).1 := by
  induction runs using List.reverseRecOn with
  | nil => exact .inl rfl
  | append_singleton runs r ih =>
      obtain ⟨received, completed⟩ := r
      cases completed with
      | false =>
          rcases resumeTimestamp_run lib intervalStart (download lib intervalStart runs) received
            with heq | ⟨q, hq, -, heq⟩
          · rw [← download_concat] at heq
            change resumePoint lib intervalStart _ = resumePoint lib intervalStart runs at heq
            rw [heq]
            rcases ih with h | h | ⟨r, hr, p, hp, h⟩
            · exact .inl h
            · exact .inr (.inl h)
            · exact .inr (.inr ⟨r, List.mem_append_left _ hr, p, hp, h⟩)
          · rw [← download_concat] at heq
            exact .inr (.inr ⟨⟨received, false⟩, by simp, q, hq, heq⟩)
      | true =>
          rcases List.eq_nil_or_concat received with rfl | ⟨received, last, rfl⟩
          · rw [resumePoint_completed_nil]
            split_ifs
            · exact .inr (.inl rfl)
            · exact .inl rfl
          · rw [List.concat_eq_append, resumePoint_completed]
            split_ifs
            · exact .inr (.inr ⟨⟨received ++ [last], true⟩, by simp, last, by simp, rfl⟩)
            · exact .inl rfl

/-- A beginning that goes beyond `low` has the packet after it. -/
theorem mem_of_begins {low high received : List AisPacket} {x p : AisPacket}
    (hbegins : received <+: low ++ x :: high) (hp : p ∈ received) (hlow : p ∉ low) :
    x ∈ received := by
  rcases List.prefix_or_prefix_of_prefix hbegins (List.prefix_append low (x :: high)) with
    hshort | ⟨rest, rfl⟩
  · exact absurd (hshort.subset hp) hlow
  · rw [List.prefix_append_right_inj] at hbegins
    cases rest with
    | nil => exact absurd (by simpa using hp) hlow
    | cons y rest =>
        rw [(List.cons_prefix_cons.mp hbegins).1]
        simp

theorem file_begins {before runs : List Run} (h : before <+: runs) :
    (download lib intervalStart before).file <+: (download lib intervalStart runs).file := by
  obtain ⟨rest, rfl⟩ := h
  induction rest using List.reverseRecOn with
  | nil => exact (List.append_nil before).symm ▸ List.prefix_rfl
  | append_singleton rest r ih =>
      rw [← List.append_assoc, file_concat]
      exact ih.trans (List.prefix_append _ _)

section
variable {packets : List AisPacket}
  (hdecodable : ∀ p ∈ packets, (lib.tryGetAisMessage p).isSome)
  (hsorted : packets.Pairwise fun p q =>
    (lib.getBestTimestamp p).1 ≤ (lib.getBestTimestamp q).1)
include hdecodable hsorted

/-- What has been caught up with is not handed on a second time. -/
theorem CaughtUp.le_resumePoint {runs : List Run} (h : CaughtUp lib intervalStart runs)
    (hreceived : ∀ r ∈ runs, r.received <+: packets) :
    ∀ r ∈ runs, ∀ p ∈ r.received,
      (lib.getBestTimestamp p).1 ≤ resumePoint lib intervalStart runs := by
  induction h with
  | nothing h =>
      intro r hr p hp
      rw [h r hr] at hp
      cases hp
  | @idle runs received _ hidle ih =>
      have hbefore := ih fun r hr => hreceived r (List.mem_append_left _ hr)
      rw [resumePoint_idle lib intervalStart fun p hp hcounts =>
        absurd hcounts.1 (not_lt.mpr (hidle p hp))]
      intro r hr p hp
      rcases List.mem_append.mp hr with hr | hr
      · exact hbefore r hr p hp
      · cases List.mem_singleton.mp hr
        exact hidle p hp
  | @checkpoint runs upto q rest hcounts hcount hzero hrest hearlier =>
      have hbegins : upto ++ q :: rest <+: packets :=
        hreceived _ (List.mem_append_right _ (List.mem_singleton.mpr rfl))
      have hpairwise := hsorted.sublist hbegins.sublist
      rw [List.pairwise_append, List.pairwise_cons] at hpairwise
      obtain ⟨-, ⟨hlater, -⟩, hupto⟩ := hpairwise
      rw [resumePoint_stoppedAfter lib intervalStart hcounts hcount hzero fun p hp =>
        le_antisymm (hrest p hp) (hlater p hp)]
      intro r hr p hp
      rcases List.mem_append.mp hr with hr | hr
      · exact hearlier r hr p hp
      · cases List.mem_singleton.mp hr
        rcases List.mem_append.mp hp with hp | hp
        · exact hupto p hp q List.mem_cons_self
        · rcases List.mem_cons.mp hp with rfl | hp
          · exact le_rfl
          · exact hrest p hp
  | @completed runs received last hearlier =>
      have hbegins : received ++ [last] <+: packets :=
        hreceived _ (List.mem_append_right _ (List.mem_singleton.mpr rfl))
      have hpairwise := hsorted.sublist hbegins.sublist
      have hlast : (lib.getBestTimestamp last).1 ≤
          resumePoint lib intervalStart (runs ++ [⟨received ++ [last], true⟩]) := by
        rw [resumePoint_completed]
        split_ifs with hcount
        · exact le_rfl
        -- nothing is counted, so that the last packet is not later than the start
        · rw [not_not, Nat.add_eq_zero_iff] at hcount
          by_contra hnot
          have hcounts : Counts lib (resumePoint lib intervalStart runs) last :=
            ⟨by rwa [resumePoint_of_packageCount lib intervalStart hcount.1, ← not_le],
              hdecodable last (hbegins.subset (by simp))⟩
          have hmem : last ∈ (received ++ [last]).filter
              (Counts lib (resumePoint lib intervalStart runs)) :=
            List.mem_filter.mpr ⟨by simp, decide_eq_true hcounts⟩
          rw [List.eq_nil_of_length_eq_zero hcount.2] at hmem
          cases hmem
      intro r hr p hp
      rcases List.mem_append.mp hr with hr | hr
      · exact (hearlier r hr p hp).trans hlast
      · cases List.mem_singleton.mp hr
        rcases List.mem_append.mp hp with hp | hp
        · exact ((List.pairwise_append.mp hpairwise).2.2 p hp last
            (List.mem_singleton.mpr rfl)).trans hlast
        · rw [List.mem_singleton.mp hp]
          exact hlast

/-- If no run is handed anything beyond its resume point again, nothing is
written twice. -/
theorem nodup_file (hdistinct : packets.Nodup) {runs : List Run}
    (hreceived : ∀ r ∈ runs, r.received <+: packets)
    (hcaught : ∀ before r, before ++ [r] <+: runs →
      (∃ p ∈ r.received, resumePoint lib intervalStart before < (lib.getBestTimestamp p).1) →
      CaughtUp lib intervalStart before) :
    (download lib intervalStart runs).file.Nodup := by
  induction runs using List.reverseRecOn with
  | nil => exact List.nodup_nil
  | append_singleton runs r ih =>
      have hruns : ∀ r' ∈ runs, r'.received <+: packets :=
        fun r' hr' => hreceived r' (List.mem_append_left _ hr')
      have hr : r.received <+: packets :=
        hreceived r (List.mem_append_right _ (List.mem_singleton.mpr rfl))
      rw [file_concat, List.nodup_append]
      refine ⟨ih hruns fun before r' hinit => hcaught before r'
        (hinit.trans (List.prefix_append runs [r])), (hdistinct.sublist hr.sublist).filter _, ?_⟩
      rintro p hfile q hagain rfl
      obtain ⟨hp, hcounts⟩ := List.mem_filter.mp hagain
      have hlt := (of_decide_eq_true hcounts).1
      obtain ⟨before, r', hinit, hp', -⟩ := (mem_file lib intervalStart).mp hfile
      have hle := (hcaught runs r List.prefix_rfl ⟨p, hp, hlt⟩).le_resumePoint lib intervalStart
        hdecodable hsorted hruns r'
        (hinit.subset (List.mem_append_right _ (List.mem_singleton.mpr rfl))) p hp'
      exact absurd hlt (not_lt.mpr hle)

end

section
variable {packets : List AisPacket}
  (hstart : ∀ p ∈ packets, intervalStart < (lib.getBestTimestamp p).1)
  (hpositive : ∀ p ∈ packets, 0 < (lib.getBestTimestamp p).1)
include hstart hpositive

/-- There is no other way to catch up. -/
theorem caughtUp_of_le {runs : List Run} (hreceived : ∀ r ∈ runs, r.received <+: packets)
    (h : ∀ r ∈ runs, ∀ p ∈ r.received,
      (lib.getBestTimestamp p).1 ≤ resumePoint lib intervalStart runs) :
    CaughtUp lib intervalStart runs := by
  induction runs using List.reverseRecOn with
  | nil => exact .nothing nofun
  | append_singleton runs r ih =>
      obtain ⟨received, completed⟩ := r
      have hruns : ∀ r' ∈ runs, r'.received <+: packets :=
        fun r' hr' => hreceived r' (List.mem_append_left _ hr')
      have hbegins : received <+: packets :=
        hreceived ⟨received, completed⟩ (List.mem_append_right _ (List.mem_singleton.mpr rfl))
      have hbefore : ∀ r ∈ runs, ∀ p ∈ r.received, (lib.getBestTimestamp p).1 ≤
          resumePoint lib intervalStart (runs ++ [⟨received, completed⟩]) :=
        fun r' hr' => h r' (List.mem_append_left _ hr')
      have hlast : ∀ p ∈ received, (lib.getBestTimestamp p).1 ≤
          resumePoint lib intervalStart (runs ++ [⟨received, completed⟩]) :=
        h ⟨received, completed⟩ (List.mem_append_right _ (List.mem_singleton.mpr rfl))
      cases completed with
      | false =>
          by_cases hidle : ∀ p ∈ received, ¬ Counts lib (resumePoint lib intervalStart runs) p
          · rw [resumePoint_idle lib intervalStart hidle] at hbefore hlast
            exact .idle (ih hruns hbefore) hlast
          · -- a packet was counted, so that there has been a checkpoint
            push Not at hidle
            obtain ⟨t, ht, htcounts⟩ := hidle
            have hfound := hlast t ht
            rw [resumePoint, download_concat, found_stopped] at hfound
            rcases FileExportRest.lastMeta_split lib (FileExportRest.start false intervalStart
                (download lib intervalStart runs).found).1 received with
              hnone | ⟨upto, q, rest, n, rfl, hn, hcounts, hcount, hmeta⟩
            · rw [hnone, Option.none_or, resumeTimestamp_start] at hfound
              exact absurd htcounts.1 (not_lt.mpr hfound)
            · have hresume : resumePoint lib intervalStart
                  (runs ++ [⟨upto ++ q :: rest, false⟩]) = (lib.getBestTimestamp q).1 := by
                rw [resumePoint, download_concat, found_stopped, hmeta]
                exact if_pos hn
              rw [hresume] at hbefore hlast
              rw [start_lastLoadedTimestamp] at hcounts
              rw [FileExportRest.countOf, start_counter, start_lastLoadedTimestamp] at hcount
              exact .checkpoint hcounts hcount
                (hpositive q (hbegins.subset (by simp))).ne'
                (fun p hp => hlast p (by simp [hp])) hbefore
      | true =>
          rcases List.eq_nil_or_concat received with rfl | ⟨received, last, rfl⟩
          · -- nothing is later than 0 or the start
            rw [resumePoint_completed_nil] at hbefore
            refine .nothing fun r hr => ?_
            rcases List.mem_append.mp hr with hr | hr
            · refine List.eq_nil_iff_forall_not_mem.mpr fun p hp => ?_
              have hle := hbefore r hr p hp
              have hp := (hruns r hr).subset hp
              split_ifs at hle
              · exact absurd (hpositive p hp) (not_lt.mpr hle)
              · exact absurd (hstart p hp) (not_lt.mpr hle)
            · rw [List.mem_singleton.mp hr]
          · rw [List.concat_eq_append] at *
            refine .completed fun r hr p hp => ?_
            have hle := hbefore r hr p hp
            rw [resumePoint_completed] at hle
            split_ifs at hle
            · exact hle
            · exact absurd (hstart p ((hruns r hr).subset hp)) (not_lt.mpr hle)

variable (hdecodable : ∀ p ∈ packets, (lib.tryGetAisMessage p).isSome)
include hdecodable

/-- The first packet with its timestamp is written by the first run that is
handed it. -/
theorem mem_file_of_first {low high : List AisPacket} {x : AisPacket}
    (hpackets : packets = low ++ x :: high)
    (hlow : ∀ p ∈ low, (lib.getBestTimestamp p).1 < (lib.getBestTimestamp x).1) {runs : List Run}
    (hreceived : ∀ r ∈ runs, r.received <+: packets) (hx : ∃ r ∈ runs, x ∈ r.received) :
    x ∈ (download lib intervalStart runs).file := by
  have hmem : x ∈ packets := by simp [hpackets]
  induction runs using List.reverseRecOn with
  | nil =>
      obtain ⟨r, hr, -⟩ := hx
      cases hr
  | append_singleton runs r ih =>
      have hruns : ∀ r' ∈ runs, r'.received <+: packets :=
        fun r' hr' => hreceived r' (List.mem_append_left _ hr')
      rw [file_concat, List.mem_append]
      by_cases hearlier : ∃ r ∈ runs, x ∈ r.received
      · exact .inl (ih hruns hearlier)
      · have hxr : x ∈ r.received := by
          obtain ⟨r', hr', hx⟩ := hx
          rcases List.mem_append.mp hr' with hr' | hr'
          · exact absurd ⟨r', hr', hx⟩ hearlier
          · rwa [List.mem_singleton.mp hr'] at hx
        refine .inr (List.mem_filter.mpr ⟨hxr, decide_eq_true ⟨?_, hdecodable x hmem⟩⟩)
        rcases resumePoint_cases lib intervalStart runs with h | h | ⟨r', hr', p, hp, h⟩
        · rw [h]
          exact hstart x hmem
        · rw [h]
          exact hpositive x hmem
        -- whoever was handed something as late was handed `x` before
        · rw [h]
          by_contra hnot
          have hplow : p ∉ low := fun hplow => hnot (hlow p hplow)
          exact hearlier ⟨r', hr', mem_of_begins (hpackets ▸ hruns r' hr') hp hplow⟩

/-- If nothing is written twice, every run that writes has been caught up with. -/
theorem caughtUp_of_nodup {runs : List Run} (hreceived : ∀ r ∈ runs, r.received <+: packets)
    (hnodup : (download lib intervalStart runs).file.Nodup) {before : List Run} {r : Run}
    (hinit : before ++ [r] <+: runs)
    (hbeyond : ∃ p ∈ r.received,
      resumePoint lib intervalStart before < (lib.getBestTimestamp p).1) :
    CaughtUp lib intervalStart before := by
  have hinit' : ∀ r' ∈ before ++ [r], r'.received <+: packets :=
    fun r' hr' => hreceived r' (hinit.subset hr')
  have hbefore : ∀ r' ∈ before, r'.received <+: packets :=
    fun r' hr' => hinit' r' (List.mem_append_left _ hr')
  refine caughtUp_of_le lib intervalStart hstart hpositive hbefore ?_
  intro r' hr' q hq
  by_contra hlate
  obtain ⟨p, hp, hlt⟩ := hbeyond
  -- both runs were handed the first packet beyond the resume point
  obtain ⟨low, x, high, hpackets, hlow, hx⟩ : ∃ low x high, packets = low ++ x :: high ∧
      (∀ y ∈ low, (lib.getBestTimestamp y).1 ≤ resumePoint lib intervalStart before) ∧
      resumePoint lib intervalStart before < (lib.getBestTimestamp x).1 := by
    have hsome : (packets.find? fun y => resumePoint lib intervalStart before <
        (lib.getBestTimestamp y).1).isSome :=
      List.find?_isSome.mpr ⟨p, (hreceived r (hinit.subset (by simp))).subset hp,
        decide_eq_true hlt⟩
    obtain ⟨x, hx⟩ := Option.isSome_iff_exists.mp hsome
    obtain ⟨hx, low, high, hpackets, hlow⟩ := List.find?_eq_some_iff_append.mp hx
    exact ⟨low, x, high, hpackets, fun y hy => by simpa using hlow y hy, of_decide_eq_true hx⟩
  have hplow : p ∉ low := fun h => absurd hlt (not_lt.mpr (hlow p h))
  have hqlow : q ∉ low := fun h => hlate (hlow q h)
  have hr : r.received <+: packets :=
    hinit' r (List.mem_append_right _ (List.mem_singleton.mpr rfl))
  have hfile : x ∈ (download lib intervalStart before).file :=
    mem_file_of_first lib intervalStart hstart hpositive hdecodable hpackets
      (fun y hy => (hlow y hy).trans_lt hx) hbefore
      ⟨r', hr', mem_of_begins (hpackets ▸ hbefore r' hr') hq hqlow⟩
  have hagain : x ∈ r.received.filter (Counts lib (resumePoint lib intervalStart before)) :=
    List.mem_filter.mpr ⟨mem_of_begins (hpackets ▸ hr) hp hplow,
      decide_eq_true ⟨hx, hdecodable x (by simp [hpackets])⟩⟩
  have hfirst : (download lib intervalStart (before ++ [r])).file.Nodup :=
    hnodup.sublist (file_begins lib intervalStart hinit).sublist
  rw [file_concat, List.nodup_append] at hfirst
  exact hfirst.2.2 x hfile x hagain rfl

end

/-- No packet is written twice if every run that is handed something beyond its
resume point has been caught up with; and for packets that are dated, after
the start of the interval, only then. -/
theorem notTwice_iff {packets : List AisPacket} (hdistinct : packets.Nodup)
    (hdecodable : ∀ p ∈ packets, (lib.tryGetAisMessage p).isSome)
    (hsorted : packets.Pairwise fun p q =>
      (lib.getBestTimestamp p).1 ≤ (lib.getBestTimestamp q).1) {runs : List Run}
    (hreceived : ∀ r ∈ runs, r.received <+: packets) :
    let caughtUp := ∀ before r, before ++ [r] <+: runs →
      (∃ p ∈ r.received, resumePoint lib intervalStart before < (lib.getBestTimestamp p).1) →
      CaughtUp lib intervalStart before
    (caughtUp → (download lib intervalStart runs).file.Nodup) ∧
      ((∀ p ∈ packets, intervalStart < (lib.getBestTimestamp p).1) →
        (∀ p ∈ packets, 0 < (lib.getBestTimestamp p).1) →
        (download lib intervalStart runs).file.Nodup → caughtUp) := by
  intro caughtUp
  refine ⟨nodup_file lib intervalStart hdecodable hsorted hdistinct hreceived, ?_⟩
  intro hstart hpositive hnodup before r hinit hbeyond
  exact caughtUp_of_nodup lib intervalStart hstart hpositive hdecodable hreceived hnodup hinit
    hbeyond

end

/-- A response that ended early, and one that brought both packets. -/
theorem notTwice_iff_twoReports :
    let packets := twoReports.map fun d => AisPacket.fromString d.stringMessage
    (download (.ofDecoded twoReports) 0 [⟨packets.take 1, true⟩, ⟨packets, true⟩]).file.Nodup := by
  intro packets
  have hreceived : ∀ r ∈ [(⟨packets.take 1, true⟩ : Run), ⟨packets, true⟩],
      r.received <+: packets := by
    intro r hr
    rcases List.mem_pair.mp hr with rfl | rfl
    · exact List.take_prefix 1 packets
    · exact List.prefix_rfl
  refine (notTwice_iff (.ofDecoded twoReports) 0 (by decide) (by decide) (by decide)
    hreceived).1 ?_
  intro before r hinit _
  have hinit' : before ++ [r] <+: [⟨packets.take 1, true⟩] ++ [⟨packets, true⟩] := hinit
  rcases List.prefix_concat_iff.mp hinit' with heq | hfirst
  · rw [(List.append_inj' heq rfl).1]
    exact @CaughtUp.completed _ _ _ [] [] _ nofun
  · have hfirst' : before ++ [r] <+: [] ++ [⟨packets.take 1, true⟩] := hfirst
    rcases List.prefix_concat_iff.mp hfirst' with heq | hnone
    · rw [(List.append_inj' heq rfl).1]
      exact .nothing nofun
    · simp at hnone

/-- A packet written before a stop and again after it. -/
theorem notTwice_stopped :
    let packets := (twoReports.take 1).map fun d => AisPacket.fromString d.stringMessage
    packets.Nodup ∧ (∀ p ∈ packets, ((AisLib.ofDecoded twoReports).tryGetAisMessage p).isSome) ∧
      ¬ (download (.ofDecoded twoReports) 0
        [stoppedAfter packets 1, ⟨packets, true⟩]).file.Nodup := by
  decide

end AisStore
