import AisStore.Export
import AisStore.Lib.BufferedOutput

/-!
The meta file and the buffer.

`FileExportRest` writes through a `BufferedOutputStream` and replaces the
meta file directly, so the order of its effects decides whether the meta
file can speak of packets that a crash would take out of the buffer. It
replaces the meta file first and flushes afterwards. `checkpointSafe_iff`
says when this does no harm: at each checkpoint the last data a packet gave
to the stream since the last flush was a piece long enough to go around the
buffer. An ordinary packet is a line of text, and `checkpointSafe_shortLine`
loses one. With `-force` the output is emptied before the meta file is
replaced, so that the old one must not count packets.

The effects of a run are numbered, in that the packets carry consecutive
numbers and a meta file carries the number reached (`numbered_effects`). All
else is proved of any numbered list of effects.
-/

namespace AisStore

open Lib

/-- What a sink hands to the stream, one list of bytes for each write. -/
structure OutputStreamSink where
  process : AisPacket → ℕ → List (List UInt8)
  footer : ℕ → List (List UInt8)

/-- A byte, and the number of the packet it was written for, if any. -/
abbrev Written := Option ℕ × UInt8

/-- The output stream and the meta file. -/
structure Disk where
  output : BufferedOutput Written 8192
  found : Option Meta

/-- The files of a run when it has opened the output: with `-force` that is
empty again, and the meta file is still the old one. -/
def Disk.opened (forceDownload : Bool) (previous : List UInt8) (found : Option Meta) : Disk :=
  ⟨.open_ ((if forceDownload then [] else previous).map (none, ·)), found⟩

section
variable (sink : OutputStreamSink)

/-- The writes of one packet. -/
def OutputStreamSink.pieces (t : AisPacket) (count : ℕ) : List (List Written) :=
  (sink.process t count).map fun piece => piece.map (some count, ·)

def Disk.apply (w : Disk) : Effect → Disk
  | .newline => { w with output := w.output.write [(none, 13), (none, 10)] }
  | .process t count => { w with output := w.output.writes (sink.pieces t count) }
  | .writeMeta contents => { w with found := some contents }
  | .flushOutput => { w with output := w.output.flush }
  -- `FileOutputStream` has no buffer of its own
  | .flushFile => w
  | .footer count =>
    { w with output := w.output.writes ((sink.footer count).map fun piece => piece.map (none, ·)) }

def Disk.applyAll (w : Disk) (es : List Effect) : Disk :=
  es.foldl (Disk.apply sink) w

theorem Disk.applyAll_concat (w : Disk) (es : List Effect) (e : Effect) :
    w.applyAll sink (es ++ [e]) = (w.applyAll sink es).apply sink e := by
  rw [Disk.applyAll, List.foldl_append]
  rfl

/-! ### Numbered effects -/

/-- What may follow when `count` packets have been counted. -/
def Effect.Numbered (count : ℕ) : Effect → Prop
  | .process _ n => n = count + 1
  | .writeMeta contents => contents.packageCount = count
  | .newline => True
  | .flushOutput => True
  | .flushFile => True
  | .footer _ => True

/-- Effects that count on from `count`. -/
def Numbered (count : ℕ) (es : List Effect) : Prop :=
  ∀ done e, done ++ [e] <+: es → e.Numbered (count + (processed done).length)

theorem numbered_nil (count : ℕ) : Numbered count [] := by
  intro done e h
  simp at h

theorem numbered_concat {count : ℕ} {es : List Effect} {e : Effect} :
    Numbered count (es ++ [e]) ↔
      Numbered count es ∧ e.Numbered (count + (processed es).length) := by
  constructor
  · intro h
    exact ⟨fun done e' hinit => h done e' (hinit.trans (List.prefix_append es [e])),
      h es e List.prefix_rfl⟩
  · rintro ⟨hes, he⟩ done e' hinit
    rcases List.prefix_concat_iff.mp hinit with heq | hinit
    · obtain ⟨rfl, he'⟩ := List.append_inj' heq rfl
      cases he'
      exact he
    · exact hes done e' hinit

theorem Numbered.init {count : ℕ} {done es : List Effect} (h : Numbered count es)
    (hinit : done <+: es) : Numbered count done :=
  fun done' e hinit' => h done' e (hinit'.trans hinit)

theorem numbered_append {count : ℕ} {es es' : List Effect} (hes : Numbered count es)
    (hes' : Numbered (count + (processed es).length) es') : Numbered count (es ++ es') := by
  induction es' using List.reverseRecOn with
  | nil => rwa [List.append_nil]
  | append_singleton es' e ih =>
      obtain ⟨hes', he⟩ := numbered_concat.mp hes'
      rw [← List.append_assoc, numbered_concat, processed_append, List.length_append,
        ← Nat.add_assoc]
      exact ⟨ih hes', he⟩

theorem numbered_cons {count : ℕ} {e : Effect} {es : List Effect} (he : e.Numbered count)
    (hes : Numbered (count + (processed [e]).length) es) : Numbered count (e :: es) :=
  numbered_append (numbered_concat.mpr ⟨numbered_nil count, he⟩) hes

/-! ### What has been written -/

/-- The bytes of the packet with number `n`, out of all that was written. -/
def bytesOf (n : ℕ) (bytes : List Written) : List Written :=
  bytes.filter fun b => b.1 = some n

/-- Everything a packet hands to the stream. -/
def OutputStreamSink.bytes (t : AisPacket) (count : ℕ) : List Written :=
  (sink.pieces t count).flatten

theorem tag_of_mem_pieces {t : AisPacket} {count : ℕ} {piece : List Written}
    (hpiece : piece ∈ sink.pieces t count) {b : Written} (hb : b ∈ piece) : b.1 = some count := by
  obtain ⟨piece', -, rfl⟩ := List.mem_map.mp hpiece
  obtain ⟨x, -, rfl⟩ := List.mem_map.mp hb
  rfl

theorem tag_of_mem_bytes {t : AisPacket} {count : ℕ} {b : Written}
    (hb : b ∈ sink.bytes t count) : b.1 = some count := by
  obtain ⟨piece, hpiece, hb⟩ := List.mem_flatten.mp hb
  exact tag_of_mem_pieces sink hpiece hb

theorem bytesOf_bytes (t : AisPacket) (n : ℕ) : bytesOf n (sink.bytes t n) = sink.bytes t n :=
  List.filter_eq_self.mpr fun _ hb => decide_eq_true (tag_of_mem_bytes sink hb)

theorem bytesOf_eq_nil {n : ℕ} {bytes : List Written} (h : ∀ b ∈ bytes, b.1 ≠ some n) :
    bytesOf n bytes = [] :=
  List.filter_eq_nil_iff.mpr fun b hb htag => h b hb (of_decide_eq_true htag)

theorem bytesOf_append (n : ℕ) (bytes bytes' : List Written) :
    bytesOf n (bytes ++ bytes') = bytesOf n bytes ++ bytesOf n bytes' :=
  List.filter_append _ _

/-- Bytes without a number are those of no packet. -/
theorem bytesOf_untagged {n : ℕ} {bytes : List Written} (h : ∀ b ∈ bytes, b.1 = none) :
    bytesOf n bytes = [] :=
  bytesOf_eq_nil fun b hb htag => by rw [h b hb] at htag; cases htag

/-- What an effect adds to the bytes of a packet: all of them if it processes
that packet, and otherwise none. -/
theorem bytesOf_apply (n : ℕ) (w : Disk) (e : Effect) :
    bytesOf n (w.apply sink e).output.contents = bytesOf n w.output.contents ++
      match e with
      | .process t number => if n = number then sink.bytes t n else []
      | _ => [] := by
  cases e with
  | newline =>
      change bytesOf n (w.output.write _).contents = _
      rw [BufferedOutput.contents_write, bytesOf_append]
      exact congrArg _ (bytesOf_untagged (by decide))
  | process t number =>
      change bytesOf n (w.output.writes _).contents = _
      rw [BufferedOutput.contents_writes, bytesOf_append]
      refine congrArg _ ?_
      change bytesOf n (sink.bytes t number) = if n = number then _ else _
      split_ifs with hn
      · rw [← hn, bytesOf_bytes]
      · exact bytesOf_eq_nil fun b hb htag =>
          hn (Option.some.inj (htag.symm.trans (tag_of_mem_bytes sink hb)))
  | writeMeta contents => exact (List.append_nil _).symm
  | flushOutput =>
      change bytesOf n w.output.flush.contents = _
      rw [BufferedOutput.contents_flush, List.append_nil]
  | flushFile => exact (List.append_nil _).symm
  | footer footerCount =>
      change bytesOf n (w.output.writes _).contents = _
      rw [BufferedOutput.contents_writes, bytesOf_append]
      refine congrArg _ (bytesOf_untagged ?_)
      intro b hb
      obtain ⟨piece, hpiece, hb⟩ := List.mem_flatten.mp hb
      obtain ⟨piece', -, rfl⟩ := List.mem_map.mp hpiece
      obtain ⟨x, -, rfl⟩ := List.mem_map.mp hb
      rfl

/-- The stream carries each packet that was processed, once, under its number. -/
theorem bytesOf_contents {count : ℕ} {w : Disk} (hw : ∀ b ∈ w.output.contents, b.1 = none)
    {es : List Effect} (hes : Numbered count es) (n : ℕ) :
    bytesOf n (w.applyAll sink es).output.contents =
      if count < n then
        ((processed es)[n - count - 1]?).elim [] fun t => sink.bytes t n
      else [] := by
  induction es using List.reverseRecOn with
  | nil =>
      change bytesOf n w.output.contents = _
      rw [bytesOf_untagged hw]
      split_ifs <;> rfl
  | append_singleton es e ih =>
      obtain ⟨hbefore, he⟩ := numbered_concat.mp hes
      rw [Disk.applyAll_concat, processed_append, bytesOf_apply, ih hbefore]
      cases e with
      | process t number =>
          have hnumber : number = count + (processed es).length + 1 := he
          change _ ++ (if n = number then _ else _) =
            if count < n then ((processed es ++ [t])[_]?).elim _ _ else _
          by_cases hn : n = number
          · have hlt : count < n := by omega
            have hindex : n - count - 1 = (processed es).length := by omega
            rw [if_pos hlt, if_pos hlt, if_pos hn, hindex, List.getElem?_eq_none le_rfl,
              List.getElem?_concat_length]
            rfl
          · rw [if_neg hn, List.append_nil]
            split_ifs with hlt
            · have hindex : n - count - 1 ≠ (processed es).length := by omega
              rcases Nat.lt_or_gt_of_ne hindex with hlow | hhigh
              · rw [List.getElem?_append_left hlow]
              · rw [List.getElem?_eq_none hhigh.le, List.getElem?_eq_none]
                rw [List.length_append, List.length_singleton]
                omega
            · rfl
      -- the other effects process nothing
      | _ =>
          change _ ++ [] = if count < n then ((processed es ++ [])[_]?).elim _ _ else _
          rw [List.append_nil, List.append_nil]

/-! ### What the buffer holds -/

/-- A byte that belongs to a packet. -/
def OfPacket (b : Written) : Prop := b.1 ≠ none

/-- The last piece of packet data that is not empty, since the last flush. -/
def lastPiece (es : List Effect) : Option (List Written) :=
  es.foldl (fun last e => match e with
    | .process t count => (BufferedOutput.lastNonempty (sink.pieces t count)).or last
    | .flushOutput => none
    | _ => last) none

theorem lastPiece_concat (es : List Effect) (e : Effect) :
    lastPiece sink (es ++ [e]) = match e with
      | .process t count =>
        (BufferedOutput.lastNonempty (sink.pieces t count)).or (lastPiece sink es)
      | .flushOutput => none
      | _ => lastPiece sink es := by
  rw [lastPiece, List.foldl_append]
  rfl

/-- Effects that give the stream nothing but packets. -/
def OnlyPackets (es : List Effect) : Prop :=
  ∀ e ∈ es, e ≠ .newline ∧ ∀ count, e ≠ .footer count

/-- The buffer holds packet data exactly if the last piece waits in it. -/
theorem holds_applyAll {w : Disk} (hw : ¬ w.output.Holds OfPacket) {es : List Effect}
    (hes : OnlyPackets es) :
    (w.applyAll sink es).output.Holds OfPacket ↔
      ∃ piece, lastPiece sink es = some piece ∧ piece.length < 8192 := by
  induction es using List.reverseRecOn with
  | nil =>
      refine iff_of_false hw ?_
      rintro ⟨piece, hpiece, -⟩
      cases hpiece
  | append_singleton es e ih =>
      have hbefore := ih fun e' he' => hes e' (List.mem_append_left _ he')
      obtain ⟨hnewline, hfooter⟩ := hes e (List.mem_append_right _ (List.mem_singleton.mpr rfl))
      rw [Disk.applyAll_concat, lastPiece_concat]
      cases e with
      | newline => exact absurd rfl hnewline
      | footer count => exact absurd rfl (hfooter count)
      | writeMeta contents => exact hbefore
      | flushFile => exact hbefore
      | flushOutput =>
          refine iff_of_false (BufferedOutput.not_holds_flush _ _) ?_
          rintro ⟨piece, hpiece, -⟩
          cases hpiece
      | process t count =>
          have htagged : ∀ piece ∈ sink.pieces t count, ∀ b ∈ piece, OfPacket b := by
            intro piece hpiece b hb hnone
            rw [tag_of_mem_pieces sink hpiece hb] at hnone
            cases hnone
          refine (BufferedOutput.holds_writes _ (by decide) htagged).trans ?_
          change _ ↔ ∃ piece,
            (BufferedOutput.lastNonempty (sink.pieces t count)).or (lastPiece sink es) =
              some piece ∧ piece.length < 8192
          cases BufferedOutput.lastNonempty (sink.pieces t count) with
          | none => exact hbefore
          | some piece => simp

/-! ### Safety of a checkpoint -/

/-- The packets the meta file speaks of, as far as this run counted them,
are in the output file. The run began with `count` packets and counts
`counted`. -/
def Safe (count : ℕ) (counted : List AisPacket) (w : Disk) : Prop :=
  ∀ n, count < n → (∃ contents, w.found = some contents ∧ n ≤ contents.packageCount) →
    ∃ t, counted[n - count - 1]? = some t ∧ bytesOf n w.output.file = sink.bytes t n

theorem getElem?_of_init {α : Type} {xs ys : List α} (h : xs <+: ys) {i : ℕ} {a : α}
    (hi : xs[i]? = some a) : ys[i]? = some a := by
  obtain ⟨rest, rfl⟩ := h
  rw [List.getElem?_append_left (List.getElem?_eq_some_iff.mp hi).1]
  exact hi

section
variable {count : ℕ} {counted : List AisPacket} {w : Disk}
  (hw : ∀ b ∈ w.output.contents, b.1 = none) {done : List Effect}
include hw

/-- A new meta file is safe exactly if no packet waits in the buffer. -/
theorem safe_writeMeta_iff {contents : Meta}
    (hdone : Numbered count (done ++ [.writeMeta contents]))
    (hcounted : processed done <+: counted) :
    Safe sink count counted (w.applyAll sink (done ++ [.writeMeta contents])) ↔
      ¬ (w.applyAll sink done).output.Holds OfPacket := by
  obtain ⟨hbefore, hcount⟩ := numbered_concat.mp hdone
  change contents.packageCount = count + (processed done).length at hcount
  have hbytes := bytesOf_contents sink hw hbefore
  have hsplit (n : ℕ) : bytesOf n (w.applyAll sink done).output.contents =
      bytesOf n (w.applyAll sink done).output.file ++
        bytesOf n (w.applyAll sink done).output.buffer := bytesOf_append n _ _
  rw [Disk.applyAll_concat]
  constructor
  · rintro hsafe ⟨b, hb, hpacket⟩
    obtain ⟨n, htag⟩ := Option.ne_none_iff_exists'.mp hpacket
    have hmem : b ∈ bytesOf n (w.applyAll sink done).output.buffer :=
      List.mem_filter.mpr ⟨hb, decide_eq_true htag⟩
    have hn := hbytes n
    rw [hsplit] at hn
    split_ifs at hn with hlt
    · cases ht : (processed done)[n - count - 1]? with
      | none =>
          rw [ht] at hn
          exact List.ne_nil_of_mem hmem (List.append_eq_nil_iff.mp hn).2
      | some t =>
          have hindex := (List.getElem?_eq_some_iff.mp ht).1
          obtain ⟨t', ht', hfile⟩ := hsafe n hlt ⟨contents, rfl, by omega⟩
          rw [getElem?_of_init hcounted ht] at ht'
          cases ht'
          rw [ht, Option.elim_some] at hn
          have hnone : bytesOf n (w.applyAll sink done).output.buffer = [] :=
            List.append_right_eq_self.mp (hn.trans hfile.symm)
          exact List.ne_nil_of_mem hmem hnone
    · exact List.ne_nil_of_mem hmem (List.append_eq_nil_iff.mp hn).2
  · rintro hempty n hlt ⟨contents', heq, hle⟩
    cases heq
    have hindex : n - count - 1 < (processed done).length := by omega
    refine ⟨(processed done)[n - count - 1],
      getElem?_of_init hcounted (List.getElem?_eq_getElem hindex), ?_⟩
    have hnone : bytesOf n (w.applyAll sink done).output.buffer = [] :=
      bytesOf_eq_nil fun b hb htag => hempty ⟨b, hb, by rw [OfPacket, htag]; exact nofun⟩
    have hn := hbytes n
    rw [hsplit, hnone, List.append_nil, if_pos hlt, List.getElem?_eq_getElem hindex] at hn
    exact hn

/-- Everything else leaves a safe meta file safe. -/
theorem safe_concat {e : Effect} (he : ∀ contents, e ≠ .writeMeta contents)
    (hdone : Numbered count (done ++ [e])) (hcounted : processed (done ++ [e]) <+: counted)
    (hsafe : Safe sink count counted (w.applyAll sink done)) :
    Safe sink count counted (w.applyAll sink (done ++ [e])) := by
  have hfound : (w.applyAll sink (done ++ [e])).found = (w.applyAll sink done).found := by
    rw [Disk.applyAll_concat]
    cases e with
    | writeMeta contents => exact absurd rfl (he contents)
    | _ => rfl
  have hgrows : (w.applyAll sink done).output.file <+:
      (w.applyAll sink (done ++ [e])).output.file := by
    rw [Disk.applyAll_concat]
    cases e with
    | newline => exact BufferedOutput.file_prefix_write _ _
    | process t number => exact BufferedOutput.file_prefix_writes _ _
    | writeMeta contents => exact List.prefix_rfl
    | flushOutput => exact BufferedOutput.file_prefix_flush _
    | flushFile => exact List.prefix_rfl
    | footer number => exact BufferedOutput.file_prefix_writes _ _
  rintro n hlt hle
  rw [hfound] at hle
  obtain ⟨t, ht, hfile⟩ := hsafe n hlt hle
  refine ⟨t, ht, ?_⟩
  -- the file grows, and never beyond what the packet was to write
  have hlower : (sink.bytes t n).Sublist
      (bytesOf n (w.applyAll sink (done ++ [e])).output.file) :=
    hfile ▸ hgrows.sublist.filter _
  have hupper : (bytesOf n (w.applyAll sink (done ++ [e])).output.file).Sublist
      (bytesOf n (w.applyAll sink (done ++ [e])).output.contents) :=
    (List.sublist_append_left _ _).filter _
  refine List.Sublist.antisymm (hupper.trans ?_) hlower
  rw [bytesOf_contents sink hw hdone, if_pos hlt]
  cases ht' : (processed (done ++ [e]))[n - count - 1]? with
  | none => exact List.nil_sublist _
  | some t' =>
      have heq := (getElem?_of_init hcounted ht').symm.trans ht
      cases heq
      exact List.Sublist.refl _

/-- The meta file is safe all along exactly if the one that is found is, and
each new one. -/
theorem safe_run_iff {es : List Effect} (hes : Numbered count es)
    (hcounted : processed es <+: counted) :
    (∀ done, done <+: es → Safe sink count counted (w.applyAll sink done)) ↔
      Safe sink count counted w ∧ ∀ done contents, done ++ [.writeMeta contents] <+: es →
        ¬ (w.applyAll sink done).output.Holds OfPacket := by
  have hprocessed {done : List Effect} (hinit : done <+: es) : processed done <+: counted :=
    (hinit.filterMap _).trans hcounted
  constructor
  · intro hsafe
    refine ⟨hsafe [] List.nil_prefix, fun done contents hinit => ?_⟩
    exact (safe_writeMeta_iff sink hw (hes.init hinit)
      (hprocessed ((List.prefix_append _ _).trans hinit))).mp (hsafe _ hinit)
  · rintro ⟨hstart, hmeta⟩ done hinit
    induction done using List.reverseRecOn with
    | nil => exact hstart
    | append_singleton done e ih =>
        have hbefore : done <+: es := (List.prefix_append done [e]).trans hinit
        by_cases he : ∃ contents, e = .writeMeta contents
        · obtain ⟨contents, rfl⟩ := he
          exact (safe_writeMeta_iff sink hw (hes.init hinit) (hprocessed hbefore)).mpr
            (hmeta done contents hinit)
        · exact safe_concat sink hw (fun contents h => he ⟨contents, h⟩) (hes.init hinit)
            (hprocessed hinit) (ih hbefore)

end

/-! ### The effects of a run -/

section
variable {Pos : Type} (lib : AisLib Pos) (intervalStart : ℤ)

theorem numbered_aisReadWriter (c : FileExportRest) (received : List AisPacket) :
    Numbered c.counter (FileExportRest.aisReadWriter lib c received).2 := by
  induction received using List.reverseRecOn with
  | nil => exact numbered_nil _
  | append_singleton received t ih =>
      by_cases hcounts : Counts lib c.lastLoadedTimestamp t
      · obtain ⟨state, checkpoint, heq, -, hcheckpoint⟩ :=
          FileExportRest.aisReadWriter_of_counts lib received hcounts
        rw [heq]
        refine numbered_append ih ?_
        rw [FileExportRest.processed_aisReadWriter, ← FileExportRest.aisReadWriter_counter]
        refine numbered_cons rfl ?_
        rcases hcheckpoint with rfl | rfl
        · exact numbered_nil _
        · exact numbered_cons rfl (numbered_cons trivial (numbered_cons trivial (numbered_nil _)))
      · rw [FileExportRest.aisReadWriter_of_not_counts lib received hcounts]
        exact ih

theorem onlyPackets_aisReadWriter (c : FileExportRest) (received : List AisPacket) :
    OnlyPackets (FileExportRest.aisReadWriter lib c received).2 := by
  induction received using List.reverseRecOn with
  | nil => exact nofun
  | append_singleton received t ih =>
      by_cases hcounts : Counts lib c.lastLoadedTimestamp t
      · obtain ⟨state, checkpoint, heq, -, hcheckpoint⟩ :=
          FileExportRest.aisReadWriter_of_counts lib received hcounts
        rw [heq]
        intro e he
        rcases List.mem_append.mp he with he | he
        · exact ih e he
        · rcases hcheckpoint with rfl | rfl
          · cases List.mem_singleton.mp he
            exact ⟨nofun, nofun⟩
          · simp only [List.mem_cons, List.not_mem_nil, or_false] at he
            rcases he with rfl | rfl | rfl | rfl <;> exact ⟨nofun, nofun⟩
      · rw [FileExportRest.aisReadWriter_of_not_counts lib received hcounts]
        exact ih

theorem numbered_effects (found : Option Meta) (r : Run) :
    Numbered (found.elim 0 Meta.packageCount) (r.effects lib intervalStart false found) := by
  have hstart : Numbered (found.elim 0 Meta.packageCount)
      (FileExportRest.start false intervalStart found).2 := by
    simp only [FileExportRest.start]
    split_ifs
    · exact numbered_cons trivial (numbered_nil _)
    · exact numbered_cons rfl (numbered_nil _)
  have hbody := numbered_aisReadWriter lib (FileExportRest.start false intervalStart found).1 r.received
  rw [start_counter] at hbody
  rw [Run.effects]
  refine numbered_append (numbered_append hstart (by rwa [processed_start])) ?_
  rw [processed_append, processed_start, List.nil_append, FileExportRest.processed_aisReadWriter,
    ← start_counter intervalStart found, ← FileExportRest.aisReadWriter_counter]
  split_ifs
  · exact numbered_cons rfl (numbered_cons trivial (numbered_cons trivial (numbered_cons trivial
      (numbered_cons trivial (numbered_cons trivial (numbered_nil _))))))
  · exact numbered_nil _

theorem init_of_not_mem {α : Type} {xs ys zs : List α} {a : α} (h : zs ++ [a] <+: xs ++ ys)
    (ha : a ∉ ys) : zs ++ [a] <+: xs := by
  induction ys using List.reverseRecOn with
  | nil => rwa [List.append_nil] at h
  | append_singleton ys y ih =>
      rw [← List.append_assoc] at h
      rcases List.prefix_concat_iff.mp h with heq | h
      · obtain ⟨-, hay⟩ := List.append_inj' heq rfl
        cases hay
        exact absurd (List.mem_append_right _ (List.mem_singleton.mpr rfl)) ha
      · exact ih h fun hmem => ha (List.mem_append_left _ hmem)

/-- Nothing but packets has gone to the stream when the meta file is replaced,
once the run has been opened. -/
theorem onlyPackets_before_writeMeta {found : Option Meta} {r : Run} {done : List Effect}
    {contents : Meta} (h : done ++ [.writeMeta contents] <+: r.effects lib intervalStart false found) :
    OnlyPackets done ∨ ∃ es, done = .newline :: es ∧ OnlyPackets es := by
  have hdone : done <+: (FileExportRest.start false intervalStart found).2 ++
      (FileExportRest.aisReadWriter lib (FileExportRest.start false intervalStart found).1
        r.received).2 := by
    rw [Run.effects] at h
    cases hcompleted : r.completed with
    | false =>
        rw [hcompleted, if_neg Bool.false_ne_true, List.append_nil] at h
        exact (List.prefix_append _ _).trans h
    | true =>
        -- the last checkpoint is the first thing that `finish` does
        rw [hcompleted, if_pos rfl, FileExportRest.finish, List.append_cons (_ ++ _)] at h
        rcases List.prefix_concat_iff.mp (init_of_not_mem h (by simp)) with heq | hinit
        · rw [(List.append_inj' heq rfl).1]
        · exact (List.prefix_append _ _).trans hinit
  have hbody := onlyPackets_aisReadWriter lib (FileExportRest.start false intervalStart found).1
    r.received
  rcases start_cases intervalStart found with ⟨m, -, -, -, hstart⟩ | ⟨-, hstart⟩ <;>
    rw [hstart] at hdone hbody <;>
    rcases List.prefix_cons_iff.mp hdone with rfl | ⟨es, rfl, hes⟩
  · exact .inl (by simp [OnlyPackets])
  · exact .inr ⟨es, rfl, fun e he => hbody e (hes.subset he)⟩
  · exact .inl (by simp [OnlyPackets])
  · refine .inl fun e he => ?_
    rcases List.mem_cons.mp he with rfl | he
    · simp
    · exact hbody e (hes.subset he)

/-- Whether packets wait in the buffer at a checkpoint. -/
theorem holds_before_writeMeta {w : Disk} (hopened : ¬ w.output.Holds OfPacket)
    {found : Option Meta} {r : Run} {done : List Effect} {contents : Meta}
    (h : done ++ [.writeMeta contents] <+: r.effects lib intervalStart false found) :
    (w.applyAll sink done).output.Holds OfPacket ↔
      ∃ piece, lastPiece sink done = some piece ∧ piece.length < 8192 := by
  rcases onlyPackets_before_writeMeta lib intervalStart h with hdone | ⟨es, rfl, hes⟩
  · exact holds_applyAll sink hopened hdone
  · have hnewline : ¬ (w.apply sink .newline).output.Holds OfPacket :=
      fun hholds => hopened (BufferedOutput.holds_of_holds_write
        (by simp [OfPacket]) hholds)
    exact holds_applyAll sink hnewline hes

/-- What the run finds is safe if it is read. If it is not, the output has
been emptied, and the packets the meta file counts must be such that the sink
writes nothing for them. -/
theorem safe_opened_iff {forceDownload : Bool} {previous : List UInt8} {found : Option Meta}
    {counted : List AisPacket} :
    Safe sink ((metaRead forceDownload found).elim 0 Meta.packageCount) counted
        (Disk.opened forceDownload previous found) ↔
      (forceDownload = true → ∀ m, found = some m → ∀ n, 0 < n → n ≤ m.packageCount →
        ∃ t, counted[n - 1]? = some t ∧ sink.bytes t n = []) := by
  cases forceDownload with
  | false =>
      refine iff_of_true ?_ nofun
      rintro n hlt ⟨contents, hfound, hle⟩
      change found = some contents at hfound
      rw [metaRead, if_neg Bool.false_ne_true, hfound, Option.elim_some] at hlt
      omega
  | true =>
      constructor
      · intro hsafe _ m hfound n hpos hle
        obtain ⟨t, ht, hbytes⟩ := hsafe n hpos ⟨m, hfound, hle⟩
        exact ⟨t, ht, hbytes.symm⟩
      · rintro hnothing n hpos ⟨m, hfound, hle⟩
        obtain ⟨t, ht, hbytes⟩ := hnothing rfl m hfound n hpos hle
        exact ⟨t, ht, hbytes.symm⟩

/-- The meta file counts only packets that are in the output file exactly if
no meta file that counts packets is left beside an output that `-force` has
emptied, and at each checkpoint the last data since the last flush has gone
around the buffer. -/
theorem checkpointSafe_iff (forceDownload : Bool) (previous : List UInt8) (found : Option Meta)
    (r : Run) :
    let read := metaRead forceDownload found
    let counted := r.received.filter (Counts lib (resumeTimestamp intervalStart read))
    (∀ done, done <+: r.effects lib intervalStart forceDownload found →
      Safe sink (read.elim 0 Meta.packageCount) counted
        ((Disk.opened forceDownload previous found).applyAll sink done)) ↔
      (forceDownload = true → ∀ m, found = some m → ∀ n, 0 < n → n ≤ m.packageCount →
        ∃ t, counted[n - 1]? = some t ∧ sink.bytes t n = []) ∧
      ∀ done contents,
        done ++ [.writeMeta contents] <+: r.effects lib intervalStart forceDownload found →
        ∀ piece, lastPiece sink done = some piece → 8192 ≤ piece.length := by
  intro read counted
  have huntagged : ∀ b ∈ (Disk.opened forceDownload previous found).output.contents,
      b.1 = none := by
    intro b hb
    rw [Disk.opened, BufferedOutput.contents_open] at hb
    obtain ⟨x, -, rfl⟩ := List.mem_map.mp hb
    rfl
  have hopened : ¬ (Disk.opened forceDownload previous found).output.Holds OfPacket := by
    rintro ⟨b, hb, -⟩
    cases hb
  have hcounted : processed (r.effects lib intervalStart false read) <+: counted := by
    rw [processed_effects]
  rw [Run.effects_metaRead,
    safe_run_iff sink huntagged (numbered_effects lib intervalStart read r) hcounted]
  refine and_congr (safe_opened_iff sink) ?_
  refine forall_congr' fun done => forall_congr' fun contents => forall_congr' fun h => ?_
  rw [holds_before_writeMeta sink lib intervalStart hopened h]
  constructor
  · intro hempty piece hpiece
    exact not_lt.mp fun hshort => hempty ⟨piece, hpiece, hshort⟩
  · rintro hlong ⟨piece, hpiece, hshort⟩
    exact absurd hshort (not_lt.mpr (hlong piece hpiece))

end

end

/-- A sink that writes a message and a line break. -/
def textSink : OutputStreamSink where
  process t _ := [t.stringMessage.toUTF8.data.toList, [10]]
  footer _ := []

/-- One position report. -/
def shortLine : List Decoded :=
  [positionReport]

/-- A crash before the last flush: the meta file counts the packet, and the
output file is empty. So it is when a run with `-force` has just opened the
output beside a meta file that counts a packet. -/
theorem checkpointSafe_shortLine :
    let packets := shortLine.map fun d => AisPacket.fromString d.stringMessage
    let es := Run.effects (.ofDecoded shortLine) 0 false none ⟨packets, true⟩
    let w := (Disk.opened false [] none).applyAll textSink (es.take 3)
    w.found = some ⟨600000, 1⟩ ∧ w.output.file = [] ∧
      (¬ ∀ done, done <+: es → Safe textSink 0 packets
        ((Disk.opened false [] none).applyAll textSink done)) ∧
      ¬ Safe textSink 0 packets (Disk.opened true [65, 10] (some ⟨600000, 1⟩)) := by
  intro packets es w
  have hfound : w.found = some ⟨600000, 1⟩ := by decide
  have hfile : w.output.file = [] := by decide
  refine ⟨hfound, hfile, ?_, ?_⟩
  · intro hsafe
    obtain ⟨t, ht, hbytes⟩ := hsafe (es.take 3) (List.take_prefix 3 es) 1 (by decide)
      ⟨_, hfound, le_rfl⟩
    rw [hfile] at hbytes
    cases ht
    exact absurd hbytes (by decide)
  · intro hsafe
    obtain ⟨t, ht, hbytes⟩ := hsafe 1 (by decide) ⟨_, rfl, le_rfl⟩
    cases ht
    exact absurd hbytes (by decide)

end AisStore
