import SeaStore.Block.ReadBack

/-!
Appends whose writes may fail or fall short. What a failed frame leaves behind
the last record, and a failed header before the count is touched, does no harm;
a failed entry leaves the handle's count raised, so that the handle must not
append again, and half an entry or half a count spoils the index file.
-/
namespace SeaStore.Block

open Posix

/-- An append whose writes end as the faults say, or the block opened again. -/
inductive FailureOp
  | append (a : Ambient) (faults : Faults) (p : Payload)
  | reopen

def failureStep (dir : String) (id : UInt64) (w : Writer) : FailureOp → Option Writer
  | .append a faults p =>
    match (seaBlockAppend a faults w.block p.bytes p.length).run serve w.tree with
    | some ((⟨0, some recordId, _⟩, block), tree) =>
      some ⟨tree, block, w.acked ++ [(recordId, p)]⟩
    | some ((_, block), tree) => some ⟨tree, block, w.acked⟩
    | none => none
  | .reopen => (openStep dir id w.tree).map fun block => { w with block := block }

def countOnDisk (g : File) : UInt32 :=
  (SeaBlockIndexHeader.ofBytes (slice g.bytes 0 indexHeaderSize)).count

/-- An append that does no harm, by the data file, the index file and the count
of the handle before it. The frame is not written; or nothing of the entry is;
or the entry is written whole by a handle whose count is the one on disk, and
the header is written whole or not as far as the count, at byte 32. -/
def Harmless (f g : File) (count : UInt32) (a : Ambient) (faults : Faults) (p : Payload) : Prop :=
  ¬ FrameCompletes f a faults.frame p ∨ faults.entry.reach indexEntrySize = 0 ∨
    (faults.entry.Full indexEntrySize ∧ count = countOnDisk g ∧ count.toNat + 1 < 2 ^ 32 ∧
      (faults.header.Full indexHeaderSize ∨ faults.header.reach indexHeaderSize ≤ 32))

def HarmlessOp (dir : String) (id : UInt64) (w : Writer) : FailureOp → Prop
  | .append a faults p => ∀ f g, w.tree (.data dir id) = some f → w.tree (.index dir id) = some g →
      Harmless f g w.block.index.header.count a faults p
  | .reopen => True

/-- No query on a fresh handle succeeds but for an acknowledged record. -/
def NothingElse (dir : String) (id : UInt64) (w : Writer) : Prop :=
  ∀ recordId bufLen result t', (queryFresh dir id recordId bufLen).run serve w.tree =
      some (result, t') → result.ret = 0 →
    ∃ p, (recordId, p) ∈ w.acked ∧ result.out = some p.bytes

variable {t : FileTree SeaPath} {dir : String} {id : UInt64} {hdr : SeaBlockIndexHeader}
  {recs : List Payload} {f g : File} {entries : List SeaBlockIndexEntry}

namespace Stored

theorem countOnDisk (h : Stored f g hdr entries recs) : countOnDisk g = hdr.count := by
  rw [Block.countOnDisk, h.header_bytes, SeaBlockIndexHeader.ofBytes_bytes]

/-- A header write that does not reach the count leaves the count and the entries. -/
theorem put_header_part {g' : File} {o : Outcome} {new : SeaBlockIndexHeader}
    {result : Except ℕ ℕ} (h : Stored f g hdr entries recs)
    (hheader : headerWrite g o new = (result, g')) (hreach : o.reach indexHeaderSize ≤ 32) :
    ∃ hdr', hdr'.count = hdr.count ∧ Stored f g' hdr' entries recs := by
  have hfit : new.bytes.length ≤ offMax := by
    rw [SeaBlockIndexHeader.bytes_length]
    decide
  have hpart := File.write_front g hfit o
  rw [show (g.write 0 new.bytes o).2 = g' from congrArg Prod.snd hheader,
    SeaBlockIndexHeader.bytes_length] at hpart
  generalize o.reach indexHeaderSize = k at hreach hpart
  have htake : (new.bytes.take k).length = k := by
    rw [List.length_take, SeaBlockIndexHeader.bytes_length]
    simp only [indexHeaderSize]
    omega
  have hold : hdr.bytes.length = 40 := hdr.bytes_length
  rw [h.index_bytes, List.drop_append_of_le_length (by omega), ← List.append_assoc] at hpart
  have hlen : (new.bytes.take k ++ hdr.bytes.drop k).length = indexHeaderSize := by
    rw [List.length_append, htake, List.length_drop, hold]
    simp only [indexHeaderSize]
    omega
  refine ⟨.ofBytes (new.bytes.take k ++ hdr.bytes.drop k), ?_, ?_, h.frames⟩
  · have hslice : slice (new.bytes.take k ++ hdr.bytes.drop k) 32 4 = slice hdr.bytes 32 4 := by
      rw [slice_append_right _ _ _ _ (by omega), htake, slice, slice, List.drop_drop]
      congr 2
      omega
    calc (SeaBlockIndexHeader.ofBytes (new.bytes.take k ++ hdr.bytes.drop k)).count
        = readLe32 (slice hdr.bytes 32 4) := congrArg readLe32 hslice
      _ = (SeaBlockIndexHeader.ofBytes hdr.bytes).count := rfl
      _ = hdr.count := by rw [SeaBlockIndexHeader.ofBytes_bytes]
  · rw [SeaBlockIndexHeader.bytes_ofBytes _ hlen]
    exact hpart

theorem truncate {e : SeaBlockIndexEntry} {p : Payload}
    (h : Stored f g hdr (entries ++ [e]) (recs ++ [p])) :
    Stored f (g.truncate (indexHeaderSize + indexEntrySize * recs.length)) hdr entries recs := by
  have hlen : entries.length = recs.length := by
    have hall := h.length_eq
    simp only [List.length_append, List.length_singleton] at hall
    omega
  have hcut : (hdr.bytes ++ entries.flatMap SeaBlockIndexEntry.bytes).length =
      indexHeaderSize + indexEntrySize * recs.length := by
    rw [List.length_append, entries_length, SeaBlockIndexHeader.bytes_length, hlen]
  have hbytes : g.bytes = (hdr.bytes ++ entries.flatMap SeaBlockIndexEntry.bytes) ++ e.bytes := by
    rw [h.index_bytes]
    simp
  constructor
  · rw [← hcut]
    exact File.truncate_front hbytes
  · have hframes := List.forall₂_take_append _ _ _ h.frames
    rwa [← hlen, List.take_left] at hframes

end Stored

theorem entryWrite_nothing {o : Outcome} {e : SeaBlockIndexEntry}
    (h : o.reach indexEntrySize = 0) :
    (entryWrite g o e).1 ≠ .ok indexEntrySize ∧ (entryWrite g o e).2 = g := by
  constructor
  · intro hok
    have hfull := ((entryWrite_ok_iff g o e).mp hok).1
    exact absurd (hfull.reach_eq.symm.trans h) (by decide)
  · rcases File.write_bytes g g.size e.bytes o with hsame | hpart
    · exact hsame
    · apply File.ext
      rw [entryWrite, hpart, SeaBlockIndexEntry.bytes_length, h, File.size, List.take_zero,
        overlay_end, List.append_nil]

/-- The files store the acknowledged records and count just those, whatever the
handle has in memory. -/
structure Kept (dir : String) (id : UInt64) (w : Writer) : Prop where
  on : w.block.On dir id
  stored : ∃ hdr recs, Image w.tree dir id hdr recs ∧ hdr.count.toNat = recs.length ∧
    w.acked = numbered 0 recs

theorem Kept.reopen {w w' : Writer} (hw : Kept dir id w)
    (hstep : failureStep dir id w .reopen = some w') : Kept dir id w' := by
  obtain ⟨hdr, recs, himg, hcount, hacked⟩ := hw.stored
  rw [failureStep, openStep_image himg] at hstep
  obtain rfl := Option.some.inj hstep
  exact ⟨openedBlock_on dir id hdr, hdr, recs, himg, hcount, hacked⟩

/-- What an append leaves when it returns nonzero and the records are as before. -/
theorem Kept.failed {w w' : Writer} {a : Ambient} {faults : Faults} {p : Payload}
    {result : AppendResult} {block' : SeaBlock} {t' : FileTree SeaPath} {hdr' : SeaBlockIndexHeader}
    (hon : block'.On dir id) (himg : Image t' dir id hdr' recs)
    (hcount : hdr'.count.toNat = recs.length) (hacked : w.acked = numbered 0 recs)
    (hrun : (seaBlockAppend a faults w.block p.bytes p.length).run serve w.tree =
      some ((result, block'), t')) (hret : result.ret ≠ 0)
    (hstep : failureStep dir id w (.append a faults p) = some w') : Kept dir id w' := by
  rw [failureStep, hrun] at hstep
  have hw' : w' = ⟨t', block', w.acked⟩ := by
    split at hstep
    · rename_i hzero
      cases hzero
      exact absurd rfl hret
    · rename_i hsome
      cases hsome
      exact (Option.some.inj hstep).symm
    · exact absurd hstep (by simp)
  subst hw'
  exact ⟨hon, hdr', recs, himg, hcount, hacked⟩

theorem Kept.append {w w' : Writer} {a : Ambient} {faults : Faults} {p : Payload}
    (hw : Kept dir id w) (hallow : HarmlessOp dir id w (.append a faults p))
    (hstep : failureStep dir id w (.append a faults p) = some w') : Kept dir id w' := by
  obtain ⟨hdr, recs, ⟨f, g, entries, hf, hg, hst⟩, hcount, hacked⟩ := hw.stored
  have hharm := hallow f g hf hg
  by_cases hframe : FrameCompletes f a faults.frame p
  swap
  · obtain ⟨result, block', t', hrun, href⟩ := append_refused hw.on hf hg hst hframe
    refine Kept.failed href.on href.image hcount hacked hrun ?_ hstep
    rw [href.result_eq]
    exact Nat.succ_ne_zero 1
  have hgrow := hst.grow (frameWrite_grows f a faults.frame p)
  have hg' : (w.tree.set (.data dir id) (frameWrite f a faults.frame p).2) w.block.index.fd.path =
      some g := by rw [hw.on.index_path, FileTree.set_other _ _ (by simp), hg]
  rcases hharm with hnot | hnothing | ⟨hentry, hmem, hlt, hheader⟩
  · exact absurd hframe hnot
  · -- nothing of the entry has been written: only the handle's count has changed
    obtain ⟨hfail, hsame⟩ := entryWrite_nothing (g := g) (e := newEntry f a) hnothing
    have hent : entryWrite g faults.entry (newEntry f a) =
        ((entryWrite g faults.entry (newEntry f a)).1, g) := Prod.ext rfl hsame
    obtain ⟨fd, hfd, hindex⟩ := run_indexAppend_entry_fail hg' hent hfail
    obtain ⟨fd', hfd', hrun⟩ := run_seaBlockAppend_index hw.on hf hframe hindex
    refine Kept.failed ⟨hfd', hfd.trans hw.on.index_path⟩
      ⟨_, g, entries, ?_, ?_, hgrow⟩ hcount hacked hrun (Nat.succ_ne_zero 21) hstep
    · rw [hw.on.index_path, FileTree.set_other _ _ (by simp), FileTree.set_self]
    · rw [hw.on.index_path, FileTree.set_self]
  rw [hst.countOnDisk] at hmem
  have hmem' : w.block.index.header.count.toNat = recs.length := by rw [hmem, hcount]
  obtain ⟨g', hent⟩ := entryWrite_full hst hentry (newEntry f a) (by omega)
  have hst' := hgrow.add_entry hent hframe.frameAt
  obtain ⟨result, g'', hhdr⟩ : ∃ result g'', headerWrite g' faults.header
      (w.block.index.header.bump a.now) = (result, g'') := ⟨_, _, rfl⟩
  by_cases hok : result = .ok indexHeaderSize
  · subst hok
    obtain ⟨result, block', t', hrun, happ⟩ := append_appended hw.on hf hg hst hframe hent hhdr
    rw [failureStep, hrun, happ.result_eq] at hstep
    obtain rfl := Option.some.inj hstep
    refine ⟨happ.on, _, _, happ.image, ?_, ?_⟩
    · rw [SeaBlockIndexHeader.bump, UInt32.toNat_add, hmem', List.length_append]
      exact Nat.mod_eq_of_lt (show recs.length + 1 < 2 ^ 32 by omega)
    · have hid : w.block.index.header.count = UInt32.ofNat recs.length := by
        rw [← hmem', UInt32.ofNat_toNat]
      rw [hacked, hid, numbered_concat, UInt32.zero_add]
  · -- the header on disk keeps its count, and the entry is cut off again
    obtain ⟨fd, hfd, hindex⟩ := run_indexAppend_header hg' hent hhdr
    rw [if_neg hok] at hindex
    obtain ⟨fd', hfd', hrun⟩ := run_seaBlockAppend_index hw.on hf hframe hindex
    have hpart : faults.header.reach indexHeaderSize ≤ 32 := by
      rcases hheader with hfull | hpart
      · exact absurd (headerWrite_full hfull hhdr) hok
      · exact hpart
    obtain ⟨hdr', hcount', hst''⟩ := hst'.put_header_part hhdr hpart
    refine Kept.failed ⟨hfd', hfd.trans hw.on.index_path⟩
      ⟨_, _, entries, ?_, ?_, hst''.truncate⟩ (hcount'.symm ▸ hcount) hacked hrun
      (Nat.succ_ne_zero 254) hstep
    · rw [hw.on.index_path, FileTree.set_other _ _ (by simp), FileTree.set_self]
    · rw [hw.on.index_path, FileTree.set_self, hmem']

theorem Kept.readsBack {w : Writer} (hw : Kept dir id w) {recordId : UInt32} {p : Payload}
    (hmem : (recordId, p) ∈ w.acked) : ReadsBack w.tree dir id recordId p := by
  obtain ⟨hdr, recs, himg, hcount, hacked⟩ := hw.stored
  have hlt : recs.length < 2 ^ 32 := by
    rw [← hcount]
    exact hdr.count.toNat_lt
  have hid : hdr.count = UInt32.ofNat recs.length := by rw [← hcount, UInt32.ofNat_toNat]
  rw [hacked] at hmem
  exact (numbered_readsBack_iff himg hid).mpr ⟨hlt, List.prefix_rfl⟩ recordId p hmem

theorem Kept.nothingElse {w : Writer} (hw : Kept dir id w) : NothingElse dir id w := by
  obtain ⟨hdr, recs, himg, hcount, hacked⟩ := hw.stored
  intro recordId bufLen result t' hrun hret
  rw [run_queryFresh himg] at hrun
  obtain ⟨rfl, rfl⟩ := Prod.mk.inj (Option.some.inj hrun)
  unfold lookup at hret ⊢
  by_cases hpast : hdr.count ≤ recordId
  · simp [hpast, EINVAL] at hret
  · rw [if_neg hpast] at hret ⊢
    rw [UInt32.le_iff_toNat_le, hcount, Nat.not_le] at hpast
    rw [List.getElem?_eq_getElem hpast] at hret ⊢
    simp only at hret ⊢
    refine ⟨recs[recordId.toNat], ?_, ?_⟩
    · rw [hacked, mem_numbered]
      exact ⟨recordId.toNat, List.getElem?_eq_getElem hpast, by
        rw [UInt32.zero_add, UInt32.ofNat_toNat]⟩
    · split at hret
      · simp [ENOENT] at hret
      · rename_i hfit
        rw [if_neg hfit]

/-- In every run whose appends do no harm, whichever of them fail, all that has
been acknowledged reads back and nothing else does; an append that returns zero
acknowledges its record. -/
theorem failureRun_kept {now maxSize maxCount : UInt64} {ops : List FailureOp} {w w' : Writer}
    (habs : Absent t dir id) (hnew : newWriter dir id t now maxSize maxCount = some w)
    (hallow : Allowed (failureStep dir id) (HarmlessOp dir id) w ops)
    (hrun : runSteps (failureStep dir id) w ops = some w') :
    (∀ recordId p, (recordId, p) ∈ w'.acked → ReadsBack w'.tree dir id recordId p) ∧
      NothingElse dir id w' ∧
      ∀ a faults block data length, (seaBlockAppend a faults block data length).Returns
        fun out => out.1.ret = 0 → out.1.recordId.isSome := by
  have hstart : Kept dir id w := by
    obtain ⟨hheld, hcount, hacked⟩ := newWriter_held habs hnew
    exact ⟨hheld.1, _, [], hheld.2, congrArg UInt32.toNat hcount, hacked⟩
  have hend : Kept dir id w' := by
    refine runSteps_of_allowed (Kept dir id) ?_ hstart hallow hrun
    intro s op s' hs hop hstep
    cases op with
    | append a faults p => exact hs.append hop hstep
    | reopen => exact hs.reopen hstep
  exact ⟨fun recordId p hmem => hend.readsBack hmem, hend.nothingElse, seaBlockAppend_returns⟩

/-- After a failed entry write the same handle hands out an id that does not
read back; after a header write torn at byte 33 a query succeeds for a record
that was never acknowledged. -/
theorem failureRun_spoiled :
    (∃ w w', newWriter "" 0 (fun _ => none) 0 0 0 = some w ∧
      runSteps (failureStep "" 0) w
        [.append (.clear 0) ⟨.whole, .error 28, .whole⟩ (.single 97),
          .append (.clear 0) .none (.single 98)] = some w' ∧
      (1, Payload.single 98) ∈ w'.acked ∧ ¬ ReadsBack w'.tree "" 0 1 (.single 98)) ∧
    (∃ w w', newWriter "" 0 (fun _ => none) 0 0 0 = some w ∧
      runSteps (failureStep "" 0) w
        [.append (.clear 0) ⟨.whole, .whole, .short 33⟩ (.single 97)] = some w' ∧
      ¬ NothingElse "" 0 w') := by
  constructor
  · obtain ⟨w, hw, hmap⟩ := Option.bind_eq_some_iff.mp (show
      (newWriter "" 0 (fun _ => none) 0 0 0).bind (fun w => (runSteps (failureStep "" 0) w
        [.append (.clear 0) ⟨.whole, .error 28, .whole⟩ (.single 97),
          .append (.clear 0) .none (.single 98)]).map (fun w' => (w'.acked,
            ((queryFresh "" 0 1 1).run serve w'.tree).map Prod.fst))) =
        some ([(1, .single 98)], some ⟨0, some []⟩) by decide +kernel)
    obtain ⟨w', hrun, hval⟩ := Option.map_eq_some_iff.mp hmap
    obtain ⟨hacked, hquery⟩ := Prod.mk.inj hval
    refine ⟨w, w', hw, hrun, ?_, not_readsBack hquery (by decide)⟩
    rw [hacked]
    exact List.mem_singleton_self _
  · obtain ⟨w, hw, hmap⟩ := Option.bind_eq_some_iff.mp (show
      (newWriter "" 0 (fun _ => none) 0 0 0).bind (fun w => (runSteps (failureStep "" 0) w
        [.append (.clear 0) ⟨.whole, .whole, .short 33⟩ (.single 97)]).map (fun w' => (w'.acked,
          ((queryFresh "" 0 0 1).run serve w'.tree).map Prod.fst))) =
        some ([], some ⟨0, some []⟩) by decide +kernel)
    obtain ⟨w', hrun, hval⟩ := Option.map_eq_some_iff.mp hmap
    obtain ⟨hacked, hquery⟩ := Prod.mk.inj hval
    refine ⟨w, w', hw, hrun, ?_⟩
    intro hnothing
    obtain ⟨⟨result, t'⟩, hfresh, hresult⟩ := Option.map_eq_some_iff.mp hquery
    obtain ⟨p, hmem, -⟩ := hnothing 0 1 result t' hfresh (by rw [show result = _ from hresult])
    rw [hacked] at hmem
    exact absurd hmem List.not_mem_nil

/-- An append is acknowledged, another is refused for want of its frame. -/
theorem failureRun_kept_refused :
    ∃ w w', newWriter "" 0 (fun _ => none) 0 0 0 = some w ∧
      runSteps (failureStep "" 0) w
        [.append (.clear 0) .none (.single 97),
          .append (.clear 0) ⟨.error 28, .whole, .whole⟩ (.single 98)] = some w' ∧
      w'.acked = [(0, .single 97)] ∧
      (∀ recordId p, (recordId, p) ∈ w'.acked → ReadsBack w'.tree "" 0 recordId p) ∧
      NothingElse "" 0 w' := by
  obtain ⟨w, hw, hmap⟩ := Option.bind_eq_some_iff.mp (show
    (newWriter "" 0 (fun _ => none) 0 0 0).bind (fun w => (runSteps (failureStep "" 0) w
      [.append (.clear 0) .none (.single 97),
        .append (.clear 0) ⟨.error 28, .whole, .whole⟩ (.single 98)]).map (fun w' =>
          (w.block.index.header.count, (w.tree (.index "" 0)).map countOnDisk, w'.acked))) =
      some (0, some 0, [(0, .single 97)]) by decide +kernel)
  obtain ⟨w', hrun, hval⟩ := Option.map_eq_some_iff.mp hmap
  simp only [Prod.mk.injEq] at hval
  obtain ⟨hcount, hdisk, hacked⟩ := hval
  have hallow : Allowed (failureStep "" 0) (HarmlessOp "" 0) w
      [.append (.clear 0) .none (.single 97),
        .append (.clear 0) ⟨.error 28, .whole, .whole⟩ (.single 98)] := by
    refine ⟨?_, fun s' _ => ⟨?_, fun _ _ => trivial⟩⟩
    · intro f g _ hg
      rw [hg] at hdisk
      refine Or.inr (Or.inr ⟨Or.inl rfl, ?_, ?_, Or.inl (Or.inl rfl)⟩)
      · rw [hcount, Option.some.inj hdisk]
      · rw [hcount]
        decide
    · intro f g _ _
      exact Or.inl (by simp [FrameCompletes, frameWrite, File.write])
  obtain ⟨hback, hnothing, -⟩ := failureRun_kept ⟨rfl, rfl⟩ hw hallow hrun
  exact ⟨w, w', hw, hrun, hacked, hback, hnothing⟩

end SeaStore.Block
