import SeaStore.Block.Layout

/-!
What an update does. It looks up the offset of a record that the handle counts,
and writes a whole frame there, whatever length the old record had; the index
file is only read.
-/
namespace SeaStore.Block

open Posix

variable {t : FileTree SeaPath} {dir : String} {id : UInt64} {hdr : SeaBlockIndexHeader}
  {recs : List Payload} {f g : File} {entries : List SeaBlockIndexEntry} {block : SeaBlock}
  {recordId : UInt32} {p : Payload}

theorem run_seaBlockUpdate_past (h : block.index.header.count ≤ recordId) (a : Ambient)
    (o : Outcome) (data : Bytes) (length : Int32) :
    (seaBlockUpdate a o block recordId data length).run serve t = some ((EINVAL, block), t) := by
  unfold seaBlockUpdate
  rw [Program.run_bind_of_run serve (run_indexQuery_past h)]
  rfl

/-- What an update writes, wherever and with whatever outcome. -/
theorem run_insertByOffsets {data : SeaBlockData} (hf : t data.fd.path = some f)
    (offsets : SeaBlockOffset) (a : Ambient) (o : Outcome) (p : Payload) {pos : ℕ}
    (hpos : (data.fd.seekSet (seaBlockOffsetGet offsets 0)).pos = pos) :
    ∃ fd : Fd SeaPath, fd.path = data.fd.path ∧
      (seaBlockDataInsertByOffsets a o data offsets p.bytes p.length.toUInt32).run serve t =
        some ((if (f.write pos (p.frame a) o).1 = .ok (p.frame a).length then 0 else ENOENT, ⟨fd⟩),
          t.set data.fd.path (f.write pos (p.frame a) o).2) := by
  have hpath := Fd.seekSet_path data.fd (seaBlockOffsetGet offsets 0)
  obtain ⟨result, f', hwrite⟩ : ∃ result f', f.write pos (p.frame a) o = (result, f') := ⟨_, _, rfl⟩
  have hwrite' : f.write (data.fd.seekSet (seaBlockOffsetGet offsets 0)).pos (p.frame a) o =
      (result, f') := by rw [hpos, hwrite]
  have hcall := run_write (data.fd.seekSet (seaBlockOffsetGet offsets 0))
    (by rw [hpath]; exact hf) hwrite'
  rw [hpath] at hcall
  refine ⟨(data.fd.seekSet (seaBlockOffsetGet offsets 0)).advance result, by simp, ?_⟩
  unfold seaBlockDataInsertByOffsets
  rw [Program.run_bind_of_run serve (p.run_buildFrame a)]
  simp only []
  rw [Program.run_bind_of_run serve hcall, hwrite]
  by_cases hok : result = .ok (p.frame a).length
  · simp [hok]
  · simp [hok]

theorem run_seaBlockDataInsertByOffsets {data : SeaBlockData} (hf : t data.fd.path = some f)
    {offsets : SeaBlockOffset} {offset : UInt64} (hoffset : seaBlockOffsetGet offsets 0 = offset)
    (a : Ambient) (hroom : offset.toNat + p.bytes.length + 16 ≤ offMax) :
    ∃ (fd : Fd SeaPath) (f' : File), fd.path = data.fd.path ∧
      f'.bytes = overlay f.bytes offset.toNat (p.frame a) ∧
      (seaBlockDataInsertByOffsets a .whole data offsets p.bytes p.length.toUInt32).run serve t =
        some ((0, ⟨fd⟩), t.set data.fd.path f') := by
  have hwrite : (f.write offset.toNat (p.frame a) .whole).1 = .ok (p.frame a).length := by
    apply (File.write_ok_iff f offset.toNat (p.frame a) .whole).mpr
    refine ⟨Outcome.full_whole _, ?_⟩
    rw [p.frame_length]
    omega
  have hpos : (data.fd.seekSet (seaBlockOffsetGet offsets 0)).pos = offset.toNat := by
    rw [hoffset, Fd.seekSet_of_le (by omega)]
  obtain ⟨fd, hfd, hrun⟩ := run_insertByOffsets hf offsets a .whole p hpos
  rw [if_pos hwrite] at hrun
  exact ⟨fd, _, hfd, File.write_ok_bytes hwrite, hrun⟩

/-- An update of a counted record that is stored writes its frame at the offset
of the old one. -/
theorem run_seaBlockUpdate_hit (hon : block.On dir id) (hf : t (.data dir id) = some f)
    (hg : t (.index dir id) = some g) (hst : Stored f g hdr entries recs)
    (hcount : ¬ block.index.header.count ≤ recordId) {e : SeaBlockIndexEntry}
    (he : entries[recordId.toNat]? = some e) (a : Ambient)
    (hroom : e.offset.toNat + p.bytes.length + 16 ≤ offMax) :
    ∃ block' f', (seaBlockUpdate a .whole block recordId p.bytes p.length).run serve t =
        some ((0, block'), t.set (.data dir id) f') ∧
      block'.On dir id ∧ block'.index.header = block.index.header ∧
      f'.bytes = overlay f.bytes e.offset.toNat (p.frame a) := by
  have hg' : t block.index.fd.path = some g := by rw [hon.index_path]; exact hg
  have hf' : t block.data.fd.path = some f := by rw [hon.data_path]; exact hf
  obtain ⟨fd, hfd, hquery⟩ := run_indexQuery_hit hg' hst hcount he
  have hget : seaBlockOffsetGet { seaBlockOffsetMalloc with offset := [e.offset] } 0 = e.offset :=
    rfl
  obtain ⟨fd', f', hfd', hbytes, hinsert⟩ := run_seaBlockDataInsertByOffsets hf' hget a hroom
  refine ⟨⟨block.dir, block.blockId, ⟨fd'⟩, ⟨fd, block.index.header⟩⟩, f', ?_,
    ⟨hfd'.trans hon.data_path, hfd.trans hon.index_path⟩, rfl, hbytes⟩
  unfold seaBlockUpdate
  rw [Program.run_bind_of_run serve hquery]
  simp only []
  rw [Program.run_bind_of_run serve hinsert, hon.data_path]
  rfl

theorem frameAt_overlay {data : Bytes} {pos : ℕ} (hpos : pos ≤ data.length) (a : Ambient)
    (p : Payload) : FrameAt (overlay data pos (p.frame a)) pos p := by
  refine ⟨data.take pos, a, List.length_take_of_le hpos, ?_⟩
  have hhole : (if p.frame a = [] then 0 else pos - data.length) = 0 := by
    split
    · rfl
    · exact Nat.sub_eq_zero_of_le hpos
  rw [overlay, hhole, List.replicate_zero, List.append_nil]
  exact List.prefix_append _ _

section Layout

variable {filled : List (Ambient × Payload)} {old : Ambient × Payload}

/-- The record at its place has been replaced by one of the same length; the
index file is the same, and no other file differs. -/
theorem LaidOut.update (hon : block.On dir id) (h : LaidOut t dir id hdr filled)
    (hcount : ¬ block.index.header.count ≤ recordId) (hold : filled[recordId.toNat]? = some old)
    (hlen : p.bytes.length = old.2.bytes.length) (a : Ambient) :
    ∃ block' f', (seaBlockUpdate a .whole block recordId p.bytes p.length).run serve t =
        some ((0, block'), t.set (.data dir id) f') ∧
      block'.On dir id ∧ block'.index.header = block.index.header ∧
      LaidOut (t.set (.data dir id) f') dir id hdr (filled.set recordId.toNat (a, p)) := by
  obtain ⟨f, g, entries, hf, hg, hst, hdata, hoffsets⟩ := h
  obtain ⟨e, he, hoffset⟩ := entry_of_located hoffsets hold
  have hframe : FrameAt f.bytes e.offset.toNat old.2 := by
    rw [hoffset, hdata]
    exact frameAt_of_located (List.mem_of_getElem? (located_getElem? hold))
  have hend := hframe.end_le
  have hmax := f.size_le
  obtain ⟨block', f', hrun, hon', hheader, hbytes⟩ :=
    run_seaBlockUpdate_hit (p := p) hon hf hg hst hcount he a (by omega)
  rw [hoffset, hdata, overlay_dataBytes hold (show (a, p).2.bytes.length = _ from hlen)] at hbytes
  rw [← located_set hold (show (a, p).2.bytes.length = _ from hlen)] at hoffsets
  refine ⟨block', f', hrun, hon', hheader, f', g, entries, FileTree.set_self _ _ _, ?_,
    stored_of_located hst.index_bytes hbytes hoffsets, hbytes, hoffsets⟩
  rw [FileTree.set_other _ _ (by simp), hg]

end Layout

end SeaStore.Block
