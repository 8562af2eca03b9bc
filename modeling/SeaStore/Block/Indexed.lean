import SeaStore.Block.Place
import SeaStore.Block.Update

/-!
Blocks whose index file is whole. It is a header and a list of entries, each of
which leads to a place in the data file with room for a small frame, and the
header counts no more than there are. Appends and updates by any handles keep a
block so, with whatever they put into the data file, as long as their writes to
the index file complete.
-/
namespace SeaStore.Block

open Posix

/-- The bytes of a frame around sixteen bytes of payload. -/
def smallFrameSize : ℕ := 32

structure Spaced (f g : File) (hdr : SeaBlockIndexHeader) (entries : List SeaBlockIndexEntry) :
    Prop where
  index_bytes : g.bytes = hdr.bytes ++ entries.flatMap SeaBlockIndexEntry.bytes
  count_le : hdr.count.toNat ≤ entries.length
  sized : smallFrameSize * entries.length ≤ f.size
  places : ∀ e ∈ entries, e.offset.toNat + smallFrameSize ≤ f.size

/-- The index file of block `id` in `dir` is whole and has `n` entries. -/
def Indexed (t : FileTree SeaPath) (dir : String) (id : UInt64) (n : ℕ) : Prop :=
  ∃ f g hdr entries, t (.data dir id) = some f ∧ t (.index dir id) = some g ∧
    Spaced f g hdr entries ∧ entries.length = n

variable {t t' : FileTree SeaPath} {dir : String} {id : UInt64} {f g : File}
  {hdr : SeaBlockIndexHeader} {entries : List SeaBlockIndexEntry} {n : ℕ}
  {block block' : SeaBlock} {a : Ambient} {faults : Faults} {p : Payload} {recordId : UInt32}

namespace Spaced

theorem grow {f' : File} (h : Spaced f g hdr entries) (hgrow : f.size ≤ f'.size) :
    Spaced f' g hdr entries where
  index_bytes := h.index_bytes
  count_le := h.count_le
  sized := Nat.le_trans h.sized hgrow
  places e he := Nat.le_trans (h.places e he) hgrow

theorem index_size (h : Spaced f g hdr entries) :
    g.size = indexHeaderSize + indexEntrySize * entries.length :=
  index_file_size h.index_bytes

theorem header_bytes (h : Spaced f g hdr entries) :
    slice g.bytes 0 indexHeaderSize = hdr.bytes :=
  slice_indexHeader h.index_bytes

theorem countOnDisk_eq (h : Spaced f g hdr entries) : countOnDisk g = hdr.count := by
  rw [countOnDisk, h.header_bytes, SeaBlockIndexHeader.ofBytes_bytes]

theorem entry_bytes (h : Spaced f g hdr entries) {e : SeaBlockIndexEntry}
    (he : entries[recordId.toNat]? = some e) :
    slice g.bytes (entryPlace recordId) indexEntrySize = e.bytes :=
  slice_indexEntry h.index_bytes he

theorem index_room (h : Spaced f g hdr entries) : g.size + indexEntrySize ≤ offMax := by
  have hsized := h.sized
  have hmax := f.size_le
  rw [h.index_size]
  simp only [smallFrameSize, File.size, indexHeaderSize, indexEntrySize, offMax]
    at hsized hmax ⊢
  omega

/-- A completed frame, its entry and a header that counts no further. -/
theorem append {f' g' g'' : File} {new : SeaBlockIndexHeader} {size : ℕ}
    (h : Spaced f g hdr entries) (hsize : f'.size = f.size + size + 16) (hlen : 16 ≤ size)
    (hentry : entryWrite g .whole (newEntry f a) = (.ok indexEntrySize, g'))
    (hheader : headerWrite g' .whole new = (.ok indexHeaderSize, g''))
    (hcount : new.count.toNat ≤ entries.length + 1) :
    Spaced f' g'' new (entries ++ [newEntry f a]) := by
  have hoffset : (newEntry f a).offset.toNat ≤ f.size := by
    rw [newEntry, UInt64.toNat_ofNat']
    exact Nat.mod_le _ _
  refine ⟨index_put_header (index_add_entry h.index_bytes hentry) hheader, ?_, ?_, ?_⟩
  · rw [List.length_append, List.length_singleton]
    exact hcount
  · have hsized := h.sized
    rw [hsize, List.length_append, List.length_singleton, smallFrameSize]
    rw [smallFrameSize] at hsized
    omega
  · intro e he
    rw [hsize]
    rcases List.mem_append.mp he with he | he
    · have hplace := h.places e he
      omega
    · obtain rfl := List.mem_singleton.mp he
      rw [smallFrameSize]
      omega

end Spaced

/-- An append to such a block leaves it so, whatever became of its frame. -/
theorem Indexed.append (h : Indexed t dir id n) (hon : block.On dir id)
    (hcount : block.index.header.count.toNat ≤ n) (hlen : 16 ≤ p.bytes.length)
    (hentry : faults.entry = .whole) (hheader : faults.header = .whole) {result : AppendResult}
    (hrun : (seaBlockAppend a faults block p.bytes p.length).run serve t =
      some ((result, block'), t')) :
    ∃ n', n ≤ n' ∧ Indexed t' dir id n' ∧ block'.On dir id ∧
      block'.index.header.count.toNat ≤ n' := by
  obtain ⟨f, g, hdr, entries, hf, hg, hspaced, rfl⟩ := h
  have hgrow : f.size ≤ (frameWrite f a faults.frame p).2.size := File.size_le_write _ _ _ _
  obtain ⟨fd, hfd, -, hblock⟩ := run_seaBlockAppend_data a faults p hon hf
  rw [hrun] at hblock
  by_cases hframe : FrameCompletes f a faults.frame p
  swap
  · rw [if_neg hframe] at hblock
    obtain ⟨hpair, rfl⟩ := Prod.mk.inj (Option.some.inj hblock)
    obtain ⟨-, rfl⟩ := Prod.mk.inj hpair
    refine ⟨_, Nat.le_refl _, ⟨_, g, hdr, entries, FileTree.set_self _ _ _, ?_,
      hspaced.grow hgrow, rfl⟩, ⟨hfd, hon.index_path⟩, hcount⟩
    rw [FileTree.set_other _ _ (by simp), hg]
  rw [if_pos hframe] at hblock
  have hsize : (frameWrite f a faults.frame p).2.size = f.size + p.bytes.length + 16 := by
    rw [File.size, hframe.bytes, List.length_append, p.frame_length, File.size, Nat.add_assoc]
  obtain ⟨g', hent'⟩ := entryWrite_whole hspaced.index_room (newEntry f a)
  obtain ⟨g'', hhdr'⟩ := headerWrite_whole g' (block.index.header.bump a.now)
  have hg' : (t.set (.data dir id) (frameWrite f a faults.frame p).2) block.index.fd.path =
      some g := by rw [hon.index_path, FileTree.set_other _ _ (by simp), hg]
  have hent : entryWrite g faults.entry (newEntry f a) = (.ok indexEntrySize, g') := by
    rw [hentry, hent']
  have hhdr : headerWrite g' faults.header (block.index.header.bump a.now) =
      (.ok indexHeaderSize, g'') := by rw [hheader, hhdr']
  obtain ⟨fd', hfd', hindex⟩ := run_indexAppend_header hg' hent hhdr
  rw [if_pos rfl, hon.index_path] at hindex
  rw [hindex, Option.map_some] at hblock
  simp only [] at hblock
  obtain ⟨hpair, rfl⟩ := Prod.mk.inj (Option.some.inj hblock)
  obtain ⟨-, rfl⟩ := Prod.mk.inj hpair
  have hcount' : (block.index.header.bump a.now).count.toNat ≤ entries.length + 1 := by
    rw [SeaBlockIndexHeader.bump, UInt32.toNat_add, UInt32.toNat_one]
    omega
  refine ⟨entries.length + 1, Nat.le_succ _, ⟨(frameWrite f a faults.frame p).2, g'',
    block.index.header.bump a.now, entries ++ [newEntry f a], ?_, FileTree.set_self _ _ _,
      hspaced.append hsize hlen hent' hhdr' hcount', by simp⟩,
    ⟨hfd, hfd'.trans hon.index_path⟩, hcount'⟩
  rw [FileTree.set_other _ _ (by simp), FileTree.set_self]

/-- So does an update, whatever it wrote. -/
theorem Indexed.update (h : Indexed t dir id n) (hon : block.On dir id) (o : Outcome)
    {ret : ℕ} (hrun : (seaBlockUpdate a o block recordId p.bytes p.length).run serve t =
      some ((ret, block'), t')) : Indexed t' dir id n := by
  obtain ⟨f, g, hdr, entries, hf, hg, hspaced, rfl⟩ := h
  have hindex : t' (.index dir id) = t (.index dir id) :=
    ((spares_seaBlockUpdate hon (by simp) o recordId p.bytes p.length).run hrun).2
  obtain ⟨⟨found, index⟩, hquery, -⟩ := (readOnly_indexQuery block.index recordId).run t
  unfold seaBlockUpdate at hrun
  rw [Program.run_bind_of_run serve hquery] at hrun
  obtain ⟨f', hf', hgrow⟩ : ∃ f', t' (.data dir id) = some f' ∧ f.size ≤ f'.size := by
    cases found with
    | none =>
      obtain ⟨-, rfl⟩ := Prod.mk.inj (Option.some.inj hrun)
      exact ⟨f, hf, Nat.le_refl _⟩
    | some offsets =>
      obtain ⟨fd, -, hinsert⟩ :=
        run_insertByOffsets (by rw [hon.data_path]; exact hf) offsets a o p rfl
      simp only [] at hrun
      rw [Program.run_bind_of_run serve hinsert, hon.data_path] at hrun
      obtain ⟨-, rfl⟩ := Prod.mk.inj (Option.some.inj hrun)
      exact ⟨_, FileTree.set_self _ _ _, File.size_le_write _ _ _ _⟩
  exact ⟨f', g, hdr, entries, hf', hindex.trans hg, hspaced.grow hgrow, rfl⟩

/-- An update of a counted record with sixteen bytes, its frame let through,
returns zero; a header that counts the record leads to them. -/
theorem Indexed.update_counted (h : Indexed t dir id n) (hon : block.On dir id)
    (hcount : block.index.header.count.toNat ≤ n)
    (hcounted : recordId < block.index.header.count) (hlen : p.bytes.length = 16) (a : Ambient) :
    ∃ block' t', (seaBlockUpdate a .whole block recordId p.bytes p.length).run serve t =
        some ((0, block'), t') ∧
      ∀ g, t' (.index dir id) = some g → recordId < countOnDisk g →
        StoredAt t' dir id recordId p := by
  obtain ⟨f, g, hdr, entries, hf, hg, hspaced, rfl⟩ := h
  have hid : recordId.toNat < entries.length := by
    rw [UInt32.lt_iff_toNat_lt] at hcounted
    omega
  obtain ⟨e, he⟩ : ∃ e, entries[recordId.toNat]? = some e := ⟨_, List.getElem?_eq_getElem hid⟩
  have hplace := hspaced.places e (List.mem_of_getElem? he)
  have hmax := f.size_le
  have hbytes := hspaced.entry_bytes he
  have hfull : (slice g.bytes (entryPlace recordId) indexEntrySize).length = indexEntrySize := by
    rw [hbytes, SeaBlockIndexEntry.bytes_length]
  have hg' : t block.index.fd.path = some g := by rw [hon.index_path]; exact hg
  obtain ⟨fd, hquery⟩ := run_indexQuery_entry hg' (UInt32.not_le.mpr hcounted) hfull
  rw [hbytes, SeaBlockIndexEntry.ofBytes_bytes] at hquery
  rw [smallFrameSize, File.size] at hplace
  have hget : seaBlockOffsetGet { seaBlockOffsetMalloc with offset := [e.offset] } 0 = e.offset :=
    rfl
  have hf' : t block.data.fd.path = some f := by rw [hon.data_path]; exact hf
  obtain ⟨fd', f', -, hover, hinsert⟩ :=
    run_seaBlockDataInsertByOffsets (p := p) hf' hget a (by omega)
  rw [hon.data_path] at hinsert
  refine ⟨⟨block.dir, block.blockId, ⟨fd'⟩, ⟨fd, block.index.header⟩⟩,
    t.set (.data dir id) f', ?_, ?_⟩
  · unfold seaBlockUpdate
    rw [Program.run_bind_of_run serve hquery]
    simp only []
    rw [Program.run_bind_of_run serve hinsert]
    rfl
  · intro g' hg' hdisk
    rw [FileTree.set_other _ _ (by simp), hg] at hg'
    obtain rfl := Option.some.inj hg'
    refine ⟨f', g, FileTree.set_self _ _ _, ?_, hdisk, hfull, ?_⟩
    · rw [FileTree.set_other _ _ (by simp), hg]
    · rw [hbytes, SeaBlockIndexEntry.ofBytes_bytes, hover]
      exact frameAt_overlay (by omega) a p

/-- Creating the block again counts nothing, and keeps the entries. -/
theorem Indexed.create (h : Indexed t dir id n) (now maxSize maxCount : UInt64) :
    ∃ t', (seaBlockCreate ⟨now, .whole⟩ dir id maxSize maxCount).run serve t = some (0, t') ∧
      Indexed t' dir id n ∧ t' (.data dir id) = t (.data dir id) := by
  obtain ⟨f, g, hdr, entries, hf, hg, hspaced, rfl⟩ := h
  obtain ⟨g', hheader, hrun⟩ := run_seaBlockCreate_files t dir id now maxSize maxCount
  rw [hg, Option.getD_some] at hheader
  rw [hf, Option.getD_some] at hrun
  have hbytes := index_put_header hspaced.index_bytes hheader
  refine ⟨_, hrun, ⟨f, g', createdHeader id maxCount now, entries, FileTree.set_self _ _ _, ?_,
    ⟨hbytes, Nat.zero_le _, hspaced.sized, hspaced.places⟩, rfl⟩, ?_⟩
  · rw [FileTree.set_other _ _ (by simp), FileTree.set_self]
  · rw [FileTree.set_self, hf]

/-- Whatever becomes of the header that is written over an index file, the file
does not become shorter. -/
theorem run_seaBlockIndexCreate_any (hg : t (.index dir id) = some g) (maxCount now : UInt64)
    (o : Outcome) :
    ∃ ret g', (seaBlockIndexCreate dir id maxCount now o).run serve t =
        some (ret, t.set (.index dir id) g') ∧ g.size ≤ g'.size := by
  have hgrow := File.size_le_write g 0 (SeaBlockIndexHeader.bytes
    { blockId := id, maxCount := maxCount, startTimestamp := now, stopTimestamp := now, count := 0,
      unused := 0 }) o
  unfold seaBlockIndexCreate
  rw [Program.run_bind_of_run serve (run_openFile_some true hg)]
  simp only []
  rw [Program.run_bind_of_run serve (run_write ⟨SeaPath.index dir id, 0⟩ hg rfl)]
  simp only []
  split
  · exact ⟨_, _, rfl, hgrow⟩
  · exact ⟨_, _, rfl, hgrow⟩

theorem run_seaBlockCreate_any (hf : t (.data dir id) = some f) (hg : t (.index dir id) = some g)
    (e : CreateEnv) (maxSize maxCount : UInt64) :
    ∃ ret g', (seaBlockCreate e dir id maxSize maxCount).run serve t =
        some (ret, t.set (.index dir id) g') ∧ g.size ≤ g'.size := by
  obtain ⟨ret, g', hindex, hgrow⟩ := run_seaBlockIndexCreate_any hg
    (if maxCount = 0 then seaBlockMaxCountDefault else maxCount) e.now e.header
  have hf' : (t.set (.index dir id) g') (.data dir id) = some f := by
    rw [FileTree.set_other _ _ (by simp), hf]
  have hdata := run_seaBlockDataCreate
    (if maxSize = 0 then seaBlockMaxSizeDefault else maxSize) hf'
  unfold seaBlockCreate
  simp only []
  rw [Program.run_bind_of_run serve hindex]
  by_cases hret : ret ≠ 0
  · rw [if_pos hret]
    exact ⟨ret, g', rfl, hgrow⟩
  · rw [if_neg hret]
    exact ⟨0, g', hdata, hgrow⟩

theorem Indexed.open (h : Indexed t dir id n) :
    ∃ hdr g, (seaBlockOpen dir id).run serve t = some (some (openedBlock dir id hdr), t) ∧
      hdr.count.toNat ≤ n ∧ t (.index dir id) = some g ∧ countOnDisk g = hdr.count := by
  obtain ⟨f, g, hdr, entries, hf, hg, hspaced, rfl⟩ := h
  refine ⟨hdr, g, ?_, hspaced.count_le, hg, hspaced.countOnDisk_eq⟩
  have hopen := run_seaBlockOpen_header hf hg (by
    rw [hspaced.index_size]
    exact Nat.le_add_right _ _)
  rw [hspaced.header_bytes, SeaBlockIndexHeader.ofBytes_bytes] at hopen
  exact hopen

theorem Indexed.congr (h : Indexed t dir id n) (hdata : t' (.data dir id) = t (.data dir id))
    (hindex : t' (.index dir id) = t (.index dir id)) : Indexed t' dir id n := by
  obtain ⟨f, g, hdr, entries, hf, hg, hspaced, hn⟩ := h
  exact ⟨f, g, hdr, entries, hdata.trans hf, hindex.trans hg, hspaced, hn⟩

theorem indexed_created (habs : Absent t dir id) (now maxSize maxCount : UInt64) :
    ∃ t', (seaBlockCreate ⟨now, .whole⟩ dir id maxSize maxCount).run serve t = some (0, t') ∧
      Indexed t' dir id 0 := by
  obtain ⟨t', hrun, ⟨f, g, entries, hf, hg, hst⟩, -⟩ :=
    run_seaBlockCreate_absent habs now maxSize maxCount
  obtain rfl : entries = [] := List.length_eq_zero_iff.mp hst.length_eq
  exact ⟨t', hrun, f, g, _, [], hf, hg, ⟨hst.index_bytes, Nat.zero_le _, Nat.zero_le _,
    fun e he => absurd he (by simp)⟩, rfl⟩

theorem Indexed.index_room (h : Indexed t dir id n) (hg : t (.index dir id) = some g) :
    g.size + indexEntrySize ≤ offMax := by
  obtain ⟨f, g', hdr, entries, -, hg', hspaced, -⟩ := h
  obtain rfl : g' = g := Option.some.inj (hg'.symm.trans hg)
  exact hspaced.index_room

section Success

/-- With room in the two files, whatever is in them, an append whose calls all
complete returns zero. -/
theorem append_succeeds (hon : block.On dir id) (hf : t (.data dir id) = some f)
    (hg : t (.index dir id) = some g) (hdata : f.size + p.bytes.length + 16 ≤ offMax)
    (hindex : g.size + indexEntrySize ≤ offMax) (a : Ambient) :
    ∃ result block' t', (seaBlockAppend a .none block p.bytes p.length).run serve t =
        some ((result, block'), t') ∧ result.ret = 0 := by
  have hframe : FrameCompletes f a Faults.none.frame p :=
    (frameCompletes_iff f a .whole p).mpr ⟨Outcome.full_whole _, hdata⟩
  obtain ⟨g', hentry⟩ : ∃ g', entryWrite g Faults.none.entry (newEntry f a) =
      (.ok indexEntrySize, g') := entryWrite_whole hindex _
  obtain ⟨g'', hheader⟩ : ∃ g'', headerWrite g' Faults.none.header
      (block.index.header.bump a.now) = (.ok indexHeaderSize, g'') := headerWrite_whole g' _
  have hg' : (t.set (.data dir id) (frameWrite f a Faults.none.frame p).2) block.index.fd.path =
      some g := by rw [hon.index_path, FileTree.set_other _ _ (by simp), hg]
  obtain ⟨fd, -, hrun⟩ := run_indexAppend_header hg' hentry hheader
  rw [if_pos rfl] at hrun
  obtain ⟨fd', -, hblock⟩ := run_seaBlockAppend_index hon hf hframe hrun
  exact ⟨_, _, _, hblock, rfl⟩

/-- Without it, none does. -/
theorem room_of_append (hon : block.On dir id) {result : AppendResult}
    (hrun : (seaBlockAppend a faults block p.bytes p.length).run serve t =
      some ((result, block'), t')) (hret : result.ret = 0) :
    ∃ f g, t (.data dir id) = some f ∧ t (.index dir id) = some g ∧
      f.size + p.bytes.length + 16 ≤ offMax ∧ g.size + indexEntrySize ≤ offMax := by
  obtain ⟨f, g, g', g'', hf, hg, hframe, hentry, -⟩ := append_completes hon hrun hret
  have hdata := ((frameCompletes_iff f a faults.frame p).mp hframe).2
  have hindex := ((entryWrite_ok_iff g faults.entry (newEntry f a)).mp (congrArg Prod.fst hentry)).2
  exact ⟨f, g, hf, hg, hdata, hindex⟩

end Success

end SeaStore.Block
