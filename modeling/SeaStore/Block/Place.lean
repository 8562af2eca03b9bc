import SeaStore.Block.Failure
import SeaStore.Posix.Confined

/-!
Appends to files of which nothing is known. An append that returns zero has put
its frame at the end of the data file and its entry at the end of the index
file, and has told the id that the handle's count was. The record is at the
place of that id when the index file is as long as the count says.
-/
namespace SeaStore.Block

open Posix

def entryPlace (recordId : UInt32) : ℕ := indexHeaderSize + indexEntrySize * recordId.toNat

/-- The record is stored under the id: the header counts it, and its entry leads
to a frame of the payload. -/
def StoredAt (t : FileTree SeaPath) (dir : String) (id : UInt64) (recordId : UInt32)
    (p : Payload) : Prop :=
  ∃ f g, t (.data dir id) = some f ∧ t (.index dir id) = some g ∧ recordId < countOnDisk g ∧
    (slice g.bytes (entryPlace recordId) indexEntrySize).length = indexEntrySize ∧
    FrameAt f.bytes (SeaBlockIndexEntry.ofBytes
      (slice g.bytes (entryPlace recordId) indexEntrySize)).offset.toNat p

/-- The block is in order for the next record: its ids do not run out, and the
index file is as long as the handle's count says, or else what stands in the
place of the next entry leads to a frame of the same payload already. -/
def InOrder (t : FileTree SeaPath) (dir : String) (id : UInt64) (count : UInt32) (a : Ambient)
    (p : Payload) : Prop :=
  ∀ f g, t (.data dir id) = some f → t (.index dir id) = some g →
    count.toNat + 1 < 2 ^ 32 ∧ (g.size = entryPlace count ∨ (entryPlace count < g.size ∧
      FrameAt (f.bytes ++ p.frame a) (SeaBlockIndexEntry.ofBytes (slice
        (g.bytes ++ (newEntry f a).bytes) (entryPlace count) indexEntrySize)).offset.toNat p))

variable {t t' : FileTree SeaPath} {dir : String} {id : UInt64} {f g : File}
  {block block' : SeaBlock} {a : Ambient} {faults : Faults} {p : Payload} {result : AppendResult}

theorem StoredAt.congr {recordId : UInt32} (hdata : t' (.data dir id) = t (.data dir id))
    (hindex : t' (.index dir id) = t (.index dir id)) :
    StoredAt t' dir id recordId p ↔ StoredAt t dir id recordId p := by
  unfold StoredAt
  rw [hdata, hindex]

section Others

variable {path : SeaPath}

theorem readOnly_seaBlockOpen : (seaBlockOpen dir id).ReadOnly
    fun opened => ∀ block, opened = some block → block.On dir id := by
  unfold seaBlockOpen
  apply Program.ReadOnly.bind
  unfold seaBlockDataOpen
  apply Program.ReadOnly.bind
  apply readOnly_openFile
  intro dataFd hdata
  cases dataFd with
  | none => exact fun _ h => absurd h (by simp)
  | some dataFd =>
    apply Program.ReadOnly.bind
    unfold seaBlockIndexOpen
    apply Program.ReadOnly.bind
    apply readOnly_openFile
    intro indexFd hindex
    cases indexFd with
    | none => exact fun _ h => absurd h (by simp)
    | some indexFd =>
      apply Program.ReadOnly.bind
      apply readOnly_read
      intro header fd hfd
      simp only []
      by_cases hshort : header.length ≠ indexHeaderSize
      · rw [if_pos hshort]
        exact fun _ h => absurd h (by simp)
      · rw [if_neg hshort]
        intro block hblock
        obtain rfl := Option.some.inj hblock
        exact ⟨hdata dataFd rfl, hfd.trans (hindex indexFd rfl)⟩

theorem seaBlockOpen_on (hrun : (seaBlockOpen dir id).run serve t = some (some block, t')) :
    block.On dir id := by
  have hkept : (∀ opened, some block = some opened → opened.On dir id) ∧
      t' (.data dir id) = t (.data dir id) := readOnly_seaBlockOpen.spares.run hrun
  exact hkept.1 block rfl

/-- A lookup of a record id reads the index file, and keeps the header in memory. -/
theorem readOnly_indexQuery (index : SeaBlockIndex) (recordId : UInt32) :
    (seaBlockIndexQueryByRecordId index recordId).ReadOnly fun found =>
      found.2.fd.path = index.fd.path ∧ found.2.header = index.header := by
  unfold seaBlockIndexQueryByRecordId
  by_cases hpast : index.header.count ≤ recordId
  · rw [if_pos hpast]
    exact ⟨rfl, rfl⟩
  · rw [if_neg hpast]
    apply Program.ReadOnly.bind
    apply readOnly_read
    intro bytes fd hfd
    rw [Fd.seekSet_path] at hfd
    simp only []
    by_cases hshort : bytes.length ≠ indexEntrySize
    · rw [if_pos hshort]
      exact ⟨hfd, rfl⟩
    · rw [if_neg hshort]
      exact ⟨hfd, rfl⟩

theorem readOnly_queryLoop (offsets : List UInt64) (data : SeaBlockData)
    (records : SeaBlockRecord) :
    (seaBlockDataQueryLoop data records offsets).ReadOnly fun found =>
      found.2.fd.path = data.fd.path := by
  induction offsets generalizing data records with
  | nil => exact rfl
  | cons offset rest ih =>
    unfold seaBlockDataQueryLoop
    apply Program.ReadOnly.bind
    apply readOnly_read
    intro header fd hfd
    rw [Fd.seekCur_path] at hfd
    simp only []
    by_cases hshort : header.length ≠ dataHeaderSize
    · rw [if_pos hshort]
      exact hfd
    · rw [if_neg hshort]
      apply Program.ReadOnly.bind
      apply readOnly_read
      intro buf fd' hfd'
      rw [Fd.seekSet_path, hfd] at hfd'
      simp only []
      by_cases hcut : buf.length ≠ (dataHeaderLength header).toNat
      · rw [if_pos hcut]
        exact hfd'
      · rw [if_neg hcut]
        exact (ih ⟨fd'⟩ _).mono fun found hpath => hpath.trans hfd'

/-- A query reads both files, and keeps the header in memory. -/
theorem readOnly_query (hon : block.On dir id) (recordId : UInt32) (bufLen : Int32) :
    (seaBlockQueryByRecordId block recordId bufLen).ReadOnly fun found =>
      found.2.On dir id ∧ found.2.index.header = block.index.header := by
  unfold seaBlockQueryByRecordId
  apply Program.ReadOnly.bind
  apply (readOnly_indexQuery block.index recordId).mono
  rintro ⟨offsets, index⟩ ⟨hpath, hheader⟩
  have hindex := hpath.trans hon.index_path
  cases offsets with
  | none => exact ⟨⟨hon.data_path, hindex⟩, hheader⟩
  | some offsets =>
    apply Program.ReadOnly.bind
    apply (readOnly_queryLoop offsets.offset block.data seaBlockRecordMalloc).mono
    rintro ⟨records, dataFile⟩ hdata
    have hdata' := hdata.trans hon.data_path
    simp only []
    split_ifs
    · exact ⟨⟨hdata', hindex⟩, hheader⟩
    · exact ⟨⟨hdata', hindex⟩, hheader⟩

theorem spares_buildFrame (buffer : Bytes) (length : UInt32) :
    (buildFrame a buffer length).Spares path fun _ => True := by
  unfold buildFrame
  simp only []
  split_ifs
  · trivial
  · trivial
  · trivial
  · trivial

theorem spares_seaBlockUpdate (hon : block.On dir id) (hne : path ≠ .data dir id) (o : Outcome)
    (recordId : UInt32) (data : Bytes) (length : Int32) :
    (seaBlockUpdate a o block recordId data length).Spares path fun updated =>
      updated.2.On dir id ∧ updated.2.index.header = block.index.header := by
  unfold seaBlockUpdate
  apply Program.Spares.bind
  apply (readOnly_indexQuery block.index recordId).spares.mono
  rintro ⟨offset, index⟩ ⟨hpath, hheader⟩
  have hindex := hpath.trans hon.index_path
  cases offset with
  | none => exact ⟨⟨hon.data_path, hindex⟩, hheader⟩
  | some offset =>
    apply Program.Spares.bind
    unfold seaBlockDataInsertByOffsets
    apply Program.Spares.bind
    apply (spares_buildFrame data length.toUInt32).mono
    intro buf _
    cases buf with
    | none => exact ⟨⟨hon.data_path, hindex⟩, hheader⟩
    | some buf =>
      apply Program.Spares.bind
      apply spares_write
      · rw [Fd.seekSet_path, hon.data_path]
        exact hne.symm
      · intro size fd hfd
        rw [Fd.seekSet_path] at hfd
        have hdata := hfd.trans hon.data_path
        simp only []
        by_cases hshort : size ≠ .ok buf.length
        · rw [if_pos hshort]
          exact ⟨⟨hdata, hindex⟩, hheader⟩
        · rw [if_neg hshort]
          exact ⟨⟨hdata, hindex⟩, hheader⟩

/-- Creating a block changes its own two files at most. -/
theorem spares_seaBlockCreate (hdata : path ≠ .data dir id) (hindex : path ≠ .index dir id)
    (e : CreateEnv) (maxSize maxCount : UInt64) :
    (seaBlockCreate e dir id maxSize maxCount).Spares path fun _ => True := by
  have hdataCreate : (seaBlockDataCreate dir id
      (if maxSize = 0 then seaBlockMaxSizeDefault else maxSize)).Spares path fun _ => True := by
    unfold seaBlockDataCreate
    apply Program.Spares.bind
    apply spares_create hdata.symm
    intro fd _
    cases fd with
    | none => trivial
    | some fd => trivial
  unfold seaBlockCreate seaBlockIndexCreate
  apply Program.Spares.bind
  apply Program.Spares.bind
  apply spares_create hindex.symm
  intro fd hfd
  cases fd with
  | none => trivial
  | some fd =>
    apply Program.Spares.bind
    apply spares_write
    · rw [hfd fd rfl]
      exact hindex.symm
    · intro ret fd' _
      cases ret with
      | error errno =>
        change Program.Spares path (fun _ => True) (if errno ≠ 0 then pure errno else _)
        by_cases herrno : errno ≠ 0
        · rw [if_pos herrno]
          trivial
        · rw [if_neg herrno]
          exact hdataCreate
      | ok count => exact hdataCreate

/-- Nor does an append change any other file than the two of its block. -/
theorem spares_seaBlockDataAppend {data : SeaBlockData} (hpath : data.fd.path ≠ path)
    (a : Ambient) (o : Outcome) (payload : Bytes) (length : UInt32) :
    (seaBlockDataAppend a o data payload length).Spares path fun appended =>
      appended.2.2.fd.path = data.fd.path := by
  unfold seaBlockDataAppend
  apply Program.Spares.bind
  apply (spares_buildFrame payload length).mono
  intro buf _
  cases buf with
  | none => exact (rfl : data.fd.path = data.fd.path)
  | some buf =>
    apply Program.Spares.bind
    apply spares_seekEnd
    intro offset fd hfd
    apply Program.Spares.bind
    apply spares_write
    · rw [hfd]
      exact hpath
    · intro size fd' hfd'
      simp only []
      split_ifs
      · exact hfd'.trans hfd
      · exact hfd'.trans hfd

theorem spares_seaBlockIndexAppend {index : SeaBlockIndex} (hpath : index.fd.path ≠ path)
    (a : Ambient) (faults : Faults) (offset : UInt64) :
    (seaBlockIndexAppend a faults index offset).Spares path fun appended =>
      appended.2.fd.path = index.fd.path := by
  unfold seaBlockIndexAppend
  apply Program.Spares.bind
  apply spares_seekEnd
  intro end' fd hfd
  apply Program.Spares.bind
  apply spares_write
  · rw [hfd]
    exact hpath
  · intro size fd' hfd'
    have hsame := hfd'.trans hfd
    simp only []
    split_ifs
    · exact hsame
    · apply Program.Spares.bind
      apply spares_write
      · rw [Fd.seekSet_path, hsame]
        exact hpath
      · intro size' fd'' hfd''
        rw [Fd.seekSet_path, hsame] at hfd''
        simp only []
        split_ifs
        · apply Program.Spares.bind
          apply spares_truncate
          · rw [hfd'']
            exact hpath
          · exact hfd''
        · exact hfd''

theorem spares_seaBlockAppend (hon : block.On dir id) (hdata : path ≠ .data dir id)
    (hindex : path ≠ .index dir id) (a : Ambient) (faults : Faults) (data : Bytes)
    (length : Int32) :
    (seaBlockAppend a faults block data length).Spares path fun appended =>
      appended.2.On dir id := by
  have hdata' : block.data.fd.path ≠ path := by
    rw [hon.data_path]
    exact hdata.symm
  have hindex' : block.index.fd.path ≠ path := by
    rw [hon.index_path]
    exact hindex.symm
  unfold seaBlockAppend
  split_ifs
  · exact hon
  · apply Program.Spares.bind
    apply (spares_seaBlockDataAppend hdata' a faults.frame data length.toUInt32).mono
    rintro ⟨ret, offset, dataFile⟩ hpath
    simp only []
    split_ifs
    · exact ⟨hpath.trans hon.data_path, hon.index_path⟩
    · apply Program.Spares.bind
      apply (spares_seaBlockIndexAppend hindex' a faults offset).mono
      rintro ⟨result, index⟩ hpath'
      exact ⟨hpath.trans hon.data_path, hpath'.trans hon.index_path⟩

end Others

section Query

theorem run_seaBlockOpen_header (hf : t (.data dir id) = some f) (hg : t (.index dir id) = some g)
    (hheader : indexHeaderSize ≤ g.size) :
    (seaBlockOpen dir id).run serve t = some (some (openedBlock dir id
      (.ofBytes (slice g.bytes 0 indexHeaderSize))), t) := by
  have hlen : (slice g.bytes 0 indexHeaderSize).length = indexHeaderSize := by
    rw [slice_length]
    exact Nat.min_eq_left hheader
  have hindex : (seaBlockIndexOpen dir id).run serve t = some (.ok ⟨⟨.index dir id,
      indexHeaderSize⟩, .ofBytes (slice g.bytes 0 indexHeaderSize)⟩, t) := by
    unfold seaBlockIndexOpen
    rw [Program.run_bind_of_run serve (run_openFile_some false hg)]
    simp only []
    rw [Program.run_bind_of_run serve (run_read ⟨SeaPath.index dir id, 0⟩ indexHeaderSize hg)]
    simp [hlen]
  simp [seaBlockOpen, seaBlockDataOpen, run_openFile_some false hf, hindex, openedBlock]

theorem run_indexQuery_entry {index : SeaBlockIndex} {recordId : UInt32}
    (hg : t index.fd.path = some g) (h : ¬ index.header.count ≤ recordId)
    (hlen : (slice g.bytes (entryPlace recordId) indexEntrySize).length = indexEntrySize) :
    ∃ fd : Fd SeaPath, (seaBlockIndexQueryByRecordId index recordId).run serve t =
      some ((some { seaBlockOffsetMalloc with offset := [(SeaBlockIndexEntry.ofBytes
        (slice g.bytes (entryPlace recordId) indexEntrySize)).offset] }, { index with fd := fd }),
        t) := by
  refine ⟨⟨index.fd.path, entryPlace recordId + indexEntrySize⟩, ?_⟩
  unfold seaBlockIndexQueryByRecordId
  rw [if_neg h, seek_entry]
  rw [Program.run_bind_of_run serve (run_read
    ⟨index.fd.path, indexHeaderSize + indexEntrySize * recordId.toNat⟩ indexEntrySize hg)]
  unfold entryPlace at hlen
  simp only [hlen, ne_eq, not_true_eq_false, if_false]
  rfl

/-- A record that is stored under an id is what a new handle finds there. -/
theorem StoredAt.run_query {recordId : UInt32} (h : StoredAt t dir id recordId p) :
    ∃ opened, (seaBlockOpen dir id).run serve t = some (some opened, t) ∧
      ∀ bufLen : Int32, (p.bytes.length : ℤ) ≤ bufLen.toInt →
        ∃ block', (seaBlockQueryByRecordId opened recordId bufLen).run serve t =
          some ((⟨0, some p.bytes⟩, block'), t) := by
  obtain ⟨f, g, hf, hg, hcount, hlen, hframe⟩ := h
  have hheader : indexHeaderSize ≤ g.size := by
    rw [slice_length] at hlen
    simp only [entryPlace, indexEntrySize, File.size] at hlen ⊢
    omega
  have hpast : ¬ (SeaBlockIndexHeader.ofBytes (slice g.bytes 0 indexHeaderSize)).count ≤
      recordId := by
    rw [UInt32.not_le]
    exact hcount
  generalize hhdr : SeaBlockIndexHeader.ofBytes (slice g.bytes 0 indexHeaderSize) = hdr at hpast
  generalize hoffset : (SeaBlockIndexEntry.ofBytes
    (slice g.bytes (entryPlace recordId) indexEntrySize)).offset = offset at hframe
  have hopen := run_seaBlockOpen_header hf hg hheader
  rw [hhdr] at hopen
  obtain ⟨fd, hindex⟩ : ∃ fd : Fd SeaPath, (seaBlockIndexQueryByRecordId
      (openedBlock dir id hdr).index recordId).run serve t = some ((some { seaBlockOffsetMalloc with
        offset := [(SeaBlockIndexEntry.ofBytes
          (slice g.bytes (entryPlace recordId) indexEntrySize)).offset] },
        { (openedBlock dir id hdr).index with fd := fd }), t) :=
    run_indexQuery_entry hg hpast hlen
  rw [hoffset] at hindex
  have hend := hframe.end_le
  have hmax := f.size_le
  have hseek : ((openedBlock dir id hdr).data.fd.seekCur offset).pos = offset.toNat := by
    rw [Fd.seekCur_start rfl, Fd.seekSet_of_le (by omega)]
  have hdata : t (openedBlock dir id hdr).data.fd.path = some f := hf
  have hloop := run_queryLoop_hit hdata hframe (by rw [hseek]; exact hframe.header.1)
    (by rw [hseek]; exact hframe.header.2) seaBlockRecordMalloc []
  refine ⟨openedBlock dir id hdr, hopen, ?_⟩
  intro bufLen hbuf
  unfold seaBlockQueryByRecordId
  simp only [Program.run_bind, hindex, Option.bind_some, seaBlockDataQueryByOffsets]
  rw [hloop]
  simp [seaBlockDataQueryLoop, seaBlockRecordMalloc, seaBlockRecordGetFirst, bufLen_lt_iff p hbuf]

theorem StoredAt.readsBack {recordId : UInt32} (h : StoredAt t dir id recordId p) :
    ReadsBack t dir id recordId p := by
  obtain ⟨opened, hopen, hquery⟩ := h.run_query
  intro bufLen hbuf
  obtain ⟨block', hrun⟩ := hquery bufLen hbuf
  unfold queryFresh
  rw [Program.run_bind_of_run serve hopen]
  simp only []
  rw [Program.run_bind_of_run serve hrun]
  rfl

end Query

section Append

/-- What an append that returns zero has done to its files. -/
structure Acknowledged (t t' : FileTree SeaPath) (dir : String) (id : UInt64) (count : UInt32)
    (a : Ambient) (p : Payload) (result : AppendResult) : Prop where
  recordId : result.recordId = some count
  files : ∃ f g f' g', t (.data dir id) = some f ∧ t (.index dir id) = some g ∧
    t' (.data dir id) = some f' ∧ t' (.index dir id) = some g' ∧
    f'.bytes = f.bytes ++ p.frame a ∧ countOnDisk g' = count + 1 ∧
    ∀ pos length, indexHeaderSize ≤ pos →
      slice g'.bytes pos length = slice (g.bytes ++ (newEntry f a).bytes) pos length

/-- A header written over the front of a file is not seen behind it. -/
theorem slice_overlay_front (bytes data : Bytes) {pos : ℕ} (length : ℕ) (h : data.length ≤ pos) :
    slice (overlay bytes 0 data) pos length = slice bytes pos length := by
  have hbytes : overlay bytes 0 data = data ++ bytes.drop data.length := by
    simp [overlay]
  rw [hbytes, slice_append_right _ _ _ _ h, slice, slice, List.drop_drop,
    Nat.add_sub_cancel' h]

theorem append_acknowledged (hon : block.On dir id)
    (hrun : (seaBlockAppend a faults block p.bytes p.length).run serve t =
      some ((result, block'), t')) (hret : result.ret = 0) :
    Acknowledged t t' dir id block.index.header.count a p result := by
  obtain ⟨f, g, g', g'', hf, hg, hframe, hentry, hheader, hid, rfl⟩ :=
    append_completes hon hrun hret
  have hg' : g'.bytes = g.bytes ++ (newEntry f a).bytes := by
    have hok : (g.write g.size (newEntry f a).bytes faults.entry).1 =
        .ok (newEntry f a).bytes.length := by
      rw [SeaBlockIndexEntry.bytes_length]
      exact congrArg Prod.fst hentry
    have hbytes := File.write_ok_bytes hok
    rw [show (g.write g.size (newEntry f a).bytes faults.entry).2 = g' from
      congrArg Prod.snd hentry, File.size, overlay_end] at hbytes
    exact hbytes
  have hg'' : g''.bytes = overlay g'.bytes 0 (block.index.header.bump a.now).bytes := by
    have hok : (g'.write 0 (block.index.header.bump a.now).bytes faults.header).1 =
        .ok (block.index.header.bump a.now).bytes.length := by
      rw [SeaBlockIndexHeader.bytes_length]
      exact congrArg Prod.fst hheader
    have hbytes := File.write_ok_bytes hok
    rw [show (g'.write 0 (block.index.header.bump a.now).bytes faults.header).2 = g'' from
      congrArg Prod.snd hheader] at hbytes
    exact hbytes
  refine ⟨hid, f, g, _, g'', hf, hg, ?_, FileTree.set_self _ _ _, hframe.bytes, ?_, ?_⟩
  · rw [FileTree.set_other _ _ (by simp), FileTree.set_self]
  · have hfront : slice g''.bytes 0 indexHeaderSize = (block.index.header.bump a.now).bytes := by
      rw [hg'']
      simp [overlay, slice]
    rw [countOnDisk, hfront, SeaBlockIndexHeader.ofBytes_bytes]
    rfl
  · intro pos length hpos
    rw [hg'', slice_overlay_front _ _ _ (by rw [SeaBlockIndexHeader.bytes_length]; exact hpos), hg']

/-- Its record is stored under the id that it told exactly when the block was in order. -/
theorem Acknowledged.storedAt_iff {count : UInt32} (h : Acknowledged t t' dir id count a p result) :
    StoredAt t' dir id count p ↔ InOrder t dir id count a p := by
  obtain ⟨f, g, f', g', hf, hg, hf', hg', hdata, hcount, hindex⟩ := h.files
  have hplace : indexHeaderSize ≤ entryPlace count := Nat.le_add_right _ _
  have hslice := hindex (entryPlace count) indexEntrySize hplace
  have hcounted : count < countOnDisk g' ↔ count.toNat + 1 < 2 ^ 32 := by
    have hlt := count.toNat_lt
    rw [hcount, UInt32.lt_iff_toNat_lt, UInt32.toNat_add, UInt32.toNat_one]
    omega
  have hlength : (slice g'.bytes (entryPlace count) indexEntrySize).length = indexEntrySize ↔
      entryPlace count ≤ g.size := by
    rw [hslice, slice_length, List.length_append, SeaBlockIndexEntry.bytes_length]
    simp only [indexEntrySize, File.size]
    omega
  have hstored : StoredAt t' dir id count p ↔ count < countOnDisk g' ∧
      (slice g'.bytes (entryPlace count) indexEntrySize).length = indexEntrySize ∧
      FrameAt f'.bytes (SeaBlockIndexEntry.ofBytes
        (slice g'.bytes (entryPlace count) indexEntrySize)).offset.toNat p := by
    constructor
    · intro hat
      obtain ⟨f₁, g₁, hf₁, hg₁, hat⟩ := hat
      obtain rfl : f₁ = f' := Option.some.inj (hf₁.symm.trans hf')
      obtain rfl : g₁ = g' := Option.some.inj (hg₁.symm.trans hg')
      exact hat
    · intro hat
      exact ⟨f', g', hf', hg', hat⟩
  have horder : InOrder t dir id count a p ↔ count.toNat + 1 < 2 ^ 32 ∧
      (g.size = entryPlace count ∨ (entryPlace count < g.size ∧
        FrameAt (f.bytes ++ p.frame a) (SeaBlockIndexEntry.ofBytes (slice
          (g.bytes ++ (newEntry f a).bytes) (entryPlace count) indexEntrySize)).offset.toNat
            p)) := by
    constructor
    · intro hin
      exact hin f g hf hg
    · intro hin f₁ g₁ hf₁ hg₁
      obtain rfl : f₁ = f := Option.some.inj (hf₁.symm.trans hf)
      obtain rfl : g₁ = g := Option.some.inj (hg₁.symm.trans hg)
      exact hin
  rw [hstored, horder, hcounted, hlength, hslice, hdata]
  apply and_congr_right
  intro _
  by_cases hlast : g.size = entryPlace count
  · -- the entry that is read is the one just written
    refine iff_of_true ⟨Nat.le_of_eq hlast.symm, ?_⟩ (Or.inl hlast)
    have hnew : slice (g.bytes ++ (newEntry f a).bytes) (entryPlace count) indexEntrySize =
        (newEntry f a).bytes := by
      rw [← hlast, File.size, slice_append_length,
        slice_whole _ _ (SeaBlockIndexEntry.bytes_length _)]
    have hsize : (UInt64.ofNat f.size).toNat = f.bytes.length := by
      have hmax := f.size_le
      simp only [offMax] at hmax
      rw [UInt64.toNat_ofNat', File.size]
      omega
    rw [hnew, SeaBlockIndexEntry.ofBytes_bytes, newEntry, hsize]
    exact FrameAt.at_end f.bytes a p
  · constructor
    · intro hold
      exact Or.inr ⟨lt_of_le_of_ne hold.1 (Ne.symm hlast), hold.2⟩
    · intro hold
      obtain ⟨hlt, hframe⟩ := hold.resolve_left hlast
      exact ⟨Nat.le_of_lt hlt, hframe⟩

end Append

end SeaStore.Block
