import SeaStore.Block.Image

/-!
What opening a block and querying a handle do on files that store a list of
records. A query leaves the files alone and moves both descriptors; the record
is found when the eight bytes at the descriptor's relative target happen to
carry its length, which they do on a fresh handle.
-/
namespace SeaStore.Block

open Posix

def openedBlock (dir : String) (id : UInt64) (hdr : SeaBlockIndexHeader) : SeaBlock where
  dir := dir
  blockId := id
  data := ⟨⟨.data dir id, 0⟩⟩
  index := ⟨⟨.index dir id, indexHeaderSize⟩, hdr⟩

/-- The handle's descriptors belong to the files of block `id` in `dir`. -/
structure SeaBlock.On (block : SeaBlock) (dir : String) (id : UInt64) : Prop where
  data_path : block.data.fd.path = .data dir id
  index_path : block.index.fd.path = .index dir id

@[simp] theorem openedBlock_header (dir : String) (id : UInt64) (hdr : SeaBlockIndexHeader) :
    (openedBlock dir id hdr).index.header = hdr := rfl

theorem openedBlock_on (dir : String) (id : UInt64) (hdr : SeaBlockIndexHeader) :
    (openedBlock dir id hdr).On dir id := ⟨rfl, rfl⟩

variable {t : FileTree SeaPath} {dir : String} {id : UInt64} {hdr : SeaBlockIndexHeader}
  {recs : List Payload} {f g : File} {entries : List SeaBlockIndexEntry}

theorem run_seaBlockIndexOpen (hg : t (.index dir id) = some g)
    (hbytes : g.bytes = hdr.bytes ++ entries.flatMap SeaBlockIndexEntry.bytes) :
    (seaBlockIndexOpen dir id).run serve t =
      some (.ok ⟨⟨.index dir id, indexHeaderSize⟩, hdr⟩, t) := by
  have hread : slice g.bytes 0 indexHeaderSize = hdr.bytes := slice_indexHeader hbytes
  unfold seaBlockIndexOpen
  rw [Program.run_bind_of_run serve (run_openFile_some false hg)]
  simp only []
  rw [Program.run_bind_of_run serve (run_read ⟨SeaPath.index dir id, 0⟩ indexHeaderSize hg)]
  simp [hread]

theorem run_seaBlockOpen (h : Image t dir id hdr recs) :
    (seaBlockOpen dir id).run serve t = some (some (openedBlock dir id hdr), t) := by
  obtain ⟨f, g, entries, hf, hg, hst⟩ := h
  simp [seaBlockOpen, seaBlockDataOpen, run_openFile_some false hf,
    run_seaBlockIndexOpen hg hst.index_bytes, openedBlock]

theorem run_seaBlockOpen_absent (h : t (.data dir id) = none) :
    (seaBlockOpen dir id).run serve t = some (none, t) := by
  simp [seaBlockOpen, seaBlockDataOpen, run_openFile_none h]

/-- A round of the loop finds the record at `offset` when the header it reads,
from wherever the relative seek has led, carries the record's length. -/
theorem run_queryLoop_hit {fd : Fd SeaPath} (hf : t fd.path = some f) {offset : UInt64}
    {p : Payload} (hp : FrameAt f.bytes offset.toNat p)
    (hfull : (slice f.bytes (fd.seekCur offset).pos dataHeaderSize).length = dataHeaderSize)
    (hlen : (dataHeaderLength (slice f.bytes (fd.seekCur offset).pos dataHeaderSize)).toNat =
      p.bytes.length) (records : SeaBlockRecord) (rest : List UInt64) :
    (seaBlockDataQueryLoop ⟨fd⟩ records (offset :: rest)).run serve t =
      (seaBlockDataQueryLoop ⟨⟨fd.path, offset.toNat + dataHeaderSize + p.bytes.length⟩⟩
        (records ++ [p.bytes]) rest).run serve t := by
  have hend := hp.end_le
  have hmax := f.size_le
  have hnat : (offset + UInt64.ofNat dataHeaderSize).toNat = offset.toNat + dataHeaderSize := by
    simp only [UInt64.toNat_add, UInt64.toNat_ofNat', dataHeaderSize]
    simp only [offMax] at hmax
    omega
  have hpay := hp.payload
  rw [seaBlockDataQueryLoop]
  rw [Program.run_bind_of_run serve (run_read (fd.seekCur offset) dataHeaderSize
    (by rw [Fd.seekCur_path]; exact hf))]
  simp only [hfull, ne_eq, not_true_eq_false, if_false, hlen]
  rw [Fd.seekSet_of_le (by rw [hnat]; simp only [dataHeaderSize]; omega), hnat]
  rw [Program.run_bind_of_run serve (run_read
    ⟨(fd.seekCur offset).path, offset.toNat + dataHeaderSize⟩ p.bytes.length
    (by rw [Fd.seekCur_path]; exact hf))]
  simp [hpay, seaBlockRecordAppend]

/-- A round that cannot read a whole header ends the loop with what was found before. -/
theorem run_queryLoop_short {fd : Fd SeaPath} (hf : t fd.path = some f) {offset : UInt64}
    (hshort : (slice f.bytes (fd.seekCur offset).pos dataHeaderSize).length ≠ dataHeaderSize)
    (records : SeaBlockRecord) (rest : List UInt64) :
    (seaBlockDataQueryLoop ⟨fd⟩ records (offset :: rest)).run serve t =
      some ((records, ⟨⟨fd.path, (fd.seekCur offset).pos +
        (slice f.bytes (fd.seekCur offset).pos dataHeaderSize).length⟩⟩), t) := by
  rw [seaBlockDataQueryLoop]
  rw [Program.run_bind_of_run serve (run_read (fd.seekCur offset) dataHeaderSize
    (by rw [Fd.seekCur_path]; exact hf))]
  simp [hshort]

section IndexQuery

variable {index : SeaBlockIndex} {recordId : UInt32}

theorem run_indexQuery_past (h : index.header.count ≤ recordId) :
    (seaBlockIndexQueryByRecordId index recordId).run serve t = some ((none, index), t) := by
  simp [seaBlockIndexQueryByRecordId, h]

theorem seek_entry (fd : Fd SeaPath) (recordId : UInt32) :
    fd.seekSet (entryOffset recordId) =
      ⟨fd.path, indexHeaderSize + indexEntrySize * recordId.toNat⟩ := by
  have hid : recordId.toNat < 2 ^ 32 := recordId.toNat_lt
  have hnat := toNat_entryOffset recordId
  rw [Fd.seekSet_of_le (by
    rw [hnat]; simp only [indexHeaderSize, indexEntrySize, offMax]; omega), hnat]

theorem run_indexQuery_hit (hg : t index.fd.path = some g)
    (hst : Stored f g hdr entries recs) (h : ¬ index.header.count ≤ recordId)
    {e : SeaBlockIndexEntry} (he : entries[recordId.toNat]? = some e) :
    ∃ fd : Fd SeaPath, fd.path = index.fd.path ∧
      (seaBlockIndexQueryByRecordId index recordId).run serve t =
        some ((some { seaBlockOffsetMalloc with offset := [e.offset] }, { index with fd := fd }),
          t) := by
  have hentry := hst.entry_bytes he
  refine ⟨⟨index.fd.path, indexHeaderSize + indexEntrySize * recordId.toNat + indexEntrySize⟩,
    rfl, ?_⟩
  unfold seaBlockIndexQueryByRecordId
  rw [if_neg h, seek_entry]
  rw [Program.run_bind_of_run serve (run_read
    ⟨index.fd.path, indexHeaderSize + indexEntrySize * recordId.toNat⟩ indexEntrySize hg)]
  simp only [hentry, SeaBlockIndexEntry.bytes_length, ne_eq, not_true_eq_false, if_false,
    SeaBlockIndexEntry.ofBytes_bytes]
  rfl

theorem run_indexQuery_missing (hg : t index.fd.path = some g)
    (hst : Stored f g hdr entries recs) (h : ¬ index.header.count ≤ recordId)
    (he : recs[recordId.toNat]? = none) :
    ∃ fd : Fd SeaPath, fd.path = index.fd.path ∧
      (seaBlockIndexQueryByRecordId index recordId).run serve t =
        some ((some seaBlockOffsetMalloc, { index with fd := fd }), t) := by
  have hle : g.bytes.length ≤ indexHeaderSize + indexEntrySize * recordId.toNat := by
    have hrecs : recs.length ≤ recordId.toNat := List.getElem?_eq_none_iff.mp he
    rw [hst.index_size]
    exact Nat.add_le_add_left (Nat.mul_le_mul_left _ hrecs) _
  refine ⟨⟨index.fd.path, indexHeaderSize + indexEntrySize * recordId.toNat⟩, rfl, ?_⟩
  unfold seaBlockIndexQueryByRecordId
  rw [if_neg h, seek_entry]
  rw [Program.run_bind_of_run serve (run_read
    ⟨index.fd.path, indexHeaderSize + indexEntrySize * recordId.toNat⟩ indexEntrySize hg)]
  simp only [slice_past_end _ _ _ hle, List.length_nil]
  rfl

end IndexQuery

theorem bufLen_lt_iff (p : Payload) {bufLen : Int32} (h : (p.bytes.length : ℤ) ≤ bufLen.toInt) :
    ¬ bufLen.toUInt32 < UInt32.ofNat p.bytes.length := by
  have hbuf : bufLen.toInt = (bufLen.toUInt32.toNat : ℤ).bmod (2 ^ 32) :=
    BitVec.toInt_eq_toNat_bmod bufLen.toBitVec
  have hlt : bufLen.toUInt32.toNat < 2 ^ 32 := bufLen.toUInt32.toNat_lt
  rw [UInt32.lt_iff_toNat_lt, p.toNat_length, Nat.not_lt]
  rw [hbuf] at h
  simp only [Int.bmod] at h
  omega

/-- On a handle whose data descriptor stands at the start of the file, a query
is a lookup, for whatever count the handle has in memory. -/
theorem run_queryByRecordId_start {block : SeaBlock} (hon : block.On dir id)
    (hf : t (.data dir id) = some f) (hg : t (.index dir id) = some g)
    (hst : Stored f g hdr entries recs) (hstart : block.data.fd.pos = 0) (recordId : UInt32)
    (bufLen : Int32) :
    ∃ block', (seaBlockQueryByRecordId block recordId bufLen).run serve t =
      some ((lookup block.index.header.count recs recordId bufLen, block'), t) := by
  have hg' : t block.index.fd.path = some g := by rw [hon.index_path]; exact hg
  have hf' : t block.data.fd.path = some f := by rw [hon.data_path]; exact hf
  unfold seaBlockQueryByRecordId lookup
  by_cases hpast : block.index.header.count ≤ recordId
  · rw [if_pos hpast, Program.run_bind_of_run serve (run_indexQuery_past hpast)]
    exact ⟨_, rfl⟩
  rw [if_neg hpast]
  cases hrec : recs[recordId.toNat]? with
  | none =>
    obtain ⟨fd, -, hrun⟩ := run_indexQuery_missing hg' hst hpast hrec
    rw [Program.run_bind_of_run serve hrun]
    refine ⟨⟨block.dir, block.blockId, block.data, ⟨fd, block.index.header⟩⟩, ?_⟩
    simp [seaBlockDataQueryByOffsets, seaBlockOffsetMalloc, seaBlockDataQueryLoop,
      seaBlockRecordMalloc, seaBlockRecordGetFirst]
  | some p =>
    obtain ⟨e, he, hframe⟩ := hst.frame_at hrec
    obtain ⟨fd, -, hrun⟩ := run_indexQuery_hit hg' hst hpast he
    have hend := hframe.end_le
    have hmax := f.size_le
    have hseek : (block.data.fd.seekCur e.offset).pos = e.offset.toNat := by
      rw [Fd.seekCur_start hstart, Fd.seekSet_of_le (by omega)]
    have hloop := run_queryLoop_hit hf' hframe (by rw [hseek]; exact hframe.header.1)
      (by rw [hseek]; exact hframe.header.2) seaBlockRecordMalloc []
    rw [Program.run_bind_of_run serve hrun]
    simp only [seaBlockDataQueryByOffsets, Program.run_bind]
    rw [hloop]
    by_cases hbuf : bufLen.toUInt32 < UInt32.ofNat p.bytes.length
    · simp [seaBlockDataQueryLoop, seaBlockRecordMalloc, seaBlockRecordGetFirst, hbuf]
    · simp [seaBlockDataQueryLoop, seaBlockRecordMalloc, seaBlockRecordGetFirst, hbuf]

/-- So is a query on a handle that has just been opened. -/
theorem run_queryOpened (h : Image t dir id hdr recs) (recordId : UInt32) (bufLen : Int32) :
    ∃ block', (seaBlockQueryByRecordId (openedBlock dir id hdr) recordId bufLen).run serve t =
      some ((lookup hdr.count recs recordId bufLen, block'), t) := by
  obtain ⟨f, g, entries, hf, hg, hst⟩ := h
  exact run_queryByRecordId_start (openedBlock_on dir id hdr) hf hg hst rfl recordId bufLen

/-- A query on a fresh handle is a lookup and changes nothing. -/
theorem run_queryFresh (h : Image t dir id hdr recs) (recordId : UInt32) (bufLen : Int32) :
    (queryFresh dir id recordId bufLen).run serve t =
      some (lookup hdr.count recs recordId bufLen, t) := by
  obtain ⟨block', hrun⟩ := run_queryOpened h recordId bufLen
  unfold queryFresh
  rw [Program.run_bind_of_run serve (run_seaBlockOpen h)]
  simp only
  rw [Program.run_bind_of_run serve hrun]
  rfl

theorem run_queryFresh_absent (h : t (.data dir id) = none) (recordId : UInt32) (bufLen : Int32) :
    (queryFresh dir id recordId bufLen).run serve t = some (⟨EINVAL, none⟩, t) := by
  unfold queryFresh
  rw [Program.run_bind_of_run serve (run_seaBlockOpen_absent h)]
  rfl

theorem lookup_of_get {count : UInt32} {recordId : UInt32} {p : Payload} {bufLen : Int32}
    (hcount : recordId.toNat < count.toNat) (hp : recs[recordId.toNat]? = some p)
    (hbuf : (p.bytes.length : ℤ) ≤ bufLen.toInt) :
    lookup count recs recordId bufLen = ⟨0, some p.bytes⟩ := by
  have hle : ¬ count ≤ recordId := by
    rw [UInt32.le_iff_toNat_le]
    omega
  simp [lookup, hle, hp, bufLen_lt_iff p hbuf]

/-- No other record is answered with the payload's bytes. -/
theorem lookup_eq_iff {count : UInt32} {recordId : UInt32} {p : Payload} {bufLen : Int32}
    (hbuf : (p.bytes.length : ℤ) ≤ bufLen.toInt) :
    lookup count recs recordId bufLen = ⟨0, some p.bytes⟩ ↔
      recordId.toNat < count.toNat ∧ recs[recordId.toNat]? = some p := by
  refine ⟨fun h => ?_, fun h => lookup_of_get h.1 h.2 hbuf⟩
  unfold lookup at h
  by_cases hpast : count ≤ recordId
  · simp [hpast, EINVAL] at h
  rw [if_neg hpast] at h
  rw [UInt32.le_iff_toNat_le] at hpast
  refine ⟨by omega, ?_⟩
  cases hq : recs[recordId.toNat]? with
  | none => simp [hq, p.ne_nil.symm] at h
  | some q =>
    simp only [hq] at h
    split at h
    · simp at h
    · have hbytes : q.bytes = p.bytes := by simpa using h
      rw [Payload.ext hbytes]

end SeaStore.Block
