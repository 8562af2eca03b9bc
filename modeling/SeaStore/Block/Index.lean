import SeaStore.Block.Data

/-!
The index file of a block. A handle keeps the header as it was read when the
file was opened, raises its count with every append and writes it back over
the one in the file.
-/
namespace SeaStore.Block

open Posix

structure SeaBlockIndex where
  fd : Fd SeaPath
  header : SeaBlockIndexHeader

/-- The header goes over the front of whatever the file holds: it is opened
without `O_TRUNC`. The directory made beforehand is not part of the model. -/
def seaBlockIndexCreate (dir : String) (blockId maxCount now : UInt64) (o : Outcome) : Prog ℕ := do
  match ← openFile (.index dir blockId) true with
  | none => return ENOENT
  | some fd =>
    let header : SeaBlockIndexHeader :=
      { blockId := blockId, maxCount := maxCount, startTimestamp := now, stopTimestamp := now,
        count := 0, unused := 0 }
    let (ret, _) ← fd.write header.bytes o
    match ret with
    | .error errno => return errno
    | .ok _ => return 0

def seaBlockIndexOpen (dir : String) (blockId : UInt64) : Prog (Except ℕ SeaBlockIndex) := do
  match ← openFile (.index dir blockId) false with
  | none => return .error ENOENT
  | some fd =>
    let (header, fd) ← fd.read indexHeaderSize
    if header.length ≠ indexHeaderSize then return .error EINVAL
    return .ok ⟨fd, .ofBytes header⟩

def seaBlockIndexClose (_index : SeaBlockIndex) : Prog Unit := return ()

/-- What an append hands back: the return code, and the two output arguments
where they are written. -/
structure AppendResult where
  ret : ℕ
  recordId : Option UInt32
  overLimit : Option Bool
  deriving DecidableEq

/-- `index->header` after the count and the timestamp have been changed. -/
def SeaBlockIndexHeader.bump (h : SeaBlockIndexHeader) (now : UInt64) : SeaBlockIndexHeader :=
  { h with count := h.count + 1, stopTimestamp := now }

def seaBlockIndexAppend (a : Ambient) (faults : Faults) (index : SeaBlockIndex) (offset : UInt64) :
    Prog (AppendResult × SeaBlockIndex) := do
  let entry : SeaBlockIndexEntry := { timestamp := a.now, offset := offset }
  let recordId := index.header.count
  let header := index.header.bump a.now
  let overLimit := decide (header.maxCount ≤ header.count.toUInt64)
  let (_, fd) ← index.fd.seekEnd
  let (size, fd) ← fd.write entry.bytes faults.entry
  if size ≠ .ok indexEntrySize then
    -- the count stays raised and the entry, or what got through of it, in the file
    return (⟨EINVAL, some recordId, some overLimit⟩, ⟨fd, header⟩)
  let (size, fd) ← (fd.seekSet 0).write header.bytes faults.header
  if size ≠ .ok indexHeaderSize then
    let header := { header with count := header.count - 1 }
    fd.truncate (indexHeaderSize + indexEntrySize * header.count.toNat)
    return (⟨0xff, some recordId, some overLimit⟩, ⟨fd, header⟩)
  return (⟨0, some recordId, some overLimit⟩, ⟨fd, header⟩)

/-- An append names the entry it was after, written or not. -/
theorem seaBlockIndexAppend_returns (a : Ambient) (faults : Faults) (index : SeaBlockIndex)
    (offset : UInt64) :
    (seaBlockIndexAppend a faults index offset).Returns
      fun out => out.1.recordId = some index.header.count := by
  unfold seaBlockIndexAppend
  refine Program.returns_bind _ fun _ => Program.returns_bind _ fun written => ?_
  dsimp only
  split
  · rfl
  · refine Program.returns_bind _ fun written => ?_
    split
    · exact Program.returns_bind _ fun _ => rfl
    · rfl

def entryOffset (recordId : UInt32) : UInt64 :=
  UInt64.ofNat indexHeaderSize + UInt64.ofNat indexEntrySize * recordId.toUInt64

/-- No list when the id is not below the count of the handle, an empty one when
the entry cannot be read in full. -/
def seaBlockIndexQueryByRecordId (index : SeaBlockIndex) (recordId : UInt32) :
    Prog (Option SeaBlockOffset × SeaBlockIndex) := do
  if index.header.count ≤ recordId then return (none, index)
  let (bytes, fd) ← (index.fd.seekSet (entryOffset recordId)).read indexEntrySize
  if bytes.length ≠ indexEntrySize then
    return (some seaBlockOffsetMalloc, { index with fd := fd })
  let entry := SeaBlockIndexEntry.ofBytes bytes
  let offset ← .ofOption (seaBlockOffsetAppend seaBlockOffsetMalloc entry.offset)
  return (some offset, { index with fd := fd })

def entryListOffsets (bytes : Bytes) (count : ℕ) : List UInt64 :=
  (List.range count).map fun i =>
    (SeaBlockIndexEntry.ofBytes (slice bytes (indexEntrySize * i) indexEntrySize)).offset

/-- Past the last record the function frees a pointer that was never set. -/
def seaBlockIndexQueryByCount (index : SeaBlockIndex) (firstRecordId count : UInt32) :
    Prog (Option SeaBlockOffset × Option UInt32 × SeaBlockIndex) := do
  let fd := index.fd.seekSet (entryOffset firstRecordId)
  if index.header.count ≤ firstRecordId then .fault
  -- the sum of the two ids is taken in 32 bits
  let readCount :=
    if firstRecordId + count < index.header.count then count
    else index.header.count - firstRecordId
  let (entryList, fd) ← fd.read (indexEntrySize * readCount.toNat)
  if (UInt32.ofNat entryList.length).toNat ≠ indexEntrySize * readCount.toNat then
    return (some seaBlockOffsetMalloc, none, { index with fd := fd })
  let offset ← .ofOption
    ((entryListOffsets entryList readCount.toNat).foldlM seaBlockOffsetAppend seaBlockOffsetMalloc)
  return (some offset, some readCount, { index with fd := fd })

/-- The loop over the entries, with as many rounds as there are counted entries
left. It ends early at an entry that is not before `stop`; the caller's count is
raised with every round. -/
def seaBlockIndexQueryByTimeLoop (stop : UInt64) :
    ℕ → Fd SeaPath → SeaBlockOffset → UInt32 → Prog (SeaBlockOffset × UInt32 × Fd SeaPath)
  | 0, fd, offset, realCount => return (offset, realCount, fd)
  | rounds + 1, fd, offset, realCount => do
    let (bytes, fd) ← fd.read indexEntrySize
    if bytes.length ≠ indexEntrySize then return (offset, realCount, fd)
    let entry := SeaBlockIndexEntry.ofBytes bytes
    if entry.timestamp < stop then
      let offset ← .ofOption (seaBlockOffsetAppend offset entry.offset)
      seaBlockIndexQueryByTimeLoop stop rounds fd offset (realCount + 1)
    else return (offset, realCount, fd)

/-- Neither `start` nor `count` is looked at. The caller's `real_count` is only
ever raised, from whatever it was before. -/
def seaBlockIndexQueryByTime (index : SeaBlockIndex) (_start stop : UInt64)
    (firstRecordId _count realCount : UInt32) :
    Prog (Option SeaBlockOffset × UInt32 × SeaBlockIndex) := do
  if index.header.count ≤ firstRecordId then return (none, realCount, index)
  let (offset, realCount, fd) ← seaBlockIndexQueryByTimeLoop stop
    (index.header.count - firstRecordId).toNat (index.fd.seekSet (entryOffset firstRecordId))
    seaBlockOffsetMalloc realCount
  return (some offset, realCount, { index with fd := fd })

end SeaStore.Block
