import SeaStore.Block.Format

/-!
The data file of a block: frames are appended at its end, and read back
through the offsets that the index kept. The list of offsets and the list of
records that pass between the two files are modelled here as well.
-/
namespace SeaStore.Block

open Posix

/-- The growing list of offsets: its `size` field, the bytes that were
allocated for it, and the offsets stored, `count` of them. -/
structure SeaBlockOffset where
  size : UInt32
  allocated : ℕ
  offset : List UInt64

def offsetHeaderSize : ℕ := 16

def incrementSize : ℕ := 1280

def seaBlockOffsetMalloc : SeaBlockOffset where
  size := UInt32.ofNat (offsetHeaderSize + incrementSize * 8)
  allocated := offsetHeaderSize + incrementSize * 8
  offset := []

/-- Nothing is promised once the store falls outside the allocation, nor once
`realloc` has moved the list without the caller's pointer following it. -/
def seaBlockOffsetAppend (header : SeaBlockOffset) (offset : UInt64) : Option SeaBlockOffset :=
  if header.size.toNat ≤ header.offset.length then none
  else if header.allocated < offsetHeaderSize + 8 * (header.offset.length + 1) then none
  else some { header with offset := header.offset ++ [offset] }

/-- The memory of a new list is zeroed, so an entry never stored reads as zero. -/
def seaBlockOffsetGet (header : SeaBlockOffset) (i : ℕ) : UInt64 := header.offset.getD i 0

/-- The record list is a queue of payloads. -/
abbrev SeaBlockRecord := List Bytes

def seaBlockRecordMalloc : SeaBlockRecord := []

def seaBlockRecordAppend (header : SeaBlockRecord) (buf : Bytes) (length : ℕ) : SeaBlockRecord :=
  header ++ [buf.take length]

def seaBlockRecordGetFirst (header : SeaBlockRecord) : Option Bytes := header.head?

structure SeaBlockData where
  fd : Fd SeaPath

def seaBlockDataCreate (dir : String) (blockId _maxSize : UInt64) : Prog ℕ := do
  match ← openFile (.data dir blockId) true with
  | none => return ENOENT
  | some _ => return 0

def seaBlockDataOpen (dir : String) (blockId : UInt64) : Prog (Option SeaBlockData) := do
  match ← openFile (.data dir blockId) false with
  | none => return none
  | some fd => return some ⟨fd⟩

/-- The data file is unlinked if it is there. -/
def seaBlockDataDestroy (dir : String) (blockId : UInt64) : Prog ℕ := do
  if ← access (.data dir blockId) then
    if ← unlink (.data dir blockId) then return 0 else return ENOENT
  else return 0

/-- `int buf_len = sizeof(header) + length + sizeof(tail)`: summed as a
`size_t` and cut back to an `int`. -/
def frameBufLen (length : UInt32) : Int32 :=
  (UInt64.ofNat dataHeaderSize + length.toUInt64 + UInt64.ofNat dataTailSize).toUInt32.toInt32

theorem toInt_frameBufLen_bmod (length : UInt32) :
    (frameBufLen length).toInt = ((length.toNat + 16 : ℕ) : ℤ).bmod (2 ^ 32) := by
  have hsum : (UInt64.ofNat dataHeaderSize + length.toUInt64 +
      UInt64.ofNat dataTailSize).toUInt32.toNat = (length.toNat + 16) % 2 ^ 32 := by
    have hlt : length.toNat < 2 ^ 32 := length.toNat_lt
    simp only [UInt64.toNat_toUInt32, UInt64.toNat_add, UInt32.toNat_toUInt64,
      UInt64.toNat_ofNat', dataHeaderSize, dataTailSize]
    omega
  unfold frameBufLen
  generalize UInt64.toUInt32 _ = n at hsum
  have hint : n.toInt32.toInt = (n.toNat : ℤ).bmod (2 ^ 32) :=
    BitVec.toInt_eq_toNat_bmod n.toBitVec
  rw [hint, hsum]
  simp only [Int.bmod]
  omega

/-- The frame built in memory: none where `malloc` gets a negative size, a
fault where a copy leaves the buffer it reads or the one it fills. -/
def buildFrame (a : Ambient) (buffer : Bytes) (length : UInt32) : Prog (Option Bytes) :=
  let bufLen := frameBufLen length
  if bufLen.toInt < 0 then return none
  else if bufLen.toInt < dataHeaderSize + length.toNat + dataTailSize then .fault
  else if buffer.length < length.toNat then .fault
  else return some (frame a (buffer.take length.toNat) length)

/-- Return code, offset of the frame and handle. The `overlimit` argument of
the source is never written. -/
def seaBlockDataAppend (a : Ambient) (o : Outcome) (data : SeaBlockData) (buffer : Bytes)
    (length : UInt32) : Prog (ℕ × UInt64 × SeaBlockData) := do
  match ← buildFrame a buffer length with
  | none => return (EINVAL, 0, data)
  | some buf =>
    let (offset, fd) ← data.fd.seekEnd
    let (size, fd) ← fd.write buf o
    if size ≠ .ok buf.length then return (ENOENT, offset, ⟨fd⟩)
    return (0, offset, ⟨fd⟩)

/-- The loop over the offsets, with the records found so far. The first seek
of a round is relative, the second one is not. -/
def seaBlockDataQueryLoop (data : SeaBlockData) (records : SeaBlockRecord) :
    List UInt64 → Prog (SeaBlockRecord × SeaBlockData)
  | [] => return (records, data)
  | offset :: rest => do
    let (header, fd) ← (data.fd.seekCur offset).read dataHeaderSize
    if header.length ≠ dataHeaderSize then return (records, ⟨fd⟩)
    let length := (dataHeaderLength header).toNat
    let (buf, fd) ← (fd.seekSet (offset + UInt64.ofNat dataHeaderSize)).read length
    if buf.length ≠ length then return (records, ⟨fd⟩)
    seaBlockDataQueryLoop ⟨fd⟩ (seaBlockRecordAppend records buf length) rest

def seaBlockDataQueryByOffsets (data : SeaBlockData) (offsets : SeaBlockOffset) :
    Prog (SeaBlockRecord × SeaBlockData) :=
  seaBlockDataQueryLoop data seaBlockRecordMalloc offsets.offset

/-- Writes a whole frame at the first offset of the list. -/
def seaBlockDataInsertByOffsets (a : Ambient) (o : Outcome) (data : SeaBlockData)
    (offset : SeaBlockOffset) (buffer : Bytes) (length : UInt32) : Prog (ℕ × SeaBlockData) := do
  match ← buildFrame a buffer length with
  | none => return (EINVAL, data)
  | some buf =>
    let (size, fd) ← (data.fd.seekSet (seaBlockOffsetGet offset 0)).write buf o
    if size ≠ .ok buf.length then return (ENOENT, ⟨fd⟩)
    return (0, ⟨fd⟩)

end SeaStore.Block
