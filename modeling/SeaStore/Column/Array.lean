import SeaStore.Block.Format

/-!
Column arrays: one file of a packed header and elements of one size. An append
goes to the end of the file and the header is written again over the front of
it; a read takes a window of the elements wherever the descriptor stands.
-/
namespace SeaStore.Column

open Posix Block

variable {P : Type}

/-- `VALUE_TYPE_SIZE_*` of a `VALUE_TYPE_ARR_*`. -/
def colArrayGetTypeSize (type : UInt8) : UInt32 :=
  match type.toNat with
  | 1 => 1
  | 2 => 1
  | 3 => 2
  | 4 => 2
  | 5 => 4
  | 6 => 4
  | 7 => 8
  | 8 => 8
  | 9 => 8
  | 10 => 8
  | 11 => 16
  | _ => 4

structure ColArrayInfo where
  recordType : UInt8
  colName : Vector UInt8 32

structure ColArrayHdr where
  count : UInt32
  recordType : UInt8
  colName : Vector UInt8 32

def arrayHdrSize : ℕ := 37

namespace ColArrayHdr

def bytes (h : ColArrayHdr) : Bytes := le32 h.count ++ [h.recordType] ++ h.colName.toList

def ofBytes (b : Bytes) : ColArrayHdr where
  count := readLe32 (slice b 0 4)
  recordType := b.getD 4 0
  colName := Vector.ofFn fun i => b.getD (5 + i) 0

def addCount (h : ColArrayHdr) (count : UInt32) : ColArrayHdr :=
  { h with count := h.count + count }

@[simp] theorem bytes_length (h : ColArrayHdr) : h.bytes.length = arrayHdrSize := by
  simp [bytes, arrayHdrSize]

@[simp] theorem ofBytes_bytes (h : ColArrayHdr) : ofBytes h.bytes = h := by
  have hcount : slice h.bytes 0 4 = le32 h.count := by
    rw [bytes, List.append_assoc, slice_append_left _ _ _ _ (by simp), slice_whole _ _ (by simp)]
  have htype : h.bytes.getD 4 0 = h.recordType := by
    simp [bytes, List.getD_eq_getElem?_getD]
  have hname : (Vector.ofFn fun i : Fin 32 => h.bytes.getD (5 + i) 0) = h.colName := by
    apply Vector.ext
    intro i hi
    have hfront : (le32 h.count ++ [h.recordType]).length = 5 := by simp
    have hget : h.bytes[5 + i]? = some h.colName[i] := by
      rw [bytes, ← hfront, List.getElem?_append_right (Nat.le_add_right _ _),
        Nat.add_sub_cancel_left]
      simp [hi]
    simp [List.getD_eq_getElem?_getD, hget]
  rw [ofBytes, hcount, htype, hname, readLe32_le32]

end ColArrayHdr

structure ColArray (P : Type) where
  fd : Fd P
  hdr : ColArrayHdr

/-- `strlen` of a `char` array; none where no zero ends the string within it. -/
def strlen (name : Vector UInt8 32) : Option ℕ := name.toList.findIdx? (· = 0)

/-- `memcpy` of the first `count` bytes. -/
def copyName (target source : Vector UInt8 32) (count : ℕ) : Vector UInt8 32 :=
  Vector.ofFn fun i => if i < count then source[i] else target[i]

/-- What the surroundings decide: the bytes that stand where the header is
built, the outcome of its write, and the error number from before the call. -/
structure ArrayCreateEnv where
  stack : Vector UInt8 32
  header : Outcome
  errno : ℕ

/-- `errno` after a `write` with this result. -/
def errnoAfter (errno : ℕ) : Except ℕ ℕ → ℕ
  | .error number => number
  | .ok _ => errno

/-- The return code of a creation that succeeds is what `write` returned. -/
def colArrayCreate (e : ArrayCreateEnv) (path : P) (info : Option ColArrayInfo) :
    Program (files P) ℕ := do
  match info with
  | none => return EINVAL
  | some info =>
    match ← openFile path true with
    | none => return ENOENT
    | some fd =>
      let length ← .ofOption (strlen info.colName)
      let hdr : ColArrayHdr :=
        { count := 0, recordType := info.recordType,
          colName := copyName e.stack info.colName length }
      let (ret, _) ← fd.write hdr.bytes e.header
      if ret ≠ .ok arrayHdrSize then return errnoAfter e.errno ret
      return arrayHdrSize

/-- `filename` is never filled: what is unlinked is the string that happens to stand
there, if one does. -/
def colArrayDestroy (filename : Option P) (path : P) : Program (files P) ℕ := do
  if ← access path then
    let filename ← .ofOption filename
    if ← unlink filename then return 0 else return ENOENT
  else return 0

/-- The error number, and the handle where it is one: after an error the
pointer that comes back has been freed, and after a read that was short without
an error the handle was never filled. -/
def colArrayOpen (errno : ℕ) (path : P) : Program (files P) (ℕ × Option (ColArray P)) := do
  match ← openFile path false with
  | none => return (ENOENT, none)
  | some fd =>
    let (header, fd) ← fd.read arrayHdrSize
    if header.length ≠ arrayHdrSize then return (errno, none)
    return (0, some ⟨fd, .ofBytes header⟩)

def colArrayClose (_array : ColArray P) : Program (files P) Unit := return ()

structure ArrayAppendEnv where
  data : Outcome
  header : Outcome
  errno : ℕ

/-- The result of `write` as an unsigned number, which a failure makes `-1`. -/
def writeSize : Except ℕ ℕ → UInt32
  | .ok count => UInt32.ofNat count
  | .error _ => 0xffffffff

/-- The result of the header write is dropped; `over_limit` is never written. -/
def colArrayAppend (e : ArrayAppendEnv) (array : ColArray P) (record : Bytes)
    (recordSize : UInt32) : Program (files P) (ℕ × ColArray P) := do
  let recordTypeSize := colArrayGetTypeSize array.hdr.recordType
  let recordCount := recordSize / recordTypeSize
  let realRecordSize := recordCount * recordTypeSize
  if record.length < realRecordSize.toNat then .fault
  let (offset, fd) ← array.fd.seekEnd
  let (result, fd) ← fd.write (record.take realRecordSize.toNat) e.data
  if writeSize result ≠ realRecordSize then
    fd.truncate offset.toNat
    return (errnoAfter e.errno result, { array with fd := fd })
  let hdr := array.hdr.addCount recordCount
  let (_, fd) ← (fd.seekSet 0).write hdr.bytes e.header
  return (0, ⟨fd, hdr⟩)

/-- The return code, the count where it is written, and the bytes that were
read into the caller's buffer. -/
structure ArrayReadResult where
  ret : ℕ
  realRecordCount : Option UInt32
  record : Bytes
  deriving DecidableEq

def colArrayRead (errno : ℕ) (array : ColArray P) (indexStart indexStop recordSize : UInt32) :
    Program (files P) (ArrayReadResult × ColArray P) := do
  let recordTypeSize := colArrayGetTypeSize array.hdr.recordType
  let realBufSize := recordSize / recordTypeSize * recordTypeSize
  let indexCountSize := (indexStop - indexStart) * recordTypeSize
  let realLimitReadSize := if realBufSize > indexCountSize then indexCountSize else realBufSize
  -- the product is taken in 32 bits, the sum in 64
  let startOffset := (indexStart * recordTypeSize).toUInt64 + UInt64.ofNat arrayHdrSize
  let (record, fd) ← (array.fd.seekSet startOffset).read realLimitReadSize.toNat
  let readSize := Int32.ofNat record.length
  if readSize < 0 then return (⟨errno, none, record⟩, { array with fd := fd })
  return (⟨0, some (readSize.toUInt32 / recordTypeSize), record⟩, { array with fd := fd })

end SeaStore.Column
