import SeaStore.Block.Index

/-!
A block is a data file and an index file opened together. An append goes to
the data file first and to the index after it; a query asks the index for
offsets and the data file for the records at them.
-/
namespace SeaStore.Block

open Posix

structure SeaBlock where
  dir : String
  blockId : UInt64
  data : SeaBlockData
  index : SeaBlockIndex

def seaBlockMaxSizeDefault : UInt64 := 128 * 1024 * 1024

def seaBlockMaxCountDefault : UInt64 := 128 * 1024

/-- The clock and the outcome of the one write of a creation. -/
structure CreateEnv where
  now : UInt64
  header : Outcome

def seaBlockCreate (e : CreateEnv) (dir : String) (blockId maxSize maxCount : UInt64) :
    Prog ℕ := do
  let maxSize := if maxSize = 0 then seaBlockMaxSizeDefault else maxSize
  let maxCount := if maxCount = 0 then seaBlockMaxCountDefault else maxCount
  let ret ← seaBlockIndexCreate dir blockId maxCount e.now e.header
  if ret ≠ 0 then return ret
  seaBlockDataCreate dir blockId maxSize

def seaBlockOpen (dir : String) (blockId : UInt64) : Prog (Option SeaBlock) := do
  match ← seaBlockDataOpen dir blockId with
  | none => return none
  | some data =>
    match ← seaBlockIndexOpen dir blockId with
    | .error _ => return none
    | .ok index => return some ⟨dir, blockId, data, index⟩

/-- Closing gives the descriptors back; the files stay as they are. -/
def seaBlockClose (_block : SeaBlock) : Prog Unit := return ()

def seaBlockAppend (a : Ambient) (faults : Faults) (block : SeaBlock) (data : Bytes)
    (length : Int32) : Prog (AppendResult × SeaBlock) := do
  if length = 0 then return (⟨EINVAL, none, none⟩, block)
  let (ret, offset, dataFile) ←
    seaBlockDataAppend a faults.frame block.data data length.toUInt32
  if ret ≠ 0 then return (⟨ret, none, none⟩, { block with data := dataFile })
  let (result, index) ← seaBlockIndexAppend a faults block.index offset
  return (result, { block with data := dataFile, index := index })

/-- Whatever happens to its calls, an append that returns zero tells an id. -/
theorem seaBlockAppend_returns (a : Ambient) (faults : Faults) (block : SeaBlock) (data : Bytes)
    (length : Int32) :
    (seaBlockAppend a faults block data length).Returns
      fun out => out.1.ret = 0 → out.1.recordId.isSome := by
  unfold seaBlockAppend
  split
  · exact fun hzero => absurd hzero (Nat.succ_ne_zero 21)
  · refine Program.returns_bind _ fun written => ?_
    dsimp only
    split
    · rename_i hret
      exact fun hzero => absurd hzero hret
    · apply Program.Returns.bind
      refine (seaBlockIndexAppend_returns a faults block.index _).mono ?_
      intro out hid _
      rw [hid]
      rfl

/-- The record list of a batch query, none when the index gave no offsets, and
the count the index reported. -/
def seaBlockQueryByCount (block : SeaBlock) (currentRecordId count : UInt32) :
    Prog (Option SeaBlockRecord × Option UInt32 × SeaBlock) := do
  let (offsets, realCount, index) ← seaBlockIndexQueryByCount block.index currentRecordId count
  match offsets with
  | none => return (none, realCount, { block with index := index })
  | some offsets =>
    let (records, data) ← seaBlockDataQueryByOffsets block.data offsets
    return (some records, realCount, { block with data := data, index := index })

/-- The return code, and what was copied to the caller's buffer where anything
was; the length written to `ret_buf_len` is the length of that. -/
structure QueryResult where
  ret : ℕ
  out : Option Bytes
  deriving DecidableEq

def seaBlockQueryByRecordId (block : SeaBlock) (recordId : UInt32) (bufLen : Int32) :
    Prog (QueryResult × SeaBlock) := do
  let (offsets, index) ← seaBlockIndexQueryByRecordId block.index recordId
  match offsets with
  | none => return (⟨EINVAL, none⟩, { block with index := index })
  | some offsets =>
    let (records, dataFile) ← seaBlockDataQueryByOffsets block.data offsets
    -- an empty list has no first record: the length stays zero and nothing is copied
    let data := (seaBlockRecordGetFirst records).getD []
    let block := { block with data := dataFile, index := index }
    -- the length of the caller's buffer is compared as an unsigned number
    if bufLen.toUInt32 < UInt32.ofNat data.length then return (⟨ENOENT, none⟩, block)
    return (⟨0, some data⟩, block)

def queryFresh (dir : String) (blockId : UInt64) (recordId : UInt32) (bufLen : Int32) :
    Prog QueryResult := do
  match ← seaBlockOpen dir blockId with
  | none => return ⟨EINVAL, none⟩
  | some block =>
    let (result, block) ← seaBlockQueryByRecordId block recordId bufLen
    seaBlockClose block
    return result

def seaBlockUpdate (a : Ambient) (o : Outcome) (block : SeaBlock) (recordId : UInt32)
    (data : Bytes) (length : Int32) : Prog (ℕ × SeaBlock) := do
  let (offset, index) ← seaBlockIndexQueryByRecordId block.index recordId
  match offset with
  | none => return (EINVAL, { block with index := index })
  | some offset =>
    let (ret, dataFile) ←
      seaBlockDataInsertByOffsets a o block.data offset data length.toUInt32
    return (ret, { block with data := dataFile, index := index })

end SeaStore.Block
