import SeaStore.Posix.FileTree

/-!
The two files of a block. An index file is one header and the entries, a data
file a sequence of frames, each a payload between a packed header and a packed
tail. The pad bytes of a frame are never set by the code.
-/
namespace SeaStore.Block

open Posix

/-- The names of a block's files, `dir/id/index` and `dir/id/id`. -/
inductive SeaPath
  | index (dir : String) (blockId : UInt64)
  | data (dir : String) (blockId : UInt64)
  deriving DecidableEq

abbrev Prog := Program (files SeaPath)

def EINVAL : ℕ := 22

def ENOENT : ℕ := 2

structure SeaBlockIndexHeader where
  blockId : UInt64
  maxCount : UInt64
  startTimestamp : UInt64
  stopTimestamp : UInt64
  count : UInt32
  unused : UInt32
  deriving DecidableEq

structure SeaBlockIndexEntry where
  timestamp : UInt64
  offset : UInt64
  deriving DecidableEq

def indexHeaderSize : ℕ := 40

def indexEntrySize : ℕ := 16

namespace SeaBlockIndexHeader

def bytes (h : SeaBlockIndexHeader) : Bytes :=
  le64 h.blockId ++ le64 h.maxCount ++ le64 h.startTimestamp ++ le64 h.stopTimestamp ++
    le32 h.count ++ le32 h.unused

def ofBytes (b : Bytes) : SeaBlockIndexHeader where
  blockId := readLe64 (slice b 0 8)
  maxCount := readLe64 (slice b 8 8)
  startTimestamp := readLe64 (slice b 16 8)
  stopTimestamp := readLe64 (slice b 24 8)
  count := readLe32 (slice b 32 4)
  unused := readLe32 (slice b 36 4)

@[simp] theorem bytes_length (h : SeaBlockIndexHeader) : h.bytes.length = indexHeaderSize := by
  simp [bytes, indexHeaderSize]

@[simp] theorem ofBytes_bytes (h : SeaBlockIndexHeader) : ofBytes h.bytes = h := by
  simp (disch := simp) only [ofBytes, bytes, slice_append_left, slice_append_right, slice_whole,
    List.length_append, le64_length, le32_length, readLe64_le64, readLe32_le32, Nat.reduceAdd,
    Nat.reduceSub]

theorem bytes_ofBytes (b : Bytes) (hb : b.length = indexHeaderSize) : (ofBytes b).bytes = b := by
  have hb' : b.length = 40 := hb
  have hlen : ∀ pos count : ℕ, pos + count ≤ 40 → (slice b pos count).length = count := by
    intro pos count h
    rw [slice_length]
    omega
  simp only [ofBytes, bytes, le64_readLe64 _ (hlen 0 8 (by omega)),
    le64_readLe64 _ (hlen 8 8 (by omega)), le64_readLe64 _ (hlen 16 8 (by omega)),
    le64_readLe64 _ (hlen 24 8 (by omega)), le32_readLe32 _ (hlen 32 4 (by omega)),
    le32_readLe32 _ (hlen 36 4 (by omega))]
  apply List.ext_getElem
  · simp [slice_length, hb']
  · intro i h1 h2
    simp only [slice, List.getElem_append, List.getElem_take, List.getElem_drop, List.length_take,
      List.length_drop, List.length_append, hb']
    split_ifs <;> congr 1 <;> omega

end SeaBlockIndexHeader

namespace SeaBlockIndexEntry

def bytes (e : SeaBlockIndexEntry) : Bytes := le64 e.timestamp ++ le64 e.offset

def ofBytes (b : Bytes) : SeaBlockIndexEntry where
  timestamp := readLe64 (slice b 0 8)
  offset := readLe64 (slice b 8 8)

@[simp] theorem bytes_length (e : SeaBlockIndexEntry) : e.bytes.length = indexEntrySize := by
  simp [bytes, indexEntrySize]

@[simp] theorem ofBytes_bytes (e : SeaBlockIndexEntry) : ofBytes e.bytes = e := by
  simp (disch := simp) only [ofBytes, bytes, slice_append_left, slice_append_right, slice_whole,
    le64_length, readLe64_le64, Nat.reduceSub]

end SeaBlockIndexEntry

structure SeaBlockDataHeader where
  magic : UInt8
  disable : UInt8
  pad : Vector UInt8 2
  length : UInt32

structure SeaBlockDataTail where
  length : UInt32
  pad : Vector UInt8 3
  magic : UInt8

/-- `sizeof(struct sea_block_data_header)`, and the size of the tail as well. -/
def dataHeaderSize : ℕ := 8

def dataTailSize : ℕ := 8

def SeaBlockDataHeader.bytes (h : SeaBlockDataHeader) : Bytes :=
  [h.magic, h.disable] ++ h.pad.toList ++ le32 h.length

def SeaBlockDataTail.bytes (t : SeaBlockDataTail) : Bytes :=
  le32 t.length ++ t.pad.toList ++ [t.magic]

/-- The length field of a frame header that has been read; nothing else of it is used. -/
def dataHeaderLength (b : Bytes) : UInt32 := readLe32 (slice b 4 4)

@[simp] theorem SeaBlockDataHeader.bytes_length (h : SeaBlockDataHeader) :
    h.bytes.length = dataHeaderSize := by
  simp [bytes, dataHeaderSize]

@[simp] theorem SeaBlockDataTail.bytes_length (t : SeaBlockDataTail) :
    t.bytes.length = dataTailSize := by
  simp [bytes, dataTailSize]

@[simp] theorem dataHeaderLength_bytes (h : SeaBlockDataHeader) :
    dataHeaderLength h.bytes = h.length := by
  simp (disch := simp) [dataHeaderLength, SeaBlockDataHeader.bytes, slice, List.take_of_length_le]

/-- What the surroundings of one append decide: the clock, and the stack bytes
that end up in the pads of the frame. -/
structure Ambient where
  now : UInt64
  headerPad : Vector UInt8 2
  tailPad : Vector UInt8 3

def Ambient.clear (now : UInt64) : Ambient := ⟨now, .replicate 2 0, .replicate 3 0⟩

/-- The outcomes of the three writes of one append. -/
structure Faults where
  frame : Outcome
  entry : Outcome
  header : Outcome

def Faults.none : Faults := ⟨.whole, .whole, .whole⟩

/-- `'^'` and `'$'`. -/
def dataMagicHeader : UInt8 := 94

def dataMagicTail : UInt8 := 36

/-- The bytes that `sea_block_data_append` writes for one payload. -/
def frame (a : Ambient) (payload : Bytes) (length : UInt32) : Bytes :=
  SeaBlockDataHeader.bytes ⟨dataMagicHeader, 0, a.headerPad, length⟩ ++ payload ++
    SeaBlockDataTail.bytes ⟨length, a.tailPad, dataMagicTail⟩

theorem frame_length (a : Ambient) (payload : Bytes) (length : UInt32) :
    (frame a payload length).length = dataHeaderSize + payload.length + dataTailSize := by
  simp [frame, Nat.add_assoc]

end SeaStore.Block
