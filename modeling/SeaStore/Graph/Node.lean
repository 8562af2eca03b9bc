import SeaStore.Block.SeaBlock

/-!
How a node of a graph is laid out in one record: a packed header with the two
counts, then the edges, then the attributes. A record of the index block says
in which block and under which id the node is stored.
-/
namespace SeaStore.Graph

open Posix Block

structure NodeInfo where
  nextRecordId : UInt32
  prevRecordId : UInt32
  edgeCount : UInt32
  attrCount : UInt32

structure GraphAttrInfo where
  attrName : Vector UInt8 16
  attrValue : Vector UInt8 16

structure GraphEdgeInfo where
  direction : UInt8
  nodeId : UInt32

def NodeInfo.bytes (node : NodeInfo) : Bytes :=
  le32 node.nextRecordId ++ le32 node.prevRecordId ++ le32 node.edgeCount ++ le32 node.attrCount

def NodeInfo.ofBytes (b : Bytes) : NodeInfo where
  nextRecordId := readLe32 (slice b 0 4)
  prevRecordId := readLe32 (slice b 4 4)
  edgeCount := readLe32 (slice b 8 4)
  attrCount := readLe32 (slice b 12 4)

def GraphAttrInfo.bytes (attr : GraphAttrInfo) : Bytes :=
  attr.attrName.toList ++ attr.attrValue.toList

def GraphEdgeInfo.bytes (edge : GraphEdgeInfo) : Bytes := edge.direction :: le32 edge.nodeId

/-- The sizes of the three packed structures. -/
def nodeInfoSize : ℕ := 16

def attrInfoSize : ℕ := 32

def edgeInfoSize : ℕ := 5

@[simp] theorem NodeInfo.bytes_length (node : NodeInfo) : node.bytes.length = nodeInfoSize := by
  simp [bytes, nodeInfoSize]

/-- The node is read from the front of its record. -/
theorem NodeInfo.ofBytes_append (node : NodeInfo) (rest : Bytes) :
    ofBytes (node.bytes ++ rest) = node := by
  simp (disch := simp) only [ofBytes, bytes, List.append_assoc, slice_append_left,
    slice_append_right, slice_whole, le32_length, readLe32_le32, Nat.reduceSub]

theorem attrs_length (attrs : List GraphAttrInfo) :
    (attrs.flatMap GraphAttrInfo.bytes).length = attrInfoSize * attrs.length := by
  induction attrs with
  | nil => rfl
  | cons attr rest ih =>
    have hattr : attr.bytes.length = attrInfoSize := by
      simp [GraphAttrInfo.bytes, attrInfoSize]
    rw [List.flatMap_cons, List.length_append, ih, hattr, List.length_cons, Nat.mul_succ,
      Nat.add_comm]

theorem edges_length (edges : List GraphEdgeInfo) :
    (edges.flatMap GraphEdgeInfo.bytes).length = edgeInfoSize * edges.length := by
  induction edges with
  | nil => rfl
  | cons edge rest ih =>
    have hedge : edge.bytes.length = edgeInfoSize := by
      simp [GraphEdgeInfo.bytes, edgeInfoSize]
    rw [List.flatMap_cons, List.length_append, ih, hedge, List.length_cons, Nat.mul_succ,
      Nat.add_comm]

structure GraphDbIndexNodeData where
  blockId : UInt64
  recordId : UInt32
  pad : UInt32

/-- `sizeof(struct graph_db_index_node_data)`. -/
def indexNodeDataSize : ℕ := 16

def GraphDbIndexNodeData.bytes (data : GraphDbIndexNodeData) : Bytes :=
  le64 data.blockId ++ le32 data.recordId ++ le32 data.pad

def GraphDbIndexNodeData.ofBytes (b : Bytes) : GraphDbIndexNodeData where
  blockId := readLe64 (slice b 0 8)
  recordId := readLe32 (slice b 8 4)
  pad := readLe32 (slice b 12 4)

@[simp] theorem GraphDbIndexNodeData.bytes_length (data : GraphDbIndexNodeData) :
    data.bytes.length = indexNodeDataSize := by
  simp [bytes, indexNodeDataSize]

@[simp] theorem GraphDbIndexNodeData.ofBytes_bytes (data : GraphDbIndexNodeData) :
    ofBytes data.bytes = data := by
  simp (disch := simp) only [ofBytes, bytes, slice_append_left, slice_append_right, slice_whole,
    List.length_append, le64_length, le32_length, readLe64_le64, readLe32_le32, Nat.reduceAdd,
    Nat.reduceSub]

/-- The record id of a new node, where the append gave one; the caller's
`node` has the two counts written into it. -/
structure NodeDataResult where
  ret : ℕ
  nodeId : Option UInt32
  node : NodeInfo

def createNodeData (a : Ambient) (faults : Faults) (block : SeaBlock) (node : NodeInfo)
    (attrInfo : List GraphAttrInfo) (attrCount : UInt16) (edgeInfo : List GraphEdgeInfo)
    (edgeCount : UInt16) : Prog (NodeDataResult × SeaBlock) := do
  let nodeSize := UInt32.ofNat nodeInfoSize
  let edgeSize := edgeCount.toUInt32 * UInt32.ofNat edgeInfoSize
  let attrSize := attrCount.toUInt32 * UInt32.ofNat attrInfoSize
  let bufSize := nodeSize + edgeSize + attrSize
  let node := { node with attrCount := attrCount.toUInt32, edgeCount := edgeCount.toUInt32 }
  -- the copies read as many edges and attributes as the counts say
  if edgeInfo.length < edgeCount.toNat ∨ attrInfo.length < attrCount.toNat then .fault
  let buf := node.bytes ++ (edgeInfo.take edgeCount.toNat).flatMap GraphEdgeInfo.bytes ++
    (attrInfo.take attrCount.toNat).flatMap GraphAttrInfo.bytes
  let (result, block) ← seaBlockAppend a faults block buf bufSize.toInt32
  if result.ret ≠ 0 then return (⟨result.ret, none, node⟩, block)
  return (⟨0, result.recordId, node⟩, block)

/-- The size of the buffer that `find_node_data` returns. -/
def nodeBufLen : Int32 := 1024 * 1024

/-- What has been read to the front of the buffer, or no buffer, and the
caller's `ret_buf_len` where it is set. -/
structure FindNodeResult where
  info : Option Bytes
  retBufLen : Option UInt32

def findNodeData (block : SeaBlock) (nodeId : UInt32) : Prog (FindNodeResult × SeaBlock) := do
  let (result, block) ← seaBlockQueryByRecordId block nodeId nodeBufLen
  let retBufLen := result.out.map fun read => UInt32.ofNat read.length
  -- the buffer is freed
  if result.ret ≠ 0 then return (⟨none, retBufLen⟩, block)
  return (⟨result.out, retBufLen⟩, block)

end SeaStore.Graph
