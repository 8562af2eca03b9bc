import SeaStore.Graph.Node
import SeaStore.Word.Md5

/-!
A graph database: an index block whose id comes from the database's name, and
a data block. Inserting a node stores it in the data block and its place in
the index block; finding it goes the same way back. Updating a node stores the
new one as an insert does, and writes over the entry of the old one. Here
`sea_block_open` has no prototype and is taken to return an `int`, so that the
address of a handle loses its upper half.
-/
namespace SeaStore.Graph

open Posix Block

/-- A pointer to a handle: null, or away from the handle, or to it. -/
inductive Handle
  | null
  | astray
  | held (block : SeaBlock)

/-- The pointer to a handle at `address` once it has been through an `int`. -/
def Handle.ofInt (address : UInt64) : Option SeaBlock → Handle
  | none => .null
  | some block =>
    if asInt address = 0 then .null
    else if asInt address = address then .held block
    else .astray

/-- The `int` holds the address, which is not null. -/
def Survives (address : UInt64) : Prop := asInt address = address ∧ address ≠ 0

instance (address : UInt64) : Decidable (Survives address) := inferInstanceAs (Decidable (_ ∧ _))

/-- `sea_block_open` without a prototype; `address` is where it puts the handle. -/
def seaBlockOpenInt (address : UInt64) (dir : String) (blockId : UInt64) : Prog Handle := do
  let block ← seaBlockOpen dir blockId
  return .ofInt address block

namespace Handle

variable {address : UInt64}

theorem ofInt_held (h : Survives address) (block : SeaBlock) :
    ofInt address (some block) = .held block := by
  rw [ofInt, h.1, if_neg h.2, if_pos rfl]

theorem ofInt_ne_held (h : ¬ Survives address) (opened : Option SeaBlock) (block : SeaBlock) :
    ofInt address opened ≠ .held block := by
  cases opened with
  | none => simp [ofInt]
  | some opened =>
    by_cases hsame : asInt address = address
    · have hnull : asInt address = 0 := by
        rw [hsame]
        by_contra hzero
        exact h ⟨hsame, hzero⟩
      simp [ofInt, hnull]
    · rw [ofInt, if_neg hsame]
      split <;> simp

theorem eq_some_of_ofInt {opened : Option SeaBlock} {block : SeaBlock}
    (h : ofInt address opened = .held block) : opened = some block := by
  have hat : Survives address := by
    by_contra hcut
    exact ofInt_ne_held hcut opened block h
  cases opened with
  | none => exact absurd h (by simp [ofInt])
  | some opened =>
    rw [ofInt_held hat] at h
    rw [held.inj h]

theorem ofInt_ne_astray_iff (block : SeaBlock) :
    ofInt address (some block) ≠ .astray ↔ Survives address ∨ asInt address = 0 := by
  by_cases hnull : asInt address = 0
  · simp [ofInt, hnull]
  · by_cases hsame : asInt address = address
    · have hne : address ≠ 0 := fun hzero => hnull (hsame.trans hzero)
      simp [ofInt, Survives, hsame, hne]
    · simp [ofInt, Survives, hnull, hsame]

end Handle

theorem run_seaBlockOpenInt {address : UInt64} (h : Survives address) {dir : String}
    {blockId : UInt64} {t t' : FileTree SeaPath} {block : SeaBlock}
    (hopen : (seaBlockOpen dir blockId).run serve t = some (some block, t')) :
    (seaBlockOpenInt address dir blockId).run serve t = some (.held block, t') := by
  unfold seaBlockOpenInt
  rw [Program.run_bind_of_run serve hopen, Program.run_pure, Handle.ofInt_held h]

/-- Which address survives makes no difference. -/
theorem seaBlockOpenInt_congr {address address' : UInt64} (h : Survives address)
    (h' : Survives address') : seaBlockOpenInt address = seaBlockOpenInt address' := by
  have hsame : Handle.ofInt address = Handle.ofInt address' := by
    funext opened
    cases opened with
    | none => rfl
    | some block => rw [Handle.ofInt_held h, Handle.ofInt_held h']
  unfold seaBlockOpenInt
  rw [hsame]

theorem seaBlockOpenInt_returns {address : UInt64} (h : ¬ Survives address) (dir : String)
    (blockId : UInt64) :
    (seaBlockOpenInt address dir blockId).Returns fun handle => ∀ block, handle ≠ .held block :=
  Program.returns_bind _ fun opened block => Handle.ofInt_ne_held h opened block

/-- The data block is never astray: where it would be, a node is stored through
it at once. -/
structure GraphDbConn where
  dir : String
  indexBlockId : UInt64
  indexBlock : Handle
  dataBlock : Option SeaBlock

def graphMaxSize : UInt64 := 128 * 1024 * 1024

def graphMaxCount : UInt64 := 128 * 1024

def graphDataBlockId : UInt64 := 2

def connDirSize : ℕ := 128

variable (digest : String → Word.Digest)

def graphDbGetBlockId (dbName : String) : UInt64 := Word.nameBlockId digest dbName

def graphDbCreate (e : CreateEnv) (dir dbName : String) : Prog ℕ :=
  seaBlockCreate e dir (graphDbGetBlockId digest dbName) graphMaxSize graphMaxCount

/-- Only the data file of the index block is removed. -/
def graphDbDestroy (dir dbName : String) : Prog ℕ :=
  seaBlockDataDestroy dir (graphDbGetBlockId digest dbName)

/-- A database that cannot be opened gives a connection without an index block. -/
def graphDbOpen (address : UInt64) (dir dbName : String) : Prog GraphDbConn := do
  let blockId := graphDbGetBlockId digest dbName
  let indexBlock ← seaBlockOpenInt address dir blockId
  -- the copy has to leave room for the closing zero
  if connDirSize ≤ dir.utf8ByteSize then .fault
  return { dir := dir, indexBlockId := blockId, indexBlock := indexBlock, dataBlock := none }

def graphDbClose (conn : GraphDbConn) : Prog Unit := do
  match conn.indexBlock with
  | .held block => seaBlockClose block
  | .null => pure ()
  | .astray => .fault
  match conn.dataBlock with
  | some block => seaBlockClose block
  | none => pure ()

/-- What the surroundings decide during one insert: the creation of the data
block and the address of its handle, and the appends to the two blocks. -/
structure InsertEnv where
  create : CreateEnv
  dataAt : UInt64
  data : Ambient
  dataFaults : Faults
  index : Ambient
  indexFaults : Faults

/-- The return code, the two output arguments, and the caller's `node`. -/
structure InsertResult where
  ret : ℕ
  nodeBlockId : UInt64
  nodeRecordId : UInt32
  node : NodeInfo

/-- The data block of an insert: the one the connection holds, or block
`dataBlockId` created anew and opened. -/
def graphDataBlock (e : CreateEnv) (address : UInt64) (conn : GraphDbConn) (dataBlockId : UInt64) :
    Prog Handle := do
  match conn.dataBlock with
  | some block => return .held block
  | none =>
    let _ ← seaBlockCreate e conn.dir dataBlockId graphMaxSize graphMaxCount
    seaBlockOpenInt address conn.dir dataBlockId

/-- The step from the stored node to the index: a new entry, or the entry of
the node that exists. -/
def graphIndexNode (e : InsertEnv) (conn : GraphDbConn) (indexData : GraphDbIndexNodeData)
    (nodeBlockId : UInt64) (nodeRecordId : UInt32) (existNodeFlag : Bool) (node : NodeInfo) :
    Prog (InsertResult × GraphDbConn) := do
  match conn.indexBlock, existNodeFlag with
  | .null, false => return (⟨EINVAL, nodeBlockId, nodeRecordId, node⟩, conn)
  | .null, true | .astray, _ => .fault
  | .held indexBlock, false =>
    let (result, indexBlock) ← seaBlockAppend e.index e.indexFaults indexBlock indexData.bytes
      (Int32.ofNat indexNodeDataSize)
    let conn := { conn with indexBlock := .held indexBlock }
    if result.ret ≠ 0 then return (⟨result.ret, nodeBlockId, nodeRecordId, node⟩, conn)
    return (⟨0, conn.indexBlockId, result.recordId.getD 0, node⟩, conn)
  | .held indexBlock, true =>
    let (ret, indexBlock) ← seaBlockUpdate e.index e.indexFaults.frame indexBlock nodeRecordId
      indexData.bytes (Int32.ofNat indexNodeDataSize)
    return (⟨ret, nodeBlockId, nodeRecordId, node⟩, { conn with indexBlock := .held indexBlock })

/-- The free sizes that the source hands on are never used. -/
def graphDbInsertInternal (e : InsertEnv) (conn : GraphDbConn) (node : NodeInfo)
    (attrInfo : List GraphAttrInfo) (attrCount : UInt16) (edgeInfo : List GraphEdgeInfo)
    (edgeCount : UInt16) (nodeBlockId : UInt64) (nodeRecordId : UInt32) (existNodeFlag : Bool) :
    Prog (InsertResult × GraphDbConn) := do
  let dataBlockId := if existNodeFlag then nodeBlockId else graphDataBlockId
  match ← graphDataBlock e.create e.dataAt conn dataBlockId with
  | .null =>
    return (⟨EINVAL, nodeBlockId, nodeRecordId, node⟩, { conn with dataBlock := none })
  | .astray => .fault
  | .held dataBlock =>
    let (result, dataBlock) ← createNodeData e.data e.dataFaults dataBlock node attrInfo attrCount
      edgeInfo edgeCount
    let conn := { conn with dataBlock := some dataBlock }
    if result.ret ≠ 0 then
      return (⟨result.ret, nodeBlockId, nodeRecordId, result.node⟩, conn)
    let indexData : GraphDbIndexNodeData :=
      if existNodeFlag then { blockId := nodeBlockId, recordId := nodeRecordId, pad := 0 }
      else { blockId := dataBlockId, recordId := result.nodeId.getD 0, pad := 0 }
    graphIndexNode e conn indexData nodeBlockId nodeRecordId existNodeFlag result.node

def graphDbInsert (e : InsertEnv) (conn : GraphDbConn) (node : NodeInfo)
    (attrInfo : List GraphAttrInfo) (attrCount : UInt16) (edgeInfo : List GraphEdgeInfo)
    (edgeCount : UInt16) (nodeBlockId : UInt64) (nodeRecordId : UInt32) :
    Prog (InsertResult × GraphDbConn) :=
  graphDbInsertInternal e conn node attrInfo attrCount edgeInfo edgeCount nodeBlockId nodeRecordId
    false

def findBufLen : Int32 := 1024 * 1024

/-- What has been read to the front of the buffer that is returned; `garbage`
is what the index entry on the stack held before, and `blockAt` where the
handle of the data block is. -/
def graphDbFind (garbage : Vector UInt8 16) (blockAt : UInt64) (conn : GraphDbConn)
    (_nodeBlockId : UInt64) (nodeRecordId : UInt32) : Prog (Option Bytes × GraphDbConn) := do
  match conn.indexBlock with
  | .null | .astray => .fault
  | .held indexBlock =>
    let (entry, indexBlock) ← seaBlockQueryByRecordId indexBlock nodeRecordId
      (Int32.ofNat indexNodeDataSize)
    let conn := { conn with indexBlock := .held indexBlock }
    if entry.ret ≠ 0 then return (none, conn)
    let read := entry.out.getD []
    let nodeData := GraphDbIndexNodeData.ofBytes (read ++ garbage.toList.drop read.length)
    match ← seaBlockOpenInt blockAt conn.dir nodeData.blockId with
    | .null => return (none, conn)
    | .astray => .fault
    | .held block =>
      let (result, block) ← seaBlockQueryByRecordId block nodeData.recordId findBufLen
      if result.ret ≠ 0 then
        seaBlockClose block
        return (none, conn)
      return (result.out, conn)

/-- Whether the stored node has room for the new one: no stored node ever has. -/
def graphDbCheckUpdate (_node : Option Bytes) (_attrCount _edgeCount : UInt16) : Bool := false

/-- Removing is still to be written: zero is returned and nothing is removed. -/
def graphDbRemove (_conn : GraphDbConn) (_nodeBlockId : UInt64) (_nodeRecordId : UInt32) : ℕ := 0

/-- The return code, the caller's `node`, and the connection. -/
def graphDbUpdate (e : InsertEnv) (garbage : Vector UInt8 16) (blockAt : UInt64)
    (conn : GraphDbConn) (nodeBlockId : UInt64) (nodeRecordId : UInt32) (node : NodeInfo)
    (attrInfo : List GraphAttrInfo) (attrCount : UInt16) (edgeInfo : List GraphEdgeInfo)
    (edgeCount : UInt16) : Prog (ℕ × NodeInfo × GraphDbConn) := do
  let (nodeInfo, conn) ← graphDbFind garbage blockAt conn nodeBlockId nodeRecordId
  if graphDbCheckUpdate nodeInfo attrCount edgeCount then return (0, node, conn)
  let ret := graphDbRemove conn nodeBlockId nodeRecordId
  if ret ≠ 0 then return (ret, node, conn)
  let (result, conn) ← graphDbInsertInternal e conn node attrInfo attrCount edgeInfo edgeCount
    nodeBlockId nodeRecordId true
  return (result.ret, result.node, conn)

end SeaStore.Graph
