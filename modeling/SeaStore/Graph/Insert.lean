import SeaStore.Graph.Graph
import SeaStore.Block.ReadBack

/-!
What an insert does to the two blocks. Storing the node is an append to the
data block, entering it into the index is an append to the index block, and the
entry says where the first of the two has put the node. A connection may hold
any handle on the data block, or none; without one the block is created over
whatever it stores, and the node's place is numbered from zero.
-/
namespace SeaStore.Graph

open Posix Block

/-- A node as it is handed to an insert. The counts in `info` are overwritten,
and the lists are no longer than their counts can say. -/
structure GraphNode where
  info : NodeInfo
  edges : List GraphEdgeInfo
  attrs : List GraphAttrInfo
  edges_lt : edges.length < 2 ^ 16
  attrs_lt : attrs.length < 2 ^ 16

theorem nil_lt {α : Type} : ([] : List α).length < 2 ^ 16 := by
  rw [List.length_nil]
  decide

theorem singleton_lt {α : Type} (x : α) : [x].length < 2 ^ 16 := by
  rw [List.length_singleton]
  decide

namespace GraphNode

variable (node : GraphNode)

def edgeCount : UInt16 := UInt16.ofNat node.edges.length

def attrCount : UInt16 := UInt16.ofNat node.attrs.length

def bytes : Bytes :=
  le32 node.info.nextRecordId ++ le32 node.info.prevRecordId ++
    le32 (UInt32.ofNat node.edges.length) ++ le32 (UInt32.ofNat node.attrs.length) ++
    node.edges.flatMap GraphEdgeInfo.bytes ++ node.attrs.flatMap GraphAttrInfo.bytes

def size : ℕ := 16 + 5 * node.edges.length + 32 * node.attrs.length

def counted : NodeInfo :=
  { node.info with
    attrCount := node.attrCount.toUInt32, edgeCount := node.edgeCount.toUInt32 }

theorem bytes_length : node.bytes.length = node.size := by
  simp only [bytes, size, List.length_append, le32_length, edges_length, attrs_length,
    edgeInfoSize, attrInfoSize]

theorem size_lt : node.size < 2 ^ 31 - 16 := by
  have hedges := node.edges_lt
  have hattrs := node.attrs_lt
  simp only [size]
  omega

theorem size_pos : 0 < node.size := by
  simp only [size]
  omega

def payload : Payload where
  bytes := node.bytes
  ne_nil := by
    rw [← List.length_pos_iff, bytes_length]
    exact node.size_pos
  length_lt := by
    rw [bytes_length]
    exact node.size_lt

theorem toNat_edgeCount : node.edgeCount.toNat = node.edges.length := by
  rw [edgeCount, UInt16.toNat_ofNat', Nat.mod_eq_of_lt node.edges_lt]

theorem toNat_attrCount : node.attrCount.toNat = node.attrs.length := by
  rw [attrCount, UInt16.toNat_ofNat', Nat.mod_eq_of_lt node.attrs_lt]

theorem edgeCount_toUInt32 : node.edgeCount.toUInt32 = UInt32.ofNat node.edges.length := by
  apply UInt32.toNat_inj.mp
  rw [UInt16.toNat_toUInt32, toNat_edgeCount, UInt32.toNat_ofNat']
  have hlt := node.edges_lt
  omega

theorem attrCount_toUInt32 : node.attrCount.toUInt32 = UInt32.ofNat node.attrs.length := by
  apply UInt32.toNat_inj.mp
  rw [UInt16.toNat_toUInt32, toNat_attrCount, UInt32.toNat_ofNat']
  have hlt := node.attrs_lt
  omega

/-- The size that is computed in 32 bits is the size of the record. -/
theorem bufSize_eq :
    (UInt32.ofNat nodeInfoSize + node.edgeCount.toUInt32 * UInt32.ofNat edgeInfoSize +
      node.attrCount.toUInt32 * UInt32.ofNat attrInfoSize).toInt32 = node.payload.length := by
  have hsize := node.size_lt
  have hnat : UInt32.ofNat nodeInfoSize + node.edgeCount.toUInt32 * UInt32.ofNat edgeInfoSize +
      node.attrCount.toUInt32 * UInt32.ofNat attrInfoSize = UInt32.ofNat node.size := by
    rw [edgeCount_toUInt32, attrCount_toUInt32, ← UInt32.ofNat_mul, ← UInt32.ofNat_mul,
      ← UInt32.ofNat_add, ← UInt32.ofNat_add]
    congr 1
    simp only [size, nodeInfoSize, edgeInfoSize, attrInfoSize]
    omega
  rw [hnat, Payload.length, payload, bytes_length]
  rfl

end GraphNode

variable {t t' : FileTree SeaPath} {dir : String} {id : UInt64} {hdr : SeaBlockIndexHeader}
  {recs old : List Payload} {conn conn' : GraphDbConn}

theorem run_createNodeData (a : Ambient) (faults : Faults) (block : SeaBlock) (node : GraphNode)
    (t : FileTree SeaPath) :
    (createNodeData a faults block node.info node.attrs node.attrCount node.edges
        node.edgeCount).run serve t =
      ((seaBlockAppend a faults block node.payload.bytes node.payload.length).run serve t).map
        (fun s => ((⟨s.1.1.ret, if s.1.1.ret = 0 then s.1.1.recordId else none, node.counted⟩,
          s.1.2), s.2)) := by
  have hbytes : node.payload.bytes = node.counted.bytes ++
      (node.edges.take node.edgeCount.toNat).flatMap GraphEdgeInfo.bytes ++
      (node.attrs.take node.attrCount.toNat).flatMap GraphAttrInfo.bytes := by
    rw [node.toNat_edgeCount, node.toNat_attrCount, List.take_length, List.take_length,
      GraphNode.counted, node.edgeCount_toUInt32, node.attrCount_toUInt32]
    rfl
  have hcounts : ¬ (node.edges.length < node.edgeCount.toNat ∨
      node.attrs.length < node.attrCount.toNat) := by
    rw [node.toNat_edgeCount, node.toNat_attrCount]
    omega
  rw [hbytes]
  unfold createNodeData
  simp only [hcounts, if_false, node.bufSize_eq]
  rw [Program.run_bind, GraphNode.counted]
  cases (seaBlockAppend a faults block _ _).run serve t with
  | none => rfl
  | some s =>
    by_cases hret : s.1.1.ret = 0
    · simp [hret]
    · simp [hret]

def GraphDbIndexNodeData.payload (data : GraphDbIndexNodeData) : Payload where
  bytes := data.bytes
  ne_nil := by
    rw [← List.length_pos_iff, GraphDbIndexNodeData.bytes_length]
    decide
  length_lt := by
    rw [GraphDbIndexNodeData.bytes_length]
    decide

@[simp] theorem GraphDbIndexNodeData.payload_bytes (data : GraphDbIndexNodeData) :
    data.payload.bytes = data.bytes := rfl

theorem GraphDbIndexNodeData.payload_length (data : GraphDbIndexNodeData) :
    data.payload.length = Int32.ofNat indexNodeDataSize := by
  rw [Payload.length, payload_bytes, bytes_length]

def indexPayload (i : ℕ) : Payload where
  bytes := GraphDbIndexNodeData.bytes ⟨graphDataBlockId, UInt32.ofNat i, 0⟩
  ne_nil := by
    rw [← List.length_pos_iff, GraphDbIndexNodeData.bytes_length]
    decide
  length_lt := by
    rw [GraphDbIndexNodeData.bytes_length]
    decide

theorem indexPayload_bytes (i : ℕ) : (indexPayload i).bytes =
    GraphDbIndexNodeData.bytes ⟨graphDataBlockId, UInt32.ofNat i, 0⟩ := rfl

/-- Only the last 32 bits of the place are in the record. -/
theorem indexPayload_toNat (i : ℕ) : indexPayload (UInt32.ofNat i).toNat = indexPayload i := by
  apply Payload.ext
  rw [indexPayload_bytes, indexPayload_bytes, UInt32.ofNat_toNat]

/-- Entering a new node into the index is an append to the index block. -/
theorem run_graphIndexNode (e : InsertEnv) {indexBlock : SeaBlock}
    (hconn : conn.indexBlock = .held indexBlock) (indexData : GraphDbIndexNodeData)
    (nodeBlockId : UInt64) (nodeRecordId : UInt32) (info : NodeInfo) (t : FileTree SeaPath) :
    (graphIndexNode e conn indexData nodeBlockId nodeRecordId false info).run serve t =
      ((seaBlockAppend e.index e.indexFaults indexBlock indexData.payload.bytes
        indexData.payload.length).run serve t).map
        (fun s => ((if s.1.1.ret = 0 then ⟨0, conn.indexBlockId, s.1.1.recordId.getD 0, info⟩
          else ⟨s.1.1.ret, nodeBlockId, nodeRecordId, info⟩,
          { conn with indexBlock := .held s.1.2 }), s.2)) := by
  rw [indexData.payload_length, indexData.payload_bytes]
  unfold graphIndexNode
  simp only [hconn]
  rw [Program.run_bind]
  cases (seaBlockAppend e.index e.indexFaults indexBlock _ _).run serve t with
  | none => rfl
  | some s =>
    by_cases hret : s.1.1.ret = 0
    · simp [hret]
    · simp [hret]

/-- For a node that exists it is an update of its entry. -/
theorem run_graphIndexNode_exist (e : InsertEnv) {indexBlock : SeaBlock}
    (hconn : conn.indexBlock = .held indexBlock) (indexData : GraphDbIndexNodeData)
    (nodeBlockId : UInt64) (nodeRecordId : UInt32) (info : NodeInfo) (t : FileTree SeaPath) :
    (graphIndexNode e conn indexData nodeBlockId nodeRecordId true info).run serve t =
      ((seaBlockUpdate e.index e.indexFaults.frame indexBlock nodeRecordId
        indexData.payload.bytes indexData.payload.length).run serve t).map
        (fun s => ((⟨s.1.1, nodeBlockId, nodeRecordId, info⟩,
          { conn with indexBlock := .held s.1.2 }), s.2)) := by
  rw [indexData.payload_length, indexData.payload_bytes]
  unfold graphIndexNode
  simp only [hconn]
  rw [Program.run_bind]
  cases (seaBlockUpdate e.index e.indexFaults.frame indexBlock _ _ _).run serve t with
  | none => rfl
  | some s => rfl

/-- The data block stores `old`, under whatever header, or is not there yet. -/
def DataStored (t : FileTree SeaPath) (dir : String) (old : List Payload) : Prop :=
  (Absent t dir graphDataBlockId ∧ old = []) ∨ ∃ hdr, Image t dir graphDataBlockId hdr old

/-- The place that the next node of a connection is told to have in the data block. -/
def nextDataId (conn : GraphDbConn) : UInt32 :=
  match conn.dataBlock with
  | none => 0
  | some block => block.index.header.count

/-- An insert through the connection gets at the data block: it is held, or the
address of the new handle fits into an `int`. -/
def Reaches (conn : GraphDbConn) (address : UInt64) : Prop :=
  conn.dataBlock = none → Survives address

/-- The first insert of a connection creates the data block, later ones hold it. -/
theorem run_graphDataBlock (now : UInt64) {address : UInt64} (haddress : Reaches conn address)
    (hdir : conn.dir = dir) (hdata : DataStored t dir old)
    (hon : ∀ block ∈ conn.dataBlock, block.On dir graphDataBlockId) :
    ∃ block t', (graphDataBlock ⟨now, .whole⟩ address conn graphDataBlockId).run serve t =
        some (.held block, t') ∧ block.On dir graphDataBlockId ∧
      block.index.header.count = nextDataId conn ∧ DataStored t' dir old ∧
      AgreeOff t t' dir graphDataBlockId := by
  unfold graphDataBlock
  rw [nextDataId]
  cases hconn : conn.dataBlock with
  | some block =>
    exact ⟨block, t, rfl, hon block hconn, rfl, hdata, AgreeOff.refl _ _ _⟩
  | none =>
    obtain ⟨t', hcreate, himg, hagree⟩ : ∃ t', (seaBlockCreate ⟨now, .whole⟩ dir graphDataBlockId
        graphMaxSize graphMaxCount).run serve t = some (0, t') ∧
        Image t' dir graphDataBlockId (createdHeader graphDataBlockId graphMaxCount now) old ∧
        AgreeOff t t' dir graphDataBlockId := by
      rcases hdata with ⟨habs, rfl⟩ | ⟨hdr, himg⟩
      · obtain ⟨t', hcreate, himg, hagree, -⟩ :=
          run_seaBlockCreate_absent habs now graphMaxSize graphMaxCount
        exact ⟨t', hcreate, himg, hagree⟩
      · exact run_seaBlockCreate_over himg now graphMaxSize graphMaxCount
    refine ⟨openedBlock dir graphDataBlockId (createdHeader graphDataBlockId graphMaxCount now),
      t', ?_, openedBlock_on dir graphDataBlockId _, rfl, Or.inr ⟨_, himg⟩, hagree⟩
    simp only [hdir]
    rw [Program.run_bind_of_run serve hcreate]
    exact run_seaBlockOpenInt (haddress hconn) (run_seaBlockOpen himg)

/-- An append to the data block that has returned zero has found it there. -/
theorem DataStored.appended {block block' : SeaBlock} {a : Ambient} {faults : Faults}
    {p : Payload} {result : AppendResult} (h : DataStored t dir old)
    (hon : block.On dir graphDataBlockId)
    (hrun : (seaBlockAppend a faults block p.bytes p.length).run serve t =
      some ((result, block'), t')) (hret : result.ret = 0) :
    Appended t t' dir graphDataBlockId block.index.header old a p result block' := by
  rcases h with ⟨habs, -⟩ | ⟨hdr, himg⟩
  · exact absurd hret (append_data_missing hon habs.1 hrun)
  · exact appended_of_ret hon himg hrun hret

/-- What an insert that has returned zero leaves: both blocks have one record
more, and the two handles hold the headers that are on disk. -/
structure Inserted (t t' : FileTree SeaPath) (dir : String) (id : UInt64) (recs old : List Payload)
    (conn : GraphDbConn) (node : GraphNode) (conn' : GraphDbConn) : Prop where
  dir_eq : conn'.dir = dir
  index : ∃ block block', conn.indexBlock = .held block ∧ conn'.indexBlock = .held block' ∧
    Held t' dir id block' (recs ++ [indexPayload (nextDataId conn).toNat]) ∧
    block'.index.header.count = block.index.header.count + 1
  data : ∃ block', conn'.dataBlock = some block' ∧
    Held t' dir graphDataBlockId block' (old ++ [node.payload]) ∧
    block'.index.header.count = nextDataId conn + 1
  elsewhere : ∀ id', id' ≠ id → id' ≠ graphDataBlockId →
    t' (.data dir id') = t (.data dir id') ∧ t' (.index dir id') = t (.index dir id')

/-- On a handle that counts the index's records and a data block that numbers
from `n`, the insert is numbered `n` and both go on counting. -/
theorem Inserted.counts {node : GraphNode} {block : SeaBlock} {n : ℕ}
    (h : Inserted t t' dir id recs old conn node conn') (hconn : conn.indexBlock = .held block)
    (hcounts : Counts t dir id block recs) (hnext : nextDataId conn = UInt32.ofNat n) :
    (∃ block', conn'.indexBlock = .held block' ∧
        Counts t' dir id block' (recs ++ [indexPayload n])) ∧
      ∃ block', conn'.dataBlock = some block' ∧
        Held t' dir graphDataBlockId block' (old ++ [node.payload]) ∧
        block'.index.header.count = UInt32.ofNat (n + 1) := by
  obtain ⟨block₁, indexBlock, hconn₁, hindex, hheld, hcount⟩ := h.index
  obtain rfl : block = block₁ := Handle.held.inj (hconn.symm.trans hconn₁)
  obtain ⟨dataBlock, hdata, hheldData, hcountData⟩ := h.data
  rw [hnext, indexPayload_toNat] at hheld
  refine ⟨⟨indexBlock, hindex, hheld, ?_⟩, ⟨dataBlock, hdata, hheldData, ?_⟩⟩
  · rw [hcount, hcounts.count, List.length_append, List.length_singleton, UInt32.ofNat_add]
    rfl
  · rw [hcountData, hnext, UInt32.ofNat_add]
    rfl

/-- An insert is an append to the data block and, where that returns zero and there
is a handle on the index block, an append to it of the place that the first has told;
it returns what the second of them returns. -/
theorem insert_split {e : InsertEnv} {dataBlock : SeaBlock} {t₁ : FileTree SeaPath}
    (hblock : (graphDataBlock e.create e.dataAt conn graphDataBlockId).run serve t =
      some (.held dataBlock, t₁)) {node : GraphNode} {out : UInt64 × UInt32} {result : InsertResult}
    (hrun : (graphDbInsert e conn node.info node.attrs node.attrCount node.edges node.edgeCount
      out.1 out.2).run serve t = some ((result, conn'), t')) :
    ∃ stored dataBlock' t₂, (seaBlockAppend e.data e.dataFaults dataBlock node.payload.bytes
        node.payload.length).run serve t₁ = some ((stored, dataBlock'), t₂) ∧
      ((result.ret ≠ 0 ∧ conn' = { conn with dataBlock := some dataBlock' } ∧ t' = t₂) ∨
        (stored.ret = 0 ∧ ∃ entry : GraphDbIndexNodeData, ∃ indexBlock entered indexBlock',
          entry = ⟨graphDataBlockId, stored.recordId.getD 0, 0⟩ ∧
          conn.indexBlock = .held indexBlock ∧
          (seaBlockAppend e.index e.indexFaults indexBlock entry.payload.bytes
            entry.payload.length).run serve t₂ = some ((entered, indexBlock'), t') ∧
          result.ret = entered.ret ∧
          (entered.ret = 0 → result.nodeRecordId = entered.recordId.getD 0) ∧
          conn' = { conn with
            dataBlock := some dataBlock', indexBlock := .held indexBlock' })) := by
  unfold graphDbInsert graphDbInsertInternal at hrun
  simp only [Bool.false_eq_true, if_false] at hrun
  rw [Program.run_bind_of_run serve hblock] at hrun
  simp only [] at hrun
  rw [Program.run_bind, run_createNodeData] at hrun
  obtain ⟨s, hcreate, hrun⟩ := Option.bind_eq_some_iff.mp hrun
  obtain ⟨⟨⟨stored, dataBlock'⟩, t₂⟩, happend, rfl⟩ := Option.map_eq_some_iff.mp hcreate
  refine ⟨stored, dataBlock', t₂, happend, ?_⟩
  by_cases hstored : stored.ret = 0
  · simp only [hstored, if_true, ne_eq, not_true_eq_false, if_false] at hrun
    cases hconn : conn.indexBlock with
    | astray =>
      simp only [graphIndexNode, hconn] at hrun
      exact absurd hrun (by simp)
    | null =>
      simp only [graphIndexNode, hconn] at hrun
      obtain ⟨hpair, rfl⟩ := Prod.mk.inj (Option.some.inj hrun)
      obtain ⟨rfl, rfl⟩ := Prod.mk.inj hpair
      exact Or.inl ⟨show EINVAL ≠ 0 by decide, rfl, rfl⟩
    | held indexBlock =>
      rw [run_graphIndexNode e (by exact hconn)] at hrun
      obtain ⟨⟨⟨entered, indexBlock'⟩, t₃⟩, hentry, hsame⟩ := Option.map_eq_some_iff.mp hrun
      obtain ⟨hpair, rfl⟩ := Prod.mk.inj hsame
      obtain ⟨rfl, rfl⟩ := Prod.mk.inj hpair
      refine Or.inr ⟨hstored, _, indexBlock, entered, indexBlock', rfl, rfl, hentry, ?_, ?_, rfl⟩
      · by_cases hentered : entered.ret = 0
        · rw [if_pos hentered, hentered]
        · rw [if_neg hentered]
      · intro hentered
        rw [if_pos hentered]
  · simp only [hstored, if_false, ne_eq, not_false_eq_true, if_true] at hrun
    obtain ⟨hpair, rfl⟩ := Prod.mk.inj (Option.some.inj hrun)
    obtain ⟨rfl, rfl⟩ := Prod.mk.inj hpair
    exact Or.inl ⟨hstored, rfl, rfl⟩

/-- Without the data block, or without the index block, an insert does not return zero. -/
theorem graphDbInsert_returns {e : InsertEnv}
    (h : ¬ Reaches conn e.dataAt ∨ ∀ block, conn.indexBlock ≠ .held block) (node : NodeInfo)
    (attrInfo : List GraphAttrInfo) (attrCount : UInt16) (edgeInfo : List GraphEdgeInfo)
    (edgeCount : UInt16) (nodeBlockId : UInt64) (nodeRecordId : UInt32) :
    (graphDbInsert e conn node attrInfo attrCount edgeInfo edgeCount nodeBlockId
      nodeRecordId).Returns fun out => out.1.ret ≠ 0 := by
  unfold graphDbInsert graphDbInsertInternal
  simp only [Bool.false_eq_true, if_false]
  have hdata : (graphDataBlock e.create e.dataAt conn graphDataBlockId).Returns fun handle =>
      ∀ block, handle = .held block → ∀ block, conn.indexBlock ≠ .held block := by
    rcases h with hreaches | hindex
    · obtain ⟨hnone, hcut⟩ := Classical.not_imp.mp hreaches
      unfold graphDataBlock
      rw [hnone]
      refine Program.returns_bind _ fun _ => ?_
      refine (seaBlockOpenInt_returns hcut _ _).mono fun handle hnot block hheld => ?_
      exact absurd hheld (hnot block)
    · exact Program.returns_of_forall (fun _ _ _ => hindex) _
  refine Program.Returns.bind (hdata.mono fun handle hheld => ?_)
  cases handle with
  | null => exact Nat.succ_ne_zero 21
  | astray => trivial
  | held dataBlock =>
    refine Program.returns_bind _ fun stored => ?_
    split
    · assumption
    · unfold graphIndexNode
      cases hconn : conn.indexBlock with
      | null => exact Nat.succ_ne_zero 21
      | astray => trivial
      | held block => exact absurd hconn (hheld dataBlock rfl block)

/-- Such an insert names the record of the index block by the count of the handle on it. -/
theorem inserted_of_ret {indexBlock : SeaBlock} (hdir : conn.dir = dir)
    (hne : id ≠ graphDataBlockId) (hconn : conn.indexBlock = .held indexBlock)
    (hindex : indexBlock.On dir id) (himg : Image t dir id hdr recs)
    (hdata : DataStored t dir old) (hon : ∀ block ∈ conn.dataBlock, block.On dir graphDataBlockId)
    {now dataAt : UInt64} {data index : Ambient} {dataFaults indexFaults : Faults}
    {node : GraphNode} {out : UInt64 × UInt32} {result : InsertResult}
    (hrun : (graphDbInsert ⟨⟨now, .whole⟩, dataAt, data, dataFaults, index, indexFaults⟩ conn
      node.info node.attrs node.attrCount node.edges node.edgeCount out.1 out.2).run serve t =
        some ((result, conn'), t')) (hret : result.ret = 0) :
    result.nodeRecordId = indexBlock.index.header.count ∧
      Inserted t t' dir id recs old conn node conn' := by
  have hreaches : Reaches conn dataAt := by
    by_contra hcut
    have hreturns := graphDbInsert_returns
      (e := ⟨⟨now, .whole⟩, dataAt, data, dataFaults, index, indexFaults⟩) (Or.inl hcut) node.info
      node.attrs node.attrCount node.edges node.edgeCount out.1 out.2
    exact hreturns.run hrun hret
  obtain ⟨dataBlock, t₁, hblock, hon₁, hcount₁, hdata₁, hagree₁⟩ :=
    run_graphDataBlock now hreaches hdir hdata hon
  obtain ⟨stored, dataBlock', t₂, happend, hcases⟩ := insert_split (by exact hblock) hrun
  rcases hcases with ⟨hfailed, -⟩ |
    ⟨hstored, entry, block, entered, indexBlock', hentry_eq, hheld, hentry, hsame, hid, rfl⟩
  · exact absurd hret hfailed
  obtain rfl : indexBlock = block := Handle.held.inj (hconn.symm.trans hheld)
  have hentered : entered.ret = 0 := hsame.symm.trans hret
  have happ := hdata₁.appended hon₁ happend hstored
  have hplace : entry.payload = indexPayload (nextDataId conn).toNat := by
    apply Payload.ext
    rw [hentry_eq, happ.result_eq, indexPayload_bytes, UInt32.ofNat_toNat, ← hcount₁]
    rfl
  rw [hplace] at hentry
  have hsep : ¬ (dir = dir ∧ id = graphDataBlockId) := fun hsame => hne hsame.2
  have himg₂ := happ.agree.image hsep (hagree₁.image hsep himg)
  have hent := appended_of_ret hindex himg₂ hentry hentered
  refine ⟨?_, ⟨hdir, ⟨indexBlock, indexBlock', hconn, rfl, hent.held, ?_⟩,
    ⟨dataBlock', rfl, ?_, ?_⟩, ?_⟩⟩
  · rw [hid hentered, hent.result_eq]
    rfl
  · rw [hent.header]
    rfl
  · exact ⟨happ.held.1, hent.agree.image (fun hsame => hne hsame.2.symm) happ.held.2⟩
  · rw [happ.header, ← hcount₁]
    rfl
  · intro id' hne₁ hne₂
    have hpaths : ∀ path : SeaPath, path ≠ .data dir id → path ≠ .index dir id →
        path ≠ .data dir graphDataBlockId → path ≠ .index dir graphDataBlockId →
        t' path = t path := by
      intro path hdata hindex hdata' hindex'
      rw [hent.agree path hdata hindex, happ.agree path hdata' hindex',
        hagree₁ path hdata' hindex']
    exact ⟨hpaths _ (by simpa using hne₁) (by simp) (by simpa using hne₂) (by simp),
      hpaths _ (by simp) (by simpa using hne₁) (by simp) (by simpa using hne₂)⟩

/-- An insert all of whose calls complete in full. `dataAt` is where a handle on
the data block is, if one is opened, and `out` what the caller's output arguments
hold. -/
structure GraphInsert where
  now : UInt64
  dataAt : UInt64
  data : Ambient
  index : Ambient
  node : GraphNode
  out : UInt64 × UInt32

/-- The files, the connection, and the nodes inserted with their record ids. -/
structure GraphSession where
  tree : FileTree SeaPath
  conn : GraphDbConn
  inserted : List (UInt32 × GraphNode)

/-- An insert that returns zero. -/
def graphStep (s : GraphSession) (op : GraphInsert) : Option GraphSession :=
  match (graphDbInsert ⟨⟨op.now, .whole⟩, op.dataAt, op.data, .none, op.index, .none⟩ s.conn
      op.node.info op.node.attrs op.node.attrCount op.node.edges op.node.edgeCount op.out.1
      op.out.2).run serve s.tree with
  | some ((⟨0, _, recordId, _⟩, conn), tree) =>
    some ⟨tree, conn, s.inserted ++ [(recordId, op.node)]⟩
  | _ => none

def lowAddress : UInt64 := 4096

theorem survives_lowAddress : Survives lowAddress := by decide

def GraphInsert.low (op : GraphInsert) : GraphInsert := { op with dataAt := lowAddress }

/-- An insert that gets at the data block does the same with the handle elsewhere. -/
theorem graphStep_low {s : GraphSession} {op : GraphInsert} (h : Reaches s.conn op.dataAt) :
    graphStep s op = graphStep s op.low := by
  have hdata : ∀ e : CreateEnv, graphDataBlock e op.dataAt s.conn graphDataBlockId =
      graphDataBlock e op.low.dataAt s.conn graphDataBlockId := by
    intro e
    unfold graphDataBlock
    cases hconn : s.conn.dataBlock with
    | some block => rfl
    | none => rw [seaBlockOpenInt_congr (h hconn) (show Survives op.low.dataAt from
        survives_lowAddress)]
  unfold graphStep graphDbInsert graphDbInsertInternal
  simp only [Bool.false_eq_true, if_false, hdata]
  rfl

theorem graphDbInsert_holds (e : InsertEnv) (conn : GraphDbConn) (node : NodeInfo)
    (attrInfo : List GraphAttrInfo) (attrCount : UInt16) (edgeInfo : List GraphEdgeInfo)
    (edgeCount : UInt16) (nodeBlockId : UInt64) (nodeRecordId : UInt32) :
    (graphDbInsert e conn node attrInfo attrCount edgeInfo edgeCount nodeBlockId
      nodeRecordId).Returns fun out => out.1.ret = 0 → out.2.dataBlock ≠ none := by
  unfold graphDbInsert graphDbInsertInternal
  simp only [Bool.false_eq_true, if_false]
  refine Program.returns_bind _ fun handle => ?_
  cases handle with
  | null => exact fun hzero => absurd hzero (Nat.succ_ne_zero 21)
  | astray => trivial
  | held dataBlock =>
    refine Program.returns_bind _ fun stored => ?_
    split
    · rename_i hret
      exact fun hzero => absurd hzero hret
    · unfold graphIndexNode
      cases conn.indexBlock with
      | null => exact fun _ => Option.some_ne_none _
      | astray => trivial
      | held indexBlock =>
        refine Program.returns_bind _ fun entered => ?_
        dsimp only
        split
        · exact fun _ => Option.some_ne_none _
        · exact fun _ => Option.some_ne_none _

theorem graphStep_holds {s s' : GraphSession} {op : GraphInsert}
    (hstep : graphStep s op = some s') : s'.conn.dataBlock ≠ none := by
  unfold graphStep at hstep
  split at hstep
  · rename_i hrun
    obtain rfl := Option.some.inj hstep
    exact (graphDbInsert_holds _ _ _ _ _ _ _ _ _).run hrun rfl
  · exact absurd hstep (by simp)

/-- Without one of its two blocks an insert does not come off. -/
theorem graphStep_none {s : GraphSession} {op : GraphInsert}
    (h : ¬ Reaches s.conn op.dataAt ∨ ∀ block, s.conn.indexBlock ≠ .held block) :
    graphStep s op = none := by
  unfold graphStep
  split
  · rename_i hrun
    have hreturns := graphDbInsert_returns
      (e := ⟨⟨op.now, .whole⟩, op.dataAt, op.data, .none, op.index, .none⟩) h op.node.info
      op.node.attrs op.node.attrCount op.node.edges op.node.edgeCount op.out.1 op.out.2
    exact absurd rfl (hreturns.run hrun)
  · rfl

/-- With a data block the later addresses make no difference. -/
theorem graphSteps_low {s : GraphSession} (ops : List GraphInsert)
    (h : s.conn.dataBlock ≠ none) :
    runSteps graphStep s ops = runSteps graphStep s (ops.map GraphInsert.low) := by
  induction ops generalizing s with
  | nil => rfl
  | cons op ops ih =>
    rw [List.map_cons, runSteps, runSteps, graphStep_low fun hnone => absurd hnone h]
    cases hstep : graphStep s op.low with
    | none => rfl
    | some s' => exact ih (graphStep_holds hstep)

/-- A step of a run has made its record in both blocks, under the id it notes down. -/
theorem graphStep_inserted {s s' : GraphSession} {op : GraphInsert} {indexBlock : SeaBlock}
    (hdir : s.conn.dir = dir) (hne : id ≠ graphDataBlockId)
    (hconn : s.conn.indexBlock = .held indexBlock) (hindex : indexBlock.On dir id)
    (himg : Image s.tree dir id hdr recs) (hdata : DataStored s.tree dir old)
    (hon : ∀ block ∈ s.conn.dataBlock, block.On dir graphDataBlockId)
    (hstep : graphStep s op = some s') :
    s'.inserted = s.inserted ++ [(indexBlock.index.header.count, op.node)] ∧
      Inserted s.tree s'.tree dir id recs old s.conn op.node s'.conn := by
  unfold graphStep at hstep
  split at hstep
  · rename_i blockId recordId info conn tree hrun
    obtain rfl := Option.some.inj hstep
    obtain ⟨rfl, hins⟩ := inserted_of_ret hdir hne hconn hindex himg hdata hon hrun rfl
    exact ⟨rfl, hins⟩
  · exact absurd hstep (by simp)

end SeaStore.Graph
