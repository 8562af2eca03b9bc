import SeaStore.Graph.Insert

/-!
The two-level lookup. The index block and the data block grow in step: the
`i`-th node is record `i` of the data block, and record `i` of the index block
says so. A database's index block is never the data block, since its id is made
of hexadecimal digits.
-/
namespace SeaStore.Graph

open Posix Block

variable {t t' : FileTree SeaPath} {dir : String} {id : UInt64} {recs : List Payload}
  {conn : GraphDbConn}

def indexRecords (n : ℕ) : List Payload := (List.range n).map indexPayload

theorem indexRecords_succ (n : ℕ) : indexRecords (n + 1) = indexRecords n ++ [indexPayload n] := by
  rw [indexRecords, indexRecords, List.range_succ, List.map_append, List.map_singleton]

@[simp] theorem indexRecords_length (n : ℕ) : (indexRecords n).length = n := by
  simp [indexRecords]

/-- A connection through which `nodes` have been inserted. -/
structure Filled (t : FileTree SeaPath) (dir : String) (id : UInt64) (nodes : List GraphNode)
    (conn : GraphDbConn) : Prop where
  dir_eq : conn.dir = dir
  index : ∃ block, conn.indexBlock = .held block ∧
    Counts t dir id block (indexRecords nodes.length)
  data : (conn.dataBlock = none ∧ nodes = [] ∧ Absent t dir graphDataBlockId) ∨
    ∃ block, conn.dataBlock = some block ∧
      Counts t dir graphDataBlockId block (nodes.map GraphNode.payload)

variable (digest : String → Word.Digest)

/-- A database is opened, filled and closed: the files, and the nodes inserted
with their record ids. -/
def graphSession (openAt : UInt64) (dir dbName : String) (t : FileTree SeaPath)
    (ops : List GraphInsert) : Option (FileTree SeaPath × List (UInt32 × GraphNode)) := do
  let (conn, tree) ← (graphDbOpen digest openAt dir dbName).run serve t
  let s ← runSteps graphStep ⟨tree, conn, []⟩ ops
  let ((), tree) ← (graphDbClose s.conn).run serve s.tree
  return (tree, s.inserted)

/-- A database is created and filled. -/
def graphRun (openAt : UInt64) (dir dbName : String) (t : FileTree SeaPath) (now : UInt64)
    (ops : List GraphInsert) : Option (FileTree SeaPath × List (UInt32 × GraphNode)) := do
  let (ret, tree) ← (graphDbCreate digest ⟨now, .whole⟩ dir dbName).run serve t
  if ret ≠ 0 then none
  graphSession digest openAt dir dbName tree ops

/-- A lookup that is the first operation of a new connection, with the addresses
of the two handles that it opens. -/
def findFresh (handlesAt : UInt64 × UInt64) (dir dbName : String) (garbage : Vector UInt8 16)
    (nodeBlockId : UInt64) (nodeRecordId : UInt32) : Prog (Option Bytes) := do
  let conn ← graphDbOpen digest handlesAt.1 dir dbName
  let (found, _) ← graphDbFind garbage handlesAt.2 conn nodeBlockId nodeRecordId
  return found

/-- The first lookup of a new connection returns exactly the node. -/
def Recovered (handlesAt : UInt64 × UInt64) (t : FileTree SeaPath) (dir dbName : String)
    (recordId : UInt32) (node : GraphNode) : Prop :=
  ∀ (garbage : Vector UInt8 16) (nodeBlockId : UInt64),
    (findFresh digest handlesAt dir dbName garbage nodeBlockId recordId).run serve t =
      some (some node.bytes, t)

def BothSurvive (handlesAt : UInt64 × UInt64) : Prop :=
  Survives handlesAt.1 ∧ Survives handlesAt.2

/-- The handles of a session are got at; where it inserts nothing, that on the
index block may also be taken for null. -/
def SessionSurvives (openAt : UInt64) (ops : List GraphInsert) : Prop :=
  (Survives openAt ∨ ops = [] ∧ asInt openAt = 0) ∧ ∀ op ∈ ops.head?, Survives op.dataAt

variable {digest} {dbName : String} {nodes : List GraphNode}

/-- A name's index block is not the data block. -/
theorem graphDbGetBlockId_ne (digest : String → Word.Digest) (dbName : String) :
    graphDbGetBlockId digest dbName ≠ graphDataBlockId := by
  intro h
  have hlow := (Word.nameBlockId_bounds digest dbName).1
  rw [show Word.nameBlockId digest dbName = graphDataBlockId from h] at hlow
  exact absurd hlow (by decide)

theorem run_graphDbOpen {opened : Option SeaBlock} (openAt : UInt64)
    (hdir : dir.utf8ByteSize < connDirSize)
    (hopen : (seaBlockOpen dir (graphDbGetBlockId digest dbName)).run serve t =
      some (opened, t)) :
    (graphDbOpen digest openAt dir dbName).run serve t =
      some (⟨dir, graphDbGetBlockId digest dbName, .ofInt openAt opened, none⟩, t) := by
  unfold graphDbOpen seaBlockOpenInt
  simp only []
  rw [Program.run_bind, Program.run_bind_of_run serve hopen, Program.run_pure, Option.bind_some,
    if_neg (Nat.not_le.mpr hdir)]
  rfl

theorem run_graphDbOpen_held {opened : SeaBlock} {openAt : UInt64} (hopenAt : Survives openAt)
    (hdir : dir.utf8ByteSize < connDirSize)
    (hopen : (seaBlockOpen dir (graphDbGetBlockId digest dbName)).run serve t =
      some (some opened, t)) :
    (graphDbOpen digest openAt dir dbName).run serve t =
      some (⟨dir, graphDbGetBlockId digest dbName, .held opened, none⟩, t) := by
  rw [run_graphDbOpen openAt hdir hopen, Handle.ofInt_held hopenAt]

theorem dir_of_graphDbOpen {openAt : UInt64}
    (hrun : (graphDbOpen digest openAt dir dbName).run serve t = some (conn, t')) :
    dir.utf8ByteSize < connDirSize := by
  by_contra hdir
  unfold graphDbOpen at hrun
  simp only [] at hrun
  rw [Program.run_bind] at hrun
  obtain ⟨opened, -, hrun⟩ := Option.bind_eq_some_iff.mp hrun
  rw [if_pos (Nat.not_lt.mp hdir)] at hrun
  exact absurd hrun (by simp)

theorem run_graphDbClose (hconn : conn.indexBlock ≠ .astray) :
    (graphDbClose conn).run serve t = some ((), t) := by
  unfold graphDbClose
  cases hindex : conn.indexBlock with
  | astray => exact absurd hindex hconn
  | null =>
    cases conn.dataBlock with
    | none => rfl
    | some block => rfl
  | held indexBlock =>
    cases conn.dataBlock with
    | none => rfl
    | some block => rfl

theorem run_graphDbClose_astray (hconn : conn.indexBlock = .astray) :
    (graphDbClose conn).run serve t = none := by
  unfold graphDbClose
  rw [hconn]
  rfl

/-- A lookup reads the entry, opens the block it names, and reads the record. -/
theorem run_graphDbFind {indexBlock indexBlock' block block' : SeaBlock}
    {nodeRecordId : UInt32} {entry : GraphDbIndexNodeData} {result : QueryResult}
    {blockAt : UInt64} (hblockAt : Survives blockAt) (hconn : conn.indexBlock = .held indexBlock)
    (hentry : (seaBlockQueryByRecordId indexBlock nodeRecordId (Int32.ofNat indexNodeDataSize)).run
      serve t = some ((⟨0, some entry.bytes⟩, indexBlock'), t))
    (hopen : (seaBlockOpen conn.dir entry.blockId).run serve t = some (some block, t))
    (hquery : (seaBlockQueryByRecordId block entry.recordId findBufLen).run serve t =
      some ((result, block'), t))
    (garbage : Vector UInt8 16) (nodeBlockId : UInt64) :
    (graphDbFind garbage blockAt conn nodeBlockId nodeRecordId).run serve t =
      some ((if result.ret = 0 then result.out else none,
        { conn with indexBlock := .held indexBlock' }), t) := by
  have hread : entry.bytes ++ garbage.toList.drop entry.bytes.length = entry.bytes := by
    rw [List.drop_eq_nil_of_le (by simp [indexNodeDataSize]), List.append_nil]
  unfold graphDbFind
  simp only [hconn]
  rw [Program.run_bind_of_run serve hentry]
  simp only [ne_eq, not_true_eq_false, if_false, Option.getD_some, hread,
    GraphDbIndexNodeData.ofBytes_bytes]
  rw [Program.run_bind_of_run serve (run_seaBlockOpenInt hblockAt hopen)]
  simp only []
  rw [Program.run_bind_of_run serve hquery]
  by_cases hret : result.ret = 0
  · simp only [hret, not_true_eq_false, if_false, if_true]
    rfl
  · simp only [hret, not_false_eq_true, if_true, if_false]
    rfl

/-- The first lookup of a new connection through an entry that is counted
answers what the data block has at the place that the entry names. -/
theorem run_findFresh_entry {hdr hdr' : SeaBlockIndexHeader} {recs' : List Payload}
    {handlesAt : UInt64 × UInt64} (hat : BothSurvive handlesAt)
    (hdir : dir.utf8ByteSize < connDirSize)
    (himg : Image t dir (graphDbGetBlockId digest dbName) hdr recs)
    (himg' : Image t dir graphDataBlockId hdr' recs') {nodeRecordId : UInt32} {i : ℕ}
    (hcount : nodeRecordId.toNat < hdr.count.toNat)
    (hentry : recs[nodeRecordId.toNat]? = some (indexPayload i)) (garbage : Vector UInt8 16)
    (nodeBlockId : UInt64) :
    (findFresh digest handlesAt dir dbName garbage nodeBlockId nodeRecordId).run serve t =
      some (if (lookup hdr'.count recs' (UInt32.ofNat i) findBufLen).ret = 0 then
        (lookup hdr'.count recs' (UInt32.ofNat i) findBufLen).out else none, t) := by
  have hlookup : lookup hdr.count recs nodeRecordId (Int32.ofNat indexNodeDataSize) =
      ⟨0, some (indexPayload i).bytes⟩ := by
    apply lookup_of_get hcount hentry
    rw [indexPayload_bytes, GraphDbIndexNodeData.bytes_length]
    decide
  obtain ⟨block, hquery⟩ := run_queryOpened himg nodeRecordId (Int32.ofNat indexNodeDataSize)
  obtain ⟨block', hquery'⟩ := run_queryOpened himg' (UInt32.ofNat i) findBufLen
  rw [hlookup, indexPayload_bytes] at hquery
  have hconn : (GraphDbConn.mk dir (graphDbGetBlockId digest dbName)
      (.held (openedBlock dir (graphDbGetBlockId digest dbName) hdr)) none).indexBlock =
        .held (openedBlock dir (graphDbGetBlockId digest dbName) hdr) := rfl
  have hfind := run_graphDbFind hat.2 hconn hquery (run_seaBlockOpen himg') hquery' garbage
    nodeBlockId
  unfold findFresh
  rw [Program.run_bind_of_run serve (run_graphDbOpen_held hat.1 hdir (run_seaBlockOpen himg)),
    Program.run_bind_of_run serve hfind]
  rfl

theorem run_findFresh_past {opened : SeaBlock} {nodeRecordId : UInt32}
    {handlesAt : UInt64 × UInt64} (hat : BothSurvive handlesAt)
    (hdir : dir.utf8ByteSize < connDirSize)
    (hopen : (seaBlockOpen dir (graphDbGetBlockId digest dbName)).run serve t =
      some (some opened, t)) (hcount : opened.index.header.count ≤ nodeRecordId)
    (garbage : Vector UInt8 16) (nodeBlockId : UInt64) :
    (findFresh digest handlesAt dir dbName garbage nodeBlockId nodeRecordId).run serve t =
      some (none, t) := by
  have hquery : (seaBlockQueryByRecordId opened nodeRecordId
      (Int32.ofNat indexNodeDataSize)).run serve t = some ((⟨EINVAL, none⟩, opened), t) := by
    unfold seaBlockQueryByRecordId
    rw [Program.run_bind_of_run serve (run_indexQuery_past hcount)]
    rfl
  unfold findFresh
  rw [Program.run_bind_of_run serve (run_graphDbOpen_held hat.1 hdir hopen)]
  unfold graphDbFind
  simp only []
  rw [Program.run_bind, Program.run_bind_of_run serve hquery]
  rfl

/-- A lookup that does not get at one of its handles finds nothing. -/
theorem findFresh_returns {handlesAt : UInt64 × UInt64} (h : ¬ BothSurvive handlesAt)
    (garbage : Vector UInt8 16) (nodeBlockId : UInt64) (nodeRecordId : UInt32) :
    (findFresh digest handlesAt dir dbName garbage nodeBlockId nodeRecordId).Returns
      fun found => found = none := by
  have hopened : (graphDbOpen digest handlesAt.1 dir dbName).Returns fun conn =>
      ∀ block, conn.indexBlock = .held block → ¬ Survives handlesAt.2 := by
    unfold graphDbOpen
    apply Program.Returns.bind
    by_cases hat : Survives handlesAt.1
    · refine Program.returns_of_forall (fun handle => ?_) _
      split
      · trivial
      · exact fun _ _ hat' => h ⟨hat, hat'⟩
    · refine (seaBlockOpenInt_returns hat _ _).mono fun handle hnot => ?_
      split
      · trivial
      · exact fun block hheld => absurd hheld (hnot block)
  refine Program.Returns.bind (hopened.mono fun conn hcut => ?_)
  apply Program.Returns.bind
  unfold graphDbFind
  cases hconn : conn.indexBlock with
  | null => trivial
  | astray => trivial
  | held block =>
    refine Program.returns_bind _ fun entry => ?_
    dsimp only
    split
    · rfl
    · refine Program.Returns.bind ((seaBlockOpenInt_returns (hcut block hconn) _ _).mono
        fun handle hnot => ?_)
      cases handle with
      | null => rfl
      | astray => trivial
      | held dataBlock => exact absurd rfl (hnot dataBlock)

/-- Where both handles are got at, it does not matter where they are. -/
theorem findFresh_congr {handlesAt handlesAt' : UInt64 × UInt64} (h : BothSurvive handlesAt)
    (h' : BothSurvive handlesAt') (dir dbName : String) (garbage : Vector UInt8 16)
    (nodeBlockId : UInt64) (nodeRecordId : UInt32) :
    findFresh digest handlesAt dir dbName garbage nodeBlockId nodeRecordId =
      findFresh digest handlesAt' dir dbName garbage nodeBlockId nodeRecordId := by
  unfold findFresh graphDbOpen graphDbFind
  simp only [seaBlockOpenInt_congr h.1 h'.1, seaBlockOpenInt_congr h.2 h'.2]

theorem Recovered.survive {handlesAt : UInt64 × UInt64} {recordId : UInt32} {node : GraphNode}
    (h : Recovered digest handlesAt t dir dbName recordId node) : BothSurvive handlesAt := by
  by_contra hcut
  have hnone := (findFresh_returns hcut (Vector.replicate 16 0) 0 recordId).run
    (h (Vector.replicate 16 0) 0)
  exact absurd hnone (Option.some_ne_none _)

/-- A node that fits the buffer is found through an entry exactly when it is
stored, and counted, at the place that the entry names. -/
theorem found_node_iff {count : UInt32} {i : UInt32} {node : GraphNode}
    (hsize : node.size ≤ 2 ^ 20) :
    (if (lookup count recs i findBufLen).ret = 0 then (lookup count recs i findBufLen).out
      else none) = some node.bytes ↔
        i.toNat < count.toNat ∧ recs[i.toNat]? = some node.payload := by
  have hbuf : (node.payload.bytes.length : ℤ) ≤ findBufLen.toInt := by
    have hmax : findBufLen.toInt = 2 ^ 20 := by decide
    rw [hmax, GraphNode.payload, node.bytes_length]
    exact_mod_cast hsize
  rw [← lookup_eq_iff hbuf]
  generalize lookup count recs i findBufLen = result
  obtain ⟨ret, out⟩ := result
  by_cases hret : ret = 0
  · simp [hret, GraphNode.payload]
  · simp [hret]

/-- What two blocks that have grown in step store for `nodes`. -/
structure Stocked (t : FileTree SeaPath) (dir : String) (id : UInt64) (nodes : List GraphNode) :
    Prop where
  index : ∃ hdr, hdr.count = UInt32.ofNat nodes.length ∧
    Image t dir id hdr (indexRecords nodes.length)
  data : nodes ≠ [] → ∃ hdr, hdr.count = UInt32.ofNat nodes.length ∧
    Image t dir graphDataBlockId hdr (nodes.map GraphNode.payload)

theorem Filled.stocked {conn : GraphDbConn} (h : Filled t dir id nodes conn) :
    Stocked t dir id nodes := by
  obtain ⟨block, -, hcounts⟩ := h.index
  refine ⟨⟨_, by simpa using hcounts.count, hcounts.held.2⟩, fun hne => ?_⟩
  rcases h.data with ⟨-, hnil, -⟩ | ⟨block', -, hcounts'⟩
  · exact absurd hnil hne
  · exact ⟨_, by simpa using hcounts'.count, hcounts'.held.2⟩

/-- The first lookup of a new connection finds the node of an id, if the node
is not too large for its buffer. -/
theorem Stocked.recovered {handlesAt : UInt64 × UInt64}
    (h : Stocked t dir (graphDbGetBlockId digest dbName) nodes) (hat : BothSurvive handlesAt)
    (hdir : dir.utf8ByteSize < connDirSize) (hfit : nodes.length < 2 ^ 32) {i : ℕ}
    {node : GraphNode} (hnode : nodes[i]? = some node) (hsize : node.size ≤ 2 ^ 20) :
    Recovered digest handlesAt t dir dbName (UInt32.ofNat i) node := by
  intro garbage nodeBlockId
  obtain ⟨hi, -⟩ := List.getElem?_eq_some_iff.mp hnode
  have hid : (UInt32.ofNat i).toNat = i := by
    rw [UInt32.toNat_ofNat', Nat.mod_eq_of_lt (by omega)]
  obtain ⟨hdr, hcount, himg⟩ := h.index
  obtain ⟨hdr', hcount', himg'⟩ := h.data (List.ne_nil_of_length_pos (by omega))
  have hcounted : ∀ header : SeaBlockIndexHeader, header.count = UInt32.ofNat nodes.length →
      (UInt32.ofNat i).toNat < header.count.toNat := by
    intro header hheader
    rw [hheader, hid, UInt32.toNat_ofNat', Nat.mod_eq_of_lt hfit]
    exact hi
  have hentry : (indexRecords nodes.length)[(UInt32.ofNat i).toNat]? = some (indexPayload i) := by
    rw [hid, indexRecords, List.getElem?_map, List.getElem?_range hi, Option.map_some]
  have hrecord : (nodes.map GraphNode.payload)[(UInt32.ofNat i).toNat]? = some node.payload := by
    rw [hid, List.getElem?_map, hnode, Option.map_some]
  rw [run_findFresh_entry hat hdir himg himg' (hcounted hdr hcount) hentry,
    (found_node_iff hsize).mpr ⟨hcounted hdr' hcount', hrecord⟩]

theorem Filled.dataBlock {conn : GraphDbConn} (h : Filled t dir id nodes conn) :
    DataStored t dir (nodes.map GraphNode.payload) ∧
      (∀ block ∈ conn.dataBlock, block.On dir graphDataBlockId) ∧
      nextDataId conn = UInt32.ofNat nodes.length := by
  rw [nextDataId]
  rcases h.data with ⟨hnone, rfl, habs⟩ | ⟨block, hsome, hcounts⟩
  · rw [hnone]
    exact ⟨Or.inl ⟨habs, rfl⟩, by simp, rfl⟩
  · rw [hsome]
    refine ⟨Or.inr ⟨_, hcounts.held.2⟩, ?_, by simpa using hcounts.count⟩
    rintro _ ⟨⟩
    exact hcounts.held.1

theorem graphStep_filled {s s' : GraphSession} {op : GraphInsert}
    (h : Filled s.tree dir id nodes s.conn) (hne : id ≠ graphDataBlockId)
    (hstep : graphStep s op = some s') :
    Filled s'.tree dir id (nodes ++ [op.node]) s'.conn ∧
      s'.inserted = s.inserted ++ [(UInt32.ofNat nodes.length, op.node)] := by
  obtain ⟨block, hconn, hcounts⟩ := h.index
  obtain ⟨hdata, hon, hnext⟩ := h.dataBlock
  have hcount : block.index.header.count = UInt32.ofNat nodes.length := by
    simpa using hcounts.count
  obtain ⟨hinserted, hins⟩ := graphStep_inserted h.dir_eq hne hconn hcounts.held.1 hcounts.held.2
    hdata hon hstep
  obtain ⟨⟨indexBlock, hindex, hcounts'⟩, dataBlock, hdataBlock, hheld, hcountData⟩ :=
    hins.counts hconn hcounts hnext
  refine ⟨⟨hins.dir_eq, ⟨indexBlock, hindex, ?_⟩, Or.inr ⟨dataBlock, hdataBlock, ?_, ?_⟩⟩,
    by rw [hinserted, hcount]⟩
  · rw [List.length_append, List.length_singleton, indexRecords_succ]
    exact hcounts'
  · rw [List.map_append, List.map_singleton]
    exact hheld
  · rw [hcountData, List.length_map, List.length_append, List.length_singleton]

def numberedNodes (nodes : List GraphNode) : List (UInt32 × GraphNode) :=
  nodes.mapIdx fun i node => (UInt32.ofNat i, node)

theorem numberedNodes_concat (nodes : List GraphNode) (node : GraphNode) :
    numberedNodes (nodes ++ [node]) =
      numberedNodes nodes ++ [(UInt32.ofNat nodes.length, node)] := by
  simp [numberedNodes, List.mapIdx_append]

theorem mem_numberedNodes {recordId : UInt32} {node : GraphNode}
    (h : (recordId, node) ∈ numberedNodes nodes) :
    ∃ i, nodes[i]? = some node ∧ recordId = UInt32.ofNat i := by
  obtain ⟨i, hi, heq⟩ := List.mem_mapIdx.mp h
  obtain ⟨rfl, rfl⟩ := Prod.mk.inj heq
  exact ⟨i, List.getElem?_eq_getElem hi, rfl⟩

theorem numberedNodes_snd (nodes : List GraphNode) :
    (numberedNodes nodes).map Prod.snd = nodes := by
  apply List.ext_getElem
  · simp [numberedNodes]
  · intro i h₁ h₂
    simp [numberedNodes]

theorem graphSteps_filled {s s' : GraphSession} {ops : List GraphInsert}
    (h : Filled s.tree dir id [] s.conn) (hins : s.inserted = []) (hne : id ≠ graphDataBlockId)
    (hrun : runSteps graphStep s ops = some s') :
    Filled s'.tree dir id (ops.map GraphInsert.node) s'.conn ∧
      s'.inserted = numberedNodes (ops.map GraphInsert.node) := by
  refine runSteps_invariant (fun past s =>
    Filled s.tree dir id (past.map GraphInsert.node) s.conn ∧
      s.inserted = numberedNodes (past.map GraphInsert.node)) ?_ ⟨h, hins⟩ hrun
  intro past op s₁ s₂ ⟨hfilled, hinserted⟩ hstep
  obtain ⟨hfilled', hinserted'⟩ := graphStep_filled hfilled hne hstep
  rw [List.map_append, List.map_singleton]
  exact ⟨hfilled', by rw [hinserted', hinserted, numberedNodes_concat]⟩

/-- A session that gets at its handles is the same with the handles elsewhere. -/
theorem graphSession_low {block : SeaBlock}
    (hopen : (seaBlockOpen dir (graphDbGetBlockId digest dbName)).run serve t =
      some (some block, t)) {openAt : UInt64} {ops : List GraphInsert}
    (h : SessionSurvives openAt ops) : graphSession digest openAt dir dbName t ops =
      graphSession digest lowAddress dir dbName t (ops.map GraphInsert.low) := by
  by_cases hdir : dir.utf8ByteSize < connDirSize
  swap
  · have hnone : ∀ address, (graphDbOpen digest address dir dbName).run serve t = none := by
      intro address
      by_contra hrun
      obtain ⟨⟨conn, t'⟩, hrun⟩ := Option.ne_none_iff_exists'.mp hrun
      exact hdir (dir_of_graphDbOpen hrun)
    simp [graphSession, hnone]
  have hlow : (graphDbOpen digest lowAddress dir dbName).run serve t =
      some (⟨dir, graphDbGetBlockId digest dbName, .held block, none⟩, t) :=
    run_graphDbOpen_held survives_lowAddress hdir hopen
  obtain ⟨hindex, hfirst⟩ := h
  unfold graphSession
  rw [run_graphDbOpen openAt hdir hopen, hlow]
  simp only [Option.bind_eq_bind, Option.bind_some]
  cases ops with
  | nil =>
    have hclose : Handle.ofInt openAt (some block) ≠ .astray :=
      (Handle.ofInt_ne_astray_iff block).mpr (hindex.imp_right And.right)
    simp only [runSteps, List.map_nil, Option.bind_some]
    rw [run_graphDbClose hclose, run_graphDbClose (by simp)]
  | cons op ops =>
    have hat : Survives openAt := hindex.resolve_right fun hnil => by simp at hnil
    have hdata : Survives op.dataAt := hfirst op rfl
    rw [Handle.ofInt_held hat, List.map_cons, runSteps, runSteps, graphStep_low fun _ => hdata]
    cases hstep : graphStep ⟨t, ⟨dir, graphDbGetBlockId digest dbName, .held block, none⟩, []⟩
        op.low with
    | none => rfl
    | some s => rw [Option.bind_some, Option.bind_some, graphSteps_low ops (graphStep_holds hstep)]

/-- One that does not is a crash, or an insert of it fails. -/
theorem graphSession_survives {block : SeaBlock}
    (hopen : (seaBlockOpen dir (graphDbGetBlockId digest dbName)).run serve t =
      some (some block, t)) {openAt : UInt64} {ops : List GraphInsert}
    {s : FileTree SeaPath × List (UInt32 × GraphNode)}
    (hrun : graphSession digest openAt dir dbName t ops = some s) : SessionSurvives openAt ops := by
  obtain ⟨⟨conn, t'⟩, hconn, hrun⟩ := Option.bind_eq_some_iff.mp hrun
  rw [run_graphDbOpen openAt (dir_of_graphDbOpen hconn) hopen] at hconn
  obtain ⟨rfl, rfl⟩ := Prod.mk.inj (Option.some.inj hconn)
  obtain ⟨s', hsteps, hclose⟩ := Option.bind_eq_some_iff.mp hrun
  cases ops with
  | nil =>
    obtain rfl := Option.some.inj hsteps
    refine ⟨?_, by simp⟩
    have hstays : Handle.ofInt openAt (some block) ≠ .astray := by
      intro hastray
      rw [run_graphDbClose_astray hastray] at hclose
      exact absurd hclose (by simp)
    exact ((Handle.ofInt_ne_astray_iff block).mp hstays).imp_right fun hnull => ⟨rfl, hnull⟩
  | cons op ops =>
    obtain ⟨s₁, hstep, -⟩ := Option.bind_eq_some_iff.mp hsteps
    have hnone := mt graphStep_none (hstep ▸ Option.some_ne_none s₁)
    rw [not_or, not_not] at hnone
    refine ⟨Or.inl ?_, ?_⟩
    · by_contra hcut
      exact hnone.2 (Handle.ofInt_ne_held hcut (some block))
    · rintro _ ⟨⟩
      exact hnone.1 rfl

/-- So a session that comes to its end is the steps of one with low handles. -/
theorem graphSession_steps {block : SeaBlock}
    (hopen : (seaBlockOpen dir (graphDbGetBlockId digest dbName)).run serve t =
      some (some block, t)) {openAt : UInt64} {ops : List GraphInsert}
    {s : FileTree SeaPath × List (UInt32 × GraphNode)}
    (hrun : graphSession digest openAt dir dbName t ops = some s) :
    ∃ s', runSteps graphStep ⟨t, ⟨dir, graphDbGetBlockId digest dbName, .held block, none⟩, []⟩
        (ops.map GraphInsert.low) = some s' ∧
      (s'.conn.indexBlock ≠ .astray → s = (s'.tree, s'.inserted)) := by
  rw [graphSession_low hopen (graphSession_survives hopen hrun)] at hrun
  obtain ⟨⟨conn, t'⟩, hconn, hrun⟩ := Option.bind_eq_some_iff.mp hrun
  rw [run_graphDbOpen_held survives_lowAddress (dir_of_graphDbOpen hconn) hopen] at hconn
  obtain ⟨rfl, rfl⟩ := Prod.mk.inj (Option.some.inj hconn)
  obtain ⟨s', hsteps, hclose⟩ := Option.bind_eq_some_iff.mp hrun
  refine ⟨s', hsteps, fun hindex => ?_⟩
  rw [run_graphDbClose hindex] at hclose
  exact (Option.some.inj hclose).symm

theorem map_low_node (ops : List GraphInsert) :
    (ops.map GraphInsert.low).map GraphInsert.node = ops.map GraphInsert.node := by
  rw [List.map_map]
  rfl

/-- What a session on a new database leaves. -/
theorem graphSession_filled {openAt : UInt64} {hdr : SeaBlockIndexHeader} {ops : List GraphInsert}
    {s : FileTree SeaPath × List (UInt32 × GraphNode)} (hcount : hdr.count = 0)
    (himg : Image t dir (graphDbGetBlockId digest dbName) hdr [])
    (hdata : Absent t dir graphDataBlockId)
    (hrun : graphSession digest openAt dir dbName t ops = some s) :
    Stocked s.1 dir (graphDbGetBlockId digest dbName) (ops.map GraphInsert.node) ∧
      s.2 = numberedNodes (ops.map GraphInsert.node) := by
  obtain ⟨s', hsteps, hend⟩ := graphSession_steps (run_seaBlockOpen himg) hrun
  have hstart : Filled t dir (graphDbGetBlockId digest dbName) []
      ⟨dir, graphDbGetBlockId digest dbName, .held (openedBlock dir _ hdr), none⟩ :=
    ⟨rfl, ⟨_, rfl, ⟨openedBlock_on dir _ hdr, himg⟩, hcount⟩, Or.inl ⟨rfl, rfl, hdata⟩⟩
  obtain ⟨hfilled, hinserted⟩ :=
    graphSteps_filled hstart rfl (graphDbGetBlockId_ne digest dbName) hsteps
  obtain ⟨indexBlock, hindex, -⟩ := hfilled.index
  obtain rfl := hend (by rw [hindex]; simp)
  rw [map_low_node] at hfilled hinserted
  exact ⟨hfilled.stocked, hinserted⟩

/-- The run of a database, from the files that its creation leaves. -/
theorem graphRun_eq (now : UInt64) (hindex : Absent t dir (graphDbGetBlockId digest dbName)) :
    ∃ t', Image t' dir (graphDbGetBlockId digest dbName)
        (createdHeader (graphDbGetBlockId digest dbName) graphMaxCount now) [] ∧
      AgreeOff t t' dir (graphDbGetBlockId digest dbName) ∧
      ∀ openAt ops, graphRun digest openAt dir dbName t now ops =
        graphSession digest openAt dir dbName t' ops := by
  obtain ⟨t', hcreate, himg, hagree, -⟩ :=
    run_seaBlockCreate_absent hindex now graphMaxSize graphMaxCount
  refine ⟨t', himg, hagree, fun openAt ops => ?_⟩
  unfold graphRun graphDbCreate
  simp only [hcreate, Option.bind_eq_bind, Option.bind_some, ne_eq, not_true_eq_false, if_false]

/-- A run of fewer than `2 ^ 32` inserts, which all succeed with the handles at the
lower end of the memory, comes to its end with the handles where they are, and every
node that is not too large for a lookup is found under the id that its insert returned,
exactly when the addresses of all the handles survive. -/
theorem graphRun_finds_iff {openAt now : UInt64} {ops : List GraphInsert}
    {findAt : UInt32 → UInt64 × UInt64} {s₀ : FileTree SeaPath × List (UInt32 × GraphNode)}
    (hindex : Absent t dir (graphDbGetBlockId digest dbName))
    (hdata : Absent t dir graphDataBlockId) (hfit : ops.length < 2 ^ 32)
    (hrun : graphRun digest lowAddress dir dbName t now (ops.map GraphInsert.low) = some s₀) :
    (∃ s, graphRun digest openAt dir dbName t now ops = some s ∧
        s.2.map Prod.snd = ops.map GraphInsert.node ∧
        ∀ recordId node, (recordId, node) ∈ s.2 → node.size ≤ 2 ^ 20 →
          Recovered digest (findAt recordId) s.1 dir dbName recordId node) ↔
      SessionSurvives openAt ops ∧ ∀ i op, ops[i]? = some op → op.node.size ≤ 2 ^ 20 →
        BothSurvive (findAt (UInt32.ofNat i)) := by
  obtain ⟨t', himg, hagree, hrun_eq⟩ := graphRun_eq now hindex
  have hdata' : Absent t' dir graphDataBlockId :=
    hagree.absent (fun hsame => graphDbGetBlockId_ne digest dbName hsame.2.symm) hdata
  have hopen := run_seaBlockOpen himg
  rw [hrun_eq] at hrun
  constructor
  · rintro ⟨s, hs, -, hfound⟩
    rw [hrun_eq] at hs
    obtain ⟨-, hinserted⟩ := graphSession_filled rfl himg hdata' hs
    refine ⟨graphSession_survives hopen hs, fun i op hop hsize => ?_⟩
    refine (hfound (UInt32.ofNat i) op.node ?_ hsize).survive
    rw [hinserted, numberedNodes]
    apply List.mem_of_getElem? (i := i)
    rw [List.getElem?_mapIdx, List.getElem?_map, hop]
    rfl
  · rintro ⟨hsession, hfind⟩
    have hs := (graphSession_low hopen hsession).trans hrun
    obtain ⟨hstocked, hinserted⟩ := graphSession_filled rfl himg hdata' hs
    obtain ⟨⟨conn, t₁⟩, hconn, -⟩ := Option.bind_eq_some_iff.mp hrun
    refine ⟨s₀, (hrun_eq openAt ops).trans hs, by rw [hinserted, numberedNodes_snd], ?_⟩
    intro recordId node hmem hsize
    rw [hinserted] at hmem
    obtain ⟨i, hnode, rfl⟩ := mem_numberedNodes hmem
    obtain ⟨op, hop, rfl⟩ : ∃ op, ops[i]? = some op ∧ op.node = node := by
      rw [List.getElem?_map] at hnode
      exact Option.map_eq_some_iff.mp hnode
    exact hstocked.recovered (hfind i op hop hsize) (dir_of_graphDbOpen hconn)
      (by rw [List.length_map]; exact hfit) hnode hsize

def graphHash : Word.Digest :=
  #v[0xf8, 0xb0, 0xb9, 0x24, 0xeb, 0xd7, 0x04, 0x6d, 0xbf, 0xa8, 0x5a, 0x85, 0x6e, 0x46, 0x82,
    0xc8]

/-- A node with an edge and an attribute, and one with neither, with a handle at `dataAt`. -/
def twoInserts (dataAt : UInt64) : List GraphInsert :=
  [⟨0, dataAt, .clear 0, .clear 0, ⟨⟨1, 2, 0, 0⟩, [⟨1, 7⟩],
      [⟨.replicate 16 65, .replicate 16 66⟩], by decide, by decide⟩, (0, 0)⟩,
    ⟨0, dataAt, .clear 0, .clear 0, ⟨⟨3, 4, 0, 0⟩, [], [], by decide, by decide⟩, (0, 0)⟩]

/-- They are found when no handle is above the lower two gigabytes. -/
theorem graphRun_finds_two :
    ∃ s, graphRun (fun _ => graphHash) 0x8412a0 "" "graph" (fun _ => none) 0
        (twoInserts 0x7fffffe0) = some s ∧
      s.2.map Prod.snd = (twoInserts 0x7fffffe0).map GraphInsert.node ∧
      ∀ recordId node, (recordId, node) ∈ s.2 → node.size ≤ 2 ^ 20 →
        Recovered (fun _ => graphHash) (0x8412a0, 0x8413c0) s.1 "" "graph" recordId node := by
  obtain ⟨s, hs⟩ := Option.isSome_iff_exists.mp (show (graphRun (fun _ => graphHash) lowAddress ""
    "graph" (fun _ => none) 0 ((twoInserts 0x7fffffe0).map GraphInsert.low)).isSome by
      decide +kernel)
  refine (graphRun_finds_iff ⟨rfl, rfl⟩ ⟨rfl, rfl⟩ (by decide) hs).mpr
    ⟨⟨Or.inl (by decide), ?_⟩, fun _ _ _ _ => ⟨by decide, by decide⟩⟩
  rintro _ ⟨⟩
  decide

/-- An ordinary address of a heap does not survive: the first insert crashes. -/
theorem graphRun_crashes :
    (graphRun (fun _ => graphHash) lowAddress "" "graph" (fun _ => none) 0
        ((twoInserts 0x5555555592a0).map GraphInsert.low)).isSome ∧
      graphRun (fun _ => graphHash) 0x5555555584a0 "" "graph" (fun _ => none) 0
        (twoInserts 0x5555555592a0) = none := by
  constructor <;> decide +kernel

end SeaStore.Graph
