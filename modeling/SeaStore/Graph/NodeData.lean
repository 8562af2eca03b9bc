import SeaStore.Graph.Insert

/-!
Storing nodes in a block and finding them again. The writer takes a buffer as
large as the two counts ask for, the reader always one of a MiB, and the query
between them refuses a record that its buffer has no room for. A node is found
exactly when it takes no more than that, as long as the ids do not run out.
-/
namespace SeaStore.Graph

open Posix Block

/-- A block at work, and the nodes stored through it with the ids they were given. -/
structure NodeWriter where
  tree : FileTree SeaPath
  block : SeaBlock
  told : List (UInt32 × GraphNode)

/-- A node is stored: every call completes, and zero is returned with an id. -/
def nodeStep (s : NodeWriter) (op : Ambient × GraphNode) : Option NodeWriter :=
  match (createNodeData op.1 .none s.block op.2.info op.2.attrs op.2.attrCount op.2.edges
      op.2.edgeCount).run serve s.tree with
  | some ((⟨0, some nodeId, _⟩, block), tree) => some ⟨tree, block, s.told ++ [(nodeId, op.2)]⟩
  | _ => none

/-- A block is created where there was none, opened, and given the nodes. -/
def nodeRun (dir : String) (id : UInt64) (t : FileTree SeaPath) (now maxSize maxCount : UInt64)
    (ops : List (Ambient × GraphNode)) : Option NodeWriter := do
  let w ← newWriter dir id t now maxSize maxCount
  runSteps nodeStep ⟨w.tree, w.block, []⟩ ops

/-- A lookup that is the only operation of a handle. -/
def findNodeFresh (dir : String) (id : UInt64) (nodeId : UInt32) : Prog FindNodeResult := do
  match ← seaBlockOpen dir id with
  | none => return ⟨none, none⟩
  | some block =>
    let (result, block) ← findNodeData block nodeId
    seaBlockClose block
    return result

/-- A freshly opened handle finds a node with the counts of `node`, and says how much it takes. -/
def Found (t : FileTree SeaPath) (dir : String) (id : UInt64) (nodeId : UInt32)
    (node : GraphNode) : Prop :=
  ∃ read len, (findNodeFresh dir id nodeId).run serve t = some (⟨some read, some len⟩, t) ∧
    len.toNat = 16 + 5 * node.edges.length + 32 * node.attrs.length ∧
    (NodeInfo.ofBytes read).edgeCount.toNat = node.edges.length ∧
    (NodeInfo.ofBytes read).attrCount.toNat = node.attrs.length

def GraphNode.SameCounts (node node' : GraphNode) : Prop :=
  node.edges.length = node'.edges.length ∧ node.attrs.length = node'.attrs.length

/-- The `i`-th of `nodes` fits the reader's buffer; the block counts its id, which is
`i` in 32 bits, and has a node of the same counts there. -/
def Findable (nodes : List GraphNode) (i : ℕ) (node : GraphNode) : Prop :=
  node.size ≤ 2 ^ 20 ∧ i % 2 ^ 32 < nodes.length % 2 ^ 32 ∧
    ∃ node', nodes[i % 2 ^ 32]? = some node' ∧ node'.SameCounts node

variable {t : FileTree SeaPath} {dir : String} {id : UInt64} {hdr : SeaBlockIndexHeader}
  {recs : List Payload} {nodes : List GraphNode}

namespace GraphNode

variable (node : GraphNode)

/-- What a reader takes from the front of the record are the caller's fields and the two counts. -/
theorem ofBytes_bytes : NodeInfo.ofBytes node.bytes = node.counted := by
  have hbytes : node.bytes = node.counted.bytes ++
      (node.edges.flatMap GraphEdgeInfo.bytes ++ node.attrs.flatMap GraphAttrInfo.bytes) := by
    rw [counted, edgeCount_toUInt32, attrCount_toUInt32, ← List.append_assoc]
    rfl
  rw [hbytes, NodeInfo.ofBytes_append]

theorem toNat_counted_edgeCount : node.counted.edgeCount.toNat = node.edges.length := by
  rw [counted, UInt16.toNat_toUInt32, toNat_edgeCount]

theorem toNat_counted_attrCount : node.counted.attrCount.toNat = node.attrs.length := by
  rw [counted, UInt16.toNat_toUInt32, toNat_attrCount]

theorem toNat_size : (UInt32.ofNat node.bytes.length).toNat = node.size :=
  node.payload.toNat_length.trans node.bytes_length

theorem SameCounts.size_eq {node node' : GraphNode} (h : node'.SameCounts node) :
    node'.size = node.size := by
  rw [size, size, h.1, h.2]

/-- The query refuses the record when it is longer than the reader's buffer. -/
theorem nodeBufLen_lt_iff :
    nodeBufLen.toUInt32 < UInt32.ofNat node.payload.bytes.length ↔ 2 ^ 20 < node.size := by
  rw [UInt32.lt_iff_toNat_lt, payload, toNat_size]
  exact Iff.rfl

end GraphNode

def foundNode (result : QueryResult) : FindNodeResult where
  info := if result.ret = 0 then result.out else none
  retBufLen := result.out.map fun read => UInt32.ofNat read.length

theorem run_findNodeData {block block' : SeaBlock} {t' : FileTree SeaPath} {nodeId : UInt32}
    {result : QueryResult} (hquery : (seaBlockQueryByRecordId block nodeId nodeBufLen).run serve t =
      some ((result, block'), t')) :
    (findNodeData block nodeId).run serve t = some ((foundNode result, block'), t') := by
  unfold findNodeData
  rw [Program.run_bind_of_run serve hquery, foundNode]
  by_cases hret : result.ret = 0
  · simp [hret]
  · simp [hret]

/-- A lookup on a fresh handle is a query for a buffer of one MiB. -/
theorem run_findNodeFresh (himg : Image t dir id hdr recs) (nodeId : UInt32) :
    (findNodeFresh dir id nodeId).run serve t =
      some (foundNode (lookup hdr.count recs nodeId nodeBufLen), t) := by
  obtain ⟨block', hquery⟩ := run_queryOpened himg nodeId nodeBufLen
  unfold findNodeFresh
  rw [Program.run_bind_of_run serve (run_seaBlockOpen himg)]
  simp only
  rw [Program.run_bind_of_run serve (run_findNodeData hquery)]
  rfl

theorem foundNode_eq_iff {result : QueryResult} {read : Bytes} {len : UInt32} :
    foundNode result = ⟨some read, some len⟩ ↔
      result = ⟨0, some read⟩ ∧ len = UInt32.ofNat read.length := by
  obtain ⟨ret, out⟩ := result
  rw [foundNode, FindNodeResult.mk.injEq, QueryResult.mk.injEq]
  constructor
  · rintro ⟨hinfo, hlen⟩
    split at hinfo
    · rename_i hret
      obtain rfl : out = some read := hinfo
      exact ⟨⟨hret, rfl⟩, (Option.some.inj hlen).symm⟩
    · exact absurd hinfo (by simp)
  · rintro ⟨⟨rfl, rfl⟩, rfl⟩
    exact ⟨rfl, rfl⟩

theorem lookup_node {count : UInt32} (nodeId : UInt32) {read : Bytes} (hread : read ≠ []) :
    lookup count (nodes.map GraphNode.payload) nodeId nodeBufLen = ⟨0, some read⟩ ↔
      nodeId.toNat < count.toNat ∧
        ∃ node', nodes[nodeId.toNat]? = some node' ∧ node'.size ≤ 2 ^ 20 ∧ read = node'.bytes := by
  unfold lookup
  by_cases hpast : count ≤ nodeId
  · rw [if_pos hpast]
    rw [UInt32.le_iff_toNat_le] at hpast
    simp only [QueryResult.mk.injEq, EINVAL]
    omega
  rw [if_neg hpast]
  rw [UInt32.le_iff_toNat_le] at hpast
  have hcount : nodeId.toNat < count.toNat := by omega
  cases hnode : nodes[nodeId.toNat]? with
  | none => simp [hnode, hread.symm]
  | some node =>
    simp only [List.getElem?_map, hnode, Option.map_some, Option.some.injEq, exists_eq_left']
    by_cases hlarge : 2 ^ 20 < node.size
    · rw [if_pos (node.nodeBufLen_lt_iff.mpr hlarge)]
      simp only [QueryResult.mk.injEq, ENOENT]
      omega
    · rw [if_neg (fun h => hlarge (node.nodeBufLen_lt_iff.mp h))]
      have hsmall := Nat.not_lt.mp hlarge
      simp only [QueryResult.mk.injEq, Option.some.injEq, true_and, hcount, hsmall]
      exact eq_comm

/-- In a block that stores nodes, one is found under an id when the id is counted and
a node of the same counts, no larger than the buffer, is stored there. -/
theorem found_iff (himg : Image t dir id hdr (nodes.map GraphNode.payload)) (nodeId : UInt32)
    (node : GraphNode) :
    Found t dir id nodeId node ↔ node.size ≤ 2 ^ 20 ∧ nodeId.toNat < hdr.count.toNat ∧
      ∃ node', nodes[nodeId.toNat]? = some node' ∧ node'.SameCounts node := by
  unfold Found
  rw [run_findNodeFresh himg]
  constructor
  · rintro ⟨read, len, hrun, hlen, hedges, hattrs⟩
    obtain ⟨hlookup, rfl⟩ := foundNode_eq_iff.mp (Prod.mk.inj (Option.some.inj hrun)).1
    have hne : read ≠ [] := by
      rintro rfl
      have hzero : (UInt32.ofNat ([] : Bytes).length).toNat = 0 := rfl
      omega
    obtain ⟨hcount, node', hnode, hsmall, rfl⟩ := (lookup_node nodeId hne).mp hlookup
    rw [node'.ofBytes_bytes] at hedges hattrs
    rw [node'.toNat_counted_edgeCount] at hedges
    rw [node'.toNat_counted_attrCount] at hattrs
    have hsame : node'.SameCounts node := ⟨hedges, hattrs⟩
    exact ⟨hsame.size_eq ▸ hsmall, hcount, node', hnode, hsame⟩
  · rintro ⟨hsmall, hcount, node', hnode, hsame⟩
    rw [← hsame.size_eq] at hsmall
    have hlookup :=
      (lookup_node nodeId node'.payload.ne_nil).mpr ⟨hcount, node', hnode, hsmall, rfl⟩
    refine ⟨node'.bytes, UInt32.ofNat node'.bytes.length, ?_, ?_, ?_, ?_⟩
    · exact congrArg (fun found => some (found, t)) (foundNode_eq_iff.mpr ⟨hlookup, rfl⟩)
    · rw [node'.toNat_size]
      exact hsame.size_eq
    · rw [node'.ofBytes_bytes, node'.toNat_counted_edgeCount]
      exact hsame.1
    · rw [node'.ofBytes_bytes, node'.toNat_counted_attrCount]
      exact hsame.2

/-- A node that is stored is appended as one record, under the next id. -/
theorem nodeStep_appended {s s' : NodeWriter} {op : Ambient × GraphNode} (hon : s.block.On dir id)
    (himg : Image s.tree dir id hdr recs) (hstep : nodeStep s op = some s') :
    s'.told = s.told ++ [(s.block.index.header.count, op.2)] ∧
      ∃ result, Appended s.tree s'.tree dir id s.block.index.header recs op.1 op.2.payload result
        s'.block := by
  unfold nodeStep at hstep
  split at hstep
  · rename_i nodeId info block tree hrun
    obtain rfl := Option.some.inj hstep
    rw [run_createNodeData] at hrun
    obtain ⟨⟨⟨result, block'⟩, tree'⟩, happend, hsame⟩ := Option.map_eq_some_iff.mp hrun
    obtain ⟨hpair, rfl⟩ := Prod.mk.inj hsame
    obtain ⟨hdata, rfl⟩ := Prod.mk.inj hpair
    obtain ⟨hret, hid, -⟩ := NodeDataResult.mk.inj hdata
    have happ := appended_of_ret hon himg happend hret
    rw [if_pos hret, happ.result_eq] at hid
    obtain rfl := Option.some.inj hid
    exact ⟨rfl, result, happ⟩
  · exact absurd hstep (by simp)

/-- The block stores the nodes in order, and they were told their places in 32 bits. -/
theorem nodeRun_stored {now maxSize maxCount : UInt64} {ops : List (Ambient × GraphNode)}
    {s : NodeWriter} (habs : Absent t dir id)
    (hrun : nodeRun dir id t now maxSize maxCount ops = some s) :
    Counts s.tree dir id s.block ((ops.map Prod.snd).map GraphNode.payload) ∧
      s.told = (ops.map Prod.snd).mapIdx fun i node => (UInt32.ofNat i, node) := by
  obtain ⟨w, hnew, hsteps⟩ := Option.bind_eq_some_iff.mp hrun
  obtain ⟨hheld, hzero, -⟩ := newWriter_held habs hnew
  refine runSteps_invariant (fun past s =>
    Counts s.tree dir id s.block ((past.map Prod.snd).map GraphNode.payload) ∧
      s.told = (past.map Prod.snd).mapIdx fun i node => (UInt32.ofNat i, node)) ?_
    ⟨⟨hheld, hzero⟩, rfl⟩ hsteps
  rintro past op s s' ⟨hcounts, htold⟩ hstep
  obtain ⟨htold', result, happ⟩ := nodeStep_appended hcounts.held.1 hcounts.held.2 hstep
  refine ⟨by simpa using happ.counts hcounts, ?_⟩
  rw [htold', htold, hcounts.count]
  simp [List.mapIdx_append]

/-- While the ids do not run out, only the size of the node matters. -/
theorem findable_iff_size {i : ℕ} {node : GraphNode} (hfit : nodes.length < 2 ^ 32)
    (hnode : nodes[i]? = some node) : Findable nodes i node ↔ node.size ≤ 2 ^ 20 := by
  obtain ⟨hi, -⟩ := List.getElem?_eq_some_iff.mp hnode
  rw [Findable, Nat.mod_eq_of_lt hfit, Nat.mod_eq_of_lt (Nat.lt_trans hi hfit)]
  exact ⟨fun h => h.1, fun h => ⟨h, hi, node, hnode, rfl, rfl⟩⟩

/-- After any run, the lookup of a node that was stored succeeds exactly when the node
fits the reader's buffer and its id still stands for it or for one of the same counts. -/
theorem nodeRun_found_iff {now maxSize maxCount : UInt64} {ops : List (Ambient × GraphNode)}
    {s : NodeWriter} (habs : Absent t dir id)
    (hrun : nodeRun dir id t now maxSize maxCount ops = some s) {i : ℕ} {nodeId : UInt32}
    {node : GraphNode} (htold : s.told[i]? = some (nodeId, node)) :
    Found s.tree dir id nodeId node ↔ Findable (ops.map Prod.snd) i node := by
  obtain ⟨hcounts, hall⟩ := nodeRun_stored habs hrun
  rw [hall, List.getElem?_mapIdx] at htold
  obtain ⟨node', -, hsame⟩ := Option.map_eq_some_iff.mp htold
  obtain ⟨rfl, rfl⟩ := Prod.mk.inj hsame
  rw [found_iff hcounts.held.2, hcounts.count, UInt32.toNat_ofNat', UInt32.toNat_ofNat',
    List.length_map]
  exact Iff.rfl

def plainAttr : GraphAttrInfo := ⟨Vector.replicate 16 97, Vector.replicate 16 98⟩

theorem largeAttrs_lt : (List.replicate 32768 plainAttr).length < 2 ^ 16 := by
  rw [List.length_replicate]
  decide

/-- A node of 32768 attributes, which take 16 bytes more than the reader's buffer. -/
def largeNode : GraphNode :=
  ⟨⟨0, 0, 0, 0⟩, [], List.replicate 32768 plainAttr, nil_lt, largeAttrs_lt⟩

theorem largeNode_size : largeNode.size = 2 ^ 20 + 16 := by
  have hattrs : largeNode.attrs.length = 32768 := List.length_replicate
  have hedges : largeNode.edges.length = 0 := rfl
  rw [GraphNode.size, hattrs, hedges]
  decide

theorem nodeRun_first (habs : Absent t dir id) (now maxSize maxCount : UInt64) (a : Ambient)
    (node : GraphNode) : ∃ s, nodeRun dir id t now maxSize maxCount [(a, node)] = some s := by
  obtain ⟨t₁, hcreate, himg, -, hempty⟩ := createStep_absent habs now maxSize maxCount
  obtain ⟨f, g, entries, hf, hg, hst⟩ := himg
  obtain rfl := Option.some.inj (hf.symm.trans hempty)
  have hsize := node.size_lt
  have hroom : File.empty.size + node.payload.bytes.length + 16 ≤ offMax := by
    rw [GraphNode.payload, node.bytes_length]
    simp only [File.size, File.empty, List.length_nil, offMax]
    omega
  obtain ⟨result, block', t₂, happend, happ⟩ :=
    append_whole (openedBlock_on dir id (createdHeader id maxCount now)) hf hg hst hroom
      (by decide) a
  have hstep : nodeStep ⟨t₁, openedBlock dir id (createdHeader id maxCount now), []⟩ (a, node) =
      some ⟨t₂, block', [(0, node)]⟩ := by
    simp only [nodeStep, run_createNodeData, happend, Option.map_some, happ.result_eq, if_true]
    rfl
  have hopen : openStep dir id t₁ = some (openedBlock dir id (createdHeader id maxCount now)) :=
    openStep_image ⟨.empty, g, entries, hf, hg, hst⟩
  refine ⟨⟨t₂, block', [(0, node)]⟩, ?_⟩
  simp only [nodeRun, newWriter, hcreate, hopen, Option.bind_eq_bind, Option.bind_some, runSteps,
    hstep, Option.pure_def]

/-- A node that is stored, and that no lookup finds. -/
theorem nodeRun_not_found :
    ∃ s, nodeRun "" 3 (fun _ => none) 0 0 0 [(.clear 0, largeNode)] = some s ∧
      s.told = [(0, largeNode)] ∧ ¬ Found s.tree "" 3 0 largeNode := by
  have habs : Absent (fun _ => none : FileTree SeaPath) "" 3 := ⟨rfl, rfl⟩
  obtain ⟨s, hs⟩ := nodeRun_first habs 0 0 0 (.clear 0) largeNode
  obtain ⟨hcounts, htold⟩ := nodeRun_stored habs hs
  refine ⟨s, hs, htold, fun hfound => ?_⟩
  have hsmall := ((found_iff hcounts.held.2 0 largeNode).mp hfound).1
  rw [largeNode_size] at hsmall
  exact absurd hsmall (by decide)

def smallNode : GraphNode :=
  ⟨⟨0, 0, 0, 0⟩, [⟨1, 0⟩], [plainAttr], singleton_lt _, singleton_lt _⟩

/-- It is found. -/
theorem nodeRun_found_small :
    ∃ s, nodeRun "" 3 (fun _ => none) 0 0 0 [(.clear 0, smallNode)] = some s ∧
      s.told[0]? = some (0, smallNode) ∧ Found s.tree "" 3 0 smallNode := by
  have habs : Absent (fun _ => none : FileTree SeaPath) "" 3 := ⟨rfl, rfl⟩
  obtain ⟨s, hs⟩ := nodeRun_first habs 0 0 0 (.clear 0) smallNode
  have htold : s.told[0]? = some (0, smallNode) := by
    rw [(nodeRun_stored habs hs).2]
    rfl
  refine ⟨s, hs, htold, (nodeRun_found_iff habs hs htold).mpr ?_⟩
  exact (findable_iff_size (by decide) rfl).mpr (by decide)

end SeaStore.Graph
