import SeaStore.Graph.Lookup
import SeaStore.Block.Indexed

/-!
Updates through any number of connections. An update that returns zero has
stored the new node, but has written its own id over the entry of the old one,
so that the entry leads to itself. Whatever the connections have done before,
the new node is found only by the chance that it looks like that entry; an
update comes out right for every node only where none can return zero.
-/
namespace SeaStore.Graph

open Posix Block

/-- The surroundings of an insert or update, and its node. The writes of frames
may fail or be short, those of the index files complete. -/
structure GraphCall where
  now : UInt64
  dataAt : UInt64
  data : Ambient
  dataFrame : Outcome
  index : Ambient
  indexFrame : Outcome
  node : GraphNode

def GraphCall.env (call : GraphCall) : InsertEnv where
  create := ⟨call.now, .whole⟩
  dataAt := call.dataAt
  data := call.data
  dataFaults := ⟨call.dataFrame, .whole, .whole⟩
  index := call.index
  indexFaults := ⟨call.indexFrame, .whole, .whole⟩

/-- What happens to a database: a new connection, or a call on the `k`-th one.
Closing a connection changes no file. -/
inductive GraphOp
  | connect (openAt : UInt64)
  | insert (k : ℕ) (call : GraphCall) (out : UInt64 × UInt32)
  | update (k : ℕ) (nodeId : UInt64 × UInt32) (garbage : Vector UInt8 16) (blockAt : UInt64)
      (call : GraphCall)

/-- The files, the connections, and the ids that inserts have returned. -/
structure GraphDb where
  tree : FileTree SeaPath
  conns : List GraphDbConn
  told : List (UInt64 × UInt32)

variable (digest : String → Word.Digest)

/-- One call, whatever it returns. -/
def graphOpStep (dir dbName : String) (s : GraphDb) : GraphOp → Option GraphDb
  | .connect openAt => do
    let (conn, tree) ← (graphDbOpen digest openAt dir dbName).run serve s.tree
    return { s with tree := tree, conns := s.conns ++ [conn] }
  | .insert k call out => do
    let conn ← s.conns[k]?
    let ((result, conn), tree) ← (graphDbInsert call.env conn call.node.info call.node.attrs
      call.node.attrCount call.node.edges call.node.edgeCount out.1 out.2).run serve s.tree
    return ⟨tree, s.conns.set k conn,
      if result.ret = 0 then s.told ++ [(result.nodeBlockId, result.nodeRecordId)] else s.told⟩
  | .update k nodeId garbage blockAt call => do
    let conn ← s.conns[k]?
    let ((_, _, conn), tree) ← (graphDbUpdate call.env garbage blockAt conn nodeId.1 nodeId.2
      call.node.info call.node.attrs call.node.attrCount call.node.edges
      call.node.edgeCount).run serve s.tree
    return { s with tree := tree, conns := s.conns.set k conn }

def graphDbRun (dir dbName : String) (t : FileTree SeaPath) (now : UInt64) (ops : List GraphOp) :
    Option GraphDb := do
  let (ret, tree) ← (graphDbCreate digest ⟨now, .whole⟩ dir dbName).run serve t
  if ret ≠ 0 then none
  runSteps (graphOpStep digest dir dbName) ⟨tree, [], []⟩ ops

/-- The first lookup of a new connection returns the same in two trees. -/
def FoundAlike (handlesAt : UInt64 × UInt64) (t t' : FileTree SeaPath) (dir dbName : String)
    (nodeId : UInt64 × UInt32) : Prop :=
  ∀ garbage,
    ((findFresh digest handlesAt dir dbName garbage nodeId.1 nodeId.2).run serve t').map Prod.fst =
      ((findFresh digest handlesAt dir dbName garbage nodeId.1 nodeId.2).run serve t).map Prod.fst

/-- Every update of the id through the connection that returns zero, with a node
that fits a lookup's buffer, replaces the node and no other one. -/
def UpdatesRight (handlesAt : UInt64 × UInt64) (dir dbName : String) (s : GraphDb)
    (conn : GraphDbConn) (nodeId : UInt64 × UInt32) : Prop :=
  ∀ (e : InsertEnv) (garbage : Vector UInt8 16) (blockAt : UInt64) (node : GraphNode),
    node.size ≤ 2 ^ 20 →
    ∀ info conn' t', (graphDbUpdate e garbage blockAt conn nodeId.1 nodeId.2 node.info node.attrs
        node.attrCount node.edges node.edgeCount).run serve s.tree = some ((0, info, conn'), t') →
      Recovered digest handlesAt t' dir dbName nodeId.2 node ∧
        ∀ other ∈ s.told, other ≠ nodeId →
          FoundAlike digest handlesAt s.tree t' dir dbName other

/-- The files of the block that an update through the connection appends to. -/
def targetFiles (conn : GraphDbConn) : SeaPath × SeaPath :=
  match conn.dataBlock with
  | none => (.data conn.dir conn.indexBlockId, .index conn.dir conn.indexBlockId)
  | some block => (block.data.fd.path, block.index.fd.path)

/-- The files have room for the smallest node and its entry. -/
def Room (t : FileTree SeaPath) (conn : GraphDbConn) : Prop :=
  ∃ f g, t (targetFiles conn).1 = some f ∧ t (targetFiles conn).2 = some g ∧
    f.size + smallFrameSize ≤ offMax ∧ g.size + indexEntrySize ≤ offMax

variable {digest} {t t' t₁ : FileTree SeaPath} {dir dbName : String} {id : UInt64} {n : ℕ}
  {conn conn' : GraphDbConn} {block : SeaBlock}

/-- A connection whose handles, where they are on the index block, count no
records that it has not. -/
structure Usable (dir : String) (id : UInt64) (n : ℕ) (conn : GraphDbConn) : Prop where
  dir_fits : dir.utf8ByteSize < connDirSize
  dir_eq : conn.dir = dir
  id_eq : conn.indexBlockId = id
  index : ∀ block, conn.indexBlock = .held block → block.On dir id ∧
    block.index.header.count.toNat ≤ n
  data : ∀ block, conn.dataBlock = some block → ∃ id', block.On dir id' ∧
    (id' = id → block.index.header.count.toNat ≤ n)

theorem Usable.mono {m : ℕ} (h : Usable dir id n conn) (hle : n ≤ m) : Usable dir id m conn := by
  refine ⟨h.dir_fits, h.dir_eq, h.id_eq, fun block hconn => ?_, fun dataBlock hdata => ?_⟩
  · obtain ⟨hon, hcount⟩ := h.index block hconn
    exact ⟨hon, Nat.le_trans hcount hle⟩
  · obtain ⟨id', hon', hcount'⟩ := h.data dataBlock hdata
    exact ⟨id', hon', fun hsame => Nat.le_trans (hcount' hsame) hle⟩

/-- A call that leaves a handle on the index block keeps the connection usable. -/
theorem Usable.setIndex (h : Usable dir id n conn) (hon : block.On dir id)
    (hcount : block.index.header.count.toNat ≤ n) :
    Usable dir id n { conn with indexBlock := .held block } := by
  refine ⟨h.dir_fits, h.dir_eq, h.id_eq, ?_, h.data⟩
  rintro _ ⟨⟩
  exact ⟨hon, hcount⟩

theorem spares_seaBlockOpenInt {path : SeaPath} (address : UInt64) :
    (seaBlockOpenInt address dir id).Spares path
      fun handle => ∀ block, handle = .held block → block.On dir id := by
  unfold seaBlockOpenInt
  apply Program.Spares.bind
  apply readOnly_seaBlockOpen.spares.mono
  intro opened hopened block hhandle
  exact hopened block (Handle.eq_some_of_ofInt hhandle)

/-- A lookup that comes to its end has only moved the descriptors of the index block. -/
theorem spares_graphDbFind (path : SeaPath) (garbage : Vector UInt8 16) (blockAt : UInt64)
    (hconn : conn.indexBlock = .held block) (hon : block.On dir id) (nodeBlockId : UInt64)
    (nodeRecordId : UInt32) :
    (graphDbFind garbage blockAt conn nodeBlockId nodeRecordId).Spares path fun found =>
      ∃ block', found.2 = { conn with indexBlock := .held block' } ∧ block'.On dir id ∧
        block'.index.header = block.index.header := by
  unfold graphDbFind
  simp only [hconn]
  apply Program.Spares.bind
  apply (readOnly_query hon nodeRecordId (Int32.ofNat indexNodeDataSize)).spares.mono
  rintro ⟨entry, block'⟩ ⟨hon', hheader⟩
  simp only []
  by_cases hret : entry.ret ≠ 0
  · rw [if_pos hret]
    exact ⟨block', rfl, hon', hheader⟩
  rw [if_neg hret]
  apply Program.Spares.bind
  apply (spares_seaBlockOpenInt blockAt).mono
  intro handle hopened
  cases handle with
  | null => exact ⟨block', rfl, hon', hheader⟩
  | astray => trivial
  | held dataBlock =>
    apply Program.Spares.bind
    apply (readOnly_query (hopened dataBlock rfl) _ findBufLen).spares.mono
    rintro ⟨result, dataBlock'⟩ -
    simp only []
    by_cases hfound : result.ret ≠ 0
    · rw [if_pos hfound]
      exact ⟨block', rfl, hon', hheader⟩
    · rw [if_neg hfound]
      exact ⟨block', rfl, hon', hheader⟩

/-- With its handle got at it does come to its end. -/
theorem run_graphDbFind_any (garbage : Vector UInt8 16) {blockAt : UInt64}
    (hblockAt : Survives blockAt) (hconn : conn.indexBlock = .held block) (hon : block.On dir id)
    (nodeBlockId : UInt64) (nodeRecordId : UInt32) (t : FileTree SeaPath) :
    ∃ found, (graphDbFind garbage blockAt conn nodeBlockId nodeRecordId).run serve t =
      some (found, t) := by
  obtain ⟨⟨entry, block'⟩, hentry, -⟩ :=
    (readOnly_query hon nodeRecordId (Int32.ofNat indexNodeDataSize)).run t
  unfold graphDbFind
  simp only [hconn]
  rw [Program.run_bind_of_run serve hentry]
  by_cases hret : entry.ret ≠ 0
  · rw [if_pos hret]
    exact ⟨_, rfl⟩
  rw [if_neg hret]
  obtain ⟨opened, hopen, hopened⟩ : ∃ opened, (seaBlockOpen conn.dir
      (GraphDbIndexNodeData.ofBytes (entry.out.getD [] ++
        garbage.toList.drop (entry.out.getD []).length)).blockId).run serve t =
          some (opened, t) ∧ ∀ block, opened = some block → block.On conn.dir _ :=
    readOnly_seaBlockOpen.run t
  unfold seaBlockOpenInt
  rw [Program.run_bind, Program.run_bind_of_run serve hopen, Program.run_pure, Option.bind_some]
  cases opened with
  | none => exact ⟨_, rfl⟩
  | some dataBlock =>
    obtain ⟨⟨result, dataBlock'⟩, hquery, -⟩ := (readOnly_query (hopened dataBlock rfl)
      (GraphDbIndexNodeData.ofBytes (entry.out.getD [] ++
        garbage.toList.drop (entry.out.getD []).length)).recordId findBufLen).run t
    simp only [Handle.ofInt_held hblockAt]
    rw [Program.run_bind_of_run serve hquery]
    by_cases hfound : result.ret ≠ 0
    · rw [if_pos hfound]
      exact ⟨_, rfl⟩
    · rw [if_neg hfound]
      exact ⟨_, rfl⟩

theorem held_of_graphDbUpdate {e : InsertEnv} {garbage : Vector UInt8 16}
    {blockAt nodeBlockId : UInt64} {nodeRecordId : UInt32} {node : GraphNode}
    {out : ℕ × NodeInfo × GraphDbConn}
    (hrun : (graphDbUpdate e garbage blockAt conn nodeBlockId nodeRecordId node.info node.attrs
      node.attrCount node.edges node.edgeCount).run serve t = some (out, t')) :
    ∃ block, conn.indexBlock = .held block := by
  unfold graphDbUpdate at hrun
  rw [Program.run_bind] at hrun
  obtain ⟨found, hfind, -⟩ := Option.bind_eq_some_iff.mp hrun
  unfold graphDbFind at hfind
  cases hconn : conn.indexBlock with
  | held block => exact ⟨block, rfl⟩
  | null =>
    rw [hconn] at hfind
    exact absurd hfind (by simp)
  | astray =>
    rw [hconn] at hfind
    exact absurd hfind (by simp)

/-- An update looks the node up, to no effect, and goes on as an insert. -/
theorem graphDbUpdate_split (hconn : conn.indexBlock = .held block) (hon : block.On dir id)
    {e : InsertEnv} {garbage : Vector UInt8 16} {blockAt nodeBlockId : UInt64}
    {nodeRecordId : UInt32} {node : GraphNode} {ret : ℕ} {info : NodeInfo}
    (hrun : (graphDbUpdate e garbage blockAt conn nodeBlockId nodeRecordId node.info node.attrs
      node.attrCount node.edges node.edgeCount).run serve t = some ((ret, info, conn'), t')) :
    ∃ block' result, block'.On dir id ∧ block'.index.header = block.index.header ∧
      (graphDbInsertInternal e { conn with indexBlock := .held block' } node.info node.attrs
        node.attrCount node.edges node.edgeCount nodeBlockId nodeRecordId true).run serve t =
          some ((result, conn'), t') ∧ result.ret = ret := by
  unfold graphDbUpdate at hrun
  rw [Program.run_bind] at hrun
  obtain ⟨⟨⟨found, conn₁⟩, t₁⟩, hfind, hrest⟩ := Option.bind_eq_some_iff.mp hrun
  have hspares := fun path => (spares_graphDbFind path garbage blockAt hconn hon
    nodeBlockId nodeRecordId).run hfind
  obtain ⟨block', rfl, hon', hheader⟩ := (hspares (.data dir id)).1
  obtain rfl : t₁ = t := funext fun path => (hspares path).2
  simp only [graphDbCheckUpdate, graphDbRemove, Bool.false_eq_true, if_false, ne_eq,
    not_true_eq_false] at hrest
  rw [Program.run_bind] at hrest
  obtain ⟨⟨⟨result, conn₂⟩, t₂⟩, hinsert, hsame⟩ := Option.bind_eq_some_iff.mp hrest
  obtain ⟨hout, rfl⟩ := Prod.mk.inj (Option.some.inj hsame)
  obtain ⟨hret, hout⟩ := Prod.mk.inj hout
  obtain ⟨-, rfl⟩ := Prod.mk.inj hout
  exact ⟨block', result, hon', hheader, hinsert, hret⟩

/-- Opening or creating the data block, whichever it is. -/
theorem Usable.dataBlock (hconn : Usable dir id n conn) (hindexed : Indexed t dir id n)
    {now address dataBlockId : UInt64} {handle : Handle}
    (hrun : (graphDataBlock ⟨now, .whole⟩ address conn dataBlockId).run serve t =
      some (handle, t')) :
    Indexed t' dir id n ∧ ∀ block, handle = .held block → ∃ id', block.On dir id' ∧
      (id' = id → block.index.header.count.toNat ≤ n) := by
  unfold graphDataBlock at hrun
  cases hdata : conn.dataBlock with
  | some dataBlock =>
    simp only [hdata] at hrun
    obtain ⟨rfl, rfl⟩ := Prod.mk.inj (Option.some.inj hrun)
    refine ⟨hindexed, ?_⟩
    rintro _ ⟨⟩
    exact hconn.data dataBlock hdata
  | none =>
    simp only [hdata, hconn.dir_eq] at hrun
    rw [Program.run_bind] at hrun
    obtain ⟨⟨ret, t₁⟩, hcreate, hopen⟩ := Option.bind_eq_some_iff.mp hrun
    unfold seaBlockOpenInt at hopen
    rw [Program.run_bind] at hopen
    by_cases hsame : dataBlockId = id
    · subst hsame
      obtain ⟨t₂, hcreate', hindexed', -⟩ := hindexed.create now graphMaxSize graphMaxCount
      rw [hcreate'] at hcreate
      obtain ⟨-, rfl⟩ := Prod.mk.inj (Option.some.inj hcreate)
      obtain ⟨hdr, -, hopen', hcount, -⟩ := hindexed'.open
      rw [hopen'] at hopen
      obtain ⟨rfl, rfl⟩ := Prod.mk.inj (Option.some.inj hopen)
      refine ⟨hindexed', fun block hheld => ?_⟩
      obtain rfl := Option.some.inj (Handle.eq_some_of_ofInt hheld)
      exact ⟨_, openedBlock_on dir _ hdr, fun _ => hcount⟩
    · have hspares : ∀ path, path ≠ .data dir dataBlockId → path ≠ .index dir dataBlockId →
          t₁ path = t path := fun path hdata hindex =>
        ((spares_seaBlockCreate hdata hindex ⟨now, .whole⟩ _ _).run hcreate).2
      obtain ⟨opened', hopen', hon⟩ : ∃ opened', (seaBlockOpen dir dataBlockId).run serve t₁ =
          some (opened', t₁) ∧ ∀ block, opened' = some block → block.On dir dataBlockId :=
        readOnly_seaBlockOpen.run t₁
      rw [hopen'] at hopen
      obtain ⟨rfl, rfl⟩ := Prod.mk.inj (Option.some.inj hopen)
      refine ⟨hindexed.congr (hspares _ (by simpa using Ne.symm hsame) (by simp))
        (hspares _ (by simp) (by simpa using Ne.symm hsame)), fun block hblock => ?_⟩
      exact ⟨dataBlockId, hon block (Handle.eq_some_of_ofInt hblock),
        fun heq => absurd heq hsame⟩

/-- An append on any handle of the directory keeps the index block whole. -/
theorem append_indexed {id' : UInt64} {block' : SeaBlock} (hindexed : Indexed t dir id n)
    (hon : block.On dir id') (hcount : id' = id → block.index.header.count.toNat ≤ n)
    {a : Ambient} {frame : Outcome} {p : Payload} (hlen : 16 ≤ p.bytes.length)
    {result : AppendResult}
    (hrun : (seaBlockAppend a ⟨frame, .whole, .whole⟩ block p.bytes p.length).run serve t =
      some ((result, block'), t')) :
    ∃ m, n ≤ m ∧ Indexed t' dir id m ∧ block'.On dir id' ∧
      (id' = id → block'.index.header.count.toNat ≤ m) := by
  by_cases hsame : id' = id
  · subst hsame
    obtain ⟨m, hle, hindexed', hon', hcount'⟩ :=
      hindexed.append hon (hcount rfl) hlen rfl rfl hrun
    exact ⟨m, hle, hindexed', hon', fun _ => hcount'⟩
  · have hspares : ∀ path, path ≠ .data dir id' → path ≠ .index dir id' →
        block'.On dir id' ∧ t' path = t path := fun path hdata hindex =>
      (spares_seaBlockAppend hon hdata hindex _ _ _ _).run hrun
    refine ⟨n, Nat.le_refl _, hindexed.congr ?_ ?_, ?_, fun heq => absurd heq hsame⟩
    · exact (hspares _ (by simpa using Ne.symm hsame) (by simp)).2
    · exact (hspares _ (by simp) (by simpa using Ne.symm hsame)).2
    · exact (hspares (.data dir id) (by simpa using Ne.symm hsame) (by simp)).1

theorem GraphNode.payload_length_le (node : GraphNode) : 16 ≤ node.payload.bytes.length := by
  rw [GraphNode.payload, node.bytes_length, GraphNode.size]
  omega

theorem GraphDbIndexNodeData.payload_bytes_length (data : GraphDbIndexNodeData) :
    data.payload.bytes.length = 16 := by
  rw [payload_bytes, bytes_length, indexNodeDataSize]

/-- The step to the index keeps the index block whole and the connection usable. -/
theorem Usable.indexNode (hconn : Usable dir id n conn) (hindexed : Indexed t dir id n)
    (call : GraphCall) (indexData : GraphDbIndexNodeData) {nodeBlockId : UInt64}
    {nodeRecordId : UInt32} {existNodeFlag : Bool} {info : NodeInfo} {result : InsertResult}
    (hrun : (graphIndexNode call.env conn indexData nodeBlockId nodeRecordId existNodeFlag
      info).run serve t = some ((result, conn'), t')) :
    ∃ m, n ≤ m ∧ Indexed t' dir id m ∧ Usable dir id m conn' ∧
      (existNodeFlag = false → result.ret = 0 → result.nodeBlockId = id) := by
  cases hblock : conn.indexBlock with
  | astray =>
    unfold graphIndexNode at hrun
    rw [hblock] at hrun
    cases existNodeFlag <;> exact absurd hrun (by simp)
  | null =>
    unfold graphIndexNode at hrun
    rw [hblock] at hrun
    cases existNodeFlag with
    | true => exact absurd hrun (by simp)
    | false =>
      obtain ⟨hpair, rfl⟩ := Prod.mk.inj (Option.some.inj hrun)
      obtain ⟨rfl, rfl⟩ := Prod.mk.inj hpair
      exact ⟨n, Nat.le_refl n, hindexed, hconn, fun _ hret =>
        absurd hret (show EINVAL ≠ 0 by decide)⟩
  | held block =>
  obtain ⟨hon, hcount⟩ := hconn.index block hblock
  cases existNodeFlag with
  | false =>
    rw [run_graphIndexNode call.env hblock] at hrun
    obtain ⟨⟨⟨entered, block'⟩, t₁⟩, hentry, hsame⟩ := Option.map_eq_some_iff.mp hrun
    obtain ⟨hpair, rfl⟩ := Prod.mk.inj hsame
    obtain ⟨rfl, rfl⟩ := Prod.mk.inj hpair
    obtain ⟨m, hle, hindexed', hon', hcount'⟩ :=
      append_indexed hindexed hon (fun _ => hcount) (Nat.le_of_eq
        indexData.payload_bytes_length.symm) hentry
    refine ⟨m, hle, hindexed', (hconn.mono hle).setIndex hon' (hcount' rfl), fun _ hret => ?_⟩
    by_cases hentered : entered.ret = 0
    · rw [if_pos hentered]
      exact hconn.id_eq
    · rw [if_neg hentered] at hret
      exact absurd hret hentered
  | true =>
    rw [run_graphIndexNode_exist call.env hblock] at hrun
    obtain ⟨⟨⟨ret, block'⟩, t₁⟩, hupdate, hsame⟩ := Option.map_eq_some_iff.mp hrun
    obtain ⟨hpair, rfl⟩ := Prod.mk.inj hsame
    obtain ⟨-, rfl⟩ := Prod.mk.inj hpair
    have hkept : block'.On dir id ∧ block'.index.header = block.index.header :=
      ((spares_seaBlockUpdate hon (show SeaPath.index dir id ≠ .data dir id by simp) _ _ _ _).run
        hupdate).1
    rw [← hkept.2] at hcount
    exact ⟨n, Nat.le_refl n, hindexed.update hon _ hupdate, hconn.setIndex hkept.1 hcount,
      fun hflag => absurd hflag (by simp)⟩

/-- So does a whole insert or update, whatever it returns. -/
theorem Usable.insertInternal (hconn : Usable dir id n conn) (hindexed : Indexed t dir id n)
    (call : GraphCall) {nodeBlockId : UInt64} {nodeRecordId : UInt32} {existNodeFlag : Bool}
    {result : InsertResult}
    (hrun : (graphDbInsertInternal call.env conn call.node.info call.node.attrs
      call.node.attrCount call.node.edges call.node.edgeCount nodeBlockId nodeRecordId
      existNodeFlag).run serve t = some ((result, conn'), t')) :
    ∃ m, n ≤ m ∧ Indexed t' dir id m ∧ Usable dir id m conn' ∧
      (existNodeFlag = false → result.ret = 0 → result.nodeBlockId = id) := by
  unfold graphDbInsertInternal at hrun
  simp only [] at hrun
  rw [Program.run_bind] at hrun
  obtain ⟨⟨opened, t₁⟩, hblock, hrun⟩ := Option.bind_eq_some_iff.mp hrun
  obtain ⟨hindexed₁, hopened⟩ := hconn.dataBlock hindexed hblock
  cases opened with
  | astray => exact absurd hrun (by simp)
  | null =>
    obtain ⟨hpair, rfl⟩ := Prod.mk.inj (Option.some.inj hrun)
    obtain ⟨rfl, rfl⟩ := Prod.mk.inj hpair
    refine ⟨n, Nat.le_refl n, hindexed₁, ?_, fun _ hret =>
      absurd hret (show EINVAL ≠ 0 by decide)⟩
    exact ⟨hconn.dir_fits, hconn.dir_eq, hconn.id_eq, hconn.index,
      fun block hdata => absurd hdata (by simp)⟩
  | held dataBlock =>
    obtain ⟨id', hon, hcount⟩ := hopened dataBlock rfl
    simp only [] at hrun
    rw [Program.run_bind, run_createNodeData] at hrun
    obtain ⟨s, hcreate, hrun⟩ := Option.bind_eq_some_iff.mp hrun
    obtain ⟨⟨⟨stored, dataBlock'⟩, t₂⟩, happend, rfl⟩ := Option.map_eq_some_iff.mp hcreate
    obtain ⟨m, hle, hindexed₂, hon', hcount'⟩ :=
      append_indexed hindexed₁ hon hcount call.node.payload_length_le happend
    have hconn' : Usable dir id m { conn with dataBlock := some dataBlock' } := by
      refine ⟨hconn.dir_fits, hconn.dir_eq, hconn.id_eq, (hconn.mono hle).index, ?_⟩
      rintro _ ⟨⟩
      exact ⟨id', hon', hcount'⟩
    by_cases hstored : stored.ret = 0
    · simp only [hstored, if_true, ne_eq, not_true_eq_false, if_false] at hrun
      obtain ⟨m', hle', hrest⟩ := hconn'.indexNode hindexed₂ call _ hrun
      exact ⟨m', Nat.le_trans hle hle', hrest⟩
    · simp only [hstored, if_false, ne_eq, not_false_eq_true, if_true] at hrun
      obtain ⟨hpair, rfl⟩ := Prod.mk.inj (Option.some.inj hrun)
      obtain ⟨rfl, rfl⟩ := Prod.mk.inj hpair
      exact ⟨m, hle, hindexed₂, hconn', fun _ hret => absurd hret hstored⟩

/-- The index block is whole, every connection is usable, and the ids that have
been told are of the index block. -/
structure Intact (dir : String) (id : UInt64) (s : GraphDb) : Prop where
  usable : ∃ n, Indexed s.tree dir id n ∧ ∀ conn ∈ s.conns, Usable dir id n conn
  told : ∀ nodeId ∈ s.told, nodeId.1 = id

theorem usable_set {conns : List GraphDbConn} {k m : ℕ}
    (h : ∀ conn ∈ conns, Usable dir id n conn) (hle : n ≤ m) (hconn : Usable dir id m conn) :
    ∀ other ∈ conns.set k conn, Usable dir id m other := by
  intro other hmem
  rcases List.mem_or_eq_of_mem_set hmem with hold | rfl
  · exact (h other hold).mono hle
  · exact hconn

theorem graphOpStep_intact {s s' : GraphDb} {op : GraphOp}
    (h : Intact dir (graphDbGetBlockId digest dbName) s)
    (hstep : graphOpStep digest dir dbName s op = some s') :
    Intact dir (graphDbGetBlockId digest dbName) s' := by
  obtain ⟨n, hindexed, husable⟩ := h.usable
  cases op with
  | connect openAt =>
    obtain ⟨⟨conn, tree⟩, hopen, hstep⟩ := Option.bind_eq_some_iff.mp hstep
    obtain rfl := Option.some.inj hstep
    have hdir := dir_of_graphDbOpen hopen
    obtain ⟨hdr, -, hblock, hcount, -⟩ := hindexed.open
    rw [run_graphDbOpen openAt hdir hblock] at hopen
    obtain ⟨rfl, rfl⟩ := Prod.mk.inj (Option.some.inj hopen)
    refine ⟨⟨n, hindexed, fun conn hmem => ?_⟩, h.told⟩
    rcases List.mem_append.mp hmem with hold | hnew
    · exact husable conn hold
    · obtain rfl := List.mem_singleton.mp hnew
      refine ⟨hdir, rfl, rfl, fun block hheld => ?_, fun block hdata => absurd hdata (by simp)⟩
      obtain rfl := Option.some.inj (Handle.eq_some_of_ofInt hheld)
      exact ⟨openedBlock_on dir _ hdr, hcount⟩
  | insert k call out =>
    obtain ⟨conn, hconn, hstep⟩ := Option.bind_eq_some_iff.mp hstep
    obtain ⟨⟨⟨result, conn'⟩, tree⟩, hrun, hstep⟩ := Option.bind_eq_some_iff.mp hstep
    obtain rfl := Option.some.inj hstep
    obtain ⟨m, hle, hindexed', husable', htold⟩ :=
      (husable conn (List.mem_of_getElem? hconn)).insertInternal hindexed call hrun
    refine ⟨⟨m, hindexed', usable_set husable hle husable'⟩, fun nodeId hmem => ?_⟩
    by_cases hret : result.ret = 0
    · rw [if_pos hret] at hmem
      rcases List.mem_append.mp hmem with hold | hnew
      · exact h.told nodeId hold
      · obtain rfl := List.mem_singleton.mp hnew
        exact htold rfl hret
    · rw [if_neg hret] at hmem
      exact h.told nodeId hmem
  | update k nodeId garbage blockAt call =>
    obtain ⟨conn, hconn, hstep⟩ := Option.bind_eq_some_iff.mp hstep
    obtain ⟨⟨⟨ret, info, conn'⟩, tree⟩, hrun, hstep⟩ := Option.bind_eq_some_iff.mp hstep
    obtain rfl := Option.some.inj hstep
    have hok := husable conn (List.mem_of_getElem? hconn)
    obtain ⟨block, hblock⟩ := held_of_graphDbUpdate hrun
    obtain ⟨hon, hcount⟩ := hok.index block hblock
    obtain ⟨block', result, hon', hheader, hinsert, -⟩ := graphDbUpdate_split hblock hon hrun
    rw [← hheader] at hcount
    obtain ⟨m, hle, hindexed', husable', -⟩ :=
      (hok.setIndex hon' hcount).insertInternal hindexed call hinsert
    exact ⟨⟨m, hindexed', usable_set husable hle husable'⟩, h.told⟩

theorem graphDbRun_intact {s : GraphDb} {now : UInt64} {ops : List GraphOp}
    (habs : Absent t dir (graphDbGetBlockId digest dbName))
    (hrun : graphDbRun digest dir dbName t now ops = some s) :
    Intact dir (graphDbGetBlockId digest dbName) s := by
  obtain ⟨tree, hcreate, hindexed⟩ := indexed_created habs now graphMaxSize graphMaxCount
  unfold graphDbRun graphDbCreate at hrun
  simp only [hcreate, Option.bind_eq_bind, Option.bind_some, ne_eq, not_true_eq_false,
    if_false] at hrun
  refine runSteps_invariant (fun _ s => Intact dir (graphDbGetBlockId digest dbName) s)
    (fun _ _ _ _ h hstep => graphOpStep_intact h hstep) ?_ hrun
  exact ⟨⟨0, hindexed, fun conn hmem => absurd hmem (by simp)⟩,
    fun nodeId hmem => absurd hmem (by simp)⟩

/-- What an update writes over the entry: the id of the node. -/
def selfEntry (nodeId : UInt64 × UInt32) : GraphDbIndexNodeData := ⟨nodeId.1, nodeId.2, 0⟩

/-- An insert for a node that exists and returns zero has got a data block,
appended the node to it, and updated the entry. -/
theorem existed_of_ret {e : InsertEnv} {node : GraphNode} {nodeId : UInt64 × UInt32}
    {result : InsertResult} (hconn : conn.indexBlock = .held block)
    (hrun : (graphDbInsertInternal e conn node.info node.attrs node.attrCount node.edges
      node.edgeCount nodeId.1 nodeId.2 true).run serve t = some ((result, conn'), t'))
    (hret : result.ret = 0) :
    ∃ dataBlock t₁ stored dataBlock' t₂ block',
      (graphDataBlock e.create e.dataAt conn nodeId.1).run serve t =
        some (.held dataBlock, t₁) ∧
      (seaBlockAppend e.data e.dataFaults dataBlock node.payload.bytes node.payload.length).run
        serve t₁ = some ((stored, dataBlock'), t₂) ∧ stored.ret = 0 ∧
      (seaBlockUpdate e.index e.indexFaults.frame block nodeId.2 (selfEntry nodeId).payload.bytes
        (selfEntry nodeId).payload.length).run serve t₂ = some ((0, block'), t') := by
  unfold graphDbInsertInternal at hrun
  simp only [if_true] at hrun
  rw [Program.run_bind] at hrun
  obtain ⟨⟨opened, t₁⟩, hblock, hrun⟩ := Option.bind_eq_some_iff.mp hrun
  cases opened with
  | astray => exact absurd hrun (by simp)
  | null =>
    obtain ⟨hpair, -⟩ := Prod.mk.inj (Option.some.inj hrun)
    obtain ⟨rfl, -⟩ := Prod.mk.inj hpair
    exact absurd hret (show EINVAL ≠ 0 by decide)
  | held dataBlock =>
    simp only [] at hrun
    rw [Program.run_bind, run_createNodeData] at hrun
    obtain ⟨s, hcreate, hrun⟩ := Option.bind_eq_some_iff.mp hrun
    obtain ⟨⟨⟨stored, dataBlock'⟩, t₂⟩, happend, rfl⟩ := Option.map_eq_some_iff.mp hcreate
    by_cases hstored : stored.ret = 0
    swap
    · simp only [hstored, ne_eq, not_false_eq_true, if_true] at hrun
      obtain ⟨hpair, -⟩ := Prod.mk.inj (Option.some.inj hrun)
      obtain ⟨rfl, -⟩ := Prod.mk.inj hpair
      exact absurd hret hstored
    simp only [hstored, ne_eq, not_true_eq_false, if_false] at hrun
    rw [run_graphIndexNode_exist e (by exact hconn)] at hrun
    obtain ⟨⟨⟨ret, block'⟩, t₃⟩, hupdate, hsame⟩ := Option.map_eq_some_iff.mp hrun
    obtain ⟨hpair, rfl⟩ := Prod.mk.inj hsame
    obtain ⟨rfl, -⟩ := Prod.mk.inj hpair
    obtain rfl : ret = 0 := hret
    exact ⟨dataBlock, t₁, stored, dataBlock', t₂, block', hblock, happend, hstored, hupdate⟩

/-- And these three steps make one. -/
theorem run_existed {e : InsertEnv} {node : GraphNode} {nodeId : UInt64 × UInt32}
    {dataBlock dataBlock' block' : SeaBlock} {stored : AppendResult} {t₂ : FileTree SeaPath}
    (hconn : conn.indexBlock = .held block)
    (hblock : (graphDataBlock e.create e.dataAt conn nodeId.1).run serve t =
      some (.held dataBlock, t₁))
    (happend : (seaBlockAppend e.data e.dataFaults dataBlock node.payload.bytes
      node.payload.length).run serve t₁ = some ((stored, dataBlock'), t₂))
    (hstored : stored.ret = 0)
    (hupdate : (seaBlockUpdate e.index e.indexFaults.frame block nodeId.2
      (selfEntry nodeId).payload.bytes (selfEntry nodeId).payload.length).run serve t₂ =
        some ((0, block'), t')) :
    ∃ result conn', (graphDbInsertInternal e conn node.info node.attrs node.attrCount node.edges
        node.edgeCount nodeId.1 nodeId.2 true).run serve t = some ((result, conn'), t') ∧
      result.ret = 0 := by
  unfold graphDbInsertInternal
  simp only [if_true]
  rw [Program.run_bind_of_run serve hblock]
  simp only []
  rw [Program.run_bind, run_createNodeData, happend]
  simp only [Option.map_some, Option.bind_some, hstored, if_true, ne_eq, not_true_eq_false,
    if_false]
  rw [run_graphIndexNode_exist e (by exact hconn)]
  rw [show (GraphDbIndexNodeData.payload ⟨nodeId.1, nodeId.2, 0⟩) = (selfEntry nodeId).payload
    from rfl, hupdate]
  exact ⟨_, _, rfl, rfl⟩

/-- A data block that has taken the node had room for it, and so had the one that
the connection goes to. -/
theorem Usable.room_of_append {e : InsertEnv} {node : GraphNode} {dataBlock dataBlock' : SeaBlock}
    {stored : AppendResult} (husable : Usable dir id n conn) (hindexed : Indexed t dir id n)
    (hblock : (graphDataBlock e.create e.dataAt conn id).run serve t =
      some (.held dataBlock, t₁))
    (happend : (seaBlockAppend e.data e.dataFaults dataBlock node.payload.bytes
      node.payload.length).run serve t₁ = some ((stored, dataBlock'), t'))
    (hstored : stored.ret = 0) : Room t conn := by
  have hlen := node.payload_length_le
  unfold Room targetFiles
  unfold graphDataBlock at hblock
  cases hdata : conn.dataBlock with
  | some held =>
    simp only [hdata] at hblock
    obtain ⟨hheld, rfl⟩ := Prod.mk.inj (Option.some.inj hblock)
    obtain rfl := Handle.held.inj hheld
    obtain ⟨id', hon, -⟩ := husable.data held hdata
    obtain ⟨f, g, hf, hg, hroom, hroom'⟩ := Block.room_of_append hon happend hstored
    simp only [hon.data_path, hon.index_path]
    exact ⟨f, g, hf, hg, by rw [smallFrameSize]; omega, hroom'⟩
  | none =>
    simp only [hdata, husable.dir_eq] at hblock
    obtain ⟨f₀, g₀, -, -, hf₀, hg₀, -⟩ := hindexed
    obtain ⟨ret, g', hcreate, hgrow⟩ :=
      run_seaBlockCreate_any hf₀ hg₀ e.create graphMaxSize graphMaxCount
    rw [Program.run_bind_of_run serve hcreate] at hblock
    unfold seaBlockOpenInt at hblock
    rw [Program.run_bind] at hblock
    obtain ⟨opened, hopen, hon⟩ : ∃ opened, (seaBlockOpen dir id).run serve
        (t.set (.index dir id) g') = some (opened, t.set (.index dir id) g') ∧
          ∀ block, opened = some block → block.On dir id := readOnly_seaBlockOpen.run _
    simp only [hopen, Option.bind_some, Program.run_pure] at hblock
    obtain ⟨hheld, rfl⟩ := Prod.mk.inj (Option.some.inj hblock)
    obtain ⟨f, g, hf, hg, hroom, hroom'⟩ :=
      Block.room_of_append (hon dataBlock (Handle.eq_some_of_ofInt hheld)) happend hstored
    rw [FileTree.set_other _ _ (by simp)] at hf
    rw [FileTree.set_self] at hg
    obtain rfl := Option.some.inj hg
    simp only [husable.dir_eq, husable.id_eq]
    exact ⟨f, g₀, hf, hg₀, by rw [smallFrameSize]; omega, by omega⟩

/-- An update that returns zero has found the id counted and room in the files. -/
theorem counted_and_room_of_ret {e : InsertEnv} {garbage : Vector UInt8 16} {blockAt : UInt64}
    {node : GraphNode} {nodeId : UInt64 × UInt32} {info : NodeInfo}
    (husable : Usable dir id n conn) (hindexed : Indexed t dir id n) (hid : nodeId.1 = id)
    (hconn : conn.indexBlock = .held block)
    (hrun : (graphDbUpdate e garbage blockAt conn nodeId.1 nodeId.2 node.info node.attrs
      node.attrCount node.edges node.edgeCount).run serve t = some ((0, info, conn'), t')) :
    nodeId.2 < block.index.header.count ∧ Room t conn := by
  obtain ⟨hon, hcount⟩ := husable.index block hconn
  obtain ⟨block', result, hon', hheader, hinsert, hret⟩ := graphDbUpdate_split hconn hon hrun
  obtain ⟨dataBlock, t₁, stored, dataBlock', t₂, block'', hblock, happend, hstored, hentry⟩ :=
    existed_of_ret (by rfl) hinsert hret
  constructor
  · by_contra hpast
    rw [UInt32.not_lt, ← hheader] at hpast
    rw [run_seaBlockUpdate_past hpast] at hentry
    exact absurd (Prod.mk.inj (Prod.mk.inj (Option.some.inj hentry)).1).1
      (show EINVAL ≠ 0 by decide)
  · rw [← hheader] at hcount
    rw [hid] at hblock
    exact (husable.setIndex hon' hcount).room_of_append hindexed hblock happend hstored

section Success

variable {nodeId : UInt64 × UInt32} {node : GraphNode}

def clearCall (node : GraphNode) : GraphCall :=
  ⟨0, lowAddress, .clear 0, .whole, .clear 0, .whole, node⟩

/-- With room in the files of its block, an update gets the block and keeps the room. -/
theorem Usable.dataBlock_room (husable : Usable dir id n conn) (hindexed : Indexed t dir id n)
    (hroom : Room t conn) (now : UInt64) :
    ∃ dataBlock t₁ f g, (graphDataBlock ⟨now, .whole⟩ lowAddress conn id).run serve t =
        some (.held dataBlock, t₁) ∧
      t₁ dataBlock.data.fd.path = some f ∧ t₁ dataBlock.index.fd.path = some g ∧
      f.size + smallFrameSize ≤ offMax ∧ g.size + indexEntrySize ≤ offMax := by
  obtain ⟨f, g, hf, hg, hdata, hindex⟩ := hroom
  unfold targetFiles at hf hg
  unfold graphDataBlock
  cases hheld : conn.dataBlock with
  | some held =>
    simp only [hheld] at hf hg
    exact ⟨held, t, f, g, rfl, hf, hg, hdata, hindex⟩
  | none =>
    simp only [hheld, husable.dir_eq, husable.id_eq] at hf hg
    obtain ⟨t₁, hcreate, hindexed₁, hkept⟩ := hindexed.create now graphMaxSize graphMaxCount
    obtain ⟨hdr, g₁, hopen, -, hg₁, -⟩ := hindexed₁.open
    simp only [husable.dir_eq]
    rw [Program.run_bind_of_run serve hcreate]
    exact ⟨_, t₁, f, g₁, run_seaBlockOpenInt survives_lowAddress hopen, hkept.trans hf, hg₁,
      hdata, hindexed₁.index_room hg₁⟩

/-- With the id counted as well, an update with a node no larger than an entry
returns zero. It leaves the node's own id in the entry of the node, for a handle
that counts it. -/
theorem Usable.update_bare (husable : Usable dir id n conn) (hindexed : Indexed t dir id n)
    (hid : nodeId.1 = id) (hconn : conn.indexBlock = .held block)
    (hcounted : nodeId.2 < block.index.header.count) (hroom : Room t conn)
    (hbare : node.payload.bytes.length = 16) (garbage : Vector UInt8 16) :
    ∃ info conn' t', (graphDbUpdate (clearCall node).env garbage lowAddress conn nodeId.1 nodeId.2
        node.info node.attrs node.attrCount node.edges node.edgeCount).run serve t =
          some ((0, info, conn'), t') ∧
      (∃ m, Indexed t' dir id m) ∧
      ∀ g, t' (.index dir id) = some g → nodeId.2 < countOnDisk g →
        StoredAt t' dir id nodeId.2 (selfEntry nodeId).payload := by
  obtain ⟨hon, hcount⟩ := husable.index block hconn
  -- the lookup comes to its end and changes nothing
  obtain ⟨⟨info, conn₁⟩, hfind⟩ := run_graphDbFind_any garbage survives_lowAddress hconn hon
    nodeId.1 nodeId.2 t
  obtain ⟨block', rfl, hon', hheader⟩ := ((spares_graphDbFind (.data dir id) garbage
    lowAddress hconn hon nodeId.1 nodeId.2).run hfind).1
  rw [← hheader] at hcounted hcount
  have husable' := husable.setIndex hon' hcount
  -- the node goes to whichever block this is
  obtain ⟨dataBlock, t₁, f, g, hblock, hf, hg, hdata, hindex⟩ :=
    husable'.dataBlock_room hindexed hroom 0
  obtain ⟨hindexed₁, hopened⟩ := husable'.dataBlock hindexed hblock
  obtain ⟨id', hdataOn, hdataCount⟩ := hopened dataBlock rfl
  rw [hdataOn.data_path] at hf
  rw [hdataOn.index_path] at hg
  rw [smallFrameSize] at hdata
  obtain ⟨stored, dataBlock', t₂, happend, hstored⟩ :=
    append_succeeds (p := node.payload) hdataOn hf hg (by rw [hbare]; exact hdata) hindex
      (.clear 0)
  obtain ⟨m, hle, hindexed₂, -, -⟩ :=
    append_indexed hindexed₁ hdataOn hdataCount node.payload_length_le happend
  -- and its id over its entry
  obtain ⟨block'', t', hentry, hleads⟩ := hindexed₂.update_counted hon' (Nat.le_trans hcount hle)
    hcounted (selfEntry nodeId).payload_bytes_length (.clear 0)
  rw [← hid] at hblock
  obtain ⟨result, conn', hexisted, hret⟩ :=
    run_existed (e := (clearCall node).env) rfl hblock happend hstored hentry
  refine ⟨result.node, conn', t', ?_, ⟨m, hindexed₂.update hon' _ hentry⟩, hleads⟩
  unfold graphDbUpdate
  rw [Program.run_bind_of_run serve hfind]
  simp only [graphDbCheckUpdate, graphDbRemove, Bool.false_eq_true, if_false, ne_eq,
    not_true_eq_false]
  rw [Program.run_bind_of_run serve hexisted, hret]
  rfl

/-- Where the id's own entry stands in the place of the node's, nothing but that
entry is ever found. -/
theorem recovered_selfEntry {handlesAt : UInt64 × UInt64}
    (hindexed : Indexed t dir (graphDbGetBlockId digest dbName) n)
    (hdir : dir.utf8ByteSize < connDirSize) (hid : nodeId.1 = graphDbGetBlockId digest dbName)
    (hleads : ∀ g, t (.index dir (graphDbGetBlockId digest dbName)) = some g →
      nodeId.2 < countOnDisk g →
        StoredAt t dir (graphDbGetBlockId digest dbName) nodeId.2 (selfEntry nodeId).payload)
    (hrec : Recovered digest handlesAt t dir dbName nodeId.2 node) :
    node.bytes = (selfEntry nodeId).bytes := by
  have hat := hrec.survive
  have hfound := hrec (Vector.replicate 16 0) nodeId.1
  obtain ⟨hdr, g, hopen, -, hg, hdisk⟩ := hindexed.open
  by_cases hcount : hdr.count ≤ nodeId.2
  · rw [run_findFresh_past hat hdir hopen hcount] at hfound
    exact absurd (Prod.mk.inj (Option.some.inj hfound)).1 (by simp)
  rw [UInt32.not_le, ← hdisk] at hcount
  obtain ⟨opened, hopen', hquery⟩ := (hleads g hg hcount).run_query
  have hlen := (selfEntry nodeId).payload_bytes_length
  obtain ⟨block, hentry⟩ := hquery (Int32.ofNat indexNodeDataSize) (by rw [hlen]; decide)
  obtain ⟨block', hrecord⟩ := hquery findBufLen (by rw [hlen]; decide)
  have hself : (selfEntry nodeId).blockId = graphDbGetBlockId digest dbName := hid
  unfold findFresh at hfound
  rw [Program.run_bind_of_run serve (run_graphDbOpen_held hat.1 hdir hopen'),
    Program.run_bind_of_run serve (run_graphDbFind hat.2 (by rfl) hentry
      (by rw [hself]; exact hopen') hrecord _ _)] at hfound
  exact (Option.some.inj (Prod.mk.inj (Option.some.inj hfound)).1).symm

end Success

def bareNode (nextRecordId : UInt32) : GraphNode :=
  ⟨⟨nextRecordId, 0, 0, 0⟩, [], [], Nat.two_pow_pos 16, Nat.two_pow_pos 16⟩

/-- In every state that inserts and updates through any connections have led to,
the updates of an id through a connection come out right exactly when none of
them can return zero: when the connection has no handle on the index block that
counts the id, or the files that the node goes to have no room for any. -/
theorem updatesRight_iff {s : GraphDb} {now : UInt64} {ops : List GraphOp}
    {handlesAt : UInt64 × UInt64} {nodeId : UInt64 × UInt32}
    (habs : Absent t dir (graphDbGetBlockId digest dbName))
    (hrun : graphDbRun digest dir dbName t now ops = some s) (hconn : conn ∈ s.conns)
    (htold : nodeId ∈ s.told) :
    UpdatesRight digest handlesAt dir dbName s conn nodeId ↔
      (∀ block, conn.indexBlock = .held block → block.index.header.count ≤ nodeId.2) ∨
        ¬ Room s.tree conn := by
  have hintact := graphDbRun_intact habs hrun
  obtain ⟨n, hindexed, husable⟩ := hintact.usable
  have hid := hintact.told nodeId htold
  constructor
  · intro hright
    by_contra hrefused
    rw [not_or, not_not] at hrefused
    obtain ⟨hcounts, hroom⟩ := hrefused
    obtain ⟨block, hcounts⟩ := Classical.not_forall.mp hcounts
    obtain ⟨hblock, hcounted⟩ := Classical.not_imp.mp hcounts
    rw [UInt32.not_le] at hcounted
    -- whatever the node is, the same entry takes its place
    have hsame : ∀ r, (bareNode r).bytes = (selfEntry nodeId).bytes := by
      intro r
      have hsize : (bareNode r).size = 16 := rfl
      have hbare : (bareNode r).payload.bytes.length = 16 := (bareNode r).bytes_length
      obtain ⟨info, conn', t', hupdate, ⟨m, hindexed'⟩, hleads⟩ :=
        (husable conn hconn).update_bare hindexed hid hblock hcounted hroom hbare
          (Vector.replicate 16 0)
      exact recovered_selfEntry hindexed' (husable conn hconn).dir_fits hid hleads
        (hright _ _ _ (bareNode r) (by rw [hsize]; decide) info conn' t' hupdate).1
    exact absurd ((hsame 0).trans (hsame 1).symm) (by decide)
  · intro hrefused e garbage blockAt node _ info conn' t' hupdate
    obtain ⟨block, hblock⟩ := held_of_graphDbUpdate hupdate
    obtain ⟨hcounted, hroom⟩ :=
      counted_and_room_of_ret (husable conn hconn) hindexed hid hblock hupdate
    rcases hrefused with hpast | hfull
    · exact absurd (UInt32.not_le.mpr hcounted) (not_not.mpr (hpast block hblock))
    · exact absurd hroom hfull

def firstId : UInt64 × UInt32 := (graphDbGetBlockId (fun _ => graphHash) "graph", 0)

/-- An update of the only node, through the connection that inserted it, returns
zero; the lookup that follows gives the entry of the node, not the node, wherever
its handles are. -/
theorem graphDbRun_not_updatesRight :
    ∃ s conn, graphDbRun (fun _ => graphHash) "" "graph" (fun _ => none) 0
        [.connect 0x8412a0, .insert 0 (clearCall (bareNode 1)) (0, 0)] = some s ∧
      conn ∈ s.conns ∧ firstId ∈ s.told ∧
      ∀ handlesAt, ¬ UpdatesRight (fun _ => graphHash) handlesAt "" "graph" s conn firstId := by
  have hrun : (do
      let s ← graphDbRun (fun _ => graphHash) "" "graph" (fun _ => none) 0
        [.connect 0x8412a0, .insert 0 (clearCall (bareNode 1)) (0, 0)]
      let conn ← s.conns[0]?
      let ((ret, _, _), tree) ← (graphDbUpdate (clearCall (bareNode 2)).env (.replicate 16 0)
        0x8413c0 conn firstId.1 firstId.2 (bareNode 2).info (bareNode 2).attrs
        (bareNode 2).attrCount (bareNode 2).edges (bareNode 2).edgeCount).run serve s.tree
      let (found, _) ← (findFresh (fun _ => graphHash) (0x8413c0, 0x8413f0) "" "graph"
        (.replicate 16 0) firstId.1 firstId.2).run serve tree
      return (s.told, ret, found)) = some ([firstId], 0, some (selfEntry firstId).bytes) := by
    decide +kernel
  obtain ⟨s, hs, hrun⟩ := Option.bind_eq_some_iff.mp hrun
  obtain ⟨conn, hconn, hrun⟩ := Option.bind_eq_some_iff.mp hrun
  obtain ⟨⟨⟨ret, info, conn'⟩, tree⟩, hupdate, hrun⟩ := Option.bind_eq_some_iff.mp hrun
  obtain ⟨⟨found, tree'⟩, hfind, hrun⟩ := Option.bind_eq_some_iff.mp hrun
  obtain ⟨htold, hrest⟩ := Prod.mk.inj (Option.some.inj hrun)
  obtain ⟨rfl, rfl⟩ := Prod.mk.inj hrest
  refine ⟨s, conn, hs, List.mem_of_getElem? hconn, by simp [htold], fun handlesAt hright => ?_⟩
  have hrec := (hright _ _ _ (bareNode 2) (by decide) info conn' tree hupdate).1
  have hat := hrec.survive
  have hsame : findFresh (fun _ => graphHash) handlesAt "" "graph" (.replicate 16 0) firstId.1
      firstId.2 = findFresh (fun _ => graphHash) (0x8413c0, 0x8413f0) "" "graph"
        (.replicate 16 0) firstId.1 firstId.2 :=
    findFresh_congr hat ⟨by decide, by decide⟩ _ _ _ _ _
  have hfound := hrec (.replicate 16 0) firstId.1
  rw [hsame, hfind] at hfound
  exact absurd (Option.some.inj (Prod.mk.inj (Option.some.inj hfound)).1) (by decide)

/-- What a handle counts, where the pointer leads to one. -/
def Handle.count : Handle → Option UInt32
  | .held block => some block.index.header.count
  | .null | .astray => none

/-- Through a connection opened before the node was inserted no update gets as
far as the entry. -/
theorem graphDbRun_updatesRight_stale :
    ∃ s conn, graphDbRun (fun _ => graphHash) "" "graph" (fun _ => none) 0
        [.connect 0x8412a0, .connect 0x8412d0, .insert 0 (clearCall (bareNode 1)) (0, 0)] =
          some s ∧
      conn ∈ s.conns ∧ firstId ∈ s.told ∧
      UpdatesRight (fun _ => graphHash) (0x8413c0, 0x8413f0) "" "graph" s conn firstId := by
  have hrun : (do
      let s ← graphDbRun (fun _ => graphHash) "" "graph" (fun _ => none) 0
        [.connect 0x8412a0, .connect 0x8412d0, .insert 0 (clearCall (bareNode 1)) (0, 0)]
      let conn ← s.conns[1]?
      return (s.told, conn.indexBlock.count)) = some ([firstId], some (0 : UInt32)) := by
    decide +kernel
  obtain ⟨s, hs, hrun⟩ := Option.bind_eq_some_iff.mp hrun
  obtain ⟨conn, hconn, hrun⟩ := Option.bind_eq_some_iff.mp hrun
  obtain ⟨htold, hcount⟩ := Prod.mk.inj (Option.some.inj hrun)
  have hmem := List.mem_of_getElem? hconn
  refine ⟨s, conn, hs, hmem, by simp [htold], ?_⟩
  refine (updatesRight_iff ⟨rfl, rfl⟩ hs hmem (by simp [htold])).mpr (Or.inl ?_)
  intro block hblock
  rw [hblock] at hcount
  obtain hcount : block.index.header.count = 0 := Option.some.inj hcount
  rw [hcount]
  decide

end SeaStore.Graph
