import SeaStore.Graph.Lookup
import SeaStore.Block.Leftover
import Mathlib.Data.List.Nodup

/-!
Destroying a graph database and creating it again. Only the data file of the
index block is removed: the entries of the old database stay in its index file,
and those of the new one go behind them. All index records have one size, so that
the `i`-th old entry leads to the `i`-th new record; where there are more new
records than old ones, the last of them are not reached.
-/
namespace SeaStore.Graph

open Posix Block

/-- What happens to the old database: a new connection, or an insert through the
`k`-th one. Closing a connection changes no file. -/
inductive FillOp
  | connect (openAt : UInt64)
  | insert (k : ℕ) (op : GraphInsert)

/-- The files, the connections, and how many inserts have returned zero. -/
structure FilledDb where
  tree : FileTree SeaPath
  conns : List GraphDbConn
  entered : ℕ

deriving instance DecidableEq for GraphDbIndexNodeData

def lastRecord (t : FileTree SeaPath) (dir : String) (id : UInt64) : Option GraphDbIndexNodeData :=
  (t (.data dir id)).map fun f =>
    .ofBytes (slice f.bytes (f.size - (indexNodeDataSize + dataTailSize)) indexNodeDataSize)

/-- The new database: the files, its connection, and what the inserts have told, with
the index records that they have written. -/
structure RenewedDb where
  tree : FileTree SeaPath
  conn : GraphDbConn
  told : List (UInt32 × GraphDbIndexNodeData)

/-- An insert all of whose calls complete. -/
def insertWhole (op : GraphInsert) (conn : GraphDbConn) : Prog (InsertResult × GraphDbConn) :=
  graphDbInsert ⟨⟨op.now, .whole⟩, op.dataAt, op.data, .none, op.index, .none⟩ conn op.node.info
    op.node.attrs op.node.attrCount op.node.edges op.node.edgeCount op.out.1 op.out.2

variable (digest : String → Word.Digest)

def fillStep (dir dbName : String) (s : FilledDb) : FillOp → Option FilledDb
  | .connect openAt => do
    let (conn, tree) ← (graphDbOpen digest openAt dir dbName).run serve s.tree
    return { s with tree := tree, conns := s.conns ++ [conn] }
  | .insert k op => do
    let conn ← s.conns[k]?
    let ((result, conn), tree) ← (insertWhole op conn).run serve s.tree
    return ⟨tree, s.conns.set k conn, if result.ret = 0 then s.entered + 1 else s.entered⟩

/-- A database is created and filled. -/
def fillRun (dir dbName : String) (t : FileTree SeaPath) (now : UInt64) (ops : List FillOp) :
    Option FilledDb := do
  let (ret, tree) ← (graphDbCreate digest ⟨now, .whole⟩ dir dbName).run serve t
  if ret ≠ 0 then none
  runSteps (fillStep digest dir dbName) ⟨tree, [], 0⟩ ops

def renewStep (dir dbName : String) (s : RenewedDb) (op : GraphInsert) : Option RenewedDb :=
  match (insertWhole op s.conn).run serve s.tree with
  | some ((⟨0, _, recordId, _⟩, conn), tree) =>
    (lastRecord tree dir (graphDbGetBlockId digest dbName)).map fun data =>
      ⟨tree, conn, s.told ++ [(recordId, data)]⟩
  | _ => none

def renewRun (openAt : UInt64) (dir dbName : String) (t : FileTree SeaPath) (now : UInt64)
    (ops : List GraphInsert) : Option RenewedDb := do
  let (ret, tree) ← (graphDbDestroy digest dir dbName).run serve t
  if ret ≠ 0 then none
  let (ret, tree) ← (graphDbCreate digest ⟨now, .whole⟩ dir dbName).run serve tree
  if ret ≠ 0 then none
  let (conn, tree) ← (graphDbOpen digest openAt dir dbName).run serve tree
  runSteps (renewStep digest dir dbName) ⟨tree, conn, []⟩ ops

variable {digest} {t t' : FileTree SeaPath} {dir dbName : String} {id : UInt64}
  {hdr : SeaBlockIndexHeader} {stale : List SeaBlockIndexEntry}
  {filled : List (Ambient × Payload)} {conn conn' : GraphDbConn}

/-- A connection whose handles are on the index block and on the data block. -/
structure Connected (dir : String) (id : UInt64) (conn : GraphDbConn) : Prop where
  dir_eq : conn.dir = dir
  index : ∀ block, conn.indexBlock = .held block → block.On dir id
  data : ∀ block ∈ conn.dataBlock, block.On dir graphDataBlockId

theorem Connected.dataBlock (h : Connected dir id conn) (now address : UInt64)
    (t : FileTree SeaPath) :
    ∃ handle t', (graphDataBlock ⟨now, .whole⟩ address conn graphDataBlockId).run serve t =
        some (handle, t') ∧ AgreeOff t t' dir graphDataBlockId ∧
      ∀ block, handle = .held block → block.On dir graphDataBlockId ∧
        block.index.header.count = nextDataId conn := by
  unfold graphDataBlock
  rw [nextDataId]
  cases hconn : conn.dataBlock with
  | some block =>
    refine ⟨.held block, t, rfl, AgreeOff.refl _ _ _, ?_⟩
    rintro _ ⟨⟩
    exact ⟨h.data block hconn, rfl⟩
  | none =>
    obtain ⟨t', hcreate, hopen, hagree⟩ :=
      run_seaBlockCreate_ready t dir graphDataBlockId now graphMaxSize graphMaxCount
    refine ⟨.ofInt address (some (openedBlock dir graphDataBlockId
      (createdHeader graphDataBlockId graphMaxCount now))), t', ?_, hagree, fun block hheld => ?_⟩
    · simp only [h.dir_eq]
      rw [Program.run_bind_of_run serve hcreate]
      unfold seaBlockOpenInt
      rw [Program.run_bind_of_run serve hopen]
      rfl
    · obtain rfl := Option.some.inj (Handle.eq_some_of_ofInt hheld)
      exact ⟨openedBlock_on dir graphDataBlockId _, rfl⟩

/-- What an insert that comes to the index does there. -/
structure Entering (t₁ t' : FileTree SeaPath) (conn : GraphDbConn) (op : GraphInsert)
    (result : InsertResult) (conn' : GraphDbConn) (block : SeaBlock)
    (entry : GraphDbIndexNodeData) (entered : AppendResult) (block' : SeaBlock) : Prop where
  index : conn.indexBlock = .held block
  run : (seaBlockAppend op.index .none block entry.payload.bytes entry.payload.length).run serve
    t₁ = some ((entered, block'), t')
  index' : conn'.indexBlock = .held block'
  ret_eq : result.ret = entered.ret
  id_eq : entered.ret = 0 → result.nodeRecordId = entered.recordId.getD 0
  entry_eq : entry = ⟨graphDataBlockId, nextDataId conn, 0⟩
  next : nextDataId conn' = nextDataId conn + 1

/-- An insert works on the data block first, and then on the index block or not at all. -/
theorem Connected.insert (h : Connected dir id conn) (hne : id ≠ graphDataBlockId)
    {op : GraphInsert} {result : InsertResult}
    (hrun : (insertWhole op conn).run serve t = some ((result, conn'), t')) :
    conn'.dir = dir ∧ (∀ block ∈ conn'.dataBlock, block.On dir graphDataBlockId) ∧
      ∃ t₁, AgreeOff t t₁ dir graphDataBlockId ∧
        ((result.ret ≠ 0 ∧ conn'.indexBlock = conn.indexBlock ∧ t' = t₁) ∨
          ∃ block entry entered block',
            Entering t₁ t' conn op result conn' block entry entered block') := by
  obtain ⟨handle, t₁, hdata, hagree, hheld⟩ := h.dataBlock op.now op.dataAt t
  cases handle with
  | astray =>
    unfold insertWhole graphDbInsert graphDbInsertInternal at hrun
    simp only [Bool.false_eq_true, if_false] at hrun
    rw [Program.run_bind_of_run serve hdata] at hrun
    exact absurd hrun (by simp)
  | null =>
    unfold insertWhole graphDbInsert graphDbInsertInternal at hrun
    simp only [Bool.false_eq_true, if_false] at hrun
    rw [Program.run_bind_of_run serve hdata] at hrun
    obtain ⟨hpair, rfl⟩ := Prod.mk.inj (Option.some.inj hrun)
    obtain ⟨rfl, rfl⟩ := Prod.mk.inj hpair
    exact ⟨h.dir_eq, by simp, t₁, hagree, Or.inl ⟨show EINVAL ≠ 0 by decide, rfl, rfl⟩⟩
  | held dataBlock =>
    obtain ⟨hdataOn, hcount⟩ := hheld dataBlock rfl
    have hdata' : (graphDataBlock (InsertEnv.mk ⟨op.now, .whole⟩ op.dataAt op.data .none op.index
        .none).create op.dataAt conn graphDataBlockId).run serve t =
          some (.held dataBlock, t₁) := hdata
    obtain ⟨stored, dataBlock', t₂, happend, hcases⟩ := insert_split hdata' hrun
    have hspares : ∀ path, path ≠ .data dir graphDataBlockId →
        path ≠ .index dir graphDataBlockId →
          dataBlock'.On dir graphDataBlockId ∧ t₂ path = t₁ path := fun path hd hi =>
      (spares_seaBlockAppend hdataOn hd hi _ _ _ _).run happend
    have hagree₂ : AgreeOff t t₂ dir graphDataBlockId := fun path hd hi =>
      (hspares path hd hi).2.trans (hagree path hd hi)
    have hon' : dataBlock'.On dir graphDataBlockId :=
      (hspares (.data dir id) (by simpa using hne) (by simp)).1
    rcases hcases with ⟨hret, rfl, rfl⟩ |
      ⟨hstored, entry, block, entered, indexBlock', hentry, hblock, hindex, hret, hid, rfl⟩
    · refine ⟨h.dir_eq, ?_, t', hagree₂, Or.inl ⟨hret, rfl, rfl⟩⟩
      rintro _ ⟨⟩
      exact hon'
    · obtain ⟨hdataId, -, hheader⟩ := append_done hdataOn happend hstored
      refine ⟨h.dir_eq, ?_, t₂, hagree₂, Or.inr ⟨block, entry, entered, indexBlock', hblock, hindex,
        rfl, hret, hid, ?_, ?_⟩⟩
      · rintro _ ⟨⟩
        exact hon'
      · rw [hentry, hdataId, hcount]
        rfl
      · show dataBlock'.index.header.count = nextDataId conn + 1
        rw [hheader, ← hcount]
        rfl

/-- Work on the data block leaves the index block alone. -/
theorem leftover_agreeOff (hne : id ≠ graphDataBlockId)
    (hagree : AgreeOff t t' dir graphDataBlockId)
    (h : Leftover t dir id hdr stale filled) : Leftover t' dir id hdr stale filled :=
  h.congr (hagree _ (by simpa using hne) (by simp)) (hagree _ (by simp) (by simpa using hne))

theorem run_seaBlockOpen_leftover (h : Leftover t dir id hdr stale filled) :
    (seaBlockOpen dir id).run serve t = some (some (openedBlock dir id hdr), t) := by
  obtain ⟨f, g, entries, hf, hg, hbytes, -, -⟩ := h
  exact run_seaBlockOpen_bytes hf hg hbytes

theorem connected_opened {openAt : UInt64}
    (hrun : (graphDbOpen digest openAt dir dbName).run serve t = some (conn, t'))
    (h : Leftover t dir (graphDbGetBlockId digest dbName) hdr stale filled) :
    conn = ⟨dir, graphDbGetBlockId digest dbName,
        .ofInt openAt (some (openedBlock dir (graphDbGetBlockId digest dbName) hdr)), none⟩ ∧
      t' = t ∧ Connected dir (graphDbGetBlockId digest dbName) conn := by
  rw [run_graphDbOpen openAt (dir_of_graphDbOpen hrun) (run_seaBlockOpen_leftover h)] at hrun
  obtain ⟨rfl, rfl⟩ := Prod.mk.inj (Option.some.inj hrun)
  refine ⟨rfl, rfl, rfl, fun block hheld => ?_, by simp⟩
  obtain rfl := Option.some.inj (Handle.eq_some_of_ofInt hheld)
  exact openedBlock_on dir _ hdr

/-- The old database: its index records lie end to end, and the handles of the
connections are on them. -/
structure InUse (dir : String) (id : UInt64) (s : FilledDb) : Prop where
  stored : ∃ hdr filled, Leftover s.tree dir id hdr [] filled ∧
    (∀ op ∈ filled, op.2.bytes.length = indexNodeDataSize) ∧ filled.length = s.entered
  conns : ∀ conn ∈ s.conns, Connected dir id conn

/-- An insert adds an index record when it returns zero, and else leaves them. -/
theorem InUse.insert {s : FilledDb} (h : InUse dir id s) (hne : id ≠ graphDataBlockId) {k : ℕ}
    (hk : s.conns[k]? = some conn) {op : GraphInsert} {result : InsertResult}
    (hrun : (insertWhole op conn).run serve s.tree = some ((result, conn'), t')) :
    InUse dir id ⟨t', s.conns.set k conn',
      if result.ret = 0 then s.entered + 1 else s.entered⟩ := by
  obtain ⟨hdr, filled, hleft, hsize, hlen⟩ := h.stored
  have hconn := h.conns conn (List.mem_of_getElem? hk)
  obtain ⟨hdir, hdata, t₁, hagree, hcases⟩ := hconn.insert hne hrun
  have hleft₁ := leftover_agreeOff hne hagree hleft
  have hset : (∀ block, conn'.indexBlock = .held block → block.On dir id) →
      ∀ c ∈ s.conns.set k conn', Connected dir id c := by
    intro hindex c hc
    rcases List.mem_or_eq_of_mem_set hc with hc | rfl
    · exact h.conns c hc
    · exact ⟨hdir, hindex, hdata⟩
  rcases hcases with ⟨hret, hindex, rfl⟩ | ⟨block, entry, entered, block', hin⟩
  · rw [if_neg hret]
    refine ⟨⟨hdr, filled, hleft₁, hsize, hlen⟩, hset ?_⟩
    rw [hindex]
    exact hconn.index
  have hon := hconn.index block hin.index
  have hset' : block'.On dir id → ∀ c ∈ s.conns.set k conn', Connected dir id c := by
    intro hon'
    apply hset
    rw [hin.index']
    rintro _ ⟨⟩
    exact hon'
  by_cases hret : entered.ret = 0
  · obtain ⟨-, hon', -⟩ := append_done hon hin.run hret
    rw [if_pos (hin.ret_eq.trans hret)]
    refine ⟨⟨_, _, hleft₁.append hon hin.run hret, ?_, ?_⟩, hset' hon'⟩
    · intro op' hop
      rcases List.mem_append.mp hop with hop | hop
      · exact hsize op' hop
      · rw [List.mem_singleton.mp hop, GraphDbIndexNodeData.payload_bytes,
          GraphDbIndexNodeData.bytes_length]
    · rw [List.length_append, List.length_singleton, hlen]
  · obtain ⟨hleft', hon'⟩ := hleft₁.append_fails (by decide) hsize hon hin.run hret
    rw [if_neg (fun hzero => hret (hin.ret_eq.symm.trans hzero))]
    exact ⟨⟨hdr, filled, hleft', hsize, hlen⟩, hset' hon'⟩

theorem fillStep_inUse {s s' : FilledDb} {op : FillOp}
    (h : InUse dir (graphDbGetBlockId digest dbName) s)
    (hstep : fillStep digest dir dbName s op = some s') :
    InUse dir (graphDbGetBlockId digest dbName) s' := by
  cases op with
  | connect openAt =>
    obtain ⟨⟨conn, tree⟩, hopen, hsame⟩ := Option.bind_eq_some_iff.mp hstep
    obtain rfl := Option.some.inj hsame
    obtain ⟨hdr, filled, hleft, hsize, hlen⟩ := h.stored
    obtain ⟨-, rfl, hconn⟩ := connected_opened hopen hleft
    refine ⟨⟨hdr, filled, hleft, hsize, hlen⟩, ?_⟩
    intro c hc
    rcases List.mem_append.mp hc with hc | hc
    · exact h.conns c hc
    · rw [List.mem_singleton.mp hc]
      exact hconn
  | insert k op =>
    obtain ⟨conn, hk, hstep⟩ := Option.bind_eq_some_iff.mp hstep
    obtain ⟨⟨⟨result, conn'⟩, tree⟩, hrun, hsame⟩ := Option.bind_eq_some_iff.mp hstep
    obtain rfl := Option.some.inj hsame
    exact h.insert (graphDbGetBlockId_ne digest dbName) hk hrun

theorem fillRun_inUse {now : UInt64} {ops : List FillOp} {s : FilledDb}
    (habs : Absent t dir (graphDbGetBlockId digest dbName))
    (hrun : fillRun digest dir dbName t now ops = some s) :
    InUse dir (graphDbGetBlockId digest dbName) s := by
  obtain ⟨t₁, hcreate, ⟨f, g, entries, hf, hg, hst⟩, -, hempty⟩ :=
    run_seaBlockCreate_absent habs now graphMaxSize graphMaxCount
  obtain rfl : entries = [] := List.length_eq_zero_iff.mp hst.length_eq
  obtain rfl := Option.some.inj (hf.symm.trans hempty)
  unfold fillRun graphDbCreate at hrun
  simp only [hcreate, Option.bind_eq_bind, Option.bind_some, ne_eq, not_true_eq_false,
    if_false] at hrun
  have hstart : InUse dir (graphDbGetBlockId digest dbName) ⟨t₁, [], 0⟩ :=
    ⟨⟨_, [], ⟨.empty, g, [], hf, hg, hst.index_bytes, rfl, rfl⟩, by simp, rfl⟩, by simp⟩
  exact runSteps_invariant (fun _ s => InUse dir (graphDbGetBlockId digest dbName) s)
    (fun _ _ _ _ h hstep => fillStep_inUse h hstep) hstart hrun

/-- The new database: the index records lie end to end behind the entries left over,
and the connection counts them. -/
structure Renewing (dir : String) (id : UInt64) (stale : List SeaBlockIndexEntry) (n : ℕ)
    (s : RenewedDb) : Prop where
  conn : Connected dir id s.conn
  stored : ∃ block filled, s.conn.indexBlock = .held block ∧
    block.index.header.count = UInt32.ofNat n ∧
    Leftover s.tree dir id block.index.header stale filled ∧
    filled.map Prod.snd = indexRecords n
  next : nextDataId s.conn = UInt32.ofNat n
  told : s.told.map (fun told => (told.1, told.2.payload)) = numbered 0 (indexRecords n)

/-- The last record of the data file is the one that was appended last. -/
theorem lastRecord_leftover {a : Ambient} {entry : GraphDbIndexNodeData}
    (h : Leftover t dir id hdr stale (filled ++ [(a, entry.payload)])) :
    lastRecord t dir id = some entry := by
  obtain ⟨f, g, entries, hf, -, -, hbytes, -⟩ := h
  have hframes : f.bytes = dataBytes filled ++ entry.payload.frame a := by
    rw [hbytes, dataBytes_append]
    simp [dataBytes]
  have hsize : f.size - (indexNodeDataSize + dataTailSize) =
      (dataBytes filled).length + dataHeaderSize := by
    rw [File.size, hframes, List.length_append, Payload.frame_length,
      GraphDbIndexNodeData.payload_bytes, GraphDbIndexNodeData.bytes_length]
    simp only [indexNodeDataSize, dataTailSize, dataHeaderSize]
    omega
  have hpayload := (FrameAt.at_end (dataBytes filled) a entry.payload).payload
  rw [GraphDbIndexNodeData.payload_bytes, GraphDbIndexNodeData.bytes_length, ← hframes,
    ← hsize] at hpayload
  rw [lastRecord, hf, Option.map_some, hpayload, GraphDbIndexNodeData.ofBytes_bytes]

theorem renewStep_renewing {s s' : RenewedDb} {op : GraphInsert} {n : ℕ}
    (h : Renewing dir (graphDbGetBlockId digest dbName) stale n s)
    (hstep : renewStep digest dir dbName s op = some s') :
    Renewing dir (graphDbGetBlockId digest dbName) stale (n + 1) s' := by
  have hne := graphDbGetBlockId_ne digest dbName
  obtain ⟨block, filled, hblock, hcount, hleft, hrecs⟩ := h.stored
  unfold renewStep at hstep
  split at hstep
  swap
  · exact absurd hstep (by simp)
  rename_i blockId recordId info conn' t' hrun
  obtain ⟨data, hlast, rfl⟩ := Option.map_eq_some_iff.mp hstep
  obtain ⟨hdir, hdata, t₁, hagree, hcases⟩ := h.conn.insert hne hrun
  rcases hcases with ⟨hret, -⟩ | ⟨block₁, entry, entered, block', hin⟩
  · exact absurd rfl hret
  obtain rfl : block = block₁ := Handle.held.inj (hblock.symm.trans hin.index)
  have hon := h.conn.index block hblock
  have hret : entered.ret = 0 := hin.ret_eq.symm
  obtain ⟨hid, hon', hheader⟩ := append_done hon hin.run hret
  have hleft' := (leftover_agreeOff hne hagree hleft).append hon hin.run hret
  have hentry : entry = data := by
    rw [lastRecord_leftover hleft'] at hlast
    exact Option.some.inj hlast
  have hpayload : entry.payload = indexPayload n := by
    apply Payload.ext
    rw [hin.entry_eq, h.next]
    rfl
  have hrecord : recordId = block.index.header.count := by
    have htold : recordId = entered.recordId.getD 0 := hin.id_eq hret
    rw [htold, hid, Option.getD_some]
  have hindex : ∀ block, conn'.indexBlock = .held block →
      block.On dir (graphDbGetBlockId digest dbName) := by
    rw [hin.index']
    rintro _ ⟨⟩
    exact hon'
  refine ⟨⟨hdir, hindex, hdata⟩, ⟨block', filled ++ [(op.index, entry.payload)], hin.index',
    ?_, ?_, ?_⟩, ?_, ?_⟩
  · rw [hheader, SeaBlockIndexHeader.bump, hcount, UInt32.ofNat_add]
    rfl
  · rw [hheader]
    exact hleft'
  · rw [List.map_append, List.map_singleton, hrecs, hpayload, indexRecords_succ]
  · rw [hin.next, h.next, UInt32.ofNat_add]
    rfl
  · rw [List.map_append, List.map_singleton, h.told, ← hentry, hpayload, hrecord, hcount,
      indexRecords_succ, numbered_concat, indexRecords_length, UInt32.zero_add]

theorem indexRecords_nodup {n : ℕ} (hfit : n < 2 ^ 32) : (indexRecords n).Nodup := by
  refine (List.nodup_map_iff_inj_on List.nodup_range).mpr ?_
  intro i hi j hj hsame
  have hbytes := congrArg Payload.bytes hsame
  rw [indexPayload_bytes, indexPayload_bytes] at hbytes
  have hdata := congrArg GraphDbIndexNodeData.ofBytes hbytes
  rw [GraphDbIndexNodeData.ofBytes_bytes, GraphDbIndexNodeData.ofBytes_bytes] at hdata
  have hid := congrArg UInt32.toNat (GraphDbIndexNodeData.mk.inj hdata).2.1
  rw [List.mem_range] at hi hj
  rwa [UInt32.toNat_ofNat', UInt32.toNat_ofNat', Nat.mod_eq_of_lt (Nat.lt_trans hi hfit),
    Nat.mod_eq_of_lt (Nat.lt_trans hj hfit)] at hid

/-- Such an insert is one of a session. -/
theorem renewStep_eq (s : RenewedDb) (op : GraphInsert) :
    renewStep digest dir dbName s op = (graphStep ⟨s.tree, s.conn, []⟩ op).bind fun step =>
      (lastRecord step.tree dir (graphDbGetBlockId digest dbName)).map fun data =>
        ⟨step.tree, step.conn, s.told ++ step.inserted.map fun entry => (entry.1, data)⟩ := by
  unfold renewStep graphStep insertWhole
  generalize (graphDbInsert _ s.conn op.node.info op.node.attrs op.node.attrCount op.node.edges
    op.node.edgeCount op.out.1 op.out.2).run serve s.tree = done
  cases done with
  | none => rfl
  | some done =>
    obtain ⟨⟨⟨ret, nodeBlockId, recordId, node⟩, conn⟩, tree⟩ := done
    cases ret with
    | zero => rfl
    | succ ret => rfl

theorem renewStep_low {s : RenewedDb} {op : GraphInsert} (h : Reaches s.conn op.dataAt) :
    renewStep digest dir dbName s op = renewStep digest dir dbName s op.low := by
  rw [renewStep_eq, renewStep_eq, graphStep_low h]

theorem renewStep_holds {s s' : RenewedDb} {op : GraphInsert}
    (hstep : renewStep digest dir dbName s op = some s') : s'.conn.dataBlock ≠ none := by
  rw [renewStep_eq] at hstep
  obtain ⟨step, hinsert, hstep⟩ := Option.bind_eq_some_iff.mp hstep
  obtain ⟨data, -, rfl⟩ := Option.map_eq_some_iff.mp hstep
  exact graphStep_holds hinsert

theorem renewSteps_low {s : RenewedDb} (ops : List GraphInsert) (h : s.conn.dataBlock ≠ none) :
    runSteps (renewStep digest dir dbName) s ops =
      runSteps (renewStep digest dir dbName) s (ops.map GraphInsert.low) := by
  induction ops generalizing s with
  | nil => rfl
  | cons op ops ih =>
    rw [List.map_cons, runSteps, runSteps, renewStep_low fun hnone => absurd hnone h]
    cases hstep : renewStep digest dir dbName s op.low with
    | none => rfl
    | some s' => exact ih (renewStep_holds hstep)

/-- Inserts on a new connection whose handles are got at are the same with the handles
elsewhere. -/
theorem renewSteps_opened {openAt : UInt64} {op : GraphInsert} (hat : Survives openAt)
    (hdata : Survives op.dataAt) (block : SeaBlock) (ops : List GraphInsert) :
    runSteps (renewStep digest dir dbName)
        ⟨t, ⟨dir, id, .ofInt openAt (some block), none⟩, []⟩ (op :: ops) =
      runSteps (renewStep digest dir dbName) ⟨t, ⟨dir, id, .held block, none⟩, []⟩
        ((op :: ops).map GraphInsert.low) := by
  rw [Handle.ofInt_held hat, List.map_cons, runSteps, runSteps, renewStep_low fun _ => hdata]
  cases hstep : renewStep digest dir dbName ⟨t, ⟨dir, id, .held block, none⟩, []⟩ op.low with
  | none => rfl
  | some s => exact renewSteps_low ops (renewStep_holds hstep)

/-- Those that come off have got at them. -/
theorem survives_of_renewSteps {openAt : UInt64} {op : GraphInsert} {block : SeaBlock}
    {ops : List GraphInsert} {s : RenewedDb}
    (hrun : runSteps (renewStep digest dir dbName)
      ⟨t, ⟨dir, id, .ofInt openAt (some block), none⟩, []⟩ (op :: ops) = some s) :
    Survives openAt ∧ Survives op.dataAt := by
  obtain ⟨s₁, hstep, -⟩ := Option.bind_eq_some_iff.mp hrun
  rw [renewStep_eq] at hstep
  obtain ⟨step, hinsert, -⟩ := Option.bind_eq_some_iff.mp hstep
  have hnone := mt graphStep_none (hinsert ▸ Option.some_ne_none step)
  rw [not_or, not_not] at hnone
  refine ⟨?_, hnone.1 rfl⟩
  by_contra hcut
  exact hnone.2 (Handle.ofInt_ne_held hcut (some block))

/-- A renewal leaves the entries of the old database in front of those of the new one. -/
theorem renewRun_eq {now : UInt64} {db : FilledDb}
    (hold : InUse dir (graphDbGetBlockId digest dbName) db) :
    ∃ t₁ stale, stale.map (fun e => e.offset.toNat) = evenly indexNodeDataSize stale.length ∧
      stale.length = db.entered ∧
      Leftover t₁ dir (graphDbGetBlockId digest dbName)
        (createdHeader (graphDbGetBlockId digest dbName) graphMaxCount now) stale [] ∧
      ∀ openAt ops, renewRun digest openAt dir dbName db.tree now ops =
        ((graphDbOpen digest openAt dir dbName).run serve t₁).bind fun opened =>
          runSteps (renewStep digest dir dbName) ⟨opened.2, opened.1, []⟩ ops := by
  obtain ⟨hdr, filled, hleft, hsize, hlen⟩ := hold.stored
  obtain ⟨t₁, t₂, stale, hdestroy, hcreate, hleft', hstale, hcount⟩ :=
    hleft.recreate hsize now graphMaxSize graphMaxCount
  refine ⟨t₂, stale, hstale, hcount.trans hlen, hleft', fun openAt ops => ?_⟩
  unfold renewRun graphDbDestroy graphDbCreate
  simp only [hdestroy, hcreate, Option.bind_eq_bind, Option.bind_some, ne_eq, not_true_eq_false,
    if_false]

/-- The entries of the new database then all lead where their inserts have put them
under one condition on the numbers of entries. -/
theorem Renewing.readsBack_iff {n m : ℕ} {s : RenewedDb}
    (h : Renewing dir (graphDbGetBlockId digest dbName) stale n s)
    (hstale : stale.map (fun e => e.offset.toNat) = evenly indexNodeDataSize stale.length)
    (hcount : stale.length = m) :
    (∀ recordId data, (recordId, data) ∈ s.told →
        ReadsBack s.tree dir (graphDbGetBlockId digest dbName) recordId data.payload) ↔
      n < 2 ^ 32 ∧ (m = 0 ∨ n ≤ m) := by
  obtain ⟨block, filled, -, hheader, hleft, hrecs⟩ := h.stored
  have hlen : filled.length = n := by
    rw [← List.length_map Prod.snd, hrecs, indexRecords_length]
  have hsize : ∀ op ∈ filled, op.2.bytes.length = indexNodeDataSize := by
    intro op hop
    have hmem : op.2 ∈ indexRecords n := hrecs ▸ List.mem_map_of_mem hop
    obtain ⟨i, -, hi⟩ := List.mem_map.mp hmem
    rw [← hi, indexPayload_bytes, GraphDbIndexNodeData.bytes_length]
  have hdiffer : filled.length < 2 ^ 32 → (filled.map Prod.snd).Nodup := by
    intro hfit
    rw [hrecs]
    exact indexRecords_nodup (hlen ▸ hfit)
  have hiff := hleft.numbered_readsBack_iff hsize hstale (hlen.symm ▸ hheader) hdiffer
  rw [hrecs, ← h.told, hlen, hcount, ← List.length_eq_zero_iff, hcount] at hiff
  rw [← hiff]
  constructor
  · intro hall recordId p hmem
    obtain ⟨⟨recordId', data⟩, htold, hsame⟩ := List.mem_map.mp hmem
    obtain ⟨rfl, rfl⟩ := Prod.mk.inj hsame
    exact hall recordId' data htold
  · intro hall recordId data hmem
    exact hall recordId data.payload (List.mem_map.mpr ⟨(recordId, data), hmem, rfl⟩)

/-- A renewal whose inserts return zero with low handles comes to its end, and every
record id of the new database leads to the index record that its insert has written,
exactly when the handles of the connection are got at, if there is an insert, there are
fewer than `2 ^ 32` of them, and the old database was empty or had no fewer. -/
theorem renewRun_resolves_iff {now now' openAt : UInt64} {old : List FillOp}
    {ops : List GraphInsert} {db : FilledDb} {s₀ : RenewedDb}
    (habs : Absent t dir (graphDbGetBlockId digest dbName))
    (hold : fillRun digest dir dbName t now old = some db)
    (hnew : renewRun digest lowAddress dir dbName db.tree now' (ops.map GraphInsert.low) =
      some s₀) :
    (∃ s, renewRun digest openAt dir dbName db.tree now' ops = some s ∧
        ∀ recordId data, (recordId, data) ∈ s.told →
          ReadsBack s.tree dir (graphDbGetBlockId digest dbName) recordId data.payload) ↔
      (∀ op ∈ ops.head?, Survives openAt ∧ Survives op.dataAt) ∧
        ops.length < 2 ^ 32 ∧ (db.entered = 0 ∨ ops.length ≤ db.entered) := by
  obtain ⟨t₁, stale, hstale, hcount, hleft, hrenew⟩ := renewRun_eq (fillRun_inUse habs hold)
  rw [hrenew] at hnew ⊢
  obtain ⟨⟨conn, t₂⟩, hopen, hsteps⟩ := Option.bind_eq_some_iff.mp hnew
  have hdir := dir_of_graphDbOpen hopen
  obtain ⟨rfl, rfl, hconn⟩ := connected_opened hopen hleft
  rw [run_graphDbOpen openAt hdir (run_seaBlockOpen_leftover hleft), Option.bind_some]
  rw [Handle.ofInt_held survives_lowAddress] at hsteps hconn
  have hrenewing := runSteps_invariant
    (fun past s => Renewing dir (graphDbGetBlockId digest dbName) stale past.length s)
    (fun past op s s' h hstep => by simpa using renewStep_renewing h hstep)
    ⟨hconn, ⟨_, [], rfl, rfl, hleft, rfl⟩, rfl, rfl⟩ hsteps
  rw [List.length_map] at hrenewing
  rw [← hrenewing.readsBack_iff hstale hcount]
  cases ops with
  | nil =>
    obtain rfl := Option.some.inj hsteps
    simp [runSteps]
  | cons op ops =>
    simp only [List.head?_cons, Option.mem_some_iff, forall_eq']
    constructor
    · rintro ⟨s, hs, hall⟩
      have hsurvives := survives_of_renewSteps hs
      rw [renewSteps_opened hsurvives.1 hsurvives.2] at hs
      obtain rfl := Option.some.inj (hs.symm.trans hsteps)
      exact ⟨hsurvives, hall⟩
    · rintro ⟨hsurvives, hall⟩
      exact ⟨s₀, (renewSteps_opened hsurvives.1 hsurvives.2 _ ops).trans hsteps, hall⟩

def plainInsert : GraphInsert :=
  ⟨0, 0x8414e0, .clear 0, .clear 0, ⟨⟨0, 0, 0, 0⟩, [], [], nil_lt, nil_lt⟩, (0, 0)⟩

/-- One old record and two new ones: the second new one is not reached. -/
theorem renewRun_not_resolves :
    ∃ db s, fillRun (fun _ => graphHash) "" "graph" (fun _ => none) 0
        [.connect 0x8412a0, .insert 0 plainInsert] = some db ∧
      renewRun (fun _ => graphHash) 0x8412a0 "" "graph" db.tree 0 [plainInsert, plainInsert] =
        some s ∧
      (1, ⟨graphDataBlockId, 1, 0⟩) ∈ s.told ∧
      ¬ ReadsBack s.tree "" (graphDbGetBlockId (fun _ => graphHash) "graph") 1
        (GraphDbIndexNodeData.mk graphDataBlockId 1 0).payload := by
  obtain ⟨db, hold, hdb⟩ := Option.bind_eq_some_iff.mp (show ((fillRun (fun _ => graphHash) ""
    "graph" (fun _ => none) 0 [.connect 0x8412a0, .insert 0 plainInsert]).bind fun db =>
      (renewRun (fun _ => graphHash) 0x8412a0 "" "graph" db.tree 0
        [plainInsert, plainInsert]).map fun s =>
        (decide ((1, GraphDbIndexNodeData.mk graphDataBlockId 1 0) ∈ s.told),
          ((queryFresh "" (graphDbGetBlockId (fun _ => graphHash) "graph") 1
            (GraphDbIndexNodeData.mk graphDataBlockId 1 0).payload.length).run serve s.tree).map
              Prod.fst)) =
    some (true, some ⟨0, some (GraphDbIndexNodeData.mk graphDataBlockId 0 0).bytes⟩) by
      decide +kernel)
  obtain ⟨s, hnew, hs⟩ := Option.map_eq_some_iff.mp hdb
  obtain ⟨htold, hquery⟩ := Prod.mk.inj hs
  exact ⟨db, s, hold, hnew, of_decide_eq_true htold, not_readsBack hquery (by decide)⟩

/-- Two old records and two new ones. -/
theorem renewRun_resolves_two :
    ∃ db, fillRun (fun _ => graphHash) "" "graph" (fun _ => none) 0
        [.connect 0x8412a0, .insert 0 plainInsert, .connect 0x8412d0, .insert 1 plainInsert] =
          some db ∧
      ∃ s, renewRun (fun _ => graphHash) 0x8412a0 "" "graph" db.tree 0
          [plainInsert, plainInsert] = some s ∧
        ∀ recordId data, (recordId, data) ∈ s.told →
          ReadsBack s.tree "" (graphDbGetBlockId (fun _ => graphHash) "graph") recordId
            data.payload := by
  obtain ⟨⟨db, s⟩, hruns⟩ := Option.isSome_iff_exists.mp (show ((fillRun (fun _ => graphHash) ""
    "graph" (fun _ => none) 0 [.connect 0x8412a0, .insert 0 plainInsert, .connect 0x8412d0,
      .insert 1 plainInsert]).bind fun db => (renewRun (fun _ => graphHash) lowAddress "" "graph"
        db.tree 0 ([plainInsert, plainInsert].map GraphInsert.low)).bind fun s =>
          if db.entered = 2 then some (db, s) else none).isSome by decide +kernel)
  obtain ⟨db', hold, hruns⟩ := Option.bind_eq_some_iff.mp hruns
  obtain ⟨s', hnew, hruns⟩ := Option.bind_eq_some_iff.mp hruns
  split at hruns
  swap
  · exact absurd hruns (by simp)
  rename_i hentered
  refine ⟨db', hold, (renewRun_resolves_iff ⟨rfl, rfl⟩ hold hnew).mpr
    ⟨?_, by decide, Or.inr ?_⟩⟩
  · rintro _ ⟨⟩
    exact ⟨by decide, by decide⟩
  · rw [hentered]
    decide

end SeaStore.Graph
