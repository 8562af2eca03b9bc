import SeaStore.Graph.Lookup
import Mathlib.Data.List.Flatten
import Mathlib.Data.List.Induction
import Mathlib.Data.List.Nodup

/-!
Sessions on several databases in one directory. Every database has its index
block, and all of them share the data block. The first insert of a session
creates the data block over the one that is there, so that the nodes of all
sessions are stored one behind the other, while each session numbers its own
from zero and the header counts those of the last session only.
-/
namespace SeaStore.Graph

open Posix Block

/-- A session: the database that is opened, and where the handle on its index block
is, and what is inserted before it is closed. -/
structure Visit where
  dbName : String
  openAt : UInt64
  inserts : List GraphInsert

def Visit.nodes (visit : Visit) : List GraphNode := visit.inserts.map GraphInsert.node

def Visit.low (visit : Visit) : Visit :=
  ⟨visit.dbName, lowAddress, visit.inserts.map GraphInsert.low⟩

/-- The files of the directory, and for each insert the database, the record id
that was returned, and the node. -/
structure GraphDir where
  tree : FileTree SeaPath
  told : List (String × UInt32 × GraphNode)

variable (digest : String → Word.Digest)

/-- The creation of a database, at a time. -/
def createDbStep (dir : String) (t : FileTree SeaPath) (db : UInt64 × String) :
    Option (FileTree SeaPath) :=
  match (graphDbCreate digest ⟨db.1, .whole⟩ dir db.2).run serve t with
  | some (0, tree) => some tree
  | _ => none

def visitStep (dir : String) (s : GraphDir) (visit : Visit) : Option GraphDir := do
  let (tree, inserted) ← graphSession digest visit.openAt dir visit.dbName s.tree visit.inserts
  return ⟨tree, s.told ++ inserted.map fun entry => (visit.dbName, entry)⟩

/-- The databases are created, and then visited. -/
def visitsRun (dir : String) (t : FileTree SeaPath) (dbs : List (UInt64 × String))
    (visits : List Visit) : Option GraphDir := do
  let tree ← runSteps (createDbStep digest dir) t dbs
  runSteps (visitStep digest dir) ⟨tree, []⟩ visits

def placements (visits : List Visit) (dbName : String) : List (GraphNode × ℕ) :=
  (visits.filter fun visit => visit.dbName = dbName).flatMap fun visit => visit.nodes.zipIdx

def sharedRecords (visits : List Visit) : List Payload :=
  visits.flatMap fun visit => visit.nodes.map GraphNode.payload

def lastCount (visits : List Visit) : ℕ :=
  visits.foldl (fun count visit =>
    if visit.inserts.length = 0 then count else visit.inserts.length) 0

variable {digest} {t t₀ : FileTree SeaPath} {dir : String} {id : UInt64} {recs old : List Payload}
  {past visits : List Visit} {visit : Visit} {dbName : String}

theorem placements_concat (past : List Visit) (visit : Visit) (dbName : String) :
    placements (past ++ [visit]) dbName = placements past dbName ++
      if visit.dbName = dbName then visit.nodes.zipIdx else [] := by
  by_cases h : visit.dbName = dbName
  · simp [placements, h]
  · simp [placements, h]

theorem sharedRecords_concat (past : List Visit) (visit : Visit) :
    sharedRecords (past ++ [visit]) = sharedRecords past ++ visit.nodes.map GraphNode.payload := by
  simp [sharedRecords]

theorem lastCount_concat (past : List Visit) (visit : Visit) :
    lastCount (past ++ [visit]) =
      if visit.inserts.length = 0 then lastCount past else visit.inserts.length := by
  simp [lastCount]

/-- During a session: `recs` and `old` were in the two blocks when it began, in
the files `t₀`. -/
structure Visiting (t₀ t : FileTree SeaPath) (dir : String) (id : UInt64) (recs old : List Payload)
    (nodes : List GraphNode) (conn : GraphDbConn) : Prop where
  dir_eq : conn.dir = dir
  index : ∃ block, conn.indexBlock = .held block ∧
    Counts t dir id block (recs ++ indexRecords nodes.length)
  data : (conn.dataBlock = none ∧ nodes = [] ∧ t = t₀) ∨
    nodes ≠ [] ∧ ∃ block, conn.dataBlock = some block ∧
      Held t dir graphDataBlockId block (old ++ nodes.map GraphNode.payload) ∧
      block.index.header.count = UInt32.ofNat nodes.length
  elsewhere : ∀ id', id' ≠ id → id' ≠ graphDataBlockId →
    t (.data dir id') = t₀ (.data dir id') ∧ t (.index dir id') = t₀ (.index dir id')

/-- The data block during a session, as the next insert finds it. -/
theorem Visiting.dataBlock {nodes : List GraphNode} {conn : GraphDbConn}
    (h : Visiting t₀ t dir id recs old nodes conn) (hdata : DataStored t₀ dir old) :
    DataStored t dir (old ++ nodes.map GraphNode.payload) ∧
      (∀ block ∈ conn.dataBlock, block.On dir graphDataBlockId) ∧
      nextDataId conn = UInt32.ofNat nodes.length := by
  rw [nextDataId]
  rcases h.data with ⟨hnone, rfl, rfl⟩ | ⟨-, block, hsome, hheld, hcount⟩
  · rw [hnone]
    exact ⟨by simpa using hdata, by simp, rfl⟩
  · rw [hsome]
    refine ⟨Or.inr ⟨_, hheld.2⟩, ?_, hcount⟩
    rintro _ ⟨⟩
    exact hheld.1

theorem graphStep_visiting {s s' : GraphSession} {op : GraphInsert} {nodes : List GraphNode}
    (h : Visiting t₀ s.tree dir id recs old nodes s.conn) (hdata : DataStored t₀ dir old)
    (hne : id ≠ graphDataBlockId) (hstep : graphStep s op = some s') :
    Visiting t₀ s'.tree dir id recs old (nodes ++ [op.node]) s'.conn ∧
      s'.inserted = s.inserted ++ [(UInt32.ofNat (recs.length + nodes.length), op.node)] := by
  obtain ⟨block, hconn, hcounts⟩ := h.index
  obtain ⟨hdata', hon, hnext⟩ := h.dataBlock hdata
  have hcount : block.index.header.count = UInt32.ofNat (recs.length + nodes.length) := by
    simpa using hcounts.count
  obtain ⟨hinserted, hins⟩ := graphStep_inserted h.dir_eq hne hconn hcounts.held.1 hcounts.held.2
    hdata' hon hstep
  obtain ⟨⟨indexBlock, hindex, hcounts'⟩, dataBlock, hdataBlock, hheld, hcountData⟩ :=
    hins.counts hconn hcounts hnext
  refine ⟨⟨hins.dir_eq, ⟨indexBlock, hindex, ?_⟩,
    Or.inr ⟨List.concat_ne_nil _ _, dataBlock, hdataBlock, ?_, ?_⟩, ?_⟩,
    by rw [hinserted, hcount]⟩
  · rw [List.length_append, List.length_singleton, indexRecords_succ, ← List.append_assoc]
    exact hcounts'
  · rw [List.map_append, List.map_singleton, ← List.append_assoc]
    exact hheld
  · rw [hcountData, List.length_append, List.length_singleton]
  · intro id' hne₁ hne₂
    obtain ⟨hdata₁, hindex₁⟩ := hins.elsewhere id' hne₁ hne₂
    obtain ⟨hdata₂, hindex₂⟩ := h.elsewhere id' hne₁ hne₂
    exact ⟨hdata₁.trans hdata₂, hindex₁.trans hindex₂⟩

/-- The inserts of a session, with the ids that they return. -/
theorem graphSteps_visiting {s s' : GraphSession} {ops : List GraphInsert}
    (h : Visiting t₀ s.tree dir id recs old [] s.conn) (hdata : DataStored t₀ dir old)
    (hne : id ≠ graphDataBlockId) (hins : s.inserted = [])
    (hrun : runSteps graphStep s ops = some s') :
    Visiting t₀ s'.tree dir id recs old (ops.map GraphInsert.node) s'.conn ∧
      s'.inserted = (ops.map GraphInsert.node).mapIdx
        fun i node => (UInt32.ofNat (recs.length + i), node) := by
  refine runSteps_invariant (fun past s =>
    Visiting t₀ s.tree dir id recs old (past.map GraphInsert.node) s.conn ∧
      s.inserted = (past.map GraphInsert.node).mapIdx
        fun i node => (UInt32.ofNat (recs.length + i), node)) ?_ ⟨h, hins⟩ hrun
  intro past op s₁ s₂ ⟨hvisiting, hinserted⟩ hstep
  obtain ⟨hvisiting', hinserted'⟩ := graphStep_visiting hvisiting hdata hne hstep
  rw [List.map_append, List.map_singleton]
  refine ⟨hvisiting', ?_⟩
  rw [hinserted', hinserted, List.mapIdx_append]
  simp

/-- After some sessions: the index block of a database has an entry for each of
its nodes, and the data block has the nodes of all of them, under a header that
counts the last session's. -/
structure Catalogued (digest : String → Word.Digest) (dir : String) (names : List String)
    (past : List Visit) (t : FileTree SeaPath) : Prop where
  index : ∀ dbName ∈ names, ∃ hdr, hdr.count = UInt32.ofNat (placements past dbName).length ∧
    Image t dir (graphDbGetBlockId digest dbName) hdr
      ((placements past dbName).map fun placed => indexPayload placed.2)
  data : (Absent t dir graphDataBlockId ∧ sharedRecords past = []) ∨
    ∃ hdr, hdr.count = UInt32.ofNat (lastCount past) ∧
      Image t dir graphDataBlockId hdr (sharedRecords past)

theorem Catalogued.dataStored {names : List String} (h : Catalogued digest dir names past t) :
    DataStored t dir (sharedRecords past) :=
  h.data.imp_right fun ⟨hdr, _, himg⟩ => ⟨hdr, himg⟩

/-- A directory that a connection has no room for cannot be visited. -/
theorem visitStep_dir {s s' : GraphDir} (hstep : visitStep digest dir s visit = some s') :
    dir.utf8ByteSize < connDirSize := by
  obtain ⟨session, hsession, -⟩ := Option.bind_eq_some_iff.mp hstep
  obtain ⟨⟨conn, tree⟩, hopen, -⟩ := Option.bind_eq_some_iff.mp hsession
  exact dir_of_graphDbOpen hopen

/-- The entries of a session are those of a handle that numbers from zero. -/
theorem zipIdx_indexPayload (nodes : List GraphNode) :
    (nodes.zipIdx.map fun placed => indexPayload placed.2) = indexRecords nodes.length := by
  rw [indexRecords, List.range_eq_range', ← List.zipIdx_map_snd, List.map_map]
  rfl

theorem visitStep_catalogued {names : List String} {s s' : GraphDir}
    (h : Catalogued digest dir names past s.tree)
    (hinj : ∀ a ∈ names, ∀ b ∈ names,
      graphDbGetBlockId digest a = graphDbGetBlockId digest b → a = b)
    (hname : visit.dbName ∈ names) (hstep : visitStep digest dir s visit = some s') :
    Catalogued digest dir names (past ++ [visit]) s'.tree ∧
      s'.told = s.told ++ visit.nodes.zipIdx.map fun placed =>
        (visit.dbName, UInt32.ofNat ((placements past visit.dbName).length + placed.2),
          placed.1) := by
  have hne := graphDbGetBlockId_ne digest visit.dbName
  obtain ⟨hdr, hcount, himg⟩ := h.index visit.dbName hname
  obtain ⟨⟨tree, inserted⟩, hsession, hsame⟩ := Option.bind_eq_some_iff.mp hstep
  obtain rfl := Option.some.inj hsame
  obtain ⟨session, hsteps, hend⟩ := graphSession_steps (run_seaBlockOpen himg) hsession
  have hstart : Visiting s.tree s.tree dir (graphDbGetBlockId digest visit.dbName)
      ((placements past visit.dbName).map fun placed => indexPayload placed.2)
      (sharedRecords past) []
      ⟨dir, graphDbGetBlockId digest visit.dbName,
        .held (openedBlock dir (graphDbGetBlockId digest visit.dbName) hdr), none⟩ := by
    refine ⟨rfl, ⟨_, rfl, ⟨openedBlock_on dir _ _, by simpa [indexRecords] using himg⟩, ?_⟩,
      Or.inl ⟨rfl, rfl, rfl⟩, fun id' _ _ => ⟨rfl, rfl⟩⟩
    simpa [indexRecords] using hcount
  obtain ⟨hvisiting, hinserted⟩ := graphSteps_visiting hstart h.dataStored hne rfl hsteps
  rw [map_low_node] at hvisiting hinserted
  obtain ⟨indexBlock, hindex, -⟩ := hvisiting.index
  obtain ⟨rfl, rfl⟩ := Prod.mk.inj (hend (by rw [hindex]; simp))
  refine ⟨⟨?_, ?_⟩, ?_⟩
  · intro dbName hmem
    rw [placements_concat]
    by_cases hsame : visit.dbName = dbName
    · subst hsame
      obtain ⟨block, -, hcounts⟩ := hvisiting.index
      rw [if_pos rfl, List.map_append, zipIdx_indexPayload]
      exact ⟨_, by simpa [Visit.nodes] using hcounts.count, hcounts.held.2⟩
    · have hother : graphDbGetBlockId digest dbName ≠ graphDbGetBlockId digest visit.dbName :=
        fun heq => hsame (hinj _ hname _ hmem heq.symm)
      obtain ⟨hdr', hcount', f, g, entries, hf, hg, hst⟩ := h.index dbName hmem
      obtain ⟨hdata, hindex⟩ :=
        hvisiting.elsewhere _ hother (graphDbGetBlockId_ne digest dbName)
      rw [if_neg hsame, List.append_nil]
      exact ⟨hdr', hcount', f, g, entries, hdata.trans hf, hindex.trans hg, hst⟩
  · rw [sharedRecords_concat, lastCount_concat]
    rcases hvisiting.data with ⟨-, hnil, htree⟩ | ⟨hcons, block, -, hheld, hcount'⟩
    · have hlen : visit.inserts.length = 0 := by simpa using congrArg List.length hnil
      rw [if_pos hlen, htree, Visit.nodes, hnil, List.map_nil, List.append_nil]
      exact h.data
    · have hlen : visit.inserts.length ≠ 0 := by simpa using hcons
      rw [if_neg hlen]
      exact Or.inr ⟨_, by simpa using hcount', hheld.2⟩
  · rw [hinserted, List.mapIdx_eq_zipIdx_map, List.map_map, List.length_map]
    rfl

/-- A session that gets at its handles is the same with the handles elsewhere. -/
theorem visitStep_low {names : List String} {s : GraphDir}
    (h : Catalogued digest dir names past s.tree) (hname : visit.dbName ∈ names)
    (hsurvives : SessionSurvives visit.openAt visit.inserts) :
    visitStep digest dir s visit = visitStep digest dir s visit.low := by
  obtain ⟨hdr, -, himg⟩ := h.index visit.dbName hname
  unfold visitStep
  rw [graphSession_low (run_seaBlockOpen himg) hsurvives]
  rfl

theorem visitStep_survives {names : List String} {s s' : GraphDir}
    (h : Catalogued digest dir names past s.tree) (hname : visit.dbName ∈ names)
    (hstep : visitStep digest dir s visit = some s') :
    SessionSurvives visit.openAt visit.inserts := by
  obtain ⟨hdr, -, himg⟩ := h.index visit.dbName hname
  obtain ⟨session, hsession, -⟩ := Option.bind_eq_some_iff.mp hstep
  exact graphSession_survives (run_seaBlockOpen himg) hsession

/-- So is a run of such sessions. -/
theorem visitSteps_low {names : List String} {s : GraphDir}
    (h : Catalogued digest dir names past s.tree)
    (hinj : ∀ a ∈ names, ∀ b ∈ names,
      graphDbGetBlockId digest a = graphDbGetBlockId digest b → a = b)
    (hnames : ∀ visit ∈ visits, visit.dbName ∈ names)
    (hsurvive : ∀ visit ∈ visits, SessionSurvives visit.openAt visit.inserts) :
    runSteps (visitStep digest dir) s visits =
      runSteps (visitStep digest dir) s (visits.map Visit.low) := by
  induction visits generalizing past s with
  | nil => rfl
  | cons visit rest ih =>
    obtain ⟨hname, hnames⟩ := List.forall_mem_cons.mp hnames
    obtain ⟨hfirst, hsurvive⟩ := List.forall_mem_cons.mp hsurvive
    rw [List.map_cons, runSteps, runSteps, ← visitStep_low h hname hfirst]
    cases hstep : visitStep digest dir s visit with
    | none => rfl
    | some s' => exact ih (visitStep_catalogued h hinj hname hstep).1 hnames hsurvive

/-- The inserts so far, told by their numbers in their databases. -/
def AllTold (past : List Visit) (told : List (String × UInt32 × GraphNode)) : Prop :=
  ∀ dbName recordId node, (dbName, recordId, node) ∈ told ↔
    ∃ j i, (placements past dbName)[j]? = some (node, i) ∧ recordId = UInt32.ofNat j

theorem AllTold.concat {told : List (String × UInt32 × GraphNode)} (h : AllTold past told)
    (visit : Visit) :
    AllTold (past ++ [visit]) (told ++ visit.nodes.zipIdx.map fun placed =>
      (visit.dbName, UInt32.ofNat ((placements past visit.dbName).length + placed.2),
        placed.1)) := by
  intro dbName recordId node
  rw [List.mem_append, h dbName recordId node, placements_concat]
  constructor
  · rintro (⟨j, i, hplaced, rfl⟩ | hmem)
    · obtain ⟨hj, -⟩ := List.getElem?_eq_some_iff.mp hplaced
      exact ⟨j, i, by rw [List.getElem?_append_left hj, hplaced], rfl⟩
    · obtain ⟨⟨node', i⟩, hplaced, heq⟩ := List.mem_map.mp hmem
      obtain ⟨rfl, hrest⟩ := Prod.mk.inj heq
      obtain ⟨rfl, rfl⟩ := Prod.mk.inj hrest
      refine ⟨_, i, ?_, rfl⟩
      rw [if_pos rfl, List.getElem?_append_right (Nat.le_add_right _ _), Nat.add_sub_cancel_left,
        List.getElem?_zipIdx, List.mk_mem_zipIdx_iff_getElem?.mp hplaced]
      simp
  · rintro ⟨j, i, hplaced, rfl⟩
    by_cases hj : j < (placements past dbName).length
    · rw [List.getElem?_append_left hj] at hplaced
      exact Or.inl ⟨j, i, hplaced, rfl⟩
    · rw [List.getElem?_append_right (Nat.not_lt.mp hj)] at hplaced
      by_cases hsame : visit.dbName = dbName
      · subst hsame
        rw [if_pos rfl, List.getElem?_zipIdx] at hplaced
        obtain ⟨node', hnode, heq⟩ := Option.map_eq_some_iff.mp hplaced
        obtain ⟨rfl, rfl⟩ := Prod.mk.inj heq
        refine Or.inr (List.mem_map.mpr ⟨(node', j - (placements past visit.dbName).length),
          List.mk_mem_zipIdx_iff_getElem?.mpr hnode, ?_⟩)
        rw [Nat.add_sub_of_le (Nat.not_lt.mp hj)]
      · rw [if_neg hsame] at hplaced
        exact absurd hplaced (by simp)

theorem createDbs_catalogued {dbs : List (UInt64 × String)} {t t' : FileTree SeaPath}
    (habs : ∀ db ∈ dbs, Absent t dir (graphDbGetBlockId digest db.2))
    (hdata : Absent t dir graphDataBlockId)
    (hids : (dbs.map fun db => graphDbGetBlockId digest db.2).Nodup)
    (hrun : runSteps (createDbStep digest dir) t dbs = some t') :
    Catalogued digest dir (dbs.map Prod.snd) [] t' := by
  have hinv := runSteps_invariant (fun past s =>
    (∀ db ∈ past, Absent t dir (graphDbGetBlockId digest db.2)) →
    (past.map fun db => graphDbGetBlockId digest db.2).Nodup →
      (∀ db ∈ past, ∃ hdr, hdr.count = 0 ∧
        Image s dir (graphDbGetBlockId digest db.2) hdr []) ∧
      ∀ id, id ∉ (past.map fun db => graphDbGetBlockId digest db.2) → Absent t dir id →
        Absent s dir id) ?_ ?_ hrun habs hids
  · refine ⟨?_, Or.inl ⟨hinv.2 _ ?_ hdata, rfl⟩⟩
    · intro dbName hmem
      obtain ⟨db, hdb, rfl⟩ := List.mem_map.mp hmem
      exact hinv.1 db hdb
    · intro hmem
      obtain ⟨db, -, heq⟩ := List.mem_map.mp hmem
      exact graphDbGetBlockId_ne digest db.2 heq
  · intro past db s s' hinv hstep habs hids
    rw [List.map_append, List.map_singleton, List.nodup_append] at hids
    obtain ⟨hids, -, hnew⟩ := hids
    obtain ⟨himgs, hrest⟩ :=
      hinv (fun db hmem => habs db (List.mem_append_left _ hmem)) hids
    have hfresh : Absent s dir (graphDbGetBlockId digest db.2) :=
      hrest _ (fun hmem => hnew _ hmem _ (List.mem_singleton_self _) rfl)
        (habs db (List.mem_append_right _ (List.mem_singleton_self _)))
    obtain ⟨tree, hcreate, himg, hagree, -⟩ :=
      run_seaBlockCreate_absent hfresh db.1 graphMaxSize graphMaxCount
    unfold createDbStep graphDbCreate at hstep
    rw [hcreate] at hstep
    obtain rfl := Option.some.inj hstep
    refine ⟨?_, ?_⟩
    · intro db' hmem
      rcases List.mem_append.mp hmem with hmem | hmem
      · obtain ⟨hdr, hcount, himg'⟩ := himgs db' hmem
        refine ⟨hdr, hcount, hagree.image (fun hsame => ?_) himg'⟩
        exact hnew _ (List.mem_map_of_mem hmem) _ (List.mem_singleton_self _) hsame.2
      · obtain rfl := List.mem_singleton.mp hmem
        exact ⟨_, rfl, himg⟩
    · intro id hmem habsent
      rw [List.map_append, List.mem_append, not_or] at hmem
      exact hagree.absent (fun hsame => hmem.2 (by simp [hsame.2])) (hrest id hmem.1 habsent)
  · intro _ _
    exact ⟨by simp, fun _ _ habsent => habsent⟩

/-- Names with different ids are told apart by them. -/
theorem ids_inj {dbs : List (UInt64 × String)}
    (hids : (dbs.map fun db => graphDbGetBlockId digest db.2).Nodup) :
    ∀ a ∈ dbs.map Prod.snd, ∀ b ∈ dbs.map Prod.snd,
      graphDbGetBlockId digest a = graphDbGetBlockId digest b → a = b := by
  intro a ha b hb heq
  obtain ⟨db, hdb, rfl⟩ := List.mem_map.mp ha
  obtain ⟨db', hdb', rfl⟩ := List.mem_map.mp hb
  rw [List.inj_on_of_nodup_map hids hdb hdb' heq]

/-- What a whole run leaves, whose handles have been got at. -/
theorem visitsRun_catalogued {dbs : List (UInt64 × String)} {s : GraphDir}
    (habs : ∀ db ∈ dbs, Absent t dir (graphDbGetBlockId digest db.2))
    (hdata : Absent t dir graphDataBlockId)
    (hids : (dbs.map fun db => graphDbGetBlockId digest db.2).Nodup)
    (hvisits : ∀ visit ∈ visits, visit.dbName ∈ dbs.map Prod.snd)
    (hrun : visitsRun digest dir t dbs visits = some s) :
    Catalogued digest dir (dbs.map Prod.snd) visits s.tree ∧ AllTold visits s.told ∧
      ∀ visit ∈ visits, SessionSurvives visit.openAt visit.inserts := by
  obtain ⟨tree, hcreate, hrun⟩ := Option.bind_eq_some_iff.mp hrun
  refine runSteps_invariant (fun past s => (∀ visit ∈ past, visit.dbName ∈ dbs.map Prod.snd) →
    Catalogued digest dir (dbs.map Prod.snd) past s.tree ∧ AllTold past s.told ∧
      ∀ visit ∈ past, SessionSurvives visit.openAt visit.inserts) ?_ ?_ hrun hvisits
  · intro past visit s₁ s₂ hinv hstep hmem
    obtain ⟨hpast, hname⟩ := List.forall_mem_append.mp hmem
    have hname := hname visit (List.mem_singleton_self _)
    obtain ⟨hcat, htold, hsurvive⟩ := hinv hpast
    obtain ⟨hcat', htold'⟩ := visitStep_catalogued hcat (ids_inj hids) hname hstep
    refine ⟨hcat', by rw [htold']; exact htold.concat visit, ?_⟩
    refine List.forall_mem_append.mpr ⟨hsurvive, ?_⟩
    rintro _ hlast
    rw [List.mem_singleton.mp hlast]
    exact visitStep_survives hcat hname hstep
  · intro _
    refine ⟨createDbs_catalogued habs hdata hids hcreate, fun dbName recordId node => ?_, by simp⟩
    simp [placements]

/-- Sessions that get at their handles run as with low handles. -/
theorem visitsRun_low {dbs : List (UInt64 × String)}
    (habs : ∀ db ∈ dbs, Absent t dir (graphDbGetBlockId digest db.2))
    (hdata : Absent t dir graphDataBlockId)
    (hids : (dbs.map fun db => graphDbGetBlockId digest db.2).Nodup)
    (hvisits : ∀ visit ∈ visits, visit.dbName ∈ dbs.map Prod.snd)
    (hsurvive : ∀ visit ∈ visits, SessionSurvives visit.openAt visit.inserts) :
    visitsRun digest dir t dbs visits = visitsRun digest dir t dbs (visits.map Visit.low) := by
  unfold visitsRun
  cases hcreate : runSteps (createDbStep digest dir) t dbs with
  | none => rfl
  | some tree =>
    have hcat : Catalogued digest dir (dbs.map Prod.snd) [] (GraphDir.mk tree []).tree :=
      createDbs_catalogued habs hdata hids hcreate
    exact visitSteps_low hcat (ids_inj hids) hvisits hsurvive

theorem mem_placements {node : GraphNode} {i : ℕ} :
    (node, i) ∈ placements visits dbName ↔
      ∃ visit ∈ visits, visit.dbName = dbName ∧ visit.nodes[i]? = some node := by
  simp only [placements, List.mem_flatMap, List.mem_filter, decide_eq_true_eq,
    List.mk_mem_zipIdx_iff_getElem?, and_assoc]

theorem length_le_placements (hmem : visit ∈ visits) :
    visit.inserts.length ≤ (placements visits visit.dbName).length := by
  have hsub : visit.nodes.zipIdx.Sublist (placements visits visit.dbName) := by
    rw [placements, List.flatMap_def]
    apply List.sublist_flatten_of_mem
    exact List.mem_map_of_mem (List.mem_filter.mpr ⟨hmem, decide_eq_true rfl⟩)
  simpa [Visit.nodes] using hsub.length_le

theorem lastCount_eq (visits : List Visit) :
    lastCount visits = 0 ∨ ∃ visit ∈ visits, lastCount visits = visit.inserts.length := by
  induction visits using List.reverseRecOn with
  | nil => exact Or.inl rfl
  | append_singleton past visit ih =>
    rw [lastCount_concat]
    by_cases hlen : visit.inserts.length = 0
    · rw [if_pos hlen]
      exact ih.imp_right fun ⟨visit', hmem, heq⟩ => ⟨visit', List.mem_append_left _ hmem, heq⟩
    · rw [if_neg hlen]
      exact Or.inr ⟨visit, List.mem_append_right _ (List.mem_singleton_self _), rfl⟩

theorem lastCount_lt (hfit : ∀ dbName, (placements visits dbName).length < 2 ^ 32) :
    lastCount visits < 2 ^ 32 := by
  rcases lastCount_eq visits with hzero | ⟨visit, hvisit, heq⟩
  · rw [hzero]
    decide
  · rw [heq]
    exact Nat.lt_of_le_of_lt (length_le_placements hvisit) (hfit _)

/-- The nodes of a session, one by one: each is counted and stored at its number. -/
theorem stored_iff_begins (visits : List Visit) (visit : Visit) :
    (∀ i node, visit.nodes[i]? = some node →
        i < lastCount visits ∧ (sharedRecords visits)[i]? = some node.payload) ↔
      visit.nodes.map GraphNode.payload <+: sharedRecords visits ∧
        visit.inserts.length ≤ lastCount visits := by
  constructor
  · intro hnode
    constructor
    · apply List.prefix_iff_getElem?.mpr
      intro i hi
      rw [List.length_map] at hi
      rw [(hnode i _ (List.getElem?_eq_getElem hi)).2, List.getElem_map]
    · by_contra hlong
      have hi : lastCount visits < visit.nodes.length := by
        rw [Visit.nodes, List.length_map]
        omega
      exact absurd (hnode _ _ (List.getElem?_eq_getElem hi)).1 (Nat.lt_irrefl _)
  · rintro ⟨hfront, hcount⟩ i node hnode
    obtain ⟨hi, rfl⟩ := List.getElem?_eq_some_iff.mp hnode
    have hi' : i < (visit.nodes.map GraphNode.payload).length := by
      rw [List.length_map]
      exact hi
    refine ⟨?_, by rw [List.prefix_iff_getElem?.mp hfront i hi', List.getElem_map]⟩
    rw [Visit.nodes, List.length_map] at hi
    omega

/-- With fewer than `2 ^ 32` nodes in its database, a node is recovered exactly
when it is stored, and counted, at the number it had in its session. -/
theorem Catalogued.recovered_iff {names : List String}
    (h : Catalogued digest dir names visits t) (hdir : dir.utf8ByteSize < connDirSize)
    (hname : dbName ∈ names) (hfit : (placements visits dbName).length < 2 ^ 32)
    {handlesAt : UInt64 × UInt64} (hat : BothSurvive handlesAt) {j i : ℕ} {node : GraphNode}
    (hplaced : (placements visits dbName)[j]? = some (node, i))
    (hsize : node.size ≤ 2 ^ 20) :
    Recovered digest handlesAt t dir dbName (UInt32.ofNat j) node ↔
      i < lastCount visits % 2 ^ 32 ∧ (sharedRecords visits)[i]? = some node.payload := by
  obtain ⟨hj, -⟩ := List.getElem?_eq_some_iff.mp hplaced
  obtain ⟨visit, hvisit, rfl, hnode⟩ := mem_placements.mp (List.mem_of_getElem? hplaced)
  obtain ⟨hi, -⟩ := List.getElem?_eq_some_iff.mp hnode
  have hlen : visit.nodes.length ≤ (placements visits visit.dbName).length := by
    simpa [Visit.nodes] using length_le_placements hvisit
  have hshared : sharedRecords visits ≠ [] := by
    apply List.ne_nil_of_mem (a := node.payload)
    exact List.mem_flatMap.mpr ⟨visit, hvisit, List.mem_map_of_mem (List.mem_of_getElem? hnode)⟩
  obtain ⟨hdr, hcount, himg⟩ := h.index _ hname
  obtain ⟨-, hnil⟩ | ⟨hdr', hcount', himg'⟩ := h.data
  · exact absurd hnil hshared
  have hid : ∀ k, k < 2 ^ 32 → (UInt32.ofNat k).toNat = k := by
    intro k hk
    rw [UInt32.toNat_ofNat', Nat.mod_eq_of_lt hk]
  have hcounted : (UInt32.ofNat j).toNat < hdr.count.toNat := by
    rw [hcount, hid _ (by omega), hid _ hfit]
    exact hj
  have hentry : ((placements visits visit.dbName).map fun placed => indexPayload placed.2)[
      (UInt32.ofNat j).toNat]? = some (indexPayload i) := by
    rw [hid _ (by omega), List.getElem?_map, hplaced, Option.map_some]
  have hplace : (UInt32.ofNat i).toNat < hdr'.count.toNat ∧
      (sharedRecords visits)[(UInt32.ofNat i).toNat]? = some node.payload ↔
        i < lastCount visits % 2 ^ 32 ∧ (sharedRecords visits)[i]? = some node.payload := by
    rw [hid i (by omega), hcount', UInt32.toNat_ofNat']
  rw [← hplace, ← found_node_iff hsize]
  constructor
  · intro hrec
    have hrun := hrec (Vector.replicate 16 0) 0
    rw [run_findFresh_entry hat hdir himg himg' hcounted hentry] at hrun
    exact (Prod.mk.inj (Option.some.inj hrun)).1
  · intro hout garbage nodeBlockId
    rw [run_findFresh_entry hat hdir himg himg' hcounted hentry, hout]

/-- The largest id is below no count. -/
theorem Catalogued.not_recovered {names : List String} (h : Catalogued digest dir names visits t)
    (hdir : dir.utf8ByteSize < connDirSize) (hname : dbName ∈ names)
    (handlesAt : UInt64 × UInt64) (node : GraphNode) :
    ¬ Recovered digest handlesAt t dir dbName (UInt32.ofNat (2 ^ 32 - 1)) node := by
  intro hrec
  obtain ⟨hdr, hcount, himg⟩ := h.index _ hname
  have hpast : hdr.count ≤ UInt32.ofNat (2 ^ 32 - 1) := by
    rw [UInt32.le_iff_toNat_le, hcount, UInt32.toNat_ofNat', UInt32.toNat_ofNat']
    omega
  have hrun := hrec (Vector.replicate 16 0) 0
  rw [run_findFresh_past hrec.survive hdir (run_seaBlockOpen himg) hpast] at hrun
  exact absurd (Prod.mk.inj (Option.some.inj hrun)).1 (by simp)

theorem visitsRun_dir {dbs : List (UInt64 × String)} {s : GraphDir}
    (hrun : visitsRun digest dir t dbs visits = some s) (hmem : visit ∈ visits) :
    dir.utf8ByteSize < connDirSize := by
  obtain ⟨tree, -, hrun⟩ := Option.bind_eq_some_iff.mp hrun
  cases visits with
  | nil => exact absurd hmem (by simp)
  | cons first rest =>
    obtain ⟨s₁, hstep, -⟩ := Option.bind_eq_some_iff.mp hrun
    exact visitStep_dir hstep

/-- The lookups of what a run has told find it exactly when their handles are got
at, no database has `2 ^ 32` nodes, and every session has inserted the nodes that
the data block starts with, no more of them than the last session that inserted any. -/
theorem Catalogued.allRecovered_iff {names : List String}
    {findAt : String → UInt32 → UInt64 × UInt64}
    {told : List (String × UInt32 × GraphNode)} (h : Catalogued digest dir names visits t)
    (htold : AllTold visits told) (hdir : ∀ visit ∈ visits, dir.utf8ByteSize < connDirSize)
    (hvisits : ∀ visit ∈ visits, visit.dbName ∈ names)
    (hsmall : ∀ visit ∈ visits, ∀ node ∈ visit.nodes, node.size ≤ 2 ^ 20) :
    (∀ dbName recordId node, (dbName, recordId, node) ∈ told →
        Recovered digest (findAt dbName recordId) t dir dbName recordId node) ↔
      (∀ dbName j, j < (placements visits dbName).length →
          BothSurvive (findAt dbName (UInt32.ofNat j))) ∧
        (∀ dbName, (placements visits dbName).length < 2 ^ 32) ∧
        ∀ visit ∈ visits, visit.nodes.map GraphNode.payload <+: sharedRecords visits ∧
          visit.inserts.length ≤ lastCount visits := by
  constructor
  · intro hall
    have hfind : ∀ dbName j, j < (placements visits dbName).length →
        BothSurvive (findAt dbName (UInt32.ofNat j)) := by
      intro dbName j hj
      exact (hall _ _ _ ((htold _ _ _).mpr ⟨j, _, List.getElem?_eq_getElem hj, rfl⟩)).survive
    have hfit : ∀ dbName, (placements visits dbName).length < 2 ^ 32 := by
      intro dbName
      by_contra hmany
      have hj : 2 ^ 32 - 1 < (placements visits dbName).length := by omega
      obtain ⟨⟨node, i⟩, hplaced⟩ : ∃ placed, (placements visits dbName)[2 ^ 32 - 1]? =
          some placed := ⟨_, List.getElem?_eq_getElem hj⟩
      obtain ⟨visit, hvisit, rfl, -⟩ := mem_placements.mp (List.mem_of_getElem? hplaced)
      exact h.not_recovered (hdir visit hvisit) (hvisits visit hvisit) _ node
        (hall _ _ _ ((htold _ _ _).mpr ⟨_, i, hplaced, rfl⟩))
    refine ⟨hfind, hfit, fun visit hvisit => (stored_iff_begins visits visit).mp ?_⟩
    intro i node hnode
    obtain ⟨j, hplaced⟩ :=
      List.mem_iff_getElem?.mp (mem_placements.mpr ⟨visit, hvisit, rfl, hnode⟩)
    obtain ⟨hj, -⟩ := List.getElem?_eq_some_iff.mp hplaced
    obtain ⟨hlt, hget⟩ := (h.recovered_iff (hdir visit hvisit) (hvisits visit hvisit)
      (hfit _) (hfind _ j hj) hplaced (hsmall visit hvisit node (List.mem_of_getElem? hnode))).mp
      (hall _ _ _ ((htold _ _ _).mpr ⟨j, i, hplaced, rfl⟩))
    exact ⟨Nat.lt_of_lt_of_le hlt (Nat.mod_le _ _), hget⟩
  · rintro ⟨hfind, hfit, hagree⟩ dbName recordId node hmem
    obtain ⟨j, i, hplaced, rfl⟩ := (htold _ _ _).mp hmem
    obtain ⟨hj, -⟩ := List.getElem?_eq_some_iff.mp hplaced
    obtain ⟨visit, hvisit, rfl, hnode⟩ := mem_placements.mp (List.mem_of_getElem? hplaced)
    rw [h.recovered_iff (hdir visit hvisit) (hvisits visit hvisit) (hfit _) (hfind _ j hj) hplaced
      (hsmall visit hvisit _ (List.mem_of_getElem? hnode)), Nat.mod_eq_of_lt (lastCount_lt hfit)]
    exact (stored_iff_begins visits visit).mpr (hagree visit hvisit) i node hnode

/-- Sessions whose nodes fit a lookup's buffer, and which come to their end with
low handles, come to their end and all their nodes are found under the ids that were
returned exactly when the handles of the sessions and of the lookups are got at, no
database has `2 ^ 32` nodes, and every session has inserted the nodes that the data
block starts with, no more of them than the last session that inserted any. -/
theorem visitsRun_recovered_iff {dbs : List (UInt64 × String)} {s₀ : GraphDir}
    {findAt : String → UInt32 → UInt64 × UInt64}
    (habs : ∀ db ∈ dbs, Absent t dir (graphDbGetBlockId digest db.2))
    (hdata : Absent t dir graphDataBlockId)
    (hids : (dbs.map fun db => graphDbGetBlockId digest db.2).Nodup)
    (hvisits : ∀ visit ∈ visits, visit.dbName ∈ dbs.map Prod.snd)
    (hsmall : ∀ visit ∈ visits, ∀ node ∈ visit.nodes, node.size ≤ 2 ^ 20)
    (hrun : visitsRun digest dir t dbs (visits.map Visit.low) = some s₀) :
    (∃ s, visitsRun digest dir t dbs visits = some s ∧ AllTold visits s.told ∧
        ∀ dbName recordId node, (dbName, recordId, node) ∈ s.told →
          Recovered digest (findAt dbName recordId) s.tree dir dbName recordId node) ↔
      (∀ visit ∈ visits, SessionSurvives visit.openAt visit.inserts) ∧
        (∀ dbName j, j < (placements visits dbName).length →
          BothSurvive (findAt dbName (UInt32.ofNat j))) ∧
        (∀ dbName, (placements visits dbName).length < 2 ^ 32) ∧
        ∀ visit ∈ visits, visit.nodes.map GraphNode.payload <+: sharedRecords visits ∧
          visit.inserts.length ≤ lastCount visits := by
  constructor
  · rintro ⟨s, hs, htold, hall⟩
    obtain ⟨hcat, -, hsurvive⟩ := visitsRun_catalogued habs hdata hids hvisits hs
    exact ⟨hsurvive, (hcat.allRecovered_iff htold (fun visit hmem => visitsRun_dir hs hmem)
      hvisits hsmall).mp hall⟩
  · rintro ⟨hsurvive, hcondition⟩
    have hs := (visitsRun_low habs hdata hids hvisits hsurvive).trans hrun
    obtain ⟨hcat, htold, -⟩ := visitsRun_catalogued habs hdata hids hvisits hs
    exact ⟨s₀, hs, htold, (hcat.allRecovered_iff htold (fun visit hmem => visitsRun_dir hs hmem)
      hvisits hsmall).mpr hcondition⟩

/-- Two databases, told apart by their hashes. -/
def twoHashes (dbName : String) : Word.Digest :=
  if dbName = "graph" then graphHash else Vector.replicate 16 0

def bareInsert (nextRecordId : UInt32) : GraphInsert :=
  ⟨0, 0x8414e0, .clear 0, .clear 0, ⟨⟨nextRecordId, 0, 0, 0⟩, [], [], nil_lt, nil_lt⟩, (0, 0)⟩

def bareVisit (dbName : String) (inserts : List GraphInsert) : Visit := ⟨dbName, 0x8412a0, inserts⟩

/-- The second of two sessions is given the node of the first, wherever the handles
of the lookup are. -/
theorem visitsRun_not_recovered :
    ∃ s, visitsRun twoHashes "" (fun _ => none) [(0, "graph")]
        [bareVisit "graph" [bareInsert 1], bareVisit "graph" [bareInsert 2]] = some s ∧
      ("graph", 1, (bareInsert 2).node) ∈ s.told ∧
      ∀ handlesAt, ¬ Recovered twoHashes handlesAt s.tree "" "graph" 1 (bareInsert 2).node := by
  obtain ⟨s, hs⟩ := Option.isSome_iff_exists.mp (show (visitsRun twoHashes "" (fun _ => none)
    [(0, "graph")] [bareVisit "graph" [bareInsert 1], bareVisit "graph" [bareInsert 2]]).isSome by
      decide +kernel)
  obtain ⟨hcat, htold, -⟩ := visitsRun_catalogued (fun _ _ => ⟨rfl, rfl⟩) ⟨rfl, rfl⟩ (by simp)
    (by simp [bareVisit]) hs
  have hplaced : (placements [bareVisit "graph" [bareInsert 1], bareVisit "graph" [bareInsert 2]]
      "graph")[1]? = some ((bareInsert 2).node, 0) := rfl
  refine ⟨s, hs, (htold _ _ _).mpr ⟨1, 0, hplaced, rfl⟩, fun handlesAt hrec => ?_⟩
  have hget := ((hcat.recovered_iff (by decide) (by simp) (by decide) hrec.survive hplaced
    (by decide)).mp hrec).2
  exact absurd hget (by decide)

/-- Two databases, and two sessions that begin with the same node. -/
def twoVisits : List Visit :=
  [bareVisit "graph" [bareInsert 1], bareVisit "other" [bareInsert 1, bareInsert 1]]

theorem visitsRun_recovered_two :
    ∃ s, visitsRun twoHashes "" (fun _ => none) [(0, "graph"), (0, "other")] twoVisits = some s ∧
      AllTold twoVisits s.told ∧ ∀ dbName recordId node, (dbName, recordId, node) ∈ s.told →
        Recovered twoHashes (0x8413c0, 0x8413f0) s.tree "" dbName recordId node := by
  obtain ⟨s, hs⟩ := Option.isSome_iff_exists.mp (show (visitsRun twoHashes "" (fun _ => none)
    [(0, "graph"), (0, "other")] (twoVisits.map Visit.low)).isSome by decide +kernel)
  have hsurvive : ∀ visit ∈ twoVisits, SessionSurvives visit.openAt visit.inserts := by
    refine List.forall_mem_cons.mpr ⟨⟨Or.inl (by decide), ?_⟩,
      List.forall_mem_singleton.mpr ⟨Or.inl (by decide), ?_⟩⟩
    · rintro _ ⟨⟩
      decide
    · rintro _ ⟨⟩
      decide
  refine (visitsRun_recovered_iff (fun _ _ => ⟨rfl, rfl⟩) ⟨rfl, rfl⟩ (by decide +kernel)
    (by decide) (by decide) hs).mpr ⟨hsurvive, fun _ _ _ => ⟨by decide, by decide⟩,
      fun dbName => ?_, by decide⟩
  refine Nat.lt_of_le_of_lt (List.filter_sublist.flatMap fun visit : Visit =>
    visit.nodes.zipIdx).length_le ?_
  decide

end SeaStore.Graph
