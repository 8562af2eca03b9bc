import SeaStore.Block.ReadBack
import SeaStore.Word.Md5

/-!
The super block keeps the id of the block that is written to. It is meant to
persist that id in record 0 of a block of its own; since no record is ever
appended to that block, storing the id fails and loading it finds nothing.
-/
namespace SeaStore.Controller

open Posix Block

structure SuperBlock where
  controllerName : String
  dir : String
  blockId : UInt64

/-- The id of the super block's own block, for a hash of the name. -/
def controllerGetBlockId (digest : String → Word.Digest) (name : String) : UInt64 :=
  Word.nameBlockId digest name

def controllerHash : Word.Digest :=
  #v[0x59, 0x4c, 0x10, 0x3f, 0x2c, 0x6e, 0x04, 0xc3, 0xd8, 0xab, 0x05, 0x9f, 0x03, 0x1e, 0x0c,
    0x1a]

/-- What the surroundings decide when the super block is opened: the creation
of its block, and the bytes that `malloc` hands out for the id. -/
structure OpenEnv where
  create : CreateEnv
  garbage : UInt64

/-- The clock, the pads and the outcome of the one write of a store. -/
structure StoreEnv where
  ambient : Ambient
  frame : Outcome

variable (idOf : String → UInt64)

def syncSuperBlockFromDisk (e : CreateEnv) (super : SuperBlock) : Prog (ℕ × SuperBlock) := do
  let controllerBlockId := idOf super.controllerName
  if (← seaBlockOpen super.dir controllerBlockId).isNone then
    let _ ← seaBlockCreate e super.dir controllerBlockId seaBlockMaxSizeDefault
      seaBlockMaxCountDefault
  match ← seaBlockOpen super.dir controllerBlockId with
  | none => return (EINVAL, super)
  | some block =>
    let blockId : UInt64 := 0
    let (result, block) ← seaBlockQueryByRecordId block 0 8
    -- the buffer is the number `blockId` itself taken for a pointer, which is null
    if (result.out.getD []) ≠ [] then .fault
    seaBlockClose block
    return (0, { super with
      blockId := if blockId = 0 then controllerBlockId + 1 else blockId })

def syncSuperBlockToDisk (e : StoreEnv) (super : SuperBlock) : Prog ℕ := do
  let controllerBlockId := idOf super.controllerName
  match ← seaBlockOpen super.dir controllerBlockId with
  | none => return EINVAL
  | some block =>
    let (ret, block) ← seaBlockUpdate e.ambient e.frame block 0 (le64 super.blockId) 8
    seaBlockClose block
    return ret

/-- The return code of the load is dropped. -/
def controllerSuperBlockOpenOrCreate (e : OpenEnv) (dir dbName : String) : Prog SuperBlock := do
  let (_, super) ← syncSuperBlockFromDisk idOf e.create
    { controllerName := dbName, dir := dir, blockId := e.garbage }
  return super

def controllerSuperBlockGetBlockId (super : SuperBlock) : UInt64 := super.blockId

/-- The return code of the store is dropped. -/
def controllerSuperBlockExpireBlockId (e : StoreEnv) (super : SuperBlock) : Prog SuperBlock := do
  let super := { super with blockId := super.blockId + 1 }
  let _ ← syncSuperBlockToDisk idOf e super
  return super

def controllerSuperBlockClose (_super : SuperBlock) : Prog Unit := return ()

/-- A block of the default size whose header counts exactly the records stored. -/
def CountedBlock (t : FileTree SeaPath) (dir : String) (id : UInt64) (recs : List Payload) : Prop :=
  ∃ hdr, hdr.count = UInt32.ofNat recs.length ∧ hdr.maxCount = seaBlockMaxCountDefault ∧
    Image t dir id hdr recs

/-- A block of the default size to which nothing has been appended. -/
structure NewBlock (t : FileTree SeaPath) (dir : String) (id : UInt64) : Prop where
  counted : CountedBlock t dir id []
  data : t (.data dir id) = some .empty

variable {idOf} {t t' : FileTree SeaPath} {dir : String} {id : UInt64} {recs : List Payload}

theorem newBlock_created {now : UInt64}
    (himg : Image t dir id (createdHeader id seaBlockMaxCountDefault now) [])
    (hdata : t (.data dir id) = some .empty) : NewBlock t dir id := by
  refine ⟨⟨_, rfl, ?_, himg⟩, hdata⟩
  rw [createdHeader, if_neg (by decide)]

theorem CountedBlock.of_agreeOff {dir' : String} {id' : UInt64} (h : CountedBlock t dir id recs)
    (hagree : AgreeOff t t' dir' id') (hne : ¬ (dir = dir' ∧ id = id')) :
    CountedBlock t' dir id recs := by
  obtain ⟨hdr, hcount, hmax, himg⟩ := h
  exact ⟨hdr, hcount, hmax, hagree.image hne himg⟩

theorem NewBlock.of_agreeOff {dir' : String} {id' : UInt64} (h : NewBlock t dir id)
    (hagree : AgreeOff t t' dir' id') (hne : ¬ (dir = dir' ∧ id = id')) : NewBlock t' dir id := by
  refine ⟨h.counted.of_agreeOff hagree hne, ?_⟩
  rw [hagree _ (by simpa using hne) (by simp), h.data]

theorem run_queryByRecordId_none {block : SeaBlock} (hcount : block.index.header.count = 0)
    (bufLen : Int32) :
    (seaBlockQueryByRecordId block 0 bufLen).run serve t = some ((⟨EINVAL, none⟩, block), t) := by
  have hpast : block.index.header.count ≤ 0 := by
    rw [hcount]
    exact UInt32.le_refl 0
  unfold seaBlockQueryByRecordId
  rw [Program.run_bind_of_run serve (run_indexQuery_past hpast)]
  rfl

theorem run_seaBlockUpdate_none {block : SeaBlock} (hcount : block.index.header.count = 0)
    (a : Ambient) (o : Outcome) (data : Bytes) (length : Int32) :
    (seaBlockUpdate a o block 0 data length).run serve t = some ((EINVAL, block), t) := by
  have hpast : block.index.header.count ≤ 0 := by
    rw [hcount]
    exact UInt32.le_refl 0
  unfold seaBlockUpdate
  rw [Program.run_bind_of_run serve (run_indexQuery_past hpast)]
  rfl

variable (super : SuperBlock)

/-- Loading from an empty block starts the ids anew. -/
theorem run_syncSuperBlockFromDisk_newBlock (e : CreateEnv)
    (h : NewBlock t super.dir (idOf super.controllerName)) :
    (syncSuperBlockFromDisk idOf e super).run serve t =
      some ((0, { super with blockId := idOf super.controllerName + 1 }), t) := by
  obtain ⟨hdr, hcount, -, himg⟩ := h.counted
  unfold syncSuperBlockFromDisk
  simp only []
  rw [Program.run_bind_of_run serve (run_seaBlockOpen himg)]
  simp only [Option.isNone_some, Bool.false_eq_true, if_false]
  rw [Program.run_bind_of_run serve (run_seaBlockOpen himg)]
  simp only []
  rw [Program.run_bind_of_run serve (run_queryByRecordId_none (by exact hcount) 8)]
  rfl

/-- So does loading where there is no block yet, which creates it. -/
theorem run_syncSuperBlockFromDisk_absent (now : UInt64)
    (h : Absent t super.dir (idOf super.controllerName)) :
    ∃ t', (syncSuperBlockFromDisk idOf ⟨now, .whole⟩ super).run serve t =
        some ((0, { super with blockId := idOf super.controllerName + 1 }), t') ∧
      NewBlock t' super.dir (idOf super.controllerName) ∧
      AgreeOff t t' super.dir (idOf super.controllerName) := by
  obtain ⟨t', hcreate, himg, hagree, hdata⟩ := run_seaBlockCreate_absent h now
    seaBlockMaxSizeDefault seaBlockMaxCountDefault
  refine ⟨t', ?_, newBlock_created himg hdata, hagree⟩
  unfold syncSuperBlockFromDisk
  simp only []
  rw [Program.run_bind_of_run serve (run_seaBlockOpen_absent h.1)]
  simp only [Option.isNone_none, if_true]
  rw [Program.run_bind_of_run serve hcreate, Program.run_bind_of_run serve (run_seaBlockOpen himg)]
  simp only []
  rw [Program.run_bind_of_run serve (run_queryByRecordId_none (by rfl) 8)]
  rfl

theorem run_syncSuperBlockToDisk_newBlock (e : StoreEnv)
    (h : NewBlock t super.dir (idOf super.controllerName)) :
    (syncSuperBlockToDisk idOf e super).run serve t = some (EINVAL, t) := by
  obtain ⟨hdr, hcount, -, himg⟩ := h.counted
  unfold syncSuperBlockToDisk
  simp only []
  rw [Program.run_bind_of_run serve (run_seaBlockOpen himg)]
  simp only []
  rw [Program.run_bind_of_run serve
    (run_seaBlockUpdate_none (by exact hcount) e.ambient e.frame (le64 super.blockId) 8)]
  rfl

/-- The block of a super block: not there yet, or created and never appended to. -/
def Vacant (t : FileTree SeaPath) (dir : String) (id : UInt64) : Prop :=
  Absent t dir id ∨ NewBlock t dir id

/-- Opening a super block always gives the first id after its own. -/
theorem run_controllerSuperBlockOpenOrCreate {name : String} (now garbage : UInt64)
    (h : Vacant t dir (idOf name)) :
    ∃ t', (controllerSuperBlockOpenOrCreate idOf ⟨⟨now, .whole⟩, garbage⟩ dir name).run serve t =
        some (⟨name, dir, idOf name + 1⟩, t') ∧
      NewBlock t' dir (idOf name) ∧ AgreeOff t t' dir (idOf name) := by
  rcases h with habs | hnew
  · obtain ⟨t', hsync, hnew, hagree⟩ := run_syncSuperBlockFromDisk_absent
      ⟨name, dir, garbage⟩ now habs
    refine ⟨t', ?_, hnew, hagree⟩
    unfold controllerSuperBlockOpenOrCreate
    rw [Program.run_bind_of_run serve hsync]
    rfl
  · refine ⟨t, ?_, hnew, AgreeOff.refl _ _ _⟩
    unfold controllerSuperBlockOpenOrCreate
    rw [Program.run_bind_of_run serve
      (run_syncSuperBlockFromDisk_newBlock ⟨name, dir, garbage⟩ ⟨now, .whole⟩ hnew)]
    rfl

/-- An id expires in memory only. -/
theorem run_controllerSuperBlockExpireBlockId (e : StoreEnv)
    (h : NewBlock t super.dir (idOf super.controllerName)) :
    (controllerSuperBlockExpireBlockId idOf e super).run serve t =
      some ({ super with blockId := super.blockId + 1 }, t) := by
  unfold controllerSuperBlockExpireBlockId
  simp only []
  rw [Program.run_bind_of_run serve (run_syncSuperBlockToDisk_newBlock
    { super with blockId := super.blockId + 1 } e h)]
  rfl

end SeaStore.Controller
