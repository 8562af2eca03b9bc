import SeaStore.Controller.SuperBlock

/-!
The controller's local log. A write goes to the block of the super block's
current id, which is opened or created when the controller holds none; once
that block is full the id expires and the block is let go. The phone list,
which no read consults, is not part of the model.
-/
namespace SeaStore.Controller

open Posix Block

def dataDir : String := "/Users/zhangxinlong/tmp/controller"

def controllerName : String := "controller"

structure SeaController where
  superBlock : SuperBlock
  block : Option SeaBlock

variable (idOf : String → UInt64)

def seaControllerCreate (e : OpenEnv) (dir : String) : Prog SeaController := do
  let superBlock ← controllerSuperBlockOpenOrCreate idOf e dir controllerName
  return { superBlock := superBlock, block := none }

/-- The block that is held is not closed. -/
def seaControllerDestroy (controller : SeaController) : Prog Unit :=
  controllerSuperBlockClose controller.superBlock

def seaControllerReadFromLocal (blockId : UInt64) (recordId : UInt32) (bufLen : Int32) :
    Prog QueryResult := do
  match ← seaBlockOpen dataDir blockId with
  | none => return ⟨EINVAL, none⟩
  | some block =>
    let (result, block) ← seaBlockQueryByRecordId block recordId bufLen
    seaBlockClose block
    return result

/-- What the surroundings decide during one write: a creation, an append, and
the store of an expired id. -/
structure WriteEnv where
  create : CreateEnv
  ambient : Ambient
  faults : Faults
  store : StoreEnv

/-- The return code, and the two output arguments where they are written. -/
structure WriteResult where
  ret : ℕ
  blockId : UInt64
  recordId : Option UInt32
  deriving DecidableEq

def controllerBlock (e : CreateEnv) (controller : SeaController) (blockId : UInt64) :
    Prog (Option SeaBlock) := do
  match controller.block with
  | some block => return some block
  | none =>
    if (← seaBlockOpen dataDir blockId).isNone then
      let _ ← seaBlockCreate e dataDir blockId seaBlockMaxSizeDefault seaBlockMaxCountDefault
    seaBlockOpen dataDir blockId

def seaControllerWriteLocal (e : WriteEnv) (controller : SeaController) (buf : Bytes)
    (bufLen : Int32) : Prog (WriteResult × SeaController) := do
  let blockId := controllerSuperBlockGetBlockId controller.superBlock
  match ← controllerBlock e.create controller blockId with
  | none => return (⟨ENOENT, blockId, none⟩, { controller with block := none })
  | some block =>
    let (result, block) ← seaBlockAppend e.ambient e.faults block buf bufLen
    if result.ret ≠ 0 then
      return (⟨result.ret, blockId, result.recordId⟩, { controller with block := some block })
    if result.overLimit.getD false then
      let superBlock ← controllerSuperBlockExpireBlockId idOf e.store controller.superBlock
      seaBlockClose block
      return (⟨0, blockId, result.recordId⟩, { superBlock := superBlock, block := none })
    return (⟨0, blockId, result.recordId⟩, { controller with block := some block })

/-- Whatever happens to its calls, a write that returns zero tells an id. -/
theorem seaControllerWriteLocal_returns (e : WriteEnv) (controller : SeaController) (buf : Bytes)
    (bufLen : Int32) :
    (seaControllerWriteLocal idOf e controller buf bufLen).Returns
      fun out => out.1.ret = 0 → out.1.recordId.isSome := by
  unfold seaControllerWriteLocal
  refine Program.returns_bind _ fun block => ?_
  cases block with
  | none => exact fun hzero => absurd hzero (Nat.succ_ne_zero 1)
  | some block =>
    apply Program.Returns.bind
    refine (seaBlockAppend_returns e.ambient e.faults block buf bufLen).mono ?_
    intro (result, block) hid
    dsimp only at hid ⊢
    split
    · exact hid
    · rename_i hret
      have hzero : result.ret = 0 := not_not.mp hret
      split
      · exact Program.returns_bind _ fun _ => Program.returns_bind _ fun _ _ => hid hzero
      · exact fun _ => hid hzero

def blockIdAt (base : UInt64) (k : ℕ) : UInt64 := base + 1 + UInt64.ofNat k

theorem blockIdAt_succ (base : UInt64) (k : ℕ) : blockIdAt base k + 1 = blockIdAt base (k + 1) := by
  rw [blockIdAt, blockIdAt, UInt64.ofNat_add, ← UInt64.add_assoc]
  rfl

variable {idOf} {t t' : FileTree SeaPath} {id : UInt64} {recs : List Payload}

/-- A controller starts at the first id after the super block's own. -/
theorem run_seaControllerCreate (idOf : String → UInt64) {dir : String} (now garbage : UInt64)
    (h : Vacant t dir (idOf controllerName)) :
    ∃ t', (seaControllerCreate idOf ⟨⟨now, .whole⟩, garbage⟩ dir).run serve t =
        some (⟨⟨controllerName, dir, idOf controllerName + 1⟩, none⟩, t') ∧
      NewBlock t' dir (idOf controllerName) ∧ AgreeOff t t' dir (idOf controllerName) := by
  obtain ⟨t', hrun, hnew, hagree⟩ := run_controllerSuperBlockOpenOrCreate now garbage h
  refine ⟨t', ?_, hnew, hagree⟩
  unfold seaControllerCreate
  rw [Program.run_bind_of_run serve hrun]
  rfl

theorem seaControllerReadFromLocal_eq (blockId : UInt64) (recordId : UInt32) (bufLen : Int32) :
    seaControllerReadFromLocal blockId recordId bufLen =
      queryFresh dataDir blockId recordId bufLen := rfl

/-- The handle of a block of the data directory, with the header that is on disk. -/
structure Working (t : FileTree SeaPath) (id : UInt64) (block : SeaBlock) (recs : List Payload) :
    Prop where
  counts : Counts t dataDir id block recs
  maxCount : block.index.header.maxCount = seaBlockMaxCountDefault

theorem Working.counted {block : SeaBlock} (h : Working t id block recs) :
    CountedBlock t dataDir id recs :=
  ⟨_, h.counts.count, h.maxCount, h.counts.held.2⟩

/-- The controller's current block stores `recs`: it is held open, or not held
and counts them, or not there yet and there are none. -/
def Ready (t : FileTree SeaPath) (controller : SeaController) (recs : List Payload) : Prop :=
  match controller.block with
  | some block => Working t controller.superBlock.blockId block recs
  | none => (Absent t dataDir controller.superBlock.blockId ∧ recs = []) ∨
      CountedBlock t dataDir controller.superBlock.blockId recs

theorem openedBlock_working {hdr : SeaBlockIndexHeader}
    (hcount : hdr.count = UInt32.ofNat recs.length) (hmax : hdr.maxCount = seaBlockMaxCountDefault)
    (himg : Image t dataDir id hdr recs) : Working t id (openedBlock dataDir id hdr) recs :=
  ⟨⟨⟨openedBlock_on dataDir id hdr, himg⟩, hcount⟩, hmax⟩

/-- A ready controller gets a handle of its current block; the data file is the
one there was, or a new one. -/
theorem run_controllerBlock {controller : SeaController} (h : Ready t controller recs)
    (now : UInt64) :
    ∃ block t', (controllerBlock ⟨now, .whole⟩ controller
        controller.superBlock.blockId).run serve t = some (some block, t') ∧
      Working t' controller.superBlock.blockId block recs ∧
      AgreeOff t t' dataDir controller.superBlock.blockId ∧
      (t' (.data dataDir controller.superBlock.blockId) =
          t (.data dataDir controller.superBlock.blockId) ∨
        t' (.data dataDir controller.superBlock.blockId) = some .empty) := by
  unfold controllerBlock
  unfold Ready at h
  cases hblock : controller.block with
  | some block =>
    simp only [hblock] at h ⊢
    exact ⟨block, t, rfl, h, AgreeOff.refl _ _ _, Or.inl rfl⟩
  | none =>
    simp only [hblock] at h ⊢
    rcases h with ⟨habs, rfl⟩ | ⟨hdr, hcount, hmax, himg⟩
    · obtain ⟨t', hcreate, himg, hagree, hdata⟩ := run_seaBlockCreate_absent habs now
        seaBlockMaxSizeDefault seaBlockMaxCountDefault
      obtain ⟨hdr, hcount, hmax, himg'⟩ := (newBlock_created himg hdata).counted
      refine ⟨_, t', ?_, openedBlock_working hcount hmax himg', hagree, Or.inr hdata⟩
      rw [Program.run_bind_of_run serve (run_seaBlockOpen_absent habs.1)]
      simp only [Option.isNone_none, if_true]
      rw [Program.run_bind_of_run serve hcreate]
      exact run_seaBlockOpen himg'
    · refine ⟨_, t, ?_, openedBlock_working hcount hmax himg, AgreeOff.refl _ _ _, Or.inl rfl⟩
      rw [Program.run_bind_of_run serve (run_seaBlockOpen himg)]
      simp only [Option.isNone_some, Bool.false_eq_true, if_false]
      exact run_seaBlockOpen himg

/-- A count below the ids' range is over the limit from the default count on. -/
theorem overLimitOf_bump {hdr : SeaBlockIndexHeader} (now : UInt64)
    (hcount : hdr.count = UInt32.ofNat recs.length) (hmax : hdr.maxCount = seaBlockMaxCountDefault)
    (hfit : recs.length + 1 < 2 ^ 32) :
    overLimitOf (hdr.bump now) = decide (seaBlockMaxCountDefault.toNat ≤ recs.length + 1) := by
  have hnat : (hdr.count + 1).toUInt64.toNat = recs.length + 1 := by
    rw [UInt32.toNat_toUInt64, UInt32.toNat_add, hcount, UInt32.toNat_ofNat', UInt32.toNat_one]
    omega
  have hle : hdr.maxCount ≤ (hdr.count + 1).toUInt64 ↔
      seaBlockMaxCountDefault.toNat ≤ recs.length + 1 := by
    rw [UInt64.le_iff_toNat_le, hnat, hmax]
  simp only [overLimitOf, SeaBlockIndexHeader.bump, hle]

theorem working_of_appended {block block' : SeaBlock} {a : Ambient} {p : Payload}
    {result : AppendResult} (hwork : Working t id block recs)
    (happ : Appended t t' dataDir id block.index.header recs a p result block') :
    Working t' id block' (recs ++ [p]) := by
  refine ⟨happ.counts hwork.counts, ?_⟩
  rw [happ.header, SeaBlockIndexHeader.bump, hwork.maxCount]

/-- A write that has returned zero: its record is the next one of the current
block, which is let go once it is full. -/
structure Logged (t t' : FileTree SeaPath) (controller controller' : SeaController)
    (recs : List Payload) (p : Payload) (result : WriteResult) : Prop where
  result_eq : result = ⟨0, controller.superBlock.blockId, some (UInt32.ofNat recs.length)⟩
  counted : CountedBlock t' dataDir controller.superBlock.blockId (recs ++ [p])
  agree : AgreeOff t t' dataDir controller.superBlock.blockId
  full : seaBlockMaxCountDefault.toNat ≤ recs.length + 1 →
    controller' = ⟨{ controller.superBlock with
      blockId := controller.superBlock.blockId + 1 }, none⟩
  room : recs.length + 1 < seaBlockMaxCountDefault.toNat →
    controller'.superBlock = controller.superBlock ∧ Ready t' controller' (recs ++ [p])

/-- A write whose frame did not get through leaves the records as they were. -/
structure Rejected (t t' : FileTree SeaPath) (controller controller' : SeaController)
    (recs : List Payload) (result : WriteResult) : Prop where
  result_eq : result = ⟨ENOENT, controller.superBlock.blockId, none⟩
  counted : CountedBlock t' dataDir controller.superBlock.blockId recs
  agree : AgreeOff t t' dataDir controller.superBlock.blockId
  superBlock : controller'.superBlock = controller.superBlock
  ready : Ready t' controller' recs

/-- An id can expire: the super block's block is new, and not the block that
the controller writes to. -/
def CanExpire (idOf : String → UInt64) (t : FileTree SeaPath) (superBlock : SuperBlock) : Prop :=
  NewBlock t superBlock.dir (idOf superBlock.controllerName) ∧
    ¬ (superBlock.dir = dataDir ∧ idOf superBlock.controllerName = superBlock.blockId)

section Write

variable {controller : SeaController} {e : WriteEnv} {block block' : SeaBlock} {p : Payload}
  {appended : AppendResult} {t₁ t₂ : FileTree SeaPath}

/-- Once its append has returned zero a write logs the record. -/
theorem run_write_appended (idOf : String → UInt64)
    (hblock : (controllerBlock e.create controller controller.superBlock.blockId).run serve t =
      some (some block, t₁))
    (hwork : Working t₁ controller.superBlock.blockId block recs)
    (hagree : AgreeOff t t₁ dataDir controller.superBlock.blockId)
    (happend : (seaBlockAppend e.ambient e.faults block p.bytes p.length).run serve t₁ =
      some ((appended, block'), t₂))
    (happ : Appended t₁ t₂ dataDir controller.superBlock.blockId block.index.header recs e.ambient
      p appended block')
    (hfit : recs.length + 1 < 2 ^ 32)
    (hexpire : seaBlockMaxCountDefault.toNat ≤ recs.length + 1 →
      CanExpire idOf t controller.superBlock) :
    ∃ result controller', (seaControllerWriteLocal idOf e controller p.bytes p.length).run serve t =
        some ((result, controller'), t₂) ∧ Logged t t₂ controller controller' recs p result := by
  have hwork' := working_of_appended hwork happ
  have hagree' := hagree.trans happ.agree
  have hresult := happ.result_eq
  rw [overLimitOf_bump e.ambient.now hwork.counts.count hwork.maxCount hfit,
    hwork.counts.count] at hresult
  obtain rfl := hresult
  unfold seaControllerWriteLocal
  simp only [controllerSuperBlockGetBlockId]
  rw [Program.run_bind_of_run serve hblock]
  simp only []
  rw [Program.run_bind_of_run serve happend]
  simp only [ne_eq, not_true_eq_false, if_false, Option.getD_some]
  by_cases hfull : seaBlockMaxCountDefault.toNat ≤ recs.length + 1
  · obtain ⟨hsuper, hne⟩ := hexpire hfull
    have hnew := hsuper.of_agreeOff hagree' hne
    rw [if_pos (decide_eq_true hfull), Program.run_bind_of_run serve
      (run_controllerSuperBlockExpireBlockId controller.superBlock e.store hnew)]
    refine ⟨_, _, rfl, rfl, hwork'.counted, hagree', fun _ => rfl, ?_⟩
    intro hroom
    exact absurd hfull (Nat.not_le.mpr hroom)
  · rw [if_neg (by simpa using hfull)]
    exact ⟨_, _, rfl, rfl, hwork'.counted, hagree', fun h => absurd h hfull,
      fun _ => ⟨rfl, hwork'⟩⟩

/-- A write whose append was refused is rejected. -/
theorem run_write_refused (idOf : String → UInt64)
    (hblock : (controllerBlock e.create controller controller.superBlock.blockId).run serve t =
      some (some block, t₁))
    (hwork : Working t₁ controller.superBlock.blockId block recs)
    (hagree : AgreeOff t t₁ dataDir controller.superBlock.blockId)
    (happend : (seaBlockAppend e.ambient e.faults block p.bytes p.length).run serve t₁ =
      some ((appended, block'), t₂))
    (href : Refused t₁ t₂ dataDir controller.superBlock.blockId block.index.header recs block
      appended block') :
    ∃ result controller', (seaControllerWriteLocal idOf e controller p.bytes p.length).run serve t =
        some ((result, controller'), t₂) ∧ Rejected t t₂ controller controller' recs result := by
  have hwork' : Working t₂ controller.superBlock.blockId block' recs := by
    refine ⟨href.counts hwork.counts, ?_⟩
    rw [href.index]
    exact hwork.maxCount
  obtain rfl := href.result_eq
  unfold seaControllerWriteLocal
  simp only [controllerSuperBlockGetBlockId]
  rw [Program.run_bind_of_run serve hblock]
  simp only []
  rw [Program.run_bind_of_run serve happend]
  exact ⟨_, _, rfl, rfl, hwork'.counted, hagree.trans href.agree, rfl, hwork'⟩

/-- Whatever becomes of its frame, a write of a ready controller logs its
record or is rejected. -/
theorem run_seaControllerWriteLocal (idOf : String → UInt64) (hready : Ready t controller recs)
    (hexpire : CanExpire idOf t controller.superBlock) (hfit : recs.length + 1 < 2 ^ 32)
    (now : UInt64) (a : Ambient) {faults : Faults} (hentry : faults.entry.Full indexEntrySize)
    (hheader : faults.header.Full indexHeaderSize) (store : StoreEnv) (p : Payload) :
    ∃ result controller' t',
      (seaControllerWriteLocal idOf ⟨⟨now, .whole⟩, a, faults, store⟩ controller p.bytes
        p.length).run serve t = some ((result, controller'), t') ∧
      (Logged t t' controller controller' recs p result ∨
        Rejected t t' controller controller' recs result) := by
  obtain ⟨block, t₁, hblock, hwork, hagree, -⟩ := run_controllerBlock hready now
  obtain ⟨appended, block', t₂, happend, hcases⟩ :=
    append_total (a := a) (p := p) hwork.counts.held.1 hwork.counts.held.2 hentry hheader (by omega)
  rcases hcases with happ | href
  · obtain ⟨result, controller', hrun, hlog⟩ := run_write_appended (e := ⟨⟨now, .whole⟩, a, faults,
      store⟩) idOf hblock hwork hagree happend happ hfit (fun _ => hexpire)
    exact ⟨result, controller', t₂, hrun, Or.inl hlog⟩
  · obtain ⟨result, controller', hrun, hrej⟩ := run_write_refused (e := ⟨⟨now, .whole⟩, a, faults,
      store⟩) idOf hblock hwork hagree happend href
    exact ⟨result, controller', t₂, hrun, Or.inr hrej⟩

end Write

end SeaStore.Controller
