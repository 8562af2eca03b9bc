import SeaStore.Controller.Controller
import Mathlib.Data.List.Nodup

/-!
The local log over writes, reads and restarts. Blocks are numbered from the
first id after the super block's own; a restart goes back to the first of them,
which it finds full or not as it was left. Every record keeps the place that
its write was told.
-/
namespace SeaStore.Controller

open Posix Block

/-- What a caller does with the log. Only the frame of a write may fail. -/
inductive LocalOp
  | write (now : UInt64) (a : Ambient) (frame : Outcome) (store : StoreEnv) (p : Payload)
  | read (blockId : UInt64) (recordId : UInt32) (bufLen : Int32)
  | restart (now garbage : UInt64)

def LocalOp.isWrite : LocalOp → Bool
  | .write .. => true
  | .read .. | .restart .. => false

/-- The files, the controller, and the places that writes were told, with what
they wrote. -/
structure LocalLog where
  tree : FileTree SeaPath
  controller : SeaController
  acked : List ((UInt64 × UInt32) × Payload)

variable (idOf : String → UInt64) (dir : String)

def localStart (t : FileTree SeaPath) (now garbage : UInt64) : Option LocalLog := do
  let (controller, tree) ← (seaControllerCreate idOf ⟨⟨now, .whole⟩, garbage⟩ dir).run serve t
  return ⟨tree, controller, []⟩

def LocalLog.acknowledge (result : WriteResult) (p : Payload) :
    List ((UInt64 × UInt32) × Payload) :=
  if result.ret = 0 then (result.recordId.map fun id => ((result.blockId, id), p)).toList else []

def localStep (s : LocalLog) : LocalOp → Option LocalLog
  | .write now a frame store p => do
    let ((result, controller), tree) ← (seaControllerWriteLocal idOf
      ⟨⟨now, .whole⟩, a, ⟨frame, .whole, .whole⟩, store⟩ s.controller p.bytes p.length).run
        serve s.tree
    return ⟨tree, controller, s.acked ++ LocalLog.acknowledge result p⟩
  | .read blockId recordId bufLen => do
    let (_, tree) ← (seaControllerReadFromLocal blockId recordId bufLen).run serve s.tree
    return { s with tree := tree }
  | .restart now garbage => do
    let ((), tree) ← (seaControllerDestroy s.controller).run serve s.tree
    let (controller, tree) ← (seaControllerCreate idOf ⟨⟨now, .whole⟩, garbage⟩ dir).run serve tree
    return { s with tree := tree, controller := controller }

def localRun (t : FileTree SeaPath) (now garbage : UInt64) (ops : List LocalOp) :
    Option LocalLog := do
  let s ← localStart idOf dir t now garbage
  runSteps (localStep idOf dir) s ops

variable {idOf dir}

theorem toNat_blockIdAt {base : UInt64} {k : ℕ} (hbase : base.toNat < 2 ^ 63 - 2 ^ 32)
    (hk : k < 2 ^ 32) : (blockIdAt base k).toNat = base.toNat + 1 + k := by
  rw [blockIdAt, UInt64.toNat_add, UInt64.toNat_add, UInt64.toNat_ofNat', UInt64.toNat_one]
  omega

theorem blockIdAt_ne_base {base : UInt64} {k : ℕ} (hbase : base.toNat < 2 ^ 63 - 2 ^ 32)
    (hk : k < 2 ^ 32) : base ≠ blockIdAt base k := by
  intro h
  have hnat := congrArg UInt64.toNat h
  rw [toNat_blockIdAt hbase hk] at hnat
  omega

/-- Every block of the data directory stores and counts its `contents`, or is
not there and has none. -/
def Shelved (t : FileTree SeaPath) (contents : UInt64 → List Payload) : Prop :=
  ∀ id, (Absent t dataDir id ∧ contents id = []) ∨ CountedBlock t dataDir id (contents id)

/-- Each acknowledged record is at its place in `contents`, and no place was
told twice. -/
structure Placed (contents : UInt64 → List Payload)
    (acked : List ((UInt64 × UInt32) × Payload)) : Prop where
  stored : ∀ blockId recordId p, ((blockId, recordId), p) ∈ acked →
    (contents blockId)[recordId.toNat]? = some p
  nodup : (acked.map Prod.fst).Nodup

theorem Placed.concat {contents : UInt64 → List Payload}
    {acked : List ((UInt64 × UInt32) × Payload)} (h : Placed contents acked) (id : UInt64)
    (p : Payload) (hfit : (contents id).length < 2 ^ 32) :
    Placed (Function.update contents id (contents id ++ [p]))
      (acked ++ [((id, UInt32.ofNat (contents id).length), p)]) := by
  have hplace : (UInt32.ofNat (contents id).length).toNat = (contents id).length := by
    rw [UInt32.toNat_ofNat', Nat.mod_eq_of_lt hfit]
  constructor
  · intro blockId recordId q hmem
    rcases List.mem_append.mp hmem with hold | hnew
    · have hq := h.stored blockId recordId q hold
      by_cases hid : blockId = id
      · subst hid
        obtain ⟨hlt, -⟩ := List.getElem?_eq_some_iff.mp hq
        rw [Function.update_self, List.getElem?_append_left hlt, hq]
      · rw [Function.update_of_ne hid, hq]
    · obtain ⟨⟨rfl, rfl⟩, rfl⟩ : (blockId = id ∧ recordId = _) ∧ q = p := by
        simpa using hnew
      rw [Function.update_self, hplace, List.getElem?_concat_length]
  · rw [List.map_append, List.nodup_append]
    refine ⟨h.nodup, List.nodup_singleton _, ?_⟩
    intro place hold place' hnew hsame
    obtain ⟨⟨⟨blockId, recordId⟩, q⟩, hmem, rfl⟩ := List.mem_map.mp hold
    obtain rfl : place' = (id, UInt32.ofNat (contents id).length) := by simpa using hnew
    obtain ⟨rfl, rfl⟩ := Prod.mk.inj hsame
    have hq := h.stored _ _ q hmem
    rw [hplace, List.getElem?_eq_none (Nat.le_refl _)] at hq
    exact absurd hq (by simp)

/-- After `n` writes, with the `j`-th block the current one: every acknowledged
record is where its write was told. -/
structure Kept (base : UInt64) (dir : String) (n j : ℕ) (contents : UInt64 → List Payload)
    (s : LocalLog) : Prop where
  superNew : NewBlock s.tree dir base
  superEmpty : contents base = []
  superBlock : s.controller.superBlock = ⟨controllerName, dir, blockIdAt base j⟩
  current_le : j ≤ n
  ready : Ready s.tree s.controller (contents (blockIdAt base j))
  shelved : Shelved s.tree contents
  length_le : ∀ id, (contents id).length ≤ n
  placed : Placed contents s.acked

section Shelves

variable {t t' : FileTree SeaPath} {contents : UInt64 → List Payload}

/-- Reading never changes the files, whatever is asked for. -/
theorem Shelved.run_read (h : Shelved t contents) (blockId : UInt64) (recordId : UInt32)
    (bufLen : Int32) :
    ∃ result, (seaControllerReadFromLocal blockId recordId bufLen).run serve t =
      some (result, t) := by
  rw [seaControllerReadFromLocal_eq]
  rcases h blockId with ⟨habs, -⟩ | ⟨hdr, -, -, himg⟩
  · exact ⟨_, run_queryFresh_absent habs.1 recordId bufLen⟩
  · exact ⟨_, run_queryFresh himg recordId bufLen⟩

/-- One block has been written to, and the others have not. -/
theorem Shelved.update {id : UInt64} {recs : List Payload} (h : Shelved t contents)
    (hagree : AgreeOff t t' dataDir id) (hcounted : CountedBlock t' dataDir id recs) :
    Shelved t' (Function.update contents id recs) := by
  intro id'
  by_cases hid : id' = id
  · subst hid
    rw [Function.update_self]
    exact Or.inr hcounted
  · rw [Function.update_of_ne hid]
    rcases h id' with ⟨habs, hnil⟩ | hblock
    · exact Or.inl ⟨hagree.absent (fun hsame => hid hsame.2) habs, hnil⟩
    · exact Or.inr (hblock.of_agreeOff hagree (fun hsame => hid hsame.2))

theorem Shelved.create {id : UInt64} (h : Shelved t contents) (hagree : AgreeOff t t' dir id)
    (hnew : NewBlock t' dir id) (hnil : dir = dataDir → contents id = []) :
    Shelved t' contents := by
  intro id'
  by_cases hsame : dataDir = dir ∧ id' = id
  · obtain ⟨rfl, rfl⟩ := hsame
    rw [hnil rfl]
    exact Or.inr hnew.counted
  · rcases h id' with ⟨habs, hnone⟩ | hblock
    · exact Or.inl ⟨hagree.absent hsame habs, hnone⟩
    · exact Or.inr (hblock.of_agreeOff hagree hsame)

end Shelves

namespace Kept

variable {base : UInt64} {n j : ℕ} {contents : UInt64 → List Payload} {s : LocalLog}

/-- An acknowledged record is read back by any read with a buffer it fits in. -/
theorem reads (h : Kept base dir n j contents s) (hn : n < 2 ^ 32) {blockId : UInt64}
    {recordId : UInt32} {p : Payload} (hmem : ((blockId, recordId), p) ∈ s.acked) {bufLen : Int32}
    (hbuf : (p.bytes.length : ℤ) ≤ bufLen.toInt) :
    (seaControllerReadFromLocal blockId recordId bufLen).run serve s.tree =
      some (⟨0, some p.bytes⟩, s.tree) := by
  have hp := h.placed.stored blockId recordId p hmem
  obtain ⟨hlt, -⟩ := List.getElem?_eq_some_iff.mp hp
  rcases h.shelved blockId with ⟨-, hnil⟩ | ⟨hdr, hcount, -, himg⟩
  · rw [hnil] at hlt
    exact absurd hlt (Nat.not_lt_zero _)
  · have hle := h.length_le blockId
    have hcounted : recordId.toNat < hdr.count.toNat := by
      rw [hcount, UInt32.toNat_ofNat', Nat.mod_eq_of_lt (by omega)]
      exact hlt
    rw [seaControllerReadFromLocal_eq, run_queryFresh himg, lookup_of_get hcounted hp hbuf]

theorem read_step (h : Kept base dir n j contents s) (blockId : UInt64) (recordId : UInt32)
    (bufLen : Int32) : localStep idOf dir s (.read blockId recordId bufLen) = some s := by
  obtain ⟨result, hrun⟩ := h.shelved.run_read blockId recordId bufLen
  simp [localStep, hrun]

theorem created {t : FileTree SeaPath} (hnew : NewBlock t dir base) (hempty : contents base = [])
    (hshelved : Shelved t contents) (hlength : ∀ id, (contents id).length ≤ n)
    {acked : List ((UInt64 × UInt32) × Payload)} (hplaced : Placed contents acked) :
    Kept base dir n 0 contents ⟨t, ⟨⟨controllerName, dir, base + 1⟩, none⟩, acked⟩ where
  superNew := hnew
  superEmpty := hempty
  superBlock := by simp [blockIdAt]
  current_le := Nat.zero_le n
  ready := by simpa [Ready, blockIdAt] using hshelved (base + 1)
  shelved := hshelved
  length_le := hlength
  placed := hplaced

theorem restart_step (h : Kept (idOf controllerName) dir n j contents s) (now garbage : UInt64) :
    ∃ s', localStep idOf dir s (.restart now garbage) = some s' ∧
      Kept (idOf controllerName) dir n 0 contents s' := by
  obtain ⟨t', hrun, hnew, hagree⟩ := run_seaControllerCreate idOf now garbage (Or.inr h.superNew)
  refine ⟨⟨t', _, s.acked⟩, ?_, created hnew h.superEmpty
    (h.shelved.create hagree hnew fun _ => h.superEmpty) h.length_le h.placed⟩
  simp [localStep, seaControllerDestroy, controllerSuperBlockClose, hrun]

theorem mono {n' : ℕ} (h : Kept base dir n j contents s) (hle : n ≤ n') :
    Kept base dir n' j contents s where
  superNew := h.superNew
  superEmpty := h.superEmpty
  superBlock := h.superBlock
  current_le := Nat.le_trans h.current_le hle
  ready := h.ready
  shelved := h.shelved
  length_le := fun id => Nat.le_trans (h.length_le id) hle
  placed := h.placed

/-- A logged record is the next one of the current block, and the id expires
once the block is full. -/
theorem logged (h : Kept base dir n j contents s) (hne : base ≠ blockIdAt base j)
    (hfit : (contents (blockIdAt base j)).length < 2 ^ 32) {p : Payload} {result : WriteResult}
    {t' : FileTree SeaPath} {controller' : SeaController}
    (hlog : Logged s.tree t' s.controller controller' (contents (blockIdAt base j)) p result) :
    Kept base dir (n + 1)
      (if seaBlockMaxCountDefault.toNat ≤ (contents (blockIdAt base j)).length + 1 then j + 1
        else j)
      (Function.update contents (blockIdAt base j) (contents (blockIdAt base j) ++ [p]))
      ⟨t', controller', s.acked ++
        [((blockIdAt base j, UInt32.ofNat (contents (blockIdAt base j)).length), p)]⟩ := by
  have hj := h.current_le
  have hlen := h.length_le (blockIdAt base j)
  have hagree := hlog.agree
  have hcounted := hlog.counted
  rw [h.superBlock] at hagree hcounted
  have hshelved := h.shelved.update hagree hcounted
  have hplaced := h.placed.concat (blockIdAt base j) p hfit
  have hlength : ∀ id, (Function.update contents (blockIdAt base j)
      (contents (blockIdAt base j) ++ [p]) id).length ≤ n + 1 := by
    intro id
    by_cases hid : id = blockIdAt base j
    · subst hid
      rw [Function.update_self, List.length_append, List.length_singleton]
      omega
    · rw [Function.update_of_ne hid]
      exact Nat.le_succ_of_le (h.length_le id)
  have hsuper : NewBlock t' dir base := by
    exact h.superNew.of_agreeOff hagree (fun hsame => hne hsame.2)
  have hempty : Function.update contents (blockIdAt base j)
      (contents (blockIdAt base j) ++ [p]) base = [] := by
    rw [Function.update_of_ne hne]
    exact h.superEmpty
  by_cases hfull : seaBlockMaxCountDefault.toNat ≤ (contents (blockIdAt base j)).length + 1
  · rw [if_pos hfull]
    obtain rfl := hlog.full hfull
    refine ⟨hsuper, hempty, ?_, by omega, ?_, hshelved, hlength, hplaced⟩
    · simp only [h.superBlock, blockIdAt_succ]
    · simpa only [Ready, h.superBlock, blockIdAt_succ] using hshelved (blockIdAt base (j + 1))
  · rw [if_neg hfull]
    obtain ⟨hsame, hready⟩ := hlog.room (Nat.lt_of_not_le hfull)
    refine ⟨hsuper, hempty, hsame.trans h.superBlock, by omega, ?_, hshelved, hlength, hplaced⟩
    rw [Function.update_self]
    exact hready

theorem rejected (h : Kept base dir n j contents s) (hne : base ≠ blockIdAt base j)
    {result : WriteResult} {t' : FileTree SeaPath} {controller' : SeaController}
    (hrej : Rejected s.tree t' s.controller controller' (contents (blockIdAt base j)) result) :
    Kept base dir n j contents ⟨t', controller', s.acked⟩ := by
  have hagree := hrej.agree
  have hcounted := hrej.counted
  rw [h.superBlock] at hagree hcounted
  have hshelved := h.shelved.update hagree hcounted
  rw [Function.update_eq_self] at hshelved
  exact ⟨h.superNew.of_agreeOff hagree (fun hsame => hne hsame.2), h.superEmpty,
    hrej.superBlock.trans h.superBlock, h.current_le, hrej.ready, hshelved, h.length_le, h.placed⟩

/-- A write puts its record behind the others of the current block, or nothing. -/
theorem run_write (h : Kept (idOf controllerName) dir n j contents s)
    (hne : idOf controllerName ≠ blockIdAt (idOf controllerName) j)
    (hfit : (contents (blockIdAt (idOf controllerName) j)).length + 1 < 2 ^ 32) (now : UInt64)
    (a : Ambient) (frame : Outcome) (store : StoreEnv) (p : Payload) :
    ∃ result controller' t', (seaControllerWriteLocal idOf
        ⟨⟨now, .whole⟩, a, ⟨frame, .whole, .whole⟩, store⟩ s.controller p.bytes p.length).run
          serve s.tree = some ((result, controller'), t') ∧
      ((result = ⟨0, blockIdAt (idOf controllerName) j,
            some (UInt32.ofNat (contents (blockIdAt (idOf controllerName) j)).length)⟩ ∧
          Logged s.tree t' s.controller controller'
            (contents (blockIdAt (idOf controllerName) j)) p result) ∨
        (result = ⟨ENOENT, blockIdAt (idOf controllerName) j, none⟩ ∧
          Rejected s.tree t' s.controller controller'
            (contents (blockIdAt (idOf controllerName) j)) result)) := by
  have hexpire : CanExpire idOf s.tree s.controller.superBlock := by
    rw [h.superBlock]
    exact ⟨h.superNew, fun hsame => hne hsame.2⟩
  have hentry : (Faults.mk frame .whole .whole).entry.Full indexEntrySize := Outcome.full_whole _
  have hheader : (Faults.mk frame .whole .whole).header.Full indexHeaderSize := Outcome.full_whole _
  obtain ⟨result, controller', t', hrun, hcases⟩ := run_seaControllerWriteLocal idOf h.ready
    hexpire hfit now a hentry hheader store p
  refine ⟨result, controller', t', hrun, ?_⟩
  rcases hcases with hlog | hrej
  · refine Or.inl ⟨?_, hlog⟩
    rw [hlog.result_eq, h.superBlock]
  · refine Or.inr ⟨?_, hrej⟩
    rw [hrej.result_eq, h.superBlock]

/-- So it is acknowledged at the next place of the current block, or not at all. -/
theorem write_step (h : Kept (idOf controllerName) dir n j contents s)
    (hne : idOf controllerName ≠ blockIdAt (idOf controllerName) j)
    (hfit : (contents (blockIdAt (idOf controllerName) j)).length + 1 < 2 ^ 32) (now : UInt64)
    (a : Ambient) (frame : Outcome) (store : StoreEnv) (p : Payload) :
    ∃ s', localStep idOf dir s (.write now a frame store p) = some s' ∧
      ((s'.acked = s.acked ++ [((blockIdAt (idOf controllerName) j,
            UInt32.ofNat (contents (blockIdAt (idOf controllerName) j)).length), p)] ∧
          Kept (idOf controllerName) dir (n + 1)
            (if seaBlockMaxCountDefault.toNat ≤
                (contents (blockIdAt (idOf controllerName) j)).length + 1 then j + 1 else j)
            (Function.update contents (blockIdAt (idOf controllerName) j)
              (contents (blockIdAt (idOf controllerName) j) ++ [p])) s') ∨
        (s'.acked = s.acked ∧ Kept (idOf controllerName) dir n j contents s')) := by
  obtain ⟨result, controller', t', hrun, hcases⟩ := h.run_write hne hfit now a frame store p
  have hstep : localStep idOf dir s (.write now a frame store p) =
      some ⟨t', controller', s.acked ++ LocalLog.acknowledge result p⟩ := by
    simp only [localStep, hrun, Option.bind_eq_bind, Option.bind_some]
    rfl
  refine ⟨_, hstep, ?_⟩
  rcases hcases with ⟨rfl, hlog⟩ | ⟨rfl, hrej⟩
  · exact Or.inl ⟨rfl, h.logged hne (by omega) hlog⟩
  · have hacked : s.acked ++ LocalLog.acknowledge
        ⟨ENOENT, blockIdAt (idOf controllerName) j, none⟩ p = s.acked := List.append_nil _
    rw [hacked]
    exact Or.inr ⟨rfl, h.rejected hne hrej⟩

end Kept

/-- Every run of fewer than `2 ^ 32` writes goes through to its end. -/
theorem localSteps_kept {n j : ℕ} {contents : UInt64 → List Payload} {s : LocalLog}
    (hbase : (idOf controllerName).toNat < 2 ^ 63 - 2 ^ 32) (ops : List LocalOp)
    (h : Kept (idOf controllerName) dir n j contents s)
    (hn : n + ops.countP LocalOp.isWrite < 2 ^ 32) :
    ∃ s' n' j' contents', runSteps (localStep idOf dir) s ops = some s' ∧ n' < 2 ^ 32 ∧
      Kept (idOf controllerName) dir n' j' contents' s' := by
  induction ops generalizing n j contents s with
  | nil => exact ⟨s, n, j, contents, rfl, hn, h⟩
  | cons op ops ih =>
    simp only [runSteps]
    cases op with
    | write now a frame store p =>
      rw [List.countP_cons_of_pos rfl] at hn
      have hj := h.current_le
      have hlen := h.length_le (blockIdAt (idOf controllerName) j)
      obtain ⟨s₁, hstep, hcases⟩ := h.write_step (blockIdAt_ne_base hbase (by omega)) (by omega)
        now a frame store p
      rw [hstep]
      rcases hcases with ⟨-, h₁⟩ | ⟨-, h₁⟩
      · exact ih h₁ (by omega)
      · exact ih (h₁.mono (Nat.le_succ n)) (by omega)
    | read blockId recordId bufLen =>
      rw [List.countP_cons_of_neg (by simp [LocalOp.isWrite])] at hn
      rw [h.read_step blockId recordId bufLen]
      exact ih h hn
    | restart now garbage =>
      rw [List.countP_cons_of_neg (by simp [LocalOp.isWrite])] at hn
      obtain ⟨s₁, hstep, h₁⟩ := h.restart_step now garbage
      rw [hstep]
      exact ih h₁ hn

theorem localStart_kept {t : FileTree SeaPath} (now garbage : UInt64)
    (hdata : ∀ id, Absent t dataDir id) (hdir : ∀ id, Absent t dir id) :
    ∃ s, localStart idOf dir t now garbage = some s ∧ s.acked = [] ∧
      Kept (idOf controllerName) dir 0 0 (fun _ => []) s := by
  obtain ⟨t', hrun, hnew, hagree⟩ := run_seaControllerCreate idOf now garbage
    (Or.inl (hdir (idOf controllerName)))
  have hshelved : Shelved t' (fun _ => []) :=
    Shelved.create (fun id => Or.inl ⟨hdata id, rfl⟩) hagree hnew (fun _ => rfl)
  refine ⟨⟨t', ⟨⟨controllerName, dir, idOf controllerName + 1⟩, none⟩, []⟩, ?_, rfl, ?_⟩
  · unfold localStart
    rw [hrun]
    rfl
  · exact .created hnew rfl hshelved (fun _ => Nat.le_refl 0) ⟨by simp, by simp⟩

/-- From directories without block files, after any run of writes, reads and
restarts with fewer than `2 ^ 32` writes, frames failing or not: every write that
returned zero was told an id, no place has been told twice, and each of these
records is read back whole. -/
theorem localRun_readsBack {t : FileTree SeaPath} {now garbage : UInt64} {ops : List LocalOp}
    (hdata : ∀ id, Absent t dataDir id) (hdir : ∀ id, Absent t dir id)
    (hbase : (idOf controllerName).toNat < 2 ^ 63 - 2 ^ 32)
    (hwrites : ops.countP LocalOp.isWrite < 2 ^ 32) :
    (∀ e controller buf bufLen, (seaControllerWriteLocal idOf e controller buf bufLen).Returns
      fun out => out.1.ret = 0 → out.1.recordId.isSome) ∧
    ∃ s, localRun idOf dir t now garbage ops = some s ∧ (s.acked.map Prod.fst).Nodup ∧
      ∀ blockId recordId p, ((blockId, recordId), p) ∈ s.acked →
        ∀ bufLen : Int32, (p.bytes.length : ℤ) ≤ bufLen.toInt →
          (seaControllerReadFromLocal blockId recordId bufLen).run serve s.tree =
            some (⟨0, some p.bytes⟩, s.tree) := by
  refine ⟨seaControllerWriteLocal_returns idOf, ?_⟩
  obtain ⟨s₀, hstart, -, hkept⟩ := localStart_kept now garbage hdata hdir
  obtain ⟨s, n, j, contents, hsteps, hn, hs⟩ :=
    localSteps_kept hbase ops hkept (by omega)
  refine ⟨s, ?_, hs.placed.nodup, ?_⟩
  · unfold localRun
    rw [hstart]
    exact hsteps
  · intro blockId recordId p hmem bufLen hbuf
    exact hs.reads hn hmem hbuf

/-- A frame cut short, a record, a restart, and a record after it. -/
def restarted : List LocalOp :=
  [.write 0 (.clear 0) (.short 3) ⟨.clear 0, .whole⟩ (.single 97),
    .write 0 (.clear 0) .whole ⟨.clear 0, .whole⟩ (.single 98), .restart 0 0,
    .write 0 (.clear 0) .whole ⟨.clear 0, .whole⟩ (.single 99)]

theorem localRun_readsBack_restarted :
    ∃ s, localRun (controllerGetBlockId fun _ => controllerHash) "" (fun _ => none) 0 0 restarted =
        some s ∧
      s.acked = [((0x6633303163343936, 0), .single 98), ((0x6633303163343936, 1), .single 99)] ∧
      (s.acked.map Prod.fst).Nodup ∧
      ∀ blockId recordId p, ((blockId, recordId), p) ∈ s.acked →
        ∀ bufLen : Int32, (p.bytes.length : ℤ) ≤ bufLen.toInt →
          (seaControllerReadFromLocal blockId recordId bufLen).run serve s.tree =
            some (⟨0, some p.bytes⟩, s.tree) := by
  have hacked : (localRun (controllerGetBlockId fun _ => controllerHash) "" (fun _ => none) 0 0
      restarted).map LocalLog.acked =
      some [((0x6633303163343936, 0), .single 98), ((0x6633303163343936, 1), .single 99)] := by
    decide +kernel
  obtain ⟨-, s, hrun, hnodup, hreads⟩ :=
    @localRun_readsBack (controllerGetBlockId fun _ => controllerHash) "" (fun _ => none) 0 0
      restarted (fun _ => ⟨rfl, rfl⟩) (fun _ => ⟨rfl, rfl⟩)
      (Nat.lt_of_le_of_lt (Word.nameBlockId_bounds _ _).2 (by decide)) (by decide)
  rw [hrun] at hacked
  exact ⟨s, hrun, Option.some.inj hacked, hnodup, hreads⟩

end SeaStore.Controller
