import SeaStore.Block.Update

/-!
A block whose payloads all have the same length is an array of cells. An append
pushes a cell and an update replaces one in its place; the index file is only
ever appended to, and the data file has one frame for each cell.
-/
namespace SeaStore.Block

open Posix

/-- A payload of `length` bytes. -/
abbrev Cell (length : ℕ) := { p : Payload // p.bytes.length = length }

/-- What is done with a block of cells, one handle at a time. -/
inductive CellOp (length : ℕ)
  | append (a : Ambient) (cell : Cell length)
  | update (a : Ambient) (recordId : UInt32) (cell : Cell length)
  | reopen

inductive CellResult
  | pushed (index : ℕ)
  | replaced
  | refused
  | reopened
  deriving DecidableEq

namespace CellArray

variable {length : ℕ}

/-- The array of cells that a block stands for. -/
def step (cells : List (Cell length)) : CellOp length → List (Cell length) × CellResult
  | .append _ cell => (cells ++ [cell], .pushed cells.length)
  | .update _ recordId cell =>
    if recordId.toNat < cells.length then (cells.set recordId.toNat cell, .replaced)
    else (cells, .refused)
  | .reopen => (cells, .reopened)

def run (cells : List (Cell length)) :
    List (CellOp length) → List (Cell length) × List CellResult
  | [] => (cells, [])
  | op :: ops =>
    let (cells, result) := step cells op
    let (cells, results) := run cells ops
    (cells, result :: results)

end CellArray

/-- A block of cells: the files, the handle, and the results so far. -/
structure CellBlock where
  tree : FileTree SeaPath
  block : SeaBlock
  results : List CellResult

def CellResult.ofAppend (result : AppendResult) : CellResult :=
  match result.ret, result.recordId with
  | 0, some recordId => .pushed recordId.toNat
  | _, _ => .refused

def CellResult.ofUpdate (ret : ℕ) : CellResult := if ret = 0 then .replaced else .refused

section Run

variable {length : ℕ} (dir : String) (id : UInt64)

def cellStep (s : CellBlock) : CellOp length → Option CellBlock
  | .append a cell => do
    let ((result, block), tree) ←
      (seaBlockAppend a .none s.block cell.val.bytes cell.val.length).run serve s.tree
    return ⟨tree, block, s.results ++ [.ofAppend result]⟩
  | .update a recordId cell => do
    let ((ret, block), tree) ←
      (seaBlockUpdate a .whole s.block recordId cell.val.bytes cell.val.length).run serve s.tree
    return ⟨tree, block, s.results ++ [.ofUpdate ret]⟩
  | .reopen => do
    let ((), tree) ← (seaBlockClose s.block).run serve s.tree
    let block ← openStep dir id tree
    return ⟨tree, block, s.results ++ [.reopened]⟩

/-- A block is created where there was none and opened, and then worked with. -/
def cellRun (t : FileTree SeaPath) (now maxSize maxCount : UInt64)
    (ops : List (CellOp length)) : Option CellBlock := do
  let w ← newWriter dir id t now maxSize maxCount
  runSteps (cellStep dir id) ⟨w.tree, w.block, []⟩ ops

def pushes (ops : List (CellOp length)) : ℕ :=
  ops.countP fun
    | .append .. => true
    | .update .. | .reopen => false

/-- The block stores the cells, each in a frame at its place, and the handle counts them. -/
structure Refines (s : CellBlock) (cells : List (Cell length)) : Prop where
  on : s.block.On dir id
  count : s.block.index.header.count = UInt32.ofNat cells.length
  laidOut : ∃ filled : List (Ambient × Payload),
    filled.map Prod.snd = cells.map Subtype.val ∧
      LaidOut s.tree dir id s.block.index.header filled

variable {dir id} {s s' : CellBlock} {cells : List (Cell length)}

theorem dataBytes_length {filled : List (Ambient × Payload)}
    (h : ∀ op ∈ filled, op.2.bytes.length = length) :
    (dataBytes filled).length = (length + 16) * filled.length := by
  induction filled with
  | nil => rfl
  | cons op rest ih =>
    have hop := h op (List.mem_cons_self ..)
    have hrest := ih fun other hmem => h other (List.mem_cons_of_mem op hmem)
    rw [dataBytes_cons, List.length_append, Payload.frame_length, hop, hrest, List.length_cons,
      Nat.mul_succ, Nat.add_comm]

namespace Refines

theorem cell_length {filled : List (Ambient × Payload)}
    (hcells : filled.map Prod.snd = cells.map Subtype.val) :
    ∀ op ∈ filled, op.2.bytes.length = length := by
  intro op hop
  have hmem : op.2 ∈ cells.map Subtype.val := by
    rw [← hcells]
    exact List.mem_map_of_mem hop
  obtain ⟨cell, -, heq⟩ := List.mem_map.mp hmem
  rw [← heq]
  exact cell.property

theorem image (h : Refines dir id s cells) :
    Image s.tree dir id s.block.index.header (cells.map Subtype.val) := by
  obtain ⟨filled, hcells, hlaid⟩ := h.laidOut
  rw [← hcells]
  exact hlaid.image

theorem data_size (h : Refines dir id s cells) :
    ∃ f, s.tree (.data dir id) = some f ∧ f.size = (length + 16) * cells.length := by
  obtain ⟨filled, hcells, f, g, entries, hf, -, -, hdata, -⟩ := h.laidOut
  refine ⟨f, hf, ?_⟩
  have hlen : filled.length = cells.length := by
    simpa using congrArg List.length hcells
  rw [File.size, hdata, dataBytes_length (cell_length hcells), hlen]

theorem count_toNat (h : Refines dir id s cells) (hfew : cells.length < 2 ^ 32) :
    s.block.index.header.count.toNat = cells.length := by
  rw [h.count, UInt32.toNat_ofNat', Nat.mod_eq_of_lt hfew]

theorem append_step (h : Refines dir id s cells) (hfew : cells.length + 1 < 2 ^ 32) (a : Ambient)
    (cell : Cell length) :
    ∃ s', cellStep dir id s (.append a cell) = some s' ∧ Refines dir id s' (cells ++ [cell]) ∧
      s'.results = s.results ++ [.pushed cells.length] := by
  obtain ⟨f, hf, hsize⟩ := h.data_size
  obtain ⟨filled, hcells, hlaid⟩ := h.laidOut
  obtain ⟨f', g, entries, hf', hg, hst⟩ := hlaid.image
  obtain rfl : f' = f := Option.some.inj (hf'.symm.trans hf)
  have hlen : filled.length = cells.length := by
    simpa using congrArg List.length hcells
  have hcell : cell.val.bytes.length = length := cell.property
  have hlt := cell.val.length_lt
  have hroom : f'.size + cell.val.bytes.length + 16 ≤ offMax := by
    have hmul : (length + 16) * (cells.length + 1) ≤ (2 ^ 31 - 1) * (2 ^ 32 - 1) :=
      Nat.mul_le_mul (by omega) (by omega)
    rw [Nat.mul_succ] at hmul
    simp only [offMax]
    omega
  obtain ⟨result, block', t', hrun, happ⟩ :=
    append_whole (p := cell.val) h.on hf hg hst hroom (by rw [List.length_map]; omega) a
  have hid : (UInt32.ofNat cells.length).toNat = cells.length := by
    rw [UInt32.toNat_ofNat', Nat.mod_eq_of_lt (by omega)]
  refine ⟨⟨t', block', s.results ++ [.ofAppend result]⟩, ?_, ⟨happ.on, ?_, ?_⟩, ?_⟩
  · simp only [cellStep, hrun]
    rfl
  · rw [happ.header, SeaBlockIndexHeader.bump, h.count, List.length_append, List.length_singleton,
      UInt32.ofNat_add]
    rfl
  · refine ⟨filled ++ [(a, cell.val)], ?_, ?_⟩
    · rw [List.map_append, hcells, List.map_append]
      rfl
    · rw [happ.header]
      exact hlaid.appended happ
  · rw [happ.result_eq, CellResult.ofAppend]
    simp only [h.count, hid]

theorem update_hit (h : Refines dir id s cells) (hfew : cells.length < 2 ^ 32) (a : Ambient)
    {recordId : UInt32} (hlt : recordId.toNat < cells.length) (cell : Cell length) :
    ∃ s', cellStep dir id s (.update a recordId cell) = some s' ∧
      Refines dir id s' (cells.set recordId.toNat cell) ∧
      s'.results = s.results ++ [.replaced] ∧
      s'.tree (.index dir id) = s.tree (.index dir id) := by
  obtain ⟨filled, hcells, hlaid⟩ := h.laidOut
  have hlen : filled.length = cells.length := by
    simpa using congrArg List.length hcells
  have hcount : ¬ s.block.index.header.count ≤ recordId := by
    rw [UInt32.le_iff_toNat_le, h.count_toNat hfew]
    omega
  have hold : filled[recordId.toNat]? = some filled[recordId.toNat] := List.getElem?_eq_getElem _
  have hsame : cell.val.bytes.length = filled[recordId.toNat].2.bytes.length := by
    rw [cell_length hcells _ (List.getElem_mem _)]
    exact cell.property
  obtain ⟨block', f', hrun, hon, hheader, hlaid'⟩ :=
    hlaid.update h.on hcount hold hsame a
  have hindex : s.tree.set (.data dir id) f' (.index dir id) = s.tree (.index dir id) :=
    FileTree.set_other _ _ (by simp)
  refine ⟨⟨s.tree.set (.data dir id) f', block', s.results ++ [.replaced]⟩, ?_,
    ⟨hon, ?_, ?_⟩, rfl, hindex⟩
  · simp only [cellStep, hrun]
    rfl
  · rw [hheader, h.count, List.length_set]
  · refine ⟨filled.set recordId.toNat (a, cell.val), ?_, ?_⟩
    · rw [List.map_set, hcells, List.map_set]
    · rw [hheader]
      exact hlaid'

theorem update_past (h : Refines dir id s cells) (hfew : cells.length < 2 ^ 32) (a : Ambient)
    {recordId : UInt32} (hge : cells.length ≤ recordId.toNat) (cell : Cell length) :
    cellStep dir id s (.update a recordId cell) =
      some ⟨s.tree, s.block, s.results ++ [.refused]⟩ := by
  have hcount : s.block.index.header.count ≤ recordId := by
    rw [UInt32.le_iff_toNat_le, h.count_toNat hfew]
    exact hge
  simp only [cellStep, run_seaBlockUpdate_past hcount]
  rfl

theorem reopen_step (h : Refines dir id s cells) :
    ∃ s', cellStep dir id s (.reopen : CellOp length) = some s' ∧ Refines dir id s' cells ∧
      s'.results = s.results ++ [.reopened] := by
  refine ⟨⟨s.tree, openedBlock dir id s.block.index.header, s.results ++ [.reopened]⟩, ?_,
    ⟨openedBlock_on dir id _, h.count, h.laidOut⟩, rfl⟩
  simp only [cellStep, seaBlockClose, Program.run_pure, openStep_image h.image, Option.bind_eq_bind,
    Option.bind_some]
  rfl

/-- One operation on the block is one step of the array. -/
theorem step (h : Refines dir id s cells) (op : CellOp length)
    (hfew : cells.length + pushes [op] < 2 ^ 32) :
    ∃ s', cellStep dir id s op = some s' ∧
      Refines dir id s' (CellArray.step cells op).1 ∧
      s'.results = s.results ++ [(CellArray.step cells op).2] := by
  cases op with
  | append a cell => exact h.append_step hfew a cell
  | update a recordId cell =>
    simp only [CellArray.step]
    by_cases hlt : recordId.toNat < cells.length
    · rw [if_pos hlt]
      obtain ⟨s', hstep, hrefines, hresults, -⟩ := h.update_hit hfew a hlt cell
      exact ⟨s', hstep, hrefines, hresults⟩
    · rw [if_neg hlt]
      have hrun := h.update_past hfew a (Nat.le_of_not_lt hlt) cell
      exact ⟨_, hrun, ⟨h.on, h.count, h.laidOut⟩, rfl⟩
  | reopen => exact h.reopen_step

end Refines

theorem pushes_cons (op : CellOp length) (ops : List (CellOp length)) :
    pushes (op :: ops) = pushes [op] + pushes ops := by
  simp [pushes, List.countP_cons, Nat.add_comm]

theorem length_step_le (cells : List (Cell length)) (op : CellOp length) :
    (CellArray.step cells op).1.length ≤ cells.length + pushes [op] := by
  cases op with
  | append a cell => simp [CellArray.step, pushes]
  | update a recordId cell =>
    simp only [CellArray.step]
    split
    · simp
    · simp
  | reopen => simp [CellArray.step]

theorem runSteps_refines (ops : List (CellOp length)) (h : Refines dir id s cells)
    (hfew : cells.length + pushes ops < 2 ^ 32) :
    ∃ s', runSteps (cellStep dir id) s ops = some s' ∧
      Refines dir id s' (CellArray.run cells ops).1 ∧
      s'.results = s.results ++ (CellArray.run cells ops).2 ∧
      (CellArray.run cells ops).1.length < 2 ^ 32 := by
  induction ops generalizing s cells with
  | nil => exact ⟨s, rfl, h, by simp [CellArray.run], by simpa [pushes, CellArray.run] using hfew⟩
  | cons op ops ih =>
    rw [pushes_cons] at hfew
    obtain ⟨s₁, hstep, h₁, hresults₁⟩ := h.step op (by omega)
    have hlen := length_step_le cells op
    obtain ⟨s', hrun, h', hresults', hlen'⟩ := ih h₁ (by omega)
    refine ⟨s', ?_, h', ?_, hlen'⟩
    · simp only [runSteps, hstep, Option.bind_some, hrun]
    · rw [hresults', hresults₁, List.append_assoc]
      rfl

/-- A block of cells refines an array: it gives the array's results, a query on
a fresh handle finds the cell the array has, and an update only ever touches
the frame of its cell. -/
theorem cellRun_refines {t : FileTree SeaPath} (habs : Absent t dir id)
    (now maxSize maxCount : UInt64) (ops : List (CellOp length)) (hfew : pushes ops < 2 ^ 32) :
    ∃ s, cellRun dir id t now maxSize maxCount ops = some s ∧
      s.results = (CellArray.run [] ops).2 ∧
      (∀ (recordId : UInt32) (bufLen : Int32), (length : ℤ) ≤ bufLen.toInt →
        ∃ result, (queryFresh dir id recordId bufLen).run serve s.tree = some (result, s.tree) ∧
          match (CellArray.run [] ops).1[recordId.toNat]? with
          | some cell => result = ⟨0, some cell.val.bytes⟩
          | none => result.ret ≠ 0) ∧
      (∃ f, s.tree (.data dir id) = some f ∧
        f.size = (length + 16) * (CellArray.run [] ops).1.length) ∧
      ∀ (a : Ambient) (recordId : UInt32) (cell : Cell length),
        ∃ s', cellStep dir id s (.update a recordId cell) = some s' ∧
          s'.tree (.index dir id) = s.tree (.index dir id) ∧
          ((CellArray.run [] ops).1.length ≤ recordId.toNat → s'.tree = s.tree) := by
  obtain ⟨tree, hcreate, himg, -⟩ := createStep_absent habs now maxSize maxCount
  have hnew : newWriter dir id t now maxSize maxCount =
      some ⟨tree, openedBlock dir id (createdHeader id maxCount now), []⟩ := by
    rw [newWriter, hcreate, Option.bind_eq_bind, Option.bind_some, openStep_image himg]
    rfl
  have hstart : Refines dir id ⟨tree, openedBlock dir id (createdHeader id maxCount now), []⟩
      ([] : List (Cell length)) :=
    ⟨openedBlock_on dir id _, rfl, [], rfl, newWriter_laidOut habs hnew⟩
  obtain ⟨s, hrun, hs, hresults, hlen⟩ := runSteps_refines ops hstart (by simpa using hfew)
  generalize (CellArray.run [] ops).1 = cells at hs hlen
  refine ⟨s, ?_, hresults, ?_, hs.data_size, ?_⟩
  · rw [cellRun, hnew, Option.bind_eq_bind, Option.bind_some]
    exact hrun
  · intro recordId bufLen hbuf
    refine ⟨_, run_queryFresh hs.image recordId bufLen, ?_⟩
    cases hcell : cells[recordId.toNat]? with
    | some cell =>
      obtain ⟨hlt, -⟩ := List.getElem?_eq_some_iff.mp hcell
      apply lookup_of_get
      · rw [hs.count_toNat hlen]
        exact hlt
      · rw [List.getElem?_map, hcell]
        rfl
      · rw [cell.property]
        exact hbuf
    | none =>
      have hle := List.getElem?_eq_none_iff.mp hcell
      have hpast : s.block.index.header.count ≤ recordId := by
        rw [UInt32.le_iff_toNat_le, hs.count_toNat hlen]
        exact hle
      rw [lookup, if_pos hpast]
      exact show EINVAL ≠ 0 by decide
  · intro a recordId cell
    by_cases hlt : recordId.toNat < cells.length
    · obtain ⟨s', hstep, -, -, hindex⟩ := hs.update_hit hlen a hlt cell
      exact ⟨s', hstep, hindex, fun hge => absurd hlt (Nat.not_lt.mpr hge)⟩
    · exact ⟨_, hs.update_past hlen a (Nat.le_of_not_lt hlt) cell, rfl, fun _ => rfl⟩

end Run

/-- A cell of one byte, updated after the block has been opened again. -/
theorem cellRun_refines_updated :
    let ops : List (CellOp 1) := [.append (.clear 0) ⟨.single 97, rfl⟩, .reopen,
      .update (.clear 0) 0 ⟨.single 98, rfl⟩, .update (.clear 0) 1 ⟨.single 99, rfl⟩]
    ∃ s, cellRun "" 0 (fun _ => none) 0 0 0 ops = some s ∧
      s.results = [.pushed 0, .reopened, .replaced, .refused] ∧
      (∃ f, s.tree (.data "" 0) = some f ∧ f.size = 17) ∧
      ∀ bufLen : Int32, 1 ≤ bufLen.toInt →
        (queryFresh "" 0 0 bufLen).run serve s.tree = some (⟨0, some [98]⟩, s.tree) := by
  intro ops
  have habs : Absent (fun _ => none) "" 0 := ⟨rfl, rfl⟩
  obtain ⟨s, hrun, hresults, hquery, hsize, -⟩ := cellRun_refines habs 0 0 0 ops (by decide)
  refine ⟨s, hrun, hresults, hsize, ?_⟩
  intro bufLen hbuf
  obtain ⟨result, hresult, hcell⟩ := hquery 0 bufLen hbuf
  rw [hresult]
  exact congrArg (fun r => some (r, s.tree)) hcell

end SeaStore.Block
