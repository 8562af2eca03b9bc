import SeaStore.Block.Create
import SeaStore.Block.Place
import SeaStore.Posix.Run

/-!
An index at work, one handle at a time. Appends leave the descriptor behind the
header, queries behind an entry, and neither matters to the next call: whatever
the order, the file is the header and the entries appended so far, and the calls
reply as an append-only list of entries does.
-/
namespace SeaStore.Block

open Posix

inductive IndexOp
  | append (now offset : UInt64)
  | query (recordId : UInt32)
  | close
  | openIndex

inductive IndexReply
  | appended (ret : ℕ) (recordId : Option ℕ)
  | found (offsets : Option (List UInt64))
  | closed
  | opened (error : Option ℕ)
  deriving DecidableEq

/-- The files, the handle while there is one, and what the calls have returned. -/
structure IndexSession where
  tree : FileTree SeaPath
  index : Option SeaBlockIndex
  replies : List IndexReply

section Run

variable (dir : String) (id : UInt64)

/-- One call, all of whose system calls complete in full. An opening needs that
there is no handle, every other call that there is one. -/
def indexStep (s : IndexSession) : IndexOp → Option IndexSession
  | .append now offset => do
    let index ← s.index
    let ((result, index), tree) ←
      (seaBlockIndexAppend (.clear now) .none index offset).run serve s.tree
    return ⟨tree, some index,
      s.replies ++ [.appended result.ret (result.recordId.map UInt32.toNat)]⟩
  | .query recordId => do
    let index ← s.index
    let ((offsets, index), tree) ←
      (seaBlockIndexQueryByRecordId index recordId).run serve s.tree
    return ⟨tree, some index, s.replies ++ [.found (offsets.map SeaBlockOffset.offset)]⟩
  | .close => do
    let index ← s.index
    let ((), tree) ← (seaBlockIndexClose index).run serve s.tree
    return ⟨tree, none, s.replies ++ [.closed]⟩
  | .openIndex =>
    match s.index with
    | some _ => none
    | none => do
      let (opened, tree) ← (seaBlockIndexOpen dir id).run serve s.tree
      match opened with
      | .ok index => return ⟨tree, some index, s.replies ++ [.opened none]⟩
      | .error errno => return ⟨tree, none, s.replies ++ [.opened (some errno)]⟩

def indexRun (t : FileTree SeaPath) (now maxCount : UInt64) (ops : List IndexOp) :
    Option IndexSession := do
  let (_, tree) ← (seaBlockIndexCreate dir id maxCount now .whole).run serve t
  runSteps (indexStep dir id) ⟨tree, none, []⟩ ops

/-- What an index is for: a list of entries that is only ever appended to, the
place of an entry being its id. -/
def entryLog (entries : List SeaBlockIndexEntry) : IndexOp → List SeaBlockIndexEntry × IndexReply
  | .append now offset => (entries ++ [⟨now, offset⟩], .appended 0 (some entries.length))
  | .query recordId => (entries, .found (entries[recordId.toNat]?.map fun e => [e.offset]))
  | .close => (entries, .closed)
  | .openIndex => (entries, .opened none)

/-- Whether there is a handle before and after an operation. -/
def IndexOp.needs : IndexOp → Bool
  | .append .. | .query .. | .close => true
  | .openIndex => false

def IndexOp.leaves : IndexOp → Bool
  | .append .. | .query .. | .openIndex => true
  | .close => false

def entryAppends (ops : List IndexOp) : ℕ :=
  ops.countP fun
    | .append .. => true
    | .query .. | .close | .openIndex => false

def entriesOf (ops : List IndexOp) : List SeaBlockIndexEntry := (specRun entryLog [] ops).1

/-- The file holds the entries under a header that counts them, and the handle,
if there is one, has that header in memory. -/
def Logged (entries : List SeaBlockIndexEntry) (s : IndexSession) : Prop :=
  ∃ g hdr, s.tree (.index dir id) = some g ∧
    g.bytes = hdr.bytes ++ entries.flatMap SeaBlockIndexEntry.bytes ∧
    hdr.count = UInt32.ofNat entries.length ∧
    ∀ index, s.index = some index → index.fd.path = .index dir id ∧ index.header = hdr

end Run

variable {t : FileTree SeaPath} {dir : String} {id : UInt64} {g : File}
  {hdr : SeaBlockIndexHeader} {entries : List SeaBlockIndexEntry} {s s' : IndexSession}

namespace Logged

theorem append (h : Logged dir id entries s) {index : SeaBlockIndex} (hopen : s.index = some index)
    (hfew : entries.length < 2 ^ 32) (now offset : UInt64) :
    ∃ s', indexStep dir id s (.append now offset) = some s' ∧
      Logged dir id (entries ++ [⟨now, offset⟩]) s' ∧
      s'.replies = s.replies ++ [.appended 0 (some entries.length)] ∧
      s'.index.isSome = true := by
  obtain ⟨g, hdr, hg, hbytes, hcount, hhandle⟩ := h
  obtain ⟨hpath, rfl⟩ := hhandle index hopen
  have hg' : s.tree index.fd.path = some g := by rw [hpath]; exact hg
  have hroom : g.size + indexEntrySize ≤ offMax := by
    rw [index_file_size hbytes]
    simp only [indexHeaderSize, indexEntrySize, offMax]
    omega
  obtain ⟨g', hentry⟩ : ∃ g', entryWrite g Faults.none.entry ⟨(Ambient.clear now).now, offset⟩ =
      (.ok indexEntrySize, g') := entryWrite_whole hroom _
  obtain ⟨g'', hheader⟩ : ∃ g'', headerWrite g' Faults.none.header
      (index.header.bump (Ambient.clear now).now) = (.ok indexHeaderSize, g'') :=
    headerWrite_whole g' _
  have hdone := index_put_header (index_add_entry hbytes hentry) hheader
  obtain ⟨fd, hfd, hrun⟩ := run_indexAppend_header hg' hentry hheader
  rw [if_pos rfl] at hrun
  have hid : index.header.count.toNat = entries.length := by
    rw [hcount, UInt32.toNat_ofNat', Nat.mod_eq_of_lt hfew]
  refine ⟨⟨s.tree.set index.fd.path g'', some ⟨fd, index.header.bump now⟩,
    s.replies ++ [.appended 0 (some entries.length)]⟩, ?_, ⟨g'', index.header.bump now, ?_, hdone,
      ?_, ?_⟩, rfl, rfl⟩
  · rw [← hid]
    simp only [indexStep, hopen, Option.bind_eq_bind, Option.bind_some, hrun]
    rfl
  · rw [hpath]
    exact FileTree.set_self _ _ _
  · rw [SeaBlockIndexHeader.bump, hcount, List.length_append, List.length_singleton,
      UInt32.ofNat_add]
    rfl
  · intro index' hindex'
    obtain rfl := Option.some.inj hindex'
    exact ⟨hfd.trans hpath, rfl⟩

theorem query (h : Logged dir id entries s) {index : SeaBlockIndex} (hopen : s.index = some index)
    (hfew : entries.length < 2 ^ 32) (recordId : UInt32) :
    ∃ s', indexStep dir id s (.query recordId) = some s' ∧ Logged dir id entries s' ∧
      s'.replies = s.replies ++ [.found (entries[recordId.toNat]?.map fun e => [e.offset])] ∧
      s'.index.isSome = true := by
  obtain ⟨g, hdr, hg, hbytes, hcount, hhandle⟩ := h
  obtain ⟨hpath, rfl⟩ := hhandle index hopen
  have hnat : index.header.count.toNat = entries.length := by
    rw [hcount, UInt32.toNat_ofNat', Nat.mod_eq_of_lt hfew]
  obtain ⟨offsets, fd, hfd, hrun, hoffsets⟩ : ∃ (offsets : Option SeaBlockOffset) (fd : Fd SeaPath),
      fd.path = index.fd.path ∧ (seaBlockIndexQueryByRecordId index recordId).run serve s.tree =
        some ((offsets, { index with fd := fd }), s.tree) ∧
      offsets.map SeaBlockOffset.offset = entries[recordId.toNat]?.map fun e => [e.offset] := by
    by_cases hpast : index.header.count ≤ recordId
    · rw [UInt32.le_iff_toNat_le, hnat] at hpast
      exact ⟨none, index.fd, rfl, run_indexQuery_past (by
        rw [UInt32.le_iff_toNat_le, hnat]; exact hpast), by
          rw [List.getElem?_eq_none hpast]; rfl⟩
    · have hlt : recordId.toNat < entries.length := by
        rw [UInt32.le_iff_toNat_le, hnat] at hpast
        omega
      have hentry := slice_indexEntry hbytes (List.getElem?_eq_getElem hlt)
      have hread := (readOnly_indexQuery index recordId).run s.tree
      obtain ⟨fd, hrun⟩ := run_indexQuery_entry (t := s.tree)
        (by rw [hpath]; exact hg) hpast (by
          rw [entryPlace, hentry, SeaBlockIndexEntry.bytes_length])
      rw [entryPlace, hentry, SeaBlockIndexEntry.ofBytes_bytes] at hrun
      obtain ⟨⟨found, index'⟩, hrun', hpath', -⟩ := hread
      rw [hrun] at hrun'
      obtain ⟨-, rfl⟩ := Prod.mk.inj (Prod.mk.inj (Option.some.inj hrun')).1
      exact ⟨_, fd, hpath', hrun, by rw [List.getElem?_eq_getElem hlt]; rfl⟩
  refine ⟨⟨s.tree, some { index with fd := fd },
    s.replies ++ [.found (offsets.map SeaBlockOffset.offset)]⟩, ?_, ⟨g, index.header, hg, hbytes,
      hcount, ?_⟩, by rw [hoffsets], rfl⟩
  · simp only [indexStep, hopen, Option.bind_eq_bind, Option.bind_some, hrun]
    rfl
  · intro index' hindex'
    obtain rfl := Option.some.inj hindex'
    exact ⟨hfd.trans hpath, rfl⟩

theorem close (h : Logged dir id entries s) {index : SeaBlockIndex} (hopen : s.index = some index) :
    ∃ s', indexStep dir id s .close = some s' ∧ Logged dir id entries s' ∧
      s'.replies = s.replies ++ [.closed] ∧ s'.index.isSome = false := by
  obtain ⟨g, hdr, hg, hbytes, hcount, -⟩ := h
  refine ⟨⟨s.tree, none, s.replies ++ [.closed]⟩, ?_, ⟨g, hdr, hg, hbytes, hcount, ?_⟩, rfl, rfl⟩
  · simp only [indexStep, hopen, Option.bind_eq_bind, Option.bind_some]
    rfl
  · intro index' hindex'
    exact absurd hindex' (by simp)

theorem openIndex (h : Logged dir id entries s) (hclosed : s.index = none) :
    ∃ s', indexStep dir id s .openIndex = some s' ∧ Logged dir id entries s' ∧
      s'.replies = s.replies ++ [.opened none] ∧ s'.index.isSome = true := by
  obtain ⟨g, hdr, hg, hbytes, hcount, -⟩ := h
  have hrun := run_seaBlockIndexOpen hg hbytes
  refine ⟨⟨s.tree, some ⟨⟨.index dir id, indexHeaderSize⟩, hdr⟩, s.replies ++ [.opened none]⟩, ?_,
    ⟨g, hdr, hg, hbytes, hcount, ?_⟩, rfl, rfl⟩
  · simp only [indexStep, hclosed, Option.bind_eq_bind, hrun, Option.bind_some]
    rfl
  · intro index' hindex'
    obtain rfl := Option.some.inj hindex'
    exact ⟨rfl, rfl⟩

/-- Every operation that finds its handle does what it does to the list. -/
theorem step (h : Logged dir id entries s) {op : IndexOp} (hneeds : s.index.isSome = op.needs)
    (hfew : entries.length < 2 ^ 32) :
    ∃ s', indexStep dir id s op = some s' ∧ Logged dir id (entryLog entries op).1 s' ∧
      s'.replies = s.replies ++ [(entryLog entries op).2] ∧ s'.index.isSome = op.leaves := by
  cases op with
  | append now offset =>
    obtain ⟨index, hopen⟩ := Option.isSome_iff_exists.mp hneeds
    exact h.append hopen hfew now offset
  | query recordId =>
    obtain ⟨index, hopen⟩ := Option.isSome_iff_exists.mp hneeds
    exact h.query hopen hfew recordId
  | close =>
    obtain ⟨index, hopen⟩ := Option.isSome_iff_exists.mp hneeds
    exact h.close hopen
  | openIndex =>
    have hnone := Option.isSome_eq_false_iff.mp hneeds
    exact h.openIndex (Option.isNone_iff_eq_none.mp hnone)

end Logged

theorem entryLog_length (entries : List SeaBlockIndexEntry) (op : IndexOp) :
    (entryLog entries op).1.length = entries.length + entryAppends [op] := by
  cases op with
  | append now offset => simp [entryLog, entryAppends]
  | query recordId => rfl
  | close => rfl
  | openIndex => rfl

theorem entryAppends_cons (op : IndexOp) (ops : List IndexOp) :
    entryAppends (op :: ops) = entryAppends [op] + entryAppends ops := by
  rw [entryAppends, entryAppends, entryAppends, ← List.countP_append, List.singleton_append]

/-- What the operations to come ask for: their handles, and enough ids. -/
def Fits (entries : List SeaBlockIndexEntry) (s : IndexSession) (ops : List IndexOp) : Prop :=
  oneHandle IndexOp.needs IndexOp.leaves s.index.isSome ops = true ∧
    entries.length + entryAppends ops < 2 ^ 32

/-- From files that hold a list on, the calls reply as the list does. -/
theorem indexSteps_refine {ops : List IndexOp} (h : Logged dir id entries s)
    (hone : oneHandle IndexOp.needs IndexOp.leaves s.index.isSome ops = true)
    (hfew : entries.length + entryAppends ops < 2 ^ 32) :
    ∃ s', runSteps (indexStep dir id) s ops = some s' ∧
      Logged dir id (specRun entryLog entries ops).1 s' ∧
      s'.replies = s.replies ++ (specRun entryLog entries ops).2 := by
  have hfits : Fits entries s ops := ⟨hone, hfew⟩
  refine runSteps_refines ?_ h hfits
  rintro entries s op ops h ⟨hone, hfew⟩
  obtain ⟨hneeds, hrest⟩ := Bool.and_eq_true_iff.mp hone
  rw [entryAppends_cons] at hfew
  obtain ⟨s', hstep, hs', hreplies, hleaves⟩ := h.step (eq_of_beq hneeds) (by omega)
  refine ⟨s', hstep, hs', hreplies, ?_, ?_⟩
  · rw [hleaves]
    exact hrest
  · rw [entryLog_length, Nat.add_assoc]
    exact hfew

theorem logged_created (habs : t (.index dir id) = none) (now maxCount : UInt64) :
    ∃ tree, (seaBlockIndexCreate dir id maxCount now .whole).run serve t = some (0, tree) ∧
      Logged dir id [] ⟨tree, none, []⟩ := by
  obtain ⟨hdr, hhdr⟩ : ∃ hdr : SeaBlockIndexHeader, hdr =
    { blockId := id, maxCount := maxCount, startTimestamp := now, stopTimestamp := now,
      count := 0, unused := 0 } := ⟨_, rfl⟩
  obtain ⟨g, hheader⟩ := headerWrite_whole .empty hdr
  have hbytes := (stored_created hheader).index_bytes
  have hwrite : File.empty.write 0 hdr.bytes .whole = (.ok indexHeaderSize, g) := hheader
  rw [hhdr] at hwrite
  refine ⟨(t.set (.index dir id) .empty).set (.index dir id) g, ?_, g, hdr,
    FileTree.set_self _ _ _, hbytes, by rw [hhdr]; rfl, ?_⟩
  · unfold seaBlockIndexCreate
    rw [Program.run_bind_of_run serve (run_openFile_create habs)]
    simp only []
    rw [Program.run_bind_of_run serve (run_write ⟨SeaPath.index dir id, 0⟩
      (FileTree.set_self _ _ _) hwrite)]
    rfl
  · intro index hindex
    exact absurd hindex (by simp)

/-- An index is an append-only list of entries that survives its handles: every
append returns the number of those before it, and a query gives the one offset
appended under the id, or none. -/
theorem indexRun_refines (habs : t (.index dir id) = none) (now maxCount : UInt64)
    {ops : List IndexOp} (hone : oneHandle IndexOp.needs IndexOp.leaves false ops = true)
    (hfew : entryAppends ops < 2 ^ 32) :
    ∃ s, indexRun dir id t now maxCount ops = some s ∧
      s.replies = (specRun entryLog [] ops).2 := by
  obtain ⟨tree, hcreate, hlogged⟩ := logged_created habs now maxCount
  obtain ⟨s, hrun, -, hreplies⟩ := indexSteps_refine hlogged hone (by simpa using hfew)
  refine ⟨s, ?_, hreplies⟩
  rw [indexRun, hcreate]
  exact hrun

/-- Queries and appends by turns, and again after the index has been opened anew. -/
theorem indexRun_refines_reopened :
    ∃ s, indexRun "" 0 (fun _ => none) 5 0 [.openIndex, .query 0, .append 6 300, .append 7 100,
        .query 0, .append 7 100, .close, .openIndex, .query 1, .append 8 200, .query 3,
        .query 4] = some s ∧
      s.replies = [.opened none, .found none, .appended 0 (some 0), .appended 0 (some 1),
        .found (some [300]), .appended 0 (some 2), .closed, .opened none, .found (some [100]),
        .appended 0 (some 3), .found (some [200]), .found none] := by
  obtain ⟨t, ht⟩ : ∃ t : FileTree SeaPath, t = fun _ => none := ⟨_, rfl⟩
  have habs : t (.index "" 0) = none := by rw [ht]
  have hone : oneHandle IndexOp.needs IndexOp.leaves false [.openIndex, .query 0, .append 6 300,
    .append 7 100, .query 0, .append 7 100, .close, .openIndex, .query 1, .append 8 200, .query 3,
    .query 4] = true := rfl
  obtain ⟨s, hrun, hreplies⟩ := indexRun_refines habs 5 0 hone (by decide)
  rw [ht] at hrun
  exact ⟨s, hrun, hreplies⟩

section Reached

theorem indexStep_needs {op : IndexOp} (hstep : indexStep dir id s op = some s') :
    s.index.isSome = op.needs := by
  cases op with
  | append now offset =>
    obtain ⟨index, hopen, -⟩ := Option.bind_eq_some_iff.mp hstep
    rw [hopen]
    rfl
  | query recordId =>
    obtain ⟨index, hopen, -⟩ := Option.bind_eq_some_iff.mp hstep
    rw [hopen]
    rfl
  | close =>
    obtain ⟨index, hopen, -⟩ := Option.bind_eq_some_iff.mp hstep
    rw [hopen]
    rfl
  | openIndex =>
    cases hindex : s.index with
    | none => rfl
    | some index =>
      simp only [indexStep, hindex] at hstep
      exact absurd hstep (by simp)

/-- Only a run with one handle at a time gets to its end. -/
theorem oneHandle_of_run {ops : List IndexOp} (h : Logged dir id entries s)
    (hrun : runSteps (indexStep dir id) s ops = some s')
    (hfew : entries.length + entryAppends ops < 2 ^ 32) :
    oneHandle IndexOp.needs IndexOp.leaves s.index.isSome ops = true := by
  induction ops generalizing entries s with
  | nil => rfl
  | cons op ops ih =>
    obtain ⟨s₁, hstep, hrest⟩ := Option.bind_eq_some_iff.mp hrun
    rw [entryAppends_cons] at hfew
    have hneeds := indexStep_needs hstep
    obtain ⟨s₂, hstep₂, hs₂, -, hleaves⟩ := h.step hneeds (by omega)
    obtain rfl := Option.some.inj (hstep₂.symm.trans hstep)
    have hafter := ih hs₂ hrest (by rw [entryLog_length]; omega)
    rw [hleaves] at hafter
    rw [oneHandle, hneeds, beq_self_eq_true, hafter]
    rfl

theorem specRun_length (entries : List SeaBlockIndexEntry) (ops : List IndexOp) :
    (specRun entryLog entries ops).1.length = entries.length + entryAppends ops := by
  induction ops generalizing entries with
  | nil => rfl
  | cons op ops ih =>
    rw [entryAppends_cons, ← Nat.add_assoc, ← entryLog_length]
    exact ih (entryLog entries op).1

theorem indexRun_logged {now maxCount : UInt64} {ops : List IndexOp}
    (habs : t (.index dir id) = none) (hrun : indexRun dir id t now maxCount ops = some s)
    (hfew : (entriesOf ops).length < 2 ^ 32) : Logged dir id (entriesOf ops) s := by
  obtain ⟨tree, hcreate, hlogged⟩ := logged_created habs now maxCount
  rw [indexRun, hcreate] at hrun
  have happends : ([] : List SeaBlockIndexEntry).length + entryAppends ops < 2 ^ 32 := by
    rw [← specRun_length]
    exact hfew
  have hone := oneHandle_of_run hlogged hrun happends
  obtain ⟨s₁, hrun₁, hs₁, -⟩ := indexSteps_refine hlogged hone happends
  obtain rfl := Option.some.inj (hrun₁.symm.trans hrun)
  exact hs₁

end Reached

end SeaStore.Block
