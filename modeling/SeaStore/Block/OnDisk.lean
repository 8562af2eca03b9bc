import SeaStore.Block.Place

/-!
What the two files of a block hold after every call on it, as long as only the
writes of frames fail. A frame that did not get through is left in the data file
without an entry; every entry leads to a whole frame, the frames lie apart and
in order, and the header on disk is the one of the handle.
-/
namespace SeaStore.Block

open Posix

def diskHeader (g : File) : SeaBlockIndexHeader := .ofBytes (slice g.bytes 0 indexHeaderSize)

def diskEntry (g : File) (i : ℕ) : SeaBlockIndexEntry :=
  .ofBytes (slice g.bytes (indexHeaderSize + indexEntrySize * i) indexEntrySize)

/-- The index file is the header and as many entries as it counts; their times
do not decrease and lie between those of the header; and the offset of each
starts a whole frame that ends before the next one starts, or before the end of
the data file. -/
structure OnDisk (f g : File) : Prop where
  size : g.size = indexHeaderSize + indexEntrySize * (diskHeader g).count.toNat
  between : ∀ i < (diskHeader g).count.toNat,
    (diskHeader g).startTimestamp ≤ (diskEntry g i).timestamp ∧
      (diskEntry g i).timestamp ≤ (diskHeader g).stopTimestamp
  sorted : ∀ i j, i < j → j < (diskHeader g).count.toNat →
    (diskEntry g i).timestamp ≤ (diskEntry g j).timestamp
  frames : ∀ i < (diskHeader g).count.toNat, ∃ p : Payload,
    FrameAt f.bytes (diskEntry g i).offset.toNat p ∧
      (diskEntry g i).offset.toNat + 16 + p.bytes.length ≤
        if i + 1 < (diskHeader g).count.toNat then (diskEntry g (i + 1)).offset.toNat else f.size

/-- What is done with a block; only the write of a frame may fail. -/
inductive DiskOp
  | append (a : Ambient) (frame : Outcome) (p : Payload)
  | query (recordId : UInt32) (bufLen : Int32)
  | close
  | openBlock

/-- The files, and the handle while there is one. -/
structure DiskSession where
  tree : FileTree SeaPath
  block : Option SeaBlock

section Run

variable (dir : String) (id : UInt64)

/-- An opening needs that there is no handle, every other call that there is one. -/
def diskStep (s : DiskSession) : DiskOp → Option DiskSession
  | .append a frame p => do
    let block ← s.block
    let ((_, block), tree) ←
      (seaBlockAppend a ⟨frame, .whole, .whole⟩ block p.bytes p.length).run serve s.tree
    return ⟨tree, some block⟩
  | .query recordId bufLen => do
    let block ← s.block
    let ((_, block), tree) ← (seaBlockQueryByRecordId block recordId bufLen).run serve s.tree
    return ⟨tree, some block⟩
  | .close => do
    let block ← s.block
    let ((), tree) ← (seaBlockClose block).run serve s.tree
    return ⟨tree, none⟩
  | .openBlock =>
    match s.block with
    | some _ => none
    | none => do
      let (block, tree) ← (seaBlockOpen dir id).run serve s.tree
      return ⟨tree, block⟩

def diskRun (t : FileTree SeaPath) (now maxSize maxCount : UInt64) (ops : List DiskOp) :
    Option DiskSession := do
  let tree ← createStep dir id t now maxSize maxCount
  runSteps (diskStep dir id) ⟨tree, none⟩ ops

/-- Whether there is a handle before and after an operation. -/
def DiskOp.needs : DiskOp → Bool
  | .append .. | .query .. | .close => true
  | .openBlock => false

def DiskOp.leaves : DiskOp → Bool
  | .append .. | .query .. | .openBlock => true
  | .close => false

def DiskOp.times : List DiskOp → List UInt64
  | [] => []
  | .append a _ _ :: ops => a.now :: times ops
  | .query .. :: ops | .close :: ops | .openBlock :: ops => times ops

/-- The entries of an index file with the payloads of their frames. -/
abbrev Placed := List (SeaBlockIndexEntry × Payload)

/-- The files hold the frames of `placed` apart and in order, with whatever else
in the data file, and their entries under a header that counts them. -/
structure Apart (f g : File) (hdr : SeaBlockIndexHeader) (placed : Placed) : Prop where
  index_bytes : g.bytes = hdr.bytes ++ (placed.map Prod.fst).flatMap SeaBlockIndexEntry.bytes
  count : hdr.count.toNat = placed.length
  started : hdr.startTimestamp ≤ hdr.stopTimestamp
  between : ∀ r ∈ placed, hdr.startTimestamp ≤ r.1.timestamp ∧ r.1.timestamp ≤ hdr.stopTimestamp
  sorted : placed.Pairwise fun r r' => r.1.timestamp ≤ r'.1.timestamp
  frames : ∀ r ∈ placed, FrameAt f.bytes r.1.offset.toNat r.2
  apart : placed.Pairwise fun r r' =>
    r.1.offset.toNat + 16 + r.2.bytes.length ≤ r'.1.offset.toNat

/-- The files of a session are so, and its handle has the header on disk. -/
def ApartBy (s : DiskSession) (hdr : SeaBlockIndexHeader) (placed : Placed) : Prop :=
  ∃ f g, s.tree (.data dir id) = some f ∧ s.tree (.index dir id) = some g ∧
    Apart f g hdr placed ∧ ∀ block, s.block = some block →
      block.On dir id ∧ block.index.header = hdr

end Run

variable {t : FileTree SeaPath} {dir : String} {id : UInt64} {f g : File}
  {hdr : SeaBlockIndexHeader} {placed : Placed} {s s' : DiskSession}

namespace Apart

theorem diskHeader_eq (h : Apart f g hdr placed) : diskHeader g = hdr := by
  rw [diskHeader, slice_indexHeader h.index_bytes, SeaBlockIndexHeader.ofBytes_bytes]

theorem diskEntry_eq (h : Apart f g hdr placed) {i : ℕ} (hi : i < placed.length) :
    diskEntry g i = placed[i].1 := by
  have he : (placed.map Prod.fst)[i]? = some placed[i].1 := by simp [hi]
  rw [diskEntry, slice_indexEntry h.index_bytes he, SeaBlockIndexEntry.ofBytes_bytes]

theorem index_size (h : Apart f g hdr placed) :
    g.size = indexHeaderSize + indexEntrySize * placed.length := by
  rw [index_file_size h.index_bytes, List.length_map]

theorem onDisk (h : Apart f g hdr placed) : OnDisk f g := by
  have hhdr := h.diskHeader_eq
  have hcount := h.count
  constructor
  · rw [hhdr, hcount]
    exact h.index_size
  · intro i hi
    rw [hhdr, hcount] at hi
    rw [hhdr, h.diskEntry_eq hi]
    exact h.between _ (List.getElem_mem hi)
  · intro i j hij hj
    rw [hhdr, hcount] at hj
    rw [h.diskEntry_eq hj, h.diskEntry_eq (Nat.lt_trans hij hj)]
    exact List.pairwise_iff_getElem.mp h.sorted i j _ hj hij
  · intro i hi
    rw [hhdr, hcount] at hi
    have hframe := h.frames _ (List.getElem_mem hi)
    rw [hhdr, hcount, h.diskEntry_eq hi]
    refine ⟨placed[i].2, hframe, ?_⟩
    by_cases hnext : i + 1 < placed.length
    · rw [if_pos hnext, h.diskEntry_eq hnext]
      exact List.pairwise_iff_getElem.mp h.apart i (i + 1) hi hnext (Nat.lt_succ_self i)
    · rw [if_neg hnext, File.size]
      have hend := hframe.end_le
      omega

/-- A data file that has grown, by garbage too, keeps its frames. -/
theorem grow {f' : File} (h : Apart f g hdr placed) (hgrow : f.bytes <+: f'.bytes) :
    Apart f' g hdr placed where
  index_bytes := h.index_bytes
  count := h.count
  started := h.started
  between := h.between
  sorted := h.sorted
  frames r hr := (h.frames r hr).mono hgrow
  apart := h.apart

/-- An append whose three writes complete adds a frame and its entry. -/
theorem append {g' g'' : File} {a : Ambient} {o : Outcome} {p : Payload}
    (h : Apart f g hdr placed) (hfew : placed.length + 1 < 2 ^ 32)
    (hclock : hdr.stopTimestamp ≤ a.now) (hframe : FrameCompletes f a o p)
    (hentry : entryWrite g .whole (newEntry f a) = (.ok indexEntrySize, g'))
    (hheader : headerWrite g' .whole (hdr.bump a.now) = (.ok indexHeaderSize, g'')) :
    Apart (frameWrite f a o p).2 g'' (hdr.bump a.now) (placed ++ [(newEntry f a, p)]) := by
  have hoffset : (newEntry f a).offset.toNat = f.bytes.length := by
    have hmax := f.size_le
    simp only [offMax] at hmax
    simp only [newEntry, File.size, UInt64.toNat_ofNat']
    omega
  have hgrow := frameWrite_grows f a o p
  constructor
  · rw [List.map_append, List.map_singleton]
    exact index_put_header (index_add_entry h.index_bytes hentry) hheader
  · rw [SeaBlockIndexHeader.bump, UInt32.toNat_add, h.count, List.length_append,
      List.length_singleton, UInt32.toNat_one, Nat.mod_eq_of_lt hfew]
  · exact UInt64.le_trans h.started hclock
  · intro r hr
    rcases List.mem_append.mp hr with hold | hnew
    · obtain ⟨hstart, hstop⟩ := h.between r hold
      exact ⟨hstart, UInt64.le_trans hstop hclock⟩
    · obtain rfl := List.mem_singleton.mp hnew
      exact ⟨UInt64.le_trans h.started hclock, UInt64.le_refl _⟩
  · refine List.pairwise_append.mpr ⟨h.sorted, List.pairwise_singleton _ _, ?_⟩
    intro r hr r' hr'
    obtain rfl := List.mem_singleton.mp hr'
    exact UInt64.le_trans (h.between r hr).2 hclock
  · intro r hr
    rcases List.mem_append.mp hr with hold | hnew
    · exact (h.frames r hold).mono hgrow
    · obtain rfl := List.mem_singleton.mp hnew
      exact hframe.frameAt
  · refine List.pairwise_append.mpr ⟨h.apart, List.pairwise_singleton _ _, ?_⟩
    intro r hr r' hr'
    obtain rfl := List.mem_singleton.mp hr'
    have hend := (h.frames r hr).end_le
    simp only [hoffset]
    omega

end Apart

section Steps

theorem ApartBy.handle (h : ApartBy dir id s hdr placed) {block : SeaBlock}
    (hopen : s.block = some block) :
    ∃ f g, s.tree (.data dir id) = some f ∧ s.tree (.index dir id) = some g ∧
      Apart f g hdr placed ∧ block.On dir id ∧ block.index.header = hdr := by
  obtain ⟨f, g, hf, hg, happart, hhandle⟩ := h
  obtain ⟨hon, hheader⟩ := hhandle block hopen
  exact ⟨f, g, hf, hg, happart, hon, hheader⟩

theorem ApartBy.append (h : ApartBy dir id s hdr placed) {block : SeaBlock}
    (hopen : s.block = some block) (hfew : placed.length + 1 < 2 ^ 32) {a : Ambient}
    (hclock : hdr.stopTimestamp ≤ a.now) (frame : Outcome) (p : Payload) :
    ∃ s' hdr' placed', diskStep dir id s (.append a frame p) = some s' ∧
      ApartBy dir id s' hdr' placed' ∧ placed'.length ≤ placed.length + 1 ∧
      hdr'.stopTimestamp ≤ a.now ∧ s'.block.isSome = true := by
  obtain ⟨f, g, hf, hg, happart, hon, rfl⟩ := h.handle hopen
  by_cases hframe : FrameCompletes f a frame p
  · have hroom : g.size + indexEntrySize ≤ offMax := by
      rw [happart.index_size]
      simp only [indexHeaderSize, indexEntrySize, offMax]
      omega
    obtain ⟨g', hentry⟩ : ∃ g', entryWrite g (Faults.mk frame .whole .whole).entry
        (newEntry f a) = (.ok indexEntrySize, g') := entryWrite_whole hroom _
    obtain ⟨g'', hheader⟩ : ∃ g'', headerWrite g' (Faults.mk frame .whole .whole).header
        (block.index.header.bump a.now) = (.ok indexHeaderSize, g'') := headerWrite_whole g' _
    have hg' : (s.tree.set (.data dir id) (frameWrite f a frame p).2) block.index.fd.path =
        some g := by rw [hon.index_path, FileTree.set_other _ _ (by simp), hg]
    obtain ⟨fd, hfd, hindex⟩ := run_indexAppend_header hg' hentry hheader
    rw [if_pos rfl, hon.index_path] at hindex
    obtain ⟨fd', hfd', hrun⟩ := run_seaBlockAppend_index hon hf hframe hindex
    refine ⟨⟨(s.tree.set (.data dir id) (frameWrite f a frame p).2).set (.index dir id) g'',
        some { block with data := ⟨fd'⟩, index := ⟨fd, block.index.header.bump a.now⟩ }⟩,
      block.index.header.bump a.now, placed ++ [(newEntry f a, p)], ?_, ⟨(frameWrite f a frame p).2,
        g'', ?_, FileTree.set_self _ _ _, happart.append hfew hclock hframe hentry hheader, ?_⟩, ?_,
      UInt64.le_refl _, rfl⟩
    · simp only [diskStep, hopen, Option.bind_eq_bind, Option.bind_some, hrun]
      rfl
    · show ((s.tree.set (.data dir id) (frameWrite f a frame p).2).set (.index dir id) g'')
        (.data dir id) = _
      rw [FileTree.set_other _ _ (by simp), FileTree.set_self]
    · intro block' hblock'
      obtain rfl := Option.some.inj hblock'
      exact ⟨⟨hfd', hfd.trans hon.index_path⟩, rfl⟩
    · rw [List.length_append, List.length_singleton]
  · obtain ⟨fd, hfd, -, hrun⟩ := run_seaBlockAppend_data a ⟨frame, .whole, .whole⟩ p hon hf
    rw [if_neg hframe] at hrun
    refine ⟨⟨s.tree.set (.data dir id) (frameWrite f a frame p).2,
        some { block with data := ⟨fd⟩ }⟩, block.index.header, placed, ?_,
      ⟨(frameWrite f a frame p).2, g, FileTree.set_self _ _ _, ?_,
        happart.grow (frameWrite_grows f a frame p), ?_⟩, Nat.le_succ _, hclock, rfl⟩
    · simp only [diskStep, hopen, Option.bind_eq_bind, Option.bind_some, hrun]
      rfl
    · show s.tree.set (.data dir id) (frameWrite f a frame p).2 (.index dir id) = _
      rw [FileTree.set_other _ _ (by simp), hg]
    · intro block' hblock'
      obtain rfl := Option.some.inj hblock'
      exact ⟨⟨hfd, hon.index_path⟩, rfl⟩

theorem ApartBy.query (h : ApartBy dir id s hdr placed) {block : SeaBlock}
    (hopen : s.block = some block) (recordId : UInt32) (bufLen : Int32) :
    ∃ s', diskStep dir id s (.query recordId bufLen) = some s' ∧ ApartBy dir id s' hdr placed ∧
      s'.block.isSome = true := by
  obtain ⟨f, g, hf, hg, happart, hon, hheader⟩ := h.handle hopen
  obtain ⟨⟨result, block'⟩, hrun, hon', hheader'⟩ := (readOnly_query hon recordId bufLen).run s.tree
  refine ⟨⟨s.tree, some block'⟩, ?_, ⟨f, g, hf, hg, happart, ?_⟩, rfl⟩
  · simp only [diskStep, hopen, Option.bind_eq_bind, Option.bind_some, hrun]
    rfl
  · intro block'' hblock''
    obtain rfl := Option.some.inj hblock''
    exact ⟨hon', hheader'.trans hheader⟩

theorem ApartBy.close (h : ApartBy dir id s hdr placed) {block : SeaBlock}
    (hopen : s.block = some block) :
    ∃ s', diskStep dir id s .close = some s' ∧ ApartBy dir id s' hdr placed ∧
      s'.block.isSome = false := by
  obtain ⟨f, g, hf, hg, happart, -⟩ := h
  refine ⟨⟨s.tree, none⟩, ?_, ⟨f, g, hf, hg, happart, ?_⟩, rfl⟩
  · simp only [diskStep, hopen, Option.bind_eq_bind, Option.bind_some]
    rfl
  · intro block' hblock'
    exact absurd hblock' (by simp)

theorem ApartBy.openBlock (h : ApartBy dir id s hdr placed) (hclosed : s.block = none) :
    ∃ s', diskStep dir id s .openBlock = some s' ∧ ApartBy dir id s' hdr placed ∧
      s'.block.isSome = true := by
  obtain ⟨f, g, hf, hg, happart, -⟩ := h
  have hrun := run_seaBlockOpen_header hf hg (by
    rw [happart.index_size]
    exact Nat.le_add_right _ _)
  rw [show SeaBlockIndexHeader.ofBytes (slice g.bytes 0 indexHeaderSize) = hdr from
    happart.diskHeader_eq] at hrun
  refine ⟨⟨s.tree, some (openedBlock dir id hdr)⟩, ?_, ⟨f, g, hf, hg, happart, ?_⟩, rfl⟩
  · simp only [diskStep, hclosed, hrun, Option.bind_eq_bind, Option.bind_some]
    rfl
  · intro block hblock
    obtain rfl := Option.some.inj hblock
    exact ⟨openedBlock_on dir id hdr, rfl⟩

/-- Every operation that finds its handle leaves the files in order, and what is
left of the clock and of the ids to the next ones. -/
theorem ApartBy.step (h : ApartBy dir id s hdr placed) {op : DiskOp} {ops : List DiskOp}
    (hneeds : s.block.isSome = op.needs)
    (hclock : (hdr.stopTimestamp :: DiskOp.times (op :: ops)).Pairwise (· ≤ ·))
    (hfew : placed.length + (DiskOp.times (op :: ops)).length < 2 ^ 32) :
    ∃ s' hdr' placed', diskStep dir id s op = some s' ∧ ApartBy dir id s' hdr' placed' ∧
      s'.block.isSome = op.leaves ∧ (hdr'.stopTimestamp :: DiskOp.times ops).Pairwise (· ≤ ·) ∧
      placed'.length + (DiskOp.times ops).length < 2 ^ 32 := by
  cases op with
  | append a frame p =>
    obtain ⟨block, hopen⟩ := Option.isSome_iff_exists.mp hneeds
    obtain ⟨hfirst, htail⟩ := List.pairwise_cons.mp hclock
    obtain ⟨hnow, htimes⟩ := List.pairwise_cons.mp htail
    simp only [DiskOp.times, List.length_cons] at hfew
    obtain ⟨s', hdr', placed', hstep, hs', hlen, hstop, hsome⟩ :=
      h.append hopen (by omega) (hfirst a.now (List.mem_cons_self ..)) frame p
    refine ⟨s', hdr', placed', hstep, hs', hsome, List.pairwise_cons.mpr ⟨?_, htimes⟩, by omega⟩
    intro time hmem
    exact UInt64.le_trans hstop (hnow time hmem)
  | query recordId bufLen =>
    obtain ⟨block, hopen⟩ := Option.isSome_iff_exists.mp hneeds
    obtain ⟨s', hstep, hs', hsome⟩ := h.query hopen recordId bufLen
    exact ⟨s', hdr, placed, hstep, hs', hsome, hclock, hfew⟩
  | close =>
    obtain ⟨block, hopen⟩ := Option.isSome_iff_exists.mp hneeds
    obtain ⟨s', hstep, hs', hsome⟩ := h.close hopen
    exact ⟨s', hdr, placed, hstep, hs', hsome, hclock, hfew⟩
  | openBlock =>
    have hnone := Option.isSome_eq_false_iff.mp hneeds
    obtain ⟨s', hstep, hs', hsome⟩ := h.openBlock (Option.isNone_iff_eq_none.mp hnone)
    exact ⟨s', hdr, placed, hstep, hs', hsome, hclock, hfew⟩

/-- From files that are in order on, every run that keeps to one handle and to
the clock comes to its end and leaves them in order. -/
theorem diskSteps_apart {ops : List DiskOp} (h : ApartBy dir id s hdr placed)
    (hone : oneHandle DiskOp.needs DiskOp.leaves s.block.isSome ops = true)
    (hclock : (hdr.stopTimestamp :: DiskOp.times ops).Pairwise (· ≤ ·))
    (hfew : placed.length + (DiskOp.times ops).length < 2 ^ 32) :
    ∃ s' hdr' placed', runSteps (diskStep dir id) s ops = some s' ∧
      ApartBy dir id s' hdr' placed' := by
  induction ops generalizing s hdr placed with
  | nil => exact ⟨s, hdr, placed, rfl, h⟩
  | cons op ops ih =>
    obtain ⟨hneeds, hrest⟩ := Bool.and_eq_true_iff.mp hone
    obtain ⟨s₁, hdr₁, placed₁, hstep, hs₁, hleaves, hclock₁, hfew₁⟩ :=
      h.step (eq_of_beq hneeds) hclock hfew
    rw [← hleaves] at hrest
    obtain ⟨s', hdr', placed', hrun, hs'⟩ := ih hs₁ hrest hclock₁ hfew₁
    refine ⟨s', hdr', placed', ?_, hs'⟩
    rw [runSteps, hstep]
    exact hrun

theorem apart_created (habs : Absent t dir id) (now maxSize maxCount : UInt64) :
    ∃ tree, createStep dir id t now maxSize maxCount = some tree ∧
      ApartBy dir id ⟨tree, none⟩ (createdHeader id maxCount now) [] := by
  obtain ⟨tree, hcreate, ⟨f, g, entries, hf, hg, hst⟩, -⟩ :=
    createStep_absent habs now maxSize maxCount
  obtain rfl := List.length_eq_zero_iff.mp hst.length_eq
  refine ⟨tree, hcreate, f, g, hf, hg, ⟨hst.index_bytes, rfl, UInt64.le_refl _, ?_,
    List.Pairwise.nil, ?_, List.Pairwise.nil⟩, ?_⟩
  · exact fun r hr => absurd hr List.not_mem_nil
  · exact fun r hr => absurd hr List.not_mem_nil
  · exact fun block hblock => absurd hblock (by simp)

/-- After every operation on a block, of which only frame writes fail, its two
files are in order and the header on disk is the one in memory. -/
theorem diskRun_onDisk (habs : Absent t dir id) {now : UInt64} (maxSize maxCount : UInt64)
    {ops : List DiskOp} (hone : oneHandle DiskOp.needs DiskOp.leaves false ops = true)
    (hclock : (now :: DiskOp.times ops).Pairwise (· ≤ ·))
    (hfew : (DiskOp.times ops).length < 2 ^ 32) :
    ∃ s f g, diskRun dir id t now maxSize maxCount ops = some s ∧
      s.tree (.data dir id) = some f ∧ s.tree (.index dir id) = some g ∧ OnDisk f g ∧
      ∀ block, s.block = some block → block.index.header = diskHeader g := by
  obtain ⟨tree, hcreate, hnew⟩ := apart_created habs now maxSize maxCount
  obtain ⟨s, hdr, placed, hrun, f, g, hf, hg, happart, hhandle⟩ :=
    diskSteps_apart hnew hone hclock (by simpa using hfew)
  refine ⟨s, f, g, ?_, hf, hg, happart.onDisk, ?_⟩
  · rw [diskRun, hcreate]
    exact hrun
  · intro block hopen
    rw [happart.diskHeader_eq]
    exact (hhandle block hopen).2

/-- A frame cut after three bytes stays in front of the next one, and the block
is closed and opened again. -/
theorem diskRun_onDisk_garbage :
    ∃ s f g, diskRun "" 0 (fun _ => none) 5 0 0 [.openBlock,
        .append (.clear 5) (.short 3) (.single 97), .append (.clear 7) .whole (.single 98),
        .query 0 16, .close, .openBlock] = some s ∧
      s.tree (.data "" 0) = some f ∧ s.tree (.index "" 0) = some g ∧ OnDisk f g ∧
      ∀ block, s.block = some block → block.index.header = diskHeader g :=
  diskRun_onDisk ⟨rfl, rfl⟩ 0 0 rfl (by decide) (by decide)

end Steps

end SeaStore.Block
