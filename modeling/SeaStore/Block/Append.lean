import SeaStore.Block.Query

/-!
What one append does, by the first of its three writes that does not complete.
A failed frame write leaves at most garbage behind the last frame; a failed
entry write leaves the count in memory raised; a failed header write is undone
in memory and cuts the index file back to the count in memory.
-/
namespace SeaStore.Block

open Posix

variable {t : FileTree SeaPath} {f g : File}

theorem Payload.buildFrame_eq (p : Payload) (a : Ambient) :
    buildFrame a p.bytes p.length.toUInt32 = Pure.pure (some (p.frame a)) := by
  have hlen := p.toNat_length
  have hint := p.toInt_frameBufLen
  have h1 : ¬ ((p.bytes.length : ℤ) + 16 < 0) := by omega
  have h2 : ¬ ((p.bytes.length : ℤ) + 16 < dataHeaderSize + p.bytes.length + dataTailSize) := by
    simp only [dataHeaderSize, dataTailSize]
    omega
  simp only [buildFrame, p.length_toUInt32, hint, hlen, h1, h2, if_false, Nat.lt_irrefl,
    List.take_length, Payload.frame]

theorem Payload.run_buildFrame (p : Payload) (a : Ambient) :
    (buildFrame a p.bytes p.length.toUInt32).run serve t = some (some (p.frame a), t) := by
  rw [p.buildFrame_eq, Program.run_pure]

def frameWrite (f : File) (a : Ambient) (o : Outcome) (p : Payload) : Except ℕ ℕ × File :=
  f.write f.size (p.frame a) o

/-- The frame write completes: the system lets it through and the file has room. -/
def FrameCompletes (f : File) (a : Ambient) (o : Outcome) (p : Payload) : Prop :=
  (frameWrite f a o p).1 = .ok (p.frame a).length

instance (f : File) (a : Ambient) (o : Outcome) (p : Payload) :
    Decidable (FrameCompletes f a o p) :=
  inferInstanceAs (Decidable (_ = _))

theorem run_seaBlockDataAppend (a : Ambient) (o : Outcome) (p : Payload) {data : SeaBlockData}
    (hf : t data.fd.path = some f) :
    ∃ fd : Fd SeaPath, fd.path = data.fd.path ∧ fd.pos = (frameWrite f a o p).2.size ∧
      (seaBlockDataAppend a o data p.bytes p.length.toUInt32).run serve t =
        some ((if FrameCompletes f a o p then 0 else ENOENT, UInt64.ofNat f.size, ⟨fd⟩),
          t.set data.fd.path (frameWrite f a o p).2) := by
  refine ⟨(⟨data.fd.path, f.size⟩ : Fd SeaPath).advance (frameWrite f a o p).1, by simp,
    Fd.advance_end data.fd.path f (p.frame a) o, ?_⟩
  have hwrite : f.write f.size (p.frame a) o =
      ((frameWrite f a o p).1, (frameWrite f a o p).2) := rfl
  unfold seaBlockDataAppend
  rw [Program.run_bind_of_run serve (p.run_buildFrame a)]
  simp only []
  rw [Program.run_bind_of_run serve (run_seekEnd hf)]
  simp only []
  rw [Program.run_bind_of_run serve (run_write ⟨data.fd.path, f.size⟩ hf hwrite)]
  by_cases h : FrameCompletes f a o p
  · have hok : (frameWrite f a o p).1 = .ok (p.frame a).length := h
    simp [h, hok]
  · have hfail : ¬ (frameWrite f a o p).1 = .ok (p.frame a).length := h
    simp [h, hfail]

theorem frameWrite_grows (f : File) (a : Ambient) (o : Outcome) (p : Payload) :
    f.bytes <+: (frameWrite f a o p).2.bytes := by
  rcases File.write_bytes f f.size (p.frame a) o with h | h
  · simp only [frameWrite, h, List.prefix_rfl]
  · rw [frameWrite, h, File.size, overlay_end]
    exact List.prefix_append _ _

theorem FrameCompletes.bytes {a : Ambient} {o : Outcome} {p : Payload}
    (h : FrameCompletes f a o p) : (frameWrite f a o p).2.bytes = f.bytes ++ p.frame a := by
  rw [frameWrite, File.write_ok_bytes h, File.size, overlay_end]

/-- A completed frame stands at the old end of the file. -/
theorem FrameCompletes.frameAt {a : Ambient} {o : Outcome} {p : Payload}
    (h : FrameCompletes f a o p) :
    FrameAt (frameWrite f a o p).2.bytes (UInt64.ofNat f.size).toNat p := by
  have hmax := f.size_le
  have hnat : (UInt64.ofNat f.size).toNat = f.bytes.length := by
    simp only [offMax] at hmax
    simp only [UInt64.toNat_ofNat', File.size]
    omega
  rw [hnat, h.bytes]
  exact FrameAt.at_end f.bytes a p

theorem frameCompletes_iff (f : File) (a : Ambient) (o : Outcome) (p : Payload) :
    FrameCompletes f a o p ↔
      o.Full (p.bytes.length + 16) ∧ f.size + p.bytes.length + 16 ≤ offMax := by
  rw [FrameCompletes, frameWrite, File.write_ok_iff, p.frame_length, Nat.add_assoc]

def newEntry (f : File) (a : Ambient) : SeaBlockIndexEntry :=
  { timestamp := a.now, offset := UInt64.ofNat f.size }

def entryWrite (g : File) (o : Outcome) (e : SeaBlockIndexEntry) : Except ℕ ℕ × File :=
  g.write g.size e.bytes o

def headerWrite (g : File) (o : Outcome) (hdr : SeaBlockIndexHeader) : Except ℕ ℕ × File :=
  g.write 0 hdr.bytes o

theorem entryWrite_ok_iff (g : File) (o : Outcome) (e : SeaBlockIndexEntry) :
    (entryWrite g o e).1 = .ok indexEntrySize ↔
      o.Full indexEntrySize ∧ g.size + indexEntrySize ≤ offMax := by
  have h := File.write_ok_iff g g.size e.bytes o
  rw [SeaBlockIndexEntry.bytes_length] at h
  exact h

theorem entryWrite_whole {g : File} (hroom : g.size + indexEntrySize ≤ offMax)
    (e : SeaBlockIndexEntry) : ∃ g', entryWrite g .whole e = (.ok indexEntrySize, g') :=
  ⟨_, Prod.ext ((entryWrite_ok_iff g .whole e).mpr ⟨Outcome.full_whole _, hroom⟩) rfl⟩

theorem headerWrite_ok_iff (g : File) (o : Outcome) (new : SeaBlockIndexHeader) :
    (headerWrite g o new).1 = .ok indexHeaderSize ↔ o.Full indexHeaderSize := by
  have h := File.write_ok_iff g 0 new.bytes o
  rw [SeaBlockIndexHeader.bytes_length] at h
  exact h.trans (and_iff_left (by decide))

theorem headerWrite_whole (g : File) (new : SeaBlockIndexHeader) :
    ∃ g', headerWrite g .whole new = (.ok indexHeaderSize, g') :=
  ⟨_, Prod.ext ((headerWrite_ok_iff g .whole new).mpr (Outcome.full_whole _)) rfl⟩

def overLimitOf (hdr : SeaBlockIndexHeader) : Bool := decide (hdr.maxCount ≤ hdr.count.toUInt64)

section IndexAppend

variable {index : SeaBlockIndex} {a : Ambient} {faults : Faults} {offset : UInt64}
  {entryResult headerResult : Except ℕ ℕ} {g' g'' : File}

theorem run_indexAppend_entry_fail (hg : t index.fd.path = some g)
    (hentry : entryWrite g faults.entry ⟨a.now, offset⟩ = (entryResult, g'))
    (hfail : entryResult ≠ .ok indexEntrySize) :
    ∃ fd : Fd SeaPath, fd.path = index.fd.path ∧
      (seaBlockIndexAppend a faults index offset).run serve t =
        some ((⟨EINVAL, some index.header.count, some (overLimitOf (index.header.bump a.now))⟩,
          ⟨fd, index.header.bump a.now⟩), t.set index.fd.path g') := by
  refine ⟨(⟨index.fd.path, g.size⟩ : Fd SeaPath).advance entryResult, by simp, ?_⟩
  unfold seaBlockIndexAppend
  simp only []
  rw [Program.run_bind_of_run serve (run_seekEnd hg)]
  simp only []
  rw [Program.run_bind_of_run serve (run_write ⟨index.fd.path, g.size⟩ hg hentry)]
  simp [hfail, overLimitOf]

theorem run_indexAppend_header (hg : t index.fd.path = some g)
    (hentry : entryWrite g faults.entry ⟨a.now, offset⟩ = (.ok indexEntrySize, g'))
    (hheader : headerWrite g' faults.header (index.header.bump a.now) = (headerResult, g'')) :
    ∃ fd : Fd SeaPath, fd.path = index.fd.path ∧
      (seaBlockIndexAppend a faults index offset).run serve t =
        if headerResult = .ok indexHeaderSize then
          some ((⟨0, some index.header.count, some (overLimitOf (index.header.bump a.now))⟩,
            ⟨fd, index.header.bump a.now⟩), t.set index.fd.path g'')
        else
          some ((⟨0xff, some index.header.count, some (overLimitOf (index.header.bump a.now))⟩,
            ⟨fd, { index.header with stopTimestamp := a.now }⟩),
            t.set index.fd.path (g''.truncate
              (indexHeaderSize + indexEntrySize * index.header.count.toNat))) := by
  refine ⟨(⟨index.fd.path, 0⟩ : Fd SeaPath).advance headerResult, by simp, ?_⟩
  have hset : t.set index.fd.path g' index.fd.path = some g' := FileTree.set_self _ _ _
  have hcount : index.header.count + 1 - 1 = index.header.count := UInt32.add_sub_cancel _ _
  unfold seaBlockIndexAppend
  simp only []
  rw [Program.run_bind_of_run serve (run_seekEnd hg)]
  simp only []
  rw [Program.run_bind_of_run serve (run_write ⟨index.fd.path, g.size⟩ hg hentry)]
  simp only [ne_eq, not_true_eq_false, if_false, Fd.seekSet_zero, Fd.advance_path]
  rw [Program.run_bind_of_run serve (run_write ⟨index.fd.path, 0⟩ hset hheader)]
  by_cases hok : headerResult = .ok indexHeaderSize
  · simp [hok, overLimitOf]
  · have hset' : t.set index.fd.path g''
        ((⟨index.fd.path, 0⟩ : Fd SeaPath).advance headerResult).path = some g'' := by simp
    simp [hok, overLimitOf, SeaBlockIndexHeader.bump, hcount, run_truncate _ hset']

end IndexAppend

variable {dir : String} {id : UInt64} {hdr : SeaBlockIndexHeader} {recs : List Payload}
  {entries : List SeaBlockIndexEntry}

theorem index_add_entry {g' : File} (hbytes : g.bytes = hdr.bytes ++
    entries.flatMap SeaBlockIndexEntry.bytes) {o : Outcome} {e : SeaBlockIndexEntry}
    (hentry : entryWrite g o e = (.ok indexEntrySize, g')) :
    g'.bytes = hdr.bytes ++ (entries ++ [e]).flatMap SeaBlockIndexEntry.bytes := by
  have hok : (g.write g.size e.bytes o).1 = .ok e.bytes.length := by
    rw [show g.write g.size e.bytes o = entryWrite g o e from rfl, hentry,
      SeaBlockIndexEntry.bytes_length]
  have hwritten := File.write_ok_bytes hok
  rw [show g.write g.size e.bytes o = entryWrite g o e from rfl, hentry, File.size,
    overlay_end] at hwritten
  rw [hwritten, hbytes]
  simp

theorem index_put_header {g' : File} (hbytes : g.bytes = hdr.bytes ++
    entries.flatMap SeaBlockIndexEntry.bytes) {o : Outcome} {new : SeaBlockIndexHeader}
    (hheader : headerWrite g o new = (.ok indexHeaderSize, g')) :
    g'.bytes = new.bytes ++ entries.flatMap SeaBlockIndexEntry.bytes := by
  have hok : (g.write 0 new.bytes o).1 = .ok new.bytes.length := by
    rw [show g.write 0 new.bytes o = headerWrite g o new from rfl, hheader,
      SeaBlockIndexHeader.bytes_length]
  have hwritten := File.write_ok_bytes hok
  rw [show g.write 0 new.bytes o = headerWrite g o new from rfl, hheader, hbytes,
    overlay_front _ _ _ (by simp)] at hwritten
  rw [hwritten, List.drop_eq_nil_of_le (by simp), List.append_nil]

namespace Stored

theorem grow {f' : File} (h : Stored f g hdr entries recs) (hgrow : f.bytes <+: f'.bytes) :
    Stored f' g hdr entries recs where
  index_bytes := h.index_bytes
  frames := h.frames.imp (fun _ _ hframe => hframe.mono hgrow)

theorem add_entry {g' : File} (h : Stored f g hdr entries recs) {o : Outcome}
    {e : SeaBlockIndexEntry} {p : Payload} (hentry : entryWrite g o e = (.ok indexEntrySize, g'))
    (hframe : FrameAt f.bytes e.offset.toNat p) :
    Stored f g' hdr (entries ++ [e]) (recs ++ [p]) where
  index_bytes := index_add_entry h.index_bytes hentry
  frames := List.rel_append h.frames (.cons hframe .nil)

theorem put_header {g' : File} (h : Stored f g hdr entries recs) {o : Outcome}
    {new : SeaBlockIndexHeader} (hheader : headerWrite g o new = (.ok indexHeaderSize, g')) :
    Stored f g' new entries recs where
  index_bytes := index_put_header h.index_bytes hheader
  frames := h.frames

end Stored

/-- Nothing but the two files of block `id` in `dir` differs. -/
def AgreeOff (t t' : FileTree SeaPath) (dir : String) (id : UInt64) : Prop :=
  ∀ path, path ≠ .data dir id → path ≠ .index dir id → t' path = t path

theorem AgreeOff.refl (t : FileTree SeaPath) (dir : String) (id : UInt64) :
    AgreeOff t t dir id :=
  fun _ _ _ => rfl

theorem AgreeOff.trans {t' t'' : FileTree SeaPath} (h : AgreeOff t t' dir id)
    (h' : AgreeOff t' t'' dir id) : AgreeOff t t'' dir id :=
  fun path hdata hindex => (h' path hdata hindex).trans (h path hdata hindex)

theorem AgreeOff.image {t' : FileTree SeaPath} {dir' : String} {id' : UInt64}
    (h : AgreeOff t t' dir id) (hne : ¬ (dir' = dir ∧ id' = id))
    (himg : Image t dir' id' hdr recs) : Image t' dir' id' hdr recs := by
  obtain ⟨f, g, entries, hf, hg, hst⟩ := himg
  refine ⟨f, g, entries, ?_, ?_, hst⟩
  · rw [h _ (by simpa using hne) (by simp), hf]
  · rw [h _ (by simp) (by simpa using hne), hg]

/-- An append that has returned zero, on a handle whose header in memory was `mem`. -/
structure Appended (t t' : FileTree SeaPath) (dir : String) (id : UInt64)
    (mem : SeaBlockIndexHeader) (recs : List Payload) (a : Ambient) (p : Payload)
    (result : AppendResult) (block' : SeaBlock) : Prop where
  result_eq : result = ⟨0, some mem.count, some (overLimitOf (mem.bump a.now))⟩
  on : block'.On dir id
  header : block'.index.header = mem.bump a.now
  image : Image t' dir id (mem.bump a.now) (recs ++ [p])
  at_end : ∃ f, t' (.data dir id) = some f ∧ block'.data.fd.pos = f.size
  agree : AgreeOff t t' dir id
  stored : ∀ f g hdr entries, t (.data dir id) = some f → t (.index dir id) = some g →
    Stored f g hdr entries recs →
    ∃ f' g', t' (.data dir id) = some f' ∧ t' (.index dir id) = some g' ∧
      f'.bytes = f.bytes ++ p.frame a ∧
      Stored f' g' (mem.bump a.now) (entries ++ [newEntry f a]) (recs ++ [p])

/-- An append whose frame did not get through: the records are as before. -/
structure Refused (t t' : FileTree SeaPath) (dir : String) (id : UInt64) (hdr : SeaBlockIndexHeader)
    (recs : List Payload) (block : SeaBlock) (result : AppendResult) (block' : SeaBlock) :
    Prop where
  result_eq : result = ⟨ENOENT, none, none⟩
  on : block'.On dir id
  index : block'.index = block.index
  image : Image t' dir id hdr recs
  agree : AgreeOff t t' dir id

section BlockAppend

variable {block : SeaBlock} {a : Ambient} {faults : Faults} {p : Payload}

theorem run_seaBlockAppend_data (a : Ambient) (faults : Faults) (p : Payload)
    (hon : block.On dir id) (hf : t (.data dir id) = some f) :
    ∃ fd : Fd SeaPath, fd.path = .data dir id ∧ fd.pos = (frameWrite f a faults.frame p).2.size ∧
      (seaBlockAppend a faults block p.bytes p.length).run serve t =
        if FrameCompletes f a faults.frame p then
          ((seaBlockIndexAppend a faults block.index (UInt64.ofNat f.size)).run serve
            (t.set (.data dir id) (frameWrite f a faults.frame p).2)).map
              (fun s => ((s.1.1, { block with data := ⟨fd⟩, index := s.1.2 }), s.2))
        else some ((⟨ENOENT, none, none⟩, { block with data := ⟨fd⟩ }),
          t.set (.data dir id) (frameWrite f a faults.frame p).2) := by
  have hf' : t block.data.fd.path = some f := by rw [hon.data_path]; exact hf
  obtain ⟨fd, hfd, hpos, hrun⟩ := run_seaBlockDataAppend a faults.frame p hf'
  rw [hon.data_path] at hfd hrun
  refine ⟨fd, hfd, hpos, ?_⟩
  unfold seaBlockAppend
  rw [if_neg p.length_ne_zero, Program.run_bind_of_run serve hrun]
  by_cases h : FrameCompletes f a faults.frame p
  · simp only [h, if_true, ne_eq, not_true_eq_false, if_false, Program.run_bind]
    cases (seaBlockIndexAppend a faults block.index (UInt64.ofNat f.size)).run serve
      (t.set (.data dir id) (frameWrite f a faults.frame p).2) with
    | none => rfl
    | some s => rfl
  · simp [h, ENOENT]

/-- Without its frame an append is refused and the block stores what it did. -/
theorem append_refused (hon : block.On dir id) (hf : t (.data dir id) = some f)
    (hg : t (.index dir id) = some g) (hst : Stored f g hdr entries recs)
    (hfail : ¬ FrameCompletes f a faults.frame p) :
    ∃ result block' t',
      (seaBlockAppend a faults block p.bytes p.length).run serve t =
        some ((result, block'), t') ∧ Refused t t' dir id hdr recs block result block' := by
  obtain ⟨fd, hfd, -, hrun⟩ := run_seaBlockAppend_data a faults p hon hf
  rw [if_neg hfail] at hrun
  refine ⟨_, _, _, hrun, rfl, ⟨hfd, hon.index_path⟩, rfl, ?_, ?_⟩
  · exact ⟨_, g, entries, FileTree.set_self _ _ _, by rw [FileTree.set_other _ _ (by simp), hg],
      hst.grow (frameWrite_grows f a faults.frame p)⟩
  · intro path hdata _
    exact FileTree.set_other _ _ hdata

/-- With all three writes completed the record is stored under the id that the
handle's count was. -/
theorem append_appended {g' g'' : File} (hon : block.On dir id) (hf : t (.data dir id) = some f)
    (hg : t (.index dir id) = some g) (hst : Stored f g hdr entries recs)
    (hframe : FrameCompletes f a faults.frame p)
    (hentry : entryWrite g faults.entry (newEntry f a) = (.ok indexEntrySize, g'))
    (hheader : headerWrite g' faults.header (block.index.header.bump a.now) =
      (.ok indexHeaderSize, g'')) :
    ∃ result block' t',
      (seaBlockAppend a faults block p.bytes p.length).run serve t =
        some ((result, block'), t') ∧
      Appended t t' dir id block.index.header recs a p result block' := by
  obtain ⟨fd, hfd, hpos, hrun⟩ := run_seaBlockAppend_data a faults p hon hf
  rw [if_pos hframe] at hrun
  have hg' : (t.set (.data dir id) (frameWrite f a faults.frame p).2) block.index.fd.path =
      some g := by rw [hon.index_path, FileTree.set_other _ _ (by simp), hg]
  obtain ⟨fd', hfd', hindex⟩ := run_indexAppend_header hg' hentry hheader
  rw [if_pos rfl, hon.index_path] at hindex
  rw [hindex, Option.map_some] at hrun
  simp only [] at hrun
  have hdata : ((t.set (.data dir id) (frameWrite f a faults.frame p).2).set (.index dir id) g'')
      (.data dir id) = some (frameWrite f a faults.frame p).2 := by
    rw [FileTree.set_other _ _ (by simp), FileTree.set_self]
  have hstored : ∀ hdr entries, Stored f g hdr entries recs →
      Stored (frameWrite f a faults.frame p).2 g'' (block.index.header.bump a.now)
        (entries ++ [newEntry f a]) (recs ++ [p]) := by
    intro hdr entries hst
    exact ((hst.grow (frameWrite_grows f a faults.frame p)).add_entry hentry
      hframe.frameAt).put_header hheader
  refine ⟨_, _, _, hrun, rfl, ⟨hfd, hfd'.trans hon.index_path⟩, rfl, ?_, ⟨_, hdata, hpos⟩, ?_, ?_⟩
  · exact ⟨_, g'', _, hdata, FileTree.set_self _ _ _, hstored hdr entries hst⟩
  · intro path hdata hindex'
    rw [FileTree.set_other _ _ hindex', FileTree.set_other _ _ hdata]
  · intro f₁ g₁ hdr₁ entries₁ hf₁ hg₁ hst₁
    obtain rfl : f₁ = f := Option.some.inj (hf₁.symm.trans hf)
    obtain rfl : g₁ = g := Option.some.inj (hg₁.symm.trans hg)
    exact ⟨_, g'', hdata, FileTree.set_self _ _ _, hframe.bytes, hstored hdr₁ entries₁ hst₁⟩

/-- Once the frame is in the data file, the index decides the append. -/
theorem run_seaBlockAppend_index (hon : block.On dir id) (hf : t (.data dir id) = some f)
    (hframe : FrameCompletes f a faults.frame p) {result : AppendResult} {index : SeaBlockIndex}
    {t' : FileTree SeaPath}
    (hrun : (seaBlockIndexAppend a faults block.index (UInt64.ofNat f.size)).run serve
      (t.set (.data dir id) (frameWrite f a faults.frame p).2) = some ((result, index), t')) :
    ∃ fd : Fd SeaPath, fd.path = .data dir id ∧
      (seaBlockAppend a faults block p.bytes p.length).run serve t =
        some ((result, { block with data := ⟨fd⟩, index := index }), t') := by
  obtain ⟨fd, hfd, -, hblock⟩ := run_seaBlockAppend_data a faults p hon hf
  rw [if_pos hframe, hrun] at hblock
  exact ⟨fd, hfd, hblock⟩

theorem run_seaBlockAppend_data_missing (a : Ambient) (faults : Faults) (p : Payload)
    (hon : block.On dir id) (hf : t (.data dir id) = none) :
    ∃ block', (seaBlockAppend a faults block p.bytes p.length).run serve t =
      some ((⟨ENOENT, none, none⟩, block'), t) := by
  have hf' : t block.data.fd.path = none := by rw [hon.data_path]; exact hf
  have hdata : (seaBlockDataAppend a faults.frame block.data p.bytes p.length.toUInt32).run serve
      t = some ((ENOENT, 0, ⟨⟨block.data.fd.path, 0⟩⟩), t) := by
    unfold seaBlockDataAppend
    rw [Program.run_bind_of_run serve (p.run_buildFrame a)]
    simp only []
    rw [Program.run_bind_of_run serve (run_seekEnd_missing hf')]
    simp only []
    rw [Program.run_bind_of_run serve
      (run_write_missing (p.frame a) faults.frame (by exact hf'))]
    rfl
  refine ⟨{ block with data := ⟨⟨block.data.fd.path, 0⟩⟩ }, ?_⟩
  unfold seaBlockAppend
  rw [if_neg p.length_ne_zero, Program.run_bind_of_run serve hdata]
  rfl

/-- Without its data file an append returns nonzero. -/
theorem append_data_missing (hon : block.On dir id) (hf : t (.data dir id) = none)
    {result : AppendResult} {block' : SeaBlock} {t' : FileTree SeaPath}
    (hrun : (seaBlockAppend a faults block p.bytes p.length).run serve t =
      some ((result, block'), t')) : result.ret ≠ 0 := by
  obtain ⟨block₁, hmissing⟩ := run_seaBlockAppend_data_missing a faults p hon hf
  rw [hmissing] at hrun
  obtain ⟨rfl, -⟩ := Prod.mk.inj (Prod.mk.inj (Option.some.inj hrun)).1
  exact Nat.succ_ne_zero 1

theorem indexAppend_missing {index index' : SeaBlockIndex} (hg : t index.fd.path = none)
    {offset : UInt64} {result : AppendResult} {t' : FileTree SeaPath}
    (hrun : (seaBlockIndexAppend a faults index offset).run serve t =
      some ((result, index'), t')) : result.ret ≠ 0 := by
  unfold seaBlockIndexAppend at hrun
  simp only [] at hrun
  rw [Program.run_bind_of_run serve (run_seekEnd_missing hg)] at hrun
  simp only [] at hrun
  rw [Program.run_bind_of_run serve (run_write_missing _ faults.entry (by exact hg))] at hrun
  obtain ⟨rfl, -⟩ := Prod.mk.inj (Prod.mk.inj (Option.some.inj hrun)).1
  exact Nat.succ_ne_zero 21

/-- Whatever the files, an append that returns zero has completed its three writes. -/
theorem append_completes (hon : block.On dir id) {result : AppendResult} {block' : SeaBlock}
    {t' : FileTree SeaPath} (hrun : (seaBlockAppend a faults block p.bytes p.length).run serve t =
      some ((result, block'), t')) (hret : result.ret = 0) :
    ∃ f g g' g'', t (.data dir id) = some f ∧ t (.index dir id) = some g ∧
      FrameCompletes f a faults.frame p ∧
      entryWrite g faults.entry (newEntry f a) = (.ok indexEntrySize, g') ∧
      headerWrite g' faults.header (block.index.header.bump a.now) = (.ok indexHeaderSize, g'') ∧
      result.recordId = some block.index.header.count ∧
      t' = (t.set (.data dir id) (frameWrite f a faults.frame p).2).set (.index dir id) g'' := by
  cases hf : t (.data dir id) with
  | none => exact absurd hret (append_data_missing hon hf hrun)
  | some f =>
    obtain ⟨fd, -, -, hblock⟩ := run_seaBlockAppend_data a faults p hon hf
    rw [hrun] at hblock
    by_cases hframe : FrameCompletes f a faults.frame p
    swap
    · rw [if_neg hframe] at hblock
      obtain ⟨rfl, -⟩ := Prod.mk.inj (Prod.mk.inj (Option.some.inj hblock)).1
      exact absurd hret (Nat.succ_ne_zero 1)
    rw [if_pos hframe] at hblock
    obtain ⟨⟨⟨result₁, index₁⟩, t₁⟩, hindex, hsame⟩ := Option.map_eq_some_iff.mp hblock.symm
    obtain ⟨hresult, rfl⟩ := Prod.mk.inj hsame
    obtain rfl : result₁ = result := (Prod.mk.inj hresult).1
    have hpath : (t.set (.data dir id) (frameWrite f a faults.frame p).2) block.index.fd.path =
        t (.index dir id) := by rw [hon.index_path, FileTree.set_other _ _ (by simp)]
    cases hg : t (.index dir id) with
    | none => exact absurd hret (indexAppend_missing (hpath.trans hg) hindex)
    | some g =>
      obtain ⟨entryResult, g', hentry⟩ : ∃ entryResult g',
          entryWrite g faults.entry (newEntry f a) = (entryResult, g') := ⟨_, _, rfl⟩
      by_cases hent : entryResult = .ok indexEntrySize
      swap
      · obtain ⟨fd', -, hfail⟩ := run_indexAppend_entry_fail (hpath.trans hg) hentry hent
        rw [hfail] at hindex
        obtain ⟨rfl, -⟩ := Prod.mk.inj (Prod.mk.inj (Option.some.inj hindex)).1
        exact absurd hret (Nat.succ_ne_zero 21)
      subst hent
      obtain ⟨headerResult, g'', hheader⟩ : ∃ headerResult g'', headerWrite g' faults.header
          (block.index.header.bump a.now) = (headerResult, g'') := ⟨_, _, rfl⟩
      obtain ⟨fd', -, hdone⟩ := run_indexAppend_header (hpath.trans hg) hentry hheader
      rw [hindex] at hdone
      by_cases hok : headerResult = .ok indexHeaderSize
      · subst hok
        rw [if_pos rfl, hon.index_path] at hdone
        obtain ⟨hpair, rfl⟩ := Prod.mk.inj (Option.some.inj hdone)
        refine ⟨f, g, g', g'', rfl, rfl, hframe, hentry, hheader, ?_, rfl⟩
        rw [(Prod.mk.inj hpair).1]
      · rw [if_neg hok] at hdone
        obtain ⟨rfl, -⟩ := Prod.mk.inj (Prod.mk.inj (Option.some.inj hdone)).1
        exact absurd hret (Nat.succ_ne_zero 254)

/-- Whatever the faults and the sizes, an append that returns zero has stored its record. -/
theorem appended_of_ret (hon : block.On dir id) (himg : Image t dir id hdr recs)
    {result : AppendResult} {block' : SeaBlock} {t' : FileTree SeaPath}
    (hrun : (seaBlockAppend a faults block p.bytes p.length).run serve t =
      some ((result, block'), t')) (hret : result.ret = 0) :
    Appended t t' dir id block.index.header recs a p result block' := by
  obtain ⟨f, g, entries, hf, hg, hst⟩ := himg
  obtain ⟨f₁, g₁, g', g'', hf₁, hg₁, hframe, hentry, hheader, -, -⟩ :=
    append_completes hon hrun hret
  obtain rfl : f₁ = f := Option.some.inj (hf₁.symm.trans hf)
  obtain rfl : g₁ = g := Option.some.inj (hg₁.symm.trans hg)
  obtain ⟨result₁, block₁, t₁, hrun₁, happ⟩ :=
    append_appended hon hf hg hst hframe hentry hheader
  rw [hrun₁] at hrun
  cases hrun
  exact happ

/-- An entry write that is let through completes, as long as the ids do not run out. -/
theorem entryWrite_full (hst : Stored f g hdr entries recs) {o : Outcome}
    (ho : o.Full indexEntrySize) (e : SeaBlockIndexEntry) (hfit : recs.length < 2 ^ 32) :
    ∃ g', entryWrite g o e = (.ok indexEntrySize, g') := by
  have hsize : g.size = indexHeaderSize + indexEntrySize * recs.length := hst.index_size
  have hroom : g.size + indexEntrySize ≤ offMax := by
    rw [hsize]
    simp only [indexHeaderSize, indexEntrySize, offMax]
    omega
  exact ⟨_, Prod.ext ((entryWrite_ok_iff g o e).mpr ⟨ho, hroom⟩) rfl⟩

theorem headerWrite_full {o : Outcome} {new : SeaBlockIndexHeader} {result : Except ℕ ℕ}
    {g' : File} (ho : o.Full indexHeaderSize) (hheader : headerWrite g o new = (result, g')) :
    result = .ok indexHeaderSize :=
  (congrArg Prod.fst hheader).symm.trans ((headerWrite_ok_iff g o new).mpr ho)

/-- When the index writes complete, an append either stores its record or is
refused for its frame. -/
theorem append_total (hon : block.On dir id) (himg : Image t dir id hdr recs)
    (hentry : faults.entry.Full indexEntrySize) (hheader : faults.header.Full indexHeaderSize)
    (hfit : recs.length < 2 ^ 32) :
    ∃ result block' t',
      (seaBlockAppend a faults block p.bytes p.length).run serve t =
        some ((result, block'), t') ∧
      (Appended t t' dir id block.index.header recs a p result block' ∨
        Refused t t' dir id hdr recs block result block') := by
  obtain ⟨f, g, entries, hf, hg, hst⟩ := himg
  by_cases hframe : FrameCompletes f a faults.frame p
  · obtain ⟨g', hent⟩ := entryWrite_full hst hentry (newEntry f a) hfit
    obtain ⟨headerResult, g'', hhdr⟩ : ∃ headerResult g'', headerWrite g' faults.header
        (block.index.header.bump a.now) = (headerResult, g'') := ⟨_, _, rfl⟩
    obtain rfl := headerWrite_full hheader hhdr
    obtain ⟨result, block', t', hrun, happ⟩ :=
      append_appended hon hf hg hst hframe hent hhdr
    exact ⟨result, block', t', hrun, Or.inl happ⟩
  · obtain ⟨result, block', t', hrun, href⟩ := append_refused hon hf hg hst hframe
    exact ⟨result, block', t', hrun, Or.inr href⟩

/-- With room in the data file, an append whose calls all complete stores its record. -/
theorem append_whole (hon : block.On dir id) (hf : t (.data dir id) = some f)
    (hg : t (.index dir id) = some g) (hst : Stored f g hdr entries recs)
    (hroom : f.size + p.bytes.length + 16 ≤ offMax) (hfit : recs.length < 2 ^ 32) (a : Ambient) :
    ∃ result block' t', (seaBlockAppend a .none block p.bytes p.length).run serve t =
        some ((result, block'), t') ∧
      Appended t t' dir id block.index.header recs a p result block' := by
  have hframe : FrameCompletes f a Faults.none.frame p :=
    (frameCompletes_iff f a .whole p).mpr ⟨Outcome.full_whole _, hroom⟩
  obtain ⟨g', hentry⟩ := entryWrite_full hst (Outcome.full_whole _) (newEntry f a) hfit
  obtain ⟨g'', hheader⟩ := headerWrite_whole g' (block.index.header.bump a.now)
  exact append_appended hon hf hg hst hframe hentry hheader

end BlockAppend

end SeaStore.Block
