import SeaStore.Block.Create
import SeaStore.Posix.Interference

/-!
The operations of a block call by call. Opening and querying only read. A
creation changes the files three times and so does an append, in the order in
which a reader may rely on what it finds: the frame before its entry, and the
entry before the count.
-/
namespace SeaStore.Block

open Posix

variable {t : FileTree SeaPath} {dir : String} {id : UInt64} {f g : File}

theorem quiet_seaBlockOpen (dir : String) (id : UInt64) : (seaBlockOpen dir id).Quiet serve := by
  apply Program.Quiet.bind
  · apply (quiet_openFile _).bind
    intro fd
    cases fd <;> trivial
  · intro data
    cases data with
    | none => trivial
    | some data =>
      apply Program.Quiet.bind
      · apply (quiet_openFile _).bind
        intro fd
        cases fd with
        | none => trivial
        | some fd =>
          apply (quiet_read _ _).bind
          intro header
          dsimp only
          split <;> trivial
      · intro index
        cases index <;> trivial

theorem quiet_seaBlockIndexQueryByRecordId (index : SeaBlockIndex) (recordId : UInt32) :
    (seaBlockIndexQueryByRecordId index recordId).Quiet serve := by
  unfold seaBlockIndexQueryByRecordId
  split
  · trivial
  · apply (quiet_read _ _).bind
    intro entry
    dsimp only
    split
    · trivial
    · apply Program.Quiet.bind
      · cases seaBlockOffsetAppend seaBlockOffsetMalloc
          (SeaBlockIndexEntry.ofBytes entry.1).offset <;> trivial
      · intro offset
        trivial

theorem quiet_seaBlockDataQueryLoop (data : SeaBlockData) (records : SeaBlockRecord)
    (offsets : List UInt64) : (seaBlockDataQueryLoop data records offsets).Quiet serve := by
  induction offsets generalizing data records with
  | nil => trivial
  | cons offset rest ih =>
    rw [seaBlockDataQueryLoop]
    apply (quiet_read _ _).bind
    intro header
    dsimp only
    split
    · trivial
    · apply (quiet_read _ _).bind
      intro buf
      split
      · trivial
      · exact ih _ _

theorem quiet_seaBlockQueryByRecordId (block : SeaBlock) (recordId : UInt32) (bufLen : Int32) :
    (seaBlockQueryByRecordId block recordId bufLen).Quiet serve := by
  apply (quiet_seaBlockIndexQueryByRecordId _ _).bind
  rintro ⟨offsets, index⟩
  cases offsets with
  | none => trivial
  | some offsets =>
    apply (quiet_seaBlockDataQueryLoop _ _ _).bind
    intro records
    dsimp only
    split <;> trivial

theorem quiet_queryFresh (dir : String) (id : UInt64) (recordId : UInt32) (bufLen : Int32) :
    (queryFresh dir id recordId bufLen).Quiet serve := by
  apply (quiet_seaBlockOpen dir id).bind
  intro block
  cases block with
  | none => trivial
  | some block =>
    apply (quiet_seaBlockQueryByRecordId _ _ _).bind
    intro result
    trivial

section Changes

variable {G : FileTree SeaPath → FileTree SeaPath → Prop}

/-- The three changes of a creation where there was no block. -/
theorem steps_seaBlockCreate (habs : Absent t dir id) {now maxSize maxCount : UInt64} {g : File}
    (hheader : headerWrite .empty .whole (createdHeader id maxCount now) =
      (.ok indexHeaderSize, g))
    (h₁ : G t (t.set (.index dir id) .empty))
    (h₂ : G (t.set (.index dir id) .empty) (t.set (.index dir id) g))
    (h₃ : G (t.set (.index dir id) g) ((t.set (.index dir id) g).set (.data dir id) .empty)) :
    (seaBlockCreate ⟨now, .whole⟩ dir id maxSize maxCount).Steps serve G t := by
  obtain ⟨hdata, hindex⟩ := habs
  rw [← createdHeader_ite] at hheader
  have hrun := run_seaBlockIndexCreate (run_openFile_create hindex) (FileTree.set_self _ _ _)
    (maxCount_ite_ne_zero maxCount) hheader
  rw [FileTree.set_set] at hrun
  have hdata' : (t.set (.index dir id) g) (.data dir id) = none := by
    rw [FileTree.set_other _ _ (by simp), hdata]
  have hwrite : File.empty.write 0 (SeaBlockIndexHeader.bytes
      { blockId := id, maxCount := if maxCount = 0 then seaBlockMaxCountDefault else maxCount,
        startTimestamp := now, stopTimestamp := now, count := 0, unused := 0 }) .whole =
      (.ok indexHeaderSize, g) := by
    rw [← hheader, headerWrite, createdHeader, if_neg (maxCount_ite_ne_zero maxCount)]
  have hempty : (t.set (.index dir id) .empty) (.index dir id) = some .empty :=
    FileTree.set_self _ _ _
  unfold seaBlockCreate
  simp only []
  apply Program.Steps.bind_of_run _ hrun
  · apply Program.Steps.bind
    · exact steps_openFile_create hdata' h₃
    · intro fd t' _
      cases fd <;> trivial
  · apply (steps_openFile_create hindex h₁).bind_of_run (run_openFile_create hindex)
    simp only []
    apply Program.Steps.bind
    · apply steps_write ⟨SeaPath.index dir id, 0⟩ hempty hwrite
      rw [FileTree.set_set]
      exact h₂
    · rintro ⟨ret, fd⟩ t' _
      cases ret <;> trivial

theorem quiet_buildFrame (a : Ambient) (buffer : Bytes) (length : UInt32) :
    (buildFrame a buffer length).Quiet serve := by
  unfold buildFrame
  dsimp only
  split
  · trivial
  · split
    · trivial
    · split <;> trivial

theorem steps_seaBlockDataAppend (hrefl : ∀ t, G t t) {data : SeaBlockData}
    (hf : t data.fd.path = some f) {a : Ambient} {p : Payload} {f' : File}
    (hframe : frameWrite f a .whole p = (.ok (p.frame a).length, f'))
    (hstep : G t (t.set data.fd.path f')) :
    (seaBlockDataAppend a .whole data p.bytes p.length.toUInt32).Steps serve G t := by
  apply ((quiet_buildFrame _ _ _).steps hrefl).bind_of_run (p.run_buildFrame a)
  simp only []
  apply ((quiet_seekEnd _).steps hrefl).bind_of_run (run_seekEnd hf)
  simp only []
  apply Program.Steps.bind
  · exact steps_write ⟨data.fd.path, f.size⟩ hf hframe hstep
  · rintro ⟨size, fd⟩ t' _
    dsimp only
    split <;> trivial

theorem steps_seaBlockIndexAppend (hrefl : ∀ t, G t t) {index : SeaBlockIndex}
    (hg : t index.fd.path = some g) {a : Ambient} {offset : UInt64} {g' g'' : File}
    (hentry : entryWrite g .whole ⟨a.now, offset⟩ = (.ok indexEntrySize, g'))
    (hheader : headerWrite g' .whole (index.header.bump a.now) = (.ok indexHeaderSize, g''))
    (hstep : G t (t.set index.fd.path g'))
    (hstep' : G (t.set index.fd.path g') (t.set index.fd.path g'')) :
    (seaBlockIndexAppend a .none index offset).Steps serve G t := by
  have hset : t.set index.fd.path g' index.fd.path = some g' := FileTree.set_self _ _ _
  unfold seaBlockIndexAppend
  apply ((quiet_seekEnd _).steps hrefl).bind_of_run (run_seekEnd hg)
  simp only []
  apply (steps_write ⟨index.fd.path, g.size⟩ hg hentry hstep).bind_of_run
    (run_write ⟨index.fd.path, g.size⟩ hg hentry)
  simp only [ne_eq, not_true_eq_false, if_false, Fd.seekSet_zero, Fd.advance_path]
  apply Program.Steps.bind_of_run _ (run_write ⟨index.fd.path, 0⟩ hset hheader)
  · simp
  · apply steps_write ⟨index.fd.path, 0⟩ hset hheader
    rw [FileTree.set_set]
    exact hstep'

/-- The three changes of an append whose writes all complete. -/
theorem steps_seaBlockAppend (hrefl : ∀ t, G t t) {block : SeaBlock} (hon : block.On dir id)
    (hf : t (.data dir id) = some f) (hg : t (.index dir id) = some g) {a : Ambient} {p : Payload}
    {f' g' g'' : File} (hframe : frameWrite f a .whole p = (.ok (p.frame a).length, f'))
    (hentry : entryWrite g .whole (newEntry f a) = (.ok indexEntrySize, g'))
    (hheader : headerWrite g' .whole (block.index.header.bump a.now) = (.ok indexHeaderSize, g''))
    (h₁ : G t (t.set (.data dir id) f'))
    (h₂ : G (t.set (.data dir id) f') ((t.set (.data dir id) f').set (.index dir id) g'))
    (h₃ : G ((t.set (.data dir id) f').set (.index dir id) g')
      ((t.set (.data dir id) f').set (.index dir id) g'')) :
    (seaBlockAppend a .none block p.bytes p.length).Steps serve G t := by
  have hf' : t block.data.fd.path = some f := by rw [hon.data_path]; exact hf
  have hg' : (t.set (.data dir id) f') block.index.fd.path = some g := by
    rw [hon.index_path, FileTree.set_other _ _ (by simp), hg]
  have hcompletes : FrameCompletes f a .whole p := congrArg Prod.fst hframe
  obtain ⟨fd, -, -, hrun⟩ := run_seaBlockDataAppend a .whole p hf'
  rw [if_pos hcompletes, hframe, hon.data_path] at hrun
  unfold seaBlockAppend
  rw [if_neg p.length_ne_zero]
  apply Program.Steps.bind_of_run _ hrun
  · simp only [ne_eq, not_true_eq_false, if_false]
    apply Program.Steps.bind
    · rw [← hon.index_path] at h₂ h₃
      exact steps_seaBlockIndexAppend hrefl hg' hentry hheader h₂ h₃
    · intro result t' _
      trivial
  · rw [← hon.data_path] at h₁
    exact steps_seaBlockDataAppend hrefl hf' hframe h₁

end Changes

end SeaStore.Block
