import SeaStore.Block.Append

/-!
Creating a block writes a fresh header at the front of the index file and
makes sure that there is a data file. Neither file is cut: what an earlier
block of the same id has stored stays behind the new header.
-/
namespace SeaStore.Block

open Posix

def createdHeader (id maxCount now : UInt64) : SeaBlockIndexHeader where
  blockId := id
  maxCount := if maxCount = 0 then seaBlockMaxCountDefault else maxCount
  startTimestamp := now
  stopTimestamp := now
  count := 0
  unused := 0

variable {t : FileTree SeaPath} {dir : String} {id : UInt64} {hdr : SeaBlockIndexHeader}
  {recs : List Payload} {f g : File} {entries : List SeaBlockIndexEntry}

def Absent (t : FileTree SeaPath) (dir : String) (id : UInt64) : Prop :=
  t (.data dir id) = none ∧ t (.index dir id) = none

theorem AgreeOff.absent {t' : FileTree SeaPath} {dir' : String} {id' : UInt64}
    (h : AgreeOff t t' dir id) (hne : ¬ (dir' = dir ∧ id' = id)) (habs : Absent t dir' id') :
    Absent t' dir' id' := by
  refine ⟨?_, ?_⟩
  · rw [h _ (by simpa using hne) (by simp), habs.1]
  · rw [h _ (by simp) (by simpa using hne), habs.2]

theorem run_seaBlockIndexCreate {maxCount now : UInt64} {t' : FileTree SeaPath} {g' : File}
    (hopen : (openFile (SeaPath.index dir id) true).run serve t =
      some (some ⟨.index dir id, 0⟩, t'))
    (hg : t' (.index dir id) = some g)
    (hmax : maxCount ≠ 0)
    (hheader : headerWrite g .whole (createdHeader id maxCount now) = (.ok indexHeaderSize, g')) :
    (seaBlockIndexCreate dir id maxCount now .whole).run serve t =
      some (0, t'.set (.index dir id) g') := by
  have hwrite : g.write 0 (SeaBlockIndexHeader.bytes
      { blockId := id, maxCount := maxCount, startTimestamp := now, stopTimestamp := now,
        count := 0, unused := 0 }) .whole = (.ok indexHeaderSize, g') := by
    rw [← hheader, headerWrite, createdHeader, if_neg hmax]
  unfold seaBlockIndexCreate
  rw [Program.run_bind_of_run serve hopen]
  simp only []
  rw [Program.run_bind_of_run serve
    (run_write ⟨SeaPath.index dir id, 0⟩ hg hwrite)]
  rfl

theorem run_seaBlockDataCreate (maxSize : UInt64) (h : t (.data dir id) = some f) :
    (seaBlockDataCreate dir id maxSize).run serve t = some (0, t) := by
  unfold seaBlockDataCreate
  rw [Program.run_bind_of_run serve (run_openFile_some true h)]
  rfl

theorem createdHeader_ite (id maxCount now : UInt64) :
    createdHeader id (if maxCount = 0 then seaBlockMaxCountDefault else maxCount) now =
      createdHeader id maxCount now := by
  unfold createdHeader
  by_cases h : maxCount = 0
  · simp [h]
  · simp [h]

theorem maxCount_ite_ne_zero (maxCount : UInt64) :
    (if maxCount = 0 then seaBlockMaxCountDefault else maxCount) ≠ 0 := by
  by_cases h : maxCount = 0
  · rw [if_pos h]
    decide
  · rw [if_neg h]
    exact h

/-- A header alone, and a data file without frames, store nothing. -/
theorem stored_created {hdr : SeaBlockIndexHeader} {g : File}
    (hheader : headerWrite .empty .whole hdr = (.ok indexHeaderSize, g)) :
    Stored .empty g hdr [] [] := by
  have hret : (File.empty.write 0 hdr.bytes .whole).1 = .ok hdr.bytes.length := by
    rw [SeaBlockIndexHeader.bytes_length]
    exact congrArg Prod.fst hheader
  have hbytes := File.write_ok_bytes hret
  rw [show File.empty.write 0 hdr.bytes .whole = headerWrite .empty .whole hdr from rfl,
    hheader] at hbytes
  refine ⟨?_, .nil⟩
  rw [hbytes, List.flatMap_nil, List.append_nil]
  exact overlay_end [] _

/-- A creation goes over whatever is there: a header at the front of the index file,
and a data file left as it is. -/
theorem run_seaBlockCreate_files (t : FileTree SeaPath) (dir : String)
    (id now maxSize maxCount : UInt64) :
    ∃ g', headerWrite ((t (.index dir id)).getD .empty) .whole (createdHeader id maxCount now) =
        (.ok indexHeaderSize, g') ∧
      (seaBlockCreate ⟨now, .whole⟩ dir id maxSize maxCount).run serve t =
        some (0, (t.set (.index dir id) g').set (.data dir id)
          ((t (.data dir id)).getD .empty)) := by
  obtain ⟨g', hheader⟩ := headerWrite_whole ((t (.index dir id)).getD .empty)
    (createdHeader id maxCount now)
  refine ⟨g', hheader, ?_⟩
  rw [← createdHeader_ite] at hheader
  have hindex := run_seaBlockIndexCreate (run_openFile_creating t (.index dir id))
    (FileTree.set_self _ _ _) (maxCount_ite_ne_zero maxCount) hheader
  rw [FileTree.set_set] at hindex
  have hdata : (t.set (.index dir id) g') (.data dir id) = t (.data dir id) :=
    FileTree.set_other _ _ (by simp)
  unfold seaBlockCreate
  simp only []
  rw [Program.run_bind_of_run serve hindex, if_neg (not_not.mpr rfl)]
  unfold seaBlockDataCreate
  rw [Program.run_bind_of_run serve (run_openFile_creating (t.set (.index dir id) g')
    (.data dir id)), hdata]
  rfl

theorem agreeOff_set (t : FileTree SeaPath) (dir : String) (id : UInt64) (f g : File) :
    AgreeOff t ((t.set (.index dir id) g).set (.data dir id) f) dir id := by
  intro path hdata hindex
  rw [FileTree.set_other _ _ hdata, FileTree.set_other _ _ hindex]

theorem Stored.image_set (h : Stored f g hdr entries recs) (t : FileTree SeaPath) (dir : String)
    (id : UInt64) : Image ((t.set (.index dir id) g).set (.data dir id) f) dir id hdr recs := by
  refine ⟨f, g, entries, FileTree.set_self _ _ _, ?_, h⟩
  rw [FileTree.set_other _ _ (by simp), FileTree.set_self]

/-- Where there was no block, creating one leaves an empty block. -/
theorem run_seaBlockCreate_absent (habs : Absent t dir id) (now maxSize maxCount : UInt64) :
    ∃ t', (seaBlockCreate ⟨now, .whole⟩ dir id maxSize maxCount).run serve t = some (0, t') ∧
      Image t' dir id (createdHeader id maxCount now) [] ∧ AgreeOff t t' dir id ∧
      t' (.data dir id) = some .empty := by
  obtain ⟨hdata, hindex⟩ := habs
  obtain ⟨g', hheader, hrun⟩ := run_seaBlockCreate_files t dir id now maxSize maxCount
  rw [hindex, Option.getD_none] at hheader
  rw [hdata, Option.getD_none] at hrun
  exact ⟨_, hrun, (stored_created hheader).image_set t dir id, agreeOff_set t dir id _ _,
    FileTree.set_self _ _ _⟩

/-- Over an existing block, creating keeps every record behind a header that counts none. -/
theorem run_seaBlockCreate_over (himg : Image t dir id hdr recs)
    (now maxSize maxCount : UInt64) :
    ∃ t', (seaBlockCreate ⟨now, .whole⟩ dir id maxSize maxCount).run serve t = some (0, t') ∧
      Image t' dir id (createdHeader id maxCount now) recs ∧ AgreeOff t t' dir id := by
  obtain ⟨f, g, entries, hf, hg, hst⟩ := himg
  obtain ⟨g', hheader, hrun⟩ := run_seaBlockCreate_files t dir id now maxSize maxCount
  rw [hg, Option.getD_some] at hheader
  rw [hf, Option.getD_some] at hrun
  exact ⟨_, hrun, (hst.put_header hheader).image_set t dir id, agreeOff_set t dir id _ _⟩

end SeaStore.Block
