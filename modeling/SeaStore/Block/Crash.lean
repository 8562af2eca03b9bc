import SeaStore.Block.ReadBack

/-!
A process that dies between two of the three writes of an append, and opens
the block again. Before the index entry is written nothing has been stored;
after it the record is stored but not counted, and the id that it should have
had goes to the next record, whose entry lies one place further on.
-/
namespace SeaStore.Block

open Posix

variable {t : FileTree SeaPath} {dir : String} {id : UInt64} {hdr : SeaBlockIndexHeader}
  {recs : List Payload} {f g : File} {entries : List SeaBlockIndexEntry}

theorem fate_buildFrame (n : ℕ) (p : Payload) (a : Ambient) :
    (buildFrame a p.bytes p.length.toUInt32).fate serve wrote n t =
      .ended (some (p.frame a)) t n := by
  rw [p.buildFrame_eq, Program.fate_pure]

/-- The first write of an append, when it completes: a process that dies there leaves the frame. -/
theorem fate_dataAppend (a : Ambient) (p : Payload) {data : SeaBlockData}
    (hf : t data.fd.path = some f) (hframe : FrameCompletes f a .whole p) (n : ℕ) :
    ∃ fd : Fd SeaPath,
      (seaBlockDataAppend a .whole data p.bytes p.length.toUInt32).fate serve wrote n t =
        if n ≤ 1 then .died (t.set data.fd.path (frameWrite f a .whole p).2)
        else .ended (0, UInt64.ofNat f.size, ⟨fd⟩)
          (t.set data.fd.path (frameWrite f a .whole p).2) (n - 1) := by
  have hwrite : f.write f.size (p.frame a) .whole =
      (.ok (p.frame a).length, (frameWrite f a .whole p).2) := Prod.ext hframe rfl
  refine ⟨(⟨data.fd.path, f.size⟩ : Fd SeaPath).advance (.ok (p.frame a).length), ?_⟩
  unfold seaBlockDataAppend
  rw [Program.fate_bind_of_ended serve wrote (fate_buildFrame n p a)]
  simp only []
  rw [Program.fate_bind_of_ended serve wrote (fate_seekEnd n hf)]
  simp only []
  have hfate := fate_write_whole ⟨data.fd.path, f.size⟩ n hf hwrite
  by_cases hn : n ≤ 1
  · rw [if_pos hn] at hfate
    rw [Program.fate_bind_of_died serve wrote hfate, if_pos hn]
  · rw [if_neg hn] at hfate
    rw [Program.fate_bind_of_ended serve wrote hfate, if_neg hn]
    simp only [ne_eq, not_true_eq_false, if_false, Program.fate_pure]

theorem fate_dataAppend_failed (a : Ambient) (p : Payload) {data : SeaBlockData}
    (hf : t data.fd.path = some f) (hframe : ¬ FrameCompletes f a .whole p) (n : ℕ) :
    ∃ s t', (seaBlockDataAppend a .whole data p.bytes p.length.toUInt32).fate serve wrote n t =
      .ended (ENOENT, s) t' n := by
  have hwrite : f.write f.size (p.frame a) .whole =
      ((frameWrite f a .whole p).1, (frameWrite f a .whole p).2) := rfl
  have hfail : ¬ (frameWrite f a .whole p).1 = .ok (p.frame a).length := hframe
  unfold seaBlockDataAppend
  rw [Program.fate_bind_of_ended serve wrote (fate_buildFrame n p a)]
  simp only []
  rw [Program.fate_bind_of_ended serve wrote (fate_seekEnd n hf)]
  simp only []
  rw [Program.fate_bind_of_ended serve wrote
    (fate_write_failed ⟨data.fd.path, f.size⟩ n hf hwrite hframe)]
  simp only [ne_eq, hfail, not_false_eq_true, if_true, Program.fate_pure]
  exact ⟨_, _, rfl⟩

/-- The second write of an append: a process that dies right after it leaves the entry. -/
theorem fate_indexAppend {index : SeaBlockIndex} {a : Ambient} {offset : UInt64}
    {result : Except ℕ ℕ} {g' : File} (hg : t index.fd.path = some g)
    (hentry : entryWrite g .whole ⟨a.now, offset⟩ = (result, g')) :
    if result = .ok indexEntrySize then
      (seaBlockIndexAppend a .none index offset).fate serve wrote 1 t =
        .died (t.set index.fd.path g')
    else ∃ s t', (seaBlockIndexAppend a .none index offset).fate serve wrote 1 t =
      .ended s t' 1 := by
  have hlen : (SeaBlockIndexEntry.bytes ⟨a.now, offset⟩).length = indexEntrySize :=
    SeaBlockIndexEntry.bytes_length _
  unfold seaBlockIndexAppend
  simp only [Faults.none]
  rw [Program.fate_bind_of_ended serve wrote (fate_seekEnd 1 hg)]
  simp only []
  split
  · rename_i hok
    rw [hok, ← hlen] at hentry
    have hfate := fate_write_whole ⟨index.fd.path, g.size⟩ 1 hg hentry
    rw [if_pos (Nat.le_refl 1)] at hfate
    rw [Program.fate_bind_of_died serve wrote hfate]
  · rename_i hfail
    have hfail' : result ≠ .ok (SeaBlockIndexEntry.bytes ⟨a.now, offset⟩).length := by
      rwa [hlen]
    rw [Program.fate_bind_of_ended serve wrote
      (fate_write_failed ⟨index.fd.path, g.size⟩ 1 hg hentry hfail')]
    simp only [ne_eq, hfail, not_false_eq_true, if_true, Program.fate_pure]
    exact ⟨_, _, rfl⟩

/-- Where the process dies: after the frame, or after the index entry. -/
inductive CrashPoint
  | afterFrame
  | afterEntry

def CrashPoint.writes : CrashPoint → ℕ
  | .afterFrame => 1
  | .afterEntry => 2

/-- The files that a process leaves that dies at `point` of an append. -/
def crashed (block : SeaBlock) (t : FileTree SeaPath) (a : Ambient) (p : Payload)
    (point : CrashPoint) : Option (FileTree SeaPath) :=
  match (seaBlockAppend a .none block p.bytes p.length).fate serve wrote point.writes t with
  | .died t' => some t'
  | _ => none

def CrashPoint.stored : CrashPoint → Payload → List Payload
  | .afterFrame, _ => []
  | .afterEntry, p => [p]

/-- A dying append leaves the header alone; its record is stored with its entry. -/
theorem crashed_image {block : SeaBlock} {a : Ambient} {p : Payload} {point : CrashPoint}
    {t' : FileTree SeaPath} (hon : block.On dir id) (himg : Image t dir id hdr recs)
    (hcrash : crashed block t a p point = some t') :
    Image t' dir id hdr (recs ++ point.stored p) := by
  obtain ⟨f, g, entries, hf, hg, hst⟩ := himg
  have hf' : t block.data.fd.path = some f := by rw [hon.data_path]; exact hf
  unfold crashed seaBlockAppend at hcrash
  rw [if_neg p.length_ne_zero, show Faults.none.frame = .whole from rfl] at hcrash
  by_cases hframe : FrameCompletes f a .whole p
  · have hgrow := hst.grow (frameWrite_grows f a .whole p)
    obtain ⟨fd, hfate⟩ := fate_dataAppend a p hf' hframe point.writes
    rw [hon.data_path] at hfate
    cases point with
    | afterFrame =>
      rw [CrashPoint.writes, if_pos (Nat.le_refl 1)] at hfate
      rw [CrashPoint.writes, Program.fate_bind_of_died serve wrote hfate] at hcrash
      obtain rfl := Option.some.inj hcrash
      rw [CrashPoint.stored, List.append_nil]
      exact ⟨_, g, entries, FileTree.set_self _ _ _,
        by rw [FileTree.set_other _ _ (by simp), hg], hgrow⟩
    | afterEntry =>
      rw [CrashPoint.writes, if_neg (by omega)] at hfate
      rw [CrashPoint.writes, Program.fate_bind_of_ended serve wrote hfate] at hcrash
      have hg' : (t.set (.data dir id) (frameWrite f a .whole p).2) block.index.fd.path =
          some g := by rw [hon.index_path, FileTree.set_other _ _ (by simp), hg]
      obtain ⟨result, g', hentry⟩ : ∃ result g',
          entryWrite g .whole (newEntry f a) = (result, g') := ⟨_, _, rfl⟩
      have hindex := fate_indexAppend hg' hentry
      simp only [ne_eq, not_true_eq_false, if_false, Nat.reduceSub] at hcrash
      by_cases hok : result = .ok indexEntrySize
      · rw [if_pos hok] at hindex
        rw [Program.fate_bind_of_died serve wrote hindex, hon.index_path] at hcrash
        obtain rfl := Option.some.inj hcrash
        rw [hok] at hentry
        exact ⟨_, g', entries ++ [newEntry f a],
          by rw [FileTree.set_other _ _ (by simp), FileTree.set_self],
          FileTree.set_self _ _ _, hgrow.add_entry hentry hframe.frameAt⟩
      · rw [if_neg hok] at hindex
        obtain ⟨s, t'', hindex⟩ := hindex
        rw [Program.fate_bind_of_ended serve wrote hindex] at hcrash
        exact absurd hcrash (by simp)
  · obtain ⟨s, t'', hfate⟩ := fate_dataAppend_failed a p hf' hframe point.writes
    rw [Program.fate_bind_of_ended serve wrote hfate] at hcrash
    exact absurd hcrash (by simp [ENOENT])

/-- One step in the life of a block: an append that returns zero, an append
that dies with its process and the block opened again, or just the latter. -/
inductive CrashOp
  | append (a : Ambient) (p : Payload)
  | crash (a : Ambient) (p : Payload) (point : CrashPoint)
  | reopen

namespace CrashOp

def acknowledged : CrashOp → List Payload
  | append _ p => [p]
  | _ => []

def entered : CrashOp → List Payload
  | append _ p => [p]
  | crash _ p point => point.stored p
  | reopen => []

end CrashOp

def crashStep (dir : String) (id : UInt64) (w : Writer) : CrashOp → Option Writer
  | .append a p => appendStep w (a, p)
  | .crash a p point => do
    let tree ← crashed w.block w.tree a p point
    let block ← openStep dir id tree
    return { w with tree := tree, block := block }
  | .reopen => (openStep dir id w.tree).map fun block => { w with block := block }

/-- A block is created where there was none, opened, and lives through `ops`. -/
def crashRun (dir : String) (id : UInt64) (t : FileTree SeaPath) (now maxSize maxCount : UInt64)
    (ops : List CrashOp) : Option Writer := do
  let w ← newWriter dir id t now maxSize maxCount
  runSteps (crashStep dir id) w ops

/-- The records are stored in the order of their entries; the ids count the
acknowledged ones only. -/
structure Survived (dir : String) (id : UInt64) (past : List CrashOp) (w : Writer) : Prop where
  held : Held w.tree dir id w.block (past.flatMap CrashOp.entered)
  count : w.block.index.header.count = UInt32.ofNat (past.flatMap CrashOp.acknowledged).length
  acked : w.acked = numbered 0 (past.flatMap CrashOp.acknowledged)

theorem crashStep_survived {past : List CrashOp} {op : CrashOp} {w w' : Writer}
    (hw : Survived dir id past w) (hstep : crashStep dir id w op = some w') :
    Survived dir id (past ++ [op]) w' := by
  obtain ⟨hheld, hcount, hacked⟩ := hw
  cases op with
  | append a p =>
    obtain ⟨hacked', result, happ⟩ := appendStep_appended hheld.1 hheld.2 hstep
    refine ⟨by simpa [CrashOp.entered] using happ.held, ?_, ?_⟩
    · rw [happ.header, SeaBlockIndexHeader.bump, hcount]
      simp [UInt32.ofNat_add, CrashOp.acknowledged]
    · rw [hacked', hacked, hcount, List.flatMap_append, List.flatMap_singleton,
        CrashOp.acknowledged, numbered_concat, UInt32.zero_add]
  | crash a p point =>
    obtain ⟨tree, hcrash, hstep⟩ := Option.bind_eq_some_iff.mp hstep
    have himg := crashed_image hheld.1 hheld.2 hcrash
    rw [openStep_image himg] at hstep
    obtain rfl := Option.some.inj hstep
    refine ⟨⟨openedBlock_on dir id _, ?_⟩, ?_, ?_⟩
    · simpa [CrashOp.entered] using himg
    · simpa [CrashOp.acknowledged] using hcount
    · simpa [CrashOp.acknowledged] using hacked
  | reopen =>
    rw [crashStep, openStep_image hheld.2] at hstep
    obtain rfl := Option.some.inj hstep
    refine ⟨⟨openedBlock_on dir id _, ?_⟩, ?_, ?_⟩
    · simpa [CrashOp.entered] using hheld.2
    · simpa [CrashOp.acknowledged] using hcount
    · simpa [CrashOp.acknowledged] using hacked

theorem crashRun_survived {now maxSize maxCount : UInt64} {ops : List CrashOp} {w : Writer}
    (habs : Absent t dir id) (hrun : crashRun dir id t now maxSize maxCount ops = some w) :
    Survived dir id ops w := by
  obtain ⟨w₀, hnew, hsteps⟩ := Option.bind_eq_some_iff.mp hrun
  obtain ⟨hheld, hcount, hacked⟩ := newWriter_held habs hnew
  have hstart : Survived dir id [] w₀ := ⟨hheld, hcount, hacked⟩
  exact runSteps_invariant (Survived dir id)
    (fun past op s s' hs hstep => crashStep_survived hs hstep) hstart hsteps

/-- Across crashes, the acknowledged records read back exactly when they are
the first of the records whose entries were written, and fewer than `2 ^ 32`. -/
theorem crashRun_readsBack_iff {now maxSize maxCount : UInt64} {ops : List CrashOp} {w : Writer}
    (habs : Absent t dir id) (hrun : crashRun dir id t now maxSize maxCount ops = some w) :
    (∀ recordId p, (recordId, p) ∈ w.acked → ReadsBack w.tree dir id recordId p) ↔
      (ops.flatMap CrashOp.acknowledged).length < 2 ^ 32 ∧
        ops.flatMap CrashOp.acknowledged <+: ops.flatMap CrashOp.entered := by
  obtain ⟨hheld, hcount, hacked⟩ := crashRun_survived habs hrun
  rw [hacked, numbered_readsBack_iff hheld.2 hcount]

/-- An append that dies after its index entry takes the place of the next one. -/
theorem crashRun_loses_record :
    ∃ w, crashRun "" 0 (fun _ => none) 0 0 0
        [.crash (.clear 0) (.single 97) .afterEntry, .append (.clear 0) (.single 98)] = some w ∧
      (0, Payload.single 98) ∈ w.acked ∧ ¬ ReadsBack w.tree "" 0 0 (.single 98) := by
  obtain ⟨w, hw⟩ := Option.isSome_iff_exists.mp (show (crashRun "" 0 (fun _ => none) 0 0 0
    [.crash (.clear 0) (.single 97) .afterEntry, .append (.clear 0) (.single 98)]).isSome by
      decide +kernel)
  obtain ⟨hheld, -, hacked⟩ := crashRun_survived ⟨rfl, rfl⟩ hw
  refine ⟨w, hw, ?_, ?_⟩
  · rw [hacked]
    exact List.mem_singleton_self _
  · rw [readsBack_iff hheld.2]
    simp [CrashOp.entered, CrashPoint.stored, Payload.single]

/-- An append that dies after its frame is followed by others that read back. -/
theorem crashRun_readsBack_afterFrame :
    ∃ w, crashRun "" 0 (fun _ => none) 0 0 0
        [.append (.clear 0) (.single 97), .crash (.clear 0) (.single 98) .afterFrame,
          .append (.clear 0) (.single 99)] = some w ∧
      ∀ recordId p, (recordId, p) ∈ w.acked → ReadsBack w.tree "" 0 recordId p := by
  obtain ⟨w, hw⟩ := Option.isSome_iff_exists.mp (show (crashRun "" 0 (fun _ => none) 0 0 0
    [.append (.clear 0) (.single 97), .crash (.clear 0) (.single 98) .afterFrame,
      .append (.clear 0) (.single 99)]).isSome by decide +kernel)
  exact ⟨w, hw, (crashRun_readsBack_iff ⟨rfl, rfl⟩ hw).mpr ⟨by decide, List.prefix_rfl⟩⟩

end SeaStore.Block
