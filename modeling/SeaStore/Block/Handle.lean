import SeaStore.Block.ReadBack

/-!
Appends and queries on one handle. An append leaves the data descriptor at the
end of the file, and the relative seek of a query only moves it on: from the
first append on, no query of this handle finds a record again. The queries all
answer as they should exactly when none of them asks for a record that is there.
-/
namespace SeaStore.Block

open Posix

inductive HandleOp
  | append (a : Ambient) (p : Payload)
  | query (recordId : UInt32) (bufLen : Int32)

/-- A query, with what had been acknowledged before it and what it returned. -/
structure Answer where
  recordId : UInt32
  bufLen : Int32
  acked : List (UInt32 × Payload)
  result : QueryResult

/-- A record handed out before is returned whole to a buffer it fits in, and an
id not handed out is refused. -/
def Answer.Right (q : Answer) : Prop :=
  (∀ p, (q.recordId, p) ∈ q.acked → (p.bytes.length : ℤ) ≤ q.bufLen.toInt →
    q.result = ⟨0, some p.bytes⟩) ∧
  ((∀ p, (q.recordId, p) ∉ q.acked) → q.result.ret ≠ 0)

/-- A handle at work, and the answers of its queries so far. -/
structure Session where
  writer : Writer
  answers : List Answer

def handleStep (s : Session) : HandleOp → Option Session
  | .append a p => (appendStep s.writer (a, p)).map fun w => { s with writer := w }
  | .query recordId bufLen =>
    match (seaBlockQueryByRecordId s.writer.block recordId bufLen).run serve s.writer.tree with
    | some ((result, block), tree) =>
      some ⟨{ s.writer with tree := tree, block := block },
        s.answers ++ [⟨recordId, bufLen, s.writer.acked, result⟩]⟩
    | none => none

def handleRun (dir : String) (id : UInt64) (t : FileTree SeaPath)
    (now maxSize maxCount : UInt64) (ops : List HandleOp) : Option Session := do
  let w ← newWriter dir id t now maxSize maxCount
  runSteps handleStep ⟨w, []⟩ ops

/-- No query asks, with a buffer large enough, for one of the records appended
before it; `past` is what has been appended when the operations start. -/
def Unasked (past : List Payload) : List HandleOp → Prop
  | [] => True
  | .append _ p :: ops => Unasked (past ++ [p]) ops
  | .query recordId bufLen :: ops =>
    (∀ p, (recordId, p) ∈ numbered 0 past → bufLen.toInt < p.bytes.length) ∧ Unasked past ops

variable {t : FileTree SeaPath} {dir : String} {id : UInt64} {hdr : SeaBlockIndexHeader}
  {recs : List Payload} {f g : File} {entries : List SeaBlockIndexEntry}

/-- A handle whose data descriptor stands at or past the end of the file finds
no record: what it counts it answers with nothing. -/
theorem run_queryByRecordId_past_end {block : SeaBlock} (hon : block.On dir id)
    (hf : t (.data dir id) = some f) (hg : t (.index dir id) = some g)
    (hst : Stored f g hdr entries recs) (hend : f.size ≤ block.data.fd.pos) (recordId : UInt32)
    (bufLen : Int32) :
    ∃ block', (seaBlockQueryByRecordId block recordId bufLen).run serve t =
        some ((if block.index.header.count ≤ recordId then ⟨EINVAL, none⟩ else ⟨0, some []⟩,
          block'), t) ∧
      block'.On dir id ∧ block'.index.header = block.index.header ∧
      f.size ≤ block'.data.fd.pos := by
  have hg' : t block.index.fd.path = some g := by rw [hon.index_path]; exact hg
  have hf' : t block.data.fd.path = some f := by rw [hon.data_path]; exact hf
  have hnone : ¬ bufLen.toUInt32 < UInt32.ofNat ([] : Bytes).length := by
    rw [UInt32.lt_iff_toNat_lt]
    simp
  unfold seaBlockQueryByRecordId
  by_cases hpast : block.index.header.count ≤ recordId
  · rw [if_pos hpast, Program.run_bind_of_run serve (run_indexQuery_past hpast)]
    exact ⟨block, rfl, hon, rfl, hend⟩
  rw [if_neg hpast]
  cases hrec : recs[recordId.toNat]? with
  | none =>
    obtain ⟨fd, hfd, hrun⟩ := run_indexQuery_missing hg' hst hpast hrec
    rw [Program.run_bind_of_run serve hrun]
    refine ⟨⟨block.dir, block.blockId, block.data, ⟨fd, block.index.header⟩⟩, ?_,
      ⟨hon.data_path, hfd.trans hon.index_path⟩, rfl, hend⟩
    simp [seaBlockDataQueryByOffsets, seaBlockOffsetMalloc, seaBlockDataQueryLoop,
      seaBlockRecordMalloc, seaBlockRecordGetFirst]
  | some p =>
    obtain ⟨e, he, hframe⟩ := hst.frame_at hrec
    obtain ⟨fd, hfd, hrun⟩ := run_indexQuery_hit hg' hst hpast he
    have hoff : e.offset.toNat ≤ offMax := by
      have hle := hframe.end_le
      have hmax := f.size_le
      omega
    have hseek : f.size ≤ (block.data.fd.seekCur e.offset).pos :=
      Nat.le_trans hend (Fd.le_seekCur_pos hoff)
    have hnil : slice f.bytes (block.data.fd.seekCur e.offset).pos dataHeaderSize = [] :=
      slice_past_end _ _ _ hseek
    have hloop := run_queryLoop_short hf' (by rw [hnil]; exact Nat.zero_ne_add_one 7)
      seaBlockRecordMalloc []
    rw [hnil] at hloop
    rw [Program.run_bind_of_run serve hrun]
    refine ⟨⟨block.dir, block.blockId, ⟨⟨block.data.fd.path,
      (block.data.fd.seekCur e.offset).pos⟩⟩, ⟨fd, block.index.header⟩⟩, ?_,
      ⟨hon.data_path, hfd.trans hon.index_path⟩, rfl, hseek⟩
    simp only [seaBlockDataQueryByOffsets]
    rw [Program.run_bind_of_run serve hloop]
    simp [seaBlockRecordMalloc, seaBlockRecordGetFirst]

/-- The handle's header is the one on disk, its count the number of appends,
and its data descriptor is at the end of the file as soon as there is a record. -/
structure AtWork (dir : String) (id : UInt64) (past : List Payload) (w : Writer) : Prop where
  held : Held w.tree dir id w.block past
  count : w.block.index.header.count = UInt32.ofNat past.length
  acked : w.acked = numbered 0 past
  at_end : past ≠ [] → ∃ f, w.tree (.data dir id) = some f ∧ f.size ≤ w.block.data.fd.pos

theorem AtWork.append {past : List Payload} {w w' : Writer} {op : Ambient × Payload}
    (hw : AtWork dir id past w) (hstep : appendStep w op = some w') :
    AtWork dir id (past ++ [op.2]) w' := by
  obtain ⟨hacked, result, happ⟩ := appendStep_appended hw.held.1 hw.held.2 hstep
  refine ⟨happ.held, ?_, ?_, ?_⟩
  · rw [happ.header, SeaBlockIndexHeader.bump, hw.count, List.length_append, List.length_singleton,
      UInt32.ofNat_add]
    rfl
  · rw [hacked, hw.acked, hw.count, numbered_concat, UInt32.zero_add]
  · intro _
    obtain ⟨f, hf, hpos⟩ := happ.at_end
    exact ⟨f, hf, Nat.le_of_eq hpos.symm⟩

theorem numbered_of_lt {past : List Payload} {recordId : UInt32}
    (h : recordId.toNat < past.length) : ∃ p, (recordId, p) ∈ numbered 0 past := by
  refine ⟨past[recordId.toNat], mem_numbered.mpr ⟨recordId.toNat, List.getElem?_eq_getElem h, ?_⟩⟩
  rw [UInt32.zero_add, UInt32.ofNat_toNat]

/-- A query of a handle at work is refused or answered with nothing, so that it
is right exactly when it asks for no record that fits its buffer. -/
theorem AtWork.query {past : List Payload} {w : Writer} (hw : AtWork dir id past w)
    (recordId : UInt32) (bufLen : Int32) :
    ∃ result block', (seaBlockQueryByRecordId w.block recordId bufLen).run serve w.tree =
        some ((result, block'), w.tree) ∧
      AtWork dir id past { w with block := block' } ∧
      (Answer.Right ⟨recordId, bufLen, w.acked, result⟩ ↔
        ∀ p, (recordId, p) ∈ numbered 0 past → bufLen.toInt < p.bytes.length) := by
  obtain ⟨f, g, entries, hf, hg, hst⟩ := hw.held.2
  have hcount : w.block.index.header.count.toNat = past.length % 2 ^ 32 := by
    rw [hw.count, UInt32.toNat_ofNat']
  by_cases hnil : past = []
  · -- nothing has been handed out, and the empty handle refuses every id
    subst hnil
    have hpast : w.block.index.header.count ≤ recordId := by
      rw [UInt32.le_iff_toNat_le, hcount]
      exact Nat.zero_le _
    refine ⟨⟨EINVAL, none⟩, w.block, ?_, hw, ?_⟩
    · unfold seaBlockQueryByRecordId
      rw [Program.run_bind_of_run serve (run_indexQuery_past hpast)]
      rfl
    · rw [hw.acked]
      simp [Answer.Right, numbered, EINVAL]
  · obtain ⟨f', hf', hend⟩ := hw.at_end hnil
    obtain rfl : f' = f := Option.some.inj (hf'.symm.trans hf)
    obtain ⟨block', hrun, hon', hheader', hend'⟩ :=
      run_queryByRecordId_past_end hw.held.1 hf hg hst hend recordId bufLen
    refine ⟨_, block', hrun, ⟨⟨hon', ?_⟩, ?_, hw.acked, fun _ => ⟨f', hf, hend'⟩⟩, ?_⟩
    · show Image w.tree dir id block'.index.header past
      rw [hheader']
      exact hw.held.2
    · show block'.index.header.count = UInt32.ofNat past.length
      rw [hheader']
      exact hw.count
    rw [hw.acked]
    constructor
    · rintro ⟨hhit, -⟩ p hmem
      by_contra hfit
      have hres := hhit p hmem (Int.not_lt.mp hfit)
      split at hres
      · exact absurd hres (by simp)
      · exact p.ne_nil (by simpa using hres.symm)
    · intro hask
      refine ⟨fun p hmem hfit => absurd (hask p hmem) (Int.not_lt.mpr hfit), ?_⟩
      intro hfree
      have hpast : w.block.index.header.count ≤ recordId := by
        rw [UInt32.le_iff_toNat_le, hcount]
        by_contra hlt
        have hin : recordId.toNat < past.length :=
          Nat.lt_of_lt_of_le (by omega) (Nat.mod_le past.length (2 ^ 32))
        obtain ⟨p, hmem⟩ := numbered_of_lt hin
        exact hfree p hmem
      simp [hpast, EINVAL]

/-- Over a run from a handle at work, all answers are right exactly when the
earlier ones are and no query asks for a record that is there. -/
theorem handleSteps_right_iff {past : List Payload} {s s' : Session} {ops : List HandleOp}
    (hs : AtWork dir id past s.writer) (hrun : runSteps handleStep s ops = some s') :
    (∀ q ∈ s'.answers, q.Right) ↔ (∀ q ∈ s.answers, q.Right) ∧ Unasked past ops := by
  induction ops generalizing past s with
  | nil =>
    obtain rfl := Option.some.inj hrun
    simp [Unasked]
  | cons op ops ih =>
    obtain ⟨s₁, hstep, hrest⟩ := Option.bind_eq_some_iff.mp hrun
    cases op with
    | append a p =>
      obtain ⟨w, happend, rfl⟩ := Option.map_eq_some_iff.mp hstep
      have hw : AtWork dir id (past ++ [p]) w := hs.append happend
      exact ih (s := ⟨w, s.answers⟩) hw hrest
    | query recordId bufLen =>
      obtain ⟨result, block', hquery, hs', hright⟩ := hs.query recordId bufLen
      rw [handleStep, hquery] at hstep
      obtain rfl := Option.some.inj hstep
      rw [ih hs' hrest, Unasked, ← hright]
      simp only [List.mem_append, List.mem_singleton, or_imp, forall_and, forall_eq, and_assoc]

theorem handleRun_start {now maxSize maxCount : UInt64} {ops : List HandleOp} {s : Session}
    (habs : Absent t dir id) (hrun : handleRun dir id t now maxSize maxCount ops = some s) :
    ∃ w, AtWork dir id [] w ∧ runSteps handleStep ⟨w, []⟩ ops = some s := by
  obtain ⟨w, hnew, hsteps⟩ := Option.bind_eq_some_iff.mp hrun
  obtain ⟨hheld, hcount, hacked⟩ := newWriter_held habs hnew
  exact ⟨w, ⟨hheld, hcount, hacked, fun hne => absurd rfl hne⟩, hsteps⟩

/-- On the one handle of a new block every query is right exactly when no query
asks for a record that was appended before it. -/
theorem handleRun_right_iff {now maxSize maxCount : UInt64} {ops : List HandleOp} {s : Session}
    (habs : Absent t dir id) (hrun : handleRun dir id t now maxSize maxCount ops = some s) :
    (∀ q ∈ s.answers, q.Right) ↔ Unasked [] ops := by
  obtain ⟨w, hw, hsteps⟩ := handleRun_start habs hrun
  rw [handleSteps_right_iff hw hsteps]
  simp

/-- A record just appended is answered with success and no bytes. -/
theorem handleRun_answers_nothing :
    ∃ s, handleRun "" 0 (fun _ => none) 0 0 0
        [.append (.clear 0) (.single 97), .query 0 16] = some s ∧
      s.answers.map Answer.result = [⟨0, some []⟩] ∧ ¬ ∀ q ∈ s.answers, q.Right := by
  obtain ⟨s, hs, hresults⟩ := Option.map_eq_some_iff.mp (show (handleRun "" 0 (fun _ => none) 0 0 0
    [.append (.clear 0) (.single 97), .query 0 16]).map
      (fun s => s.answers.map Answer.result) = some [⟨0, some []⟩] by decide +kernel)
  obtain ⟨w, hw, hsteps⟩ := handleRun_start ⟨rfl, rfl⟩ hs
  refine ⟨s, hs, hresults, ?_⟩
  rw [handleSteps_right_iff hw hsteps]
  rintro ⟨-, hasked, -⟩
  exact absurd (hasked (.single 97) (List.mem_singleton_self _)) (by decide)

/-- Queries before the first append, and beyond the last, are right. -/
theorem handleRun_right_beyond :
    ∃ s, handleRun "" 0 (fun _ => none) 0 0 0
        [.query 0 16, .append (.clear 0) (.single 97), .query 1 16] = some s ∧
      ∀ q ∈ s.answers, q.Right := by
  obtain ⟨s, hs⟩ := Option.isSome_iff_exists.mp (show (handleRun "" 0 (fun _ => none) 0 0 0
    [.query 0 16, .append (.clear 0) (.single 97), .query 1 16]).isSome by decide +kernel)
  exact ⟨s, hs, (handleRun_right_iff ⟨rfl, rfl⟩ hs).mpr (by simp [Unasked, numbered])⟩

end SeaStore.Block
