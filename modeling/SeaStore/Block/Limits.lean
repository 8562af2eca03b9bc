import Mathlib.Data.List.Nodup
import SeaStore.Block.Arguments
import SeaStore.Block.Layout

/-!
The two limits of a block. The one on the records is kept in the header and
compared with the count after every append; the count is of 32 bits, the limit
of 64. The one on the size of the data file is handed to the creation of that
file and never seen again.
-/
namespace SeaStore.Block

open Posix

structure LimitCall where
  ambient : Ambient
  faults : Faults
  buf : Bytes
  length : Int32

/-- What a successful append reports, and the size of the data file after it. -/
structure Report where
  recordId : UInt32
  overLimit : Bool
  dataSize : ℕ
  deriving DecidableEq

structure Reporter where
  tree : FileTree SeaPath
  block : SeaBlock
  reports : List Report

def dataFileSize (t : FileTree SeaPath) (dir : String) (id : UInt64) : ℕ :=
  ((t (.data dir id)).getD .empty).size

def reportStep (dir : String) (id : UInt64) (w : Reporter) (call : LimitCall) : Option Reporter :=
  match (seaBlockAppend call.ambient call.faults w.block call.buf call.length).run serve w.tree with
  | some ((⟨0, some recordId, some overLimit⟩, block), tree) =>
    some ⟨tree, block, w.reports ++ [⟨recordId, overLimit, dataFileSize tree dir id⟩]⟩
  | _ => none

/-- A block is created where there was none, and opened. -/
def newReporter (dir : String) (id : UInt64) (t : FileTree SeaPath)
    (now maxSize maxCount : UInt64) : Option Reporter :=
  (newWriter dir id t now maxSize maxCount).map fun w => ⟨w.tree, w.block, []⟩

def effectiveSize (maxSize : UInt64) : UInt64 :=
  if maxSize = 0 then seaBlockMaxSizeDefault else maxSize

def effectiveCount (maxCount : UInt64) : UInt64 :=
  if maxCount = 0 then seaBlockMaxCountDefault else maxCount

def framesLength (lengths : List ℕ) : ℕ := (lengths.map (· + 16)).sum

def callLengths (calls : List LimitCall) : List ℕ :=
  calls.map fun call => call.length.toUInt32.toNat

/-- The report of the append in place `i`: the id and the count are cut to 32 bits. -/
def reportAt (maxCount : UInt64) (lengths : List ℕ) (i : ℕ) : Report where
  recordId := UInt32.ofNat i
  overLimit := decide (maxCount.toNat ≤ (i + 1) % 2 ^ 32)
  dataSize := framesLength (lengths.take (i + 1))

variable {t : FileTree SeaPath} {dir : String} {id : UInt64} {recs : List Payload}
  {now maxSize maxCount : UInt64}

theorem framesLength_append (xs ys : List ℕ) :
    framesLength (xs ++ ys) = framesLength xs + framesLength ys := by
  simp [framesLength]

theorem dataBytes_framesLength (filled : List (Ambient × Payload)) :
    (dataBytes filled).length = framesLength (filled.map fun op => op.2.bytes.length) := by
  induction filled with
  | nil => rfl
  | cons op filled ih =>
    rw [dataBytes_cons, List.length_append, ih, Payload.frame_length]
    rfl

theorem newWriter_maxCount {w : Writer} (habs : Absent t dir id)
    (hnew : newWriter dir id t now maxSize maxCount = some w) :
    w.block.index.header.maxCount = effectiveCount maxCount := by
  obtain ⟨tree, hcreate, himg, -⟩ := createStep_absent habs now maxSize maxCount
  unfold newWriter at hnew
  rw [hcreate, Option.bind_eq_bind, Option.bind_some, openStep_image himg] at hnew
  obtain rfl := Option.some.inj hnew
  rfl

/-- A handle whose appends have been of these lengths, all on a new block. -/
structure Reporting (dir : String) (id maxCount : UInt64) (lengths : List ℕ) (w : Reporter) :
    Prop where
  on : w.block.On dir id
  laidOut : ∃ filled, LaidOut w.tree dir id w.block.index.header filled ∧
    filled.map (fun op => op.2.bytes.length) = lengths
  count : w.block.index.header.count = UInt32.ofNat lengths.length
  limit : w.block.index.header.maxCount = maxCount
  reports : w.reports = (List.range lengths.length).map (reportAt maxCount lengths)

theorem newReporter_reporting {w : Reporter} (habs : Absent t dir id)
    (hnew : newReporter dir id t now maxSize maxCount = some w) :
    Reporting dir id (effectiveCount maxCount) [] w := by
  obtain ⟨writer, hwriter, rfl⟩ := Option.map_eq_some_iff.mp hnew
  obtain ⟨hheld, hcount, -⟩ := newWriter_held habs hwriter
  exact ⟨hheld.1, ⟨[], newWriter_laidOut habs hwriter, rfl⟩, hcount,
    newWriter_maxCount habs hwriter, rfl⟩

theorem exists_payload {w w' : Reporter} {call : LimitCall}
    (hstep : reportStep dir id w call = some w') :
    ∃ p, payloadOf call.buf call.length = some p := by
  cases hp : payloadOf call.buf call.length with
  | some p => exact ⟨p, rfl⟩
  | none =>
    unfold reportStep at hstep
    rcases seaBlockAppend_rejected hp call.ambient call.faults w.block with hrej | hrej
    · rw [hrej] at hstep
      exact absurd hstep (by simp [EINVAL])
    · rw [hrej] at hstep
      exact absurd hstep (by simp)

theorem overLimitOf_bump_mod {hdr : SeaBlockIndexHeader} (now : UInt64) {n : ℕ}
    (hcount : hdr.count = UInt32.ofNat n) :
    overLimitOf (hdr.bump now) = decide (hdr.maxCount.toNat ≤ (n + 1) % 2 ^ 32) := by
  have hnat : (hdr.count + 1).toUInt64.toNat = (n + 1) % 2 ^ 32 := by
    rw [UInt32.toNat_toUInt64, UInt32.toNat_add, hcount, UInt32.toNat_ofNat', UInt32.toNat_one]
    omega
  simp only [overLimitOf, SeaBlockIndexHeader.bump, UInt64.le_iff_toNat_le, hnat]

theorem range_map_reportAt (maxCount : UInt64) (lengths : List ℕ) (len : ℕ) :
    (List.range (lengths ++ [len]).length).map (reportAt maxCount (lengths ++ [len])) =
      (List.range lengths.length).map (reportAt maxCount lengths) ++
        [reportAt maxCount (lengths ++ [len]) lengths.length] := by
  rw [List.length_append, List.length_singleton, List.range_succ, List.map_append,
    List.map_singleton]
  congr 1
  apply List.map_congr_left
  intro i hi
  have hlt : i + 1 ≤ lengths.length := List.mem_range.mp hi
  rw [reportAt, reportAt, List.take_append_of_le_length hlt]

theorem Reporting.step {lengths : List ℕ} {w w' : Reporter} {call : LimitCall}
    (h : Reporting dir id maxCount lengths w) (hstep : reportStep dir id w call = some w') :
    Reporting dir id maxCount (lengths ++ [call.length.toUInt32.toNat]) w' := by
  obtain ⟨p, hp⟩ := exists_payload hstep
  obtain ⟨hlength, -, -⟩ := payloadOf_eq_some hp
  have hlen : call.length.toUInt32.toNat = p.bytes.length := by
    rw [hlength, p.length_toUInt32, p.toNat_length]
  obtain ⟨filled, hlaid, hfilled⟩ := h.laidOut
  unfold reportStep at hstep
  rw [seaBlockAppend_payloadOf hp] at hstep
  split at hstep
  · rename_i recordId overLimit block tree hrun
    obtain rfl := Option.some.inj hstep
    have happ := appended_of_ret h.on hlaid.image hrun rfl
    have hlaid' := hlaid.appended happ
    have hcount : block.index.header.count = UInt32.ofNat (lengths ++ [p.bytes.length]).length := by
      rw [happ.header, SeaBlockIndexHeader.bump, h.count, List.length_append,
        List.length_singleton, UInt32.ofNat_add]
      rfl
    have hsize : dataFileSize tree dir id = framesLength (lengths ++ [p.bytes.length]) := by
      obtain ⟨f, g, entries, hf, -, -, hdata, -⟩ := hlaid'
      rw [dataFileSize, hf, Option.getD_some, File.size, hdata, dataBytes_framesLength,
        List.map_append, hfilled]
      rfl
    have hresult := happ.result_eq
    rw [overLimitOf_bump_mod call.ambient.now h.count, h.limit, h.count] at hresult
    injection hresult with _ hid hlimit
    refine ⟨happ.on, ⟨filled ++ [(call.ambient, p)], ?_, ?_⟩, ?_, ?_, ?_⟩
    · rw [happ.header]
      exact hlaid'
    · rw [List.map_append, hfilled, hlen]
      rfl
    · rw [hlen]
      exact hcount
    · rw [happ.header]
      exact h.limit
    · rw [hlen, range_map_reportAt, h.reports, Option.some.inj hid, Option.some.inj hlimit, hsize,
        reportAt, List.take_of_length_le (by simp)]
  · exact absurd hstep (by simp)

/-- What a run of successful appends on a new block has reported. -/
theorem reportRun_reporting {w w' : Reporter} {calls : List LimitCall} (habs : Absent t dir id)
    (hnew : newReporter dir id t now maxSize maxCount = some w)
    (hrun : runSteps (reportStep dir id) w calls = some w') :
    Reporting dir id (effectiveCount maxCount) (callLengths calls) w' := by
  refine runSteps_invariant (fun past s =>
    Reporting dir id (effectiveCount maxCount) (callLengths past) s) ?_
    (newReporter_reporting habs hnew) hrun
  intro past call s s' hs hstep
  rw [callLengths, List.map_append]
  exact hs.step hstep

/-- No append but the last one has reported the limit. -/
def StopsAtLimit (w : Reporter) : Prop :=
  ∀ i r, w.reports[i]? = some r → i + 1 < w.reports.length → r.overLimit = false

/-- An append reports the limit when the records or the bytes have come to it,
and only then. -/
def ReportsExactly (maxSize maxCount : UInt64) (w : Reporter) : Prop :=
  ∀ i r, w.reports[i]? = some r →
    (r.overLimit = true ↔ maxCount.toNat ≤ i + 1 ∨ maxSize.toNat ≤ r.dataSize)

/-- As it should be: the limits are reported, and a caller who stops at a report
has a data file that exceeds its limit by the last frame at most. -/
structure LimitsReported (maxSize maxCount : UInt64) (lengths : List ℕ) (w : Reporter) :
    Prop where
  reported : ReportsExactly maxSize maxCount w
  bounded : StopsAtLimit w → ∀ i r, w.reports[i]? = some r →
    r.dataSize ≤ maxSize.toNat + (lengths.getD i 0 + 16)

/-- Whenever the records or the bytes have come to their limit, the count of 32
bits is not below the limit on the records. -/
def LimitsFit (maxSize maxCount : UInt64) (lengths : List ℕ) : Prop :=
  ∀ i < lengths.length,
    maxCount.toNat ≤ i + 1 ∨ maxSize.toNat ≤ framesLength (lengths.take (i + 1)) →
      maxCount.toNat ≤ (i + 1) % 2 ^ 32

def DistinctIds (w : Reporter) : Prop := (w.reports.map Report.recordId).Nodup

section Reports

variable {lengths : List ℕ} {w : Reporter}

theorem Reporting.getElem? (h : Reporting dir id maxCount lengths w) (i : ℕ) :
    w.reports[i]? = if i < lengths.length then some (reportAt maxCount lengths i) else none := by
  rw [h.reports, List.getElem?_map]
  by_cases hi : i < lengths.length
  · rw [List.getElem?_range hi, if_pos hi]
    rfl
  · rw [List.getElem?_eq_none (by simpa using hi), if_neg hi]
    rfl

theorem Reporting.reportsExactly_iff (h : Reporting dir id maxCount lengths w) :
    ReportsExactly maxSize maxCount w ↔ LimitsFit maxSize maxCount lengths := by
  have hmod : ∀ i, maxCount.toNat ≤ (i + 1) % 2 ^ 32 → maxCount.toNat ≤ i + 1 :=
    fun i hle => le_trans hle (Nat.mod_le _ _)
  unfold ReportsExactly LimitsFit
  simp only [h.getElem?]
  constructor
  · intro hreported i hi hreached
    have hright := hreported i (reportAt maxCount lengths i) (if_pos hi)
    exact of_decide_eq_true (hright.mpr hreached)
  · intro hfit i r hr
    by_cases hi : i < lengths.length
    · rw [if_pos hi] at hr
      obtain rfl := Option.some.inj hr
      constructor
      · intro hlimit
        exact Or.inl (hmod i (of_decide_eq_true hlimit))
      · intro hreached
        exact decide_eq_true (hfit i hi hreached)
    · rw [if_neg hi] at hr
      exact absurd hr (by simp)

theorem framesLength_take_succ {i : ℕ} (hi : i < lengths.length) :
    framesLength (lengths.take (i + 1)) =
      framesLength (lengths.take i) + (lengths.getD i 0 + 16) := by
  have htake : lengths.take (i + 1) = lengths.take i ++ [lengths.getD i 0] := by
    rw [List.take_add_one, List.getD_eq_getElem?_getD, List.getElem?_eq_getElem hi]
    rfl
  rw [htake, framesLength_append]
  rfl

/-- Where the limits are reported, the frames before an append in a run that stops
at a report are not beyond the limit. -/
theorem ReportsExactly.framesLength_le (h : ReportsExactly maxSize maxCount w)
    (hw : Reporting dir id maxCount lengths w) (hstop : StopsAtLimit w) {i : ℕ}
    (hi : i < lengths.length) : framesLength (lengths.take i) ≤ maxSize.toNat := by
  cases i with
  | zero => exact Nat.zero_le _
  | succ i =>
    have hr : w.reports[i]? = some (reportAt maxCount lengths i) := by
      rw [hw.getElem?, if_pos (by omega)]
    have hlen : w.reports.length = lengths.length := by simp [hw.reports]
    have hbelow : ¬ (maxCount.toNat ≤ i + 1 ∨
        maxSize.toNat ≤ (reportAt maxCount lengths i).dataSize) := by
      rw [← h i _ hr, hstop i _ hr (by omega)]
      exact Bool.false_ne_true
    simp only [reportAt] at hbelow
    omega

theorem Reporting.limitsReported_iff (h : Reporting dir id maxCount lengths w) :
    LimitsReported maxSize maxCount lengths w ↔ LimitsFit maxSize maxCount lengths := by
  rw [← h.reportsExactly_iff]
  constructor
  · exact LimitsReported.reported
  · intro hreported
    refine ⟨hreported, ?_⟩
    intro hstop i r hr
    rw [h.getElem?] at hr
    by_cases hi : i < lengths.length
    · rw [if_pos hi] at hr
      obtain rfl := Option.some.inj hr
      have hbefore := hreported.framesLength_le h hstop hi
      simp only [reportAt, framesLength_take_succ hi]
      omega
    · rw [if_neg hi] at hr
      exact absurd hr (by simp)

theorem Reporting.distinctIds_iff (h : Reporting dir id maxCount lengths w) :
    DistinctIds w ↔ lengths.length ≤ 2 ^ 32 := by
  have hids : w.reports.map Report.recordId =
      (List.range lengths.length).map fun i => UInt32.ofNat i := by
    rw [h.reports, List.map_map]
    rfl
  rw [DistinctIds, hids]
  constructor
  · intro hnodup
    by_contra hlong
    have hzero : 0 ∈ List.range lengths.length := List.mem_range.mpr (by omega)
    have hwrapped : 2 ^ 32 ∈ List.range lengths.length := List.mem_range.mpr (by omega)
    have hsame := List.inj_on_of_nodup_map hnodup hzero hwrapped rfl
    exact absurd hsame (by omega)
  · intro hfit
    refine List.Nodup.map_on ?_ List.nodup_range
    intro i hi j hj heq
    have hnat := congrArg UInt32.toNat heq
    rw [UInt32.toNat_ofNat', UInt32.toNat_ofNat'] at hnat
    have hi' := List.mem_range.mp hi
    have hj' := List.mem_range.mp hj
    omega

/-- A limit of 32 bits ends a run before its ids come round. -/
theorem Reporting.length_le (h : Reporting dir id maxCount lengths w) (hstop : StopsAtLimit w)
    (hlt : maxCount.toNat < 2 ^ 32) (hpos : 0 < maxCount.toNat) :
    lengths.length ≤ maxCount.toNat := by
  by_contra hlong
  have hlen : w.reports.length = lengths.length := by simp [h.reports]
  have hfalse := hstop (maxCount.toNat - 1) _ (by rw [h.getElem?, if_pos (by omega)]) (by omega)
  have htrue : (reportAt maxCount lengths (maxCount.toNat - 1)).overLimit = true := by
    apply decide_eq_true
    rw [Nat.sub_add_cancel hpos, Nat.mod_eq_of_lt hlt]
  rw [htrue] at hfalse
  exact absurd hfalse (by decide)

end Reports

theorem effectiveCount_pos (maxCount : UInt64) : 0 < (effectiveCount maxCount).toNat := by
  unfold effectiveCount
  by_cases hzero : maxCount = 0
  · rw [if_pos hzero]
    decide
  · rw [if_neg hzero]
    have hnat : maxCount.toNat ≠ 0 := fun heq => hzero (UInt64.toNat_inj.mp heq)
    omega

/-- Both limits are reported exactly while the bytes do not come to theirs before
the records do. -/
theorem appendRun_limitsReported_iff {w w' : Reporter} {calls : List LimitCall}
    (habs : Absent t dir id) (hnew : newReporter dir id t now maxSize maxCount = some w)
    (hrun : runSteps (reportStep dir id) w calls = some w') :
    LimitsReported (effectiveSize maxSize) (effectiveCount maxCount) (callLengths calls) w' ↔
      LimitsFit (effectiveSize maxSize) (effectiveCount maxCount) (callLengths calls) :=
  (reportRun_reporting habs hnew hrun).limitsReported_iff

/-- Up to the first report of the limit the ids are different, if the limit or the
number of appends is one of 32 bits. -/
theorem appendRun_distinctIds_iff {w w' : Reporter} {calls : List LimitCall}
    (habs : Absent t dir id) (hnew : newReporter dir id t now maxSize maxCount = some w)
    (hrun : runSteps (reportStep dir id) w calls = some w') (hstop : StopsAtLimit w') :
    DistinctIds w' ↔ (effectiveCount maxCount).toNat < 2 ^ 32 ∨ calls.length ≤ 2 ^ 32 := by
  have hreporting := reportRun_reporting habs hnew hrun
  have hlen : (callLengths calls).length = calls.length := List.length_map _
  rw [hreporting.distinctIds_iff, hlen]
  constructor
  · exact Or.inr
  · intro hfit
    rcases hfit with hlt | hle
    · have hbound := hreporting.length_le hstop hlt (effectiveCount_pos maxCount)
      omega
    · exact hle

def wholeCall (a : Ambient) (p : Payload) : LimitCall := ⟨a, .none, p.bytes, p.length⟩

/-- With room in both files, there is one more append. -/
theorem Reporting.exists_step {lengths : List ℕ} {w : Reporter}
    (h : Reporting dir id maxCount lengths w) (a : Ambient) (p : Payload)
    (hdata : framesLength lengths + p.bytes.length + 16 ≤ offMax)
    (hindex : indexHeaderSize + indexEntrySize * (lengths.length + 1) ≤ offMax) :
    ∃ w', reportStep dir id w (wholeCall a p) = some w' := by
  obtain ⟨filled, ⟨f, g, entries, hf, hg, hst, hbytes, -⟩, hfilled⟩ := h.laidOut
  have hlen : filled.length = lengths.length := by rw [← hfilled, List.length_map]
  have hroom : f.size + p.bytes.length + 16 ≤ offMax := by
    rw [File.size, hbytes, dataBytes_framesLength, hfilled]
    exact hdata
  have hframe : FrameCompletes f a Faults.none.frame p :=
    (frameCompletes_iff f a .whole p).mpr ⟨Outcome.full_whole _, hroom⟩
  have hsize : g.size = indexHeaderSize + indexEntrySize * (filled.map Prod.snd).length :=
    hst.index_size
  have hroomIndex : g.size + indexEntrySize ≤ offMax := by
    rw [hsize, List.length_map, hlen, Nat.add_assoc]
    exact hindex
  obtain ⟨g', hentry⟩ := entryWrite_whole hroomIndex (newEntry f a)
  obtain ⟨g'', hheader⟩ := headerWrite_whole g' (w.block.index.header.bump a.now)
  obtain ⟨result, block', t', hrun, happ⟩ :=
    append_appended h.on hf hg hst hframe hentry hheader
  rw [happ.result_eq] at hrun
  unfold reportStep wholeCall
  rw [hrun]
  exact ⟨_, rfl⟩

theorem callLengths_replicate (n : ℕ) (a : Ambient) (p : Payload) :
    callLengths (List.replicate n (wholeCall a p)) = List.replicate n p.bytes.length := by
  rw [callLengths, List.map_replicate, wholeCall, p.length_toUInt32, p.toNat_length]

/-- As many payloads of one byte as there is room for can be appended. -/
theorem exists_reportRun {w : Reporter} (habs : Absent t dir id)
    (hnew : newReporter dir id t now maxSize maxCount = some w) (a : Ambient) (b : UInt8) {n : ℕ}
    (hn : n ≤ 2 ^ 33) :
    ∃ w', runSteps (reportStep dir id) w (List.replicate n (wholeCall a (.single b))) =
      some w' := by
  induction n with
  | zero => exact ⟨w, rfl⟩
  | succ n ih =>
    obtain ⟨w₁, hrun⟩ := ih (by omega)
    have hreporting := reportRun_reporting habs hnew hrun
    rw [callLengths_replicate] at hreporting
    have hbytes : (Payload.single b).bytes.length = 1 := rfl
    have hframes : framesLength (List.replicate n 1) = n * 17 := by
      simp [framesLength]
    obtain ⟨w', hstep⟩ := hreporting.exists_step a (.single b)
      (by
        rw [hbytes, hframes]
        simp only [offMax]
        omega)
      (by
        rw [List.length_replicate]
        simp only [indexHeaderSize, indexEntrySize, offMax]
        omega)
    refine ⟨w', ?_⟩
    rw [List.replicate_succ', runSteps_append, hrun, Option.bind_some, runSteps, hstep]
    rfl

theorem absent_empty (dir : String) (id : UInt64) : Absent (fun _ => none) dir id := ⟨rfl, rfl⟩

/-- Two payloads of one byte in a block for two records and 34 bytes. -/
theorem appendRun_limitsReported_two :
    ∃ w w', newReporter "d" 1 (fun _ => none) 0 34 2 = some w ∧
      runSteps (reportStep "d" 1) w
        [wholeCall (.clear 0) (.single 97), wholeCall (.clear 0) (.single 98)] = some w' ∧
      LimitsReported (effectiveSize 34) (effectiveCount 2) [1, 1] w' := by
  have hsome : ((newReporter "d" 1 (fun _ => none) 0 34 2).bind fun w =>
      runSteps (reportStep "d" 1) w
        [wholeCall (.clear 0) (.single 97), wholeCall (.clear 0) (.single 98)]).isSome := by
    decide +kernel
  obtain ⟨w', hbind⟩ := Option.isSome_iff_exists.mp hsome
  obtain ⟨w, hnew, hrun⟩ := Option.bind_eq_some_iff.mp hbind
  refine ⟨w, w', hnew, hrun,
    (appendRun_limitsReported_iff (absent_empty "d" 1) hnew hrun).mpr ?_⟩
  unfold LimitsFit
  decide +kernel

/-- The first frame is larger than the block may be, and nothing is reported. -/
theorem appendRun_not_limitsReported :
    ∃ w w', newReporter "d" 1 (fun _ => none) 0 16 0 = some w ∧
      runSteps (reportStep "d" 1) w [wholeCall (.clear 0) (.single 97)] = some w' ∧
      w'.reports = [⟨0, false, 17⟩] ∧
      ¬ LimitsReported (effectiveSize 16) (effectiveCount 0) [1] w' := by
  have hsome : ((newReporter "d" 1 (fun _ => none) 0 16 0).bind fun w =>
      runSteps (reportStep "d" 1) w [wholeCall (.clear 0) (.single 97)]).map Reporter.reports =
        some [⟨0, false, 17⟩] := by
    decide +kernel
  obtain ⟨w', hbind, hreports⟩ := Option.map_eq_some_iff.mp hsome
  obtain ⟨w, hnew, hrun⟩ := Option.bind_eq_some_iff.mp hbind
  refine ⟨w, w', hnew, hrun, hreports, ?_⟩
  intro hlimits
  have hfirst := hlimits.reported 0 ⟨0, false, 17⟩ (by rw [hreports]; rfl)
  exact absurd (hfirst.mpr (Or.inr (by decide : (effectiveSize 16).toNat ≤ 17))) (by decide)

/-- Two payloads in a block for two records: the second one ends the run. -/
theorem appendRun_distinctIds_two :
    ∃ w w', newReporter "d" 1 (fun _ => none) 0 0 2 = some w ∧
      runSteps (reportStep "d" 1) w
        [wholeCall (.clear 0) (.single 97), wholeCall (.clear 0) (.single 98)] = some w' ∧
      StopsAtLimit w' ∧ DistinctIds w' := by
  have hsome : ((newReporter "d" 1 (fun _ => none) 0 0 2).bind fun w =>
      runSteps (reportStep "d" 1) w
        [wholeCall (.clear 0) (.single 97), wholeCall (.clear 0) (.single 98)]).map
          Reporter.reports = some [⟨0, false, 17⟩, ⟨1, true, 34⟩] := by
    decide +kernel
  obtain ⟨w', hbind, hreports⟩ := Option.map_eq_some_iff.mp hsome
  obtain ⟨w, hnew, hrun⟩ := Option.bind_eq_some_iff.mp hbind
  have hstop : StopsAtLimit w' := by
    unfold StopsAtLimit
    rw [hreports]
    rintro (_ | _ | i) r hr hlt
    · obtain rfl := Option.some.inj hr
      rfl
    · exact absurd hlt (by decide)
    · exact absurd hlt (by simp)
  exact ⟨w, w', hnew, hrun, hstop,
    (appendRun_distinctIds_iff (absent_empty "d" 1) hnew hrun hstop).mpr (Or.inl (by decide))⟩

/-- With a limit of 2^32 no append reports it, and the id of the append after the
first 2^32 ones is zero again. -/
theorem appendRun_not_distinctIds :
    ∃ w w', newReporter "d" 1 (fun _ => none) 0 0 4294967296 = some w ∧
      runSteps (reportStep "d" 1) w
        (List.replicate 4294967297 (wholeCall (.clear 0) (.single 97))) = some w' ∧
      StopsAtLimit w' ∧ ¬ DistinctIds w' := by
  have hsome : (newReporter "d" 1 (fun _ => none) 0 0 4294967296).isSome := by decide +kernel
  obtain ⟨w, hnew⟩ := Option.isSome_iff_exists.mp hsome
  obtain ⟨w', hrun⟩ := exists_reportRun (absent_empty "d" 1) hnew (.clear 0) 97
    (by omega : 4294967297 ≤ 2 ^ 33)
  have hreporting := reportRun_reporting (absent_empty "d" 1) hnew hrun
  refine ⟨w, w', hnew, hrun, ?_, ?_⟩
  · intro i r hr _
    rw [hreporting.getElem?] at hr
    split at hr
    · obtain rfl := Option.some.inj hr
      have hmod : (i + 1) % 2 ^ 32 < 2 ^ 32 := Nat.mod_lt _ (by omega)
      have hcount : (effectiveCount 4294967296).toNat = 2 ^ 32 := by decide
      rw [reportAt, hcount]
      exact decide_eq_false (by omega)
    · exact absurd hr (by simp)
  · rw [hreporting.distinctIds_iff, callLengths_replicate, List.length_replicate]
    omega

end SeaStore.Block
