import SeaStore.Column.Failure
import SeaStore.Column.ReadLimits

/-!
Creation over a file that is there. Only the header is written again; appends go to
the end of the file and reads trust positions, so that whatever the old file has behind
its header comes back as the first elements. The destruction of an array unlinks a path
that nobody has set.
-/
namespace SeaStore.Column

open Posix Block

variable {P : Type} [DecidableEq P]

/-- Create an array and open it, perhaps after a call to destroy it; none where the
creation or the opening fails. -/
def createOpen (destroy : Bool) (filename : Option P) (path : P) (e : ArrayCreateEnv)
    (info : ColArrayInfo) (errno : ℕ) : Program (files P) (Option (ColArray P)) := do
  if destroy then
    let _ ← colArrayDestroy filename path
  let ret ← colArrayCreate e path (some info)
  if ret ≠ arrayHdrSize then return none
  let (error, array) ← colArrayOpen errno path
  if error ≠ 0 then return none
  return array

structure AppendCall where
  e : ArrayAppendEnv
  record : Bytes
  recordSize : UInt32

/-- The files, a handle, and the elements that have been written through it. -/
structure NewArray (P : Type) (size : ℕ) where
  tree : FileTree P
  array : ColArray P
  elems : List (Vector UInt8 size)

variable {size : ℕ}

def AppendCall.written (call : AppendCall) (hdr : ColArrayHdr) (f : File) :
    List (Vector UInt8 size) :=
  if (dataWrite f call.e (wholePart hdr call.record call.recordSize)).1 =
      .ok (wholeSize hdr call.recordSize) then
    elements size (call.recordSize.toNat / size) call.record
  else []

def newArrayStep (s : NewArray P size) (call : AppendCall) : Option (NewArray P size) := do
  let f ← s.tree s.array.fd.path
  let ((_, array), tree) ← (colArrayAppend call.e s.array call.record
    call.recordSize).run serve s.tree
  return ⟨tree, array, s.elems ++ call.written s.array.hdr f⟩

/-- Every read gets elements that have been written, in their order, and counts them;
and just those of its window where no product leaves 32 bits. -/
def ReadsOnly (s : NewArray P size) : Prop :=
  ∀ (errno : ℕ) (indexStart indexStop recordSize : UInt32), ∃ result array' got,
    (colArrayRead errno s.array indexStart indexStop recordSize).run serve s.tree =
      some ((result, array'), s.tree) ∧
    result.record = elementBytes got ∧ got <:+: s.elems ∧
    (∀ count, result.realRecordCount = some count → count.toNat = got.length) ∧
    (indexStart ≤ indexStop →
      Unwrapped size indexStart.toNat indexStop.toNat recordSize.toNat →
      got = window s.elems indexStart.toNat indexStop.toNat (recordSize.toNat / size))

/-- The array is empty: whatever is appended to it, reads get only that. -/
def ReadsAppended (t : FileTree P) (array : ColArray P) : Prop :=
  ∀ (calls : List AppendCall) (s : NewArray P (colArrayGetTypeSize array.hdr.recordType).toNat),
    runSteps newArrayStep ⟨t, array, []⟩ calls = some s → ReadsOnly s

/-- Behind the header are some bytes that were there before, and then the elements. -/
structure Follows (old : Bytes) (s : NewArray P size) : Prop where
  size_eq : (colArrayGetTypeSize s.array.hdr.recordType).toNat = size
  file : ∃ f, s.tree s.array.fd.path = some f ∧ arrayHdrSize ≤ f.size ∧
    area f = old ++ elementBytes s.elems

namespace Follows

variable {old : Bytes} {s s' : NewArray P size}

theorem step (h : Follows old s) {call : AppendCall} (hstep : newArrayStep s call = some s') :
    Follows old s' := by
  obtain ⟨f, hf, hfull, harea⟩ := h.file
  obtain ⟨g, hg, hrest⟩ := Option.bind_eq_some_iff.mp hstep
  obtain rfl := Option.some.inj (hf.symm.trans hg)
  obtain ⟨⟨⟨ret, array'⟩, tree⟩, hrun, hs'⟩ := Option.bind_eq_some_iff.mp hrest
  obtain rfl := Option.some.inj hs'
  obtain ⟨hpath, f', hf', hgrown⟩ := colArrayAppend_grows hf hrun
  obtain ⟨htype, f'', hf'', hadds⟩ := colArrayAppend_adds hf hfull hrun
  obtain rfl := Option.some.inj (hf'.symm.trans hf'')
  refine ⟨by rw [htype, h.size_eq], f', ?_, Nat.le_trans hfull hgrown, ?_⟩
  · rw [hpath]
    exact hf'
  have hlen := (colArrayAppend_cases hf hrun).1
  rw [hadds, harea, elementBytes_append, List.append_assoc, AppendCall.written]
  congr 2
  split
  · rw [elementBytes_elements]
    · rw [wholePart, wholeSize, h.size_eq]
    · rwa [wholeSize, h.size_eq] at hlen
  · rfl

theorem run (h : Follows old s) {calls : List AppendCall}
    (hrun : runSteps newArrayStep s calls = some s') : Follows old s' :=
  runSteps_invariant (fun _ => Follows old) (fun _ _ _ _ hs hstep => hs.step hstep) h hrun

/-- Over nothing old, reads get the elements. -/
theorem readsOnly (h : Follows [] s) : ReadsOnly s := by
  obtain ⟨f, hf, -, harea⟩ := h.file
  rw [List.nil_append] at harea
  have hpos : 0 < size := by
    rw [← h.size_eq]
    exact typeSize_pos _
  have hdvd : size ∣ 2 ^ 32 := h.size_eq ▸ typeSize_dvd _
  intro errno indexStart indexStop recordSize
  obtain ⟨array', hrun, -⟩ := run_colArrayRead_elements ⟨rfl, h.size_eq⟩ hf harea errno
    indexStart indexStop recordSize
  refine ⟨_, array', readElements s.elems indexStart indexStop recordSize, hrun, ?_, ?_, ?_, ?_⟩
  · exact readResult_record _ _ _
  · exact (List.take_prefix _ _).isInfix.trans (List.drop_suffix _ _).isInfix
  · intro count hcount
    exact readResult_count h.size_eq hpos
      (Nat.lt_of_le_of_lt (readElements_length_le _ _ _ _) recordSize.toNat_lt) hcount
  · intro hle hwrap
    exact hwrap.readElements_eq hle hpos hdvd s.elems

/-- Over old bytes, a read before any append already gets some of them. -/
theorem not_readsOnly (h : Follows old s) (helems : s.elems = []) (hold : old ≠ []) :
    ¬ ReadsOnly s := by
  obtain ⟨f, hf, -, harea⟩ := h.file
  rw [helems, elementBytes_nil, List.append_nil] at harea
  have hpos := typeSize_pos s.array.hdr.recordType
  intro honly
  obtain ⟨result, array', got, hrun, hrecord, hinfix, -⟩ :=
    honly 0 0 1 (colArrayGetTypeSize s.array.hdr.recordType)
  obtain ⟨array'', hrun', -⟩ := run_colArrayRead_any hf 0 0 1
    (colArrayGetTypeSize s.array.hdr.recordType)
  have hgot : got = [] := by
    rw [helems] at hinfix
    exact List.infix_nil.mp hinfix
  rw [hrun'] at hrun
  obtain ⟨rfl, -⟩ := Prod.mk.inj (Prod.mk.inj (Option.some.inj hrun)).1
  rw [readResult_record, hgot, elementBytes_nil] at hrecord
  have hfront : slice f.bytes arrayHdrSize (colArrayGetTypeSize s.array.hdr.recordType).toNat =
      [] := by
    have hone : (colArrayGetTypeSize s.array.hdr.recordType /
        colArrayGetTypeSize s.array.hdr.recordType *
          colArrayGetTypeSize s.array.hdr.recordType).toNat =
        (colArrayGetTypeSize s.array.hdr.recordType).toNat := by
      rw [toNat_wholeSize, Nat.div_self hpos, Nat.mul_one]
    rw [hone, UInt32.sub_zero, UInt32.one_mul, Nat.min_self] at hrecord
    simpa using hrecord
  rw [slice, show f.bytes.drop arrayHdrSize = old from harea] at hfront
  rcases List.take_eq_nil_iff.mp hfront with hzero | hnil
  · omega
  · exact hold hnil

end Follows

section Created

variable {t t' : FileTree P} {path : P} {filename : Option P}

/-- The file is only gone after a destruction if its path was what stood there. -/
theorem colArrayDestroy_leaves {ret : ℕ}
    (hrun : (colArrayDestroy filename path).run serve t = some (ret, t')) :
    t' path = if filename = some path then none else t path := by
  unfold colArrayDestroy at hrun
  rw [Program.run_bind_of_run serve (run_access t path)] at hrun
  cases hf : t path with
  | none =>
    rw [hf] at hrun
    obtain ⟨-, rfl⟩ := Prod.mk.inj (Option.some.inj hrun)
    rw [hf, ite_self]
  | some f =>
    rw [hf, Option.isSome_some, if_pos rfl] at hrun
    cases filename with
    | none => exact absurd hrun (by simp)
    | some name =>
      rw [Program.run_bind_of_run serve (Program.run_ofOption_some serve name t),
        Program.run_bind_of_run serve (run_unlink t name)] at hrun
      have ht' : t' = Function.update t name none := by
        simp only [Program.run_ite, Program.run_pure] at hrun
        split at hrun
        · exact (congrArg Prod.snd (Option.some.inj hrun)).symm
        · exact (congrArg Prod.snd (Option.some.inj hrun)).symm
      rw [ht', ← hf]
      by_cases hname : name = path
      · rw [hname, Function.update_self, if_pos rfl]
      · rw [Function.update_of_ne (Ne.symm hname), if_neg (by simpa using hname)]

def leftover (t : FileTree P) (path : P) : Bytes := (t path).elim [] area

omit [DecidableEq P] in
theorem leftover_eq_nil_iff :
    leftover t path = [] ↔ ∀ f, t path = some f → f.size ≤ arrayHdrSize := by
  rw [leftover]
  cases hf : t path with
  | none => simp
  | some f => simp [area, File.size]

/-- Created and opened, an array begins with what was behind the header before. -/
theorem create_open_follows {e : ArrayCreateEnv} {info : ColArrayInfo} {errno ret error : ℕ}
    {array : ColArray P} {t₁ : FileTree P}
    (hcreate : (colArrayCreate e path (some info)).run serve t = some (ret, t₁))
    (hopen : (colArrayOpen errno path).run serve t₁ = some ((error, some array), t')) :
    Follows (leftover t path) (⟨t', array, []⟩ :
      NewArray P (colArrayGetTypeSize array.hdr.recordType).toNat) := by
  obtain ⟨hdr, rfl⟩ := colArrayCreate_writes hcreate
  obtain ⟨rfl, hopened⟩ := colArrayOpen_opens hopen
  obtain ⟨hpath, f, hf, hfull⟩ := hopened array rfl
  refine ⟨rfl, f, ?_, hfull, ?_⟩
  · rw [hpath]
    exact hf
  · rw [FileTree.set_self] at hf
    rw [← Option.some.inj hf, area_hdrWrite, elementBytes_nil, List.append_nil, leftover]
    cases t path with
    | none => rfl
    | some f => rfl

/-- The calls that have succeeded, and the tree that the creation has found. -/
theorem createOpen_calls {destroy : Bool} {e : ArrayCreateEnv} {info : ColArrayInfo} {errno : ℕ}
    {array : ColArray P}
    (hrun : (createOpen destroy filename path e info errno).run serve t = some (some array, t')) :
    ∃ t₀ ret t₁ error,
      t₀ path = (if destroy = true ∧ filename = some path then none else t path) ∧
      (colArrayCreate e path (some info)).run serve t₀ = some (ret, t₁) ∧
      (colArrayOpen errno path).run serve t₁ = some ((error, some array), t') := by
  have hrest : ∀ t₀ : FileTree P, (do
      let ret ← colArrayCreate e path (some info)
      if ret ≠ arrayHdrSize then return none
      let (error, array) ← colArrayOpen errno path
      if error ≠ 0 then return none
      return array : Program (files P) (Option (ColArray P))).run serve t₀ = some (some array, t') →
      ∃ ret t₁ error, (colArrayCreate e path (some info)).run serve t₀ = some (ret, t₁) ∧
        (colArrayOpen errno path).run serve t₁ = some ((error, some array), t') := by
    intro t₀ hsucc
    rw [Program.run_bind] at hsucc
    obtain ⟨⟨ret, t₁⟩, hcreate, hopen⟩ := Option.bind_eq_some_iff.mp hsucc
    by_cases hret : ret ≠ arrayHdrSize
    · simp [hret] at hopen
    · simp only [if_neg hret] at hopen
      rw [Program.run_bind] at hopen
      obtain ⟨⟨⟨error, opened⟩, t₂⟩, hopened, hend⟩ := Option.bind_eq_some_iff.mp hopen
      by_cases herror : error ≠ 0
      · simp [herror] at hend
      · simp only [if_neg herror, Program.run_pure] at hend
        obtain ⟨rfl, rfl⟩ := Prod.mk.inj (Option.some.inj hend)
        exact ⟨ret, t₁, error, hcreate, hopened⟩
  cases destroy with
  | false =>
    obtain ⟨ret, t₁, error, hcreate, hopen⟩ := hrest t hrun
    exact ⟨t, ret, t₁, error, by simp, hcreate, hopen⟩
  | true =>
    unfold createOpen at hrun
    rw [if_pos rfl, Program.run_bind] at hrun
    obtain ⟨⟨ret₀, t₀⟩, hdestroy, hsucc⟩ := Option.bind_eq_some_iff.mp hrun
    obtain ⟨ret, t₁, error, hcreate, hopen⟩ := hrest t₀ hsucc
    exact ⟨t₀, ret, t₁, error, by simpa using colArrayDestroy_leaves hdestroy, hcreate, hopen⟩

/-- After creation and opening, perhaps with a call to destroy the array before them,
whatever is appended, reads get only that: just where there was no file, or none longer
than a header, or where the destruction has happened to unlink the right path. -/
theorem createOpen_readsAppended_iff {destroy : Bool} {e : ArrayCreateEnv} {info : ColArrayInfo}
    {errno : ℕ} {array : ColArray P}
    (hrun : (createOpen destroy filename path e info errno).run serve t =
      some (some array, t')) :
    ReadsAppended t' array ↔ (destroy = true ∧ filename = some path) ∨
      ∀ f, t path = some f → f.size ≤ arrayHdrSize := by
  obtain ⟨t₀, ret, t₁, error, hfound, hcreate, hopen⟩ := createOpen_calls hrun
  have hstart := create_open_follows hcreate hopen
  have hold : leftover t₀ path = [] ↔ (destroy = true ∧ filename = some path) ∨
      ∀ f, t path = some f → f.size ≤ arrayHdrSize := by
    rw [leftover_eq_nil_iff, hfound]
    by_cases hgone : destroy = true ∧ filename = some path
    · simp [hgone]
    · simp [hgone]
  rw [← hold]
  constructor
  · intro hreads
    by_contra hne
    exact hstart.not_readsOnly rfl hne (hreads [] _ rfl)
  · intro hnil calls s hcalls
    rw [hnil] at hstart
    exact (hstart.run hcalls).readsOnly

theorem not_readsAppended {array : ColArray P} {calls : List AppendCall}
    {s : NewArray P (colArrayGetTypeSize array.hdr.recordType).toNat}
    {indexStart indexStop recordSize : UInt32} {result : ArrayReadResult} {array' : ColArray P}
    (hcalls : runSteps newArrayStep ⟨t, array, []⟩ calls = some s)
    (hread : (colArrayRead 0 s.array indexStart indexStop recordSize).run serve s.tree =
      some ((result, array'), t'))
    (hle : indexStart ≤ indexStop)
    (hwrap : Unwrapped (colArrayGetTypeSize array.hdr.recordType).toNat indexStart.toNat
      indexStop.toNat recordSize.toNat)
    (hne : result.record ≠ elementBytes (window s.elems indexStart.toNat indexStop.toNat
      (recordSize.toNat / (colArrayGetTypeSize array.hdr.recordType).toNat))) :
    ¬ ReadsAppended t array := by
  intro hreads
  obtain ⟨result', array'', got, hrun, hrecord, -, -, hwindow⟩ :=
    hreads calls s hcalls 0 indexStart indexStop recordSize
  rw [hread] at hrun
  obtain ⟨rfl, -⟩ := Prod.mk.inj (Prod.mk.inj (Option.some.inj hrun)).1
  exact hne (by rw [hrecord, hwindow hle hwrap])

end Created

/-- An array of one element is created again and gets another one, but a read of the
first element gives the old one; and so it does after the array has been destroyed. -/
theorem createOpen_not_readsAppended :
    ∃ s, runSteps (callStep "first") ⟨fun _ => none, []⟩
        [.create ⟨Vector.replicate 32 7, .whole, 0⟩ (some ⟨3, Vector.replicate 32 0⟩),
          .openArray 0, .append 0 ⟨.whole, .whole, 0⟩ [1, 2] 2] = some s ∧
      ∀ destroy : Bool, ∃ array t',
        (createOpen destroy (some "") "first" ⟨Vector.replicate 32 7, .whole, 0⟩
          ⟨3, Vector.replicate 32 0⟩ 0).run serve s.tree = some (some array, t') ∧
        ¬ ReadsAppended t' array := by
  have heval : ∀ destroy : Bool, ((runSteps (callStep "first") ⟨fun _ => none, []⟩
      [.create ⟨Vector.replicate 32 7, .whole, 0⟩ (some ⟨3, Vector.replicate 32 0⟩),
        .openArray 0, .append 0 ⟨.whole, .whole, 0⟩ [1, 2] 2]).bind fun s =>
      ((createOpen destroy (some "") "first" ⟨Vector.replicate 32 7, .whole, 0⟩
        ⟨3, Vector.replicate 32 0⟩ 0).run serve s.tree).bind fun opened =>
      opened.1.bind fun array => (runSteps newArrayStep (⟨opened.2, array, []⟩ :
          NewArray String (colArrayGetTypeSize array.hdr.recordType).toNat)
          [⟨⟨.whole, .whole, 0⟩, [3, 4], 2⟩]).bind fun s' =>
      ((colArrayRead 0 s'.array 0 1 2).run serve s'.tree).map fun read =>
        ((colArrayGetTypeSize array.hdr.recordType).toNat, read.1.1.record,
          elementBytes (window s'.elems 0 1
            (2 / (colArrayGetTypeSize array.hdr.recordType).toNat)))) =
      some (2, [1, 2], [3, 4]) := by
    decide +kernel
  obtain ⟨s, hrun, -⟩ := Option.bind_eq_some_iff.mp (heval false)
  refine ⟨s, hrun, ?_⟩
  intro destroy
  obtain ⟨s₀, hrun₀, hs⟩ := Option.bind_eq_some_iff.mp (heval destroy)
  obtain rfl := Option.some.inj (hrun.symm.trans hrun₀)
  obtain ⟨⟨opened, t'⟩, hopen, hopened⟩ := Option.bind_eq_some_iff.mp hs
  obtain ⟨array, rfl, hcalls⟩ := Option.bind_eq_some_iff.mp hopened
  obtain ⟨s', hs', hread⟩ := Option.bind_eq_some_iff.mp hcalls
  obtain ⟨⟨⟨result, array'⟩, t''⟩, hresult, hval⟩ := Option.map_eq_some_iff.mp hread
  obtain ⟨hsize, hrest⟩ := Prod.mk.inj hval
  obtain ⟨hrecord, hwindow⟩ := Prod.mk.inj hrest
  refine ⟨array, t', hopen, not_readsAppended hs' hresult (by decide) ?_ ?_⟩
  · rw [hsize, Unwrapped]
    decide
  · intro hsame
    have hbytes := hrecord.symm.trans (hsame.trans hwindow)
    exact absurd hbytes (by decide)

/-- Nothing has been appended to the array that is created again. -/
theorem createOpen_readsAppended_empty :
    ∃ s array t', runSteps (callStep "first") ⟨fun _ => none, []⟩
        [.create ⟨Vector.replicate 32 7, .whole, 0⟩ (some ⟨3, Vector.replicate 32 0⟩)] = some s ∧
      (createOpen false none "first" ⟨Vector.replicate 32 7, .whole, 0⟩
        ⟨3, Vector.replicate 32 0⟩ 0).run serve s.tree = some (some array, t') ∧
      ReadsAppended t' array := by
  have heval : ((runSteps (callStep "first") ⟨fun _ => none, []⟩
      [.create ⟨Vector.replicate 32 7, .whole, 0⟩ (some ⟨3, Vector.replicate 32 0⟩)]).bind fun s =>
      ((createOpen false none "first" ⟨Vector.replicate 32 7, .whole, 0⟩
        ⟨3, Vector.replicate 32 0⟩ 0).run serve s.tree).bind fun opened =>
      opened.1.map fun _ => (s.tree "first").map File.size) = some (some 37) := by
    decide +kernel
  obtain ⟨s, hrun, hs⟩ := Option.bind_eq_some_iff.mp heval
  obtain ⟨⟨opened, t'⟩, hopen, hopened⟩ := Option.bind_eq_some_iff.mp hs
  obtain ⟨array, rfl, hval⟩ := Option.map_eq_some_iff.mp hopened
  refine ⟨s, array, t', hrun, hopen, ?_⟩
  refine (createOpen_readsAppended_iff hopen).mpr (Or.inr ?_)
  intro f hf
  rw [hf] at hval
  exact Nat.le_of_eq (Option.some.inj hval)

end SeaStore.Column
