import SeaStore.Column.Calls
import SeaStore.Posix.Run

/-!
A column array as a list. Whatever is appended, read, closed and opened again,
the file holds the whole elements of all buffers in order under a header that
counts them, and a read gives the window of the list that it asks for.
-/
namespace SeaStore.Column

open Posix Block

inductive ArrayOp
  | openArray (errno : ℕ)
  | append (errno : ℕ) (record : Bytes)
  | read (errno : ℕ) (indexStart indexStop recordSize : UInt32)
  | close

/-- The files, the handle while there is one, and what openings and appends returned. -/
structure ArraySession (P : Type) where
  tree : FileTree P
  array : Option (ColArray P)
  rets : List ℕ

variable {P : Type} [DecidableEq P] (path : P)

/-- One call, all of whose system calls complete in full. Only an opening needs no handle. -/
def arrayStep (s : ArraySession P) : ArrayOp → Option (ArraySession P)
  | .openArray errno => do
    let ((error, array), tree) ← (colArrayOpen errno path).run serve s.tree
    return ⟨tree, array, s.rets ++ [error]⟩
  | .append errno record => do
    let array ← s.array
    let ((ret, array), tree) ← (colArrayAppend ⟨.whole, .whole, errno⟩ array record
      (UInt32.ofNat record.length)).run serve s.tree
    return ⟨tree, some array, s.rets ++ [ret]⟩
  | .read errno indexStart indexStop recordSize => do
    let array ← s.array
    let ((_, array), tree) ← (colArrayRead errno array indexStart indexStop
      recordSize).run serve s.tree
    return { s with tree := tree, array := some array }
  | .close => do
    let array ← s.array
    let ((), tree) ← (colArrayClose array).run serve s.tree
    return { s with tree := tree, array := none }

def arrayRun (t : FileTree P) (stack : Vector UInt8 32) (errno : ℕ) (info : ColArrayInfo)
    (ops : List ArrayOp) : Option (ArraySession P) := do
  let (_, tree) ← (colArrayCreate ⟨stack, .whole, errno⟩ path (some info)).run serve t
  runSteps (arrayStep path) ⟨tree, none, []⟩ ops

/-- Appends, reads and closings come while the array is open. -/
def usable : Bool → List ArrayOp → Bool
  | _, [] => true
  | _, .openArray _ :: ops => usable true ops
  | opened, .append .. :: ops => opened && usable opened ops
  | opened, .read .. :: ops => opened && usable opened ops
  | opened, .close :: ops => opened && usable false ops

/-- The elements that an operation adds. -/
def ArrayOp.added (size : ℕ) : ArrayOp → List (Vector UInt8 size)
  | .append _ record => wholeElements size record
  | .openArray _ | .read .. | .close => []

def ArrayOp.Small : ArrayOp → Prop
  | .append _ record => record.length < 2 ^ 31
  | .openArray _ | .read .. | .close => True

/-- What the operations make of an empty list. -/
def appended (size : ℕ) (ops : List ArrayOp) : List (Vector UInt8 size) :=
  ops.flatMap (ArrayOp.added size)

/-- The file and the handle, if there is one, agree on the header of the elements. -/
structure Holds (recordType : UInt8) {size : ℕ} (elems : List (Vector UInt8 size))
    (s : ArraySession P) : Prop where
  size_eq : (colArrayGetTypeSize recordType).toNat = size
  contents : ∃ hdr : ColArrayHdr, Contents s.tree path hdr elems ∧ hdr.recordType = recordType ∧
    hdr.count = UInt32.ofNat elems.length ∧
    ∀ array, s.array = some array → array.fd.path = path ∧ array.hdr = hdr
  rets : ∀ ret ∈ s.rets, ret = 0

variable {path} {s s' : ArraySession P} {recordType : UInt8} {size : ℕ}
  {elems : List (Vector UInt8 size)}

namespace Holds

theorem openArray (h : Holds path recordType elems s) (errno : ℕ) :
    ∃ s', arrayStep path s (.openArray errno) = some s' ∧ Holds path recordType elems s' ∧
      s'.array.isSome = true := by
  obtain ⟨hsize, ⟨hdr, hcontents, htype, hcount, -⟩, hrets⟩ := h
  refine ⟨⟨s.tree, some ⟨⟨path, arrayHdrSize⟩, hdr⟩, s.rets ++ [0]⟩, ?_,
    ⟨hsize, ⟨hdr, hcontents, htype, hcount, ?_⟩, ?_⟩, rfl⟩
  · simp only [arrayStep, run_colArrayOpen hcontents errno]
    rfl
  · intro array harray
    obtain rfl := Option.some.inj harray
    exact ⟨rfl, rfl⟩
  · intro ret hmem
    rcases List.mem_append.mp hmem with hold | hnew
    · exact hrets ret hold
    · exact List.mem_singleton.mp hnew

theorem append (h : Holds path recordType elems s) (hopen : s.array.isSome = true) (errno : ℕ)
    {record : Bytes} (hlen : record.length < 2 ^ 31) (hfew : size * elems.length < 2 ^ 32) :
    ∃ s', arrayStep path s (.append errno record) = some s' ∧
      Holds path recordType (elems ++ wholeElements size record) s' ∧
      s'.array.isSome = true := by
  obtain ⟨hsize, ⟨hdr, hcontents, htype, hcount, hhandle⟩, hrets⟩ := h
  obtain ⟨array, harray⟩ := Option.isSome_iff_exists.mp hopen
  obtain ⟨hpath, rfl⟩ := hhandle array harray
  obtain ⟨array', f, hrun, hpath', hhdr', hbytes⟩ := run_colArrayAppend
    ⟨hpath, by rw [htype, hsize]⟩ hcontents record (by omega)
    (by simp only [arrayHdrSize, offMax]; omega) errno
  refine ⟨⟨s.tree.set path f, some array', s.rets ++ [0]⟩, ?_,
    ⟨hsize, ⟨array'.hdr, ⟨f, FileTree.set_self _ _ _, hbytes⟩, ?_, ?_, ?_⟩, ?_⟩, rfl⟩
  · simp only [arrayStep, harray, Option.bind_eq_bind, Option.bind_some, hrun]
    rfl
  · rw [hhdr']
    exact htype
  · rw [hhdr', ColArrayHdr.addCount, hcount, List.length_append, UInt32.ofNat_add]
  · intro array'' harray''
    obtain rfl := Option.some.inj harray''
    exact ⟨hpath', rfl⟩
  · intro ret hmem
    rcases List.mem_append.mp hmem with hold | hnew
    · exact hrets ret hold
    · exact List.mem_singleton.mp hnew

theorem read (h : Holds path recordType elems s) (hopen : s.array.isSome = true) (errno : ℕ)
    (indexStart indexStop recordSize : UInt32) :
    ∃ s', arrayStep path s (.read errno indexStart indexStop recordSize) = some s' ∧
      Holds path recordType elems s' ∧ s'.array.isSome = true := by
  obtain ⟨hsize, ⟨hdr, hcontents, htype, hcount, hhandle⟩, hrets⟩ := h
  obtain ⟨array, harray⟩ := Option.isSome_iff_exists.mp hopen
  obtain ⟨rfl, rfl⟩ := hhandle array harray
  obtain ⟨f, hf, -⟩ := hcontents.size_eq
  obtain ⟨array', hrun, hpath', hhdr'⟩ :=
    run_colArrayRead_any hf errno indexStart indexStop recordSize
  refine ⟨⟨s.tree, some array', s.rets⟩, ?_,
    ⟨hsize, ⟨array.hdr, hcontents, htype, hcount, ?_⟩, hrets⟩, rfl⟩
  · simp only [arrayStep, harray, Option.bind_eq_bind, Option.bind_some, hrun]
    rfl
  · intro array'' harray''
    obtain rfl := Option.some.inj harray''
    exact ⟨hpath', hhdr'⟩

theorem close (h : Holds path recordType elems s) (hopen : s.array.isSome = true) :
    ∃ s', arrayStep path s .close = some s' ∧ Holds path recordType elems s' ∧
      s'.array.isSome = false := by
  obtain ⟨hsize, ⟨hdr, hcontents, htype, hcount, -⟩, hrets⟩ := h
  obtain ⟨array, harray⟩ := Option.isSome_iff_exists.mp hopen
  refine ⟨⟨s.tree, none, s.rets⟩, ?_,
    ⟨hsize, ⟨hdr, hcontents, htype, hcount, ?_⟩, hrets⟩, rfl⟩
  · simp only [arrayStep, harray, Option.bind_eq_bind, Option.bind_some]
    rfl
  · intro array' harray'
    exact absurd harray' (by simp)

theorem step (h : Holds path recordType elems s) {op : ArrayOp} {ops : List ArrayOp}
    (huse : usable s.array.isSome (op :: ops) = true) (hsmall : op.Small)
    (hfew : size * elems.length < 2 ^ 32) :
    ∃ s', arrayStep path s op = some s' ∧ Holds path recordType (elems ++ op.added size) s' ∧
      usable s'.array.isSome ops = true := by
  cases op with
  | openArray errno =>
    obtain ⟨s', hstep, hs', hopen⟩ := h.openArray errno
    refine ⟨s', hstep, by simpa [ArrayOp.added] using hs', ?_⟩
    rw [hopen]
    exact huse
  | append errno record =>
    obtain ⟨hopened, hrest⟩ := Bool.and_eq_true_iff.mp huse
    obtain ⟨s', hstep, hs', hopen⟩ := h.append hopened errno hsmall hfew
    refine ⟨s', hstep, hs', ?_⟩
    rw [hopened] at hrest
    rw [hopen]
    exact hrest
  | read errno indexStart indexStop recordSize =>
    obtain ⟨hopened, hrest⟩ := Bool.and_eq_true_iff.mp huse
    obtain ⟨s', hstep, hs', hopen⟩ := h.read hopened errno indexStart indexStop recordSize
    refine ⟨s', hstep, by simpa [ArrayOp.added] using hs', ?_⟩
    rw [hopened] at hrest
    rw [hopen]
    exact hrest
  | close =>
    obtain ⟨hopened, hrest⟩ := Bool.and_eq_true_iff.mp huse
    obtain ⟨s', hstep, hs', hopen⟩ := h.close hopened
    refine ⟨s', hstep, by simpa [ArrayOp.added] using hs', ?_⟩
    rw [hopen]
    exact hrest

theorem run {ops : List ArrayOp} (h : Holds path recordType elems s)
    (huse : usable s.array.isSome ops = true) (hsmall : ∀ op ∈ ops, op.Small)
    (hfew : size * (elems ++ appended size ops).length < 2 ^ 32) :
    ∃ s', runSteps (arrayStep path) s ops = some s' ∧
      Holds path recordType (elems ++ appended size ops) s' := by
  induction ops generalizing elems s with
  | nil => exact ⟨s, rfl, by simpa [appended] using h⟩
  | cons op ops ih =>
    have happ : appended size (op :: ops) = op.added size ++ appended size ops :=
      List.flatMap_cons
    rw [happ, ← List.append_assoc] at hfew ⊢
    have hbefore : size * elems.length < 2 ^ 32 := by
      have hle := Nat.mul_le_mul_left size
        (show elems.length ≤ (elems ++ op.added size ++ appended size ops).length by
          simp only [List.length_append]
          omega)
      omega
    obtain ⟨s₁, hstep, hs₁, huse₁⟩ := h.step huse (hsmall op (List.mem_cons_self ..)) hbefore
    obtain ⟨s', hrun, hs'⟩ := ih hs₁ huse₁
      (fun op' hmem => hsmall op' (List.mem_cons_of_mem op hmem)) hfew
    refine ⟨s', ?_, hs'⟩
    rw [runSteps, hstep]
    exact hrun

omit [DecidableEq P] in
theorem count_toNat (h : Holds path recordType elems s) (hfew : size * elems.length < 2 ^ 32) :
    ∃ hdr, Contents s.tree path hdr elems ∧ hdr.count.toNat = elems.length := by
  obtain ⟨hsize, ⟨hdr, hcontents, -, hcount, -⟩, -⟩ := h
  have hpos : 0 < size := by
    rw [← hsize]
    exact typeSize_pos _
  have hle := Nat.le_mul_of_pos_left elems.length hpos
  refine ⟨hdr, hcontents, ?_⟩
  rw [hcount, UInt32.toNat_ofNat', Nat.mod_eq_of_lt (by omega)]

/-- A read while the array is open gives the window that it asks for. -/
theorem read_window (h : Holds path recordType elems s) (hfew : size * elems.length < 2 ^ 32)
    {array : ColArray P} (harray : s.array = some array) (errno : ℕ)
    {indexStart indexStop recordSize : UInt32} (hle : indexStart ≤ indexStop)
    (hstop : indexStop.toNat * size < 2 ^ 32) (hbuf : recordSize.toNat < 2 ^ 31) :
    ∃ count array', (colArrayRead errno array indexStart indexStop recordSize).run serve s.tree =
        some ((⟨0, some count, elementBytes (window elems indexStart.toNat indexStop.toNat
          (recordSize.toNat / size))⟩, array'), s.tree) ∧
      count.toNat = (window elems indexStart.toNat indexStop.toNat
        (recordSize.toNat / size)).length := by
  obtain ⟨hsize, ⟨hdr, hcontents, htype, -, hhandle⟩, -⟩ := h
  obtain ⟨hpath, rfl⟩ := hhandle array harray
  obtain ⟨array', hrun, -⟩ := run_colArrayRead ⟨hpath, by rw [htype, hsize]⟩ hcontents errno
    indexStart indexStop recordSize hle hstop hbuf
  refine ⟨_, array', hrun, ?_⟩
  have hpos : 0 < size := by
    rw [← hsize]
    exact typeSize_pos _
  have hfit := Nat.le_mul_of_pos_left elems.length hpos
  have hlen : (window elems indexStart.toNat indexStop.toNat
      (recordSize.toNat / size)).length ≤ elems.length := by
    rw [window, List.length_drop, List.length_take]
    omega
  rw [UInt32.toNat_ofNat', Nat.mod_eq_of_lt (by omega)]

end Holds

theorem holds_created {t : FileTree P} (habs : t path = none) {info : ColArrayInfo}
    (hname : 0 ∈ info.colName.toList) (stack : Vector UInt8 32) (errno : ℕ) :
    ∃ tree, (colArrayCreate ⟨stack, .whole, errno⟩ path (some info)).run serve t =
        some (arrayHdrSize, tree) ∧
      Holds path info.recordType
        ([] : List (Vector UInt8 (colArrayGetTypeSize info.recordType).toNat))
        ⟨tree, none, []⟩ := by
  obtain ⟨length, hlength⟩ := strlen_isSome hname
  obtain ⟨f, hrun, hbytes⟩ := run_colArrayCreate stack errno habs hlength
  refine ⟨t.set path f, hrun, rfl, ⟨newHdr stack info length, ⟨f, FileTree.set_self _ _ _, ?_⟩,
    rfl, rfl, ?_⟩, ?_⟩
  · rw [hbytes, elementBytes_nil, List.append_nil]
  · intro array harray
    exact absurd harray (by simp)
  · intro ret hmem
    exact absurd hmem (List.not_mem_nil)

/-- A new array is the list of what is appended to it: the calls succeed, the
file is the list under a header that counts it, and reads give its windows. -/
theorem arrayRun_refines (t : FileTree P) (path : P) (habs : t path = none) {info : ColArrayInfo}
    (hname : 0 ∈ info.colName.toList) (stack : Vector UInt8 32) (errno : ℕ) {ops : List ArrayOp}
    (huse : usable false ops = true) (hsmall : ∀ op ∈ ops, op.Small)
    (hsize : (colArrayGetTypeSize info.recordType).toNat = size)
    (hfew : size * (appended size ops).length < 2 ^ 32) :
    ∃ s, arrayRun path t stack errno info ops = some s ∧
      (∀ ret ∈ s.rets, ret = 0) ∧
      (∃ hdr, Contents s.tree path hdr (appended size ops) ∧
        hdr.count.toNat = (appended size ops).length) ∧
      ∀ array, s.array = some array → ∀ (errno : ℕ) (indexStart indexStop recordSize : UInt32),
        indexStart ≤ indexStop → indexStop.toNat * size < 2 ^ 32 → recordSize.toNat < 2 ^ 31 →
        ∃ count array', (colArrayRead errno array indexStart indexStop recordSize).run serve
            s.tree = some ((⟨0, some count, elementBytes (window (appended size ops)
              indexStart.toNat indexStop.toNat (recordSize.toNat / size))⟩, array'), s.tree) ∧
          count.toNat = (window (appended size ops) indexStart.toNat indexStop.toNat
            (recordSize.toNat / size)).length := by
  subst hsize
  obtain ⟨tree, hcreate, hnew⟩ := holds_created habs hname stack errno
  obtain ⟨s, hrun, hs⟩ := hnew.run huse hsmall (by simpa using hfew)
  rw [List.nil_append] at hs
  refine ⟨s, ?_, hs.rets, hs.count_toNat hfew, ?_⟩
  · rw [arrayRun, hcreate]
    exact hrun
  · intro array harray errno' indexStart indexStop recordSize hle hstop hbuf
    exact hs.read_window hfew harray errno' hle hstop hbuf

/-- Five bytes make two elements of two; after a re-opening one more comes. -/
theorem arrayRun_refines_reopened :
    ∃ s array, arrayRun "first" (fun _ => none) (Vector.replicate 32 7) 0
        ⟨3, Vector.replicate 32 0⟩ [.openArray 0, .append 0 [1, 2, 3, 4, 5], .close, .openArray 0,
          .append 0 [6, 7]] = some s ∧
      s.array = some array ∧
      ∃ count array', (colArrayRead 0 array 1 9 5).run serve s.tree =
          some ((⟨0, some count, [3, 4, 6, 7]⟩, array'), s.tree) ∧ count.toNat = 2 := by
  have hopen : ((arrayRun "first" (fun _ => none) (Vector.replicate 32 7) 0
      ⟨3, Vector.replicate 32 0⟩ [.openArray 0, .append 0 [1, 2, 3, 4, 5], .close, .openArray 0,
        .append 0 [6, 7]]).bind ArraySession.array).isSome = true := by decide +kernel
  have hname : 0 ∈ (⟨3, Vector.replicate 32 0⟩ : ColArrayInfo).colName.toList := by decide
  have huse : usable false [.openArray 0, .append 0 [1, 2, 3, 4, 5], .close, .openArray 0,
      .append 0 [6, 7]] = true := rfl
  have hsize : (colArrayGetTypeSize 3).toNat = 2 := rfl
  obtain ⟨s, hrun, -, -, hread⟩ := arrayRun_refines (fun _ => none) "first" rfl hname
    (Vector.replicate 32 7) 0 huse (by simp [ArrayOp.Small]) hsize (by decide)
  rw [hrun] at hopen
  obtain ⟨array, harray⟩ := Option.isSome_iff_exists.mp hopen
  exact ⟨s, array, hrun, harray, hread array harray 0 1 9 5 (by decide) (by decide) (by decide)⟩

end SeaStore.Column
