import SeaStore.Column.Array
import SeaStore.Posix.Elements

/-!
What each call does, on any file and on one that holds a header and whole elements.
Every call sets the descriptor before it reads or writes, so nothing depends on
where the call before has left it.
-/
namespace SeaStore.Column

open Posix Block

variable {P : Type} [DecidableEq P] {t : FileTree P} {path : P} {hdr : ColArrayHdr} {size : ℕ}
  {elems : List (Vector UInt8 size)} {array : ColArray P}

/-- The file is this header and these elements. -/
def Contents (t : FileTree P) (path : P) (hdr : ColArrayHdr)
    (elems : List (Vector UInt8 size)) : Prop :=
  ∃ f, t path = some f ∧ f.bytes = hdr.bytes ++ elementBytes elems

theorem typeSize_pos (type : UInt8) : 0 < (colArrayGetTypeSize type).toNat := by
  unfold colArrayGetTypeSize
  split <;> decide

/-- The number of whole elements in a buffer, and their bytes, in 32 bits. -/
theorem toNat_wholeSize (recordSize typeSize : UInt32) :
    (recordSize / typeSize * typeSize).toNat =
      typeSize.toNat * (recordSize.toNat / typeSize.toNat) := by
  have hle : recordSize.toNat / typeSize.toNat * typeSize.toNat ≤ recordSize.toNat :=
    Nat.div_mul_le_self _ _
  have hlt := recordSize.toNat_lt
  rw [UInt32.toNat_mul, UInt32.toNat_div, Nat.mod_eq_of_lt (by omega), Nat.mul_comm]

omit [DecidableEq P] in
theorem Contents.size_eq (h : Contents t path hdr elems) :
    ∃ f, t path = some f ∧ f.bytes = hdr.bytes ++ elementBytes elems ∧
      f.size = arrayHdrSize + size * elems.length := by
  obtain ⟨f, hf, hbytes⟩ := h
  refine ⟨f, hf, hbytes, ?_⟩
  rw [File.size, hbytes, List.length_append, ColArrayHdr.bytes_length, elementBytes_length]

theorem strlen_isSome {name : Vector UInt8 32} (h : 0 ∈ name.toList) :
    ∃ length, strlen name = some length := by
  apply Option.isSome_iff_exists.mp
  rw [strlen, List.findIdx?_isSome]
  exact List.any_eq_true.mpr ⟨0, h, by decide⟩

section Create

variable {info : ColArrayInfo} {length : ℕ}

abbrev newHdr (stack : Vector UInt8 32) (info : ColArrayInfo) (length : ℕ) : ColArrayHdr where
  count := 0
  recordType := info.recordType
  colName := copyName stack info.colName length

/-- A header written whole replaces the one in front. -/
theorem hdrWrite_whole (f : File) (hdr : ColArrayHdr) :
    ∃ f', f.write 0 hdr.bytes .whole = (.ok arrayHdrSize, f') ∧
      f'.bytes = hdr.bytes ++ f.bytes.drop arrayHdrSize := by
  have hfit : hdr.bytes.length ≤ offMax := by
    rw [hdr.bytes_length]
    decide
  have hwrite : (f.write 0 hdr.bytes .whole).1 = .ok hdr.bytes.length :=
    (File.write_ok_iff f 0 hdr.bytes .whole).mpr ⟨Outcome.full_whole _, by rwa [Nat.zero_add]⟩
  have hbytes := File.write_front f hfit .whole
  rw [Outcome.reach, List.take_length] at hbytes
  rw [hdr.bytes_length] at hwrite hbytes
  exact ⟨_, Prod.ext hwrite rfl, hbytes⟩

def createWrite (t : FileTree P) (path : P) (e : ArrayCreateEnv) (info : ColArrayInfo)
    (length : ℕ) : Except ℕ ℕ × File :=
  ((t path).getD .empty).write 0 (newHdr e.stack info length).bytes e.header

/-- A creation opens the file, or makes an empty one, and writes its header over the front. -/
theorem run_colArrayCreate_any (e : ArrayCreateEnv) (hname : strlen info.colName = some length) :
    (colArrayCreate e path (some info)).run serve t =
      some (if (createWrite t path e info length).1 ≠ .ok arrayHdrSize
        then errnoAfter e.errno (createWrite t path e info length).1 else arrayHdrSize,
        t.set path (createWrite t path e info length).2) := by
  obtain ⟨result, f', hwrite⟩ : ∃ result f', createWrite t path e info length = (result, f') :=
    ⟨_, _, rfl⟩
  rw [hwrite]
  unfold colArrayCreate
  simp only []
  rw [Program.run_bind_of_run serve (run_openFile_creating t path)]
  simp only [hname]
  rw [Program.run_bind_of_run serve (Program.run_ofOption_some serve length _),
    Program.run_bind_of_run serve (run_write ⟨path, 0⟩ (FileTree.set_self _ _ _) hwrite),
    FileTree.set_set]
  by_cases hshort : result ≠ .ok arrayHdrSize
  · simp only [if_pos hshort, Program.run_pure]
  · simp only [if_neg hshort, Program.run_pure]

/-- Where there is no file, a creation makes one without elements. -/
theorem run_colArrayCreate (stack : Vector UInt8 32) (errno : ℕ) (habs : t path = none)
    (hname : strlen info.colName = some length) :
    ∃ f, (colArrayCreate ⟨stack, .whole, errno⟩ path (some info)).run serve t =
        some (arrayHdrSize, t.set path f) ∧
      f.bytes = (newHdr stack info length).bytes := by
  obtain ⟨f, hwrite, hbytes⟩ := hdrWrite_whole .empty (newHdr stack info length)
  have hcreate : createWrite t path ⟨stack, .whole, errno⟩ info length = (.ok arrayHdrSize, f) := by
    rw [createWrite, habs, Option.getD_none, hwrite]
  refine ⟨f, ?_, by simpa [File.empty] using hbytes⟩
  rw [run_colArrayCreate_any _ hname, hcreate, if_neg (by simp)]

/-- Where there is a file, a creation goes over its header and leaves the elements. -/
theorem run_colArrayCreate_over (stack : Vector UInt8 32) (errno : ℕ)
    (h : Contents t path hdr elems) (hname : strlen info.colName = some length) :
    ∃ f, (colArrayCreate ⟨stack, .whole, errno⟩ path (some info)).run serve t =
        some (arrayHdrSize, t.set path f) ∧
      f.bytes = (newHdr stack info length).bytes ++ elementBytes elems := by
  obtain ⟨f, hf, hbytes⟩ := h
  obtain ⟨f', hwrite, hbytes'⟩ := hdrWrite_whole f (newHdr stack info length)
  have hcreate : createWrite t path ⟨stack, .whole, errno⟩ info length =
      (.ok arrayHdrSize, f') := by
    rw [createWrite, hf, Option.getD_some, hwrite]
  refine ⟨f', ?_, by rw [hbytes', hbytes, List.drop_left' hdr.bytes_length]⟩
  rw [run_colArrayCreate_any _ hname, hcreate, if_neg (by simp)]

end Create

def headerOf (f : File) : ColArrayHdr := .ofBytes (slice f.bytes 0 arrayHdrSize)

/-- An opening takes the header that it finds, if there are enough bytes for one. -/
theorem run_colArrayOpen_any {f : File} (hf : t path = some f) (errno : ℕ) :
    (colArrayOpen errno path).run serve t = some (if f.size < arrayHdrSize then (errno, none)
      else (0, some ⟨⟨path, arrayHdrSize⟩, headerOf f⟩), t) := by
  have hlen : (slice f.bytes 0 arrayHdrSize).length = min arrayHdrSize f.size := by
    rw [slice_length, Nat.sub_zero, File.size]
  unfold colArrayOpen
  rw [Program.run_bind_of_run serve (run_openFile_some false hf)]
  simp only []
  rw [Program.run_bind_of_run serve (run_read ⟨path, 0⟩ arrayHdrSize hf)]
  by_cases hshort : f.size < arrayHdrSize
  · have hne : (slice f.bytes 0 arrayHdrSize).length ≠ arrayHdrSize := by omega
    rw [if_pos hne, if_pos hshort, Program.run_pure]
  · have heq : (slice f.bytes 0 arrayHdrSize).length = arrayHdrSize := by omega
    rw [if_neg (not_not.mpr heq), if_neg hshort, Program.run_pure, heq, Nat.zero_add]
    rfl

theorem run_colArrayOpen (h : Contents t path hdr elems) (errno : ℕ) :
    (colArrayOpen errno path).run serve t = some ((0, some ⟨⟨path, arrayHdrSize⟩, hdr⟩), t) := by
  obtain ⟨f, hf, hbytes, hsize⟩ := h.size_eq
  have hhdr : headerOf f = hdr := by
    rw [headerOf, hbytes, slice_append_left _ _ _ _ (by simp), slice_whole _ _ (by simp),
      ColArrayHdr.ofBytes_bytes]
  rw [run_colArrayOpen_any hf, if_neg (by omega), hhdr]

theorem run_colArrayOpen_absent (habs : t path = none) (errno : ℕ) :
    (colArrayOpen errno path).run serve t = some ((ENOENT, none), t) := by
  unfold colArrayOpen
  rw [Program.run_bind_of_run serve (run_openFile_none habs)]
  rfl

/-- The descriptor of a handle is one of the file, and its header tells the
size of the elements. -/
structure ColArray.On (array : ColArray P) (path : P) (size : ℕ) : Prop where
  path_eq : array.fd.path = path
  size_eq : (colArrayGetTypeSize array.hdr.recordType).toNat = size

def wholeSize (hdr : ColArrayHdr) (recordSize : UInt32) : ℕ :=
  (colArrayGetTypeSize hdr.recordType).toNat *
    (recordSize.toNat / (colArrayGetTypeSize hdr.recordType).toNat)

def wholePart (hdr : ColArrayHdr) (record : Bytes) (recordSize : UInt32) : Bytes :=
  record.take (wholeSize hdr recordSize)

abbrev raisedHdr (hdr : ColArrayHdr) (recordSize : UInt32) : ColArrayHdr :=
  hdr.addCount (recordSize / colArrayGetTypeSize hdr.recordType)

abbrev dataWrite (f : File) (e : ArrayAppendEnv) (whole : Bytes) : Except ℕ ℕ × File :=
  f.write f.size whole e.data

section Append

variable {f : File} {record : Bytes} {recordSize : UInt32}

theorem toNat_realSize (hdr : ColArrayHdr) (recordSize : UInt32) :
    (recordSize / colArrayGetTypeSize hdr.recordType *
      colArrayGetTypeSize hdr.recordType).toNat = wholeSize hdr recordSize :=
  toNat_wholeSize _ _

theorem wholePart_length (hdr : ColArrayHdr) (hlen : wholeSize hdr recordSize ≤ record.length) :
    (wholePart hdr record recordSize).length = wholeSize hdr recordSize :=
  List.length_take_of_le hlen

theorem ofNat_wholeSize (hdr : ColArrayHdr) (recordSize : UInt32) :
    UInt32.ofNat (wholeSize hdr recordSize) = recordSize / colArrayGetTypeSize hdr.recordType *
      colArrayGetTypeSize hdr.recordType := by
  rw [← toNat_realSize, UInt32.ofNat_toNat]

/-- A write that returns as many bytes as it was given, or so it seems: the header follows. -/
theorem run_colArrayAppend_counted (hf : t array.fd.path = some f) (e : ArrayAppendEnv)
    (hlen : wholeSize array.hdr recordSize ≤ record.length)
    (hsize : writeSize (dataWrite f e (wholePart array.hdr record recordSize)).1 =
      UInt32.ofNat (wholeSize array.hdr recordSize)) :
    ∃ fd, fd.path = array.fd.path ∧
      (colArrayAppend e array record recordSize).run serve t =
        some ((0, ⟨fd, raisedHdr array.hdr recordSize⟩), t.set array.fd.path
          ((dataWrite f e (wholePart array.hdr record recordSize)).2.write 0
            (raisedHdr array.hdr recordSize).bytes e.header).2) := by
  obtain ⟨result, f', hwrite⟩ : ∃ result f',
      dataWrite f e (wholePart array.hdr record recordSize) = (result, f') := ⟨_, _, rfl⟩
  rw [hwrite, ofNat_wholeSize] at hsize
  have htake : record.take (wholeSize array.hdr recordSize) =
      wholePart array.hdr record recordSize := rfl
  have hpath : ((⟨array.fd.path, f.size⟩ : Fd P).advance result).path = array.fd.path :=
    Fd.advance_path _ _
  refine ⟨Fd.advance ⟨array.fd.path, 0⟩
    (f'.write 0 (raisedHdr array.hdr recordSize).bytes e.header).1, Fd.advance_path _ _, ?_⟩
  unfold colArrayAppend
  simp only [toNat_realSize, htake]
  rw [if_neg (Nat.not_lt.mpr hlen), Program.run_bind_of_run serve (run_seekEnd hf)]
  simp only []
  rw [Program.run_bind_of_run serve (run_write ⟨array.fd.path, f.size⟩ hf hwrite)]
  simp only [hsize, ne_eq, not_true_eq_false, if_false, Fd.seekSet_zero, hpath]
  rw [Program.run_bind_of_run serve (run_write ⟨array.fd.path, 0⟩
    (FileTree.set_self t array.fd.path f') rfl), FileTree.set_set, hwrite]
  rfl

/-- A write that returns anything else is undone. -/
theorem run_colArrayAppend_undone (hf : t array.fd.path = some f) (e : ArrayAppendEnv)
    (hlen : wholeSize array.hdr recordSize ≤ record.length)
    (hsize : writeSize (dataWrite f e (wholePart array.hdr record recordSize)).1 ≠
      UInt32.ofNat (wholeSize array.hdr recordSize)) :
    ∃ fd, fd.path = array.fd.path ∧
      (colArrayAppend e array record recordSize).run serve t =
        some ((errnoAfter e.errno (dataWrite f e (wholePart array.hdr record recordSize)).1,
          ⟨fd, array.hdr⟩), t.set array.fd.path f) := by
  obtain ⟨result, f', hwrite⟩ : ∃ result f',
      dataWrite f e (wholePart array.hdr record recordSize) = (result, f') := ⟨_, _, rfl⟩
  rw [hwrite, ofNat_wholeSize] at hsize
  rw [hwrite]
  have hcut : f'.truncate f.size = f := by
    have hback := File.truncate_write_end f (wholePart array.hdr record recordSize) e.data
    rw [show f.write f.size _ e.data = (result, f') from hwrite] at hback
    exact hback
  have hoff : (UInt64.ofNat f.size).toNat = f.size := by
    rw [UInt64.toNat_ofNat']
    exact Nat.mod_eq_of_lt (Nat.lt_of_le_of_lt f.size_le (by decide))
  have htake : record.take (wholeSize array.hdr recordSize) =
      wholePart array.hdr record recordSize := rfl
  have hpath : ((⟨array.fd.path, f.size⟩ : Fd P).advance result).path = array.fd.path :=
    Fd.advance_path _ _
  refine ⟨_, hpath, ?_⟩
  unfold colArrayAppend
  simp only [toNat_realSize, htake]
  rw [if_neg (Nat.not_lt.mpr hlen), Program.run_bind_of_run serve (run_seekEnd hf)]
  simp only []
  rw [Program.run_bind_of_run serve (run_write ⟨array.fd.path, f.size⟩ hf hwrite)]
  simp only [hsize, ne_eq, not_false_eq_true, if_true, hoff]
  rw [Program.run_bind_of_run serve (run_truncate f.size
    (by rw [hpath]; exact FileTree.set_self t array.fd.path f')), hpath, FileTree.set_set, hcut]
  rfl

omit [DecidableEq P] in
theorem wholePart_eq (hon : array.On path size) {record : Bytes} (hlen : record.length < 2 ^ 32) :
    wholePart array.hdr record (UInt32.ofNat record.length) =
        elementBytes (wholeElements size record) ∧
      raisedHdr array.hdr (UInt32.ofNat record.length) =
        array.hdr.addCount (UInt32.ofNat (wholeElements size record).length) := by
  obtain ⟨-, rfl⟩ := hon
  have hnat : (UInt32.ofNat record.length).toNat = record.length := by
    rw [UInt32.toNat_ofNat', Nat.mod_eq_of_lt hlen]
  constructor
  · rw [wholePart, wholeSize, hnat, elementBytes_wholeElements]
  · have hcount : UInt32.ofNat record.length / colArrayGetTypeSize array.hdr.recordType =
        UInt32.ofNat (record.length / (colArrayGetTypeSize array.hdr.recordType).toNat) := by
      rw [← UInt32.toNat_inj, UInt32.toNat_div, hnat, UInt32.toNat_ofNat', Nat.mod_eq_of_lt]
      exact Nat.lt_of_le_of_lt (Nat.div_le_self _ _) hlen
    rw [raisedHdr, hcount, wholeElements, elements_length]

/-- An append puts the whole elements of the buffer behind the others, and a
header that counts them over the one in the file. -/
theorem run_colArrayAppend (hon : array.On path size) (h : Contents t path hdr elems)
    (record : Bytes) (hlen : record.length < 2 ^ 32)
    (hroom : arrayHdrSize + size * elems.length + record.length ≤ offMax) (errno : ℕ) :
    ∃ array' f, (colArrayAppend ⟨.whole, .whole, errno⟩ array record
        (UInt32.ofNat record.length)).run serve t = some ((0, array'), t.set path f) ∧
      array'.fd.path = path ∧
      array'.hdr = array.hdr.addCount (UInt32.ofNat (wholeElements size record).length) ∧
      f.bytes = array'.hdr.bytes ++ elementBytes (elems ++ wholeElements size record) := by
  obtain ⟨f, hf, hbytes, hsize⟩ := h.size_eq
  obtain ⟨hwhole, hraised⟩ := wholePart_eq hon hlen
  have hpath := hon.path_eq
  have hfit : wholeSize array.hdr (UInt32.ofNat record.length) ≤ record.length := by
    have hle := Nat.mul_div_le (UInt32.ofNat record.length).toNat
      (colArrayGetTypeSize array.hdr.recordType).toNat
    have hmod := Nat.mod_le record.length (2 ^ 32)
    rw [UInt32.toNat_ofNat'] at hle
    rw [wholeSize, UInt32.toNat_ofNat']
    omega
  have hpart := wholePart_length array.hdr hfit
  have hwrite : (f.write f.size (wholePart array.hdr record (UInt32.ofNat record.length))
      .whole).1 = .ok (wholePart array.hdr record (UInt32.ofNat record.length)).length := by
    apply (File.write_ok_iff _ _ _ _).mpr
    refine ⟨Outcome.full_whole _, ?_⟩
    rw [hsize, hpart]
    omega
  have hdata := File.write_ok_bytes hwrite
  obtain ⟨fd, hfd, hrun⟩ := run_colArrayAppend_counted (by rw [hpath]; exact hf)
    ⟨.whole, .whole, errno⟩ hfit (by rw [hwrite, writeSize, hpart])
  obtain ⟨f', hhdr, hbytes'⟩ := hdrWrite_whole (f.write f.size (wholePart array.hdr record
    (UInt32.ofNat record.length)) .whole).2 (raisedHdr array.hdr (UInt32.ofNat record.length))
  refine ⟨⟨fd, raisedHdr array.hdr (UInt32.ofNat record.length)⟩, f', ?_, hfd.trans hpath,
    hraised, ?_⟩
  · rw [hrun, hpath, hhdr]
  · rw [hbytes', hdata, File.size, overlay_end, hbytes, hwhole, List.append_assoc,
      List.drop_left' hdr.bytes_length, elementBytes_append]

end Append

section Read

theorem typeSize_dvd (type : UInt8) : (colArrayGetTypeSize type).toNat ∣ 2 ^ 32 := by
  unfold colArrayGetTypeSize
  split <;> decide

theorem toNat_smaller (buf count : UInt32) :
    (if buf > count then count else buf).toNat = min buf.toNat count.toNat := by
  split
  case isTrue h =>
    rw [gt_iff_lt, UInt32.lt_iff_toNat_lt] at h
    omega
  case isFalse h =>
    rw [gt_iff_lt, UInt32.lt_iff_toNat_lt] at h
    omega

omit [DecidableEq P] in
/-- Where a read goes, with the product cut to 32 bits. -/
theorem seekSet_position (fd : Fd P) (indexStart typeSize : UInt32) :
    fd.seekSet ((indexStart * typeSize).toUInt64 + UInt64.ofNat arrayHdrSize) =
      ⟨fd.path, arrayHdrSize + indexStart.toNat * typeSize.toNat % 2 ^ 32⟩ := by
  have hoffset : ((indexStart * typeSize).toUInt64 + UInt64.ofNat arrayHdrSize).toNat =
      arrayHdrSize + indexStart.toNat * typeSize.toNat % 2 ^ 32 := by
    rw [UInt64.toNat_add, UInt32.toNat_toUInt64, UInt32.toNat_mul, UInt64.toNat_ofNat']
    simp only [arrayHdrSize]
    omega
  rw [Fd.seekSet_of_le, hoffset]
  rw [hoffset]
  simp only [arrayHdrSize, offMax]
  omega

def readResult (errno : ℕ) (typeSize : UInt32) (record : Bytes) : ArrayReadResult :=
  if Int32.ofNat record.length < 0 then ⟨errno, none, record⟩
  else ⟨0, some ((Int32.ofNat record.length).toUInt32 / typeSize), record⟩

@[simp] theorem readResult_record (errno : ℕ) (typeSize : UInt32) (record : Bytes) :
    (readResult errno typeSize record).record = record := by
  rw [readResult]
  split
  · rfl
  · rfl

/-- A read of any window gets a slice, and leaves the file and the header in memory alone. -/
theorem run_colArrayRead_any {f : File} (hf : t array.fd.path = some f) (errno : ℕ)
    (indexStart indexStop recordSize : UInt32) :
    let typeSize := colArrayGetTypeSize array.hdr.recordType
    ∃ array', (colArrayRead errno array indexStart indexStop recordSize).run serve t =
        some ((readResult errno typeSize (slice f.bytes
          (arrayHdrSize + indexStart.toNat * typeSize.toNat % 2 ^ 32)
          (min (recordSize / typeSize * typeSize).toNat
            ((indexStop - indexStart) * typeSize).toNat)), array'), t) ∧
      array'.fd.path = array.fd.path ∧ array'.hdr = array.hdr := by
  intro typeSize
  unfold colArrayRead
  simp only [seekSet_position, toNat_smaller]
  rw [Program.run_bind_of_run serve (run_read
    ⟨array.fd.path, arrayHdrSize + indexStart.toNat * typeSize.toNat % 2 ^ 32⟩ _ hf), readResult]
  split
  · exact ⟨_, rfl, rfl, rfl⟩
  · exact ⟨_, rfl, rfl, rfl⟩

/-- The elements from `start` on, up to `stop` and no more than `room`. -/
def window (elems : List (Vector UInt8 size)) (start stop room : ℕ) : List (Vector UInt8 size) :=
  (elems.take (min stop (start + room))).drop start

theorem window_eq (elems : List (Vector UInt8 size)) {start stop : ℕ} (h : start ≤ stop)
    (room : ℕ) :
    window elems start stop room = (elems.drop start).take (min (stop - start) room) := by
  have hmin : min stop (start + room) - start = min (stop - start) room := by omega
  rw [window, List.drop_take, hmin]

/-- The elements that a read gets: 32 bits cut the start and the number to whole elements. -/
def readElements (elems : List (Vector UInt8 size)) (indexStart indexStop recordSize : UInt32) :
    List (Vector UInt8 size) :=
  (elems.drop (indexStart.toNat % (2 ^ 32 / size))).take
    (min (recordSize.toNat / size) ((indexStop - indexStart).toNat % (2 ^ 32 / size)))

theorem run_colArrayRead_elements {f : File} (hon : array.On path size) (hf : t path = some f)
    (helems : f.bytes.drop arrayHdrSize = elementBytes elems) (errno : ℕ)
    (indexStart indexStop recordSize : UInt32) :
    ∃ array', (colArrayRead errno array indexStart indexStop recordSize).run serve t =
        some ((readResult errno (colArrayGetTypeSize array.hdr.recordType)
          (elementBytes (readElements elems indexStart indexStop recordSize)), array'), t) ∧
      array'.On path size := by
  obtain ⟨rfl, rfl⟩ := hon
  have hwhole : ∀ count : ℕ, count * (colArrayGetTypeSize array.hdr.recordType).toNat % 2 ^ 32 =
      (colArrayGetTypeSize array.hdr.recordType).toNat *
        (count % (2 ^ 32 / (colArrayGetTypeSize array.hdr.recordType).toNat)) := by
    intro count
    rw [Nat.mul_comm, ← Nat.mul_mod_mul_left, Nat.mul_div_cancel' (typeSize_dvd _)]
  obtain ⟨array', hrun, hpath, hhdr⟩ :=
    run_colArrayRead_any hf errno indexStart indexStop recordSize
  refine ⟨array', ?_, hpath, by rw [hhdr]⟩
  rw [hrun, toNat_wholeSize, UInt32.toNat_mul, hwhole, hwhole, Nat.mul_min_mul_left, slice,
    ← List.drop_drop, helems]
  congr 4
  exact slice_elementBytes _ _ _

theorem toNat_readCount {typeSize : UInt32} (hsize : typeSize.toNat = size) (hpos : 0 < size)
    {got : List (Vector UInt8 size)} (hlt : size * got.length < 2 ^ 32) :
    (Int32.ofNat (elementBytes got).length).toUInt32 / typeSize = UInt32.ofNat got.length := by
  subst hsize
  have hle : got.length ≤ typeSize.toNat * got.length := Nat.le_mul_of_pos_left _ hpos
  have hword : (Int32.ofNat (typeSize.toNat * got.length)).toUInt32 =
      UInt32.ofNat (typeSize.toNat * got.length) := rfl
  apply UInt32.toNat_inj.mp
  rw [elementBytes_length, hword, UInt32.toNat_div, UInt32.toNat_ofNat', UInt32.toNat_ofNat',
    Nat.mod_eq_of_lt (by omega), Nat.mod_eq_of_lt (by omega), Nat.mul_div_cancel_left _ hpos]

/-- A count is only reported where it is that of the elements. -/
theorem readResult_count {errno : ℕ} {typeSize : UInt32} (hsize : typeSize.toNat = size)
    (hpos : 0 < size) {got : List (Vector UInt8 size)} (hlt : size * got.length < 2 ^ 32)
    {count : UInt32}
    (hcount : (readResult errno typeSize (elementBytes got)).realRecordCount = some count) :
    count.toNat = got.length := by
  have hle : got.length ≤ size * got.length := Nat.le_mul_of_pos_left _ hpos
  rw [readResult, toNat_readCount hsize hpos hlt] at hcount
  split at hcount
  · exact absurd hcount (by simp)
  · rw [← Option.some.inj hcount, UInt32.toNat_ofNat']
    exact Nat.mod_eq_of_lt (by omega)

/-- As far as `int` goes, what is read comes with its count. -/
theorem readResult_elements (errno : ℕ) {typeSize : UInt32} (hsize : typeSize.toNat = size)
    (hpos : 0 < size) {got : List (Vector UInt8 size)} (hlt : size * got.length < 2 ^ 31) :
    readResult errno typeSize (elementBytes got) =
      ⟨0, some (UInt32.ofNat got.length), elementBytes got⟩ := by
  have hsign : ¬ Int32.ofNat (elementBytes got).length < 0 := by
    rw [elementBytes_length, Int32.lt_iff_toInt_lt, Int32.toInt_ofNat_of_lt hlt, Int32.toInt_zero]
    exact Int.not_lt.mpr (Int.natCast_nonneg _)
  rw [readResult, if_neg hsign, toNat_readCount hsize hpos (by omega)]

theorem readElements_length_le (elems : List (Vector UInt8 size))
    (indexStart indexStop recordSize : UInt32) :
    size * (readElements elems indexStart indexStop recordSize).length ≤ recordSize.toNat := by
  have hlen : (readElements elems indexStart indexStop recordSize).length ≤
      recordSize.toNat / size := by
    rw [readElements, List.length_take]
    omega
  exact Nat.le_trans (Nat.mul_le_mul_left size hlen) (Nat.mul_div_le _ _)

/-- A read into a buffer of less than 2 GiB gives its elements and their number. -/
theorem run_colArrayRead_small {f : File} (hon : array.On path size) (hf : t path = some f)
    (helems : f.bytes.drop arrayHdrSize = elementBytes elems) (errno : ℕ)
    (indexStart indexStop recordSize : UInt32) (hbuf : recordSize.toNat < 2 ^ 31) :
    let got := readElements elems indexStart indexStop recordSize
    ∃ array', (colArrayRead errno array indexStart indexStop recordSize).run serve t =
        some ((⟨0, some (UInt32.ofNat got.length), elementBytes got⟩, array'), t) ∧
      array'.On path size := by
  intro got
  obtain ⟨array', hrun, hon'⟩ :=
    run_colArrayRead_elements hon hf helems errno indexStart indexStop recordSize
  have hpos : 0 < size := by
    rw [← hon.size_eq]
    exact typeSize_pos _
  have hlt : size * got.length < 2 ^ 31 :=
    Nat.lt_of_le_of_lt (readElements_length_le _ _ _ _) hbuf
  rw [readResult_elements errno hon.size_eq hpos hlt] at hrun
  exact ⟨array', hrun, hon'⟩

/-- Where neither the start nor the number of elements is cut, it is the window. -/
theorem readElements_eq_window {indexStart indexStop recordSize : UInt32}
    (hle : indexStart ≤ indexStop) (hstart : indexStart.toNat < 2 ^ 32 / size)
    (hcount : min (recordSize.toNat / size)
        ((indexStop.toNat - indexStart.toNat) % (2 ^ 32 / size)) =
      min (indexStop.toNat - indexStart.toNat) (recordSize.toNat / size)) :
    readElements elems indexStart indexStop recordSize =
      window elems indexStart.toNat indexStop.toNat (recordSize.toNat / size) := by
  rw [readElements, UInt32.toNat_sub_of_le _ _ hle, hcount, Nat.mod_eq_of_lt hstart,
    window_eq _ (UInt32.le_iff_toNat_le.mp hle)]

omit [DecidableEq P] in
theorem Contents.elements (h : Contents t path hdr elems) :
    ∃ f, t path = some f ∧ f.bytes.drop arrayHdrSize = elementBytes elems := by
  obtain ⟨f, hf, hbytes⟩ := h
  exact ⟨f, hf, by rw [hbytes, List.drop_left' hdr.bytes_length]⟩

/-- A read of a window that lies in 32 bits gives its elements. -/
theorem run_colArrayRead (hon : array.On path size) (h : Contents t path hdr elems) (errno : ℕ)
    (indexStart indexStop recordSize : UInt32) (hle : indexStart ≤ indexStop)
    (hstop : indexStop.toNat * size < 2 ^ 32) (hbuf : recordSize.toNat < 2 ^ 31) :
    ∃ array', (colArrayRead errno array indexStart indexStop recordSize).run serve t =
        some ((⟨0, some (UInt32.ofNat (window elems indexStart.toNat indexStop.toNat
            (recordSize.toNat / size)).length),
          elementBytes (window elems indexStart.toNat indexStop.toNat
            (recordSize.toNat / size))⟩, array'), t) ∧ array'.On path size := by
  obtain ⟨f, hf, helems⟩ := h.elements
  have hpos : 0 < size := by
    rw [← hon.size_eq]
    exact typeSize_pos _
  have hle' := UInt32.le_iff_toNat_le.mp hle
  have hlt : indexStop.toNat < 2 ^ 32 / size := by
    have hdvd : size ∣ 2 ^ 32 := hon.size_eq ▸ typeSize_dvd _
    rw [← Nat.div_mul_cancel hdvd] at hstop
    exact Nat.lt_of_mul_lt_mul_right hstop
  have hwindow : readElements elems indexStart indexStop recordSize =
      window elems indexStart.toNat indexStop.toNat (recordSize.toNat / size) := by
    apply readElements_eq_window hle (by omega)
    rw [Nat.mod_eq_of_lt (by omega)]
    exact Nat.min_comm _ _
  rw [← hwindow]
  exact run_colArrayRead_small hon hf helems errno indexStart indexStop recordSize hbuf

end Read

end SeaStore.Column
