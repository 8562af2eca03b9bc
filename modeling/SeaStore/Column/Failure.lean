import SeaStore.Column.Calls
import SeaStore.Posix.Run

/-!
Appends whose writes may fail or fall short. After a short write the return code
is the error number from before the call, so that zero may come back for an append
that has added nothing; and the result of the header write is not looked at, so
that the count on disk may be any mixture of the old one and the handle's.
-/
namespace SeaStore.Column

open Posix Block

inductive ArrayCall
  | create (e : ArrayCreateEnv) (info : Option ColArrayInfo)
  | openArray (errno : ℕ)
  | append (handle : ℕ) (e : ArrayAppendEnv) (record : Bytes) (recordSize : UInt32)
  | read (handle : ℕ) (errno : ℕ) (indexStart indexStop recordSize : UInt32)
  | close (handle : ℕ)

/-- The files, and the handles on the array that are open. -/
structure OpenArrays (P : Type) where
  tree : FileTree P
  arrays : List (ColArray P)

variable {P : Type} [DecidableEq P] (path : P)

def callStep (s : OpenArrays P) : ArrayCall → Option (OpenArrays P)
  | .create e info => do
    let (_, tree) ← (colArrayCreate e path info).run serve s.tree
    return { s with tree := tree }
  | .openArray errno => do
    let ((_, array), tree) ← (colArrayOpen errno path).run serve s.tree
    return ⟨tree, s.arrays ++ array.toList⟩
  | .append handle e record recordSize => do
    let array ← s.arrays[handle]?
    let ((_, array), tree) ← (colArrayAppend e array record recordSize).run serve s.tree
    return ⟨tree, s.arrays.set handle array⟩
  | .read handle errno indexStart indexStop recordSize => do
    let array ← s.arrays[handle]?
    let ((_, array), tree) ← (colArrayRead errno array indexStart indexStop
      recordSize).run serve s.tree
    return ⟨tree, s.arrays.set handle array⟩
  | .close handle => do
    let array ← s.arrays[handle]?
    let ((), tree) ← (colArrayClose array).run serve s.tree
    return ⟨tree, s.arrays.eraseIdx handle⟩

def area (f : File) : Bytes := f.bytes.drop arrayHdrSize

/-- A header counts the elements of a file of this size. -/
def ColArrayHdr.Counts (hdr : ColArrayHdr) (size : ℕ) : Prop :=
  size = arrayHdrSize + (colArrayGetTypeSize hdr.recordType).toNat * hdr.count.toNat

/-- What the header becomes by a write that lets so many bytes through. -/
def headerLeft (f : File) (hdr : ColArrayHdr) (reach : ℕ) : ColArrayHdr :=
  .ofBytes (hdr.bytes.take reach ++ slice f.bytes reach (arrayHdrSize - reach))

/-- An append is all or nothing and says which: it returns zero exactly when the
whole elements of the buffer have been added, with a header on disk that counts
them, and otherwise has left the file as it was. -/
def AppendRight (t : FileTree P) (array : ColArray P) (e : ArrayAppendEnv) (record : Bytes)
    (recordSize : UInt32) : Prop :=
  ∃ f ret array' t' f', t array.fd.path = some f ∧
    (colArrayAppend e array record recordSize).run serve t = some ((ret, array'), t') ∧
    t' array.fd.path = some f' ∧
    (ret = 0 ↔ area f' = area f ++ wholePart array.hdr record recordSize) ∧
    (ret = 0 → (headerOf f').Counts f'.size) ∧ (ret ≠ 0 → f' = f)

/-- Either the elements are written and the header write leaves a header that counts
them; or they are not, `errno` then says so, and the write has not failed on a
buffer of as many bytes as `-1` is as an unsigned number. -/
def AppendFits (f : File) (array : ColArray P) (e : ArrayAppendEnv) (record : Bytes)
    (recordSize : UInt32) : Prop :=
  let result := (dataWrite f e (wholePart array.hdr record recordSize)).1
  if result = .ok (wholeSize array.hdr recordSize) then
    (headerLeft f (raisedHdr array.hdr recordSize) (e.header.reach arrayHdrSize)).Counts
      (f.size + wholeSize array.hdr recordSize)
  else errnoAfter e.errno result ≠ 0 ∧
    (result.isOk = true ∨ wholeSize array.hdr recordSize ≠ 2 ^ 32 - 1)

instance (hdr : ColArrayHdr) (size : ℕ) : Decidable (hdr.Counts size) :=
  inferInstanceAs (Decidable (_ = _))

instance (f : File) (array : ColArray P) (e : ArrayAppendEnv) (record : Bytes)
    (recordSize : UInt32) : Decidable (AppendFits f array e record recordSize) := by
  unfold AppendFits
  infer_instance

section Header

variable {f : File}

theorem area_hdrWrite (f : File) (hdr : ColArrayHdr) (o : Outcome) :
    area (f.write 0 hdr.bytes o).2 = area f := by
  have hreach := o.reach_le arrayHdrSize
  have htake : (hdr.bytes.take (o.reach arrayHdrSize)).length = o.reach arrayHdrSize := by
    rw [List.length_take_of_le]
    rwa [hdr.bytes_length]
  rw [area, File.write_front f (by rw [hdr.bytes_length]; decide), hdr.bytes_length,
    List.drop_append, htake, List.drop_eq_nil_of_le (by rwa [htake]), List.nil_append,
    List.drop_drop, Nat.add_sub_cancel' hreach, area]

theorem headerOf_hdrWrite (hfull : arrayHdrSize ≤ f.size) (hdr : ColArrayHdr) (o : Outcome) :
    (f.write 0 hdr.bytes o).2.size = f.size ∧
      headerOf (f.write 0 hdr.bytes o).2 = headerLeft f hdr (o.reach arrayHdrSize) := by
  have hfit : hdr.bytes.length ≤ offMax := by
    rw [hdr.bytes_length]
    decide
  have hbytes := File.write_front f hfit o
  have hreach := o.reach_le arrayHdrSize
  rw [hdr.bytes_length] at hbytes
  generalize o.reach arrayHdrSize = k at hbytes hreach
  have htake : (hdr.bytes.take k).length = k := by
    rw [List.length_take_of_le]
    rwa [hdr.bytes_length]
  constructor
  · have hsize : f.bytes.length = f.size := rfl
    rw [File.size, hbytes, List.length_append, htake, List.length_drop]
    omega
  · have hfront : (hdr.bytes.take k ++ f.bytes.drop k).take arrayHdrSize =
        hdr.bytes.take k ++ slice f.bytes k (arrayHdrSize - k) := by
      rw [List.take_append, htake, List.take_of_length_le (by rwa [htake]), slice]
    rw [headerOf, hbytes, slice, List.drop_zero, hfront, headerLeft]

/-- The front of a file is where it was when the file has grown. -/
theorem area_grown {f' : File} {more : Bytes} (hfull : arrayHdrSize ≤ f.size)
    (hgrown : f'.bytes = f.bytes ++ more) :
    area f' = area f ++ more ∧ f'.size = f.size + more.length ∧
      ∀ hdr k, k ≤ arrayHdrSize → headerLeft f' hdr k = headerLeft f hdr k := by
  refine ⟨?_, ?_, ?_⟩
  · rw [area, hgrown, List.drop_append_of_le_length hfull, area]
  · rw [File.size, hgrown, List.length_append, File.size]
  · intro hdr k hk
    have hsize : f.bytes.length = f.size := rfl
    rw [headerLeft, hgrown, slice_append_left _ _ _ _ (by omega), headerLeft]

end Header

section Append

variable {t : FileTree P} {f : File} {array : ColArray P} {record : Bytes} {recordSize : UInt32}

/-- One run decides. -/
theorem appendRight_iff_of_run {e : ArrayAppendEnv} {ret : ℕ} {array' : ColArray P}
    {t' : FileTree P} {f' : File} (hf : t array.fd.path = some f)
    (hrun : (colArrayAppend e array record recordSize).run serve t = some ((ret, array'), t'))
    (hf' : t' array.fd.path = some f') :
    AppendRight t array e record recordSize ↔
      (ret = 0 ↔ area f' = area f ++ wholePart array.hdr record recordSize) ∧
        (ret = 0 → (headerOf f').Counts f'.size) ∧ (ret ≠ 0 → f' = f) := by
  constructor
  · rintro ⟨g, ret₁, array₁, t₁, g', hg, hrun₁, hg', hright⟩
    rw [hrun] at hrun₁
    obtain ⟨⟨rfl, rfl⟩, rfl⟩ := Prod.mk.inj (Option.some.inj hrun₁) |>.imp_left Prod.mk.inj
    obtain rfl := Option.some.inj (hf.symm.trans hg)
    obtain rfl := Option.some.inj (hf'.symm.trans hg')
    exact hright
  · exact fun hright => ⟨f, ret, array', t', f', hf, hrun, hf', hright⟩

theorem wholeSize_pos (hdr : ColArrayHdr) (hone : colArrayGetTypeSize hdr.recordType ≤ recordSize) :
    0 < wholeSize hdr recordSize :=
  Nat.mul_pos (typeSize_pos _) (Nat.div_pos (UInt32.le_iff_toNat_le.mp hone) (typeSize_pos _))

theorem wholeSize_lt (hdr : ColArrayHdr) (recordSize : UInt32) :
    wholeSize hdr recordSize < 2 ^ 32 :=
  Nat.lt_of_le_of_lt (Nat.mul_div_le _ _) recordSize.toNat_lt

/-- What a write returns tells its count, but for `-1`. -/
theorem writeSize_eq_iff {result : Except ℕ ℕ} {size : ℕ} (hlt : size < 2 ^ 32)
    (hle : ∀ count, result = .ok count → count ≤ size) :
    writeSize result = UInt32.ofNat size ↔
      result = .ok size ∨ (∃ errno, result = .error errno) ∧ size = 2 ^ 32 - 1 := by
  rw [← UInt32.toNat_inj, UInt32.toNat_ofNat', Nat.mod_eq_of_lt hlt]
  cases result with
  | error errno =>
    have hminus : (writeSize (.error errno)).toNat = 2 ^ 32 - 1 := rfl
    rw [hminus]
    simp [eq_comm]
  | ok count =>
    have hcount : (writeSize (.ok count)).toNat = count := by
      rw [writeSize, UInt32.toNat_ofNat']
      exact Nat.mod_eq_of_lt (Nat.lt_of_le_of_lt (hle count rfl) hlt)
    rw [hcount]
    simp

/-- An append that is undone says so just if the error number is not zero. -/
theorem appendRight_iff_of_undone {e : ArrayAppendEnv} (hf : t array.fd.path = some f)
    (hlen : wholeSize array.hdr recordSize ≤ record.length)
    (hone : colArrayGetTypeSize array.hdr.recordType ≤ recordSize)
    (hsize : writeSize (dataWrite f e (wholePart array.hdr record recordSize)).1 ≠
      UInt32.ofNat (wholeSize array.hdr recordSize)) :
    AppendRight t array e record recordSize ↔
      errnoAfter e.errno (dataWrite f e (wholePart array.hdr record recordSize)).1 ≠ 0 := by
  obtain ⟨fd, -, hrun⟩ := run_colArrayAppend_undone hf e hlen hsize
  have hne : area f ≠ area f ++ wholePart array.hdr record recordSize := by
    intro heq
    have hpos := wholeSize_pos array.hdr hone
    have hlength := congrArg List.length heq
    rw [List.length_append, wholePart_length array.hdr hlen] at hlength
    omega
  rw [appendRight_iff_of_run hf hrun (FileTree.set_self t array.fd.path f)]
  constructor
  · exact fun hright hzero => hne (hright.1.mp hzero)
  · exact fun hnonzero => ⟨iff_of_false hnonzero hne, fun hzero => absurd hzero hnonzero,
      fun _ => rfl⟩

/-- On a file with a header, an append is right exactly where it fits. -/
theorem appendRight_iff_fits (hf : t array.fd.path = some f) (hfull : arrayHdrSize ≤ f.size)
    (e : ArrayAppendEnv) (hlen : wholeSize array.hdr recordSize ≤ record.length)
    (hone : colArrayGetTypeSize array.hdr.recordType ≤ recordSize) :
    AppendRight t array e record recordSize ↔ AppendFits f array e record recordSize := by
  have hwhole := wholePart_length array.hdr hlen
  have hpos := wholeSize_pos array.hdr hone
  have hundone := appendRight_iff_of_undone (e := e) hf hlen hone
  have hcounted := run_colArrayAppend_counted hf e hlen
  obtain ⟨result, f₁, hwrite⟩ : ∃ result f₁,
      dataWrite f e (wholePart array.hdr record recordSize) = (result, f₁) := ⟨_, _, rfl⟩
  have hfst : (f.write f.size (wholePart array.hdr record recordSize) e.data).1 = result :=
    congrArg Prod.fst hwrite
  have hsnd : (f.write f.size (wholePart array.hdr record recordSize) e.data).2 = f₁ :=
    congrArg Prod.snd hwrite
  have hle : ∀ count, result = .ok count → count ≤ wholeSize array.hdr recordSize := by
    intro count hcount
    rw [← hwhole]
    exact (File.write_count (hfst.trans hcount)).1
  have hsize := writeSize_eq_iff (wholeSize_lt array.hdr recordSize) hle
  rw [AppendFits]
  simp only [hwrite, ne_eq, hsize] at hundone hcounted ⊢
  cases result with
  | error errno =>
    have hsame : f₁ = f := by rw [← hsnd, File.write_error hfst]
    by_cases hminus : wholeSize array.hdr recordSize = 2 ^ 32 - 1
    · -- `-1` is taken for the count, and zero comes back for nothing
      obtain ⟨fd, -, hrun⟩ := hcounted (Or.inr ⟨⟨errno, rfl⟩, hminus⟩)
      have hne : wholePart array.hdr record recordSize ≠ [] :=
        List.ne_nil_of_length_pos (hwhole ▸ hpos)
      rw [appendRight_iff_of_run hf hrun (FileTree.set_self _ _ _), hsame,
        area_hdrWrite]
      simp [hminus, hne, Except.isOk, Except.toBool]
    · have hother : ¬ (Except.error errno = Except.ok (wholeSize array.hdr recordSize) ∨
          (∃ number, (Except.error errno : Except ℕ ℕ) = .error number) ∧
            wholeSize array.hdr recordSize = 2 ^ 32 - 1) := by
        rintro (hok | ⟨-, heq⟩)
        · exact absurd hok (by simp)
        · exact hminus heq
      rw [if_neg (by simp)]
      exact (hundone hother).trans ⟨fun hnonzero => ⟨hnonzero, Or.inr hminus⟩, And.left⟩
  | ok count =>
    by_cases hall : count = wholeSize array.hdr recordSize
    · subst hall
      obtain ⟨fd, -, hrun⟩ := hcounted (Or.inl rfl)
      have hbytes := (File.write_count hfst).2
      rw [hsnd, ← hwhole, List.take_length, File.size, overlay_end] at hbytes
      obtain ⟨harea, hgrown, hleft⟩ := area_grown hfull hbytes
      obtain ⟨hgrown', hleft'⟩ := headerOf_hdrWrite (f := f₁) (by omega)
        (raisedHdr array.hdr recordSize) e.header
      rw [appendRight_iff_of_run hf hrun (FileTree.set_self _ _ _), area_hdrWrite, harea, hleft',
        hgrown', hgrown, hleft _ _ (e.header.reach_le _), hwhole]
      simp
    · rw [if_neg (by simpa using hall)]
      exact (hundone (by simp [hall])).trans ⟨fun hnonzero => ⟨hnonzero, Or.inl rfl⟩, And.left⟩

end Append

section Calls

variable {path} {t t' : FileTree P} {f : File}

/-- A creation writes a header over the front of the file, as far as it gets. -/
theorem colArrayCreate_writes {e : ArrayCreateEnv} {info : ColArrayInfo} {ret : ℕ}
    (hrun : (colArrayCreate e path (some info)).run serve t = some (ret, t')) :
    ∃ hdr : ColArrayHdr,
      t' = t.set path (((t path).getD .empty).write 0 hdr.bytes e.header).2 := by
  cases hname : strlen info.colName with
  | none =>
    unfold colArrayCreate at hrun
    simp only [] at hrun
    rw [Program.run_bind_of_run serve (run_openFile_creating t path)] at hrun
    simp [hname] at hrun
  | some length =>
    refine ⟨newHdr e.stack info length, ?_⟩
    rw [run_colArrayCreate_any e hname] at hrun
    exact (congrArg Prod.snd (Option.some.inj hrun)).symm

theorem colArrayOpen_opens {errno ret : ℕ} {opened : Option (ColArray P)}
    (hrun : (colArrayOpen errno path).run serve t = some ((ret, opened), t')) :
    t' = t ∧ ∀ array, opened = some array →
      array.fd.path = path ∧ ∃ f, t path = some f ∧ arrayHdrSize ≤ f.size := by
  cases hf : t path with
  | none =>
    rw [run_colArrayOpen_absent hf] at hrun
    obtain ⟨hpair, rfl⟩ := Prod.mk.inj (Option.some.inj hrun)
    obtain ⟨-, rfl⟩ := Prod.mk.inj hpair
    exact ⟨rfl, fun array harray => absurd harray (by simp)⟩
  | some f =>
    rw [run_colArrayOpen_any hf] at hrun
    obtain ⟨hpair, rfl⟩ := Prod.mk.inj (Option.some.inj hrun)
    refine ⟨rfl, ?_⟩
    rintro array rfl
    by_cases hshort : f.size < arrayHdrSize
    · rw [if_pos hshort] at hpair
      exact absurd (Prod.mk.inj hpair).2 (by simp)
    · rw [if_neg hshort] at hpair
      obtain rfl := Option.some.inj (Prod.mk.inj hpair).2
      exact ⟨rfl, f, rfl, Nat.not_lt.mp hshort⟩

section Append

variable {array array' : ColArray P} {e : ArrayAppendEnv} {record : Bytes} {recordSize : UInt32}
  {ret : ℕ}

/-- An append that ends has either gone on to the header or been undone. -/
theorem colArrayAppend_cases (hf : t array.fd.path = some f)
    (hrun : (colArrayAppend e array record recordSize).run serve t = some ((ret, array'), t')) :
    wholeSize array.hdr recordSize ≤ record.length ∧ array'.fd.path = array.fd.path ∧
      ((writeSize (dataWrite f e (wholePart array.hdr record recordSize)).1 =
          UInt32.ofNat (wholeSize array.hdr recordSize) ∧
        array'.hdr = raisedHdr array.hdr recordSize ∧ t' = t.set array.fd.path
          ((dataWrite f e (wholePart array.hdr record recordSize)).2.write 0
            (raisedHdr array.hdr recordSize).bytes e.header).2) ∨
      (writeSize (dataWrite f e (wholePart array.hdr record recordSize)).1 ≠
          UInt32.ofNat (wholeSize array.hdr recordSize) ∧
        array'.hdr = array.hdr ∧ t' = t.set array.fd.path f)) := by
  have hlen : wholeSize array.hdr recordSize ≤ record.length := by
    by_contra hshort
    unfold colArrayAppend at hrun
    simp only [toNat_realSize] at hrun
    rw [if_pos (Nat.not_le.mp hshort)] at hrun
    simp at hrun
  refine ⟨hlen, ?_⟩
  by_cases hsize : writeSize (dataWrite f e (wholePart array.hdr record recordSize)).1 =
      UInt32.ofNat (wholeSize array.hdr recordSize)
  · obtain ⟨fd, hfd, hrun'⟩ := run_colArrayAppend_counted hf e hlen hsize
    rw [hrun] at hrun'
    obtain ⟨hpair, rfl⟩ := Prod.mk.inj (Option.some.inj hrun')
    obtain ⟨-, rfl⟩ := Prod.mk.inj hpair
    exact ⟨hfd, Or.inl ⟨hsize, rfl, rfl⟩⟩
  · obtain ⟨fd, hfd, hrun'⟩ := run_colArrayAppend_undone hf e hlen hsize
    rw [hrun] at hrun'
    obtain ⟨hpair, rfl⟩ := Prod.mk.inj (Option.some.inj hrun')
    obtain ⟨-, rfl⟩ := Prod.mk.inj hpair
    exact ⟨hfd, Or.inr ⟨hsize, rfl, rfl⟩⟩

/-- Whatever its outcomes, an append keeps the path of its handle, and the file is
not shorter afterwards. -/
theorem colArrayAppend_grows (hf : t array.fd.path = some f)
    (hrun : (colArrayAppend e array record recordSize).run serve t = some ((ret, array'), t')) :
    array'.fd.path = array.fd.path ∧ ∃ f', t' array.fd.path = some f' ∧ f.size ≤ f'.size := by
  obtain ⟨-, hpath, ⟨-, -, rfl⟩ | ⟨-, -, rfl⟩⟩ := colArrayAppend_cases hf hrun
  · exact ⟨hpath, _, FileTree.set_self _ _ _, Nat.le_trans (File.size_le_write _ _ _ _)
      (File.size_le_write _ _ _ _)⟩
  · exact ⟨hpath, f, FileTree.set_self _ _ _, Nat.le_refl _⟩

/-- It adds the whole elements of the buffer if they all get through, and nothing otherwise. -/
theorem colArrayAppend_adds (hf : t array.fd.path = some f) (hfull : arrayHdrSize ≤ f.size)
    (hrun : (colArrayAppend e array record recordSize).run serve t = some ((ret, array'), t')) :
    array'.hdr.recordType = array.hdr.recordType ∧ ∃ f', t' array.fd.path = some f' ∧
      area f' = area f ++
        if (dataWrite f e (wholePart array.hdr record recordSize)).1 =
            .ok (wholeSize array.hdr recordSize)
          then wholePart array.hdr record recordSize else [] := by
  obtain ⟨hlen, -, ⟨hsize, hhdr, rfl⟩ | ⟨hsize, hhdr, rfl⟩⟩ := colArrayAppend_cases hf hrun
  · refine ⟨by rw [hhdr]; rfl, _, FileTree.set_self _ _ _, ?_⟩
    rw [area_hdrWrite]
    split
    · rename_i hall
      obtain ⟨-, hbytes⟩ := File.write_count hall
      rw [← wholePart_length array.hdr hlen, List.take_length, File.size, overlay_end] at hbytes
      exact (area_grown hfull hbytes).1
    · rename_i hnot
      have hle : ∀ count, (dataWrite f e (wholePart array.hdr record recordSize)).1 = .ok count →
          count ≤ wholeSize array.hdr recordSize := by
        intro count hcount
        rw [← wholePart_length array.hdr hlen]
        exact (File.write_count hcount).1
      rw [writeSize_eq_iff (wholeSize_lt _ _) hle] at hsize
      obtain ⟨⟨number, herror⟩, -⟩ := hsize.resolve_left hnot
      rw [File.write_error herror, List.append_nil]
  · refine ⟨by rw [hhdr], f, FileTree.set_self _ _ _, ?_⟩
    rw [if_neg, List.append_nil]
    intro hall
    exact hsize (by rw [hall]; rfl)

end Append

end Calls

/-- Every open handle is one of the array, and there is a header as long as there is one. -/
structure Ready (s : OpenArrays P) : Prop where
  paths : ∀ array ∈ s.arrays, array.fd.path = path
  file : s.arrays ≠ [] → ∃ f, s.tree path = some f ∧ arrayHdrSize ≤ f.size

variable {path}

namespace Ready

variable {s s' : OpenArrays P}

omit [DecidableEq P] in
theorem of_handle (h : Ready path s) {array : ColArray P} (hmem : array ∈ s.arrays) :
    ∃ f, s.tree array.fd.path = some f ∧ arrayHdrSize ≤ f.size := by
  rw [h.paths array hmem]
  exact h.file (List.ne_nil_of_mem hmem)

theorem create (h : Ready path s) {e : ArrayCreateEnv} {info : Option ColArrayInfo}
    (hstep : callStep path s (.create e info) = some s') : Ready path s' := by
  obtain ⟨⟨ret, tree⟩, hrun, hs'⟩ := Option.bind_eq_some_iff.mp hstep
  obtain rfl := Option.some.inj hs'
  refine ⟨h.paths, ?_⟩
  intro hopen
  obtain ⟨f, hf, hfull⟩ := h.file hopen
  cases info with
  | none =>
    obtain ⟨-, rfl⟩ := Prod.mk.inj (Option.some.inj hrun)
    exact ⟨f, hf, hfull⟩
  | some info =>
    obtain ⟨hdr, rfl⟩ := colArrayCreate_writes hrun
    refine ⟨_, FileTree.set_self _ _ _, ?_⟩
    rw [hf, Option.getD_some]
    exact Nat.le_trans hfull (File.size_le_write _ _ _ _)

theorem openArray (h : Ready path s) {errno : ℕ}
    (hstep : callStep path s (.openArray errno) = some s') : Ready path s' := by
  obtain ⟨⟨⟨ret, opened⟩, tree⟩, hrun, hs'⟩ := Option.bind_eq_some_iff.mp hstep
  obtain rfl := Option.some.inj hs'
  obtain ⟨rfl, hnew⟩ := colArrayOpen_opens hrun
  constructor
  · intro array hmem
    rcases List.mem_append.mp hmem with hold | hopened
    · exact h.paths array hold
    · exact (hnew array (Option.mem_toList.mp hopened)).1
  · intro hopen
    cases opened with
    | none =>
      rw [Option.toList_none, List.append_nil] at hopen
      exact h.file hopen
    | some array => exact (hnew array rfl).2

omit [DecidableEq P] in
theorem replace (h : Ready path s) {handle : ℕ} {array array' : ColArray P} {tree : FileTree P}
    (hget : s.arrays[handle]? = some array) (hpath : array'.fd.path = array.fd.path)
    (hfile : ∃ f, tree array.fd.path = some f ∧ arrayHdrSize ≤ f.size) :
    Ready path ⟨tree, s.arrays.set handle array'⟩ := by
  have hold := h.paths array (List.mem_of_getElem? hget)
  constructor
  · intro other hmem
    rcases List.mem_or_eq_of_mem_set hmem with hother | rfl
    · exact h.paths other hother
    · rw [hpath, hold]
  · intro _
    rwa [← hold]

theorem append (h : Ready path s) {handle : ℕ} {e : ArrayAppendEnv} {record : Bytes}
    {recordSize : UInt32} (hstep : callStep path s (.append handle e record recordSize) = some s') :
    Ready path s' := by
  obtain ⟨array, hget, hrest⟩ := Option.bind_eq_some_iff.mp hstep
  obtain ⟨⟨⟨ret, array'⟩, tree⟩, hrun, hs'⟩ := Option.bind_eq_some_iff.mp hrest
  obtain rfl := Option.some.inj hs'
  obtain ⟨f, hf, hfull⟩ := h.of_handle (List.mem_of_getElem? hget)
  obtain ⟨hpath, f', hf', hgrown⟩ := colArrayAppend_grows hf hrun
  exact h.replace hget hpath ⟨f', hf', Nat.le_trans hfull hgrown⟩

theorem read (h : Ready path s) {handle errno : ℕ} {indexStart indexStop recordSize : UInt32}
    (hstep : callStep path s (.read handle errno indexStart indexStop recordSize) = some s') :
    Ready path s' := by
  obtain ⟨array, hget, hrest⟩ := Option.bind_eq_some_iff.mp hstep
  obtain ⟨f, hf, hfull⟩ := h.of_handle (List.mem_of_getElem? hget)
  obtain ⟨array', hrun, hpath, -⟩ :=
    run_colArrayRead_any hf errno indexStart indexStop recordSize
  rw [hrun] at hrest
  obtain rfl := Option.some.inj hrest
  exact h.replace hget hpath ⟨f, hf, hfull⟩

theorem close (h : Ready path s) {handle : ℕ}
    (hstep : callStep path s (.close handle) = some s') : Ready path s' := by
  obtain ⟨array, hget, hrest⟩ := Option.bind_eq_some_iff.mp hstep
  obtain rfl := Option.some.inj hrest
  refine ⟨fun other hmem => h.paths other (List.mem_of_mem_eraseIdx hmem), ?_⟩
  intro _
  exact h.file (List.ne_nil_of_mem (List.mem_of_getElem? hget))

theorem step (_past : List ArrayCall) (call : ArrayCall) (s s' : OpenArrays P) (h : Ready path s)
    (hstep : callStep path s call = some s') : Ready path s' := by
  cases call with
  | create e info => exact h.create hstep
  | openArray errno => exact h.openArray hstep
  | append handle e record recordSize => exact h.append hstep
  | read handle errno indexStart indexStop recordSize => exact h.read hstep
  | close handle => exact h.close hstep

end Ready

/-- Whatever calls have been made before, on whatever file, an append through an open
handle is right exactly where it fits. -/
theorem callsRun_appendRight_iff (t : FileTree P) {calls : List ArrayCall} {s : OpenArrays P}
    (hrun : runSteps (callStep path) ⟨t, []⟩ calls = some s) {array : ColArray P}
    (hmem : array ∈ s.arrays) (e : ArrayAppendEnv) {record : Bytes} {recordSize : UInt32}
    (hlen : recordSize.toNat ≤ record.length)
    (hone : colArrayGetTypeSize array.hdr.recordType ≤ recordSize) :
    AppendRight s.tree array e record recordSize ↔
      ∃ f, s.tree path = some f ∧ AppendFits f array e record recordSize := by
  have hstart : Ready path (⟨t, []⟩ : OpenArrays P) :=
    ⟨fun array hmem => absurd hmem List.not_mem_nil, fun hopen => absurd rfl hopen⟩
  have hs : Ready path s :=
    runSteps_invariant (fun _ => Ready path) Ready.step hstart hrun
  have hpath := hs.paths array hmem
  obtain ⟨f, hf, hfull⟩ := hs.of_handle hmem
  have hlen' : wholeSize array.hdr recordSize ≤ record.length :=
    Nat.le_trans (Nat.mul_div_le _ _) hlen
  rw [appendRight_iff_fits hf hfull e hlen' hone]
  rw [hpath] at hf
  constructor
  · exact fun hfits => ⟨f, hf, hfits⟩
  · rintro ⟨g, hg, hfits⟩
    obtain rfl := Option.some.inj (hf.symm.trans hg)
    exact hfits

/-- A short write comes back as zero when no error was pending, and so does an append
whose header is not written. -/
theorem callsRun_not_appendRight :
    ∃ s array, runSteps (callStep "first") ⟨fun _ => none, []⟩
        [.create ⟨Vector.replicate 32 7, .whole, 0⟩ (some ⟨3, Vector.replicate 32 0⟩),
          .openArray 0] = some s ∧ array ∈ s.arrays ∧
      ¬ AppendRight s.tree array ⟨.short 1, .whole, 0⟩ [1, 2] 2 ∧
      ¬ AppendRight s.tree array ⟨.whole, .error 28, 0⟩ [1, 2] 2 := by
  have heval : ((runSteps (callStep "first") ⟨fun _ => none, []⟩
      [.create ⟨Vector.replicate 32 7, .whole, 0⟩ (some ⟨3, Vector.replicate 32 0⟩),
        .openArray 0]).bind fun s => s.arrays[0]?.bind fun array =>
          (s.tree array.fd.path).map fun f => (decide (arrayHdrSize ≤ f.size),
            decide (AppendFits f array ⟨.short 1, .whole, 0⟩ [1, 2] 2),
            decide (AppendFits f array ⟨.whole, .error 28, 0⟩ [1, 2] 2),
            colArrayGetTypeSize array.hdr.recordType)) = some (true, false, false, 2) := by
    decide +kernel
  obtain ⟨s, hrun, hs⟩ := Option.bind_eq_some_iff.mp heval
  obtain ⟨array, hget, harray⟩ := Option.bind_eq_some_iff.mp hs
  obtain ⟨f, hf, hval⟩ := Option.map_eq_some_iff.mp harray
  simp only [Prod.mk.injEq, decide_eq_true_eq, decide_eq_false_iff_not] at hval
  obtain ⟨hfull, hshort, herror, htype⟩ := hval
  have hlen : wholeSize array.hdr 2 ≤ ([1, 2] : Bytes).length := Nat.mul_div_le _ _
  have hone : colArrayGetTypeSize array.hdr.recordType ≤ 2 := by
    rw [htype]
    exact UInt32.le_refl 2
  refine ⟨s, array, hrun, List.mem_of_getElem? hget, ?_, ?_⟩
  · rwa [appendRight_iff_fits hf hfull _ hlen hone]
  · rwa [appendRight_iff_fits hf hfull _ hlen hone]

/-- Three bytes add one element of two to the two that are there. -/
theorem callsRun_appendRight_whole :
    ∃ s array, runSteps (callStep "first") ⟨fun _ => none, []⟩
        [.create ⟨Vector.replicate 32 7, .whole, 0⟩ (some ⟨3, Vector.replicate 32 0⟩),
          .openArray 0, .append 0 ⟨.whole, .whole, 0⟩ [1, 2, 3, 4] 4] = some s ∧
      array ∈ s.arrays ∧ AppendRight s.tree array ⟨.whole, .whole, 0⟩ [5, 6, 7] 3 := by
  have heval : ((runSteps (callStep "first") ⟨fun _ => none, []⟩
      [.create ⟨Vector.replicate 32 7, .whole, 0⟩ (some ⟨3, Vector.replicate 32 0⟩),
        .openArray 0, .append 0 ⟨.whole, .whole, 0⟩ [1, 2, 3, 4] 4]).bind fun s =>
          s.arrays[0]?.bind fun array => (s.tree "first").map fun f =>
            (decide (AppendFits f array ⟨.whole, .whole, 0⟩ [5, 6, 7] 3),
              colArrayGetTypeSize array.hdr.recordType)) = some (true, 2) := by
    decide +kernel
  obtain ⟨s, hrun, hs⟩ := Option.bind_eq_some_iff.mp heval
  obtain ⟨array, hget, harray⟩ := Option.bind_eq_some_iff.mp hs
  obtain ⟨f, hf, hval⟩ := Option.map_eq_some_iff.mp harray
  obtain ⟨hfits, htype⟩ := Prod.mk.inj hval
  have hmem := List.mem_of_getElem? hget
  refine ⟨s, array, hrun, hmem, ?_⟩
  exact (callsRun_appendRight_iff (fun _ => none) hrun hmem ⟨.whole, .whole, 0⟩ (by decide)
    (by rw [htype]; decide)).mpr ⟨f, hf, of_decide_eq_true hfits⟩

end SeaStore.Column
