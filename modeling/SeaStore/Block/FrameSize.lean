import SeaStore.Block.Arguments
import SeaStore.Block.ReadBack
import SeaStore.Posix.Confined

/-!
The size of a frame. The length of an append is an `int`, becomes an unsigned
number of 32 bits, is added up as a `size_t` and stored in an `int` again. A
length with no frame of that size is refused, or so it should be: the sixteen
negative ones next to zero get a buffer that is smaller than a frame.
-/
namespace SeaStore.Block

open Posix

def dataTailLength (bytes : Bytes) : UInt32 :=
  readLe32 (slice bytes (bytes.length - dataTailSize) 4)

/-- The buffer is allocated with sixteen bytes more than the length, in the
integers, and is a frame with that length at both ends. -/
structure Framed (a : Ambient) (buf : Bytes) (length : Int32) (bytes : Bytes) : Prop where
  built : buildFrame a buf length.toUInt32 = pure (some bytes)
  allocated : (frameBufLen length.toUInt32).toInt = 16 + length.toInt
  size : (bytes.length : ℤ) = 16 + length.toInt
  header : ((dataHeaderLength bytes).toNat : ℤ) = length.toInt
  tail : ((dataTailLength bytes).toNat : ℤ) = length.toInt

/-- The bytes are given to one write(2) at the end of the data file, and the file
is what this write has made of it. The append goes on only if all of them got there. -/
def WrittenOnce (t : FileTree SeaPath) (dir : String) (id : UInt64) (a : Ambient) (faults : Faults)
    (block : SeaBlock) (buf : Bytes) (length : Int32) (bytes : Bytes) : Prop :=
  ∃ f result block' t', t (.data dir id) = some f ∧
    (seaBlockAppend a faults block buf length).run serve t = some ((result, block'), t') ∧
    t' (.data dir id) = some (f.write f.size bytes faults.frame).2 ∧
    ((f.write f.size bytes faults.frame).1 = .ok bytes.length →
      (f.write f.size bytes faults.frame).2.bytes = f.bytes ++ bytes) ∧
    ((f.write f.size bytes faults.frame).1 ≠ .ok bytes.length →
      result.ret ≠ 0 ∧ t' (.index dir id) = t (.index dir id))

/-- As it should be: the append is refused and changes no file, or it writes a
frame of the right size. -/
def FrameSized (t : FileTree SeaPath) (dir : String) (id : UInt64) (a : Ambient) (faults : Faults)
    (block : SeaBlock) (buf : Bytes) (length : Int32) : Prop :=
  (∃ result block', (seaBlockAppend a faults block buf length).run serve t =
      some ((result, block'), t) ∧ result.ret ≠ 0) ∨
    ∃ bytes, Framed a buf length bytes ∧ WrittenOnce t dir id a faults block buf length bytes

variable {t : FileTree SeaPath} {dir : String} {id : UInt64} {a : Ambient} {faults : Faults}
  {block : SeaBlock} {buf : Bytes} {length : Int32}

theorem dataTailLength_append (front : Bytes) (tail : SeaBlockDataTail) :
    dataTailLength (front ++ tail.bytes) = tail.length := by
  have hpos : (front ++ tail.bytes).length - dataTailSize = front.length := by
    rw [List.length_append, SeaBlockDataTail.bytes_length, Nat.add_sub_cancel]
  rw [dataTailLength, hpos, slice_append_length, SeaBlockDataTail.bytes, List.append_assoc,
    slice_append_left _ _ _ _ (by rw [le32_length]), slice_whole _ _ (le32_length _),
    readLe32_le32]

theorem framed_of_payloadOf {p : Payload} (hp : payloadOf buf length = some p) :
    Framed a buf length (p.frame a) := by
  obtain ⟨rfl, -, -⟩ := payloadOf_eq_some hp
  have hint := p.toInt_length
  refine ⟨?_, ?_, ?_, ?_, ?_⟩
  · rw [buildFrame_payloadOf hp, p.buildFrame_eq]
  · rw [p.length_toUInt32, p.toInt_frameBufLen, hint]
    omega
  · rw [p.frame_length, hint]
    omega
  · have hheader : dataHeaderLength (p.frame a) = UInt32.ofNat p.bytes.length := by
      have hslice : slice (p.frame a) 4 4 =
          slice (SeaBlockDataHeader.bytes
            ⟨dataMagicHeader, 0, a.headerPad, UInt32.ofNat p.bytes.length⟩) 4 4 := by
        rw [Payload.frame, frame, List.append_assoc]
        exact slice_append_left _ _ _ _ (by rw [SeaBlockDataHeader.bytes_length, dataHeaderSize])
      rw [dataHeaderLength, hslice]
      exact dataHeaderLength_bytes _
    rw [hheader, p.toNat_length, hint]
  · rw [Payload.frame, frame, dataTailLength_append, p.toNat_length, hint]

/-- The lengths that make a payload of a buffer that is long enough. -/
theorem payloadOf_isSome_iff (hne : length ≠ 0) (hbuf : length.toInt ≤ buf.length) :
    (payloadOf buf length).isSome ↔ 0 < length.toInt ∧ length.toInt < 2 ^ 31 - 16 := by
  have hnat := toNat_toUInt32 length
  have hlow := length.le_toInt
  have hnez : length.toInt ≠ 0 := fun hzero => hne (Int32.toInt_inj.mp hzero)
  unfold payloadOf
  split
  · rename_i h
    refine iff_of_true rfl ?_
    split at hnat <;> omega
  · rename_i h
    refine iff_of_false (by simp) ?_
    split at hnat <;> omega

/-- Without a payload, an append is refused when the size of the buffer comes out
negative, and overruns the buffer when it does not. -/
theorem seaBlockAppend_unframed (hne : length ≠ 0) (hbuf : length.toInt ≤ buf.length)
    (hp : payloadOf buf length = none) :
    seaBlockAppend a faults block buf length =
      if -16 ≤ length.toInt ∧ length.toInt < 0 then .fault
      else pure (⟨EINVAL, none, none⟩, block) := by
  have hout : ¬ (0 < length.toInt ∧ length.toInt < 2 ^ 31 - 16) := by
    rw [← payloadOf_isSome_iff hne hbuf, hp]
    simp
  have hnat := toNat_toUInt32 length
  have hlow := length.le_toInt
  have hhigh := length.toInt_lt
  have hnez : length.toInt ≠ 0 := fun hzero => hne (Int32.toInt_inj.mp hzero)
  have hsize := toInt_frameBufLen_bmod length.toUInt32
  unfold seaBlockAppend seaBlockDataAppend buildFrame
  rw [if_neg hne]
  by_cases hsmall : -16 ≤ length.toInt ∧ length.toInt < 0
  · rw [if_neg (by omega : ¬ 0 ≤ length.toInt)] at hnat
    have hint : (frameBufLen length.toUInt32).toInt = length.toInt + 16 := by
      rw [hsize]
      simp only [Int.bmod]
      omega
    have hnonneg : ¬ (frameBufLen length.toUInt32).toInt < 0 := by omega
    have hshort : (frameBufLen length.toUInt32).toInt <
        dataHeaderSize + length.toUInt32.toNat + dataTailSize := by
      simp only [dataHeaderSize, dataTailSize]
      omega
    simp only [hnonneg, if_false, hshort, if_true, hsmall, and_self]
    rfl
  · have hneg : (frameBufLen length.toUInt32).toInt < 0 := by
      rw [hsize]
      simp only [Int.bmod]
      split at hnat <;> omega
    simp only [hneg, if_true, hsmall, if_false]
    rfl

theorem confined_seaBlockIndexAppend {path : SeaPath} {index : SeaBlockIndex}
    (hpath : index.fd.path = path) (a : Ambient) (faults : Faults) (offset : UInt64) :
    (seaBlockIndexAppend a faults index offset).Confined path fun _ => True := by
  unfold seaBlockIndexAppend
  apply Program.Confined.bind
  apply confined_seekEnd hpath
  intro off fd hpath₁
  apply Program.Confined.bind
  apply confined_write hpath₁
  intro result fd₁ hpath₂
  dsimp only
  split
  · trivial
  · apply Program.Confined.bind
    apply confined_write ((Fd.seekSet_path fd₁ 0).trans hpath₂)
    intro result' fd₂ hpath₃
    dsimp only
    split
    · apply Program.Confined.bind
      apply confined_truncate hpath₃
      trivial
    · trivial

/-- The frame of a payload is written once, whatever becomes of the append. -/
theorem writtenOnce_frame (hon : block.On dir id) {f : File} (hf : t (.data dir id) = some f)
    (p : Payload) : WrittenOnce t dir id a faults block p.bytes p.length (p.frame a) := by
  obtain ⟨fd, -, -, hrun⟩ := run_seaBlockAppend_data a faults p hon hf
  by_cases hframe : FrameCompletes f a faults.frame p
  · -- the index file is all that is left to be written to
    obtain ⟨⟨result, index⟩, t', hindex, -, hkept⟩ :=
      (confined_seaBlockIndexAppend hon.index_path a faults (UInt64.ofNat f.size)).run
        (t.set (.data dir id) (frameWrite f a faults.frame p).2)
    rw [if_pos hframe, hindex, Option.map_some] at hrun
    refine ⟨f, result, _, t', hf, hrun, ?_, fun _ => hframe.bytes, fun hnot => absurd hframe hnot⟩
    rw [hkept _ (by simp), FileTree.set_self]
    rfl
  · rw [if_neg hframe] at hrun
    refine ⟨f, _, _, _, hf, hrun, FileTree.set_self _ _ _, fun hok => absurd hok hframe,
      fun _ => ?_⟩
    exact ⟨Nat.succ_ne_zero 1, FileTree.set_other _ _ (by simp)⟩

/-- A frame is of the right size or refused exactly for the lengths that are not
among the sixteen below zero. -/
theorem seaBlockAppend_frameSized_iff (hon : block.On dir id) (hne : length ≠ 0)
    (hbuf : length.toInt ≤ buf.length) :
    FrameSized t dir id a faults block buf length ↔
      ¬ (-16 ≤ length.toInt ∧ length.toInt < 0) := by
  cases hp : payloadOf buf length with
  | some p =>
    have hrange := (payloadOf_isSome_iff hne hbuf).mp (by rw [hp]; rfl)
    refine iff_of_true ?_ (by omega)
    cases hf : t (.data dir id) with
    | none =>
      obtain ⟨block', hmissing⟩ := run_seaBlockAppend_data_missing a faults p hon hf
      refine Or.inl ⟨⟨ENOENT, none, none⟩, block', ?_, Nat.succ_ne_zero 1⟩
      rw [seaBlockAppend_payloadOf hp]
      exact hmissing
    | some f =>
      refine Or.inr ⟨p.frame a, framed_of_payloadOf hp, ?_⟩
      unfold WrittenOnce
      rw [seaBlockAppend_payloadOf hp]
      exact writtenOnce_frame hon hf p
  | none =>
    have hrun : seaBlockAppend a faults block buf length =
        if -16 ≤ length.toInt ∧ length.toInt < 0 then .fault
        else pure (⟨EINVAL, none, none⟩, block) := seaBlockAppend_unframed hne hbuf hp
    constructor
    · intro hsized hsmall
      rw [if_pos hsmall] at hrun
      rcases hsized with ⟨result, block', hdone, -⟩ | ⟨bytes, hframed, -⟩
      · rw [hrun] at hdone
        exact absurd hdone (by simp)
      · have hsize := hframed.size
        have hheader := hframed.header
        omega
    · intro hsmall
      rw [if_neg hsmall] at hrun
      exact Or.inl ⟨⟨EINVAL, none, none⟩, block, by rw [hrun]; rfl, Nat.succ_ne_zero 21⟩

def emptyBlock : SeaBlock := openedBlock "d" 1 (createdHeader 1 0 0)

/-- The largest length is refused, and a single byte gets its frame. -/
theorem seaBlockAppend_frameSized_largest :
    FrameSized (fun _ => some .empty) "d" 1 (.clear 0) .none emptyBlock
        (List.replicate 2147483647 0) 2147483647 ∧
      FrameSized (fun _ => some .empty) "d" 1 (.clear 0) ⟨.short 3, .whole, .whole⟩ emptyBlock
        [97] 1 := by
  have hbuf : (2147483647 : Int32).toInt ≤ (List.replicate 2147483647 (0 : UInt8)).length := by
    rw [List.length_replicate]
    decide
  have hon : emptyBlock.On "d" 1 := openedBlock_on "d" 1 _
  exact ⟨(seaBlockAppend_frameSized_iff hon (by decide) hbuf).mpr (by decide),
    (seaBlockAppend_frameSized_iff hon (by decide) (by decide)).mpr (by decide)⟩

/-- With a length of minus one, 2^32 - 1 bytes are copied to a buffer of fifteen. -/
theorem seaBlockAppend_not_frameSized :
    (frameBufLen (-1 : Int32).toUInt32).toInt = 15 ∧
      ¬ FrameSized (fun _ => some .empty) "d" 1 (.clear 0) .none emptyBlock [97] (-1) := by
  refine ⟨by decide, ?_⟩
  intro hsized
  rcases hsized with ⟨result, block', hrun, -⟩ | ⟨bytes, hframed, -⟩
  · have hfault : (seaBlockAppend (.clear 0) .none emptyBlock [97] (-1)).run serve
        (fun _ => some .empty) = none := by
      rw [seaBlockAppend_unframed (by decide) (by decide) (by decide)]
      rfl
    rw [hfault] at hrun
    exact absurd hrun (by simp)
  · have hheader := hframed.header
    have hneg : (-1 : Int32).toInt < 0 := by decide
    omega

end SeaStore.Block
