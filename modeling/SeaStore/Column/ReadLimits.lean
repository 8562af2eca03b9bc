import SeaStore.Column.Calls

/-!
Which part of the file a read asks for. The products of indices and the element
size are taken in 32 bits: the position is wrong when the window starts 4 GiB or
more behind the header, and the number of bytes when the window is as large as that
and what is left of it is less than the buffer.
-/
namespace SeaStore.Column

open Posix Block

/-- The position and the number of bytes of the read that a program begins with. -/
def readAsked {P α : Type} : Program (files P) α → Option (ℕ × ℕ)
  | .call (.read _ pos count) _ => some (pos, count)
  | _ => none

def exactWindow (size start stop recordSize : ℕ) : ℕ × ℕ :=
  (arrayHdrSize + start * size, min (recordSize / size * size) ((stop - start) * size))

/-- The first product stays in 32 bits, and so does the second, or else the buffer
is no larger than what 32 bits keep of it. -/
def Unwrapped (size start stop recordSize : ℕ) : Prop :=
  start * size < 2 ^ 32 ∧ ((stop - start) * size < 2 ^ 32 ∨
    recordSize / size * size ≤ (stop - start) * size % 2 ^ 32)

variable {P : Type} {array : ColArray P} {indexStart indexStop : UInt32}

/-- What a read asks for, with both products cut to 32 bits. -/
theorem readAsked_colArrayRead (errno : ℕ) (hle : indexStart ≤ indexStop) (recordSize : UInt32) :
    readAsked (colArrayRead errno array indexStart indexStop recordSize) =
      let size := (colArrayGetTypeSize array.hdr.recordType).toNat
      some (arrayHdrSize + indexStart.toNat * size % 2 ^ 32,
        min (recordSize.toNat / size * size)
          ((indexStop.toNat - indexStart.toNat) * size % 2 ^ 32)) := by
  have hread : readAsked (colArrayRead errno array indexStart indexStop recordSize) =
      some ((array.fd.seekSet ((indexStart *
        colArrayGetTypeSize array.hdr.recordType).toUInt64 + UInt64.ofNat arrayHdrSize)).pos,
        (if recordSize / colArrayGetTypeSize array.hdr.recordType *
            colArrayGetTypeSize array.hdr.recordType >
              (indexStop - indexStart) * colArrayGetTypeSize array.hdr.recordType
          then (indexStop - indexStart) * colArrayGetTypeSize array.hdr.recordType
          else recordSize / colArrayGetTypeSize array.hdr.recordType *
            colArrayGetTypeSize array.hdr.recordType).toNat) := rfl
  rw [hread, seekSet_position, toNat_smaller, toNat_wholeSize, UInt32.toNat_mul,
    UInt32.toNat_sub_of_le _ _ hle, Nat.mul_comm (colArrayGetTypeSize _).toNat]

/-- The request is the one of the integers exactly where no product that counts
leaves 32 bits. -/
theorem readAsked_eq_iff (errno : ℕ) (hle : indexStart ≤ indexStop) (recordSize : UInt32) :
    readAsked (colArrayRead errno array indexStart indexStop recordSize) =
        some (exactWindow (colArrayGetTypeSize array.hdr.recordType).toNat indexStart.toNat
          indexStop.toNat recordSize.toNat) ↔
      Unwrapped (colArrayGetTypeSize array.hdr.recordType).toNat indexStart.toNat
        indexStop.toNat recordSize.toNat := by
  have hlt := recordSize.toNat_lt
  have hbuf := Nat.div_mul_le_self recordSize.toNat
    (colArrayGetTypeSize array.hdr.recordType).toNat
  rw [readAsked_colArrayRead errno hle, exactWindow, Unwrapped, Option.some.injEq, Prod.mk.injEq]
  constructor
  · rintro ⟨hpos, hcount⟩
    omega
  · rintro ⟨hpos, hcount⟩
    omega

theorem Unwrapped.readElements_eq {size : ℕ} {recordSize : UInt32}
    (h : Unwrapped size indexStart.toNat indexStop.toNat recordSize.toNat)
    (hle : indexStart ≤ indexStop) (hpos : 0 < size) (hdvd : size ∣ 2 ^ 32)
    (elems : List (Vector UInt8 size)) :
    readElements elems indexStart indexStop recordSize =
      window elems indexStart.toNat indexStop.toNat (recordSize.toNat / size) := by
  obtain ⟨hstart, hcount⟩ := h
  have hall : 2 ^ 32 = 2 ^ 32 / size * size := (Nat.div_mul_cancel hdvd).symm
  have hlt : ∀ count, count * size < 2 ^ 32 → count < 2 ^ 32 / size := by
    intro count hsmall
    rw [hall] at hsmall
    exact Nat.lt_of_mul_lt_mul_right hsmall
  refine readElements_eq_window hle (hlt _ hstart) ?_
  rcases hcount with hsmall | hroom
  · rw [Nat.mod_eq_of_lt (hlt _ hsmall), Nat.min_comm]
  · have hcut : (indexStop.toNat - indexStart.toNat) * size % 2 ^ 32 =
        (indexStop.toNat - indexStart.toNat) % (2 ^ 32 / size) * size := by
      rw [← Nat.mul_mod_mul_right, ← hall]
    rw [hcut] at hroom
    have hmod := Nat.mod_le (indexStop.toNat - indexStart.toNat) (2 ^ 32 / size)
    have hle' := Nat.le_of_mul_le_mul_right hroom hpos
    omega

section Front

variable [DecidableEq P] {t : FileTree P} {path : P} {hdr : ColArrayHdr} {size : ℕ}
  {elems : List (Vector UInt8 size)}

/-- What a read from the first element on gets: as many elements as fit the buffer, as
there are, and as 32 bits keep of the limit. -/
theorem run_colArrayRead_front (hon : array.On path size) (h : Contents t path hdr elems)
    (errno : ℕ) (indexStop recordSize : UInt32) (hbuf : recordSize.toNat < 2 ^ 31) :
    let count := min (min (recordSize.toNat / size) (indexStop.toNat % (2 ^ 32 / size)))
      elems.length
    ∃ array', (colArrayRead errno array 0 indexStop recordSize).run serve t =
      some ((⟨0, some (UInt32.ofNat count), elementBytes (elems.take count)⟩, array'), t) := by
  intro count
  obtain ⟨f, hf, helems⟩ := h.elements
  obtain ⟨array', hrun, -⟩ :=
    run_colArrayRead_small hon hf helems errno 0 indexStop recordSize hbuf
  have hgot : readElements elems 0 indexStop recordSize = elems.take count := by
    rw [readElements, UInt32.sub_zero, UInt32.toNat_zero, Nat.zero_mod, List.drop_zero]
    exact List.take_eq_take_iff.mpr (by simp only [count]; omega)
  have hlen : (elems.take count).length = count := List.length_take_of_le (Nat.min_le_right _ _)
  rw [hgot, hlen] at hrun
  exact ⟨array', hrun⟩

end Front

end SeaStore.Column
