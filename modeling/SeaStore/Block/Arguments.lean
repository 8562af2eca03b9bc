import SeaStore.Block.Append

/-!
The arguments of an append. A buffer and a length that can be framed are a
payload; every other length is refused before the first call, or overruns a
buffer.
-/
namespace SeaStore.Block

open Posix

/-- The payload of a call with these arguments, if they make one. The length is
taken as an unsigned number, as it is when the frame is built. -/
def payloadOf (buf : Bytes) (length : Int32) : Option Payload :=
  if h : 0 < length.toUInt32.toNat ∧ length.toUInt32.toNat < 2 ^ 31 - 16 ∧
      length.toUInt32.toNat ≤ buf.length then
    some ⟨buf.take length.toUInt32.toNat, by
      rw [← List.length_pos_iff, List.length_take]
      omega, by
      rw [List.length_take]
      omega⟩
  else none

variable {buf : Bytes} {length : Int32} {p : Payload}

theorem payloadOf_eq_some (h : payloadOf buf length = some p) :
    length = p.length ∧ p.bytes.length ≤ buf.length ∧ p.bytes = buf.take p.bytes.length := by
  unfold payloadOf at h
  split at h
  · rename_i hlen
    obtain rfl := Option.some.inj h
    have hbytes : (buf.take length.toUInt32.toNat).length = length.toUInt32.toNat := by
      rw [List.length_take]
      exact Nat.min_eq_left hlen.2.2
    refine ⟨?_, ?_, ?_⟩
    · show length = (UInt32.ofNat (buf.take length.toUInt32.toNat).length).toInt32
      rw [hbytes, UInt32.ofNat_toNat, Int32.toInt32_toUInt32]
    · show (buf.take length.toUInt32.toNat).length ≤ buf.length
      rw [hbytes]
      exact hlen.2.2
    · show buf.take length.toUInt32.toNat = buf.take (buf.take length.toUInt32.toNat).length
      rw [hbytes]
  · exact absurd h (by simp)

/-- More bytes behind those of the payload are not looked at. -/
theorem buildFrame_payloadOf (h : payloadOf buf length = some p) (a : Ambient) :
    buildFrame a buf p.length.toUInt32 = buildFrame a p.bytes p.length.toUInt32 := by
  obtain ⟨-, hle, htake⟩ := payloadOf_eq_some h
  simp only [buildFrame, p.length_toUInt32, p.toNat_length, ← htake, List.take_length,
    Nat.lt_irrefl, Nat.not_lt.mpr hle]

theorem seaBlockAppend_payloadOf (h : payloadOf buf length = some p) (a : Ambient)
    (faults : Faults) (block : SeaBlock) :
    seaBlockAppend a faults block buf length =
      seaBlockAppend a faults block p.bytes p.length := by
  obtain ⟨rfl, -, -⟩ := payloadOf_eq_some h
  unfold seaBlockAppend seaBlockDataAppend
  rw [buildFrame_payloadOf h]

theorem toInt_frameBufLen_of_nonneg {length : UInt32} (h : 0 ≤ (frameBufLen length).toInt)
    (hfit : (dataHeaderSize + length.toNat + dataTailSize : ℤ) ≤ (frameBufLen length).toInt) :
    length.toNat < 2 ^ 31 - 16 := by
  have hlt : (frameBufLen length).toInt < 2 ^ 31 := (frameBufLen length).toInt_lt
  simp only [dataHeaderSize, dataTailSize] at hfit
  omega

/-- Any other arguments are refused without a call, or overrun a buffer. -/
theorem seaBlockAppend_rejected (h : payloadOf buf length = none) (a : Ambient) (faults : Faults)
    (block : SeaBlock) :
    seaBlockAppend a faults block buf length = pure (⟨EINVAL, none, none⟩, block) ∨
      seaBlockAppend a faults block buf length = .fault := by
  have hrange : ¬ (0 < length.toUInt32.toNat ∧ length.toUInt32.toNat < 2 ^ 31 - 16 ∧
      length.toUInt32.toNat ≤ buf.length) := by
    intro hlen
    rw [payloadOf, dif_pos hlen] at h
    exact absurd h (by simp)
  unfold seaBlockAppend seaBlockDataAppend buildFrame
  by_cases hzero : length = 0
  · left
    rw [if_pos hzero]
  rw [if_neg hzero]
  have hpos : length.toUInt32.toNat ≠ 0 := by
    intro hnat
    have hword : length.toUInt32 = 0 := UInt32.toNat_inj.mp hnat
    exact hzero (by rw [← Int32.toInt32_toUInt32 length, hword]; rfl)
  by_cases hneg : (frameBufLen length.toUInt32).toInt < 0
  · left
    rw [if_pos hneg]
    rfl
  · right
    rw [if_neg hneg]
    by_cases hsmall : (frameBufLen length.toUInt32).toInt <
        dataHeaderSize + length.toUInt32.toNat + dataTailSize
    · rw [if_pos hsmall]
      rfl
    · have hlt := toInt_frameBufLen_of_nonneg (Int.not_lt.mp hneg) (Int.not_lt.mp hsmall)
      rw [if_neg hsmall, if_pos (by omega)]
      rfl

end SeaStore.Block
