import SeaStore.Column.ReadLimits
import SeaStore.Word.Calls

/-!
The search for the oldest documents of a word is a read of the array's front. A
limit whose bytes leave 32 bits is cut to what is left of it, so that fewer ids than
there are, or none, come back.
-/
namespace SeaStore.Word

open Posix Block Column

/-- The search succeeds, with as many ids as the limit, the buffer and the array allow. -/
def YieldsIds (t : FileTree WordPath) (errno : ℕ) (conn : SeaWord) (limit docIdListLen : Int32)
    (elems : List (Vector UInt8 8)) : Prop :=
  ∃ count read conn', (seaWordFindDocByWordsForward errno conn limit docIdListLen).run serve t =
      some ((⟨0, some count, read⟩, conn'), t) ∧
    count.toNat = min (min limit.toInt.toNat (docIdListLen.toInt.toNat / 8)) elems.length

variable {t : FileTree WordPath} {path : WordPath} {hdr : ColArrayHdr}
  {elems : List (Vector UInt8 8)} {conn : SeaWord} {limit docIdListLen : Int32}

theorem toNat_argument {x : Int32} (h : 0 ≤ x.toInt) : x.toUInt32.toNat = x.toInt.toNat := by
  have hnat := (toNat_toUInt32 x).trans (if_pos h)
  omega

/-- A search gets the front of the array, as far as the buffer and what 32 bits keep of
the limit allow. -/
theorem run_seaWordFind_front (errno : ℕ) (hon : conn.On path) (h : Contents t path hdr elems)
    (hlimit : 0 ≤ limit.toInt) (hroom : 0 ≤ docIdListLen.toInt) :
    let count := min (min (docIdListLen.toInt.toNat / 8) (limit.toInt.toNat % 2 ^ 29))
      elems.length
    ∃ conn', (seaWordFindDocByWordsForward errno conn limit docIdListLen).run serve t =
      some ((⟨0, some (UInt32.ofNat count), elementBytes (elems.take count)⟩, conn'), t) := by
  have hroomLt : docIdListLen.toInt < 2 ^ 31 := docIdListLen.toInt_lt
  obtain ⟨array', hrun⟩ := run_colArrayRead_front hon h errno limit.toUInt32
    docIdListLen.toUInt32 (by rw [toNat_argument hroom]; omega)
  rw [toNat_argument hlimit, toNat_argument hroom] at hrun
  refine ⟨⟨array'⟩, ?_⟩
  unfold seaWordFindDocByWordsForward
  rw [Program.run_bind_of_run serve hrun]
  rfl

/-- A search yields what it should when its limit is below 2^29, or when what 32 bits keep
of the limit is still enough. -/
theorem yieldsIds_iff (errno : ℕ) (hon : conn.On path) (h : Contents t path hdr elems)
    (hlimit : 0 ≤ limit.toInt) (hroom : 0 ≤ docIdListLen.toInt) :
    YieldsIds t errno conn limit docIdListLen elems ↔ limit.toInt.toNat < 2 ^ 29 ∨
      min (docIdListLen.toInt.toNat / 8) elems.length ≤ limit.toInt.toNat % 2 ^ 29 := by
  have hroomLt : docIdListLen.toInt < 2 ^ 31 := docIdListLen.toInt_lt
  obtain ⟨conn', hrun⟩ := run_seaWordFind_front errno hon h hlimit hroom
  have hcount : YieldsIds t errno conn limit docIdListLen elems ↔
      min (min (docIdListLen.toInt.toNat / 8) (limit.toInt.toNat % 2 ^ 29)) elems.length =
        min (min limit.toInt.toNat (docIdListLen.toInt.toNat / 8)) elems.length := by
    have hnat : (UInt32.ofNat (min (min (docIdListLen.toInt.toNat / 8)
        (limit.toInt.toNat % 2 ^ 29)) elems.length)).toNat =
          min (min (docIdListLen.toInt.toNat / 8) (limit.toInt.toNat % 2 ^ 29)) elems.length := by
      rw [UInt32.toNat_ofNat', Nat.mod_eq_of_lt (by omega)]
    constructor
    · rintro ⟨count, read, conn'', hrun', hcount⟩
      rw [hrun] at hrun'
      have hresult := (Prod.mk.inj (Prod.mk.inj (Option.some.inj hrun')).1).1
      have hsame := Option.some.inj (ArrayReadResult.mk.inj hresult).2.1
      rw [← hnat, hsame, hcount]
    · intro hsame
      exact ⟨_, _, conn', hrun, hnat.trans hsame⟩
  rw [hcount]
  constructor
  · intro hsame
    omega
  · intro hfit
    omega

/-- A read asks for its window in the integers exactly where no product that counts leaves
32 bits; a search yields its ids exactly where the limit does not, or what is left of it
is enough. -/
theorem readWindow_right_iff {P : Type} (array : ColArray P) (errno : ℕ)
    {indexStart indexStop : UInt32} (hle : indexStart ≤ indexStop) (recordSize : UInt32)
    (hon : conn.On path) (h : Contents t path hdr elems) (hlimit : 1 ≤ limit.toInt)
    (hroom : 0 ≤ docIdListLen.toInt) :
    (readAsked (colArrayRead errno array indexStart indexStop recordSize) =
        some (exactWindow (colArrayGetTypeSize array.hdr.recordType).toNat indexStart.toNat
          indexStop.toNat recordSize.toNat) ↔
      Unwrapped (colArrayGetTypeSize array.hdr.recordType).toNat indexStart.toNat
        indexStop.toNat recordSize.toNat) ∧
    (YieldsIds t errno conn limit docIdListLen elems ↔ limit.toInt.toNat < 2 ^ 29 ∨
      min (docIdListLen.toInt.toNat / 8) elems.length ≤ limit.toInt.toNat % 2 ^ 29) :=
  ⟨readAsked_eq_iff errno hle recordSize, yieldsIds_iff errno hon h (by omega) hroom⟩

def oneIdHdr : ColArrayHdr := ⟨1, valueTypeArrUint64, Vector.replicate 32 0⟩

def oneIdWord : SeaWord := ⟨⟨⟨⟨"", []⟩, 0⟩, oneIdHdr⟩⟩

theorem oneId_contents : ∃ t : FileTree WordPath,
    Contents t ⟨"", []⟩ oneIdHdr [(Vector.replicate 8 7 : Vector UInt8 8)] := by
  have hfit : (oneIdHdr.bytes ++ elementBytes
      [(Vector.replicate 8 7 : Vector UInt8 8)]).length ≤ offMax := by
    rw [List.length_append, ColArrayHdr.bytes_length, elementBytes_length]
    decide
  exact ⟨fun _ => some ⟨_, hfit⟩, _, rfl, rfl⟩

/-- Element 2^29 of eight bytes is sought at the first one, and a limit of 2^29 ids finds none. -/
theorem readWindow_wraps :
    (readAsked (colArrayRead 0 oneIdWord.array 0x20000000 0x20000001 8) = some (37, 8) ∧
      exactWindow 8 0x20000000 0x20000001 8 = (4294967333, 8)) ∧
    ∃ t, Contents t ⟨"", []⟩ oneIdHdr [(Vector.replicate 8 7 : Vector UInt8 8)] ∧
      ¬ YieldsIds t 0 oneIdWord 0x20000000 8 [(Vector.replicate 8 7 : Vector UInt8 8)] := by
  refine ⟨⟨?_, rfl⟩, ?_⟩
  · exact readAsked_colArrayRead 0 (by decide) 8
  · obtain ⟨t, h⟩ := oneId_contents
    refine ⟨t, h, ?_⟩
    rw [yieldsIds_iff 0 ⟨rfl, rfl⟩ h (by decide) (by decide)]
    decide

/-- A window of two elements, and a search with a limit of 2^29 + 1. -/
theorem readWindow_right_small :
    readAsked (colArrayRead 0 oneIdWord.array 0 2 16) = some (exactWindow 8 0 2 16) ∧
    ∃ t, YieldsIds t 0 oneIdWord 0x20000001 8 [(Vector.replicate 8 7 : Vector UInt8 8)] := by
  obtain ⟨t, h⟩ := oneId_contents
  have hlimit : 1 ≤ (0x20000001 : Int32).toInt := by decide
  have hroom : 0 ≤ (8 : Int32).toInt := by decide
  have hle : (0 : UInt32) ≤ 2 := by decide
  have hright := readWindow_right_iff oneIdWord.array 0 hle 16
    (⟨rfl, rfl⟩ : oneIdWord.On ⟨"", []⟩) h hlimit hroom
  exact ⟨hright.1.mpr ⟨by decide, Or.inl (by decide)⟩, t, hright.2.mpr (Or.inr (by decide))⟩

end SeaStore.Word
