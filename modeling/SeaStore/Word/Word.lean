import SeaStore.Column.Array
import Mathlib.Data.List.TakeWhile

/-!
The index of a word is a column array of document ids in a file that is named
after the hash of the word. A creation hashes the word as it fits in a name
field of 32 bytes; opening hashes the word itself.
-/
namespace SeaStore.Word

open Posix Block Column

/-- A C string without its closing zero. -/
abbrev CString := { bytes : Bytes // 0 ∉ bytes }

namespace CString

def cut (word : CString) (count : ℕ) : CString :=
  ⟨word.val.take count, fun h => word.property (List.mem_of_mem_take h)⟩

/-- The string in a `char` array; none where no zero ends it within the array. -/
def ofName (name : Vector UInt8 32) : Option CString :=
  if 0 ∈ name.toList then
    some ⟨name.toList.takeWhile (· ≠ 0), fun h => by simpa using List.mem_takeWhile_imp h⟩
  else none

end CString

/-- The file of a name in a directory. -/
structure WordPath where
  dir : String
  name : Bytes
  deriving DecidableEq

def valueTypeArrUint64 : UInt8 := 7

def wordLen (word : CString) : ℕ := if 32 < word.val.length then 31 else word.val.length

/-- The description of a word's array, in memory that has been cleared. -/
def wordInfo (word : CString) : ColArrayInfo where
  recordType := valueTypeArrUint64
  colName := Vector.ofFn fun i => if i < wordLen word then word.val.getD i 0 else 0

structure SeaWord where
  array : ColArray WordPath

variable (wordMd5 : CString → Bytes)

/-- What is hashed is the string in the name field, wherever that ends. -/
def seaWordCreate (e : ArrayCreateEnv) (dir : String) (word : CString) :
    Program (files WordPath) ℕ := do
  let info := wordInfo word
  let name ← .ofOption (CString.ofName info.colName)
  colArrayCreate e ⟨dir, wordMd5 name⟩ (some info)

/-- The error number, and the handle where its array is one. -/
def seaWordOpen (errno : ℕ) (dir : String) (word : CString) :
    Program (files WordPath) (ℕ × Option SeaWord) := do
  let (error, array) ← colArrayOpen errno ⟨dir, wordMd5 word⟩
  return (error, array.map SeaWord.mk)

def seaWordClose (word : SeaWord) : Program (files WordPath) Unit := colArrayClose word.array

def seaWordFindDocByWordsForward (errno : ℕ) (word : SeaWord) (limit docIdListLen : Int32) :
    Program (files WordPath) (ArrayReadResult × SeaWord) := do
  let (result, array) ← colArrayRead errno word.array 0 limit.toUInt32 docIdListLen.toUInt32
  return (result, ⟨array⟩)

def docBytes (docId : List UInt64) : Bytes := docId.flatMap le64

def seaWordInsertDoc (e : ArrayAppendEnv) (word : SeaWord) (docId : List UInt64)
    (docIdLen : Int32) : Program (files WordPath) (ℕ × SeaWord) := do
  let (ret, array) ← colArrayAppend e word.array (docBytes docId) docIdLen.toUInt32
  return (ret, ⟨array⟩)

theorem docBytes_length (docId : List UInt64) : (docBytes docId).length = 8 * docId.length := by
  induction docId with
  | nil => rfl
  | cons id rest ih =>
    have hcons : docBytes (id :: rest) = le64 id ++ docBytes rest := rfl
    rw [hcons, List.length_append, ih, le64_length, List.length_cons, Nat.mul_succ, Nat.add_comm]

section Info

variable (word : CString)

theorem wordLen_le : wordLen word ≤ word.val.length ∧ wordLen word ≤ 32 := by
  unfold wordLen
  split <;> omega

/-- The name field is the front of the word, and zero behind it. -/
theorem wordInfo_colName : (wordInfo word).colName.toList =
    word.val.take (wordLen word) ++ List.replicate (32 - wordLen word) 0 := by
  obtain ⟨hle, hfit⟩ := wordLen_le word
  have hlen : (word.val.take (wordLen word)).length = wordLen word := List.length_take_of_le hle
  apply List.ext_getElem
  · rw [Vector.length_toList, List.length_append, hlen, List.length_replicate]
    omega
  · intro i h₁ h₂
    rw [Vector.getElem_toList]
    by_cases hi : i < wordLen word
    · have hword : i < word.val.length := by omega
      rw [List.getElem_append_left (by rw [hlen]; exact hi), List.getElem_take]
      simp [wordInfo, hi, hword]
    · rw [List.getElem_append_right (by rw [hlen]; omega), List.getElem_replicate]
      simp [wordInfo, hi]

/-- A zero ends the string in the field, unless the word just fills it. -/
theorem zero_mem_wordInfo : 0 ∈ (wordInfo word).colName.toList ↔ word.val.length ≠ 32 := by
  have hfront : 0 ∉ word.val.take (wordLen word) := (word.cut (wordLen word)).property
  rw [wordInfo_colName, List.mem_append, or_iff_right hfront, List.mem_replicate]
  unfold wordLen
  split <;> simp <;> omega

/-- What is hashed is the word up to the field's last byte. -/
theorem ofName_wordInfo (h : word.val.length ≠ 32) :
    CString.ofName (wordInfo word).colName = some (word.cut 31) := by
  have hzero := (zero_mem_wordInfo word).mpr h
  have hfront : word.val.take (wordLen word) = word.val.take 31 := by
    unfold wordLen
    split
    case isTrue => rfl
    case isFalse hle =>
      rw [List.take_of_length_le (Nat.le_refl _), List.take_of_length_le (by omega)]
  have hpos : 0 < 32 - wordLen word := by
    unfold wordLen
    split <;> omega
  obtain ⟨rest, hrest⟩ : ∃ rest, 32 - wordLen word = rest + 1 :=
    ⟨_, (Nat.succ_pred_eq_of_pos hpos).symm⟩
  rw [CString.ofName, if_pos hzero]
  apply congrArg some
  apply Subtype.ext
  simp only [wordInfo_colName, hfront, hrest, List.replicate_succ]
  rw [List.takeWhile_append_of_pos]
  · simp [CString.cut]
  · intro b hb
    have hne : b ≠ 0 := by
      rintro rfl
      exact (word.cut 31).property hb
    simpa using hne

end Info

end SeaStore.Word
