import Mathlib.Algebra.Ring.Int.Defs
import Mathlib.Algebra.Ring.Nat
import Mathlib.Data.List.Basic

/-!
Byte strings and the numbers stored in them. A packed C structure is a
concatenation of little-endian fields, and a field is read back as a slice at
a fixed offset.
-/
namespace SeaStore.Posix

abbrev Bytes := List UInt8

/-- `width` bytes of `n`, the least significant first. -/
def leBytes : ℕ → ℕ → Bytes
  | 0, _ => []
  | width + 1, n => UInt8.ofNat n :: leBytes width (n / 256)

def leNat : Bytes → ℕ
  | [] => 0
  | b :: rest => b.toNat + 256 * leNat rest

/-- At most `count` bytes from position `pos` on, as `read` returns them. -/
def slice (bytes : Bytes) (pos count : ℕ) : Bytes := (bytes.drop pos).take count

@[simp] theorem leBytes_length (width n : ℕ) : (leBytes width n).length = width := by
  induction width generalizing n with
  | zero => rfl
  | succ width ih => simp [leBytes, ih]

theorem leNat_leBytes (width n : ℕ) : leNat (leBytes width n) = n % 256 ^ width := by
  induction width generalizing n with
  | zero => simp [leBytes, leNat, Nat.mod_one]
  | succ width ih =>
    have hbyte : (UInt8.ofNat n).toNat = n % 256 := by simp
    rw [leBytes, leNat, ih, hbyte, Nat.pow_succ, Nat.mul_comm (256 ^ width) 256, Nat.mod_mul]

theorem leNat_lt (bytes : Bytes) : leNat bytes < 256 ^ bytes.length := by
  induction bytes with
  | nil => simp [leNat]
  | cons b rest ih =>
    have hb : b.toNat < 256 := b.toNat_lt
    simp only [leNat, List.length_cons, Nat.pow_succ]
    omega

theorem leBytes_leNat (bytes : Bytes) : leBytes bytes.length (leNat bytes) = bytes := by
  induction bytes with
  | nil => rfl
  | cons b rest ih =>
    have hb : b.toNat < 256 := b.toNat_lt
    have hhead : UInt8.ofNat (b.toNat + 256 * leNat rest) = b := by
      apply UInt8.toNat_inj.mp
      simp only [UInt8.toNat_ofNat']
      omega
    have htail : (b.toNat + 256 * leNat rest) / 256 = leNat rest := by omega
    simp only [List.length_cons, leNat, leBytes, hhead, htail, ih]

theorem slice_length (bytes : Bytes) (pos count : ℕ) :
    (slice bytes pos count).length = min count (bytes.length - pos) := by
  simp [slice]

theorem slice_whole (bytes : Bytes) (count : ℕ) (h : bytes.length = count) :
    slice bytes 0 count = bytes := by
  simp [slice, ← h]

/-- A slice inside the left half only sees that half. -/
theorem slice_append_left (a b : Bytes) (pos count : ℕ) (h : pos + count ≤ a.length) :
    slice (a ++ b) pos count = slice a pos count := by
  unfold slice
  rw [List.drop_append_of_le_length (by omega),
    List.take_append_of_le_length (by simp; omega)]

theorem slice_append_right (a b : Bytes) (pos count : ℕ) (h : a.length ≤ pos) :
    slice (a ++ b) pos count = slice b (pos - a.length) count := by
  unfold slice
  rw [List.drop_append, List.drop_eq_nil_of_le h, List.nil_append]

/-- What is appended begins where the front ends. -/
theorem slice_append_length (a b : Bytes) (count : ℕ) :
    slice (a ++ b) a.length count = slice b 0 count := by
  rw [slice_append_right a b _ _ (Nat.le_refl _), Nat.sub_self]

/-- What lies before the end of a file is still read there after the file has grown. -/
theorem slice_of_grown {a b : Bytes} (hab : a <+: b) (pos count : ℕ)
    (h : pos + count ≤ a.length) : slice b pos count = slice a pos count := by
  obtain ⟨rest, rfl⟩ := hab
  exact slice_append_left a rest pos count h

theorem slice_past_end (bytes : Bytes) (pos count : ℕ) (h : bytes.length ≤ pos) :
    slice bytes pos count = [] := by
  simp [slice, List.drop_eq_nil_of_le h]

theorem getElem?_slice (bytes : Bytes) (pos count i : ℕ) :
    (slice bytes pos count)[i]? = if i < count then bytes[pos + i]? else none := by
  rw [slice, List.getElem?_take, List.getElem?_drop]

/-- A slice inside a slice. -/
theorem slice_slice (bytes : Bytes) {pos count start len : ℕ} (h : start + len ≤ count) :
    slice (slice bytes pos count) start len = slice bytes (pos + start) len := by
  apply List.ext_getElem?
  intro i
  rw [getElem?_slice, getElem?_slice, getElem?_slice, Nat.add_assoc]
  by_cases hi : i < len
  · rw [if_pos hi, if_pos hi, if_pos (by omega)]
  · rw [if_neg hi, if_neg hi]

/-- Two slices at one place are equal when the bytes there are. -/
theorem slice_eq_iff (a b : Bytes) (pos count : ℕ) :
    slice a pos count = slice b pos count ↔
      ∀ k, pos ≤ k → k < pos + count → a[k]? = b[k]? := by
  constructor
  · intro h k hpos hend
    have hget := congrArg (fun bytes => bytes[k - pos]?) h
    simpa only [getElem?_slice, show k - pos < count by omega, if_true,
      Nat.add_sub_cancel' hpos] using hget
  · intro h
    apply List.ext_getElem?
    intro i
    rw [getElem?_slice, getElem?_slice]
    by_cases hi : i < count
    · rw [if_pos hi, if_pos hi, h (pos + i) (Nat.le_add_right _ _) (by omega)]
    · rw [if_neg hi, if_neg hi]

def le16 (x : UInt16) : Bytes := leBytes 2 x.toNat

def le32 (x : UInt32) : Bytes := leBytes 4 x.toNat

def le64 (x : UInt64) : Bytes := leBytes 8 x.toNat

def readLe16 (bytes : Bytes) : UInt16 := UInt16.ofNat (leNat bytes)

def readLe32 (bytes : Bytes) : UInt32 := UInt32.ofNat (leNat bytes)

def readLe64 (bytes : Bytes) : UInt64 := UInt64.ofNat (leNat bytes)

@[simp] theorem le16_length (x : UInt16) : (le16 x).length = 2 := leBytes_length 2 _

@[simp] theorem le32_length (x : UInt32) : (le32 x).length = 4 := leBytes_length 4 _

@[simp] theorem le64_length (x : UInt64) : (le64 x).length = 8 := leBytes_length 8 _

@[simp] theorem readLe16_le16 (x : UInt16) : readLe16 (le16 x) = x := by
  have hx : x.toNat < 2 ^ 16 := x.toNat_lt
  rw [readLe16, le16, leNat_leBytes, Nat.mod_eq_of_lt (by omega)]
  exact UInt16.ofNat_toNat

@[simp] theorem readLe32_le32 (x : UInt32) : readLe32 (le32 x) = x := by
  have hx : x.toNat < 2 ^ 32 := x.toNat_lt
  rw [readLe32, le32, leNat_leBytes, Nat.mod_eq_of_lt (by omega)]
  exact UInt32.ofNat_toNat

@[simp] theorem readLe64_le64 (x : UInt64) : readLe64 (le64 x) = x := by
  have hx : x.toNat < 2 ^ 64 := x.toNat_lt
  rw [readLe64, le64, leNat_leBytes, Nat.mod_eq_of_lt (by omega)]
  exact UInt64.ofNat_toNat

/-- An `int` as an unsigned number. -/
theorem toNat_toUInt32 (x : Int32) :
    (x.toUInt32.toNat : ℤ) = if 0 ≤ x.toInt then x.toInt else x.toInt + 2 ^ 32 := by
  have hint : x.toInt = (x.toUInt32.toNat : ℤ).bmod (2 ^ 32) :=
    BitVec.toInt_eq_toNat_bmod x.toBitVec
  have hlt : x.toUInt32.toNat < 2 ^ 32 := x.toUInt32.toNat_lt
  rw [hint]
  simp only [Int.bmod]
  split <;> split <;> omega

/-- What is left of an address that has been through an `int`: its lower half,
with the sign of that. -/
def asInt (address : UInt64) : UInt64 := address.toUInt32.toInt32.toInt64.toUInt64

theorem le32_readLe32 (bytes : Bytes) (h : bytes.length = 4) : le32 (readLe32 bytes) = bytes := by
  have hlt : leNat bytes < 2 ^ 32 := by simpa [h] using leNat_lt bytes
  have hnat : (readLe32 bytes).toNat = leNat bytes := by
    simpa [readLe32] using hlt
  rw [le32, hnat, ← h, leBytes_leNat]

theorem le64_readLe64 (bytes : Bytes) (h : bytes.length = 8) : le64 (readLe64 bytes) = bytes := by
  have hlt : leNat bytes < 2 ^ 64 := by simpa [h] using leNat_lt bytes
  have hnat : (readLe64 bytes).toNat = leNat bytes := by
    simpa [readLe64] using hlt
  rw [le64, hnat, ← h, leBytes_leNat]

end SeaStore.Posix
