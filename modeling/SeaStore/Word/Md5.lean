import SeaStore.Posix.Bytes

/-!
Block ids made from names. The hash of a name is written out as lower-case
hexadecimal digits, and the first eight of them are taken for a 64-bit number.
The hash itself is a parameter: any function to sixteen bytes will do.
-/
namespace SeaStore.Word

open Posix

abbrev Digest := Vector UInt8 16

/-- One digit of `"%02x"`. -/
def hexDigit (n : ℕ) : UInt8 := if n < 10 then UInt8.ofNat (48 + n) else UInt8.ofNat (87 + n)

def hexByte (b : UInt8) : Bytes := [hexDigit (b.toNat / 16), hexDigit (b.toNat % 16)]

/-- What `md5` leaves in the output buffer, up to the closing zero. -/
def md5 (digest : String → Digest) (word : String) : Bytes := (digest word).toList.flatMap hexByte

/-- The first member of a union of a 64-bit number with the output of `md5`. -/
def nameBlockId (digest : String → Digest) (name : String) : UInt64 :=
  readLe64 (slice (md5 digest name) 0 8)

theorem hexDigit_bounds {n : ℕ} (h : n < 16) :
    48 ≤ (hexDigit n).toNat ∧ (hexDigit n).toNat ≤ 102 := by
  unfold hexDigit
  split
  · simp only [UInt8.toNat_ofNat']
    omega
  · simp only [UInt8.toNat_ofNat']
    omega

theorem hexByte_bounds {b c : UInt8} (h : c ∈ hexByte b) : 48 ≤ c.toNat ∧ c.toNat ≤ 102 := by
  have hb : b.toNat < 256 := b.toNat_lt
  simp only [hexByte, List.mem_cons, List.not_mem_nil, or_false] at h
  rcases h with rfl | rfl
  · exact hexDigit_bounds (by omega)
  · exact hexDigit_bounds (by omega)

theorem md5_bounds {digest : String → Digest} {word : String} {c : UInt8}
    (h : c ∈ md5 digest word) : 48 ≤ c.toNat ∧ c.toNat ≤ 102 := by
  obtain ⟨b, -, hc⟩ := List.mem_flatMap.mp h
  exact hexByte_bounds hc

theorem md5_length (digest : String → Digest) (word : String) : (md5 digest word).length = 32 := by
  have hlen : (digest word).toList.length = 16 := by simp
  rw [md5, List.length_flatMap]
  simp [hexByte, hlen]

/-- A number whose bytes are hexadecimal digits lies between `"0…0"` and `"f…f"`. -/
theorem leNat_bounds {bytes : Bytes} (h : ∀ c ∈ bytes, 48 ≤ c.toNat ∧ c.toNat ≤ 102) :
    48 * (256 ^ bytes.length - 1) ≤ 255 * leNat bytes ∧
      255 * leNat bytes ≤ 102 * (256 ^ bytes.length - 1) := by
  induction bytes with
  | nil => simp [leNat]
  | cons c rest ih =>
    obtain ⟨hlow, hhigh⟩ := h c (List.mem_cons_self ..)
    obtain ⟨ihlow, ihhigh⟩ := ih (fun d hd => h d (List.mem_cons_of_mem c hd))
    have hpow : 0 < 256 ^ rest.length := Nat.pow_pos (by omega)
    simp only [leNat, List.length_cons, Nat.pow_succ]
    omega

theorem nameBlockId_bounds (digest : String → Digest) (name : String) :
    0x3030303030303030 ≤ (nameBlockId digest name).toNat ∧
      (nameBlockId digest name).toNat ≤ 0x6666666666666666 := by
  have hlen : (slice (md5 digest name) 0 8).length = 8 := by
    rw [slice_length, md5_length]
    rfl
  have hdigits : ∀ c ∈ slice (md5 digest name) 0 8, 48 ≤ c.toNat ∧ c.toNat ≤ 102 := by
    intro c hc
    exact md5_bounds (List.mem_of_mem_take hc)
  obtain ⟨hlow, hhigh⟩ := leNat_bounds hdigits
  rw [hlen] at hlow hhigh
  have hnat : (nameBlockId digest name).toNat = leNat (slice (md5 digest name) 0 8) % 2 ^ 64 := by
    rw [nameBlockId, readLe64, UInt64.toNat_ofNat']
  rw [hnat]
  omega

end SeaStore.Word
