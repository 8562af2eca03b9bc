import Mathlib.Data.Nat.Bitwise
import Mathlib.Tactic.Ring
import SeaStore.Posix.Bytes

/-!
Bytes as a number, the first byte counting most. Comparing bytes of one length
compares the numbers, and the bits of the number are those of the bytes.
-/
namespace SeaStore.Posix

/-- `memcmp`, as an order. -/
def memcmp : Bytes → Bytes → Ordering
  | x :: xs, y :: ys => if x < y then .lt else if y < x then .gt else memcmp xs ys
  | _, _ => .eq

def beNat : Bytes → ℕ
  | [] => 0
  | x :: xs => x.toNat * 256 ^ xs.length + beNat xs

theorem beNat_lt (bytes : Bytes) : beNat bytes < 256 ^ bytes.length := by
  induction bytes with
  | nil => exact Nat.one_pos
  | cons x xs ih =>
    have hx : x.toNat ≤ 255 := by have hlt := x.toNat_lt; omega
    have hmul : x.toNat * 256 ^ xs.length ≤ 255 * 256 ^ xs.length := Nat.mul_le_mul_right _ hx
    rw [beNat, List.length_cons, Nat.pow_succ]
    omega

/-- Where the first bytes differ they decide. -/
theorem beNat_cons_lt {x y : UInt8} {xs ys : Bytes} (hlen : xs.length = ys.length) (hlt : x < y) :
    beNat (x :: xs) < beNat (y :: ys) := by
  have hxs := beNat_lt xs
  have hxy : x.toNat + 1 ≤ y.toNat := UInt8.lt_iff_toNat_lt.mp hlt
  have hmul : (x.toNat + 1) * 256 ^ xs.length ≤ y.toNat * 256 ^ xs.length :=
    Nat.mul_le_mul_right _ hxy
  rw [Nat.add_mul, Nat.one_mul] at hmul
  rw [beNat, beNat, ← hlen]
  omega

theorem memcmp_eq_compare {xs ys : Bytes} (hlen : xs.length = ys.length) :
    memcmp xs ys = compare (beNat xs) (beNat ys) := by
  induction xs generalizing ys with
  | nil =>
    obtain rfl : ys = [] := List.length_eq_zero_iff.mp hlen.symm
    rfl
  | cons x xs ih =>
    cases ys with
    | nil => exact absurd hlen (by simp)
    | cons y ys =>
      have hrest : xs.length = ys.length := Nat.succ.inj hlen
      rw [memcmp]
      by_cases hlt : x < y
      · rw [if_pos hlt, Nat.compare_eq_lt.mpr (beNat_cons_lt hrest hlt)]
      · rw [if_neg hlt]
        by_cases hgt : y < x
        · rw [if_pos hgt, Nat.compare_eq_gt.mpr (beNat_cons_lt hrest.symm hgt)]
        · have heq : x = y := UInt8.le_antisymm (UInt8.not_lt.mp hgt) (UInt8.not_lt.mp hlt)
          have hcancel : ∀ a b c : ℕ, compare (a + b) (a + c) = compare b c := by
            intro a b c
            rcases Nat.lt_trichotomy b c with hbc | hbc | hbc
            · rw [Nat.compare_eq_lt.mpr hbc, Nat.compare_eq_lt.mpr (Nat.add_lt_add_left hbc a)]
            · rw [hbc, Nat.compare_eq_eq.mpr rfl, Nat.compare_eq_eq.mpr rfl]
            · rw [Nat.compare_eq_gt.mpr hbc, Nat.compare_eq_gt.mpr (Nat.add_lt_add_left hbc a)]
          rw [if_neg hgt, ih hrest, beNat, beNat, heq, hrest, hcancel]

theorem beNat_inj {xs ys : Bytes} (hlen : xs.length = ys.length) (heq : beNat xs = beNat ys) :
    xs = ys := by
  induction xs generalizing ys with
  | nil => exact (List.length_eq_zero_iff.mp hlen.symm).symm
  | cons x xs ih =>
    cases ys with
    | nil => exact absurd hlen (by simp)
    | cons y ys =>
      have hrest : xs.length = ys.length := Nat.succ.inj hlen
      by_cases hlt : x < y
      · exact absurd heq (Nat.ne_of_lt (beNat_cons_lt hrest hlt))
      · by_cases hgt : y < x
        · exact absurd heq.symm (Nat.ne_of_lt (beNat_cons_lt hrest.symm hgt))
        · have hxy : x = y := UInt8.le_antisymm (UInt8.not_lt.mp hgt) (UInt8.not_lt.mp hlt)
          subst hxy
          rw [beNat, beNat, hrest] at heq
          rw [ih hrest (by omega)]

/-- Bit `r` of byte `i` from the end. -/
theorem testBit_beNat (bytes : Bytes) {i r : ℕ} (hr : r < 8) :
    (beNat bytes).testBit (8 * i + r) =
      (i < bytes.length && (bytes.getD (bytes.length - 1 - i) 0).toNat.testBit r) := by
  induction bytes with
  | nil => simp [beNat]
  | cons x xs ih =>
    have hpow : (256 : ℕ) ^ xs.length = 2 ^ (8 * xs.length) := by
      rw [Nat.pow_mul]
    have hlt : beNat xs < 2 ^ (8 * xs.length) := hpow ▸ beNat_lt xs
    rw [beNat, hpow, Nat.mul_comm, Nat.testBit_two_pow_mul_add _ hlt, List.length_cons]
    by_cases hin : 8 * i + r < 8 * xs.length
    · have hi : i < xs.length := by omega
      have hidx : xs.length + 1 - 1 - i = (xs.length - 1 - i) + 1 := by omega
      rw [if_pos hin, ih, hidx, List.getD_cons_succ]
      simp [hi, Nat.lt_succ_of_lt hi]
    · rw [if_neg hin]
      by_cases heq : i = xs.length
      · simp [heq]
      · have hout : ¬ i < xs.length + 1 := by omega
        have hhigh : x.toNat < 2 ^ (8 * i + r - 8 * xs.length) := by
          have h8 : 2 ^ 8 ≤ 2 ^ (8 * i + r - 8 * xs.length) :=
            Nat.pow_le_pow_right (by omega) (by omega)
          have hx := x.toNat_lt
          omega
        simp [hout, Nat.testBit_lt_two_pow hhigh]

theorem beNat_zipWith_xor {xs ys : Bytes} (hlen : xs.length = ys.length) :
    beNat (List.zipWith (· ^^^ ·) xs ys) = beNat xs ^^^ beNat ys := by
  apply Nat.eq_of_testBit_eq
  intro n
  have hn : n = 8 * (n / 8) + n % 8 := (Nat.div_add_mod n 8).symm
  have hr : n % 8 < 8 := Nat.mod_lt _ (by omega)
  have hzip : (List.zipWith (· ^^^ ·) xs ys).length = xs.length := by
    rw [List.length_zipWith, hlen, Nat.min_self]
  rw [Nat.testBit_xor, hn, testBit_beNat _ hr, testBit_beNat _ hr, testBit_beNat _ hr, hzip,
    ← hlen]
  by_cases hi : n / 8 < xs.length
  · have hx : xs.length - 1 - n / 8 < xs.length := by omega
    have hy : xs.length - 1 - n / 8 < ys.length := by omega
    rw [List.getD_eq_getElem?_getD, List.getD_eq_getElem?_getD, List.getD_eq_getElem?_getD,
      List.getElem?_zipWith, List.getElem?_eq_getElem hx, List.getElem?_eq_getElem hy]
    simp [hi, UInt8.toNat_xor, Nat.testBit_xor]
  · simp [hi]

/-- A bit of byte `i` is set. -/
theorem beNat_set_or {bytes : Bytes} {i r : ℕ} (hi : i < bytes.length) (hr : r < 8) {mask : UInt8}
    (hmask : mask.toNat = 2 ^ r) :
    beNat (bytes.set i (bytes.getD i 0 ||| mask)) =
      beNat bytes ||| 2 ^ (8 * (bytes.length - 1 - i) + r) := by
  apply Nat.eq_of_testBit_eq
  intro n
  have hn : n = 8 * (n / 8) + n % 8 := (Nat.div_add_mod n 8).symm
  have hr' : n % 8 < 8 := Nat.mod_lt _ (by omega)
  rw [Nat.testBit_or, hn, testBit_beNat _ hr', testBit_beNat _ hr', List.length_set,
    Nat.testBit_two_pow]
  by_cases hin : n / 8 < bytes.length
  · by_cases hsame : bytes.length - 1 - n / 8 = i
    · rw [hsame, List.getD_eq_getElem?_getD, List.getElem?_set_self hi, Option.getD_some,
        UInt8.toNat_or, Nat.testBit_or, hmask, Nat.testBit_two_pow]
      have hbit : (8 * (bytes.length - 1 - i) + r = 8 * (n / 8) + n % 8) ↔ r = n % 8 := by omega
      simp [hin, hbit]
    · have hbit : 8 * (bytes.length - 1 - i) + r ≠ 8 * (n / 8) + n % 8 := by omega
      rw [List.getD_eq_getElem?_getD, List.getElem?_set_ne (Ne.symm hsame),
        ← List.getD_eq_getElem?_getD]
      simp [hbit]
  · have hbit : 8 * (bytes.length - 1 - i) + r ≠ 8 * (n / 8) + n % 8 := by omega
    simp [hin, hbit]

end SeaStore.Posix
