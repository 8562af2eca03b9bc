import Mathlib.Algebra.Order.Ring.Nat
import Mathlib.Data.Int.Order.Basic
import Mathlib.Tactic.Linarith
import SeaStore.Posix.BigEndian

/-!
Node ids: twenty bytes, as a path from the root of a tree, so that bits are
numbered from the start. Comparing ids, comparing distances, and the lowest one
bit are settled byte by byte; here they are related to the number that the
bytes make.
-/
namespace SeaStore.Dht

open Posix

/-- An id, also of a search or of what is stored. -/
structure NodeId where
  bytes : Bytes
  size : bytes.length = 20
  deriving DecidableEq

/-- `zeroes`. -/
def zeroes : NodeId := ⟨List.replicate 20 0, List.length_replicate⟩

def idCmp (id1 id2 : NodeId) : Ordering := memcmp id1.bytes id2.bytes

/-- The last loop of `lowbit`, over the bits of one byte. -/
def lowbitByte (x : UInt8) : ℤ :=
  match [7, 6, 5, 4, 3, 2, 1, 0].find? fun j => x &&& (0x80 >>> UInt8.ofNat j) ≠ 0 with
  | some j => (j : ℤ)
  | none => -1

/-- The lowest one bit of an id. -/
def lowbit (id : NodeId) : ℤ :=
  match (List.range 20).reverse.find? fun i => id.bytes.getD i 0 ≠ 0 with
  | some i => 8 * i + lowbitByte (id.bytes.getD i 0)
  | none => -1

/-- How often a byte is shifted until its highest bit is set. -/
def shiftsToHigh : ℕ → UInt8 → ℕ
  | 0, _ => 0
  | fuel + 1, x => if x &&& 0x80 = 0 then shiftsToHigh fuel (x <<< 1) + 1 else 0

/-- How many bits two ids have in common. -/
def commonBits (id1 id2 : NodeId) : ℕ :=
  match (List.range 20).find? fun i => id1.bytes.getD i 0 ≠ id2.bytes.getD i 0 with
  | some i => 8 * i + shiftsToHigh 8 (id1.bytes.getD i 0 ^^^ id2.bytes.getD i 0)
  | none => 160

def xorcmpBytes : Bytes → Bytes → Bytes → Ordering
  | x :: xs, y :: ys, r :: rs =>
    if x = y then xorcmpBytes xs ys rs
    else if x ^^^ r < y ^^^ r then .lt else .gt
  | _, _, _ => .eq

/-- Which of two ids is closer to `ref`. -/
def xorcmp (id1 id2 ref : NodeId) : Ordering := xorcmpBytes id1.bytes id2.bytes ref.bytes

namespace NodeId

def value (id : NodeId) : ℕ := beNat id.bytes

theorem value_lt (id : NodeId) : id.value < 2 ^ 160 := by
  have hlt := beNat_lt id.bytes
  rw [id.size] at hlt
  exact hlt

theorem value_inj {a b : NodeId} (heq : a.value = b.value) : a = b := by
  cases a with
  | mk xs hx =>
    cases b with
    | mk ys hy =>
      obtain rfl : xs = ys := beNat_inj (hx.trans hy.symm) heq
      rfl

theorem testBit_value (id : NodeId) {i r : ℕ} (hi : i < 20) (hr : r < 8) :
    id.value.testBit (8 * (19 - i) + r) = (id.bytes.getD i 0).toNat.testBit r := by
  have hidx : 20 - 1 - (19 - i) = i := by omega
  have hlt : 19 - i < 20 := by omega
  rw [value, testBit_beNat _ hr, id.size, hidx]
  simp [hlt]

end NodeId

theorem idCmp_eq_compare (a b : NodeId) : idCmp a b = compare a.value b.value :=
  memcmp_eq_compare (a.size.trans b.size.symm)

theorem idCmp_lt {a b : NodeId} : idCmp a b = .lt ↔ a.value < b.value := by
  rw [idCmp_eq_compare, Nat.compare_eq_lt]

theorem idCmp_eq {a b : NodeId} : idCmp a b = .eq ↔ a = b := by
  rw [idCmp_eq_compare, Nat.compare_eq_eq]
  exact ⟨NodeId.value_inj, congrArg NodeId.value⟩

section Xor

theorem xorcmpBytes_eq {xs ys rs : Bytes} (hy : xs.length = ys.length)
    (hr : xs.length = rs.length) :
    xorcmpBytes xs ys rs =
      memcmp (List.zipWith (· ^^^ ·) xs rs) (List.zipWith (· ^^^ ·) ys rs) := by
  induction xs generalizing ys rs with
  | nil =>
    obtain rfl : ys = [] := List.length_eq_zero_iff.mp hy.symm
    rfl
  | cons x xs ih =>
    cases ys with
    | nil => exact absurd hy (by simp)
    | cons y ys =>
      cases rs with
      | nil => exact absurd hr (by simp)
      | cons r rs =>
        rw [xorcmpBytes, List.zipWith_cons_cons, List.zipWith_cons_cons, memcmp]
        by_cases hxy : x = y
        · have hirr : ¬ y ^^^ r < y ^^^ r := UInt8.lt_irrefl _
          rw [if_pos hxy, hxy, if_neg hirr, if_neg hirr, ih (Nat.succ.inj hy) (Nat.succ.inj hr)]
        · rw [if_neg hxy]
          by_cases hlt : x ^^^ r < y ^^^ r
          · rw [if_pos hlt, if_pos hlt]
          · have hne : x ^^^ r ≠ y ^^^ r := fun heq => hxy (UInt8.xor_left_inj r |>.mp heq)
            have hgt : y ^^^ r < x ^^^ r :=
              UInt8.lt_of_le_of_ne (UInt8.not_lt.mp hlt) (Ne.symm hne)
            rw [if_neg hlt, if_neg hlt, if_pos hgt]

/-- The distance of two ids. -/
def distance (a b : NodeId) : ℕ := a.value ^^^ b.value

theorem xorcmp_eq_compare (a b ref : NodeId) :
    xorcmp a b ref = compare (distance a ref) (distance b ref) := by
  have hab : a.bytes.length = b.bytes.length := a.size.trans b.size.symm
  have har : a.bytes.length = ref.bytes.length := a.size.trans ref.size.symm
  have hbr : b.bytes.length = ref.bytes.length := b.size.trans ref.size.symm
  rw [xorcmp, xorcmpBytes_eq hab har, memcmp_eq_compare (by
    rw [List.length_zipWith, List.length_zipWith, hab]), beNat_zipWith_xor har,
    beNat_zipWith_xor hbr]
  rfl

theorem distance_inj {a b ref : NodeId} (heq : distance a ref = distance b ref) : a = b :=
  NodeId.value_inj (Nat.xor_left_inj.mp heq)

end Xor

section Bits

/-- Of a byte that is not zero the lowest one bit is found. -/
theorem lowbitByte_spec {x : UInt8} (hx : x ≠ 0) :
    ∃ j : ℕ, j < 8 ∧ lowbitByte x = (j : ℤ) ∧ x.toNat.testBit (7 - j) = true ∧
      ∀ r < 7 - j, x.toNat.testBit r = false := by
  have hall : ∀ n : ℕ, n < 256 → n ≠ 0 → ∃ j : ℕ, j < 8 ∧
      lowbitByte (UInt8.ofNat n) = (j : ℤ) ∧ n.testBit (7 - j) = true ∧
      ∀ r : ℕ, r < 7 - j → n.testBit r = false := by
    decide +kernel
  have hlt := x.toNat_lt
  have hne : x.toNat ≠ 0 := fun h0 => hx (UInt8.toNat_inj.mp h0)
  have hfound := hall x.toNat hlt hne
  rw [UInt8.ofNat_toNat] at hfound
  exact hfound

/-- The lowest one bit of an id, as one of its number. -/
theorem lowbit_spec (id : NodeId) :
    id.value = 0 ∧ lowbit id = -1 ∨
      ∃ l : ℕ, l < 160 ∧ lowbit id = (l : ℤ) ∧ id.value.testBit (159 - l) = true ∧
        ∀ m < 159 - l, id.value.testBit m = false := by
  unfold lowbit
  cases hfind : (List.range 20).reverse.find? fun i => id.bytes.getD i 0 ≠ 0 with
  | none =>
    left
    have hzero : ∀ i < 20, id.bytes.getD i 0 = 0 := by
      intro i hi
      have hnone := List.find?_eq_none.mp hfind i (by simpa using hi)
      simpa using hnone
    refine ⟨?_, rfl⟩
    apply Nat.eq_of_testBit_eq
    intro n
    rw [Nat.zero_testBit]
    by_cases hn : n < 160
    · have hbit := id.testBit_value (i := 19 - n / 8) (r := n % 8) (by omega)
        (Nat.mod_lt _ (by omega))
      have hidx : 8 * (19 - (19 - n / 8)) + n % 8 = n := by omega
      rw [hidx, hzero _ (by omega)] at hbit
      rw [hbit, UInt8.toNat_zero, Nat.zero_testBit]
    · have hpow : 2 ^ 160 ≤ 2 ^ n := Nat.pow_le_pow_right (by omega) (by omega)
      exact Nat.testBit_lt_two_pow (Nat.lt_of_lt_of_le id.value_lt hpow)
  | some i =>
    right
    obtain ⟨hne, before, after, hsplit, hbefore⟩ := List.find?_eq_some_iff_append.mp hfind
    have hmem : i ∈ (List.range 20).reverse := List.mem_of_find?_eq_some hfind
    have hi : i < 20 := by simpa using hmem
    have hx : id.bytes.getD i 0 ≠ 0 := by simpa using hne
    -- the bytes behind byte `i` are zero
    have hzero : ∀ i' < 20, i < i' → id.bytes.getD i' 0 = 0 := by
      intro i' hi' hlt
      have hin : i' ∈ before ++ i :: after := by rw [← hsplit]; simpa using hi'
      have hsorted : (before ++ i :: after).Pairwise (· > ·) := by
        rw [← hsplit, List.pairwise_reverse]
        exact List.pairwise_lt_range
      rw [List.pairwise_append] at hsorted
      rcases List.mem_append.mp hin with hmem' | hmem'
      · simpa using hbefore i' hmem'
      · rcases List.mem_cons.mp hmem' with heq | hmem''
        · omega
        · have hgt := (List.pairwise_cons.mp hsorted.2.1).1 i' hmem''
          omega
    obtain ⟨j, hj, hlow, hbit, hbelow⟩ := lowbitByte_spec hx
    refine ⟨8 * i + j, by omega, by simp only [hlow]; push_cast; ring, ?_, ?_⟩
    · have hidx : 159 - (8 * i + j) = 8 * (19 - i) + (7 - j) := by omega
      rw [hidx, id.testBit_value hi (by omega)]
      exact hbit
    · intro m hm
      have hbit' := id.testBit_value (i := 19 - m / 8) (r := m % 8) (by omega)
        (Nat.mod_lt _ (by omega))
      have hidx : 8 * (19 - (19 - m / 8)) + m % 8 = m := by omega
      rw [hidx] at hbit'
      rw [hbit']
      by_cases hsame : 19 - m / 8 = i
      · rw [hsame]
        exact hbelow _ (by omega)
      · rw [hzero _ (by omega) (by omega), UInt8.toNat_zero, Nat.zero_testBit]

/-- Bits that are all zero below `w` make a multiple of `2 ^ w`. -/
theorem two_pow_dvd_iff_testBit {v w : ℕ} :
    2 ^ w ∣ v ↔ ∀ m < w, v.testBit m = false := by
  rw [Nat.dvd_iff_mod_eq_zero]
  constructor
  · intro hmod m hm
    have hbit := Nat.testBit_mod_two_pow v w m
    rw [hmod, Nat.zero_testBit] at hbit
    simpa [hm] using hbit.symm
  · intro hbits
    apply Nat.eq_of_testBit_eq
    intro m
    rw [Nat.testBit_mod_two_pow, Nat.zero_testBit]
    by_cases hm : m < w
    · rw [hbits m hm, Bool.and_false]
    · simp [hm]

/-- A multiple of `2 ^ w` has its lowest one bit before the last `w` bits; an odd
multiple has it right there. -/
theorem lowbit_of_mul {id : NodeId} {a w : ℕ} (hw : w ≤ 160) (hval : id.value = a * 2 ^ w) :
    lowbit id ≤ 159 - (w : ℤ) ∧ (a % 2 = 1 → lowbit id = 159 - (w : ℤ)) := by
  have hbits : ∀ m < w, id.value.testBit m = false :=
    two_pow_dvd_iff_testBit.mp ⟨a, by rw [hval, Nat.mul_comm]⟩
  have hat : id.value.testBit w = a.testBit 0 := by
    rw [hval, Nat.testBit_mul_two_pow]
    simp
  rcases lowbit_spec id with ⟨hzero, hlow⟩ | ⟨l, hl, hlow, hbit, hbelow⟩
  · refine ⟨by omega, fun hodd => ?_⟩
    rw [hzero, Nat.zero_testBit, Nat.testBit_zero, hodd] at hat
    exact absurd hat (by simp)
  · have hge : w ≤ 159 - l := by
      by_contra hlt
      rw [hbits _ (by omega)] at hbit
      exact absurd hbit (by simp)
    refine ⟨by omega, fun hodd => ?_⟩
    have hnot : ¬ w < 159 - l := by
      intro hlt
      rw [hbelow w hlt, Nat.testBit_zero, hodd] at hat
      exact absurd hat (by simp)
    omega

/-- Of a byte that is not zero the highest one bit is found. -/
theorem shiftsToHigh_spec {x : UInt8} (hx : x ≠ 0) :
    shiftsToHigh 8 x < 8 ∧ x.toNat.testBit (7 - shiftsToHigh 8 x) = true ∧
      ∀ r < 8, 7 - shiftsToHigh 8 x < r → x.toNat.testBit r = false := by
  have hall : ∀ n : ℕ, n < 256 → n ≠ 0 → shiftsToHigh 8 (UInt8.ofNat n) < 8 ∧
      n.testBit (7 - shiftsToHigh 8 (UInt8.ofNat n)) = true ∧
      ∀ r : ℕ, r < 8 → 7 - shiftsToHigh 8 (UInt8.ofNat n) < r → n.testBit r = false := by
    decide +kernel
  have hne : x.toNat ≠ 0 := fun h0 => hx (UInt8.toNat_inj.mp h0)
  have hfound := hall x.toNat x.toNat_lt hne
  rw [UInt8.ofNat_toNat] at hfound
  exact hfound

/-- The first bit in which two ids differ. -/
theorem commonBits_spec (a b : NodeId) :
    (∀ m < 160, 160 ≤ m + commonBits a b → a.value.testBit m = b.value.testBit m) ∧
      (commonBits a b = 160 ∨ commonBits a b < 160 ∧
        a.value.testBit (159 - commonBits a b) ≠ b.value.testBit (159 - commonBits a b)) := by
  have hbyte : ∀ m < 160, ∀ id : NodeId, id.value.testBit m =
      (id.bytes.getD (19 - m / 8) 0).toNat.testBit (m % 8) := by
    intro m hm id
    have hbit := id.testBit_value (i := 19 - m / 8) (r := m % 8) (by omega)
      (Nat.mod_lt _ (by omega))
    have hidx : 8 * (19 - (19 - m / 8)) + m % 8 = m := by omega
    rw [hidx] at hbit
    exact hbit
  unfold commonBits
  cases hfind : (List.range 20).find? fun i => a.bytes.getD i 0 ≠ b.bytes.getD i 0 with
  | none =>
    refine ⟨fun m hm _ => ?_, .inl rfl⟩
    have hsame := List.find?_eq_none.mp hfind (19 - m / 8) (by simp; omega)
    rw [hbyte m hm, hbyte m hm]
    simp only [ne_eq, decide_not, Bool.not_eq_true, Bool.not_eq_false', decide_eq_true_eq] at hsame
    rw [hsame]
  | some i =>
    obtain ⟨hne, hi, hbefore⟩ := List.find?_range_eq_some.mp hfind
    have hi : i < 20 := by simpa using hi
    have hx : a.bytes.getD i 0 ^^^ b.bytes.getD i 0 ≠ 0 := by
      intro hzero
      have heq := UInt8.xor_eq_zero_iff.mp hzero
      rw [heq] at hne
      exact absurd hne (by simp)
    obtain ⟨hj, hbit, habove⟩ := shiftsToHigh_spec hx
    simp only
    have hxor : ∀ r, (a.bytes.getD i 0 ^^^ b.bytes.getD i 0).toNat.testBit r =
        ((a.bytes.getD i 0).toNat.testBit r ^^ (b.bytes.getD i 0).toNat.testBit r) := by
      intro r
      rw [UInt8.toNat_xor, Nat.testBit_xor]
    generalize shiftsToHigh 8 (a.bytes.getD i 0 ^^^ b.bytes.getD i 0) = j at hj hbit habove ⊢
    refine ⟨fun m hm hge => ?_, .inr ⟨by omega, ?_⟩⟩
    · rw [hbyte m hm, hbyte m hm]
      by_cases hsame : 19 - m / 8 = i
      · rw [hsame]
        have hzero := habove (m % 8) (Nat.mod_lt _ (by omega)) (by omega)
        rw [hxor] at hzero
        simpa using hzero
      · have hbytes := hbefore (19 - m / 8) (by omega)
        simp only [ne_eq, decide_not, Bool.not_not, decide_eq_true_eq] at hbytes
        rw [hbytes]
    · have hm : 159 - (8 * i + j) < 160 := by omega
      have hdiv : 19 - (159 - (8 * i + j)) / 8 = i := by omega
      have hmod : (159 - (8 * i + j)) % 8 = 7 - j := by omega
      rw [hbyte _ hm, hbyte _ hm, hdiv, hmod]
      rw [hxor] at hbit
      simpa using hbit

/-- Two ids have `k` bits in common just when what is before the other bits is equal. -/
theorem le_commonBits_iff {a b : NodeId} {k : ℕ} (hk : k ≤ 160) :
    k ≤ commonBits a b ↔ a.value / 2 ^ (160 - k) = b.value / 2 ^ (160 - k) := by
  obtain ⟨hsame, hdiff⟩ := commonBits_spec a b
  constructor
  · intro hle
    apply Nat.eq_of_testBit_eq
    intro m
    rw [Nat.testBit_div_two_pow, Nat.testBit_div_two_pow]
    by_cases hm : m + (160 - k) < 160
    · exact hsame _ hm (by omega)
    · have hpow : 2 ^ 160 ≤ 2 ^ (m + (160 - k)) := Nat.pow_le_pow_right (by omega) (by omega)
      rw [Nat.testBit_lt_two_pow (Nat.lt_of_lt_of_le a.value_lt hpow),
        Nat.testBit_lt_two_pow (Nat.lt_of_lt_of_le b.value_lt hpow)]
  · intro heq
    by_contra hlt
    rcases hdiff with hall | ⟨hc, hne⟩
    · omega
    · have hbit := congrArg (fun v => v.testBit (159 - commonBits a b - (160 - k))) heq
      simp only [Nat.testBit_div_two_pow] at hbit
      have hidx : 159 - commonBits a b - (160 - k) + (160 - k) = 159 - commonBits a b := by omega
      rw [hidx] at hbit
      exact hne hbit

/-- The more bits two ids have in common the closer they are. -/
theorem distance_lt_iff {a b : NodeId} {k : ℕ} (hk : k ≤ 160) :
    distance a b < 2 ^ (160 - k) ↔ k ≤ commonBits a b := by
  rw [le_commonBits_iff hk, ← Nat.div_eq_zero_iff_lt (Nat.two_pow_pos _), distance,
    Nat.xor_div_two_pow, Nat.xor_eq_zero_iff]

end Bits

end SeaStore.Dht
