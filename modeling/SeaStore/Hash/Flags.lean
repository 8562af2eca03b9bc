import Mathlib.Data.Nat.Bitwise

/-!
The flags of the buckets of `khash.h`: two bits for each bucket, sixteen buckets
to a word. The higher bit says that the bucket is empty, the lower one that its
key was deleted.
-/
namespace SeaStore.Hash

/-- `(i & 0xf) << 1`. -/
def flagShift (i : UInt32) : UInt32 := (i &&& 0xf) <<< 1

/-- `flag[i >> 4] >> ((i & 0xf) << 1)`: outside the words nothing can be read. -/
def flagBits (flags : List UInt32) (i : UInt32) : Option UInt32 :=
  flags[(i >>> 4).toNat]?.map fun word => word >>> flagShift i

def acIsempty (flags : List UInt32) (i : UInt32) : Option Bool :=
  (flagBits flags i).map fun bits => bits &&& 2 ≠ 0

def acIsdel (flags : List UInt32) (i : UInt32) : Option Bool :=
  (flagBits flags i).map fun bits => bits &&& 1 ≠ 0

def acIseither (flags : List UInt32) (i : UInt32) : Option Bool :=
  (flagBits flags i).map fun bits => bits &&& 3 ≠ 0

def setFlag (flags : List UInt32) (i : UInt32) (f : UInt32 → UInt32) : Option (List UInt32) :=
  flags[(i >>> 4).toNat]?.map fun word => flags.set (i >>> 4).toNat (f word)

def acSetIsemptyFalse (flags : List UInt32) (i : UInt32) : Option (List UInt32) :=
  setFlag flags i fun word => word &&& ~~~(2 <<< flagShift i)

def acSetIsbothFalse (flags : List UInt32) (i : UInt32) : Option (List UInt32) :=
  setFlag flags i fun word => word &&& ~~~(3 <<< flagShift i)

def acSetIsdelTrue (flags : List UInt32) (i : UInt32) : Option (List UInt32) :=
  setFlag flags i fun word => word ||| 1 <<< flagShift i

/-- The number of words for `m` buckets. -/
def acFsize (m : UInt32) : UInt32 := if m < 16 then 1 else m >>> 4

/-- The words for `m` buckets after a `memset` to `0xaa`. -/
def emptyFlags (m : UInt32) : List UInt32 := List.replicate (acFsize m).toNat 0xaaaaaaaa

/-- Bit `b` of the bits of bucket `i`. -/
def flagBit (flags : List UInt32) (i b : ℕ) : Bool :=
  (flags.getD (i / 16) 0).toBitVec.getLsbD (2 * (i % 16) + b)

abbrev emptyBit (flags : List UInt32) (i : ℕ) : Bool := flagBit flags i 1

abbrev delBit (flags : List UInt32) (i : ℕ) : Bool := flagBit flags i 0

section Bits

variable {flags : List UInt32} {i : UInt32}

theorem toNat_flagShift (i : UInt32) : (flagShift i).toNat = 2 * (i.toNat % 16) := by
  have hmask : i.toNat &&& 15 = i.toNat % 16 := Nat.and_two_pow_sub_one_eq_mod i.toNat 4
  have hlt : i.toNat % 16 < 16 := Nat.mod_lt _ (by omega)
  rw [flagShift, UInt32.toNat_shiftLeft, UInt32.toNat_and]
  simp only [UInt32.toNat_ofNat, Nat.reducePow, Nat.reduceMod, hmask, Nat.shiftLeft_eq]
  omega

theorem toNat_shiftRight_four (i : UInt32) : (i >>> 4).toNat = i.toNat / 16 := by
  rw [UInt32.toNat_shiftRight]
  simp [Nat.shiftRight_eq_div_pow]

theorem flagBits_eq (hin : i.toNat / 16 < flags.length) :
    flagBits flags i = some (flags.getD (i.toNat / 16) 0 >>> flagShift i) := by
  rw [flagBits, toNat_shiftRight_four, List.getD_eq_getElem?_getD, List.getElem?_eq_getElem hin]
  rfl

/-- A bit of a shifted word. -/
theorem getLsbD_shiftRight_flagShift (word i : UInt32) (b : ℕ) :
    (word >>> flagShift i).toBitVec.getLsbD b =
      word.toBitVec.getLsbD (2 * (i.toNat % 16) + b) := by
  have hlt : i.toNat % 16 < 16 := Nat.mod_lt _ (by omega)
  have h32 : (32 : BitVec 32).toNat = 32 := rfl
  have hshift : ((flagShift i).toBitVec % 32).toNat = 2 * (i.toNat % 16) := by
    rw [BitVec.toNat_umod, UInt32.toNat_toBitVec, toNat_flagShift, h32]
    omega
  rw [UInt32.toBitVec_shiftRight, BitVec.ushiftRight_eq', BitVec.getLsbD_ushiftRight, hshift]

/-- A bit of a mask that has been shifted to bucket `i`. -/
theorem getLsbD_shiftLeft_flagShift (mask i : UInt32) {k : ℕ} (hk : k < 32) :
    (mask <<< flagShift i).toBitVec.getLsbD k =
      (decide (2 * (i.toNat % 16) ≤ k) && mask.toBitVec.getLsbD (k - 2 * (i.toNat % 16))) := by
  have hlt : i.toNat % 16 < 16 := Nat.mod_lt _ (by omega)
  have h32 : (32 : BitVec 32).toNat = 32 := rfl
  have hshift : ((flagShift i).toBitVec % 32).toNat = 2 * (i.toNat % 16) := by
    rw [BitVec.toNat_umod, UInt32.toNat_toBitVec, toNat_flagShift, h32]
    omega
  rw [UInt32.toBitVec_shiftLeft, BitVec.shiftLeft_eq', BitVec.getLsbD_shiftLeft, hshift]
  by_cases hle : 2 * (i.toNat % 16) ≤ k
  · simp [hk, hle, Nat.not_lt.mpr hle]
  · simp [hk, hle, Nat.lt_of_not_le hle]

theorem getLsbD_eq_mod (w : UInt32) (b : ℕ) :
    w.toBitVec.getLsbD b = decide (w.toNat / 2 ^ b % 2 = 1) := by
  rw [BitVec.getLsbD, UInt32.toNat_toBitVec, Nat.testBit_eq_decide_div_mod_eq]

theorem and_one_ne_zero (w : UInt32) : w &&& 1 ≠ 0 ↔ w.toBitVec.getLsbD 0 = true := by
  have hmask : w.toNat &&& 1 = w.toNat % 2 := Nat.and_two_pow_sub_one_eq_mod w.toNat 1
  rw [Ne, ← UInt32.toNat_inj, UInt32.toNat_and, getLsbD_eq_mod, decide_eq_true_eq]
  simp only [UInt32.toNat_one, UInt32.toNat_zero, hmask]
  omega

theorem and_two_ne_zero (w : UInt32) : w &&& 2 ≠ 0 ↔ w.toBitVec.getLsbD 1 = true := by
  have hmask : w.toNat &&& 2 = (w.toNat.testBit 1).toNat * 2 := Nat.and_two_pow w.toNat 1
  have h2 : (2 : UInt32).toNat = 2 := rfl
  rw [Ne, ← UInt32.toNat_inj, UInt32.toNat_and, h2, hmask, UInt32.toNat_zero, BitVec.getLsbD,
    UInt32.toNat_toBitVec]
  cases w.toNat.testBit 1 <;> simp

theorem and_three_ne_zero (w : UInt32) :
    w &&& 3 ≠ 0 ↔ (w.toBitVec.getLsbD 1 || w.toBitVec.getLsbD 0) = true := by
  have hmask : w.toNat &&& 3 = w.toNat % 4 := Nat.and_two_pow_sub_one_eq_mod w.toNat 2
  have h3 : (3 : UInt32).toNat = 3 := rfl
  rw [Ne, ← UInt32.toNat_inj, UInt32.toNat_and, h3, hmask, UInt32.toNat_zero, Bool.or_eq_true,
    getLsbD_eq_mod, getLsbD_eq_mod, decide_eq_true_eq, decide_eq_true_eq]
  omega

theorem acIsempty_eq (hin : i.toNat / 16 < flags.length) :
    acIsempty flags i = some (emptyBit flags i.toNat) := by
  rw [acIsempty, flagBits_eq hin, Option.map_some, emptyBit, flagBit,
    ← getLsbD_shiftRight_flagShift]
  simp only [and_two_ne_zero, Bool.decide_eq_true]

theorem acIsdel_eq (hin : i.toNat / 16 < flags.length) :
    acIsdel flags i = some (delBit flags i.toNat) := by
  rw [acIsdel, flagBits_eq hin, Option.map_some, delBit, flagBit, ← getLsbD_shiftRight_flagShift]
  simp only [and_one_ne_zero, Bool.decide_eq_true]

theorem acIseither_eq (hin : i.toNat / 16 < flags.length) :
    acIseither flags i = some (emptyBit flags i.toNat || delBit flags i.toNat) := by
  rw [acIseither, flagBits_eq hin, Option.map_some, emptyBit, delBit, flagBit, flagBit,
    ← getLsbD_shiftRight_flagShift, ← getLsbD_shiftRight_flagShift]
  simp only [and_three_ne_zero, Bool.decide_eq_true]

/-- A word of the flags has been changed by a function `f` that acts on the two bits of
bucket `i` as `g`, and leaves the others alone. -/
theorem flagBit_setFlag {f : UInt32 → UInt32} {g : ℕ → Bool → Bool}
    (hin : i.toNat / 16 < flags.length)
    (hf : ∀ word k, k < 32 → (f word).toBitVec.getLsbD k =
      if k / 2 = i.toNat % 16 then g (k % 2) (word.toBitVec.getLsbD k)
      else word.toBitVec.getLsbD k) :
    ∃ flags', setFlag flags i f = some flags' ∧ flags'.length = flags.length ∧
      ∀ j b, b < 2 → flagBit flags' j b =
        if j = i.toNat then g b (flagBit flags j b) else flagBit flags j b := by
  refine ⟨flags.set (i.toNat / 16) (f (flags.getD (i.toNat / 16) 0)), ?_, List.length_set, ?_⟩
  · rw [setFlag, toNat_shiftRight_four, List.getD_eq_getElem?_getD, List.getElem?_eq_getElem hin]
    rfl
  · intro j b hb
    have hlt : j % 16 < 16 := Nat.mod_lt _ (by omega)
    unfold flagBit
    by_cases hword : j / 16 = i.toNat / 16
    · have hdiv : (2 * (j % 16) + b) / 2 = j % 16 := by omega
      have hmod : (2 * (j % 16) + b) % 2 = b := by omega
      have hsame : j % 16 = i.toNat % 16 ↔ j = i.toNat := by omega
      have hself : (flags.set (i.toNat / 16) (f (flags.getD (i.toNat / 16) 0))).getD (j / 16) 0 =
          f (flags.getD (j / 16) 0) := by
        rw [hword, List.getD_eq_getElem?_getD, List.getElem?_set_self hin]
        rfl
      rw [hself, hf _ _ (by omega), hdiv, hmod]
      simp only [hsame]
    · have hne : j ≠ i.toNat := fun heq => hword (by rw [heq])
      have hother : (flags.set (i.toNat / 16) (f (flags.getD (i.toNat / 16) 0))).getD (j / 16) 0 =
          flags.getD (j / 16) 0 := by
        rw [List.getD_eq_getElem?_getD, List.getElem?_set_ne (Ne.symm hword),
          ← List.getD_eq_getElem?_getD]
      rw [hother, if_neg hne]

/-- Clearing the bits of a mask of two bits. -/
theorem getLsbD_clear {mask : UInt32} (hmask : mask.toNat < 4) (word : UInt32) {k : ℕ}
    (hk : k < 32) :
    (word &&& ~~~(mask <<< flagShift i)).toBitVec.getLsbD k =
      if k / 2 = i.toNat % 16 then word.toBitVec.getLsbD k && !mask.toBitVec.getLsbD (k % 2)
      else word.toBitVec.getLsbD k := by
  rw [UInt32.toBitVec_and, UInt32.toBitVec_not, BitVec.getLsbD_and, BitVec.getLsbD_not,
    getLsbD_shiftLeft_flagShift _ _ hk]
  have hhigh : ∀ b, 2 ≤ b → mask.toBitVec.getLsbD b = false := by
    intro b hb
    rw [getLsbD_eq_mod]
    have hpow : 2 ^ 2 ≤ 2 ^ b := Nat.pow_le_pow_right (by omega) hb
    rw [Nat.div_eq_of_lt (by omega)]
    rfl
  by_cases hmine : k / 2 = i.toNat % 16
  · have hle : 2 * (i.toNat % 16) ≤ k := by omega
    have hsub : k - 2 * (i.toNat % 16) = k % 2 := by omega
    simp [hk, hmine, hle, hsub]
  · rw [if_neg hmine]
    by_cases hle : 2 * (i.toNat % 16) ≤ k
    · simp [hk, hle, hhigh _ (show 2 ≤ k - 2 * (i.toNat % 16) by omega)]
    · simp [hk, hle]

theorem getLsbD_three (b : ℕ) : (3 : UInt32).toBitVec.getLsbD b = decide (b < 2) := by
  have h3 : (3 : UInt32).toNat = 2 ^ 2 - 1 := rfl
  rw [BitVec.getLsbD, UInt32.toNat_toBitVec, h3, Nat.testBit_two_pow_sub_one]

theorem getLsbD_two (b : ℕ) : (2 : UInt32).toBitVec.getLsbD b = decide (1 = b) := by
  have h2 : (2 : UInt32).toNat = 2 ^ 1 := rfl
  rw [BitVec.getLsbD, UInt32.toNat_toBitVec, h2, Nat.testBit_two_pow]

theorem getLsbD_one (b : ℕ) : (1 : UInt32).toBitVec.getLsbD b = decide (0 = b) := by
  have h1 : (1 : UInt32).toNat = 2 ^ 0 := rfl
  rw [BitVec.getLsbD, UInt32.toNat_toBitVec, h1, Nat.testBit_two_pow]

/-- Of all bits only the empty bit of bucket `i` is cleared. -/
theorem acSetIsemptyFalse_eq (hin : i.toNat / 16 < flags.length) :
    ∃ flags', acSetIsemptyFalse flags i = some flags' ∧ flags'.length = flags.length ∧
      (∀ j, emptyBit flags' j = if j = i.toNat then false else emptyBit flags j) ∧
      ∀ j, delBit flags' j = delBit flags j := by
  obtain ⟨flags', hset, hlen, hbits⟩ := flagBit_setFlag
    (f := fun word => word &&& ~~~(2 <<< flagShift i)) (g := fun b old => old && !decide (1 = b))
    hin (fun word k hk => by rw [getLsbD_clear (by decide) word hk, getLsbD_two])
  refine ⟨flags', hset, hlen, ?_, ?_⟩
  · intro j
    rw [emptyBit, hbits j 1 (by omega)]
    simp
  · intro j
    rw [delBit, hbits j 0 (by omega)]
    simp

/-- Both bits of bucket `i` are cleared. -/
theorem acSetIsbothFalse_eq (hin : i.toNat / 16 < flags.length) :
    ∃ flags', acSetIsbothFalse flags i = some flags' ∧ flags'.length = flags.length ∧
      (∀ j, emptyBit flags' j = if j = i.toNat then false else emptyBit flags j) ∧
      ∀ j, delBit flags' j = if j = i.toNat then false else delBit flags j := by
  obtain ⟨flags', hset, hlen, hbits⟩ := flagBit_setFlag
    (f := fun word => word &&& ~~~(3 <<< flagShift i)) (g := fun b old => old && !decide (b < 2))
    hin (fun word k hk => by rw [getLsbD_clear (by decide) word hk, getLsbD_three])
  refine ⟨flags', hset, hlen, ?_, ?_⟩
  · intro j
    rw [emptyBit, hbits j 1 (by omega)]
    simp
  · intro j
    rw [delBit, hbits j 0 (by omega)]
    simp

/-- Of all bits only the deleted bit of bucket `i` is set. -/
theorem acSetIsdelTrue_eq (hin : i.toNat / 16 < flags.length) :
    ∃ flags', acSetIsdelTrue flags i = some flags' ∧ flags'.length = flags.length ∧
      (∀ j, emptyBit flags' j = emptyBit flags j) ∧
      ∀ j, delBit flags' j = if j = i.toNat then true else delBit flags j := by
  obtain ⟨flags', hset, hlen, hbits⟩ := flagBit_setFlag
    (f := fun word => word ||| 1 <<< flagShift i) (g := fun b old => old || decide (0 = b))
    hin (fun word k hk => by
      rw [UInt32.toBitVec_or, BitVec.getLsbD_or, getLsbD_shiftLeft_flagShift _ _ hk, getLsbD_one]
      by_cases hmine : k / 2 = i.toNat % 16
      · have hle : 2 * (i.toNat % 16) ≤ k := by omega
        have hsub : k - 2 * (i.toNat % 16) = k % 2 := by omega
        simp [hmine, hle, hsub]
      · have hfar : ¬ (2 * (i.toNat % 16) ≤ k ∧ 0 = k - 2 * (i.toNat % 16)) := by omega
        rw [if_neg hmine, ← Bool.decide_and, decide_eq_false hfar, Bool.or_false])
  refine ⟨flags', hset, hlen, ?_, ?_⟩
  · intro j
    rw [emptyBit, hbits j 1 (by omega)]
    simp
  · intro j
    rw [delBit, hbits j 0 (by omega)]
    simp

end Bits

theorem toNat_acFsize (m : UInt32) :
    (acFsize m).toNat = if m.toNat < 16 then 1 else m.toNat / 16 := by
  have hlt : m < 16 ↔ m.toNat < 16 := UInt32.lt_iff_toNat_lt
  unfold acFsize
  by_cases hsmall : m.toNat < 16
  · rw [if_pos (hlt.mpr hsmall), if_pos hsmall]
    rfl
  · rw [if_neg (fun h => hsmall (hlt.mp h)), if_neg hsmall, toNat_shiftRight_four]

/-- The words for a power of two of buckets hold the bits of all of them. -/
theorem div_lt_acFsize {m : UInt32} {k i : ℕ} (hm : m.toNat = 2 ^ k) (hi : i < m.toNat) :
    i / 16 < (acFsize m).toNat := by
  rw [toNat_acFsize]
  by_cases hsmall : m.toNat < 16
  · rw [if_pos hsmall]
    omega
  · have hk : 4 ≤ k := by
      by_contra hlt
      have hpow : 2 ^ k ≤ 2 ^ 3 := Nat.pow_le_pow_right (by omega) (by omega)
      omega
    obtain ⟨d, rfl⟩ := Nat.exists_eq_add_of_le hk
    have hsplit : 2 ^ (4 + d) = 16 * 2 ^ d := by rw [Nat.pow_add]
    rw [if_neg hsmall]
    omega

theorem emptyFlags_length (m : UInt32) : (emptyFlags m).length = (acFsize m).toNat :=
  List.length_replicate

/-- All buckets are empty, and none is deleted. -/
theorem emptyBit_emptyFlags {m : UInt32} {i : ℕ} (hi : i / 16 < (acFsize m).toNat) :
    emptyBit (emptyFlags m) i = true ∧ delBit (emptyFlags m) i = false := by
  have hword : (emptyFlags m).getD (i / 16) 0 = 0xaaaaaaaa := by
    rw [emptyFlags, List.getD_eq_getElem?_getD, List.getElem?_replicate, if_pos hi]
    rfl
  have hbits : ∀ n < 16, (0xaaaaaaaa : UInt32).toBitVec.getLsbD (2 * n + 1) = true ∧
      (0xaaaaaaaa : UInt32).toBitVec.getLsbD (2 * n) = false := by decide
  rw [emptyBit, delBit, flagBit, flagBit, hword]
  exact hbits _ (Nat.mod_lt _ (by omega))

end SeaStore.Hash
