import Mathlib.Data.Nat.Size
import SeaStore.Hash.Rehash

/-!
A resize, for any number of buckets that is asked for and whatever the memory
gives: the table stays valid and holds the same pairs. Only the arrays for fewer
buckets must be had, since their outcome is not looked at.
-/
namespace SeaStore.Hash

open Probe Slots

section Roundup

/-- Each bit says whether `x` has one at it or at one of the next `m - 1`. -/
def Smeared (x : UInt32) (m : ℕ) (y : UInt32) : Prop :=
  ∀ j, y.toNat.testBit j = true ↔ ∃ d < m, x.toNat.testBit (j + d) = true

theorem smeared_one (x : UInt32) : Smeared x 1 x := by
  intro j
  constructor
  · intro hbit
    exact ⟨0, by omega, hbit⟩
  · intro hbit
    obtain ⟨d, hd, hbit⟩ := hbit
    obtain rfl : d = 0 := by omega
    exact hbit

theorem smeared_smear {x y s : UInt32} {m : ℕ} (hs : s.toNat = m) (hm : m < 32)
    (hy : Smeared x m y) : Smeared x (2 * m) (smear s y) := by
  intro j
  have hbits : (smear s y).toNat.testBit j = (y.toNat.testBit j || y.toNat.testBit (j + m)) := by
    rw [smear, UInt32.toNat_or, UInt32.toNat_shiftRight, Nat.testBit_or, Nat.testBit_shiftRight,
      hs, Nat.mod_eq_of_lt hm, Nat.add_comm m j]
  rw [hbits, Bool.or_eq_true, hy, hy]
  constructor
  · intro hbit
    rcases hbit with ⟨d, hd, hbit⟩ | ⟨d, hd, hbit⟩
    · exact ⟨d, by omega, hbit⟩
    · exact ⟨m + d, by omega, by rw [← Nat.add_assoc]; exact hbit⟩
  · intro hbit
    obtain ⟨d, hd, hbit⟩ := hbit
    by_cases hlt : d < m
    · exact .inl ⟨d, hlt, hbit⟩
    · exact .inr ⟨d - m, by omega, by rw [Nat.add_assoc, Nat.add_sub_of_le (by omega)]; exact hbit⟩

/-- Below the highest bit all bits are set. -/
theorem smeared_all {x y : UInt32} (hy : Smeared x 32 y) :
    y.toNat = 2 ^ x.toNat.size - 1 := by
  apply Nat.eq_of_testBit_eq
  intro j
  rw [Nat.testBit_two_pow_sub_one, Bool.eq_iff_iff, hy, decide_eq_true_eq, Nat.lt_size]
  constructor
  · intro hbit
    obtain ⟨d, -, hbit⟩ := hbit
    exact (Nat.pow_le_pow_right (by omega) (Nat.le_add_right j d)).trans
      (Nat.ge_two_pow_of_testBit hbit)
  · intro hge
    obtain ⟨i, hi, hbit⟩ := Nat.exists_ge_and_testBit_of_ge_two_pow hge
    have hlt : i < 32 := by
      by_contra hfar
      have hpow : 2 ^ 32 ≤ 2 ^ i := Nat.pow_le_pow_right (by omega) (by omega)
      have hbound := x.toNat_lt
      have hbit' := Nat.ge_two_pow_of_testBit hbit
      omega
    exact ⟨i - j, by omega, by rw [Nat.add_sub_of_le hi]; exact hbit⟩

/-- The power of two above `x - 1`, as far as a number of 32 bits goes. -/
theorem toNat_kroundup32 (x : UInt32) :
    (kroundup32 x).toNat = 2 ^ (x - 1).toNat.size % 2 ^ 32 := by
  have h1 := smeared_one (x - 1)
  have h2 := smeared_smear (s := 1) (m := 1) rfl (by omega) h1
  have h4 := smeared_smear (s := 2) (m := 2) rfl (by omega) h2
  have h8 := smeared_smear (s := 4) (m := 4) rfl (by omega) h4
  have h16 := smeared_smear (s := 8) (m := 8) rfl (by omega) h8
  have hchain := smeared_smear (s := 16) (m := 16) rfl (by omega) h16
  have hpos : 0 < 2 ^ (x - 1).toNat.size := Nat.pow_pos (by omega)
  rw [kroundup32, UInt32.toNat_add, smeared_all hchain, UInt32.toNat_one]
  congr 1
  omega

/-- A resize is for a power of two of buckets, of four at least. -/
theorem exists_resizeTo (x : UInt32) : ∃ k, 2 ≤ k ∧ (resizeTo x).toNat = 2 ^ k := by
  have hfour : (4 : UInt32).toNat = 2 ^ 2 := rfl
  unfold resizeTo
  by_cases hlt : kroundup32 x < 4
  · exact ⟨2, by omega, by rw [if_pos hlt, hfour]⟩
  · rw [UInt32.lt_iff_toNat_lt, toNat_kroundup32] at hlt
    refine ⟨(x - 1).toNat.size, ?_, ?_⟩
    · by_contra hsmall
      have hpow : 2 ^ (x - 1).toNat.size ≤ 2 ^ 1 := Nat.pow_le_pow_right (by omega) (by omega)
      have hmod := Nat.mod_le (2 ^ (x - 1).toNat.size) (2 ^ 32)
      omega
    · rw [if_neg (by rw [UInt32.lt_iff_toNat_lt, toNat_kroundup32]; exact hlt), toNat_kroundup32]
      have hsize : (x - 1).toNat.size ≤ 32 := Nat.size_le.mpr (x - 1).toNat_lt
      rcases Nat.lt_or_eq_of_le hsize with hin | hover
      · exact Nat.mod_eq_of_lt (Nat.pow_lt_pow_right (by omega) hin)
      · rw [hover] at hlt
        exact absurd (by decide) hlt

end Roundup

variable {K V : Type} {hash : K → UInt32} {h h' : KHash K V}

/-- The live keys are all different if no key is held twice. -/
theorem injOn_iff_nodup (h : KHash K V) :
    Set.InjOn (fun i => h.keys[i]?) (liveSet h.flags h.nBuckets.toNat : Set ℕ) ↔
      (h.entries.map Prod.fst).Nodup := by
  rw [KHash.entries, held, Multiset.map_map, ← Finset.nodup_map_iff_injOn]
  rfl

theorem Valid.card_entries (hv : Valid hash h) : h.entries.card = h.size.toNat := by
  rw [hv.size, KHash.entries, card_held]

/-- The same buckets, in arrays that may have become longer. -/
structure SameBuckets (h h' : KHash K V) : Prop where
  nBuckets : h'.nBuckets = h.nBuckets
  size : h'.size = h.size
  nOccupied : h'.nOccupied = h.nOccupied
  upperBound : h'.upperBound = h.upperBound
  flags : h'.flags = h.flags
  keys : h.nBuckets.toNat ≤ h'.keys.length ∧ ∀ i < h.nBuckets.toNat, h'.keys[i]? = h.keys[i]?
  vals : h.nBuckets.toNat ≤ h'.vals.length ∧ ∀ i < h.nBuckets.toNat, h'.vals[i]? = h.vals[i]?

theorem SameBuckets.refl (hv : Valid hash h) : SameBuckets h h :=
  ⟨rfl, rfl, rfl, rfl, rfl, ⟨hv.keys, fun _ _ => rfl⟩, ⟨hv.vals, fun _ _ => rfl⟩⟩

theorem SameBuckets.entries (hsame : SameBuckets h h') : h'.entries = h.entries := by
  rw [KHash.entries, hsame.flags, hsame.nBuckets]
  refine held_congr fun i hi => ?_
  have hlt := (mem_liveSet.mp hi).1
  rw [hsame.keys.2 i hlt, hsame.vals.2 i hlt]

theorem SameBuckets.valid (hv : Valid hash h) (hsame : SameBuckets h h') : Valid hash h' where
  buckets := by rw [hsame.nBuckets, hsame.flags]; exact hv.buckets
  upperBound := by rw [hsame.nBuckets, hsame.upperBound]; exact hv.upperBound
  keys := by rw [hsame.nBuckets]; exact hsame.keys.1
  vals := by rw [hsame.nBuckets]; exact hsame.vals.1
  size := by rw [hsame.nBuckets, hsame.flags, hsame.size]; exact hv.size
  nOccupied := by rw [hsame.nBuckets, hsame.flags, hsame.nOccupied]; exact hv.nOccupied
  nOccupied_le := by rw [hsame.nOccupied, hsame.upperBound]; exact hv.nOccupied_le
  distinct := by
    rw [injOn_iff_nodup, hsame.entries, ← injOn_iff_nodup]
    exact hv.distinct
  onWay := by
    rw [hsame.nBuckets, hsame.flags]
    intro i hi key hkey
    rw [hsame.keys.2 i (mem_liveSet.mp hi).1] at hkey
    exact hv.onWay i hi key hkey

theorem krealloc_length {α : Type} (xs : List α) (n : ℕ) (fresh : ℕ → α) :
    (krealloc xs n fresh).length = n := by
  rw [krealloc, List.length_map, List.length_range]

theorem getElem?_krealloc {α : Type} {xs : List α} {n i : ℕ} (fresh : ℕ → α) (hn : i < n)
    (hi : i < xs.length) : (krealloc xs n fresh)[i]? = xs[i]? := by
  rw [krealloc, List.getElem?_map, List.getElem?_range hn, Option.map_some,
    List.getD_eq_getElem?_getD, List.getElem?_eq_getElem hi, Option.getD_some]

/-- More memory, or as much of it as there is, changes no bucket. -/
theorem expandArrays_eq (hv : Valid hash h) (alloc : Alloc K V) {n : UInt32}
    (hlt : h.nBuckets.toNat < n.toNat) :
    SameBuckets h (expandArrays alloc h n).2 ∧
      ((expandArrays alloc h n).1 = true → n.toNat ≤ (expandArrays alloc h n).2.keys.length ∧
        n.toNat ≤ (expandArrays alloc h n).2.vals.length) ∧
      ((expandArrays alloc h n).1 = false → alloc.keys = false ∨ alloc.vals = false) := by
  have hkeys : h.nBuckets.toNat ≤ (krealloc h.keys n.toNat alloc.key).length ∧
      ∀ i < h.nBuckets.toNat, (krealloc h.keys n.toNat alloc.key)[i]? = h.keys[i]? := by
    refine ⟨by rw [krealloc_length]; omega, fun i hi => ?_⟩
    exact getElem?_krealloc _ (by omega) (Nat.lt_of_lt_of_le hi hv.keys)
  have hvals : h.nBuckets.toNat ≤ (krealloc h.vals n.toNat alloc.val).length ∧
      ∀ i < h.nBuckets.toNat, (krealloc h.vals n.toNat alloc.val)[i]? = h.vals[i]? := by
    refine ⟨by rw [krealloc_length]; omega, fun i hi => ?_⟩
    exact getElem?_krealloc _ (by omega) (Nat.lt_of_lt_of_le hi hv.vals)
  unfold expandArrays
  cases hk : alloc.keys with
  | false => exact ⟨SameBuckets.refl hv, fun htrue => absurd htrue (by simp), fun _ => .inl rfl⟩
  | true =>
    cases hval : alloc.vals with
    | false =>
      exact ⟨⟨rfl, rfl, rfl, rfl, rfl, hkeys, hv.vals, fun _ _ => rfl⟩,
        fun htrue => absurd htrue (by simp), fun _ => .inr rfl⟩
    | true =>
      refine ⟨⟨rfl, rfl, rfl, rfl, rfl, hkeys, hvals⟩, fun _ => ?_,
        fun hfalse => absurd hfalse (by simp)⟩
      simp [krealloc_length]

/-- With nothing moved yet the pairs are those of the table. -/
theorem Valid.rehashing (hv : Valid hash h) {n : UInt32} {k : ℕ} (hk : 2 ≤ k)
    (hn : n.toNat = 2 ^ k) (hkeys : n.toNat ≤ h.keys.length) (hvals : n.toNat ≤ h.vals.length) :
    Rehashing hash h.nBuckets n k ⟨h.flags, emptyFlags n, h.keys, h.vals⟩ ∧
      (⟨h.flags, emptyFlags n, h.keys, h.vals⟩ : Rehash K V).entries h.nBuckets.toNat n.toNat =
        h.entries := by
  have hin : ∀ i < n.toNat, i / 16 < (acFsize n).toNat := fun i hi => div_lt_acFsize hn hi
  have hempty : usedSet (emptyFlags n) n.toNat = ∅ := by
    apply Finset.eq_empty_of_forall_notMem
    intro i hi
    rw [mem_usedSet] at hi
    rw [(emptyBit_emptyFlags (hin i hi.1)).1] at hi
    exact absurd hi.2 (by simp)
  refine ⟨?_, by rw [Rehash.entries, hempty, Finset.union_empty]; rfl⟩
  exact
    { sized := ⟨hn, hk, emptyFlags_length n⟩
      flags := by
        intro i hi
        rcases hv.buckets with ⟨hzero, -⟩ | ⟨j, hs⟩
        · rw [hzero] at hi
          exact absurd hi (by simp)
        · exact hs.div_lt (hs.nBuckets ▸ hi)
      keys := ⟨hv.keys, hkeys⟩
      vals := ⟨hv.vals, hvals⟩
      undeleted := fun i hi => (emptyBit_emptyFlags (hin i hi)).2
      disjoint := by simp only [hempty]; exact Finset.disjoint_empty_right _
      onWay := by
        intro i hi
        simp only [hempty] at hi
        exact absurd hi (Finset.notMem_empty i) }

theorem Rehashing.liveSet_newFlags {n m : UInt32} {k : ℕ} {s : Rehash K V}
    (hr : Rehashing hash n m k s) :
    liveSet s.newFlags m.toNat = usedSet s.newFlags m.toNat := by
  ext i
  rw [mem_liveSet, mem_usedSet, liveBit]
  refine and_congr_right fun hi => ?_
  rw [hr.undeleted i hi]
  simp

/-- There is memory for the arrays for fewer buckets. -/
def Alloc.Cuts (alloc : Alloc K V) : Prop := alloc.cutKeys = true ∧ alloc.cutVals = true

/-- An array that is cut where it has to be. -/
theorem cutArray_ite {α : Type} {xs : List α} {n : UInt32} {enough : Bool} {p : Prop} [Decidable p]
    (henough : p → enough = true) (hlen : n.toNat ≤ xs.length) :
    n.toNat ≤ (if p then cutArray enough xs n else xs).length ∧
      ∀ i < n.toNat, (if p then cutArray enough xs n else xs)[i]? = xs[i]? := by
  by_cases hp : p
  · rw [if_pos hp, cutArray, if_pos (henough hp), List.length_take]
    refine ⟨by omega, fun i hi => ?_⟩
    rw [List.getElem?_take, if_pos hi]
  · rw [if_neg hp]
    exact ⟨hlen, fun _ _ => rfl⟩

/-- When no pair is left to be moved the table with the new flags is valid, and
holds the pairs that the old one has held. -/
theorem finishResize_valid (hv : Valid hash h) {alloc : Alloc K V} {n : UInt32} {k : ℕ}
    {s : Rehash K V} (hcuts : n < h.nBuckets → alloc.Cuts) (hr : Rehashing hash h.nBuckets n k s)
    (hentries : s.entries h.nBuckets.toNat n.toNat = h.entries)
    (hmoved : liveSet s.flags h.nBuckets.toNat = ∅) (hroom : h.size < upperBoundOf n) :
    Valid hash (finishResize alloc h n s) ∧ (finishResize alloc h n s).entries = h.entries := by
  have hlt := UInt32.lt_iff_toNat_lt.mp hroom
  obtain ⟨hkeysLen, hkeys⟩ := cutArray_ite (fun hcut => (hcuts hcut).1) hr.keys.2
  obtain ⟨hvalsLen, hvals⟩ := cutArray_ite (fun hcut => (hcuts hcut).2) hr.vals.2
  have hsame : (finishResize alloc h n s).entries = h.entries := by
    rw [← hentries, Rehash.entries, hmoved, Finset.empty_union, ← hr.liveSet_newFlags]
    refine held_congr fun i hi => ?_
    have hin : i < n.toNat := (mem_liveSet.mp hi).1
    simp only [finishResize]
    rw [hkeys i hin, hvals i hin]
  have hcard := congrArg Multiset.card hsame
  rw [hv.card_entries, KHash.entries, card_held] at hcard
  refine ⟨?_, hsame⟩
  exact
    { buckets := .inr ⟨k, hr.sized⟩
      upperBound := rfl
      keys := hkeysLen
      vals := hvalsLen
      size := hcard.symm
      nOccupied := by
        have hlive := hr.liveSet_newFlags
        simp only [finishResize] at hcard ⊢
        rw [← hlive]
        exact hcard.symm
      nOccupied_le := hlt.le
      distinct := by
        rw [injOn_iff_nodup, hsame, ← injOn_iff_nodup]
        exact hv.distinct
      onWay := by
        intro i hi key hkey
        simp only [finishResize] at hi hkey
        rw [hr.liveSet_newFlags] at hi
        rw [hkeys i (mem_usedSet.mp hi).1] at hkey
        exact hr.onWay i hi key hkey }

/-- No bucket is deleted: as many are in use as there are keys. -/
def KHash.Undeleted (h : KHash K V) : Prop := h.nOccupied = h.size

/-- What a resize can do: nothing, when too few buckets are asked for or when
memory is short, or a rehash into as many buckets as were asked for. -/
theorem khResize_eq (hv : Valid hash h) (alloc : Alloc K V) (newNBuckets : UInt32)
    (hcuts : resizeTo newNBuckets < h.nBuckets → alloc.Cuts) :
    ∃ rc h', khResize hash alloc h newNBuckets = some (rc, h') ∧ Valid hash h' ∧
      h'.entries = h.entries ∧ h'.size = h.size ∧ (h.Undeleted → h'.Undeleted) ∧
      (rc = 0 ∧ h' = h ∧ upperBoundOf (resizeTo newNBuckets) ≤ h.size ∨
        rc = -1 ∧ h'.nBuckets = h.nBuckets ∧
          (alloc.flags = false ∨ alloc.keys = false ∨ alloc.vals = false) ∨
        rc = 0 ∧ h'.nBuckets = resizeTo newNBuckets ∧ h'.nOccupied = h.size ∧
          h.size < upperBoundOf (resizeTo newNBuckets)) := by
  obtain ⟨k, hk, hn⟩ := exists_resizeTo newNBuckets
  unfold khResize
  simp only
  by_cases hsmall : upperBoundOf (resizeTo newNBuckets) ≤ h.size
  · exact ⟨0, h, by rw [if_pos hsmall], hv, rfl, rfl, id, .inl ⟨rfl, rfl, hsmall⟩⟩
  · have hroom : h.size < upperBoundOf (resizeTo newNBuckets) := UInt32.not_le.mp hsmall
    rw [if_neg hsmall]
    cases hflags : alloc.flags with
    | false => exact ⟨-1, h, rfl, hv, rfl, rfl, id, .inr (.inl ⟨rfl, rfl, .inl rfl⟩)⟩
    | true =>
      -- the arrays that the rehash works on, if there is memory for them
      obtain ⟨enough, h₁, hexpand, hsame, hlong, hshort⟩ : ∃ enough h₁,
          (if h.nBuckets < resizeTo newNBuckets then expandArrays alloc h (resizeTo newNBuckets)
            else (true, h)) = (enough, h₁) ∧ SameBuckets h h₁ ∧
          (enough = true → (resizeTo newNBuckets).toNat ≤ h₁.keys.length ∧
            (resizeTo newNBuckets).toNat ≤ h₁.vals.length) ∧
          (enough = false → alloc.keys = false ∨ alloc.vals = false) := by
        by_cases hlt : h.nBuckets < resizeTo newNBuckets
        · exact ⟨_, _, by rw [if_pos hlt], expandArrays_eq hv alloc (UInt32.lt_iff_toNat_lt.mp hlt)⟩
        · have hle := UInt32.le_iff_toNat_le.mp (UInt32.not_lt.mp hlt)
          exact ⟨true, h, by rw [if_neg hlt], SameBuckets.refl hv,
            fun _ => ⟨hle.trans hv.keys, hle.trans hv.vals⟩, fun hfalse => absurd hfalse (by simp)⟩
      have hv₁ := hsame.valid hv
      rw [if_neg (by simp), hexpand]
      cases enough with
      | false =>
        exact ⟨-1, h₁, rfl, hv₁, hsame.entries, hsame.size,
          fun hnone => hsame.nOccupied.trans (hnone.trans hsame.size.symm),
          .inr (.inl ⟨rfl, hsame.nBuckets, .inr (hshort rfl)⟩)⟩
      | true =>
        obtain ⟨hkeys, hvals⟩ := hlong rfl
        obtain ⟨hr, hentries⟩ := hv₁.rehashing hk hn hkeys hvals
        have hfour : 4 ≤ (resizeTo newNBuckets).toNat := by
          have hpow : 2 ^ 2 ≤ 2 ^ k := Nat.pow_le_pow_right (by omega) hk
          rw [hn]
          omega
        have hupper := upperBoundOf_lt hfour
        have hsize := UInt32.lt_iff_toNat_lt.mp hroom
        obtain ⟨s', hloop, hr', hsame', hmoved⟩ := rehashLoop_eq (j := 0) hr
          (by rw [hentries, hv₁.card_entries, hsame.size]; omega) (Nat.zero_le _)
          (fun i _ => Nat.zero_le i)
          (show _ < h₁.nBuckets.toNat + 1 by rw [UInt32.toNat_zero]; omega)
        obtain ⟨hv', hentries'⟩ := finishResize_valid hv₁ (hsame.nBuckets ▸ hcuts) hr'
          (hsame'.trans hentries) hmoved (hsame.size ▸ hroom)
        refine ⟨0, finishResize alloc h₁ (resizeTo newNBuckets) s', ?_, hv',
          hentries'.trans hsame.entries, hsame.size, fun _ => rfl,
          .inr (.inr ⟨rfl, rfl, hsame.size, hroom⟩)⟩
        simp only [hloop, Option.map_some]

end SeaStore.Hash
