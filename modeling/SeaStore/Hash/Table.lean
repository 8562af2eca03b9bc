import Mathlib.Data.Set.Function
import SeaStore.Hash.Khash
import SeaStore.Hash.Slots

/-!
A valid table: a power of two of buckets, one of them empty, the live keys all
different, and no empty bucket on the way to a live one. From these a lookup
ends, and finds the bucket of its key.
-/
namespace SeaStore.Hash

open Probe Slots

/-- The bucket holds a key. -/
def liveBit (flags : List UInt32) (i : ℕ) : Bool := !(emptyBit flags i || delBit flags i)

def liveSet (flags : List UInt32) (n : ℕ) : Finset ℕ :=
  (Finset.range n).filter fun i => liveBit flags i

/-- The buckets that are not empty, deleted ones included. -/
def usedSet (flags : List UInt32) (n : ℕ) : Finset ℕ :=
  (Finset.range n).filter fun i => emptyBit flags i = false

/-- The probes from `start` come to bucket `i`, through no empty bucket. -/
def OnWay (flags : List UInt32) (n start i : ℕ) : Prop :=
  ∃ t < n, probe n start t = i ∧ ∀ s < t, emptyBit flags (probe n start s) = false

/-- The flags of a power of two of buckets. -/
structure Sized (flags : List UInt32) (n : UInt32) (k : ℕ) : Prop where
  nBuckets : n.toNat = 2 ^ k
  two_le : 2 ≤ k
  flags : flags.length = (acFsize n).toNat

variable {K V : Type}

/-- The keys and values that the table holds. -/
def KHash.entries (h : KHash K V) : Multiset (Option K × Option V) :=
  held (fun i => (h.keys[i]?, h.vals[i]?)) (liveSet h.flags h.nBuckets.toNat)

structure Valid (hash : K → UInt32) (h : KHash K V) : Prop where
  buckets : h.nBuckets = 0 ∧ h.flags = [] ∨ ∃ k, Sized h.flags h.nBuckets k
  upperBound : h.upperBound = upperBoundOf h.nBuckets
  keys : h.nBuckets.toNat ≤ h.keys.length
  vals : h.nBuckets.toNat ≤ h.vals.length
  size : h.size.toNat = (liveSet h.flags h.nBuckets.toNat).card
  nOccupied : h.nOccupied.toNat = (usedSet h.flags h.nBuckets.toNat).card
  nOccupied_le : h.nOccupied.toNat ≤ h.upperBound.toNat
  distinct : Set.InjOn (fun i => h.keys[i]?) (liveSet h.flags h.nBuckets.toNat : Set ℕ)
  onWay : ∀ i ∈ liveSet h.flags h.nBuckets.toNat, ∀ key, h.keys[i]? = some key →
    OnWay h.flags h.nBuckets.toNat (hash key).toNat i

theorem mem_liveSet {flags : List UInt32} {n i : ℕ} :
    i ∈ liveSet flags n ↔ i < n ∧ liveBit flags i = true := by
  rw [liveSet, Finset.mem_filter, Finset.mem_range]

theorem mem_usedSet {flags : List UInt32} {n i : ℕ} :
    i ∈ usedSet flags n ↔ i < n ∧ emptyBit flags i = false := by
  rw [usedSet, Finset.mem_filter, Finset.mem_range]

theorem liveSet_subset_usedSet (flags : List UInt32) (n : ℕ) :
    liveSet flags n ⊆ usedSet flags n := by
  intro i hi
  rw [mem_liveSet] at hi
  rw [mem_usedSet]
  refine ⟨hi.1, ?_⟩
  have hlive := hi.2
  unfold liveBit at hlive
  cases hempty : emptyBit flags i with
  | false => rfl
  | true =>
    rw [hempty] at hlive
    exact absurd hlive (by simp)

theorem liveSet_card_le (flags : List UInt32) (n : ℕ) : (liveSet flags n).card ≤ n := by
  simpa [liveSet] using Finset.card_filter_le (Finset.range n) fun i => liveBit flags i = true

theorem OnWay.emptyBit_false {flags : List UInt32} {n start i t : ℕ}
    (hway : OnWay flags n start i) (hempty : emptyBit flags (probe n start t) = true)
    (hne : probe n start t ≠ i) : ∃ r < t, r < n ∧ probe n start r = i := by
  obtain ⟨r, hr, hplace, hbefore⟩ := hway
  refine ⟨r, ?_, hr, hplace⟩
  rcases Nat.lt_trichotomy r t with hlt | heq | hgt
  · exact hlt
  · exact absurd (heq ▸ hplace) hne
  · exact absurd (hbefore t hgt) (by rw [hempty]; simp)

section Steps

variable {flags : List UInt32} {n : UInt32} {k : ℕ}

theorem Sized.div_lt (hs : Sized flags n k) {i : ℕ} (hi : i < 2 ^ k) : i / 16 < flags.length := by
  rw [hs.flags]
  exact div_lt_acFsize hs.nBuckets (by rw [hs.nBuckets]; exact hi)

theorem Sized.four_le (hs : Sized flags n k) : 4 ≤ n.toNat := by
  have hpow : 2 ^ 2 ≤ 2 ^ k := Nat.pow_le_pow_right (by omega) hs.two_le
  rw [hs.nBuckets]
  omega

theorem Sized.lt_32 (hs : Sized flags n k) : k < 32 := by
  by_contra hge
  have hpow : 2 ^ 32 ≤ 2 ^ k := Nat.pow_le_pow_right (by omega) (by omega)
  have hlt := n.toNat_lt
  rw [hs.nBuckets] at hlt
  omega

theorem Sized.toNat_mask (hs : Sized flags n k) : (n - 1).toNat = 2 ^ k - 1 := by
  have hfour := hs.four_le
  rw [UInt32.toNat_sub_of_le n 1 (by rw [UInt32.le_iff_toNat_le, UInt32.toNat_one]; omega),
    hs.nBuckets, UInt32.toNat_one]

/-- The mask takes the remainder. -/
theorem Sized.toNat_and_mask (hs : Sized flags n k) (x : UInt32) :
    (x &&& (n - 1)).toNat = x.toNat % 2 ^ k := by
  rw [UInt32.toNat_and, hs.toNat_mask, Nat.and_two_pow_sub_one_eq_mod]

theorem Sized.toNat_start (hs : Sized flags n k) (x : UInt32) :
    (x &&& (n - 1)).toNat = probe n.toNat x.toNat 0 := by
  rw [hs.toNat_and_mask, probe_zero, hs.nBuckets]

/-- One step of the loops over the buckets is one probe. -/
theorem Sized.toNat_next (hs : Sized flags n k) {i step : UInt32} {start t : ℕ}
    (hi : i.toNat = probe n.toNat start t) (hstep : step.toNat = t) (ht : t + 1 < n.toNat) :
    ((i + (step + 1)) &&& (n - 1)).toNat = probe n.toNat start (t + 1) ∧
      (step + 1).toNat = t + 1 := by
  have hlt := n.toNat_lt
  have hsucc : (step + 1).toNat = t + 1 := by
    rw [UInt32.toNat_add, UInt32.toNat_one, hstep, Nat.mod_eq_of_lt (by omega)]
  refine ⟨?_, hsucc⟩
  have hdvd : 2 ^ k ∣ 2 ^ 32 := Nat.pow_dvd_pow 2 hs.lt_32.le
  rw [hs.toNat_and_mask, UInt32.toNat_add, hsucc, hi, Nat.mod_mod_of_dvd _ hdvd, hs.nBuckets,
    probe_succ]

end Steps

variable [DecidableEq K] {hash : K → UInt32} {h : KHash K V} {key : K} {k : ℕ}

/-- The condition on which the loops go on, of a bucket that there is. -/
def goesOn (h : KHash K V) (key : K) (i : ℕ) : Bool :=
  !emptyBit h.flags i && (delBit h.flags i || h.keys[i]? ≠ some key)

theorem probing_eq (hs : Sized h.flags h.nBuckets k) (hkeys : h.nBuckets.toNat ≤ h.keys.length)
    (key : K) {i : UInt32} (hi : i.toNat < h.nBuckets.toNat) :
    probing h key i = some (goesOn h key i.toNat) := by
  have hin : i.toNat / 16 < h.flags.length := hs.div_lt (hs.nBuckets ▸ hi)
  have hkey : i.toNat < h.keys.length := Nat.lt_of_lt_of_le hi hkeys
  unfold probing goesOn
  rw [acIsempty_eq hin, acIsdel_eq hin, List.getElem?_eq_getElem hkey]
  cases emptyBit h.flags i.toNat with
  | true => rfl
  | false =>
    cases delBit h.flags i.toNat with
    | true => rfl
    | false => simp

/-- Where the search for a key stops, either the key is there or it is nowhere. -/
structure Stops (hash : K → UInt32) (h : KHash K V) (key : K) (t : ℕ) : Prop where
  lt : t < h.nBuckets.toNat
  stop : goesOn h key (probe h.nBuckets.toNat (hash key).toNat t) = false
  before : ∀ s < t, goesOn h key (probe h.nBuckets.toNat (hash key).toNat s) = true

theorem upperBoundOf_lt {n : UInt32} (hfour : 4 ≤ n.toNat) :
    (upperBoundOf n).toNat < n.toNat := by
  have hlt := n.toNat_lt
  have hless : (77 * n.toNat + 50) / 100 < n.toNat := by omega
  rw [upperBoundOf, UInt32.toNat_ofNat', Nat.mod_eq_of_lt (by omega)]
  exact hless

theorem exists_stops (hv : Valid hash h) (hs : Sized h.flags h.nBuckets k) (key : K) :
    ∃ t, Stops hash h key t := by
  have hcard : (usedSet h.flags h.nBuckets.toNat).card < h.nBuckets.toNat := by
    have hupper := upperBoundOf_lt hs.four_le
    have hle := hv.nOccupied_le
    rw [hv.upperBound] at hle
    rw [← hv.nOccupied]
    omega
  obtain ⟨i, hi, hfree⟩ := exists_free hcard
  have hempty : emptyBit h.flags i = true := by
    by_contra hne
    exact hfree (mem_usedSet.mpr ⟨hi, by simpa using hne⟩)
  obtain ⟨t, ht, hstop, hbefore⟩ := exists_first_probe k (hash key).toNat
    (show ∃ i < 2 ^ k, goesOn h key i = false from
      ⟨i, hs.nBuckets ▸ hi, by rw [goesOn, hempty]; rfl⟩)
  rw [← hs.nBuckets] at ht hstop hbefore
  exact ⟨t, ht, hstop, fun s hs => by simpa using hbefore s hs⟩

section Stops

variable {t : ℕ}

/-- The search has passed no empty bucket. -/
theorem Stops.onWay (hstops : Stops hash h key t) {s : ℕ} (hs : s ≤ t) :
    OnWay h.flags h.nBuckets.toNat (hash key).toNat
      (probe h.nBuckets.toNat (hash key).toNat s) := by
  refine ⟨s, Nat.lt_of_le_of_lt hs hstops.lt, rfl, ?_⟩
  intro r hr
  have hgo := hstops.before r (by omega)
  unfold goesOn at hgo
  cases hempty : emptyBit h.flags (probe h.nBuckets.toNat (hash key).toNat r) with
  | false => rfl
  | true =>
    rw [hempty] at hgo
    exact absurd hgo (by simp)

/-- A live bucket where the search stops holds the key. -/
theorem Stops.getElem_keys (hstops : Stops hash h key t)
    (hlive : liveBit h.flags (probe h.nBuckets.toNat (hash key).toNat t) = true) :
    h.keys[probe h.nBuckets.toNat (hash key).toNat t]? = some key := by
  have hstop := hstops.stop
  have hbits := hlive
  unfold goesOn at hstop
  unfold liveBit at hbits
  rw [Bool.not_eq_true', Bool.or_eq_false_iff] at hbits
  rw [hbits.1, hbits.2] at hstop
  simpa using hstop

/-- A bucket where the search stops is empty if it is not live. -/
theorem Stops.emptyBit_true (hstops : Stops hash h key t)
    (hlive : liveBit h.flags (probe h.nBuckets.toNat (hash key).toNat t) = false) :
    emptyBit h.flags (probe h.nBuckets.toNat (hash key).toNat t) = true := by
  have hstop := hstops.stop
  unfold goesOn at hstop
  unfold liveBit at hlive
  rw [Bool.not_eq_false', Bool.or_eq_true] at hlive
  rcases hlive with hempty | hdel
  · exact hempty
  · rw [hdel] at hstop
    simpa using hstop

/-- Where the search stops at an empty bucket, no live bucket holds the key. -/
theorem Stops.absent (hv : Valid hash h) (hstops : Stops hash h key t)
    (hlive : liveBit h.flags (probe h.nBuckets.toNat (hash key).toNat t) = false) :
    ∀ i ∈ liveSet h.flags h.nBuckets.toNat, h.keys[i]? ≠ some key := by
  intro i hi hkey
  have hempty := hstops.emptyBit_true hlive
  have hbits := (mem_liveSet.mp hi).2
  have hne : probe h.nBuckets.toNat (hash key).toNat t ≠ i := by
    intro heq
    rw [heq, hbits] at hlive
    exact absurd hlive (by simp)
  obtain ⟨r, hr, -, hplace⟩ := (hv.onWay i hi key hkey).emptyBit_false hempty hne
  have hgo := hstops.before r hr
  unfold liveBit at hbits
  unfold goesOn at hgo
  rw [Bool.not_eq_true', Bool.or_eq_false_iff] at hbits
  rw [hplace, hbits.1, hbits.2, hkey] at hgo
  exact absurd hgo (by simp)

end Stops

/-- The loop of a lookup goes on to where the search stops. -/
theorem getLoop_eq (hs : Sized h.flags h.nBuckets k) (hkeys : h.nBuckets.toNat ≤ h.keys.length)
    {t T fuel : ℕ} {last i step : UInt32} (hstops : Stops hash h key T)
    (hlast : last.toNat = probe h.nBuckets.toNat (hash key).toNat 0)
    (hi : i.toNat = probe h.nBuckets.toNat (hash key).toNat t) (hstep : step.toNat = t)
    (hle : t ≤ T) (hfuel : T - t < fuel) :
    ∃ x, getLoop h key (h.nBuckets - 1) last i step fuel = some x ∧
      x.toNat = if liveBit h.flags (probe h.nBuckets.toNat (hash key).toNat T) then
        probe h.nBuckets.toNat (hash key).toNat T else h.nBuckets.toNat := by
  have hpos : 0 < h.nBuckets.toNat := Nat.lt_of_lt_of_le (by omega) hs.four_le
  induction fuel generalizing t i step with
  | zero => omega
  | succ fuel ih =>
    have hlt : i.toNat < h.nBuckets.toNat := hi ▸ probe_lt hpos _ _
    have hgoes := probing_eq hs hkeys key hlt
    unfold getLoop
    rw [hgoes, hi]
    by_cases heq : t = T
    · have hin : i.toNat / 16 < h.flags.length := hs.div_lt (hs.nBuckets ▸ hlt)
      rw [heq, hstops.stop, acIseither_eq hin, hi, heq]
      refine ⟨_, rfl, ?_⟩
      unfold liveBit
      cases emptyBit h.flags (probe h.nBuckets.toNat (hash key).toNat T) ||
          delBit h.flags (probe h.nBuckets.toNat (hash key).toNat T) with
      | true => rfl
      | false => exact hi.trans (by rw [heq]; rfl)
    · have hTlt := hstops.lt
      obtain ⟨hnext, hsucc⟩ := hs.toNat_next hi hstep (by omega)
      obtain ⟨x, hx, hval⟩ := ih hnext hsucc (by omega) (by omega)
      have hne : (i + (step + 1)) &&& (h.nBuckets - 1) ≠ last := by
        intro hback
        have hplace := congrArg UInt32.toNat hback
        rw [hnext, hlast, hs.nBuckets] at hplace
        exact probe_ne_start (by omega) (by rw [← hs.nBuckets]; omega) hplace
      refine ⟨x, ?_, hval⟩
      rw [hstops.before t (by omega)]
      simp only [Option.bind_eq_bind, Option.bind_some, if_true, if_neg hne]
      exact hx

/-- A lookup ends: at the bucket of its key, or past the buckets for a key that
the table does not hold. -/
theorem khGet_eq (hv : Valid hash h) (key : K) :
    ∃ x, khGet hash h key = some x ∧
      (x.toNat ∈ liveSet h.flags h.nBuckets.toNat ∧ h.keys[x.toNat]? = some key ∨
        x = h.nBuckets ∧ ∀ i ∈ liveSet h.flags h.nBuckets.toNat, h.keys[i]? ≠ some key) := by
  rcases hv.buckets with ⟨hzero, -⟩ | ⟨k, hs⟩
  · refine ⟨0, by rw [khGet, if_neg (by simp [hzero])], .inr ⟨hzero.symm, ?_⟩⟩
    intro i hi
    have hlt := (mem_liveSet.mp hi).1
    rw [hzero] at hlt
    exact absurd hlt (by simp)
  · have hfour := hs.four_le
    have hne : h.nBuckets ≠ 0 := by
      intro hzero
      rw [hzero, UInt32.toNat_zero] at hfour
      omega
    obtain ⟨T, hstops⟩ := exists_stops hv hs key
    have hstart := hs.toNat_start (hash key)
    obtain ⟨x, hx, hval⟩ := getLoop_eq hs hv.keys hstops hstart hstart UInt32.toNat_zero
      (Nat.zero_le T) (show T - 0 < 2 * h.nBuckets.toNat by have hlt := hstops.lt; omega)
    refine ⟨x, by rw [khGet, if_pos hne]; exact hx, ?_⟩
    cases hlive : liveBit h.flags (probe h.nBuckets.toNat (hash key).toNat T) with
    | true =>
      rw [hlive, if_pos rfl] at hval
      rw [hval]
      exact .inl ⟨mem_liveSet.mpr ⟨probe_lt (by omega) _ _, hlive⟩, hstops.getElem_keys hlive⟩
    | false =>
      rw [hlive, if_neg (by simp)] at hval
      exact .inr ⟨UInt32.toNat_inj.mp hval, hstops.absent hv hlive⟩

end SeaStore.Hash
