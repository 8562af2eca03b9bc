import SeaStore.Hash.Resize

/-!
What a put, a write through an iterator, a deletion and a clearing do to the
pairs of a valid table. A put takes the last deleted bucket that it has passed,
if its key is nowhere, or else the empty one where its search has ended.
-/
namespace SeaStore.Hash

open Probe Slots

variable {K V : Type} {hash : K → UInt32} {h : KHash K V}

section MakeRoom

variable {flags : List UInt32} {n : UInt32} {k : ℕ}

theorem resizeTo_pred (hs : Sized flags n k) : resizeTo (n - 1) = n := by
  have hfour := hs.four_le
  have hsub : (n - 1 - 1).toNat = 2 ^ k - 2 := by
    rw [UInt32.toNat_sub_of_le _ _ (by
        rw [UInt32.le_iff_toNat_le, hs.toNat_mask, UInt32.toNat_one, ← hs.nBuckets]; omega),
      hs.toNat_mask, UInt32.toNat_one]
    omega
  have hsize : (n - 1 - 1).toNat.size = k := by
    have hpow := hs.nBuckets
    have hhalf : 2 ^ k = 2 * 2 ^ (k - 1) := by
      rw [← Nat.pow_succ', Nat.succ_eq_add_one, Nat.sub_add_cancel (by have := hs.two_le; omega)]
    have hle : (n - 1 - 1).toNat.size ≤ k := Nat.size_le.mpr (by omega)
    have hge : k - 1 < (n - 1 - 1).toNat.size := Nat.lt_size.mpr (by omega)
    omega
  have hround : kroundup32 (n - 1) = n := by
    have hlt := n.toNat_lt
    rw [← UInt32.toNat_inj, toNat_kroundup32, hsize, ← hs.nBuckets, Nat.mod_eq_of_lt hlt]
  have hnot : ¬ n < 4 := by
    rw [UInt32.lt_iff_toNat_lt]
    exact Nat.not_lt.mpr hfour
  rw [resizeTo, hround, if_neg hnot]

theorem toNat_resizeTo_succ (hs : Sized flags n k) (hk : k < 31) :
    (resizeTo (n + 1)).toNat = 2 * n.toNat := by
  have hfour := hs.four_le
  have hpow : 2 ^ (k + 1) < 2 ^ 32 := Nat.pow_lt_pow_right (by omega) (by omega)
  have hround : (kroundup32 (n + 1)).toNat = 2 * n.toNat := by
    rw [toNat_kroundup32, UInt32.add_sub_cancel, hs.nBuckets, Nat.size_pow, Nat.mod_eq_of_lt hpow,
      Nat.pow_succ']
  have hnot : ¬ kroundup32 (n + 1) < 4 := by
    rw [UInt32.lt_iff_toNat_lt, hround]
    exact Nat.not_lt.mpr (by have h4 : (4 : UInt32).toNat = 4 := rfl; omega)
  rw [resizeTo, if_neg hnot, hround]

theorem toNat_upperBoundOf (n : UInt32) :
    (upperBoundOf n).toNat = (77 * n.toNat + 50) / 100 := by
  have hlt := n.toNat_lt
  rw [upperBoundOf, UInt32.toNat_ofNat', Nat.mod_eq_of_lt (by omega)]

/-- A resize to enough buckets, and not to fewer than there are, leaves room. -/
theorem khResize_room (hv : Valid hash h) (alloc : Alloc K V) {req : UInt32}
    (hmore : ¬ resizeTo req < h.nBuckets)
    (hroom : h.size.toNat < (upperBoundOf (resizeTo req)).toNat) :
    ∃ rc h', khResize hash alloc h req = some (rc, h') ∧ Valid hash h' ∧ h'.entries = h.entries ∧
      (h.Undeleted → h'.Undeleted) ∧
      (rc = -1 ∧ (alloc.flags = false ∨ alloc.keys = false ∨ alloc.vals = false) ∨
        rc = 0 ∧ h'.nOccupied.toNat < h'.upperBound.toNat) := by
  obtain ⟨rc, h', hrun, hv', hentries, -, hundel, hcases⟩ :=
    khResize_eq hv alloc req fun hfewer => absurd hfewer hmore
  refine ⟨rc, h', hrun, hv', hentries, hundel, ?_⟩
  rcases hcases with ⟨-, -, hsmall⟩ | ⟨hrc, -, hshort⟩ | ⟨hrc, hn, hocc, -⟩
  · exact absurd (UInt32.le_iff_toNat_le.mp hsmall) (by omega)
  · exact .inl ⟨hrc, hshort⟩
  · exact .inr ⟨hrc, by rw [hv'.upperBound, hn, hocc]; exact hroom⟩

/-- The table gets room for one more key, or stays as it is when memory is short.
From `2 ^ 30` keys on the number of buckets may not be a number of 32 bits. -/
theorem makeRoom_eq (hv : Valid hash h) (alloc : Alloc K V) (hsize : h.size.toNat < 2 ^ 30) :
    ∃ rc h', makeRoom hash alloc h = some (rc, h') ∧ Valid hash h' ∧ h'.entries = h.entries ∧
      (h.Undeleted → h'.Undeleted) ∧
      (rc = -1 ∧ (alloc.flags = false ∨ alloc.keys = false ∨ alloc.vals = false) ∨
        rc = 0 ∧ h'.nOccupied.toNat < h'.upperBound.toNat) := by
  unfold makeRoom
  by_cases hfull : h.upperBound ≤ h.nOccupied
  · rw [if_pos hfull]
    have hocc := hv.nOccupied_le
    rcases hv.buckets with ⟨hzero, hflags⟩ | ⟨k, hs⟩
    · have hnone : h.size.toNat = 0 := by
        rw [hv.size, hzero]
        rfl
      have hsize0 : h.size = 0 := UInt32.toNat_inj.mp hnone
      rw [if_neg (by rw [hzero, hsize0]; decide), hzero]
      exact khResize_room hv alloc (by rw [hzero]; decide) (by rw [hnone]; decide)
    · have hfour := hs.four_le
      have hshift : (h.size <<< 1).toNat = 2 * h.size.toNat := by
        have h1 : (1 : UInt32).toNat % 32 = 1 := rfl
        rw [UInt32.toNat_shiftLeft, h1, Nat.shiftLeft_eq, Nat.mod_eq_of_lt (by omega)]
        omega
      by_cases hhalf : h.size <<< 1 < h.nBuckets
      · rw [if_pos hhalf]
        rw [UInt32.lt_iff_toNat_lt, hshift] at hhalf
        apply khResize_room hv alloc
        · rw [resizeTo_pred hs]
          exact UInt32.lt_irrefl _
        · rw [resizeTo_pred hs, toNat_upperBoundOf]
          omega
      · rw [if_neg hhalf]
        rw [UInt32.lt_iff_toNat_lt, hshift] at hhalf
        have hk : k < 31 := by
          by_contra hge
          have hpow : 2 ^ 31 ≤ 2 ^ k := Nat.pow_le_pow_right (by omega) (by omega)
          have hn := hs.nBuckets
          omega
        have hlive : h.size.toNat ≤ h.nOccupied.toNat := by
          rw [hv.size, hv.nOccupied]
          exact Finset.card_le_card (liveSet_subset_usedSet _ _)
        rw [hv.upperBound, toNat_upperBoundOf] at hocc
        apply khResize_room hv alloc
        · rw [UInt32.lt_iff_toNat_lt, toNat_resizeTo_succ hs hk]
          omega
        · rw [toNat_upperBoundOf, toNat_resizeTo_succ hs hk]
          omega
  · rw [if_neg hfull]
    have hlt := UInt32.lt_iff_toNat_lt.mp (UInt32.not_le.mp hfull)
    exact ⟨0, h, rfl, hv, rfl, id, .inr ⟨rfl, hlt⟩⟩

theorem Valid.sized (hv : Valid hash h) (hroom : h.nOccupied.toNat < h.upperBound.toNat) :
    ∃ k, Sized h.flags h.nBuckets k := by
  rcases hv.buckets with ⟨hzero, -⟩ | hs
  · rw [hv.upperBound, hzero] at hroom
    exact absurd hroom (by simp [upperBoundOf])
  · exact hs

end MakeRoom

/-- No live bucket holds the key. -/
def Absent (h : KHash K V) (key : K) : Prop :=
  ∀ i ∈ liveSet h.flags h.nBuckets.toNat, h.keys[i]? ≠ some key

section Bucket

variable [DecidableEq K] {key : K} {k : ℕ}

/-- A bucket that a put has passed and may use, or none yet. -/
def SiteOk (hash : K → UInt32) (h : KHash K V) (key : K) (site : UInt32) : Prop :=
  site = h.nBuckets ∨ site.toNat < h.nBuckets.toNat ∧ liveBit h.flags site.toNat = false ∧
    OnWay h.flags h.nBuckets.toNat (hash key).toNat site.toNat

/-- The loop of a put goes on to where the search stops. -/
theorem putLoop_eq (hs : Sized h.flags h.nBuckets k) (hkeys : h.nBuckets.toNat ≤ h.keys.length)
    {t T fuel : ℕ} {last i step site : UInt32} (hstops : Stops hash h key T)
    (hlast : last.toNat = probe h.nBuckets.toNat (hash key).toNat 0)
    (hi : i.toNat = probe h.nBuckets.toNat (hash key).toNat t) (hstep : step.toNat = t)
    (hsite : SiteOk hash h key site) (hle : t ≤ T) (hfuel : T - t < fuel) :
    ∃ x site', putLoop h key (h.nBuckets - 1) last i step site fuel = some (h.nBuckets, x, site') ∧
      x.toNat = probe h.nBuckets.toNat (hash key).toNat T ∧ SiteOk hash h key site' := by
  have hpos : 0 < h.nBuckets.toNat := Nat.lt_of_lt_of_le (by omega) hs.four_le
  induction fuel generalizing t i step site with
  | zero => omega
  | succ fuel ih =>
    have hlt : i.toNat < h.nBuckets.toNat := hi ▸ probe_lt hpos _ _
    have hgoes := probing_eq hs hkeys key hlt
    unfold putLoop
    rw [hgoes]
    by_cases heq : t = T
    · rw [hi, heq, hstops.stop]
      exact ⟨i, site, rfl, by rw [hi, heq], hsite⟩
    · have hTlt := hstops.lt
      obtain ⟨hnext, hsucc⟩ := hs.toNat_next hi hstep (by omega)
      have hne : (i + (step + 1)) &&& (h.nBuckets - 1) ≠ last := by
        intro hback
        have hplace := congrArg UInt32.toNat hback
        rw [hnext, hlast, hs.nBuckets] at hplace
        exact probe_ne_start (by omega) (by rw [← hs.nBuckets]; omega) hplace
      have hsite₁ : SiteOk hash h key (if delBit h.flags i.toNat = true then i else site) := by
        cases hdel : delBit h.flags i.toNat with
        | false => exact hsite
        | true =>
          refine .inr ⟨hlt, ?_, hi ▸ hstops.onWay hle⟩
          simp only [if_true, liveBit, hdel, Bool.or_true, Bool.not_true]
      obtain ⟨x, site', hx, hval, hok⟩ := ih hnext hsucc hsite₁ (by omega) (by omega)
      refine ⟨x, site', ?_, hval, hok⟩
      rw [hi, hstops.before t (by omega)]
      simp only [Option.bind_eq_bind, Option.bind_some, if_true,
        acIsdel_eq (hs.div_lt (hs.nBuckets ▸ hlt))]
      rw [if_neg hne]
      exact hx

/-- The bucket of a put: the one that holds the key, or one for a key that the
table does not hold. -/
theorem putBucket_eq (hv : Valid hash h) (hs : Sized h.flags h.nBuckets k) (key : K) :
    ∃ x, putBucket hash h key = some x ∧ x.toNat < h.nBuckets.toNat ∧
      OnWay h.flags h.nBuckets.toNat (hash key).toNat x.toNat ∧
      (liveBit h.flags x.toNat = true ∧ h.keys[x.toNat]? = some key ∨
        liveBit h.flags x.toNat = false ∧ Absent h key) := by
  have hpos : 0 < h.nBuckets.toNat := Nat.lt_of_lt_of_le (by omega) hs.four_le
  obtain ⟨T, hstops⟩ := exists_stops hv hs key
  have hstart := hs.toNat_start (hash key)
  have hlt : (hash key &&& (h.nBuckets - 1)).toNat < h.nBuckets.toNat :=
    hstart ▸ probe_lt hpos _ _
  unfold putBucket
  simp only [Option.bind_eq_bind]
  rw [acIsempty_eq (hs.div_lt (hs.nBuckets ▸ hlt)), Option.bind_some]
  by_cases hfirst : emptyBit h.flags (hash key &&& (h.nBuckets - 1)).toNat = true
  · have hT : T = 0 := by
      by_contra hne
      have hgo := hstops.before 0 (by omega)
      rw [← hstart, goesOn, hfirst] at hgo
      exact absurd hgo (by simp)
    subst hT
    have hdead : liveBit h.flags (probe h.nBuckets.toNat (hash key).toNat 0) = false := by
      rw [liveBit, ← hstart, hfirst]
      rfl
    refine ⟨_, by rw [if_pos hfirst]; rfl, hlt, ?_, .inr ⟨?_, hstops.absent hv hdead⟩⟩
    · rw [hstart]
      exact hstops.onWay (Nat.le_refl 0)
    · rw [hstart]
      exact hdead
  · obtain ⟨i, site, hloop, hi, hsite⟩ := putLoop_eq hs hv.keys hstops hstart hstart
      UInt32.toNat_zero (.inl rfl) (Nat.zero_le T)
      (show T - 0 < 2 * h.nBuckets.toNat by have hTlt := hstops.lt; omega)
    have hilt : i.toNat < h.nBuckets.toNat := hi ▸ probe_lt hpos _ _
    rw [if_neg hfirst, hloop, Option.bind_some, if_pos rfl,
      acIsempty_eq (hs.div_lt (hs.nBuckets ▸ hilt)), Option.bind_some]
    have hway : OnWay h.flags h.nBuckets.toNat (hash key).toNat i.toNat :=
      hi ▸ hstops.onWay (Nat.le_refl T)
    cases hlive : liveBit h.flags i.toNat with
    | true =>
      have hbits := hlive
      unfold liveBit at hbits
      rw [Bool.not_eq_true', Bool.or_eq_false_iff] at hbits
      refine ⟨i, ?_, hilt, hway, .inl ⟨hlive, ?_⟩⟩
      · rw [if_neg (by rw [hbits.1]; simp)]
        rfl
      · rw [hi] at hlive ⊢
        exact hstops.getElem_keys hlive
    | false =>
      have habsent := hstops.absent hv (hi ▸ hlive)
      have hempty := hstops.emptyBit_true (hi ▸ hlive)
      rw [← hi] at hempty
      by_cases hnone : site = h.nBuckets
      · refine ⟨i, ?_, hilt, hway, .inr ⟨hlive, habsent⟩⟩
        rw [if_neg (fun hboth => hboth.2 hnone)]
        rfl
      · obtain ⟨hslt, hsdead, hsway⟩ := hsite.resolve_left hnone
        refine ⟨site, ?_, hslt, hsway, .inr ⟨hsdead, habsent⟩⟩
        rw [if_pos ⟨hempty, hnone⟩]
        rfl

end Bucket

section Store

variable {key : K} {x : UInt32}

theorem absent_iff (h : KHash K V) (key : K) :
    Absent h key ↔ some key ∉ h.entries.map Prod.fst := by
  rw [KHash.entries, held, Multiset.map_map, Multiset.mem_map]
  constructor
  · intro habsent hmem
    obtain ⟨i, hi, hkey⟩ := hmem
    exact habsent i hi hkey
  · intro hnot i hi hkey
    exact hnot ⟨i, hi, hkey⟩

/-- A bucket that was not live gets a key, and is live. -/
theorem live_acSetIsbothFalse {flags : List UInt32} {n : ℕ} (hin : x.toNat / 16 < flags.length)
    (hx : x.toNat < n) :
    ∃ flags', acSetIsbothFalse flags x = some flags' ∧ flags'.length = flags.length ∧
      liveSet flags' n = insert x.toNat (liveSet flags n) ∧
      usedSet flags' n = insert x.toNat (usedSet flags n) ∧
      ∀ j, emptyBit flags j = false → emptyBit flags' j = false := by
  obtain ⟨flags', hset, hlen, hempty, hdel⟩ := acSetIsbothFalse_eq hin
  refine ⟨flags', hset, hlen, ?_, ?_, ?_⟩
  · ext j
    rw [Finset.mem_insert, mem_liveSet, mem_liveSet, liveBit, liveBit, hempty, hdel]
    by_cases hj : j = x.toNat
    · simp [hj, hx]
    · simp [hj]
  · ext j
    rw [Finset.mem_insert, mem_usedSet, mem_usedSet, hempty]
    by_cases hj : j = x.toNat
    · simp [hj, hx]
    · simp [hj]
  · intro j hj
    rw [hempty, hj, ite_self]

theorem entries_store {flags : List UInt32} {nOccupied : UInt32} {v : V}
    (hx : x.toNat < h.keys.length) (hval : h.vals[x.toNat]? = some v)
    (hfree : x.toNat ∉ liveSet h.flags h.nBuckets.toNat)
    (hlive : liveSet flags h.nBuckets.toNat = insert x.toNat (liveSet h.flags h.nBuckets.toNat)) :
    ({ h with
      keys := h.keys.set x.toNat key, flags := flags, size := h.size + 1,
      nOccupied := nOccupied } : KHash K V).entries = (some key, some v) ::ₘ h.entries := by
  unfold KHash.entries
  simp only
  rw [hlive, held_insert hfree (f := fun i => (h.keys[i]?, h.vals[i]?)) (fun j hj => ?_),
    List.getElem?_set_self hx, hval]
  have hne : x.toNat ≠ j := fun heq => hfree (heq.symm ▸ hj)
  rw [List.getElem?_set_ne hne]

/-- The table after a new key has been stored in a bucket that was not live. -/
theorem Valid.store (hv : Valid hash h) {flags : List UInt32} {nOccupied : UInt32} {v : V}
    (hx : x.toNat < h.nBuckets.toNat) (hval : h.vals[x.toNat]? = some v)
    (hdead : liveBit h.flags x.toNat = false)
    (hway : OnWay h.flags h.nBuckets.toNat (hash key).toNat x.toNat) (habsent : Absent h key)
    (hlen : flags.length = h.flags.length)
    (hlive : liveSet flags h.nBuckets.toNat = insert x.toNat (liveSet h.flags h.nBuckets.toNat))
    (hempty : ∀ j, emptyBit h.flags j = false → emptyBit flags j = false)
    (hocc : nOccupied.toNat = (usedSet flags h.nBuckets.toNat).card)
    (hle : nOccupied.toNat ≤ h.upperBound.toNat) :
    Valid hash { h with
        keys := h.keys.set x.toNat key, flags := flags, size := h.size + 1,
        nOccupied := nOccupied } ∧
      ({ h with
        keys := h.keys.set x.toNat key, flags := flags, size := h.size + 1,
        nOccupied := nOccupied } : KHash K V).entries = (some key, some v) ::ₘ h.entries := by
  have hfree : x.toNat ∉ liveSet h.flags h.nBuckets.toNat := by
    intro hin
    rw [mem_liveSet, hdead] at hin
    exact absurd hin.2 (by simp)
  have hklt : x.toNat < h.keys.length := Nat.lt_of_lt_of_le hx hv.keys
  have hentries : ({ h with
      keys := h.keys.set x.toNat key, flags := flags, size := h.size + 1,
      nOccupied := nOccupied } : KHash K V).entries = (some key, some v) ::ₘ h.entries :=
    entries_store hklt hval hfree hlive
  refine ⟨?_, hentries⟩
  exact
    { buckets := by
        rcases hv.buckets with ⟨hzero, -⟩ | ⟨k, hs⟩
        · rw [hzero] at hx
          exact absurd hx (by simp)
        · exact .inr ⟨k, hs.nBuckets, hs.two_le, hlen.trans hs.flags⟩
      upperBound := hv.upperBound
      keys := by rw [List.length_set]; exact hv.keys
      vals := hv.vals
      size := by
        have hbound := h.nBuckets.toNat_lt
        have hcard := liveSet_card_le flags h.nBuckets.toNat
        simp only
        rw [hlive, Finset.card_insert_of_notMem hfree] at hcard ⊢
        rw [UInt32.toNat_add, UInt32.toNat_one, hv.size, Nat.mod_eq_of_lt (by omega)]
      nOccupied := hocc
      nOccupied_le := hle
      distinct := by
        rw [injOn_iff_nodup, hentries, Multiset.map_cons, Multiset.nodup_cons]
        exact ⟨(absent_iff h key).mp habsent, (injOn_iff_nodup h).mp hv.distinct⟩
      onWay := by
        intro j hj key' hkey'
        simp only at hj hkey'
        refine OnWay.mono ?_ hempty
        rw [hlive, Finset.mem_insert] at hj
        by_cases heq : j = x.toNat
        · rw [heq, List.getElem?_set_self hklt] at hkey'
          rw [heq, ← Option.some.inj hkey']
          exact hway
        · rw [List.getElem?_set_ne (Ne.symm heq)] at hkey'
          exact hv.onWay j (hj.resolve_left heq) key' hkey' }

/-- The end of a put, at a bucket that holds the key or may take it. -/
theorem storeKey_eq {k : ℕ} (hv : Valid hash h) (hs : Sized h.flags h.nBuckets k)
    (hroom : h.nOccupied.toNat < h.upperBound.toNat) (hx : x.toNat < h.nBuckets.toNat)
    (hway : OnWay h.flags h.nBuckets.toNat (hash key).toNat x.toNat) :
    (liveBit h.flags x.toNat = true → storeKey h key x = some (x, 0, h)) ∧
      (liveBit h.flags x.toNat = false → Absent h key → ∃ ret h' v,
        storeKey h key x = some (x, ret, h') ∧ (ret = 1 ∨ ret = 2) ∧ Valid hash h' ∧
        h'.nBuckets = h.nBuckets ∧ x.toNat ∈ liveSet h'.flags h'.nBuckets.toNat ∧
        h'.keys[x.toNat]? = some key ∧ h'.vals[x.toNat]? = some v ∧
        h'.entries = (some key, some v) ::ₘ h.entries ∧
        (h.Undeleted → ret = 1 ∧ h'.Undeleted)) := by
  have hin : x.toNat / 16 < h.flags.length := hs.div_lt (hs.nBuckets ▸ hx)
  have hklt : x.toNat < h.keys.length := Nat.lt_of_lt_of_le hx hv.keys
  have hvlt : x.toNat < h.vals.length := Nat.lt_of_lt_of_le hx hv.vals
  constructor
  · intro hlive
    unfold liveBit at hlive
    rw [Bool.not_eq_true', Bool.or_eq_false_iff] at hlive
    unfold storeKey
    rw [acIsempty_eq hin, acIsdel_eq hin, hlive.1, hlive.2]
    rfl
  · intro hdead habsent
    obtain ⟨flags, hset, hlen, hlive, hused, hempty⟩ := live_acSetIsbothFalse hin hx
    have hval : h.vals[x.toNat]? = some h.vals[x.toNat] := List.getElem?_eq_getElem hvlt
    have hmem : x.toNat ∈ liveSet flags h.nBuckets.toNat := by
      rw [hlive]
      exact Finset.mem_insert_self _ _
    have hkey : (h.keys.set x.toNat key)[x.toNat]? = some key := List.getElem?_set_self hklt
    unfold storeKey
    rw [acIsempty_eq hin, acIsdel_eq hin]
    simp only [Option.bind_eq_bind, Option.bind_some, List.getElem?_eq_getElem hklt, hset]
    cases hbit : emptyBit h.flags x.toNat with
    | true =>
      have hocc : (h.nOccupied + 1).toNat = (usedSet flags h.nBuckets.toNat).card := by
        have hbound := h.upperBound.toNat_lt
        have hnot : x.toNat ∉ usedSet h.flags h.nBuckets.toNat := by
          intro hmem
          rw [mem_usedSet, hbit] at hmem
          exact absurd hmem.2 (by simp)
        rw [hused, Finset.card_insert_of_notMem hnot, UInt32.toNat_add, UInt32.toNat_one,
          ← hv.nOccupied, Nat.mod_eq_of_lt (by omega)]
      obtain ⟨hv', hentries⟩ := hv.store hx hval hdead hway habsent hlen hlive hempty hocc (by
        have hsucc : (h.nOccupied + 1).toNat = h.nOccupied.toNat + 1 := by
          have hbound := h.upperBound.toNat_lt
          rw [UInt32.toNat_add, UInt32.toNat_one, Nat.mod_eq_of_lt (by omega)]
        omega)
      refine ⟨1, _, h.vals[x.toNat], rfl, .inl rfl, hv', rfl, hmem, hkey, hval, hentries, ?_⟩
      intro hnone
      exact ⟨rfl, congrArg (· + 1) hnone⟩
    | false =>
      have hdel : delBit h.flags x.toNat = true := by
        rw [liveBit, hbit, Bool.false_or, Bool.not_eq_false'] at hdead
        exact hdead
      have hocc : h.nOccupied.toNat = (usedSet flags h.nBuckets.toNat).card := by
        have hmem : x.toNat ∈ usedSet h.flags h.nBuckets.toNat := mem_usedSet.mpr ⟨hx, hbit⟩
        rw [hused, Finset.insert_eq_of_mem hmem]
        exact hv.nOccupied
      obtain ⟨hv', hentries⟩ := hv.store hx hval hdead hway habsent hlen hlive hempty hocc
        hv.nOccupied_le
      refine ⟨2, _, h.vals[x.toNat], by rw [hdel]; rfl, .inr rfl, hv', rfl, hmem, hkey, hval,
        hentries, ?_⟩
      intro hnone
      have hsame := Finset.eq_of_subset_of_card_le
        (liveSet_subset_usedSet h.flags h.nBuckets.toNat)
        (by rw [← hv.size, ← hv.nOccupied, hnone])
      have hlive := mem_usedSet.mpr ⟨hx, hbit⟩
      rw [← hsame, mem_liveSet, hdead] at hlive
      exact absurd hlive.2 (by simp)

end Store

/-- What a put can do: nothing, when memory is short; nothing but find the bucket of
a key that is there; or give a bucket to a key that is not, whose value is what the
bucket held. -/
theorem khPut_eq [DecidableEq K] (hv : Valid hash h) (alloc : Alloc K V) (key : K)
    (hsize : h.size.toNat < 2 ^ 30) :
    ∃ x ret h', khPut hash alloc h key = some (x, ret, h') ∧ Valid hash h' ∧
      (h.Undeleted → ret ≠ 2 ∧ h'.Undeleted) ∧
      (ret = -1 ∧ (alloc.flags = false ∨ alloc.keys = false ∨ alloc.vals = false) ∧
          h'.entries = h.entries ∨
        ret = 0 ∧ x.toNat ∈ liveSet h'.flags h'.nBuckets.toNat ∧
          h'.keys[x.toNat]? = some key ∧ h'.entries = h.entries ∨
        (ret = 1 ∨ ret = 2) ∧ x.toNat ∈ liveSet h'.flags h'.nBuckets.toNat ∧
          h'.keys[x.toNat]? = some key ∧ some key ∉ h.entries.map Prod.fst ∧
          ∃ v, h'.vals[x.toNat]? = some v ∧ h'.entries = (some key, some v) ::ₘ h.entries) := by
  obtain ⟨rc, h₁, hmake, hv₁, hentries, hundel, hcases⟩ := makeRoom_eq hv alloc hsize
  unfold khPut
  simp only [Option.bind_eq_bind, hmake, Option.bind_some]
  rcases hcases with ⟨rfl, hshort⟩ | ⟨rfl, hroom⟩
  · exact ⟨h₁.nBuckets, -1, h₁, rfl, hv₁, fun hnone => ⟨by decide, hundel hnone⟩,
      .inl ⟨rfl, hshort, hentries⟩⟩
  · obtain ⟨k, hs⟩ := hv₁.sized hroom
    obtain ⟨x, hbucket, hx, hway, hfound⟩ := putBucket_eq hv₁ hs key
    obtain ⟨hold, hnew⟩ := storeKey_eq hv₁ hs hroom hx hway
    have hnonneg : ¬ (0 : Int32) < 0 := by decide
    rw [if_neg hnonneg, hbucket, Option.bind_some]
    rcases hfound with ⟨hlive, hkey⟩ | ⟨hdead, habsent⟩
    · exact ⟨x, 0, h₁, hold hlive, hv₁, fun hnone => ⟨by decide, hundel hnone⟩,
        .inr (.inl ⟨rfl, mem_liveSet.mpr ⟨hx, hlive⟩, hkey, hentries⟩)⟩
    · obtain ⟨ret, h', v, hstore, hret, hv', -, hmem, hkey, hval, hcons, hone⟩ :=
        hnew hdead habsent
      refine ⟨x, ret, h', hstore, hv', fun hnone => ?_,
        .inr (.inr ⟨hret, hmem, hkey, ?_, v, hval, ?_⟩)⟩
      · obtain ⟨rfl, hundel'⟩ := hone (hundel hnone)
        exact ⟨by decide, hundel'⟩
      · rw [← hentries]
        exact (absent_iff h₁ key).mp habsent
      · rw [hcons, hentries]

/-- A value is written through an iterator. -/
theorem khSetValue_eq (hv : Valid hash h) {x : UInt32}
    (hx : x.toNat ∈ liveSet h.flags h.nBuckets.toNat) (v : V) :
    ∃ h', khSetValue h x v = some h' ∧ Valid hash h' ∧ h'.keys = h.keys ∧
      h'.flags = h.flags ∧ h'.nBuckets = h.nBuckets ∧
      (h.keys[x.toNat]?, h.vals[x.toNat]?) ::ₘ h'.entries =
        (h.keys[x.toNat]?, some v) ::ₘ h.entries := by
  have hvlt : x.toNat < h.vals.length := Nat.lt_of_lt_of_le (mem_liveSet.mp hx).1 hv.vals
  have hentries : (h.keys[x.toNat]?, h.vals[x.toNat]?) ::ₘ
      ({ h with vals := h.vals.set x.toNat v } : KHash K V).entries =
        (h.keys[x.toNat]?, some v) ::ₘ h.entries := by
    have hself : (h.vals.set x.toNat v)[x.toNat]? = some v := List.getElem?_set_self hvlt
    have hreplace := held_replace (f := fun i => (h.keys[i]?, h.vals[i]?))
      (g := fun i => (h.keys[i]?, (h.vals.set x.toNat v)[i]?)) hx (fun j _ hne => by
        rw [List.getElem?_set_ne (Ne.symm hne)])
    rw [hself] at hreplace
    exact hreplace
  refine ⟨{ h with vals := h.vals.set x.toNat v }, ?_, ?_, rfl, rfl, rfl, hentries⟩
  · rw [khSetValue, List.getElem?_eq_getElem hvlt]
    rfl
  · exact { hv with vals := by rw [List.length_set]; exact hv.vals }

/-- A deletion takes the pair of its bucket away, and does nothing at the end of
the buckets. -/
theorem khDel_eq (hv : Valid hash h) (x : UInt32) :
    (x = h.nBuckets → khDel h x = some h) ∧
      (x.toNat ∈ liveSet h.flags h.nBuckets.toNat → ∃ h', khDel h x = some h' ∧ Valid hash h' ∧
        h.entries = (h.keys[x.toNat]?, h.vals[x.toNat]?) ::ₘ h'.entries) := by
  refine ⟨fun hend => by rw [khDel, if_pos hend]; rfl, ?_⟩
  intro hx
  obtain ⟨hlt, hlive⟩ := mem_liveSet.mp hx
  have hne : x ≠ h.nBuckets := by
    intro heq
    rw [heq] at hlt
    exact absurd hlt (Nat.lt_irrefl _)
  have hin : x.toNat / 16 < h.flags.length := by
    rcases hv.buckets with ⟨hzero, -⟩ | ⟨k, hs⟩
    · rw [hzero] at hlt
      exact absurd hlt (by simp)
    · exact hs.div_lt (hs.nBuckets ▸ hlt)
  obtain ⟨flags, hset, hlen, herase, hused⟩ := acSetIsdelTrue_live (n := h.nBuckets.toNat) hin
  have hempty : ∀ j, emptyBit h.flags j = false → emptyBit flags j = false := by
    obtain ⟨flags', hset', -, hsame, -⟩ := acSetIsdelTrue_eq hin
    rw [hset] at hset'
    intro j hj
    rw [Option.some.inj hset', hsame, hj]
  have hentries : h.entries = (h.keys[x.toNat]?, h.vals[x.toNat]?) ::ₘ
      ({ h with flags := flags, size := h.size - 1 } : KHash K V).entries := by
    unfold KHash.entries
    simp only
    rw [herase]
    exact held_erase hx
  have hbits := hlive
  unfold liveBit at hbits
  rw [Bool.not_eq_true'] at hbits
  refine ⟨{ h with flags := flags, size := h.size - 1 }, ?_, ?_, hentries⟩
  · unfold khDel
    rw [if_neg hne, acIseither_eq hin, hbits, hset]
    rfl
  · exact
      { buckets := by
          rcases hv.buckets with ⟨hzero, -⟩ | ⟨k, hs⟩
          · rw [hzero] at hlt
            exact absurd hlt (by simp)
          · exact .inr ⟨k, hs.nBuckets, hs.two_le, hlen.trans hs.flags⟩
        upperBound := hv.upperBound
        keys := hv.keys
        vals := hv.vals
        size := by
          have hpos : 0 < (liveSet h.flags h.nBuckets.toNat).card := Finset.card_pos.mpr ⟨_, hx⟩
          simp only
          rw [herase, Finset.card_erase_of_mem hx, UInt32.toNat_sub_of_le _ _ (by
            rw [UInt32.le_iff_toNat_le, UInt32.toNat_one, hv.size]; omega), hv.size,
            UInt32.toNat_one]
        nOccupied := by
          simp only
          rw [hused]
          exact hv.nOccupied
        nOccupied_le := hv.nOccupied_le
        distinct := by
          have hnodup := (injOn_iff_nodup h).mp hv.distinct
          rw [hentries, Multiset.map_cons, Multiset.nodup_cons] at hnodup
          exact (injOn_iff_nodup _).mpr hnodup.2
        onWay := by
          intro j hj key hkey
          simp only at hj
          rw [herase] at hj
          exact (hv.onWay j (Finset.mem_of_mem_erase hj) key hkey).mono hempty }

/-- After a clearing there is no pair. -/
theorem khClear_eq (hv : Valid hash h) : Valid hash (khClear h) ∧ (khClear h).entries = 0 := by
  unfold khClear
  rcases hv.buckets with ⟨hzero, hflags⟩ | ⟨k, hs⟩
  · rw [if_pos hflags]
    refine ⟨hv, ?_⟩
    rw [KHash.entries, hzero]
    rfl
  · have hne : h.flags ≠ [] := by
      intro hnil
      have hlt := hs.div_lt (i := 0) (Nat.pow_pos (by omega))
      rw [hnil] at hlt
      exact absurd hlt (by simp)
    rw [if_neg hne]
    have hin : ∀ i < h.nBuckets.toNat, i / 16 < (acFsize h.nBuckets).toNat :=
      fun i hi => div_lt_acFsize hs.nBuckets hi
    have hused : usedSet (emptyFlags h.nBuckets) h.nBuckets.toNat = ∅ := by
      apply Finset.eq_empty_of_forall_notMem
      intro i hi
      rw [mem_usedSet] at hi
      rw [(emptyBit_emptyFlags (hin i hi.1)).1] at hi
      exact absurd hi.2 (by simp)
    have hlive : liveSet (emptyFlags h.nBuckets) h.nBuckets.toNat = ∅ :=
      Finset.subset_empty.mp (hused ▸ liveSet_subset_usedSet _ _)
    refine ⟨?_, by rw [KHash.entries]; simp only [hlive]; rfl⟩
    exact
      { buckets := .inr ⟨k, hs.nBuckets, hs.two_le, emptyFlags_length _⟩
        upperBound := hv.upperBound
        keys := hv.keys
        vals := hv.vals
        size := by simp only [hlive]; rfl
        nOccupied := by simp only [hused]; rfl
        nOccupied_le := Nat.zero_le _
        distinct := by simp only [hlive]; exact fun i hi => absurd hi (Finset.notMem_empty i)
        onWay := by
          intro i hi
          simp only [hlive] at hi
          exact absurd hi (Finset.notMem_empty i) }

end SeaStore.Hash
