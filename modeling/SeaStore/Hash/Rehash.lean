import SeaStore.Hash.Table

/-!
A resize in place. What is still to be moved, what has been moved and the pair
in hand are together always the same pairs; each key that is kicked out leaves
one fewer to be moved, so that the kicking ends.
-/
namespace SeaStore.Hash

open Probe Slots

variable {K V : Type} {hash : K → UInt32}

/-- The pairs of the old buckets that are still to be moved, and of the new ones
that have been taken. -/
def Rehash.entries (s : Rehash K V) (n m : ℕ) : Multiset (Option K × Option V) :=
  held (fun i => (s.keys[i]?, s.vals[i]?)) (liveSet s.flags n ∪ usedSet s.newFlags m)

/-- A rehash on its way from `n` to `m` buckets. -/
structure Rehashing (hash : K → UInt32) (n m : UInt32) (k : ℕ) (s : Rehash K V) : Prop where
  sized : Sized s.newFlags m k
  flags : ∀ i < n.toNat, i / 16 < s.flags.length
  keys : n.toNat ≤ s.keys.length ∧ m.toNat ≤ s.keys.length
  vals : n.toNat ≤ s.vals.length ∧ m.toNat ≤ s.vals.length
  undeleted : ∀ i < m.toNat, delBit s.newFlags i = false
  disjoint : Disjoint (liveSet s.flags n.toNat) (usedSet s.newFlags m.toNat)
  onWay : ∀ i ∈ usedSet s.newFlags m.toNat, ∀ key, s.keys[i]? = some key →
    OnWay s.newFlags m.toNat (hash key).toNat i

section Flags

variable {flags : List UInt32} {n : ℕ}

/-- A bucket that is marked as deleted is no longer live. -/
theorem acSetIsdelTrue_live {i : UInt32} (hin : i.toNat / 16 < flags.length) :
    ∃ flags', acSetIsdelTrue flags i = some flags' ∧ flags'.length = flags.length ∧
      liveSet flags' n = (liveSet flags n).erase i.toNat ∧ usedSet flags' n = usedSet flags n := by
  obtain ⟨flags', hset, hlen, hempty, hdel⟩ := acSetIsdelTrue_eq hin
  refine ⟨flags', hset, hlen, ?_, ?_⟩
  · ext j
    rw [Finset.mem_erase, mem_liveSet, mem_liveSet, liveBit, liveBit, hempty, hdel]
    by_cases hj : j = i.toNat
    · simp [hj]
    · simp [hj]
  · ext j
    rw [mem_usedSet, mem_usedSet, hempty]

/-- A bucket of the new flags is taken. -/
theorem acSetIsemptyFalse_used {i : UInt32} (hin : i.toNat / 16 < flags.length)
    (hi : i.toNat < n) :
    ∃ flags', acSetIsemptyFalse flags i = some flags' ∧ flags'.length = flags.length ∧
      usedSet flags' n = insert i.toNat (usedSet flags n) ∧
      (∀ j, emptyBit flags j = false → emptyBit flags' j = false) ∧
      ∀ j, delBit flags' j = delBit flags j := by
  obtain ⟨flags', hset, hlen, hempty, hdel⟩ := acSetIsemptyFalse_eq hin
  refine ⟨flags', hset, hlen, ?_, ?_, hdel⟩
  · ext j
    rw [Finset.mem_insert, mem_usedSet, mem_usedSet, hempty]
    by_cases hj : j = i.toNat
    · simp [hj, hi]
    · simp [hj]
  · intro j hj
    rw [hempty, hj, ite_self]

end Flags

section FreeBucket

variable {newFlags : List UInt32} {m : UInt32} {k : ℕ}

/-- The loop for a free bucket goes on to the first one on the way. -/
theorem freeBucket_eq (hs : Sized newFlags m k) {start t T fuel : ℕ} {i step : UInt32}
    (hT : T < m.toNat) (hstop : emptyBit newFlags (probe m.toNat start T) = true)
    (hbefore : ∀ s < T, emptyBit newFlags (probe m.toNat start s) = false)
    (hi : i.toNat = probe m.toNat start t) (hstep : step.toNat = t) (hle : t ≤ T)
    (hfuel : T - t < fuel) :
    ∃ x, freeBucket newFlags (m - 1) i step fuel = some x ∧ x.toNat = probe m.toNat start T := by
  have hpos : 0 < m.toNat := Nat.lt_of_lt_of_le (by omega) hs.four_le
  induction fuel generalizing t i step with
  | zero => omega
  | succ fuel ih =>
    have hlt : i.toNat < m.toNat := hi ▸ probe_lt hpos _ _
    unfold freeBucket
    rw [acIsempty_eq (hs.div_lt (hs.nBuckets ▸ hlt)), hi]
    by_cases heq : t = T
    · subst heq
      rw [hstop]
      exact ⟨i, rfl, hi⟩
    · obtain ⟨hnext, hsucc⟩ := hs.toNat_next hi hstep (by omega)
      rw [hbefore t (by omega)]
      exact ih hnext hsucc (by omega) (by omega)

/-- While not all new buckets are taken a free one is found on the way of any key. -/
theorem exists_freeBucket (hs : Sized newFlags m k)
    (hroom : (usedSet newFlags m.toNat).card < m.toNat) (x : UInt32) :
    ∃ i, freeBucket newFlags (m - 1) (x &&& (m - 1)) 0 ((m - 1).toNat + 1) = some i ∧
      i.toNat < m.toNat ∧ emptyBit newFlags i.toNat = true ∧
      OnWay newFlags m.toNat x.toNat i.toNat := by
  have hpos : 0 < m.toNat := Nat.lt_of_lt_of_le (by omega) hs.four_le
  obtain ⟨i, hi, hfree⟩ := exists_free hroom
  have hempty : emptyBit newFlags i = true := by
    by_contra hne
    exact hfree (mem_usedSet.mpr ⟨hi, by simpa using hne⟩)
  obtain ⟨T, hT, hstop, hbefore⟩ := exists_first_probe k x.toNat
    (show ∃ i < 2 ^ k, emptyBit newFlags i = true from ⟨i, hs.nBuckets ▸ hi, hempty⟩)
  rw [← hs.nBuckets] at hT hstop hbefore
  have hbefore' : ∀ s < T, emptyBit newFlags (probe m.toNat x.toNat s) = false :=
    fun s hs => by simpa using hbefore s hs
  obtain ⟨y, hy, hval⟩ := freeBucket_eq hs hT hstop hbefore' (hs.toNat_start x)
    UInt32.toNat_zero (Nat.zero_le T)
    (show T - 0 < (m - 1).toNat + 1 by rw [hs.toNat_mask, ← hs.nBuckets]; omega)
  exact ⟨y, hy, hval ▸ probe_lt hpos _ _, hval ▸ hstop, T, hT, hval.symm, hbefore'⟩

end FreeBucket

section KickOut

variable {n m : UInt32} {k : ℕ} {s : Rehash K V}

theorem OnWay.mono {flags flags' : List UInt32} {n start i : ℕ} (hway : OnWay flags n start i)
    (hempty : ∀ j, emptyBit flags j = false → emptyBit flags' j = false) :
    OnWay flags' n start i := by
  obtain ⟨t, ht, hplace, hbefore⟩ := hway
  exact ⟨t, ht, hplace, fun r hr => hempty _ (hbefore r hr)⟩

/-- The state when a pair has been put into its new bucket `i`, whatever becomes of
the old flags. -/
theorem Rehashing.place (hr : Rehashing hash n m k s) {key : K} (val : V) {i : ℕ}
    {flags newFlags : List UInt32} (hi : i < m.toNat)
    (hway : OnWay s.newFlags m.toNat (hash key).toNat i)
    (hflags : flags.length = s.flags.length)
    (hlive : liveSet flags n.toNat = (liveSet s.flags n.toNat).erase i)
    (hlen : newFlags.length = s.newFlags.length)
    (hused : usedSet newFlags m.toNat = insert i (usedSet s.newFlags m.toNat))
    (hempty : ∀ j, emptyBit s.newFlags j = false → emptyBit newFlags j = false)
    (hdel : ∀ j, delBit newFlags j = delBit s.newFlags j) :
    Rehashing hash n m k ⟨flags, newFlags, s.keys.set i key, s.vals.set i val⟩ where
  sized := ⟨hr.sized.nBuckets, hr.sized.two_le, hlen.trans hr.sized.flags⟩
  flags := fun j hj => hflags ▸ hr.flags j hj
  keys := by rw [List.length_set]; exact hr.keys
  vals := by rw [List.length_set]; exact hr.vals
  undeleted := fun j hj => (hdel j).trans (hr.undeleted j hj)
  disjoint := by
    rw [hlive, hused, Finset.disjoint_insert_right]
    exact ⟨Finset.notMem_erase i _, hr.disjoint.mono_left (Finset.erase_subset i _)⟩
  onWay := by
    intro j hj key' hkey'
    simp only at hj hkey'
    rw [hused, Finset.mem_insert] at hj
    refine OnWay.mono ?_ hempty
    by_cases heq : j = i
    · subst heq
      rw [List.getElem?_set_self (Nat.lt_of_lt_of_le hi hr.keys.2)] at hkey'
      rw [← Option.some.inj hkey']
      exact hway
    · rw [List.getElem?_set_ne (Ne.symm heq)] at hkey'
      exact hr.onWay j (hj.resolve_left heq) key' hkey'

theorem set_pair_ne {keys : List K} {vals : List V} {key : K} {val : V} {i j : ℕ} (hne : j ≠ i) :
    ((keys.set i key)[j]?, (vals.set i val)[j]?) = (keys[j]?, vals[j]?) := by
  rw [List.getElem?_set_ne (Ne.symm hne), List.getElem?_set_ne (Ne.symm hne)]

theorem set_pair_self {keys : List K} {vals : List V} {key : K} {val : V} {i : ℕ}
    (hkey : i < keys.length) (hval : i < vals.length) :
    ((keys.set i key)[i]?, (vals.set i val)[i]?) = (some key, some val) := by
  rw [List.getElem?_set_self hkey, List.getElem?_set_self hval]

/-- A pair goes to a bucket that nothing was in. -/
theorem Rehash.entries_place {n m i : ℕ} {flags newFlags : List UInt32} {key : K} {val : V}
    (hkey : i < s.keys.length) (hval : i < s.vals.length)
    (hlive : liveSet flags n = liveSet s.flags n)
    (hused : usedSet newFlags m = insert i (usedSet s.newFlags m))
    (hold : i ∉ liveSet s.flags n) (hnew : i ∉ usedSet s.newFlags m) :
    (⟨flags, newFlags, s.keys.set i key, s.vals.set i val⟩ : Rehash K V).entries n m =
      (some key, some val) ::ₘ s.entries n m := by
  have hfree : i ∉ liveSet s.flags n ∪ usedSet s.newFlags m := by
    rw [Finset.mem_union]
    exact fun hin => hin.elim hold hnew
  have hne : ∀ j ∈ liveSet s.flags n ∪ usedSet s.newFlags m, j ≠ i :=
    fun j hj heq => hfree (heq ▸ hj)
  unfold Rehash.entries
  simp only
  rw [hlive, hused, Finset.union_insert, held_insert hfree (fun j hj => set_pair_ne (hne j hj)),
    set_pair_self hkey hval]

/-- A pair goes to a bucket whose own pair is to be moved. -/
theorem Rehash.entries_kick {n m i : ℕ} {flags newFlags : List UInt32} (key : K) (val : V)
    (hkey : i < s.keys.length) (hval : i < s.vals.length)
    (hlive : liveSet flags n = (liveSet s.flags n).erase i)
    (hused : usedSet newFlags m = insert i (usedSet s.newFlags m))
    (hold : i ∈ liveSet s.flags n) :
    (s.keys[i]?, s.vals[i]?) ::ₘ
        (⟨flags, newFlags, s.keys.set i key, s.vals.set i val⟩ : Rehash K V).entries n m =
      (some key, some val) ::ₘ s.entries n m := by
  have hunion : (liveSet s.flags n).erase i ∪ insert i (usedSet s.newFlags m) =
      liveSet s.flags n ∪ usedSet s.newFlags m := by
    ext j
    simp only [Finset.mem_union, Finset.mem_erase, Finset.mem_insert]
    by_cases heq : j = i
    · simp [heq, hold]
    · simp [heq]
  have hin : i ∈ liveSet s.flags n ∪ usedSet s.newFlags m := Finset.mem_union_left _ hold
  unfold Rehash.entries
  simp only
  rw [hlive, hused, hunion,
    held_replace hin (fun j _ hne => set_pair_ne hne),
    set_pair_self hkey hval]

theorem usedSet_card_le (s : Rehash K V) (n m : ℕ) :
    (usedSet s.newFlags m).card ≤ (s.entries n m).card := by
  rw [Rehash.entries, card_held]
  exact Finset.card_le_card Finset.subset_union_right

/-- The kicking out ends, with the pair in hand put down and none of the others lost. -/
theorem kickOut_eq {fuel : ℕ} (hr : Rehashing hash n m k s) (key : K) (val : V)
    (hroom : (s.entries n.toNat m.toNat).card < m.toNat)
    (hfuel : (liveSet s.flags n.toNat).card < fuel) :
    ∃ s', kickOut hash n (m - 1) s key val fuel = some s' ∧ Rehashing hash n m k s' ∧
      s'.entries n.toNat m.toNat = (some key, some val) ::ₘ s.entries n.toNat m.toNat ∧
      liveSet s'.flags n.toNat ⊆ liveSet s.flags n.toNat := by
  induction fuel generalizing s key val with
  | zero => omega
  | succ fuel ih =>
    have hused := usedSet_card_le s n.toNat m.toNat
    obtain ⟨i, hfree, hi, hempty, hway⟩ := exists_freeBucket hr.sized (by omega) (hash key)
    have hnew : i.toNat ∉ usedSet s.newFlags m.toNat := by
      intro hin
      rw [mem_usedSet, hempty] at hin
      exact absurd hin.2 (by simp)
    obtain ⟨newFlags, hset, hlen, hins, hkeep, hdel⟩ := acSetIsemptyFalse_used (n := m.toNat)
      (hr.sized.div_lt (hr.sized.nBuckets ▸ hi)) hi
    have hkey : i.toNat < s.keys.length := Nat.lt_of_lt_of_le hi hr.keys.2
    have hval : i.toNat < s.vals.length := Nat.lt_of_lt_of_le hi hr.vals.2
    unfold kickOut
    rw [hfree]
    simp only [Option.bind_eq_bind, Option.bind_some, hset, List.getElem?_eq_getElem hkey,
      List.getElem?_eq_getElem hval]
    by_cases hold : i.toNat ∈ liveSet s.flags n.toNat
    · -- another pair is there: it goes on, and there is one fewer to be moved
      obtain ⟨hin, hlive⟩ := mem_liveSet.mp hold
      obtain ⟨flags, hmark, hflags, herase, -⟩ := acSetIsdelTrue_live (n := n.toNat)
        (hr.flags i.toNat hin)
      have hplace := hr.place val hi hway hflags herase hlen hins hkeep hdel
      have hkick := Rehash.entries_kick key val hkey hval herase hins hold
      rw [List.getElem?_eq_getElem hkey, List.getElem?_eq_getElem hval] at hkick
      have hcard := congrArg Multiset.card hkick
      rw [Multiset.card_cons, Multiset.card_cons] at hcard
      have hfewer := Finset.card_erase_add_one hold
      obtain ⟨s', hrun, hr', hentries, hsub⟩ := ih hplace s.keys[i.toNat] s.vals[i.toNat]
        (by omega) (by simp only [herase]; omega)
      refine ⟨s', ?_, hr', hentries.trans hkick, ?_⟩
      · have hlt : i < n := UInt32.lt_iff_toNat_lt.mpr hin
        unfold liveBit at hlive
        rw [if_pos hlt, acIseither_eq (hr.flags i.toNat hin), Option.map_some, hlive, hmark]
        exact hrun
      · exact hsub.trans (by simp only [herase]; exact Finset.erase_subset _ _)
    · -- the bucket was free: the pair stays there
      have herase : liveSet s.flags n.toNat = (liveSet s.flags n.toNat).erase i.toNat :=
        (Finset.erase_eq_of_notMem hold).symm
      refine ⟨⟨s.flags, newFlags, s.keys.set i.toNat key, s.vals.set i.toNat val⟩, ?_,
        hr.place val hi hway rfl herase hlen hins hkeep hdel,
        Rehash.entries_place hkey hval rfl hins hold hnew, Finset.Subset.refl _⟩
      by_cases hlt : i < n
      · have hin : i.toNat < n.toNat := UInt32.lt_iff_toNat_lt.mp hlt
        have hdead : liveBit s.flags i.toNat = false := by
          by_contra hne
          exact hold (mem_liveSet.mpr ⟨hin, by simpa using hne⟩)
        unfold liveBit at hdead
        rw [if_pos hlt, acIseither_eq (hr.flags i.toNat hin), Option.map_some, hdead]
        rfl
      · rw [if_neg hlt]
        rfl

/-- The pair of a bucket is taken into the hand. -/
theorem Rehash.entries_take {n m j : ℕ} {flags : List UInt32}
    (hlive : liveSet flags n = (liveSet s.flags n).erase j)
    (hold : j ∈ liveSet s.flags n) (hdisj : Disjoint (liveSet s.flags n) (usedSet s.newFlags m)) :
    s.entries n m =
      (s.keys[j]?, s.vals[j]?) ::ₘ ({ s with flags := flags } : Rehash K V).entries n m := by
  have hnew : j ∉ usedSet s.newFlags m := Finset.disjoint_left.mp hdisj hold
  have hunion : (liveSet s.flags n ∪ usedSet s.newFlags m).erase j =
      (liveSet s.flags n).erase j ∪ usedSet s.newFlags m := by
    rw [Finset.erase_union_distrib, Finset.erase_eq_of_notMem hnew]
  unfold Rehash.entries
  simp only
  rw [hlive, ← hunion]
  exact held_erase (Finset.mem_union_left _ hold)

/-- One round of the loop over the old buckets leaves its bucket with nothing to be moved. -/
theorem rehashLoop_round {j : UInt32} (hr : Rehashing hash n m k s)
    (hroom : (s.entries n.toNat m.toNat).card < m.toNat) (hlt : j.toNat < n.toNat) :
    ∃ s', Rehashing hash n m k s' ∧ s'.entries n.toNat m.toNat = s.entries n.toNat m.toNat ∧
      liveSet s'.flags n.toNat ⊆ (liveSet s.flags n.toNat).erase j.toNat ∧
      ∀ fuel, rehashLoop hash n (m - 1) s j (fuel + 1) =
        rehashLoop hash n (m - 1) s' (j + 1) fuel := by
  have hne : j ≠ n := fun heq => absurd (heq ▸ hlt) (Nat.lt_irrefl _)
  by_cases hold : j.toNat ∈ liveSet s.flags n.toNat
  · obtain ⟨flags, hmark, hflags, herase, -⟩ := acSetIsdelTrue_live (n := n.toNat)
      (hr.flags j.toNat hlt)
    have hlive := (mem_liveSet.mp hold).2
    have hkey : j.toNat < s.keys.length := Nat.lt_of_lt_of_le hlt hr.keys.1
    have hval : j.toNat < s.vals.length := Nat.lt_of_lt_of_le hlt hr.vals.1
    have htake := Rehash.entries_take herase hold hr.disjoint
    rw [List.getElem?_eq_getElem hkey, List.getElem?_eq_getElem hval] at htake
    have hr₁ : Rehashing hash n m k { s with flags := flags } :=
      { hr with
        flags := fun i hi => hflags ▸ hr.flags i hi
        disjoint := by
          simp only [herase]
          exact hr.disjoint.mono_left (Finset.erase_subset _ _) }
    have hcard := congrArg Multiset.card htake
    rw [Multiset.card_cons] at hcard
    have hfewer := liveSet_card_le flags n.toNat
    obtain ⟨s', hkick, hr', hentries, hsub⟩ := kickOut_eq hr₁
      s.keys[j.toNat] s.vals[j.toNat] (by omega)
      (show _ < n.toNat + 1 by simp only; omega)
    refine ⟨s', hr', by rw [hentries, ← htake], fun i hi => ?_, fun fuel => ?_⟩
    · have hmem := hsub hi
      simp only [herase] at hmem
      exact hmem
    · unfold liveBit at hlive
      rw [Bool.not_eq_true'] at hlive
      rw [rehashLoop, if_neg hne, acIseither_eq (hr.flags j.toNat hlt)]
      simp only [Option.bind_eq_bind, Option.bind_some, hlive, List.getElem?_eq_getElem hkey,
        List.getElem?_eq_getElem hval, hmark, hkick]
      rfl
  · have hdead : liveBit s.flags j.toNat = false := by
      by_contra hne
      exact hold (mem_liveSet.mpr ⟨hlt, by simpa using hne⟩)
    refine ⟨s, hr, rfl, by rw [Finset.erase_eq_of_notMem hold], fun fuel => ?_⟩
    unfold liveBit at hdead
    rw [Bool.not_eq_false'] at hdead
    rw [rehashLoop, if_neg hne, acIseither_eq (hr.flags j.toNat hlt)]
    simp only [Option.bind_eq_bind, Option.bind_some, hdead]
    rfl

/-- The loop over the old buckets leaves none to be moved. -/
theorem rehashLoop_eq {fuel : ℕ} {j : UInt32} (hr : Rehashing hash n m k s)
    (hroom : (s.entries n.toNat m.toNat).card < m.toNat) (hj : j.toNat ≤ n.toNat)
    (hdone : ∀ i ∈ liveSet s.flags n.toNat, j.toNat ≤ i) (hfuel : n.toNat - j.toNat < fuel) :
    ∃ s', rehashLoop hash n (m - 1) s j fuel = some s' ∧ Rehashing hash n m k s' ∧
      s'.entries n.toNat m.toNat = s.entries n.toNat m.toNat ∧
      liveSet s'.flags n.toNat = ∅ := by
  induction fuel generalizing s j with
  | zero => omega
  | succ fuel ih =>
    by_cases hend : j = n
    · refine ⟨s, by rw [rehashLoop, if_pos hend], hr, rfl, ?_⟩
      apply Finset.eq_empty_of_forall_notMem
      intro i hi
      have hge := hdone i hi
      have hlt := (mem_liveSet.mp hi).1
      rw [hend] at hge
      omega
    · have hlt : j.toNat < n.toNat := by
        rcases Nat.lt_or_eq_of_le hj with hlt | heq
        · exact hlt
        · exact absurd (UInt32.toNat_inj.mp heq) hend
      have hsucc : (j + 1).toNat = j.toNat + 1 := by
        have hbound := n.toNat_lt
        rw [UInt32.toNat_add, UInt32.toNat_one, Nat.mod_eq_of_lt (by omega)]
      obtain ⟨s₁, hr₁, hsame₁, hsub, hround⟩ := rehashLoop_round hr hroom hlt
      obtain ⟨s', hloop, hr', hsame, hempty⟩ := ih (j := j + 1) hr₁ (by rwa [hsame₁]) (by omega)
        (by
          intro i hi
          obtain ⟨hne, hmem⟩ := Finset.mem_erase.mp (hsub hi)
          have hge := hdone i hmem
          omega)
        (by omega)
      exact ⟨s', (hround fuel).trans hloop, hr', hsame.trans hsame₁, hempty⟩

end KickOut

end SeaStore.Hash
