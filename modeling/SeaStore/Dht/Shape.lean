import SeaStore.Dht.Ranges
import SeaStore.Dht.Routing

/-!
The shape of a routing table. The buckets partition the ids; the own bucket is
the range of all ids that begin as the own id does, for as many bits as there
have been splits, and which of the other buckets an id belongs to is a matter
of how many bits it has in common with the own id.
-/
namespace SeaStore.Dht

open Posix Controller Ranges

/-- The first ids of the buckets, as numbers. -/
def firsts (bs : List Bucket) : List ℕ := bs.map fun b => b.first.value

/-- The bits of an id behind those that all ids of the own bucket have in common. -/
def ownWidth (ends : List ℕ) : ℕ := 161 - ends.length

structure Shape (myid : NodeId) (ends : List ℕ) : Prop where
  head : ends.head? = some 0
  sorted : ends.Pairwise (· < ·)
  length_le : ends.length ≤ 161
  own : ∀ m, locate myid.value ends = some m →
    ends[m]? = some (myid.value / 2 ^ ownWidth ends * 2 ^ ownWidth ends) ∧
      (ends[m + 1]?).getD (2 ^ 160) =
        (myid.value / 2 ^ ownWidth ends + 1) * 2 ^ ownWidth ends
  common : ∀ a b : NodeId, locate a.value ends = locate b.value ends ↔
    min (ends.length - 1) (commonBits a myid) = min (ends.length - 1) (commonBits b myid)

theorem findBucket_eq_locate (id : NodeId) (bs : List Bucket) :
    findBucket id bs = locate id.value (firsts bs) := by
  induction bs with
  | nil => rfl
  | cons b bs ih =>
    cases bs with
    | nil => rfl
    | cons next bs =>
      have hcond : idCmp id next.first = .lt ↔ id.value < next.first.value := idCmp_lt
      rw [findBucket, firsts, List.map_cons, List.map_cons, locate_cons_cons]
      by_cases hlt : id.value < next.first.value
      · rw [if_pos (hcond.mpr hlt), if_pos hlt]
      · rw [if_neg (fun h => hlt (hcond.mp h)), if_neg hlt, ih]
        rfl

theorem findBucket_ne_none {id : NodeId} {bs : List Bucket} :
    findBucket id bs ≠ none ↔ bs ≠ [] := by
  constructor
  · rintro hne rfl
    exact hne rfl
  · intro hne
    have hfirsts : firsts bs ≠ [] := fun hnil => hne (List.map_eq_nil_iff.mp hnil)
    obtain ⟨i, -, hi⟩ := exists_locate hfirsts id.value
    rw [findBucket_eq_locate, hi]
    simp

/-- The bucket that is found is there. -/
theorem findBucket_get {id : NodeId} {bs : List Bucket} {i : ℕ}
    (hfind : findBucket id bs = some i) : ∃ b, bs[i]? = some b := by
  have hne : firsts bs ≠ [] := by
    intro hnil
    obtain rfl := List.map_eq_nil_iff.mp hnil
    exact absurd hfind (by simp [findBucket])
  obtain ⟨j, hj, hloc⟩ := exists_locate hne id.value
  rw [findBucket_eq_locate, hloc] at hfind
  obtain rfl := Option.some.inj hfind
  rw [firsts, List.length_map] at hj
  exact ⟨_, List.getElem?_eq_getElem hj⟩

/-- A bucket that there is contains just the ids that are looked for there. -/
theorem inBucket_iff {id : NodeId} {bs : List Bucket} {i : ℕ}
    (hhead : (firsts bs).head? = some 0) (hsorted : (firsts bs).Pairwise (· < ·)) :
    inBucket id bs i = true ↔ findBucket id bs = some i := by
  have hfirst : ∀ j : ℕ, (firsts bs)[j]? = (bs[j]?).map fun b => b.first.value := by
    intro j
    rw [firsts, List.getElem?_map]
  rw [findBucket_eq_locate, locate_eq_some_iff hsorted, hfirst, hfirst, firsts, List.length_map]
  unfold inBucket
  cases hb : bs[i]? with
  | none =>
    have hlen := List.getElem?_eq_none_iff.mp hb
    exact iff_of_false (by simp) fun hat => absurd hat.1 (by omega)
  | some b =>
    have hlt : i < bs.length := (List.getElem?_eq_some_iff.mp hb).1
    have hge : idCmp b.first id ≠ .gt ↔ b.first.value ≤ id.value := by
      rw [idCmp_eq_compare, Ne, Nat.compare_eq_gt]
      exact Nat.not_lt
    have hzero : i = 0 → b.first.value = 0 := by
      intro hi
      subst hi
      have hget : (firsts bs)[0]? = some b.first.value := by rw [hfirst, hb]; rfl
      rw [← List.head?_eq_getElem?, hhead] at hget
      exact (Option.some.inj hget).symm
    have hlower : b.first.value ≤ id.value ↔
        ∀ e, i ≠ 0 → (some b).map (fun b => b.first.value) = some e → e ≤ id.value := by
      constructor
      · intro hle e _ he
        rw [← Option.some.inj he]
        exact hle
      · intro hall
        by_cases hi : i = 0
        · rw [hzero hi]
          exact Nat.zero_le _
        · exact hall _ hi rfl
    rw [Bool.and_eq_true, decide_eq_true_eq, hge, hlower]
    cases hnext : bs[i + 1]? with
    | none => simp [hlt]
    | some next => simp [hlt, idCmp_lt]

section OrByte

/-- The mask of a bit that is counted from the start. -/
theorem toNat_mask {j : ℕ} (hj : j < 8) : (0x80 >>> UInt8.ofNat j : UInt8).toNat = 2 ^ (7 - j) := by
  have hall : ∀ j : ℕ, j < 8 → (0x80 >>> UInt8.ofNat j : UInt8).toNat = 2 ^ (7 - j) := by decide
  exact hall j hj

theorem value_orByte (id : NodeId) {bit : ℕ} (hbit : bit < 160) :
    (id.orByte (bit / 8) (0x80 >>> UInt8.ofNat (bit % 8))).value =
      id.value ||| 2 ^ (159 - bit) := by
  have hr : bit % 8 < 8 := Nat.mod_lt _ (by omega)
  have hi : bit / 8 < id.bytes.length := by rw [id.size]; omega
  have hidx : 8 * (id.bytes.length - 1 - bit / 8) + (7 - bit % 8) = 159 - bit := by
    rw [id.size]
    omega
  rw [NodeId.value, NodeId.orByte, beNat_set_or hi (by omega) (toNat_mask hr), hidx]
  rfl

end OrByte

section Split

variable {myid : NodeId} {bs : List Bucket} {m : ℕ} {b : Bucket}

theorem Shape.exists_locate (hs : Shape myid (firsts bs)) (id : NodeId) :
    ∃ i < bs.length, findBucket id bs = some i := by
  have hne : firsts bs ≠ [] := by
    intro hnil
    have hhead := hs.head
    rw [hnil] at hhead
    exact absurd hhead (by simp)
  obtain ⟨i, hi, hloc⟩ := Ranges.exists_locate hne id.value
  rw [firsts, List.length_map] at hi
  exact ⟨i, hi, by rw [findBucket_eq_locate, hloc]⟩

/-- One of the two ends of the own bucket is an odd multiple of its width `2 ^ w`. -/
theorem middleBit_eq {w q : ℕ} (hwle : w ≤ 160) (hfirst : b.first.value = q * 2 ^ w)
    (hhigh : (((bs[m + 1]?).map fun b => b.first.value).getD (2 ^ 160)) = (q + 1) * 2 ^ w) :
    middleBit bs m b.first = 160 - (w : ℤ) := by
  obtain ⟨hle1, hodd1⟩ := lowbit_of_mul hwle hfirst
  unfold middleBit
  cases hnext : bs[m + 1]? with
  | none =>
    rw [hnext, Option.map_none, Option.getD_none] at hhigh
    have hq1 : q + 1 = 2 ^ (160 - w) := by
      apply Nat.eq_of_mul_eq_mul_right (Nat.pow_pos (n := w) (by omega : 0 < 2))
      rw [← hhigh, ← Nat.pow_add, Nat.sub_add_cancel hwle]
    by_cases hw : w = 160
    · have hzero : b.first.value = 0 := by
        rw [hw] at hq1
        have hq0 : q = 0 := by simpa using hq1
        rw [hfirst, hq0, Nat.zero_mul]
      rcases lowbit_spec b.first with ⟨-, hlow'⟩ | ⟨l, -, -, hset, -⟩
      · simp only [hlow', hw]
        rfl
      · rw [hzero, Nat.zero_testBit] at hset
        exact absurd hset (by simp)
    · have hodd : q % 2 = 1 := by
        have hsplit : 2 ^ (160 - w) = 2 * 2 ^ (159 - w) := by
          rw [← Nat.pow_succ']
          congr 1
          omega
        omega
      have heq := hodd1 hodd
      simp only [heq]
      omega
  | some next =>
    rw [hnext, Option.map_some, Option.getD_some] at hhigh
    obtain ⟨hle2, hodd2⟩ := lowbit_of_mul hwle hhigh
    simp only
    rcases Nat.mod_two_eq_zero_or_one q with hq2 | hq2
    · have heq := hodd2 (by omega)
      omega
    · have heq := hodd1 hq2
      omega

/-- The middle of the own bucket is the first id whose next bit is set; the last bucket
of all cannot be split. -/
theorem Shape.bucketMiddle (hs : Shape myid (firsts bs)) (hm : findBucket myid bs = some m)
    (hb : bs[m]? = some b) :
    (ownWidth (firsts bs) = 0 → bucketMiddle bs m b = none) ∧
      (ownWidth (firsts bs) ≠ 0 → ∃ mid, bucketMiddle bs m b = some mid ∧
        mid.value = b.first.value + 2 ^ (ownWidth (firsts bs) - 1)) := by
  obtain ⟨hlow, hhigh⟩ := hs.own m (by rw [← findBucket_eq_locate, hm])
  have hwle : ownWidth (firsts bs) ≤ 160 := by
    have hne : firsts bs ≠ [] := by
      intro hnil
      have hhead := hs.head
      rw [hnil] at hhead
      exact absurd hhead (by simp)
    have hpos := List.length_pos_iff.mpr hne
    unfold ownWidth
    omega
  generalize ownWidth (firsts bs) = w at hlow hhigh hwle ⊢
  generalize hq : myid.value / 2 ^ w = q at hlow hhigh
  rw [firsts, List.getElem?_map] at hlow hhigh
  rw [hb] at hlow
  have hfirst : b.first.value = q * 2 ^ w := Option.some.inj hlow
  unfold Dht.bucketMiddle
  rw [middleBit_eq hwle hfirst hhigh]
  constructor
  · intro hw
    rw [hw]
    rfl
  · intro hw
    have hto : (160 - (w : ℤ)).toNat = 160 - w := by omega
    refine ⟨_, by simp only [hto]; rw [if_neg (by omega)], ?_⟩
    have hidx : 159 - (160 - w) = w - 1 := by omega
    have hlt : 2 ^ (w - 1) < 2 ^ w := Nat.pow_lt_pow_right (by omega) (by omega)
    rw [value_orByte _ (by omega), hidx, hfirst, Nat.mul_comm, Nat.two_pow_add_eq_or_of_lt hlt]

end Split

section Halves

variable {myid : NodeId} {pre post : List ℕ} {a : ℕ}

theorem two_pow_half {w : ℕ} (hw : w ≠ 0) : 2 ^ w = 2 * 2 ^ (w - 1) := by
  rw [← Nat.pow_succ', Nat.succ_eq_add_one, Nat.sub_add_cancel (by omega)]

/-- How many bits an id has in common with the own id, for the ids of the own bucket:
it is the next bit that decides on which side of the middle they are. -/
theorem commonBits_half {w q : ℕ} (hw : w ≠ 0) (hwle : w ≤ 160) {id : NodeId}
    (hmy : q * 2 ^ w ≤ myid.value ∧ myid.value < (q + 1) * 2 ^ w)
    (hid : q * 2 ^ w ≤ id.value ∧ id.value < (q + 1) * 2 ^ w) :
    161 - w ≤ commonBits id myid ↔
      (id.value < q * 2 ^ w + 2 ^ (w - 1) ↔ myid.value < q * 2 ^ w + 2 ^ (w - 1)) := by
  have hsplit := two_pow_half hw
  have hpos : 0 < 2 ^ (w - 1) := Nat.pow_pos (by omega)
  have hsub : 160 - (161 - w) = w - 1 := by omega
  -- the half of a number is its quotient by half the width
  have hhalf : ∀ v, q * 2 ^ w ≤ v → v < (q + 1) * 2 ^ w →
      v / 2 ^ (w - 1) = 2 * q + if v < q * 2 ^ w + 2 ^ (w - 1) then 0 else 1 := by
    intro v hlow hhigh
    have hlow' : q * 2 ^ w = 2 * q * 2 ^ (w - 1) := by rw [hsplit]; ring
    have hhigh' : (q + 1) * 2 ^ w = 2 * q * 2 ^ (w - 1) + 2 * 2 ^ (w - 1) := by rw [hsplit]; ring
    rw [hlow'] at hlow ⊢
    rw [hhigh'] at hhigh
    by_cases hlt : v < 2 * q * 2 ^ (w - 1) + 2 ^ (w - 1)
    · rw [if_pos hlt, Nat.add_zero]
      exact Nat.div_eq_of_lt_le hlow (by rw [Nat.add_mul, Nat.one_mul]; exact hlt)
    · rw [if_neg hlt]
      refine Nat.div_eq_of_lt_le ?_ ?_
      · rw [Nat.add_mul, Nat.one_mul]
        omega
      · rw [Nat.add_mul, Nat.add_mul, Nat.one_mul]
        omega
  rw [le_commonBits_iff (by omega), hsub, hhalf _ hid.1 hid.2, hhalf _ hmy.1 hmy.2]
  by_cases h1 : id.value < q * 2 ^ w + 2 ^ (w - 1)
  · by_cases h2 : myid.value < q * 2 ^ w + 2 ^ (w - 1)
    · simp [h1, h2]
    · simp [h1, h2]
  · by_cases h2 : myid.value < q * 2 ^ w + 2 ^ (w - 1)
    · simp [h1, h2]
    · simp [h1, h2]

theorem commonBits_self (id : NodeId) : commonBits id id = 160 := by
  have hge := (le_commonBits_iff (a := id) (b := id) (Nat.le_refl 160)).mpr rfl
  rcases (commonBits_spec id id).2 with heq | ⟨hlt, -⟩
  · exact heq
  · omega

/-- The own bucket is that of the ids with as many bits in common as there were splits. -/
theorem Shape.locate_own {ends : List ℕ} (hs : Shape myid ends) (id : NodeId) :
    locate id.value ends = locate myid.value ends ↔ ends.length - 1 ≤ commonBits id myid := by
  have hlen := hs.length_le
  rw [hs.common, commonBits_self]
  omega

/-- The own range, from `a` on, as a multiple `q` of its width `2 ^ w`. -/
structure OwnRange (myid : NodeId) (pre : List ℕ) (a : ℕ) (post : List ℕ) (w q : ℕ) : Prop where
  shape : Shape myid (pre ++ a :: post)
  own : locate myid.value (pre ++ a :: post) = some pre.length
  width : (pre ++ a :: post).length + w = 161
  low : a = q * 2 ^ w
  high : post.head?.getD (2 ^ 160) = (q + 1) * 2 ^ w
  mine : q * 2 ^ w ≤ myid.value ∧ myid.value < (q + 1) * 2 ^ w

theorem Shape.ownRange (hs : Shape myid (pre ++ a :: post))
    (hm : locate myid.value (pre ++ a :: post) = some pre.length) :
    ∃ q, OwnRange myid pre a post (ownWidth (pre ++ a :: post)) q := by
  obtain ⟨hlow, hhigh⟩ := hs.own pre.length hm
  have hwidth : (pre ++ a :: post).length + ownWidth (pre ++ a :: post) = 161 := by
    have hle := hs.length_le
    unfold ownWidth
    omega
  generalize ownWidth (pre ++ a :: post) = w at hlow hhigh hwidth ⊢
  have hpos : 0 < 2 ^ w := Nat.pow_pos (by omega)
  refine ⟨myid.value / 2 ^ w, hs, hm, hwidth, by simpa using hlow, ?_, Nat.div_mul_le_self _ _, ?_⟩
  · rw [List.getElem?_append_right (by omega), Nat.add_sub_cancel_left, List.getElem?_cons_succ,
      ← List.head?_eq_getElem?] at hhigh
    exact hhigh
  · rw [Nat.add_mul, Nat.one_mul, Nat.mul_comm]
    have hmod := Nat.mod_lt myid.value hpos
    have hdm := Nat.div_add_mod myid.value (2 ^ w)
    omega

section OwnRange

variable {w q : ℕ}

/-- The middle lies within the own range. -/
theorem OwnRange.mid_lt (h : OwnRange myid pre a post w q) (hw : w ≠ 0) :
    ∀ e ∈ post, a + 2 ^ (w - 1) < e := by
  have hpos : 0 < 2 ^ (w - 1) := Nat.pow_pos (by omega)
  have hhalf := two_pow_half hw
  have htop : (q + 1) * 2 ^ w = q * 2 ^ w + 2 ^ w := by ring
  have hlow := h.low
  have hhigh := h.high
  have hpost := (List.pairwise_cons.mp (List.pairwise_append.mp h.shape.sorted).2.1).2
  intro e he
  cases post with
  | nil => exact absurd he (by simp)
  | cons p ps =>
    rw [List.head?_cons, Option.getD_some] at hhigh
    rcases List.mem_cons.mp he with rfl | hin
    · omega
    · have hlt := (List.pairwise_cons.mp hpost).1 e hin
      omega

theorem OwnRange.locate_split (h : OwnRange myid pre a post w q) (hw : w ≠ 0) (v : ℕ) :
    locate v (pre ++ a :: (a + 2 ^ (w - 1)) :: post) =
      (locate v (pre ++ a :: post)).map (side pre.length (a + 2 ^ (w - 1)) v) :=
  locate_insert v pre a _ post fun e he => h.mid_lt hw e (List.mem_of_mem_head? he)

theorem OwnRange.sorted_split (h : OwnRange myid pre a post w q) (hw : w ≠ 0) :
    (pre ++ a :: (a + 2 ^ (w - 1)) :: post).Pairwise (· < ·) := by
  have hpos : 0 < 2 ^ (w - 1) := Nat.pow_pos (by omega)
  obtain ⟨hpre, hback, hcross⟩ := List.pairwise_append.mp h.shape.sorted
  obtain ⟨hapost, hpost⟩ := List.pairwise_cons.mp hback
  rw [List.pairwise_append]
  refine ⟨hpre, List.pairwise_cons.mpr ⟨?_, List.pairwise_cons.mpr ⟨h.mid_lt hw, hpost⟩⟩, ?_⟩
  · intro e he
    rcases List.mem_cons.mp he with rfl | hin
    · omega
    · exact hapost e hin
  · intro p hp e he
    have hpa := hcross p hp a (List.mem_cons_self ..)
    rcases List.mem_cons.mp he with rfl | hin
    · exact hpa
    · rcases List.mem_cons.mp hin with rfl | hin'
      · omega
      · exact hcross p hp e (List.mem_cons_of_mem a hin')

/-- The ids of the own range, as numbers. -/
theorem OwnRange.within (h : OwnRange myid pre a post w q) {id : NodeId}
    (hid : locate id.value (pre ++ a :: post) = some pre.length) :
    q * 2 ^ w ≤ id.value ∧ id.value < (q + 1) * 2 ^ w := by
  obtain ⟨-, hge, hlt⟩ := (locate_eq_some_iff h.shape.sorted).mp hid
  have hlow := h.low
  have hhigh := h.high
  constructor
  · by_cases hzero : pre.length = 0
    · obtain rfl := List.length_eq_zero_iff.mp hzero
      have h0 : a = 0 := by simpa using h.shape.head
      omega
    · have hle := hge a hzero (by simp)
      omega
  · rw [← hhigh]
    cases post with
    | nil => exact id.value_lt
    | cons p ps => exact hlt p (by simp)

/-- Of the ids of the own range, those on the side of the own id have a bit more in common
with it. -/
theorem OwnRange.half_iff (h : OwnRange myid pre a post w q) (hw : w ≠ 0) (id : NodeId)
    (hid : locate id.value (pre ++ a :: post) = some pre.length) :
    (pre ++ a :: post).length ≤ commonBits id myid ↔
      (id.value < a + 2 ^ (w - 1) ↔ myid.value < a + 2 ^ (w - 1)) := by
  have hwidth := h.width
  have hlen : (pre ++ a :: post).length = 161 - w := by omega
  have hwle : w ≤ 160 := by
    rw [List.length_append, List.length_cons] at hwidth
    omega
  rw [hlen, h.low]
  exact commonBits_half hw hwle h.mine (h.within hid)

/-- The half with the own id in it is its range after the split. -/
theorem OwnRange.own_split (h : OwnRange myid pre a post w q) (hw : w ≠ 0) {m : ℕ}
    (hm : locate myid.value (pre ++ a :: (a + 2 ^ (w - 1)) :: post) = some m) :
    (pre ++ a :: (a + 2 ^ (w - 1)) :: post)[m]? =
        some (myid.value / 2 ^ (w - 1) * 2 ^ (w - 1)) ∧
      ((pre ++ a :: (a + 2 ^ (w - 1)) :: post)[m + 1]?).getD (2 ^ 160) =
        (myid.value / 2 ^ (w - 1) + 1) * 2 ^ (w - 1) := by
  have hhalf := two_pow_half hw
  obtain ⟨hge, hlt⟩ := h.mine
  have hlow := h.low
  have hhigh := h.high
  rw [hhalf] at hge hlt hlow hhigh
  rw [h.locate_split hw, h.own, Option.map_some, side_self] at hm
  have hm := Option.some.inj hm
  by_cases hside : myid.value < a + 2 ^ (w - 1)
  · rw [if_pos hside] at hm
    have hdiv : myid.value / 2 ^ (w - 1) = 2 * q :=
      Nat.div_eq_of_lt_le (by linarith) (by linarith)
    rw [← hm, hdiv]
    constructor
    · rw [List.getElem?_append_right (Nat.le_refl _), Nat.sub_self, List.getElem?_cons_zero, hlow]
      congr 1
      ring
    · rw [List.getElem?_append_right (by omega), Nat.add_sub_cancel_left,
        List.getElem?_cons_succ, List.getElem?_cons_zero, Option.getD_some, hlow]
      ring
  · rw [if_neg hside] at hm
    have hdiv : myid.value / 2 ^ (w - 1) = 2 * q + 1 :=
      Nat.div_eq_of_lt_le (by linarith) (by linarith)
    rw [← hm, hdiv]
    constructor
    · rw [List.getElem?_append_right (by omega), Nat.add_sub_cancel_left,
        List.getElem?_cons_succ, List.getElem?_cons_zero, hlow]
      congr 1
      ring
    · have hidx : pre.length + 1 + 1 - pre.length = 2 := by omega
      rw [List.getElem?_append_right (by omega), hidx, List.getElem?_cons_succ,
        List.getElem?_cons_succ, ← List.head?_eq_getElem?, hhigh]
      ring

/-- After the split one bit more decides on the range of an id. -/
theorem OwnRange.common_split (h : OwnRange myid pre a post w q) (hw : w ≠ 0) (x y : NodeId) :
    locate x.value (pre ++ a :: (a + 2 ^ (w - 1)) :: post) =
        locate y.value (pre ++ a :: (a + 2 ^ (w - 1)) :: post) ↔
      min (pre ++ a :: post).length (commonBits x myid) =
        min (pre ++ a :: post).length (commonBits y myid) := by
  obtain ⟨i, -, hloci⟩ := Ranges.exists_locate (show pre ++ a :: post ≠ [] by simp) x.value
  obtain ⟨j, -, hlocj⟩ := Ranges.exists_locate (show pre ++ a :: post ≠ [] by simp) y.value
  have hlen : 1 ≤ (pre ++ a :: post).length := by
    rw [List.length_append, List.length_cons]
    omega
  have hxown : i = pre.length ↔ (pre ++ a :: post).length - 1 ≤ commonBits x myid := by
    rw [← h.shape.locate_own, h.own, hloci, Option.some.injEq]
  have hyown : j = pre.length ↔ (pre ++ a :: post).length - 1 ≤ commonBits y myid := by
    rw [← h.shape.locate_own, h.own, hlocj, Option.some.injEq]
  have hxhalf := fun hx : i = pre.length => h.half_iff hw x (by rw [hloci, hx])
  have hyhalf := fun hy : j = pre.length => h.half_iff hw y (by rw [hlocj, hy])
  have hxy := h.shape.common x y
  rw [hloci, hlocj, Option.some.injEq] at hxy
  rw [h.locate_split hw, h.locate_split hw, hloci, hlocj, Option.map_some, Option.map_some,
    Option.some.injEq, side_eq_iff]
  by_cases hx : i = pre.length
  · have hxhalf := hxhalf hx
    by_cases hy : j = pre.length
    · have hyhalf := hyhalf hy
      omega
    · omega
  · omega

end OwnRange

/-- The own range is split in two halves. -/
theorem Shape.split (hs : Shape myid (pre ++ a :: post))
    (hm : locate myid.value (pre ++ a :: post) = some pre.length)
    (hw : ownWidth (pre ++ a :: post) ≠ 0) {mid : ℕ}
    (hmid : mid = a + 2 ^ (ownWidth (pre ++ a :: post) - 1)) :
    Shape myid (pre ++ a :: mid :: post) := by
  obtain ⟨q, hrange⟩ := hs.ownRange hm
  have hlen : (pre ++ a :: mid :: post).length = (pre ++ a :: post).length + 1 := by
    simp only [List.length_append, List.length_cons]
    omega
  have hwidth := hrange.width
  have hw' : ownWidth (pre ++ a :: mid :: post) = ownWidth (pre ++ a :: post) - 1 := by
    unfold ownWidth
    rw [hlen]
    omega
  rw [hmid] at hlen hw' ⊢
  refine ⟨?_, hrange.sorted_split hw, by omega, fun m hloc => ?_, fun x y => ?_⟩
  · have hhead := hs.head
    cases pre with
    | nil => exact hhead
    | cons p ps => exact hhead
  · rw [hw']
    exact hrange.own_split hw hloc
  · rw [hlen, Nat.add_sub_cancel]
    exact hrange.common_split hw x y

end Halves

end SeaStore.Dht
