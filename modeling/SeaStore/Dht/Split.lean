import SeaStore.Dht.Table

/-!
Splitting the bucket of the own id. The half with the own id in it gets half the
room, and the table keeps its invariant; the nodes are put in again one by one.
A node can only be lost to a full bucket that does not contain the own id.
-/
namespace SeaStore.Dht

open Posix Controller Ranges

/-- The bucket of the id is full, and it is not the own one, which could be split. -/
def Crowded (myid id : NodeId) (bs : List Bucket) : Prop :=
  ∃ i b, findBucket id bs = some i ∧ bs[i]? = some b ∧ b.maxCount ≤ b.count ∧
    findBucket myid bs ≠ some i

/-- The node is in the table, or there was no room for it. -/
def Accounted (myid : NodeId) (n : Node) (bs : List Bucket) : Prop :=
  n ∈ nodesOf bs ∨ Crowded myid n.id bs

section Room

variable {myid id : NodeId}

theorem roomOf_own {len : ℕ} (hown : len - 1 ≤ commonBits id myid) :
    roomOf myid id len = max (128 / 2 ^ (len - 1)) 8 := by
  rw [roomOf, Nat.min_eq_left hown]

theorem roomOf_other {len : ℕ} (hlt : commonBits id myid < len - 1) :
    roomOf myid id (len + 1) = roomOf myid id len := by
  rw [roomOf, roomOf, Nat.add_sub_cancel, Nat.min_eq_right (by omega),
    Nat.min_eq_right (by omega)]

theorem half_room (k : ℕ) :
    max (max (128 / 2 ^ k : ℤ) 8 / 2) 8 = max (128 / 2 ^ (k + 1)) 8 := by
  have hhalf : (128 / 2 ^ (k + 1) : ℤ) = 128 / 2 ^ k / 2 := by
    rw [pow_succ, Int.ediv_ediv_of_nonneg (by positivity)]
  rw [hhalf]
  omega

theorem eight_le_roomOf (len : ℕ) : 8 ≤ roomOf myid id len := le_max_right _ _

end Room

section Lists

variable {myid : NodeId} {af : Af} {pre post : List Bucket} {b : Bucket} {mid : NodeId}

/-- The two halves, of which the first or the second has the own id in it. -/
def lower (own : Bool) (b : Bucket) : Bucket :=
  { b with nodes := [], count := 0, maxCount := if own then max (b.maxCount / 2) 8 else b.maxCount }

def upper (own : Bool) (mid : NodeId) (b : Bucket) : Bucket :=
  ⟨mid, 0, if own then b.maxCount else max (b.maxCount / 2) 8, b.time, [], none⟩

theorem firsts_append : firsts (pre ++ b :: post) = firsts pre ++ b.first.value :: firsts post := by
  rw [firsts, List.map_append, List.map_cons]
  rfl

/-- The table with both halves in it. -/
def halves (own : Bool) (mid : NodeId) (pre : List Bucket) (b : Bucket) (post : List Bucket) :
    List Bucket :=
  pre ++ lower own b :: upper own mid b :: post

theorem firsts_halves (own : Bool) :
    firsts (halves own mid pre b post) =
      firsts pre ++ b.first.value :: mid.value :: firsts post := by
  rw [halves, firsts, List.map_append, List.map_cons, List.map_cons]
  rfl

theorem length_firsts (bs : List Bucket) : (firsts bs).length = bs.length := List.length_map ..

theorem modify_length_append (pre : List Bucket) (b : Bucket) (post : List Bucket)
    (f : Bucket → Bucket) : (pre ++ b :: post).modify pre.length f = pre ++ f b :: post := by
  induction pre with
  | nil => rfl
  | cons c pre ih => rw [List.cons_append, List.length_cons, List.modify_succ_cons, ih]; rfl

theorem splitAt_eq (myid mid : NodeId) (pre : List Bucket) (b : Bucket) (post : List Bucket) :
    ∃ own : Bool, own = inBucket myid (halves own mid pre b post) pre.length ∧
      splitAt myid mid (pre ++ b :: post) pre.length b = halves own mid pre b post := by
  have hmod : ∀ (c : Bucket) (cs : List Bucket) (f : Bucket → Bucket),
      (pre ++ c :: cs).modify pre.length f = pre ++ f c :: cs := by
    intro c cs f
    exact modify_length_append pre c cs f
  have hmod' : ∀ (c c' : Bucket) (cs : List Bucket) (f : Bucket → Bucket),
      (pre ++ c :: c' :: cs).modify (pre.length + 1) f = pre ++ c :: f c' :: cs := by
    intro c c' cs f
    have h := modify_length_append (pre ++ [c]) c' cs f
    rw [List.length_append, List.length_singleton] at h
    simpa using h
  have hins : ∀ (c : Bucket) (cs : List Bucket) (new : Bucket),
      (pre ++ c :: cs).insertIdx (pre.length + 1) new = pre ++ c :: new :: cs := by
    intro c cs new
    have h := Nearest.insertIdx_length_append (pre ++ [c]) cs new
    rw [List.length_append, List.length_singleton] at h
    simpa using h
  -- the test of the split sees the ranges only
  have hrange : ∀ lo lo' hi hi' : Bucket, lo.first = lo'.first → hi.first = hi'.first →
      inBucket myid (pre ++ lo :: hi :: post) pre.length =
        inBucket myid (pre ++ lo' :: hi' :: post) pre.length := by
    intro lo lo' hi hi' hlo hhi
    unfold inBucket
    simp [hlo, hhi]
  let own := inBucket myid (pre ++ { b with nodes := [], count := 0 } ::
    ⟨mid, 0, 0, b.time, [], none⟩ :: post) pre.length
  refine ⟨own, hrange _ _ _ _ rfl rfl, ?_⟩
  unfold splitAt
  simp only [hmod, hins]
  change (if own then _ else _) = _
  cases own with
  | true => rw [if_pos rfl, hmod']; rfl
  | false => rw [if_neg (by simp), hmod']; rfl

/-- The own bucket has been split at `mid`, and `own` tells whether the first half is the
own one now. -/
structure Halving (myid mid : NodeId) (own : Bool) (pre : List Bucket) (b : Bucket)
    (post : List Bucket) : Prop where
  shape : Shape myid (firsts (pre ++ b :: post))
  shape' : Shape myid (firsts (halves own mid pre b post))
  mine : findBucket myid (pre ++ b :: post) = some pre.length
  find : ∀ id, findBucket id (halves own mid pre b post) =
    (findBucket id (pre ++ b :: post)).map (side pre.length mid.value id.value)
  own_iff : own = true ↔ findBucket myid (halves own mid pre b post) = some pre.length

/-- Where an id is looked for after the split. -/
theorem findBucket_halves (hshape : Shape myid (firsts (pre ++ b :: post)))
    (hm : findBucket myid (pre ++ b :: post) = some pre.length)
    (hmid : bucketMiddle (pre ++ b :: post) pre.length b = some mid) (own : Bool) :
    Shape myid (firsts (halves own mid pre b post)) ∧
      ∀ id, findBucket id (halves own mid pre b post) =
        (findBucket id (pre ++ b :: post)).map (side pre.length mid.value id.value) := by
  have hb : (pre ++ b :: post)[pre.length]? = some b := by simp
  obtain ⟨hnone, hsome⟩ := hshape.bucketMiddle hm hb
  have hw : ownWidth (firsts (pre ++ b :: post)) ≠ 0 := by
    intro hw
    rw [hnone hw] at hmid
    exact absurd hmid (by simp)
  obtain ⟨mid', hmid', hval⟩ := hsome hw
  rw [hmid] at hmid'
  obtain rfl := Option.some.inj hmid'
  rw [firsts_append] at hshape hw hval
  have hlocate : locate myid.value (firsts pre ++ b.first.value :: firsts post) =
      some (firsts pre).length := by
    rw [← firsts_append, ← findBucket_eq_locate, length_firsts, hm]
  have hsplit := hshape.split hlocate hw hval
  refine ⟨by rw [firsts_halves]; exact hsplit, fun id => ?_⟩
  rw [findBucket_eq_locate, findBucket_eq_locate, firsts_halves, firsts_append, locate_insert,
    length_firsts]
  intro e he
  have hcross := (List.pairwise_append.mp hsplit.sorted).2.1
  have hmidpost := (List.pairwise_cons.mp (List.pairwise_cons.mp hcross).2).1
  exact hmidpost e (List.mem_of_mem_head? he)

theorem TableOk.halving (hok : TableOk myid af (pre ++ b :: post))
    (hm : findBucket myid (pre ++ b :: post) = some pre.length)
    (hmid : bucketMiddle (pre ++ b :: post) pre.length b = some mid) :
    ∃ own, Halving myid mid own pre b post ∧
      splitAt myid mid (pre ++ b :: post) pre.length b = halves own mid pre b post := by
  have hshape := hok.shape (by simp)
  obtain ⟨own, hown, heq⟩ := splitAt_eq myid mid pre b post
  obtain ⟨hshape', hfind⟩ := findBucket_halves hshape hm hmid own
  refine ⟨own, ⟨hshape, hshape', hm, hfind, ?_⟩, heq⟩
  rw [← inBucket_iff hshape'.head hshape'.sorted, ← hown]

section Halving

variable {own : Bool}

theorem Halving.length (h : Halving myid mid own pre b post) :
    (firsts (halves own mid pre b post)).length = (firsts (pre ++ b :: post)).length + 1 ∧
      1 ≤ (firsts (pre ++ b :: post)).length ∧ (firsts (pre ++ b :: post)).length ≤ 160 := by
  have hle := h.shape'.length_le
  simp only [halves, length_firsts, List.length_append, List.length_cons] at hle ⊢
  omega

/-- Which ids were and are in the own bucket is a matter of their common bits. -/
theorem Halving.own_bits (h : Halving myid mid own pre b post) (id : NodeId) :
    (findBucket id (pre ++ b :: post) = some pre.length ↔
      (firsts (pre ++ b :: post)).length - 1 ≤ commonBits id myid) ∧
    (findBucket id (halves own mid pre b post) = findBucket myid (halves own mid pre b post) ↔
      (firsts (pre ++ b :: post)).length ≤ commonBits id myid) := by
  have hold := h.shape.locate_own id
  have hnew := h.shape'.locate_own id
  rw [← findBucket_eq_locate, ← findBucket_eq_locate, h.mine] at hold
  rw [← findBucket_eq_locate, ← findBucket_eq_locate, h.length.1, Nat.add_sub_cancel] at hnew
  exact ⟨hold, hnew⟩

/-- The bucket of an id that is not in the own range is as it was. -/
theorem Halving.keep (h : Halving myid mid own pre b post) {i k : ℕ} {c : Bucket}
    (hc : BucketOk myid af (firsts (pre ++ b :: post)) i c) (hne : i ≠ pre.length)
    (hk : k = if i < pre.length then i else i + 1) :
    BucketOk myid af (firsts (halves own mid pre b post)) k c := by
  refine ⟨hc.nodes, ?_, hc.nodup, hc.count, hc.count_le, ?_⟩
  · intro n hn
    rw [← findBucket_eq_locate, h.find, findBucket_eq_locate, hc.place n hn, Option.map_some,
      side_of_ne hne, hk]
  · intro id hid
    rw [← findBucket_eq_locate, h.find] at hid
    obtain ⟨i', hi', hside⟩ := Option.map_eq_some_iff.mp hid
    have hsame : i' = i := by
      rw [hk] at hside
      unfold side at hside
      split_ifs at hside <;> omega
    rw [hsame] at hi'
    have hlt : commonBits id myid < (firsts (pre ++ b :: post)).length - 1 := by
      rw [← Nat.not_le, ← (h.own_bits id).1, hi', Option.some.injEq]
      exact hne
    rw [h.length.1, roomOf_other hlt]
    exact hc.room id (by rw [← findBucket_eq_locate, hi'])

/-- The own half has half the room, the other one as much as there was. -/
theorem Halving.room (h : Halving myid mid own pre b post)
    (hb : BucketOk myid af (firsts (pre ++ b :: post)) pre.length b) {id : NodeId} {k : ℕ}
    (hid : findBucket id (halves own mid pre b post) = some k)
    (hk : k = pre.length ∨ k = pre.length + 1) :
    roomOf myid id (firsts (halves own mid pre b post)).length =
      if findBucket myid (halves own mid pre b post) = some k then max (b.maxCount / 2) 8
      else b.maxCount := by
  obtain ⟨hlen, hpos, hle⟩ := h.length
  have hroom := hb.room myid (by rw [← findBucket_eq_locate, h.mine])
  rw [roomOf_own (by rw [commonBits_self]; omega)] at hroom
  have hold : findBucket id (pre ++ b :: post) = some pre.length := by
    rw [h.find] at hid
    obtain ⟨i, hi, hside⟩ := Option.map_eq_some_iff.mp hid
    rw [hi]
    congr 1
    unfold side at hside
    split_ifs at hside <;> omega
  have hbits := (h.own_bits id).1.mp hold
  have hown := (h.own_bits id).2
  rw [hid] at hown
  by_cases hmy : findBucket myid (halves own mid pre b post) = some k
  · rw [if_pos hmy, hlen, roomOf_own (by rw [Nat.add_sub_cancel]; exact hown.mp hmy.symm), hroom,
      half_room, Nat.add_sub_cancel, Nat.sub_add_cancel hpos]
  · have hnot : ¬ (firsts (pre ++ b :: post)).length ≤ commonBits id myid :=
      fun hle' => hmy (hown.mpr hle').symm
    rw [if_neg hmy, hroom, roomOf, hlen, Nat.min_eq_right (by omega)]
    congr 2
    congr 1
    omega

/-- A half, empty as it is. -/
theorem Halving.half_ok (h : Halving myid mid own pre b post)
    (hb : BucketOk myid af (firsts (pre ++ b :: post)) pre.length b) {k : ℕ} {c : Bucket}
    (hk : k = pre.length ∨ k = pre.length + 1) (hnodes : c.nodes = []) (hcount : c.count = 0)
    (hmax : c.maxCount =
      if findBucket myid (halves own mid pre b post) = some k then max (b.maxCount / 2) 8
      else b.maxCount) :
    BucketOk myid af (firsts (halves own mid pre b post)) k c := by
  have height : 8 ≤ b.maxCount := by
    rw [hb.room myid (by rw [← findBucket_eq_locate, h.mine])]
    exact eight_le_roomOf _
  refine ⟨by simp [hnodes], by simp [hnodes], by simp [hnodes], by simp [hnodes, hcount], ?_,
    fun id hid => ?_⟩
  · rw [hcount, hmax]
    split <;> omega
  · rw [← findBucket_eq_locate] at hid
    rw [hmax, h.room hb hid hk]

/-- After the split the own id is in one of the halves. -/
theorem Halving.mine_half (h : Halving myid mid own pre b post) :
    findBucket myid (halves own mid pre b post) =
      some (if own = true then pre.length else pre.length + 1) := by
  by_cases hown : own = true
  · rw [if_pos hown]
    exact h.own_iff.mp hown
  · have hnot := mt h.own_iff.mpr hown
    rw [if_neg hown]
    rw [h.find, h.mine, Option.map_some, side_self] at hnot ⊢
    by_cases hlt : myid.value < mid.value
    · rw [if_pos hlt] at hnot
      exact absurd rfl hnot
    · rw [if_neg hlt]

/-- The table after a split, before its nodes are put in again. -/
theorem Halving.table (h : Halving myid mid own pre b post)
    (hok : TableOk myid af (pre ++ b :: post)) : TableOk myid af (halves own mid pre b post) := by
  have hb := hok.bucket pre.length b (by simp)
  refine ⟨fun _ => h.shape', fun k c hc => ?_⟩
  unfold halves at hc
  rcases Nat.lt_trichotomy k pre.length with hlt | rfl | hgt
  · rw [List.getElem?_append_left hlt] at hc
    have hold := hok.bucket k c (by rw [List.getElem?_append_left hlt, hc])
    exact h.keep hold (Nat.ne_of_lt hlt) (by rw [if_pos hlt])
  · have hlower : lower own b = c := by simpa using hc
    rw [← hlower]
    refine h.half_ok hb (Or.inl rfl) rfl rfl ?_
    simp only [lower, ← h.own_iff]
  · by_cases hk : k = pre.length + 1
    · have hupper : upper own mid b = c := by
        rw [hk, List.getElem?_append_right (by omega), Nat.add_sub_cancel_left] at hc
        simpa using hc
      rw [← hupper, hk]
      refine h.half_ok hb (Or.inr rfl) rfl rfl ?_
      rw [h.mine_half]
      cases own with
      | true => simp [upper]
      | false => simp [upper]
    · have hsub : k - pre.length = k - pre.length - 2 + 1 + 1 := by omega
      rw [List.getElem?_append_right (by omega), hsub, List.getElem?_cons_succ,
        List.getElem?_cons_succ] at hc
      have hsub' : k - 1 - pre.length = k - pre.length - 2 + 1 := by omega
      have hold := hok.bucket (k - 1) c (by
        rw [List.getElem?_append_right (by omega), hsub', List.getElem?_cons_succ, hc])
      exact h.keep hold (by omega) (by rw [if_neg (by omega)]; omega)

theorem nodesOf_halves (own : Bool) :
    nodesOf (halves own mid pre b post) = nodesOf pre ++ nodesOf post := by
  simp [halves, nodesOf, lower, upper]

theorem Halving.crowded (h : Halving myid mid own pre b post) {id : NodeId}
    (hcrowd : Crowded myid id (pre ++ b :: post)) :
    Crowded myid id (halves own mid pre b post) := by
  obtain ⟨i, c, hi, hc, hfull, hne⟩ := hcrowd
  have hother : i ≠ pre.length := fun heq => hne (by rw [h.mine, heq])
  have hmy : ∀ k, k < pre.length ∨ pre.length + 1 < k →
      findBucket myid (halves own mid pre b post) ≠ some k := by
    intro k hk hmyk
    rw [h.mine_half] at hmyk
    have hval := Option.some.inj hmyk
    split at hval <;> omega
  have hfind := h.find id
  rw [hi, Option.map_some, side_of_ne hother] at hfind
  by_cases hlt : i < pre.length
  · rw [if_pos hlt] at hfind
    refine ⟨i, c, hfind, ?_, hfull, hmy i (Or.inl hlt)⟩
    rw [halves]
    rw [List.getElem?_append_left hlt] at hc ⊢
    exact hc
  · rw [if_neg hlt] at hfind
    refine ⟨i + 1, c, hfind, ?_, hfull, hmy (i + 1) (Or.inr (by omega))⟩
    have hsub : i - pre.length = i - pre.length - 1 + 1 := by omega
    have hsub' : i + 1 - pre.length = i - pre.length - 1 + 1 + 1 := by omega
    rw [List.getElem?_append_right (by omega), hsub, List.getElem?_cons_succ] at hc
    rw [halves, List.getElem?_append_right (by omega), hsub', List.getElem?_cons_succ,
      List.getElem?_cons_succ, hc]

end Halving

end Lists

section Insert

variable {myid : NodeId} {af : Af} {bs : List Bucket} {i : ℕ} {b : Bucket} {n : Node}

/-- A full bucket of the own id has ids besides the own one, so that it can be split. -/
theorem TableOk.exists_middle (hok : TableOk myid af bs) (hm : findBucket myid bs = some i)
    (hb : bs[i]? = some b) (hfull : b.maxCount ≤ b.count) :
    ∃ mid, bucketMiddle bs i b = some mid ∧ bs.length < 161 := by
  have hokb := hok.bucket i b hb
  have hne : bs ≠ [] := fun hnil => by
    rw [hnil] at hb
    exact absurd hb (by simp)
  have hshape := hok.shape hne
  have hroom := hokb.room myid (by rw [← findBucket_eq_locate, hm])
  have hcount := hokb.count
  have height : 8 ≤ b.maxCount := by
    rw [hroom]
    exact eight_le_roomOf _
  obtain ⟨n, hn⟩ := List.exists_mem_of_length_pos (l := b.nodes) (by omega)
  have hplace := hokb.place n hn
  have hcb := (hshape.locate_own n.id).mp (by rw [hplace, ← findBucket_eq_locate, hm])
  have hlt : commonBits n.id myid < 160 := by
    rw [← Nat.not_le, le_commonBits_iff (Nat.le_refl 160)]
    intro heq
    simp only [Nat.sub_self, pow_zero, Nat.div_one] at heq
    exact (hokb.nodes n hn).other (NodeId.value_inj heq)
  rw [length_firsts] at hcb
  have hlen : bs.length < 161 := by omega
  have hw : ownWidth (firsts bs) ≠ 0 := by
    unfold ownWidth
    rw [length_firsts]
    omega
  obtain ⟨-, hsome⟩ := hshape.bucketMiddle hm hb
  obtain ⟨mid, hmid, -⟩ := hsome hw
  exact ⟨mid, hmid, hlen⟩

/-- The table with a node put in front of the others of its bucket. -/
theorem TableOk.insert (hok : TableOk myid af bs) (hn : NodeOk myid af n)
    (hfind : findBucket n.id bs = some i) (hb : bs[i]? = some b)
    (hnew : n.id ∉ (nodesOf bs).map Node.id) (hroom : b.count < b.maxCount) :
    TableOk myid af (bs.modify i (Bucket.push n)) := by
  refine hok.modify (fun b => rfl) fun b' hb' hokb => ?_
  rw [hb] at hb'
  obtain rfl := Option.some.inj hb'
  refine hokb.push hn (by rw [← findBucket_eq_locate, hfind]) (fun hmem => hnew ?_) hroom
  obtain ⟨m, hm, heq⟩ := List.mem_map.mp hmem
  exact heq ▸ List.mem_map_of_mem (mem_nodesOf.mpr ⟨i, b, hb, hm⟩)

theorem nodesOf_insert (hb : bs[i]? = some b) :
    (nodesOf (bs.modify i (Bucket.push n))).Perm
      (n :: nodesOf bs) := by
  have hi : i < bs.length := (List.getElem?_eq_some_iff.mp hb).1
  have hbs : bs = bs.take i ++ b :: bs.drop (i + 1) := by
    rw [← (List.getElem?_eq_some_iff.mp hb).2, List.getElem_cons_drop, List.take_append_drop]
  rw [List.modify_eq_take_cons_drop hi, (List.getElem?_eq_some_iff.mp hb).2]
  conv_rhs => rw [hbs]
  simp only [nodesOf, Bucket.push, List.flatMap_append, List.flatMap_cons, List.cons_append]
  exact List.perm_middle

/-- A full bucket stays full while nodes are put in or replaced. -/
theorem Crowded.modify {id : NodeId} {f : Bucket → Bucket} (hfirst : ∀ b, (f b).first = b.first)
    (hcount : ∀ b, b.count ≤ (f b).count) (hmax : ∀ b, (f b).maxCount = b.maxCount)
    (hcrowd : Crowded myid id bs) (i : ℕ) : Crowded myid id (bs.modify i f) := by
  have hfind : ∀ id, findBucket id (bs.modify i f) = findBucket id bs := by
    intro id
    rw [findBucket_eq_locate, findBucket_eq_locate, firsts_modify hfirst]
  obtain ⟨j, c, hj, hc, hfull, hne⟩ := hcrowd
  by_cases hij : i = j
  · refine ⟨j, f c, by rw [hfind, hj], by rw [hij, List.getElem?_modify_eq, hc]; rfl, ?_,
      by rw [hfind]; exact hne⟩
    rw [hmax]
    exact hfull.trans (hcount c)
  · exact ⟨j, c, by rw [hfind, hj], by rw [List.getElem?_modify_ne _ _ hij, hc], hfull,
      by rw [hfind]; exact hne⟩

end Insert

end SeaStore.Dht
