import SeaStore.Dht.Closest
import SeaStore.Dht.Table

/-!
The nodes that an answer is made of: of the good nodes in the bucket of the id
and in the two next to it the eight closest ones. Whatever stands in another
bucket is farther away than what stands in that of the id; if eight good nodes
are in there, no other one in the table is closer than those of the answer.
-/
namespace SeaStore.Dht

open Posix Controller Ranges

section Buffer

variable {d : State} {id : NodeId} {nodes : List Node} {n : Node} {af : Af}

/-- The closest ones of `s` are in the buffer. -/
structure Buffered (id : NodeId) (s : Set Node) (nodes : List Node) : Prop where
  mem : ∀ n ∈ nodes, n ∈ s
  closest : Nearest.Smallest 8 ((fun n => distance n.id id) '' s)
    (nodes.map fun n => distance n.id id)

theorem Buffered.nil (id : NodeId) : Buffered id ∅ [] :=
  ⟨by simp, by rw [Set.image_empty]; exact Nearest.Smallest.nil 8⟩

theorem insertClosestNode_spec {s : Set Node} (haf : af = .inet ∨ af = .inet6)
    (hfam : family n.ss = af) (hbuf : Buffered id s nodes) :
    ∃ nodes', insertClosestNode id nodes n = some nodes' ∧ Buffered id (insert n s) nodes' := by
  have hsmall := hbuf.closest.offer (distance n.id id)
  have hids : (nodes.map Node.id).map (fun other => distance other id) =
      nodes.map fun n => distance n.id id := by
    rw [List.map_map]
    rfl
  have hlen : nodes.length ≤ 8 := by
    have hle := hbuf.closest.length_le
    rw [List.length_map] at hle
    exact hle
  have hsome : insertClosestNode id nodes n = some (
      if (placeOf n.id id (nodes.map Node.id)).1 then nodes
      else if (placeOf n.id id (nodes.map Node.id)).2 = 8 then nodes
      else (nodes.insertIdx (placeOf n.id id (nodes.map Node.id)).2 n).take 8) := by
    unfold insertClosestNode
    rw [hfam]
    rcases haf with rfl | rfl
    · simp only
      split
      · rfl
      · split
        · rfl
        · rfl
    · simp only
      split
      · rfl
      · split
        · rfl
        · rfl
  refine ⟨_, hsome, ?_, ?_⟩
  · intro m hm
    split at hm
    · exact Set.mem_insert_of_mem n (hbuf.mem m hm)
    · split at hm
      · exact Set.mem_insert_of_mem n (hbuf.mem m hm)
      · rcases List.eq_or_mem_of_mem_insertIdx (List.mem_of_mem_take hm) with rfl | hin
        · exact Set.mem_insert m s
        · exact Set.mem_insert_of_mem n (hbuf.mem m hin)
  · rw [Set.image_insert_eq]
    rw [placeOf_eq_place, hids]
    generalize hplace : Nearest.place (distance n.id id)
      (nodes.map fun n => distance n.id id) = p
    obtain ⟨found, i⟩ := p
    cases found with
    | true =>
      rw [Nearest.offer, hplace, if_pos rfl] at hsmall
      rw [if_pos rfl]
      exact hsmall
    | false =>
      rw [← Nearest.map_insertIdx_take (fun n : Node => distance n.id id) hbuf.closest.sorted hlen
        hplace] at hsmall
      rw [if_neg Bool.false_ne_true]
      exact hsmall

/-- The good nodes of a bucket have gone into the buffer. -/
theorem bufferClosestNodes_spec {s : Set Node} {b : Bucket} (haf : af = .inet ∨ af = .inet6)
    (hfam : ∀ n ∈ b.nodes, family n.ss = af) (hbuf : Buffered id s nodes) :
    ∃ nodes', bufferClosestNodes d id nodes b = some nodes' ∧
      Buffered id (s ∪ {n | n ∈ b.nodes ∧ nodeGood d n = true}) nodes' := by
  unfold bufferClosestNodes
  generalize b.nodes = ns at hfam
  induction ns generalizing s nodes with
  | nil => exact ⟨nodes, rfl, by simpa using hbuf⟩
  | cons n ns ih =>
    have htail : ∀ n ∈ ns, family n.ss = af := fun n hn => hfam n (List.mem_cons_of_mem _ hn)
    rw [List.foldlM_cons]
    by_cases hgood : nodeGood d n = true
    · obtain ⟨nodes₁, heq₁, hbuf₁⟩ :=
        insertClosestNode_spec haf (hfam n (List.mem_cons_self ..)) hbuf
      obtain ⟨nodes₂, heq₂, hbuf₂⟩ := ih hbuf₁ htail
      have hset : s ∪ {m | m ∈ n :: ns ∧ nodeGood d m = true} =
          insert n s ∪ {m | m ∈ ns ∧ nodeGood d m = true} := by
        ext m
        simp only [Set.mem_union, Set.mem_ofPred_eq, List.mem_cons, Set.mem_insert_iff]
        constructor
        · rintro (hs | ⟨rfl | hns, hg⟩)
          · exact Or.inl (Or.inr hs)
          · exact Or.inl (Or.inl rfl)
          · exact Or.inr ⟨hns, hg⟩
        · rintro ((rfl | hs) | ⟨hns, hg⟩)
          · exact Or.inr ⟨Or.inl rfl, hgood⟩
          · exact Or.inl hs
          · exact Or.inr ⟨Or.inr hns, hg⟩
      rw [if_pos hgood, heq₁, hset]
      exact ⟨nodes₂, heq₂, hbuf₂⟩
    · obtain ⟨nodes₂, heq₂, hbuf₂⟩ := ih hbuf htail
      have hset : s ∪ {m | m ∈ n :: ns ∧ nodeGood d m = true} =
          s ∪ {m | m ∈ ns ∧ nodeGood d m = true} := by
        ext m
        simp only [Set.mem_union, Set.mem_ofPred_eq, List.mem_cons]
        constructor
        · rintro (hs | ⟨rfl | hns, hg⟩)
          · exact Or.inl hs
          · exact absurd hg hgood
          · exact Or.inr ⟨hns, hg⟩
        · rintro (hs | ⟨hns, hg⟩)
          · exact Or.inl hs
          · exact Or.inr ⟨Or.inr hns, hg⟩
      rw [if_neg hgood, hset]
      exact ⟨nodes₂, heq₂, hbuf₂⟩

end Buffer

section Closest

variable {d : State} {id : NodeId} {af : Af} {i : ℕ}

/-- The good nodes in the bucket at a position. -/
def goodAt (d : State) (af : Af) (j : ℕ) : Set Node :=
  {n | nodeGood d n = true ∧ ∃ b, (d.table af)[j]? = some b ∧ n ∈ b.nodes}

/-- The good nodes in bucket `i` and in the two next to it. -/
def around (d : State) (af : Af) (i : ℕ) : Set Node :=
  goodAt d af i ∪ goodAt d af (i + 1) ∪ (previousBucket i).elim ∅ (goodAt d af)

theorem bufferAt_spec (hok : TableOk d.myid af (d.table af)) (haf : af = .inet ∨ af = .inet6)
    {s : Set Node} {nodes : List Node} (hbuf : Buffered id s nodes) (j : ℕ) :
    ∃ nodes', bufferAt d af id nodes j = some nodes' ∧ Buffered id (s ∪ goodAt d af j) nodes' := by
  unfold bufferAt goodAt
  cases hb : (d.table af)[j]? with
  | none => exact ⟨nodes, rfl, by simpa using hbuf⟩
  | some b =>
    obtain ⟨nodes', heq, hbuf'⟩ := bufferClosestNodes_spec (d := d) haf
      (fun n hn => ((hok.bucket j b hb).nodes n hn).family) hbuf
    refine ⟨nodes', heq, ?_⟩
    have hset : {n | nodeGood d n = true ∧ ∃ b', some b = some b' ∧ n ∈ b'.nodes} =
        {n | n ∈ b.nodes ∧ nodeGood d n = true} := by
      ext n
      simp only [Set.mem_ofPred_eq, Option.some.injEq, exists_eq_left']
      exact and_comm
    rw [hset]
    exact hbuf'

theorem closestNodes_spec (hok : TableOk d.myid af (d.table af)) (haf : af = .inet ∨ af = .inet6)
    (id : NodeId) :
    ∃ nodes, closestNodes d af id = some nodes ∧
      (findBucket id (d.table af) = none → nodes = []) ∧
      ∀ i, findBucket id (d.table af) = some i → Buffered id (around d af i) nodes := by
  unfold closestNodes
  cases hfind : findBucket id (d.table af) with
  | none => exact ⟨[], rfl, fun _ => rfl, fun i hi => absurd hi (by simp)⟩
  | some i =>
    obtain ⟨nodes₁, heq₁, hbuf₁⟩ := bufferAt_spec hok haf (Buffered.nil id) i
    obtain ⟨nodes₂, heq₂, hbuf₂⟩ := bufferAt_spec hok haf hbuf₁ (i + 1)
    rw [Set.empty_union] at hbuf₂
    simp only [heq₁, heq₂, Option.bind_eq_bind, Option.bind_some]
    cases hp : previousBucket i with
    | none =>
      refine ⟨nodes₂, rfl, fun hnone => absurd hnone (by simp), fun j hj => ?_⟩
      obtain rfl := Option.some.inj hj
      rw [around, hp, Option.elim_none, Set.union_empty]
      exact hbuf₂
    | some p =>
      obtain ⟨nodes₃, heq₃, hbuf₃⟩ := bufferAt_spec hok haf hbuf₂ p
      refine ⟨nodes₃, heq₃, fun hnone => absurd hnone (by simp), fun j hj => ?_⟩
      obtain rfl := Option.some.inj hj
      rw [around, hp, Option.elim_some]
      exact hbuf₃

/-- Ids of one bucket are closer to each other than to those of other buckets. -/
theorem Shape.distance_lt {myid : NodeId} {ends : List ℕ} (hs : Shape myid ends) {id a b : NodeId}
    (ha : locate a.value ends = locate id.value ends)
    (hb : locate b.value ends ≠ locate id.value ends) : distance a id < distance b id := by
  have hlen := hs.length_le
  rw [hs.common] at ha
  rw [ne_eq, hs.common] at hb
  -- there are bits that are those of `id` in `a`, but not in `b`
  suffices hex : ∃ k ≤ 160, k ≤ commonBits a id ∧ ¬ k ≤ commonBits b id by
    obtain ⟨k, hk, hin, hout⟩ := hex
    rw [← distance_lt_iff hk] at hin hout
    exact Nat.lt_of_lt_of_le hin (Nat.le_of_not_lt hout)
  generalize hl : ends.length - 1 = l at ha hb
  have hc : ∀ {x y : NodeId} {k : ℕ}, k ≤ 160 → (k ≤ commonBits x y ↔
      x.value / 2 ^ (160 - k) = y.value / 2 ^ (160 - k)) := fun hk => le_commonBits_iff hk
  by_cases hown : l ≤ commonBits id myid
  · -- the own bucket: `l` bits are those of the own id
    have hl' : l ≤ 160 := by omega
    refine ⟨l, hl', ?_, ?_⟩
    · have hina : l ≤ commonBits a myid := by omega
      rw [hc hl'] at hina hown ⊢
      rw [hina, hown]
    · have houtb : ¬ l ≤ commonBits b myid := by omega
      rw [hc hl'] at houtb hown ⊢
      rw [hown]
      exact houtb
  · -- any other: one bit more, which is not that of the own id
    generalize hk : commonBits id myid = k at *
    have hk' : k + 1 ≤ 160 := by omega
    have hhalf : ∀ x : NodeId, x.value / 2 ^ (160 - k) = x.value / 2 ^ (160 - (k + 1)) / 2 := by
      intro x
      rw [Nat.div_div_eq_div_mul, ← pow_succ]
      congr 2
      omega
    have hid : k ≤ commonBits id myid ∧ ¬ k + 1 ≤ commonBits id myid := by omega
    have hina : k ≤ commonBits a myid ∧ ¬ k + 1 ≤ commonBits a myid := by omega
    have houtb : ¬ (k ≤ commonBits b myid ∧ ¬ k + 1 ≤ commonBits b myid) := by omega
    rw [hc (by omega), hc hk', hhalf, hhalf] at hid hina houtb
    refine ⟨k + 1, hk', ?_, ?_⟩
    · rw [hc hk']
      omega
    · rw [hc hk']
      omega

variable {nodes : List Node}

theorem mem_around {n : Node} (hn : n ∈ around d af i) :
    n ∈ nodesOf (d.table af) ∧ nodeGood d n = true := by
  have hat : ∀ j, n ∈ goodAt d af j → n ∈ nodesOf (d.table af) ∧ nodeGood d n = true := by
    intro j hj
    obtain ⟨hgood, b, hb, hin⟩ := hj
    exact ⟨mem_nodesOf.mpr ⟨j, b, hb, hin⟩, hgood⟩
  rcases hn with (hn | hn) | hn
  · exact hat i hn
  · exact hat (i + 1) hn
  · cases hp : previousBucket i with
    | none =>
      rw [hp] at hn
      exact absurd hn (Set.notMem_empty n)
    | some p =>
      rw [hp] at hn
      exact hat p hn

/-- What is not in the buffer is farther away than all that is. -/
theorem Buffered.least (hok : TableOk d.myid af (d.table af))
    (hbuf : Buffered id (around d af i) nodes) {n : Node} (hn : n ∈ around d af i) :
    n ∈ nodes ∨ nodes.length = 8 ∧ ∀ m ∈ nodes, distance m.id id < distance n.id id := by
  rcases hbuf.closest.least _ (Set.mem_image_of_mem _ hn) with hin | ⟨hfull, hless⟩
  · left
    obtain ⟨m, hm, heq⟩ := List.mem_map.mp hin
    have hmem := (mem_around (hbuf.mem m hm)).1
    obtain rfl : m = n := List.inj_on_of_nodup_map hok.nodup hmem (mem_around hn).1
      (distance_inj heq)
    exact hm
  · right
    rw [List.length_map] at hfull
    exact ⟨hfull, fun m hm => hless _ (List.mem_map_of_mem hm)⟩

/-- With all of a bucket's good nodes in it, the buffer has room for few others. -/
theorem extra_length_le {goods : List Node} (hgood : 8 ≤ goods.length)
    (hall : ∀ g ∈ goods, g ∈ nodes) (extra : List NodeId)
    (hextra : extra ⊆ nodes.map Node.id) (hdisjoint : (extra ++ goods.map Node.id).Nodup) :
    extra.length + 8 ≤ nodes.length := by
  have hsubset : extra ++ goods.map Node.id ⊆ nodes.map Node.id := by
    refine List.append_subset.mpr ⟨hextra, fun x hx => ?_⟩
    obtain ⟨g, hg, rfl⟩ := List.mem_map.mp hx
    exact List.mem_map_of_mem (hall g hg)
  have hlen := (hdisjoint.subperm hsubset).length_le
  rw [List.length_append, List.length_map, List.length_map] at hlen
  omega

/-- With eight good nodes in the bucket of the id the buffer has none of another one. -/
theorem Buffered.full (hok : TableOk d.myid af (d.table af))
    (hfind : findBucket id (d.table af) = some i) {b : Bucket} (hb : (d.table af)[i]? = some b)
    (hgood : 8 ≤ (b.nodes.filter (nodeGood d)).length)
    (hbuf : Buffered id (around d af i) nodes) :
    nodes.length = 8 ∧ ∀ m ∈ nodes, findBucket m.id (d.table af) = some i := by
  have hne : d.table af ≠ [] := by
    intro hnil
    rw [hnil] at hb
    exact absurd hb (by simp)
  have hshape := hok.shape hne
  have hbucket := hok.bucket i b hb
  have hgoods : ∀ g ∈ b.nodes.filter (nodeGood d), g ∈ around d af i ∧
      findBucket g.id (d.table af) = some i := by
    intro g hg
    obtain ⟨hin, hg⟩ := List.mem_filter.mp hg
    refine ⟨Or.inl (Or.inl ⟨hg, b, hb, hin⟩), ?_⟩
    rw [findBucket_eq_locate]
    exact hbucket.place g hin
  have hnodup : ((b.nodes.filter (nodeGood d)).map Node.id).Nodup :=
    hbucket.nodup.sublist (List.filter_sublist.map Node.id)
  have hle : nodes.length ≤ 8 := by
    have hle := hbuf.closest.length_le
    rw [List.length_map] at hle
    exact hle
  have hfull : nodes.length = 8 := by
    by_contra hnot
    have hall : ∀ g ∈ b.nodes.filter (nodeGood d), g ∈ nodes := by
      intro g hg
      rcases hbuf.least hok (hgoods g hg).1 with hin | ⟨hlen, -⟩
      · exact hin
      · exact absurd hlen hnot
    have hlen := extra_length_le hgood hall [] (List.nil_subset _) hnodup
    rw [List.length_nil] at hlen
    omega
  refine ⟨hfull, fun m hm => ?_⟩
  by_contra hout
  have hall : ∀ g ∈ b.nodes.filter (nodeGood d), g ∈ nodes := by
    intro g hg
    rcases hbuf.least hok (hgoods g hg).1 with hin | ⟨-, hless⟩
    · exact hin
    · -- a node of another bucket is not closer than one of this
      have hin : locate g.id.value (firsts (d.table af)) =
          locate id.value (firsts (d.table af)) := by
        rw [← findBucket_eq_locate, ← findBucket_eq_locate, hfind, (hgoods g hg).2]
      have hnot : locate m.id.value (firsts (d.table af)) ≠
          locate id.value (firsts (d.table af)) := by
        rw [← findBucket_eq_locate, ← findBucket_eq_locate, hfind]
        exact hout
      exact absurd ((hshape.distance_lt hin hnot).trans (hless m hm)) (lt_irrefl _)
  have hnot : m.id ∉ (b.nodes.filter (nodeGood d)).map Node.id := by
    intro hin
    obtain ⟨g, hg, heq⟩ := List.mem_map.mp hin
    exact hout (heq ▸ (hgoods g hg).2)
  have hlen := extra_length_le hgood hall [m.id]
    (by simpa using ⟨m, hm, rfl⟩) (List.nodup_cons.mpr ⟨hnot, hnodup⟩)
  rw [List.length_singleton] at hlen
  omega

end Closest

end SeaStore.Dht
