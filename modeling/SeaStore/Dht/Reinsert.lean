import SeaStore.Dht.Split

/-!
The loop that puts the nodes of a split bucket in again. It comes to an end: each
split makes a bucket more, of which there can only be 161, and each other round
is done with a node. None gets lost on the way but to a full bucket.
-/
namespace SeaStore.Dht

open Posix Controller

/-- All but the cached address of the buckets. -/
def cores (bs : List Bucket) : List Bucket := bs.map Bucket.forget

/-- Only the table of a family has changed, and the searches in their order. -/
structure Apart (af : Af) (d d' : State) : Prop where
  still : d'.still = d.still
  rows : ∀ af', ¬ (af = .inet ↔ af' = .inet) → rows (d'.table af') = rows (d.table af')
  searches : List.Forall₂ Tends d.searches d'.searches

section Apart

variable {af : Af} {d d' d'' : State}

theorem Quiet.apart (h : Quiet d d') (af : Af) : Apart af d d' :=
  ⟨h.still, fun af' _ => h.rows af', h.searches⟩

theorem Apart.refl (af : Af) (d : State) : Apart af d d := (Quiet.refl d).apart af

theorem Apart.trans (h : Apart af d d') (h' : Apart af d' d'') : Apart af d d'' :=
  ⟨h'.still.trans h.still, fun af' hne => (h'.rows af' hne).trans (h.rows af' hne),
    forall₂_tends_trans h.searches h'.searches⟩

theorem Apart.setTable (d : State) (af : Af) (bs : List Bucket) :
    Apart af d (d.setTable af bs) := by
  refine ⟨still_setTable bs, fun af' hne => ?_, ?_⟩
  · rw [table_setTable, if_neg hne]
  · rw [searches_setTable]
    exact forall₂_tends_refl _

theorem Apart.myid (h : Apart af d d') : d'.myid = d.myid := by
  have heq := congrArg State.myid h.still
  exact heq

theorem Apart.now (h : Apart af d d') : d'.now = d.now := by
  have heq := congrArg State.now h.still
  exact heq

end Apart

section Cores

variable {bs bs' : List Bucket}

theorem rows_of_cores (hcores : cores bs' = cores bs) : rows bs' = rows bs := by
  have hmap := congrArg (List.map Bucket.row) hcores
  rw [cores, cores, List.map_map, List.map_map] at hmap
  exact hmap

theorem nodesOf_of_cores (hcores : cores bs' = cores bs) : nodesOf bs' = nodesOf bs := by
  have hmap := congrArg (List.flatMap Bucket.nodes) hcores
  rw [cores, cores, List.flatMap_map, List.flatMap_map] at hmap
  exact hmap

theorem bucket_of_rows (hrows : rows bs' = rows bs) {i : ℕ} {b : Bucket} (hb : bs[i]? = some b) :
    ∃ b', bs'[i]? = some b' ∧ b'.row = b.row := by
  have hrow : (rows bs')[i]? = some b.row := by
    rw [hrows, rows, List.getElem?_map, hb]
    rfl
  rw [rows, List.getElem?_map] at hrow
  exact Option.map_eq_some_iff.mp hrow

theorem Crowded.of_rows {myid id : NodeId} (hrows : rows bs' = rows bs)
    (hcrowd : Crowded myid id bs) : Crowded myid id bs' := by
  obtain ⟨i, b, hi, hb, hfull, hne⟩ := hcrowd
  obtain ⟨b', hb', heq⟩ := bucket_of_rows hrows hb
  have hcount : b'.count = b.count := congrArg (fun row => row.2.1) heq
  have hmax : b'.maxCount = b.maxCount := congrArg (fun row => row.2.2.1) heq
  exact ⟨i, b', by rw [findBucket_of_rows hrows, hi], hb', by rw [hcount, hmax]; exact hfull,
    by rw [findBucket_of_rows hrows]; exact hne⟩

theorem bucket_of_cores (hcores : cores bs' = cores bs) {i : ℕ} {b : Bucket}
    (hb : bs[i]? = some b) : ∃ b', bs'[i]? = some b' ∧ b'.forget = b.forget := by
  have hget : (cores bs')[i]? = some b.forget := by
    rw [hcores, cores, List.getElem?_map, hb]
    rfl
  rw [cores, List.getElem?_map] at hget
  exact Option.map_eq_some_iff.mp hget

theorem bucketMiddle_of_cores (hcores : cores bs' = cores bs) {i : ℕ} {b b' : Bucket}
    (hfirst : b'.first = b.first) : bucketMiddle bs' i b' = bucketMiddle bs i b := by
  have hnext : (bs'[i + 1]?).map Bucket.first = (bs[i + 1]?).map Bucket.first := by
    have hmap := congrArg (fun l : List Bucket => (l[i + 1]?).map Bucket.first) hcores
    simp only [cores, List.getElem?_map, Option.map_map] at hmap
    exact hmap
  unfold bucketMiddle middleBit
  rw [hfirst]
  cases hc : bs'[i + 1]? with
  | none =>
    cases hc' : bs[i + 1]? with
    | none => rfl
    | some c' =>
      rw [hc, hc'] at hnext
      exact absurd hnext (by simp)
  | some c =>
    cases hc' : bs[i + 1]? with
    | none =>
      rw [hc, hc'] at hnext
      exact absurd hnext (by simp)
    | some c' =>
      rw [hc, hc'] at hnext
      have heq : c.first = c'.first := Option.some.inj hnext
      simp only [heq]

theorem exists_append {i : ℕ} {b : Bucket} (hb : bs[i]? = some b) :
    ∃ pre post, bs = pre ++ b :: post ∧ pre.length = i := by
  obtain ⟨hi, rfl⟩ := List.getElem?_eq_some_iff.mp hb
  refine ⟨bs.take i, bs.drop (i + 1), ?_, List.length_take_of_le (Nat.le_of_lt hi)⟩
  rw [List.getElem_cons_drop, List.take_append_drop]

variable {d : State} {af : Af}

theorem table_emit (size : ℕ) (pieces : List Piece) (confirm : Bool) (sa : Sockaddr) :
    (emit d size pieces confirm sa).table af = d.table af := by
  unfold emit
  split
  · unfold dhtSend
    split
    · rfl
    · split
      · rfl
      · rfl
  · rfl

theorem forget_forget (b : Bucket) : b.forget.forget = b.forget := rfl

theorem cores_sendCachedPing (d : State) (af : Af) (i : ℕ) :
    cores ((sendCachedPing d af i).table af) = cores (d.table af) := by
  unfold sendCachedPing
  split
  · rfl
  · rw [State.modifyBucket, table_setTable_self, cores, map_modify_eq forget_forget, sendPing,
      table_emit]
    rfl

end Cores

section Reinsert

variable {d : State} {af : Af}

/-- What the loop has to go on: a table, and the nodes that are not in it. -/
structure Pending (myid : NodeId) (af : Af) (bs : List Bucket) (pending : List Node) : Prop where
  table : TableOk myid af bs
  nodes : ∀ n ∈ pending, NodeOk myid af n
  nodup : ((nodesOf bs ++ pending).map Node.id).Nodup

/-- What the loop comes to: every node is accounted for. -/
structure Settled (af : Af) (d : State) (pending : List Node) (d' : State) : Prop where
  table : TableOk d.myid af (d'.table af)
  apart : Apart af d d'
  length_le : (d.table af).length ≤ (d'.table af).length
  crowded : ∀ id, Crowded d.myid id (d.table af) → Crowded d.myid id (d'.table af)
  accounted : ∀ n, n ∈ nodesOf (d.table af) ∨ n ∈ pending → Accounted d.myid n (d'.table af)
  back : ∀ n ∈ nodesOf (d'.table af), n ∈ nodesOf (d.table af) ∨ n ∈ pending

/-- What the split of a bucket makes of a table, before its nodes are put in again. -/
structure Halved (af : Af) (d : State) (b : Bucket) (d' : State) : Prop where
  table : TableOk d.myid af (d'.table af)
  apart : Apart af d d'
  length : (d'.table af).length = (d.table af).length + 1
  cap : (d.table af).length < 161
  nodes : (nodesOf (d'.table af) ++ b.nodes).Perm (nodesOf (d.table af))
  crowded : ∀ id, Crowded d.myid id (d.table af) → Crowded d.myid id (d'.table af)

theorem splitBucketHelper_spec {i : ℕ} {b : Bucket} (hok : TableOk d.myid af (d.table af))
    (hm : findBucket d.myid (d.table af) = some i) (hb : (d.table af)[i]? = some b)
    (hfull : b.maxCount ≤ b.count) :
    ∃ d', splitBucketHelper d af i = some (b.nodes, d') ∧ Halved af d b d' := by
  obtain ⟨mid, hmid, hlen⟩ := hok.exists_middle hm hb hfull
  have hcores := cores_sendCachedPing d af i
  have hrows := rows_of_cores hcores
  have hok' := hok.of_rows hrows
  have hapart : Apart af d (sendCachedPing d af i) := (sendCachedPing_quiet i).apart af
  have hmyid := hapart.myid
  -- the bucket as it is when its cached address has been pinged
  obtain ⟨b', hb', hforget⟩ := bucket_of_cores hcores hb
  obtain ⟨hfirst, hnodes⟩ : b'.first = b.first ∧ b'.nodes = b.nodes := by
    have hfields := (Bucket.mk.injEq ..).mp hforget
    exact ⟨hfields.1, hfields.2.2.2.2.1⟩
  obtain ⟨pre, post, hsplit, hpre⟩ := exists_append hb'
  have hm' : findBucket d.myid (pre ++ b' :: post) = some pre.length := by
    rw [← hsplit, findBucket_of_rows hrows, hm, hpre]
  have hmid' : bucketMiddle (pre ++ b' :: post) pre.length b' = some mid := by
    rw [← hmid, ← hsplit, hpre]
    exact bucketMiddle_of_cores hcores hfirst
  rw [hsplit] at hok'
  obtain ⟨own, hhalving, hhalves⟩ := hok'.halving hm' hmid'
  have hin : inBucket d.myid (d.table af) i = true := by
    have hshape := hok.shape fun hnil => by
      rw [hnil] at hb
      exact absurd hb (by simp)
    rw [inBucket_iff hshape.head hshape.sorted, hm]
  refine ⟨(sendCachedPing d af i).setTable af (halves own mid pre b' post), ?_, ?_,
    hapart.trans (Apart.setTable _ af _), ?_, hlen, ?_, fun id hcrowd => ?_⟩
  · have hget : (pre ++ b' :: post)[i]? = some b' := by rw [← hsplit, hb']
    rw [hpre] at hhalves
    unfold splitBucketHelper
    simp only [hb, hin, hmid, hmyid, Option.bind_eq_bind, Option.bind_some, hsplit, hget, hnodes,
      hhalves, Bool.not_true, Bool.false_eq_true, if_false]
    rfl
  · rw [table_setTable_self]
    exact hhalving.table hok'
  · have hlen' := congrArg List.length hcores
    rw [hsplit] at hlen'
    rw [table_setTable_self]
    simp only [halves, cores, List.length_map, List.length_append, List.length_cons] at hlen' ⊢
    omega
  · rw [table_setTable_self, nodesOf_halves, ← nodesOf_of_cores hcores, hsplit, ← hnodes]
    simp only [nodesOf, List.flatMap_append, List.flatMap_cons]
    rw [List.append_assoc]
    exact List.Perm.append_left _ List.perm_append_comm
  · have hcrowd' := hcrowd.of_rows hrows
    rw [hsplit] at hcrowd'
    rw [table_setTable_self]
    exact hhalving.crowded hcrowd'

/-- The nodes of the bucket are to be put in again, besides those that were. -/
theorem Halved.pending {i : ℕ} {b : Bucket} {d' : State} {pending : List Node}
    (h : Halved af d b d') (hb : (d.table af)[i]? = some b)
    (hp : Pending d.myid af (d.table af) pending) :
    Pending d'.myid af (d'.table af) (pending ++ b.nodes) := by
  rw [h.apart.myid]
  refine ⟨h.table, fun n hn => ?_, (List.Perm.nodup_iff ?_).mp hp.nodup⟩
  · rcases List.mem_append.mp hn with hn | hn
    · exact hp.nodes n hn
    · exact (hp.table.bucket i b hb).nodes n hn
  · refine List.Perm.map Node.id ((List.Perm.append_right pending h.nodes.symm).trans ?_)
    rw [List.append_assoc]
    exact List.Perm.append_left _ List.perm_append_comm

/-- A table that is settled after the split is settled. -/
theorem Halved.settled {b : Bucket} {d' d'' : State} {pending : List Node}
    (h : Halved af d b d') (hgo : Settled af d' (pending ++ b.nodes) d'') :
    Settled af d pending d'' := by
  have hlen := h.length
  obtain ⟨htable, hapart, hle, hcrowd, hacc, hback⟩ := hgo
  rw [h.apart.myid] at htable hcrowd hacc
  refine ⟨htable, h.apart.trans hapart, by omega, fun id hc => hcrowd id (h.crowded id hc),
    fun n hn => hacc n ?_, fun n hn => ?_⟩
  · rcases hn with hn | hn
    · exact (List.mem_append.mp (h.nodes.mem_iff.mpr hn)).imp_right (List.mem_append_right _)
    · exact Or.inr (List.mem_append_left _ hn)
  · rcases hback n hn with hn | hn
    · exact Or.inl (h.nodes.mem_iff.mp (List.mem_append_left _ hn))
    · rcases List.mem_append.mp hn with hn | hn
      · exact Or.inr hn
      · exact Or.inl (h.nodes.mem_iff.mp (List.mem_append_right _ hn))

theorem Settled.refl (hok : TableOk d.myid af (d.table af)) : Settled af d [] d :=
  ⟨hok, Apart.refl af d, Nat.le_refl _, fun _ h => h, fun n h => Or.inl (h.resolve_right (by simp)),
    fun n h => Or.inl h⟩

/-- One round of the loop, and then the others. -/
theorem Settled.trans {pending pending' : List Node} {d' d'' : State} (h : Settled af d pending d')
    (h' : Settled af d' pending' d'') : Settled af d (pending ++ pending') d'' := by
  have hmyid := h.apart.myid
  have hcrowd := h'.crowded
  have hacc := h'.accounted
  rw [hmyid] at hcrowd hacc
  have hstep : ∀ n, Accounted d.myid n (d'.table af) → Accounted d.myid n (d''.table af) :=
    fun n hn => hn.elim (fun hin => hacc n (Or.inl hin)) fun hc => Or.inr (hcrowd n.id hc)
  refine ⟨by rw [← hmyid]; exact h'.table, h.apart.trans h'.apart,
    h.length_le.trans h'.length_le, fun id hc => hcrowd id (h.crowded id hc), fun n hn => ?_,
    fun n hn => ?_⟩
  · rcases hn with hn | hn
    · exact hstep n (h.accounted n (Or.inl hn))
    · rcases List.mem_append.mp hn with hn | hn
      · exact hstep n (h.accounted n (Or.inr hn))
      · exact hacc n (Or.inr hn)
  · rcases h'.back n hn with hn | hn
    · rcases h.back n hn with hn | hn
      · exact Or.inl hn
      · exact Or.inr (List.mem_append_left _ hn)
    · exact Or.inr (List.mem_append_right _ hn)

/-- What `insert_node` does with a node that is not in the table. -/
theorem insertNode_spec {n : Node} {pending : List Node}
    (hp : Pending d.myid af (d.table af) (n :: pending)) (hne : d.table af ≠ []) :
    (∃ i b, insertNode d n = .full i ∧ findBucket n.id (d.table af) = some i ∧
      (d.table af)[i]? = some b ∧ b.maxCount ≤ b.count) ∨
    ∃ d', insertNode d n = .done d' ∧ Settled af d [n] d' ∧
      Pending d'.myid af (d'.table af) pending ∧ (d'.table af).length = (d.table af).length ∧
      (nodesOf (d'.table af)).length = (nodesOf (d.table af)).length + 1 := by
  have hnok := hp.nodes n (List.mem_cons_self ..)
  obtain ⟨i, hi, hfind⟩ := (hp.table.shape hne).exists_locate n.id
  have hb : (d.table af)[i]? = some (d.table af)[i] := List.getElem?_eq_getElem hi
  generalize (d.table af)[i] = b at hb
  unfold insertNode
  rw [hnok.family]
  simp only [hfind, hb]
  by_cases hfull : b.maxCount ≤ b.count
  · exact Or.inl ⟨i, b, by rw [if_pos hfull], rfl, hb, hfull⟩
  · right
    have hnew : n.id ∉ (nodesOf (d.table af)).map Node.id := by
      have hnd := hp.nodup
      rw [List.map_append, List.map_cons] at hnd
      intro hmem
      exact (List.nodup_append.mp hnd).2.2 _ hmem _ (List.mem_cons_self ..) rfl
    have hperm := nodesOf_insert (n := n) hb
    have hapart : Apart af d (d.modifyBucket af i (Bucket.push n)) := Apart.setTable d af _
    have htable := hp.table.insert hnok hfind hb hnew (by omega)
    refine ⟨d.modifyBucket af i (Bucket.push n), by rw [if_neg hfull], ?_, ?_, ?_, ?_⟩
    · refine ⟨?_, hapart, ?_, fun id hc => ?_, fun m hm => ?_, fun m hm => ?_⟩
      · rw [State.modifyBucket, table_setTable_self]
        exact htable
      · rw [State.modifyBucket, table_setTable_self, List.length_modify]
      · rw [State.modifyBucket, table_setTable_self]
        exact hc.modify (push_first n) (fun b => Int.le_add_one (le_refl b.count)) (fun b => rfl) i
      · rw [State.modifyBucket, table_setTable_self]
        rcases hm with hm | hm
        · exact Or.inl (hperm.mem_iff.mpr (List.mem_cons_of_mem n hm))
        · obtain rfl := List.mem_singleton.mp hm
          exact Or.inl (hperm.mem_iff.mpr (List.mem_cons_self ..))
      · rw [State.modifyBucket, table_setTable_self, hperm.mem_iff] at hm
        rcases List.mem_cons.mp hm with rfl | hm
        · exact Or.inr (List.mem_singleton_self _)
        · exact Or.inl hm
    · rw [hapart.myid, State.modifyBucket, table_setTable_self]
      refine ⟨htable, fun m hm => hp.nodes m (List.mem_cons_of_mem n hm), ?_⟩
      refine (List.Perm.nodup_iff ?_).mp hp.nodup
      apply List.Perm.map
      exact (List.perm_middle.trans (List.Perm.refl _)).trans
        (List.Perm.append_right pending hperm).symm
    · rw [State.modifyBucket, table_setTable_self, List.length_modify]
    · rw [State.modifyBucket, table_setTable_self, hperm.length_eq, List.length_cons]

/-- The loop has a table to put the nodes in, `total` nodes in all. -/
structure Going (af : Af) (total : ℕ) (d : State) (n : Option Node) (nodes : List Node) :
    Prop where
  pending : Pending d.myid af (d.table af) (n.toList ++ nodes)
  ne : d.table af ≠ []
  cap : (d.table af).length ≤ 161
  total : (nodesOf (d.table af)).length + (n.toList ++ nodes).length ≤ total

/-- The rounds that the loop can still take: with each split there are as many again. -/
def rounds (af : Af) (total : ℕ) (d : State) (n : Option Node) (nodes : List Node) : ℕ :=
  (161 - (d.table af).length) * (2 * total + 2) + 2 * nodes.length + n.toList.length

/-- A round, which leaves fewer rounds, and nothing to be settled that was not before. -/
structure Round (af : Af) (total : ℕ) (d : State) (n : Option Node) (nodes : List Node)
    (d' : State) (n' : Option Node) (nodes' : List Node) : Prop where
  eq : ∀ fuel, reinsert d n nodes (fuel + 1) = reinsert d' n' nodes' fuel
  going : Going af total d' n' nodes'
  fewer : rounds af total d' n' nodes' < rounds af total d n nodes
  settled : ∀ d'', Settled af d' (n'.toList ++ nodes') d'' → Settled af d (n.toList ++ nodes) d''

section Round

variable {total : ℕ} {n : Node} {nodes : List Node}

theorem Round.take (h : Going af total d none (n :: nodes)) :
    Round af total d none (n :: nodes) d (some n) nodes := by
  refine ⟨fun fuel => by rw [reinsert], ⟨h.pending, h.ne, h.cap, h.total⟩, ?_, fun d'' hd => hd⟩
  simp only [rounds, Option.toList_none, Option.toList_some, List.length_nil, List.length_cons]
  omega

/-- There is room for the node in hand. -/
theorem Round.done {d' : State} (h : Going af total d (some n) nodes)
    (heq : insertNode d n = .done d') (hsettled : Settled af d [n] d')
    (hp : Pending d'.myid af (d'.table af) nodes)
    (hlen : (d'.table af).length = (d.table af).length)
    (hnodes : (nodesOf (d'.table af)).length = (nodesOf (d.table af)).length + 1) :
    Round af total d (some n) nodes d' none nodes := by
  have hcap := h.cap
  have htotal := h.total
  refine ⟨fun fuel => by rw [reinsert]; simp only [heq], ⟨hp, fun hnil => ?_, by omega, ?_⟩, ?_,
    fun d'' hgo => hsettled.trans hgo⟩
  · rw [hnil] at hlen
    exact h.ne (List.length_eq_zero_iff.mp hlen.symm)
  · simp only [Option.toList_none, Option.toList_some, List.nil_append, List.length_append,
      List.length_singleton] at htotal ⊢
    omega
  · simp only [rounds, hlen, Option.toList_none, Option.toList_some, List.length_nil,
      List.length_singleton]
    omega

/-- There is no room for the node in hand, and it is dropped. -/
theorem Round.dropped {i : ℕ} {b : Bucket} (h : Going af total d (some n) nodes)
    (heq : insertNode d n = .full i) (hfind : findBucket n.id (d.table af) = some i)
    (hb : (d.table af)[i]? = some b) (hfull : b.maxCount ≤ b.count)
    (hin : inBucket d.myid (d.table af) i = false) :
    Round af total d (some n) nodes d none nodes := by
  have htotal := h.total
  have hfamily := (h.pending.nodes n (List.mem_cons_self ..)).family
  have hcrowd : Crowded d.myid n.id (d.table af) := by
    refine ⟨i, b, hfind, hb, hfull, fun hm => ?_⟩
    have hshape := h.pending.table.shape h.ne
    rw [(inBucket_iff hshape.head hshape.sorted).mpr hm] at hin
    exact absurd hin (by simp)
  refine ⟨fun fuel => ?_, ⟨⟨h.pending.table, fun m hm => ?_, ?_⟩, h.ne, h.cap, ?_⟩, ?_,
    fun d'' hgo => ⟨hgo.table, hgo.apart, hgo.length_le, hgo.crowded, fun m hm => ?_,
      fun m hm => (hgo.back m hm).imp id (List.mem_cons_of_mem n)⟩⟩
  · rw [reinsert]
    simp only [heq, hfamily, hin, Bool.not_false, if_true]
  · exact h.pending.nodes m (List.mem_cons_of_mem n hm)
  · exact h.pending.nodup.sublist
      (((List.sublist_cons_self n nodes).append_left _).map Node.id)
  · simp only [Option.toList_none, Option.toList_some, List.nil_append, List.length_append,
      List.length_singleton] at htotal ⊢
    omega
  · simp only [rounds, Option.toList_none, Option.toList_some, List.length_nil,
      List.length_singleton]
    omega
  · rcases hm with hm | hm
    · exact hgo.accounted m (Or.inl hm)
    · rcases List.mem_cons.mp hm with rfl | hm
      · exact Or.inr (hgo.crowded _ hcrowd)
      · exact hgo.accounted m (Or.inr hm)

/-- The bucket is the own one and is split, with the node still in hand. -/
theorem Round.halved {i : ℕ} {b : Bucket} {d' : State} (h : Going af total d (some n) nodes)
    (heq : insertNode d n = .full i) (hb : (d.table af)[i]? = some b)
    (hin : inBucket d.myid (d.table af) i = true)
    (hhelp : splitBucketHelper d af i = some (b.nodes, d')) (hhalved : Halved af d b d') :
    Round af total d (some n) nodes d' (some n) (nodes ++ b.nodes) := by
  have htotal := h.total
  have hlen := hhalved.length
  have hcap := hhalved.cap
  have hfamily := (h.pending.nodes n (List.mem_cons_self ..)).family
  have hmore := hhalved.nodes.length_eq
  rw [List.length_append] at hmore
  refine ⟨fun fuel => ?_, ⟨hhalved.pending hb h.pending, fun hnil => ?_, by omega, ?_⟩, ?_,
    fun d'' hgo => hhalved.settled hgo⟩
  · rw [reinsert]
    simp only [heq, hfamily, hin, hhelp, Bool.not_true, Bool.false_eq_true, if_false]
  · rw [hnil] at hlen
    exact absurd hlen (by simp)
  · simp only [Option.toList_some, List.length_append, List.length_singleton] at htotal ⊢
    omega
  · have hstep : 161 - (d.table af).length = (161 - (d'.table af).length) + 1 := by omega
    simp only [Option.toList_some, List.length_append, List.length_singleton] at htotal
    simp only [rounds, hstep, Nat.add_mul, Nat.one_mul, List.length_append]
    omega

/-- A loop that is not done takes a round. -/
theorem Going.round {n : Option Node} (h : Going af total d n nodes)
    (hne : n.toList ++ nodes ≠ []) :
    ∃ d' n' nodes', Round af total d n nodes d' n' nodes' := by
  cases n with
  | none =>
    cases nodes with
    | nil => exact absurd rfl hne
    | cons m nodes => exact ⟨d, some m, nodes, Round.take h⟩
  | some n =>
    rcases insertNode_spec h.pending h.ne with ⟨i, b, heq, hfind, hb, hfull⟩ |
      ⟨d', heq, hsettled, hp, hlen, hnodes⟩
    · cases hin : inBucket d.myid (d.table af) i with
      | false => exact ⟨d, none, nodes, Round.dropped h heq hfind hb hfull hin⟩
      | true =>
        have hshape := h.pending.table.shape h.ne
        obtain ⟨d', hhelp, hhalved⟩ := splitBucketHelper_spec h.pending.table
          ((inBucket_iff hshape.head hshape.sorted).mp hin) hb hfull
        exact ⟨d', some n, nodes ++ b.nodes, Round.halved h heq hb hin hhelp hhalved⟩
    · exact ⟨d', none, nodes, Round.done h heq hsettled hp hlen hnodes⟩

theorem reinsert_done (d : State) (fuel : ℕ) : reinsert d none [] fuel = d := by
  cases fuel with
  | zero => rfl
  | succ fuel => rw [reinsert]

/-- The loop ends with all nodes put in again, in as many rounds as it can take. -/
theorem Going.ends {n : Option Node} (h : Going af total d n nodes) :
    ∃ d', Settled af d (n.toList ++ nodes) d' ∧
      ∀ fuel, rounds af total d n nodes ≤ fuel → reinsert d n nodes fuel = d' := by
  generalize hk : rounds af total d n nodes = k
  induction k using Nat.strong_induction_on generalizing d n nodes with
  | _ k ih =>
    by_cases hne : n.toList ++ nodes = []
    · obtain ⟨hn, rfl⟩ := List.append_eq_nil_iff.mp hne
      obtain rfl : n = none := by
        cases n with
        | none => rfl
        | some n => exact absurd hn (by simp)
      exact ⟨d, Settled.refl h.pending.table, fun fuel _ => reinsert_done d fuel⟩
    · obtain ⟨d', n', nodes', hround⟩ := h.round hne
      have hfewer := hround.fewer
      obtain ⟨d'', hsettled, heq⟩ := ih _ (by omega) hround.going rfl
      refine ⟨d'', hround.settled d'' hsettled, fun fuel hfuel => ?_⟩
      obtain ⟨fuel, rfl⟩ := Nat.exists_eq_add_of_lt (show 0 < fuel by omega)
      rw [Nat.zero_add, hround.eq]
      exact heq fuel (by omega)

end Round

/-- The bucket of the own id can always be split when it is full, and the loop over its nodes
does not need more rounds than it has. -/
theorem splitBucket_spec {i : ℕ} {b : Bucket} (hok : TableOk d.myid af (d.table af))
    (hm : findBucket d.myid (d.table af) = some i) (hb : (d.table af)[i]? = some b)
    (hfull : b.maxCount ≤ b.count) :
    ∃ d', (∀ extra, splitBucket extra d af i = some d') ∧ Settled af d [] d' ∧
      (d.table af).length < (d'.table af).length := by
  obtain ⟨d', hhelp, hhalved⟩ := splitBucketHelper_spec hok hm hb hfull
  have hlen := hhalved.length
  have hcap := hhalved.cap
  have hmore := hhalved.nodes.length_eq
  rw [List.length_append] at hmore
  have hpending : Pending d.myid af (d.table af) [] := by
    refine ⟨hok, by simp, ?_⟩
    rw [List.append_nil]
    exact hok.nodup
  have hgoing : Going af (nodesOf (d.table af)).length d' none b.nodes := by
    refine ⟨hhalved.pending hb hpending, fun hnil => ?_, by omega, ?_⟩
    · rw [hnil] at hlen
      exact absurd hlen (by simp)
    · rw [Option.toList_none, List.nil_append]
      omega
  obtain ⟨d'', hsettled, heq⟩ := hgoing.ends
  have hfuel : rounds af (nodesOf (d.table af)).length d' none b.nodes ≤
      reinsertFuel (d.table af) := by
    have hle : (161 - (d'.table af).length) * (2 * (nodesOf (d.table af)).length + 2) ≤
        161 * (2 * (nodesOf (d.table af)).length + 2) := Nat.mul_le_mul_right _ (by omega)
    simp only [rounds, reinsertFuel, Option.toList_none, List.length_nil]
    omega
  have hgo := hsettled.length_le
  refine ⟨d'', fun extra => ?_, hhalved.settled hsettled, by omega⟩
  unfold splitBucket
  rw [hhelp]
  exact congrArg some (heq _ (by omega))

end Reinsert

end SeaStore.Dht
