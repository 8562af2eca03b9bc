import SeaStore.Dht.Routing
import SeaStore.Dht.Table

/-!
What a node tells of its tables: how many nodes there are, and the addresses of
the good ones. The bucket of the own id comes first, and no node comes twice.
-/
namespace SeaStore.Dht

open Posix Controller

/-- What `dht_nodes` returns: a node that is not good is dubious, and `incoming` are the good
ones that have not replied since they were last heard of. -/
structure Contents where
  good : ℕ
  dubious : ℕ
  cached : ℕ
  incoming : ℕ
  deriving DecidableEq

/-- The result is the number of all of them. -/
def dhtNodes (d : State) (af : Af) : ℕ × Contents :=
  let good := (nodesOf (d.table af)).filter (nodeGood d)
  let dubious := (nodesOf (d.table af)).filter fun n => !nodeGood d n
  let cached := (d.table af).filter fun b => b.candidate.isSome
  let incoming := good.filter fun n => n.replyTime < n.time
  (good.length + dubious.length,
    ⟨good.length, dubious.length, cached.length, incoming.length⟩)

/-- The nodes of the buckets that the own id is not in. -/
def otherNodes (d : State) (af : Af) : List Node :=
  ((d.table af).zipIdx.filter fun p => !inBucket d.myid (d.table af) p.2).flatMap fun p => p.1.nodes

/-- The good nodes of a family, while there is room for them. -/
def goodAddresses (d : State) (af : Af) (num : ℤ) : List Sockaddr :=
  match (findBucket d.myid (d.table af)).bind fun i => (d.table af)[i]? with
  | none => []
  | some own =>
    (((own.nodes ++ otherNodes d af).filter (nodeGood d)).map Node.ss).take num.toNat

def dhtGetNodes (d : State) (num num6 : ℤ) : List Sockaddr × List Sockaddr :=
  (goodAddresses d .inet num, goodAddresses d .inet6 num6)

/-- The addresses that are told: as many as there are good nodes, or as there is room for. -/
structure Tells (d : State) (af : Af) (num : ℤ) (addresses : List Sockaddr) : Prop where
  length : addresses.length = min num.toNat (dhtNodes d af).2.good
  good : ∀ sa ∈ addresses, ∃ n ∈ nodesOf (d.table af), nodeGood d n = true ∧ n.ss = sa

section Contents

variable {d : State} {af : Af}

/-- Only one bucket has the own id. -/
theorem own_bucket (hok : TableOk d.myid af (d.table af)) {i : ℕ} {own : Bucket}
    (hfind : findBucket d.myid (d.table af) = some i) (hown : (d.table af)[i]? = some own) :
    ((d.table af).zipIdx.filter fun p => inBucket d.myid (d.table af) p.2) = [(own, i)] := by
  have hshape := hok.shape fun hnil => by
    rw [hnil] at hown
    exact absurd hown (by simp)
  have hin : ∀ p : Bucket × ℕ, inBucket d.myid (d.table af) p.2 = decide (p.2 = i) := by
    intro p
    rw [Bool.eq_iff_iff, inBucket_iff hshape.head hshape.sorted, hfind, decide_eq_true_eq]
    exact ⟨fun heq => (Option.some.inj heq).symm, fun heq => congrArg some heq.symm⟩
  have hmem : (own, i) ∈ (d.table af).zipIdx := List.mk_mem_zipIdx_iff_getElem?.mpr hown
  have hnodup : (d.table af).zipIdx.Nodup := by
    refine List.Nodup.of_map Prod.snd ?_
    rw [List.zipIdx_map_snd]
    exact List.nodup_range'
  have hsame : ∀ p ∈ (d.table af).zipIdx,
      inBucket d.myid (d.table af) p.2 = decide (p = (own, i)) := by
    intro p hp
    rw [hin, decide_eq_decide]
    constructor
    · intro heq
      have hget := List.mem_zipIdx_iff_getElem?.mp hp
      rw [heq, hown] at hget
      exact Prod.ext (Option.some.inj hget).symm heq
    · rintro rfl
      rfl
  rw [List.filter_congr hsame, List.filter_eq, List.count_eq_one_of_mem hnodup hmem]
  rfl

theorem own_append_other (hok : TableOk d.myid af (d.table af)) {i : ℕ} {own : Bucket}
    (hfind : findBucket d.myid (d.table af) = some i) (hown : (d.table af)[i]? = some own) :
    (own.nodes ++ otherNodes d af).Perm (nodesOf (d.table af)) := by
  have hsplit := List.filter_append_perm (fun p => inBucket d.myid (d.table af) p.2)
    (d.table af).zipIdx
  rw [own_bucket hok hfind hown] at hsplit
  have hnodes := hsplit.flatMap_right fun p => p.1.nodes
  rw [List.flatMap_append, List.flatMap_singleton] at hnodes
  have hall : (d.table af).zipIdx.flatMap (fun p => p.1.nodes) = nodesOf (d.table af) := by
    rw [nodesOf, ← List.flatMap_map, List.zipIdx_map_fst]
  rw [hall] at hnodes
  exact hnodes

theorem goodAddresses_tells (hok : TableOk d.myid af (d.table af)) (num : ℤ) :
    Tells d af num (goodAddresses d af num) := by
  unfold goodAddresses
  cases hfind : findBucket d.myid (d.table af) with
  | none =>
    have hnil : d.table af = [] := by
      by_contra hne
      exact findBucket_ne_none.mpr hne hfind
    exact ⟨by simp [dhtNodes, nodesOf, hnil], by simp⟩
  | some i =>
    obtain ⟨own, hown⟩ := findBucket_get hfind
    have hperm := own_append_other hok hfind hown
    rw [Option.bind_some, hown]
    refine ⟨?_, fun sa hsa => ?_⟩
    · rw [List.length_take, List.length_map, (hperm.filter (nodeGood d)).length_eq]
      rfl
    · obtain ⟨n, hn, heq⟩ := List.mem_map.mp (List.mem_of_mem_take hsa)
      obtain ⟨hmem, hgood⟩ := List.mem_filter.mp hn
      exact ⟨n, hperm.mem_iff.mp hmem, hgood, heq⟩

end Contents

end SeaStore.Dht
