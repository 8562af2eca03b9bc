import SeaStore.Dht.Quiet
import SeaStore.Dht.Shape

/-!
The invariant of a routing table. Every node stands in the bucket of its id,
once, and the counts are right. How many nodes a bucket has room for depends on
how many bits its ids have in common with the own one. Changing one bucket and
splitting one keep the invariant.
-/
namespace SeaStore.Dht

open Posix Controller Ranges

/-- A node as it may stand in the table of a family. -/
structure NodeOk (myid : NodeId) (af : Af) (n : Node) : Prop where
  other : n.id ≠ myid
  family : family n.ss = af
  martian : isMartian n.ss = false

/-- As many nodes there is room for in the bucket of an id: half as many with each bit it
has in common with the own one, but not less than eight. -/
def roomOf (myid id : NodeId) (len : ℕ) : ℤ :=
  max (128 / 2 ^ min (len - 1) (commonBits id myid)) 8

structure BucketOk (myid : NodeId) (af : Af) (ends : List ℕ) (i : ℕ) (b : Bucket) : Prop where
  nodes : ∀ n ∈ b.nodes, NodeOk myid af n
  place : ∀ n ∈ b.nodes, locate n.id.value ends = some i
  nodup : (b.nodes.map Node.id).Nodup
  count : b.count = b.nodes.length
  count_le : b.count ≤ b.maxCount
  room : ∀ id : NodeId, locate id.value ends = some i → b.maxCount = roomOf myid id ends.length

structure TableOk (myid : NodeId) (af : Af) (bs : List Bucket) : Prop where
  shape : bs ≠ [] → Shape myid (firsts bs)
  bucket : ∀ i b, bs[i]? = some b → BucketOk myid af (firsts bs) i b

section Rows

variable {myid : NodeId} {af : Af} {bs bs' : List Bucket}

theorem firsts_of_rows (hrows : rows bs' = rows bs) : firsts bs' = firsts bs := by
  have hmap := congrArg (List.map fun row => NodeId.value row.1) hrows
  rw [rows, rows, List.map_map, List.map_map] at hmap
  exact hmap

theorem BucketOk.of_row {ends : List ℕ} {i : ℕ} {b b' : Bucket} (hrow : b'.row = b.row)
    (hok : BucketOk myid af ends i b) : BucketOk myid af ends i b' := by
  obtain ⟨hfirst, hcount, hmax, hnodes⟩ : b'.first = b.first ∧ b'.count = b.count ∧
      b'.maxCount = b.maxCount ∧
      (b'.nodes.map fun n => (n.id, n.ss)) = b.nodes.map fun n => (n.id, n.ss) := by
    simpa [Bucket.row] using hrow
  have hids : b'.nodes.map Node.id = b.nodes.map Node.id := by
    have hmap := congrArg (List.map Prod.fst) hnodes
    rw [List.map_map, List.map_map] at hmap
    exact hmap
  have hlen : b'.nodes.length = b.nodes.length := by
    have hmap := congrArg List.length hnodes
    rw [List.length_map, List.length_map] at hmap
    exact hmap
  have hback : ∀ n ∈ b'.nodes, ∃ m ∈ b.nodes, m.id = n.id ∧ m.ss = n.ss := by
    intro n hn
    have hmem : (n.id, n.ss) ∈ b.nodes.map fun n => (n.id, n.ss) := by
      rw [← hnodes]
      exact List.mem_map_of_mem hn
    obtain ⟨m, hm, heq⟩ := List.mem_map.mp hmem
    exact ⟨m, hm, congrArg Prod.fst heq, congrArg Prod.snd heq⟩
  refine ⟨?_, ?_, ?_, ?_, ?_, ?_⟩
  · intro n hn
    obtain ⟨m, hm, hid, hss⟩ := hback n hn
    have hnode := hok.nodes m hm
    exact ⟨hid ▸ hnode.other, hss ▸ hnode.family, hss ▸ hnode.martian⟩
  · intro n hn
    obtain ⟨m, hm, hid, -⟩ := hback n hn
    rw [← hid]
    exact hok.place m hm
  · rw [hids]
    exact hok.nodup
  · rw [hcount, hlen]
    exact hok.count
  · rw [hcount, hmax]
    exact hok.count_le
  · rw [hmax]
    exact hok.room

theorem TableOk.of_rows (hrows : rows bs' = rows bs) (hok : TableOk myid af bs) :
    TableOk myid af bs' := by
  have hfirsts := firsts_of_rows hrows
  refine ⟨fun hne => ?_, fun i b' hb' => ?_⟩
  · rw [hfirsts]
    refine hok.shape fun hnil => hne ?_
    rw [hnil] at hrows
    exact List.map_eq_nil_iff.mp hrows
  · have hrow : (rows bs)[i]? = some b'.row := by
      rw [← hrows, rows, List.getElem?_map, hb']
      rfl
    rw [rows, List.getElem?_map] at hrow
    obtain ⟨b, hb, heq⟩ := Option.map_eq_some_iff.mp hrow
    rw [hfirsts]
    exact (hok.bucket i b hb).of_row heq.symm

theorem findBucket_of_rows (hrows : rows bs' = rows bs) (id : NodeId) :
    findBucket id bs' = findBucket id bs := by
  rw [findBucket_eq_locate, findBucket_eq_locate, firsts_of_rows hrows]

end Rows

section Modify

variable {myid : NodeId} {af : Af} {bs : List Bucket} {i : ℕ}

theorem TableOk.nil (myid : NodeId) (af : Af) : TableOk myid af [] :=
  ⟨fun hne => absurd rfl hne, fun i b hb => absurd hb (by simp)⟩

theorem firsts_modify {f : Bucket → Bucket} (hfirst : ∀ b, (f b).first = b.first) :
    firsts (bs.modify i f) = firsts bs :=
  map_modify_eq (fun b => by rw [hfirst]) bs i

/-- One bucket is changed, but not its range. -/
theorem TableOk.modify (hok : TableOk myid af bs) {f : Bucket → Bucket}
    (hfirst : ∀ b, (f b).first = b.first)
    (hf : ∀ b, bs[i]? = some b → BucketOk myid af (firsts bs) i b →
      BucketOk myid af (firsts bs) i (f b)) : TableOk myid af (bs.modify i f) := by
  refine ⟨fun hne => ?_, fun j b hb => ?_⟩
  · rw [firsts_modify hfirst]
    exact hok.shape fun hnil => hne (by rw [hnil, List.modify_nil])
  · rw [firsts_modify hfirst]
    rw [List.getElem?_modify] at hb
    obtain ⟨b', hb', heq⟩ := Option.map_eq_some_iff.mp hb
    by_cases hij : i = j
    · subst hij
      rw [if_pos rfl] at heq
      rw [← heq]
      exact hf b' hb' (hok.bucket i b' hb')
    · rw [if_neg hij] at heq
      obtain rfl : b' = b := heq
      exact hok.bucket j b' hb'

variable {ends : List ℕ} {b : Bucket} {n : Node}

theorem push_first (n : Node) (b : Bucket) : (b.push n).first = b.first := rfl

theorem BucketOk.push (hok : BucketOk myid af ends i b) (hn : NodeOk myid af n)
    (hplace : locate n.id.value ends = some i) (hnew : n.id ∉ b.nodes.map Node.id)
    (hroom : b.count < b.maxCount) :
    BucketOk myid af ends i (b.push n) := by
  have hcount := hok.count
  refine ⟨?_, ?_, ?_, ?_, ?_, hok.room⟩
  · intro m hm
    rcases List.mem_cons.mp hm with rfl | hm
    · exact hn
    · exact hok.nodes m hm
  · intro m hm
    rcases List.mem_cons.mp hm with rfl | hm
    · exact hplace
    · exact hok.place m hm
  · rw [Bucket.push, List.map_cons]
    exact List.nodup_cons.mpr ⟨hnew, hok.nodup⟩
  · simp only [Bucket.push, List.length_cons]
    omega
  · simp only [Bucket.push]
    omega

/-- The node at a position is replaced, by one of the same id or by one that is new. -/
theorem BucketOk.set (hok : BucketOk myid af ends i b) {j : ℕ} {f : Node → Node} {old : Node}
    (hold : b.nodes[j]? = some old) (hn : NodeOk myid af (f old))
    (hplace : locate (f old).id.value ends = some i)
    (hid : (f old).id = old.id ∨ (f old).id ∉ b.nodes.map Node.id) :
    BucketOk myid af ends i (b.modifyNode j f) := by
  obtain ⟨hj, hget⟩ := List.getElem?_eq_some_iff.mp hold
  have hset : b.nodes.modify j f = b.nodes.set j (f old) := by
    apply List.ext_getElem?
    intro k
    rw [List.getElem?_modify, List.getElem?_set]
    by_cases hjk : j = k
    · subst hjk
      simp [hj, hget]
    · simp [hjk]
  have hmem : ∀ m ∈ b.nodes.modify j f, m = f old ∨ m ∈ b.nodes := by
    intro m hm
    rw [hset] at hm
    exact (List.mem_or_eq_of_mem_set hm).symm
  refine ⟨?_, ?_, ?_, ?_, hok.count_le, hok.room⟩
  · intro m hm
    rcases hmem m hm with rfl | hm
    · exact hn
    · exact hok.nodes m hm
  · intro m hm
    rcases hmem m hm with rfl | hm
    · exact hplace
    · exact hok.place m hm
  · rw [Bucket.modifyNode, hset, List.map_set]
    rcases hid with heq | hnew
    · rw [heq]
      have hsame : (b.nodes.map Node.id).set j old.id = b.nodes.map Node.id := by
        apply List.ext_getElem?
        intro k
        rw [List.getElem?_set]
        by_cases hjk : j = k
        · subst hjk
          simp [hj, hget]
        · simp [hjk]
      rw [hsame]
      exact hok.nodup
    · exact hok.nodup.set hnew
  · rw [Bucket.modifyNode, List.length_modify]
    exact hok.count

/-- Nodes are taken out. -/
theorem BucketOk.filter (hok : BucketOk myid af ends i b) (p : Node → Bool) :
    BucketOk myid af ends i { b with
      nodes := b.nodes.filter p
      count := b.count - (b.nodes.length - (b.nodes.filter p).length) } := by
  have hcount := hok.count
  have hle := hok.count_le
  have hlen := List.length_filter_le p b.nodes
  refine ⟨fun n hn => hok.nodes n (List.mem_filter.mp hn).1,
    fun n hn => hok.place n (List.mem_filter.mp hn).1,
    hok.nodup.sublist (List.filter_sublist.map Node.id), ?_, ?_, hok.room⟩
  · simp only
    omega
  · simp only
    omega

end Modify

section Entries

variable {myid : NodeId} {af : Af} {bs : List Bucket}

theorem mem_nodesOf {n : Node} :
    n ∈ nodesOf bs ↔ ∃ (i : ℕ) (b : Bucket), bs[i]? = some b ∧ n ∈ b.nodes := by
  rw [nodesOf, List.mem_flatMap]
  constructor
  · intro hex
    obtain ⟨b, hb, hn⟩ := hex
    obtain ⟨i, hi⟩ := List.mem_iff_getElem?.mp hb
    exact ⟨i, b, hi, hn⟩
  · intro hex
    obtain ⟨i, b, hb, hn⟩ := hex
    exact ⟨b, List.mem_of_getElem? hb, hn⟩

/-- A node of the table stands where its id is looked for. -/
theorem TableOk.mem_iff (hok : TableOk myid af bs) {n : Node} {i : ℕ} {b : Bucket}
    (hfind : findBucket n.id bs = some i) (hb : bs[i]? = some b) :
    n ∈ nodesOf bs ↔ n ∈ b.nodes := by
  rw [mem_nodesOf]
  constructor
  · intro hex
    obtain ⟨j, b', hb', hn⟩ := hex
    have hplace := (hok.bucket j b' hb').place n hn
    rw [← findBucket_eq_locate, hfind] at hplace
    obtain rfl := Option.some.inj hplace
    rw [hb] at hb'
    obtain rfl := Option.some.inj hb'
    exact hn
  · intro hn
    exact ⟨i, b, hb, hn⟩

theorem TableOk.nodup (hok : TableOk myid af bs) : ((nodesOf bs).map Node.id).Nodup := by
  rw [nodesOf, List.map_flatMap, List.nodup_flatMap]
  refine ⟨fun b hb => ?_, ?_⟩
  · obtain ⟨i, hi⟩ := List.mem_iff_getElem?.mp hb
    exact (hok.bucket i b hi).nodup
  · rw [List.pairwise_iff_getElem]
    intro i j hi hj hij id hid hid'
    obtain ⟨n, hn, rfl⟩ := List.mem_map.mp hid
    obtain ⟨n', hn', heq⟩ := List.mem_map.mp hid'
    have hplace := (hok.bucket i _ (List.getElem?_eq_getElem hi)).place n hn
    have hplace' := (hok.bucket j _ (List.getElem?_eq_getElem hj)).place n' hn'
    rw [heq, hplace] at hplace'
    exact absurd (Option.some.inj hplace') (Nat.ne_of_lt hij)

end Entries

end SeaStore.Dht
