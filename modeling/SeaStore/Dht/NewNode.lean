import SeaStore.Dht.Reinsert

/-!
A node is learnt of. Whatever the table looks like, the loop of splits comes to
an end; the node is in the table afterwards unless its bucket is full, and no
other one has gone but a node known to be bad or one that a split had no room
for.
-/
namespace SeaStore.Dht

open Posix Controller

/-- What `new_node` makes of a table. -/
structure Learnt (af : Af) (d : State) (id : NodeId) (sa : Sockaddr) (confirm : ℕ)
    (r : Option (ℕ × ℕ) × State) : Prop where
  table : TableOk d.myid af (r.2.table af)
  apart : Apart af d r.2
  crowded : ∀ id, Crowded d.myid id (d.table af) → Crowded d.myid id (r.2.table af)
  kept : ∀ n ∈ nodesOf (d.table af), n.id = id ∨ knownBad d.now n = true ∨
    (∃ m ∈ nodesOf (r.2.table af), m.id = n.id ∧ m.ss = n.ss) ∨ Crowded d.myid n.id (r.2.table af)
  back : ∀ m ∈ nodesOf (r.2.table af), (m.id = id ∧ m.ss = sa) ∨
    ∃ n ∈ nodesOf (d.table af), m.id = n.id ∧ m.ss = n.ss
  place : ∀ i j, r.1 = some (i, j) → ∃ b n, (r.2.table af)[i]? = some b ∧ b.nodes[j]? = some n ∧
    n.id = id ∧ (confirm ≠ 0 → n.ss = sa)
  refused : r.1 = none → d.table af = [] ∨ id = d.myid ∨ isMartian sa = true ∨
    nodeBlacklisted d sa = true ∨ id ∉ (nodesOf (r.2.table af)).map Node.id ∧
      ∃ i b, findBucket id (r.2.table af) = some i ∧ (r.2.table af)[i]? = some b ∧
        b.maxCount ≤ b.count

section Rows

variable {af : Af} {d d' d'' : State} {bs bs' : List Bucket} {id : NodeId} {sa : Sockaddr}
  {confirm : ℕ} {p : Option (ℕ × ℕ)}

theorem entries_of_rows (hrows : rows bs' = rows bs) :
    (nodesOf bs').map (fun n => (n.id, n.ss)) = (nodesOf bs).map fun n => (n.id, n.ss) := by
  have hmap := congrArg (List.flatMap fun row => row.2.2.2) hrows
  rw [rows, rows, List.flatMap_map, List.flatMap_map] at hmap
  rw [nodesOf, nodesOf, List.map_flatMap, List.map_flatMap]
  exact hmap

theorem mem_of_rows (hrows : rows bs' = rows bs) {n : Node} (hn : n ∈ nodesOf bs) :
    ∃ m ∈ nodesOf bs', m.id = n.id ∧ m.ss = n.ss := by
  have hmem : (n.id, n.ss) ∈ (nodesOf bs').map fun n => (n.id, n.ss) := by
    rw [entries_of_rows hrows]
    exact List.mem_map_of_mem hn
  obtain ⟨m, hm, heq⟩ := List.mem_map.mp hmem
  exact ⟨m, hm, congrArg Prod.fst heq, congrArg Prod.snd heq⟩

theorem ids_of_rows (hrows : rows bs' = rows bs) :
    (nodesOf bs').map Node.id = (nodesOf bs).map Node.id := by
  have hmap := congrArg (List.map Prod.fst) (entries_of_rows hrows)
  rw [List.map_map, List.map_map] at hmap
  exact hmap

/-- What comes after it may ask nodes. -/
theorem Learnt.quiet (h : Learnt af d id sa confirm (p, d')) (hquiet : Quiet d' d'') :
    Learnt af d id sa confirm (p, d'') := by
  have hrows := hquiet.rows af
  refine ⟨h.table.of_rows hrows, h.apart.trans (hquiet.apart af),
    fun id hc => (h.crowded id hc).of_rows hrows, fun n hn => ?_, fun m hm => ?_, ?_, ?_⟩
  · rcases h.kept n hn with heq | hbad | ⟨m, hm, hid, hss⟩ | hcrowd
    · exact Or.inl heq
    · exact Or.inr (Or.inl hbad)
    · obtain ⟨m', hm', hid', hss'⟩ := mem_of_rows hrows hm
      exact Or.inr (Or.inr (Or.inl ⟨m', hm', hid'.trans hid, hss'.trans hss⟩))
    · exact Or.inr (Or.inr (Or.inr (hcrowd.of_rows hrows)))
  · obtain ⟨m', hm', hid, hss⟩ := mem_of_rows hrows.symm hm
    rw [← hid, ← hss]
    exact h.back m' hm'
  · intro i j hij
    obtain ⟨b, n, hb, hn, hid, hss⟩ := h.place i j hij
    obtain ⟨b', hb', hrow⟩ := bucket_of_rows hrows hb
    have hnodes : (b'.nodes.map fun n => (n.id, n.ss)) = b.nodes.map fun n => (n.id, n.ss) :=
      congrArg (fun row => row.2.2.2) hrow
    have hget : (b'.nodes.map fun n => (n.id, n.ss))[j]? = some (n.id, n.ss) := by
      rw [hnodes, List.getElem?_map, hn]
      rfl
    rw [List.getElem?_map] at hget
    obtain ⟨n', hn', heq⟩ := Option.map_eq_some_iff.mp hget
    refine ⟨b', n', hb', hn', (congrArg Prod.fst heq).trans hid, fun hc => ?_⟩
    exact (congrArg Prod.snd heq).trans (hss hc)
  · intro hnone
    rcases h.refused hnone with h1 | h1 | h1 | h1 | ⟨hnot, i, b, hi, hb, hfull⟩
    · exact Or.inl h1
    · exact Or.inr (Or.inl h1)
    · exact Or.inr (Or.inr (Or.inl h1))
    · exact Or.inr (Or.inr (Or.inr (Or.inl h1)))
    · obtain ⟨b', hb', hrow⟩ := bucket_of_rows hrows hb
      have hcount : b'.count = b.count := congrArg (fun row => row.2.1) hrow
      have hmax : b'.maxCount = b.maxCount := congrArg (fun row => row.2.2.1) hrow
      refine Or.inr (Or.inr (Or.inr (Or.inr ⟨by rw [ids_of_rows hrows]; exact hnot, i, b', ?_, hb',
        by rw [hcount, hmax]; exact hfull⟩)))
      rw [findBucket_of_rows hrows, hi]

end Rows

section Steps

variable {af : Af} {d d' : State} {id : NodeId} {sa : Sockaddr} {confirm : ℕ} {i : ℕ} {b : Bucket}
  {r : Option (ℕ × ℕ) × State}

theorem Apart.nodeBlacklisted (h : Apart af d d') (sa : Sockaddr) :
    nodeBlacklisted d' sa = nodeBlacklisted d sa := by
  have heq := congrArg State.blacklist h.still
  unfold Dht.nodeBlacklisted
  exact congrArg (fun v => v.toList.any fun entry => entry = some sa) heq

/-- What comes before it may ask nodes as well, and note the time. -/
theorem Learnt.after_quiet (hquiet : Quiet d d')
    (hnodes : nodesOf (d'.table af) = nodesOf (d.table af))
    (h : Learnt af d' id sa confirm r) : Learnt af d id sa confirm r := by
  have hapart := hquiet.apart af
  have hmyid := hapart.myid
  have hrows := hquiet.rows af
  obtain ⟨htable, hapart', hcrowd, hkept, hback, hplace, hrefused⟩ := h
  rw [hmyid] at htable hcrowd hkept hrefused
  refine ⟨htable, hapart.trans hapart', fun id hc => hcrowd id (hc.of_rows hrows), fun n hn => ?_,
    fun m hm => ?_, hplace, fun hnone => ?_⟩
  · rw [← hapart.now]
    exact hkept n (by rw [hnodes]; exact hn)
  · rw [← hnodes]
    exact hback m hm
  · rw [← hapart.nodeBlacklisted]
    refine (hrefused hnone).imp_left fun hnil => ?_
    rw [hnil] at hrows
    exact List.map_eq_nil_iff.mp hrows.symm

theorem Learnt.after_split (hsettled : Settled af d [] d') (hne : d'.table af ≠ [])
    (h : Learnt af d' id sa confirm r) : Learnt af d id sa confirm r := by
  have hapart := hsettled.apart
  have hmyid := hapart.myid
  obtain ⟨htable, hapart', hcrowd, hkept, hback, hplace, hrefused⟩ := h
  rw [hmyid] at htable hcrowd hkept hrefused
  refine ⟨htable, hapart.trans hapart', fun id hc => hcrowd id (hsettled.crowded id hc),
    fun n hn => ?_, fun m hm => ?_, hplace, fun hnone => ?_⟩
  · rcases hsettled.accounted n (Or.inl hn) with hin | hc
    · rw [← hapart.now]
      exact hkept n hin
    · exact Or.inr (Or.inr (Or.inr (hcrowd n.id hc)))
  · rcases hback m hm with heq | ⟨n, hn, heq⟩
    · exact Or.inl heq
    · exact Or.inr ⟨n, (hsettled.back n hn).resolve_right (by simp), heq⟩
  · rw [← hapart.nodeBlacklisted]
    exact (hrefused hnone).imp_left fun hnil => absurd hnil hne

theorem modifyNode_first (j : ℕ) (f : Node → Node) (b : Bucket) :
    (b.modifyNode j f).first = b.first := rfl

/-- The other nodes are there after one has been changed. -/
theorem mem_nodesOf_modify {bs : List Bucket} (hb : bs[i]? = some b) {j : ℕ} {old n : Node}
    (hold : b.nodes[j]? = some old) (f : Node → Node) (hn : n ∈ nodesOf bs) :
    n = old ∨ n ∈ nodesOf (bs.modify i (Bucket.modifyNode j f)) := by
  obtain ⟨k, c, hc, hnc⟩ := mem_nodesOf.mp hn
  by_cases hki : k = i
  · subst hki
    obtain rfl := Option.some.inj (hb.symm.trans hc)
    obtain ⟨l, hl⟩ := List.mem_iff_getElem?.mp hnc
    by_cases hlj : l = j
    · subst hlj
      exact Or.inl (Option.some.inj (hl.symm.trans hold))
    · refine Or.inr (mem_nodesOf.mpr ⟨k, b.modifyNode j f, ?_, ?_⟩)
      · rw [List.getElem?_modify_eq, hb]
        rfl
      · apply List.mem_of_getElem? (i := l)
        rw [Bucket.modifyNode, List.getElem?_modify_ne _ _ (Ne.symm hlj), hl]
  · refine Or.inr (mem_nodesOf.mpr ⟨k, c, ?_, hnc⟩)
    rw [List.getElem?_modify_ne _ _ (Ne.symm hki), hc]

/-- The other nodes were there before. -/
theorem mem_of_mem_nodesOf_modify {bs : List Bucket} (hb : bs[i]? = some b) {j : ℕ} {old m : Node}
    (hold : b.nodes[j]? = some old) {f : Node → Node}
    (hm : m ∈ nodesOf (bs.modify i (Bucket.modifyNode j f))) : m = f old ∨ m ∈ nodesOf bs := by
  obtain ⟨k, c, hc, hmc⟩ := mem_nodesOf.mp hm
  by_cases hki : k = i
  · subst hki
    rw [List.getElem?_modify_eq, hb] at hc
    obtain rfl := Option.some.inj hc
    obtain ⟨l, hl⟩ := List.mem_iff_getElem?.mp hmc
    by_cases hlj : l = j
    · subst hlj
      rw [Bucket.modifyNode, List.getElem?_modify_eq, hold] at hl
      exact Or.inl (Option.some.inj hl).symm
    · rw [Bucket.modifyNode, List.getElem?_modify_ne _ _ (Ne.symm hlj)] at hl
      exact Or.inr (mem_nodesOf.mpr ⟨k, b, hb, List.mem_of_getElem? hl⟩)
  · rw [List.getElem?_modify_ne _ _ (Ne.symm hki)] at hc
    exact Or.inr (mem_nodesOf.mpr ⟨k, c, hc, hmc⟩)

/-- The node at a position is brought up to date, or a bad one is replaced. -/
theorem Learnt.set (hok : TableOk d.myid af (d.table af))
    (hfind : findBucket id (d.table af) = some i) (hb : (d.table af)[i]? = some b) {j : ℕ}
    {f : Node → Node} {old : Node} (hold : b.nodes[j]? = some old)
    (hnok : NodeOk d.myid af (f old)) (hid : (f old).id = id)
    (hss : (f old).ss = sa ∨ (f old).ss = old.ss ∧ old.id = id ∧ confirm = 0)
    (hcase : old.id = id ∨ knownBad d.now old = true ∧ id ∉ b.nodes.map Node.id) :
    Learnt af d id sa confirm (some (i, j), d.modifyNode af i j f) := by
  have hmod : (d.modifyNode af i j f).table af =
      (d.table af).modify i (Bucket.modifyNode j f) := by
    rw [State.modifyNode, State.modifyBucket, table_setTable_self]
  have hget : ((d.modifyNode af i j f).table af)[i]? =
      some (b.modifyNode j f) := by
    rw [hmod, List.getElem?_modify_eq, hb]
    rfl
  have hgetj : (b.modifyNode j f).nodes[j]? = some (f old) := by
    rw [Bucket.modifyNode, List.getElem?_modify_eq, hold]
    rfl
  have hplace : Ranges.locate (f old).id.value (firsts (d.table af)) = some i := by
    rw [hid, ← findBucket_eq_locate, hfind]
  refine ⟨?_, Apart.setTable d af _, fun id' hc => ?_, fun n hn => ?_, fun m hm => ?_, ?_,
    fun hnone => absurd hnone (by simp)⟩
  · rw [hmod]
    refine hok.modify (modifyNode_first j f) fun b' hb' hokb => ?_
    rw [hb] at hb'
    obtain rfl := Option.some.inj hb'
    refine hokb.set hold hnok hplace ?_
    rcases hcase with heq | ⟨-, hnew⟩
    · exact Or.inl (hid.trans heq.symm)
    · exact Or.inr (by rw [hid]; exact hnew)
  · rw [hmod]
    exact hc.modify (modifyNode_first j f) (fun b => le_refl b.count) (fun _ => rfl) i
  · rcases mem_nodesOf_modify hb hold f hn with rfl | hmem
    · exact hcase.imp_right fun h => Or.inl h.1
    · exact Or.inr (Or.inr (Or.inl ⟨n, by rw [hmod]; exact hmem, rfl, rfl⟩))
  · rw [hmod] at hm
    rcases mem_of_mem_nodesOf_modify hb hold hm with rfl | hmem
    · rcases hss with hss | ⟨hss, hoid, -⟩
      · exact Or.inl ⟨hid, hss⟩
      · exact Or.inr ⟨old, mem_nodesOf.mpr ⟨i, b, hb, List.mem_of_getElem? hold⟩,
          hid.trans hoid.symm, hss⟩
    · exact Or.inr ⟨m, hmem, rfl, rfl⟩
  · intro i' j' hij
    obtain ⟨rfl, rfl⟩ := Prod.mk.inj (Option.some.inj hij)
    refine ⟨_, f old, hget, hgetj, hid, fun hc => ?_⟩
    rcases hss with hss | ⟨-, -, hzero⟩
    · exact hss
    · exact absurd hzero hc

/-- There is room for the node. -/
theorem Learnt.push (hok : TableOk d.myid af (d.table af))
    (hfind : findBucket id (d.table af) = some i) (hb : (d.table af)[i]? = some b) {n : Node}
    (hnok : NodeOk d.myid af n) (hid : n.id = id) (hss : n.ss = sa)
    (hnew : id ∉ b.nodes.map Node.id) (hroom : b.count < b.maxCount) :
    Learnt af d id sa confirm (some (i, 0), d.modifyBucket af i (Bucket.push n)) := by
  have hmod : (d.modifyBucket af i (Bucket.push n)).table af =
      (d.table af).modify i (Bucket.push n) := by
    rw [State.modifyBucket, table_setTable_self]
  have hnew' : n.id ∉ (nodesOf (d.table af)).map Node.id := by
    intro hmem
    obtain ⟨m, hm, heq⟩ := List.mem_map.mp hmem
    rw [hid] at heq
    have hfind' : findBucket m.id (d.table af) = some i := by rw [heq, hfind]
    exact hnew (heq ▸ List.mem_map_of_mem ((hok.mem_iff hfind' hb).mp hm))
  have hperm := nodesOf_insert (n := n) hb
  rw [← hmod] at hperm
  refine ⟨?_, Apart.setTable d af _, fun id' hc => ?_, fun m hm => ?_, fun m hm => ?_, ?_,
    fun hnone => absurd hnone (by simp)⟩
  · rw [hmod]
    exact hok.insert hnok (by rw [hid, hfind]) hb hnew' hroom
  · rw [hmod]
    exact hc.modify (push_first n) (fun b => Int.le_add_one (le_refl b.count)) (fun _ => rfl) i
  · exact Or.inr (Or.inr (Or.inl ⟨m, hperm.mem_iff.mpr (List.mem_cons_of_mem n hm), rfl, rfl⟩))
  · rcases List.mem_cons.mp (hperm.mem_iff.mp hm) with rfl | hm
    · exact Or.inl ⟨hid, hss⟩
    · exact Or.inr ⟨m, hm, rfl, rfl⟩
  · intro i' j' hij
    obtain ⟨rfl, rfl⟩ := Prod.mk.inj (Option.some.inj hij)
    refine ⟨b.push n, n, ?_, rfl, hid, fun _ => hss⟩
    rw [hmod, List.getElem?_modify_eq, hb]
    rfl

/-- The node is not taken up. -/
theorem Learnt.refuse (hok : TableOk d.myid af (d.table af))
    (hwhy : d.table af = [] ∨ id = d.myid ∨ isMartian sa = true ∨ nodeBlacklisted d sa = true ∨
      id ∉ (nodesOf (d.table af)).map Node.id ∧ ∃ i b, findBucket id (d.table af) = some i ∧
        (d.table af)[i]? = some b ∧ b.maxCount ≤ b.count) :
    Learnt af d id sa confirm (none, d) :=
  ⟨hok, Apart.refl af d, fun _ hc => hc, fun n hn => Or.inr (Or.inr (Or.inl ⟨n, hn, rfl, rfl⟩)),
    fun m hm => Or.inr ⟨m, hm, rfl, rfl⟩, fun i j hij => absurd hij (by simp), fun _ => hwhy⟩

end Steps

section Loop

variable {af : Af} {d : State} {id : NodeId} {sa : Sockaddr} {confirm : ℕ}

theorem nodesOf_modify {f : Bucket → Bucket} (hf : ∀ b, (f b).nodes = b.nodes) (bs : List Bucket)
    (i : ℕ) : nodesOf (bs.modify i f) = nodesOf bs := by
  rw [nodesOf, nodesOf, List.flatMap_def, List.flatMap_def, map_modify_eq hf]

theorem confirmSearch_quiet : Quiet d (confirmSearch d id sa confirm) := by
  unfold confirmSearch
  split
  · exact addSearchNode_quiet id sa
  · exact Quiet.refl d

theorem touch_nodes (now : ℤ) (b : Bucket) : (b.touch now).nodes = b.nodes := rfl

theorem touchBucket_quiet (af : Af) (confirm i : ℕ) : Quiet d (touchBucket d af i confirm) ∧
    nodesOf ((touchBucket d af i confirm).table af) = nodesOf (d.table af) := by
  unfold touchBucket
  split
  · refine ⟨modifyBucket_quiet fun b => rfl, ?_⟩
    rw [State.modifyBucket, table_setTable_self]
    exact nodesOf_modify (touch_nodes d.now) _ i
  · exact ⟨Quiet.refl d, rfl⟩

theorem stampGrow_quiet (af : Af) (mybucket : Bool) :
    Quiet d (stampGrow d af mybucket) ∧ (stampGrow d af mybucket).table af = d.table af := by
  unfold stampGrow
  split
  · split
    · exact ⟨⟨rfl, fun _ => rfl, forall₂_tends_refl _⟩, rfl⟩
    · exact ⟨⟨rfl, fun _ => rfl, forall₂_tends_refl _⟩, rfl⟩
  · exact ⟨Quiet.refl d, rfl⟩

theorem pingDubious_quiet (i : ℕ) (b : Bucket) : Quiet d (pingDubious d af i b) := by
  unfold pingDubious
  split
  · exact Quiet.refl d
  · split
    · exact Quiet.refl d
    · exact (emit_quiet ..).trans (modifyNode_quiet fun n => rfl)

theorem pingDubious_of_good {i : ℕ} {b : Bucket}
    (hgood : (b.nodes.any fun n => !nodeGood d n) = false) :
    pingDubious d af i b = d := by
  have hnone : b.nodes.findIdx? (fun n => !nodeGood d n && n.pingedTime < d.now - 15) = none := by
    rw [List.findIdx?_eq_none_iff]
    intro n hn
    have h := List.any_eq_false.mp hgood n hn
    simp only [Bool.not_eq_true] at h
    rw [h, Bool.false_and]
  unfold pingDubious
  rw [hnone]

theorem cacheAway_quiet (i : ℕ) (b : Bucket) : Quiet d (cacheAway d af i b sa confirm) := by
  unfold cacheAway
  split
  · exact modifyBucket_quiet fun b => rfl
  · exact Quiet.refl d

theorem update_spec (sa : Sockaddr) (confirm : ℕ) (now : ℤ) (n : Node) :
    (n.update now sa confirm).id = n.id ∧
      ((n.update now sa confirm).ss = sa ∨
        (n.update now sa confirm).ss = n.ss ∧ confirm = 0) := by
  unfold Node.update
  by_cases hc : confirm ≠ 0 ∨ n.time < now - 15 * 60
  · rw [if_pos hc]
    by_cases h2 : 2 ≤ confirm
    · simp [h2]
    · simp [h2]
  · rw [if_neg hc]
    exact ⟨rfl, Or.inr ⟨rfl, Decidable.not_not.mp fun h => hc (Or.inl h)⟩⟩

theorem findIdx_id_some {nodes : List Node} {j : ℕ}
    (hj : (nodes.findIdx? fun n => idCmp n.id id = .eq) = some j) :
    ∃ n, nodes[j]? = some n ∧ n.id = id := by
  obtain ⟨hlt, hp, -⟩ := List.findIdx?_eq_some_iff_getElem.mp hj
  exact ⟨nodes[j], List.getElem?_eq_getElem hlt, idCmp_eq.mp (of_decide_eq_true hp)⟩

theorem findIdx_id_none {nodes : List Node}
    (hj : (nodes.findIdx? fun n => idCmp n.id id = .eq) = none) : id ∉ nodes.map Node.id := by
  intro hmem
  obtain ⟨n, hn, heq⟩ := List.mem_map.mp hmem
  have hp := List.findIdx?_eq_none_iff.mp hj n hn
  exact absurd (idCmp_eq.mpr heq) (of_decide_eq_false hp)

/-- A round comes to a result, or it splits the own bucket and goes on from there. -/
inductive Outcome (af : Af) (d : State) (id : NodeId) (sa : Sockaddr) (confirm : ℕ)
    (f : ℕ → (State → Option (ℕ × ℕ) × State) → Option (ℕ × ℕ) × State) : Prop
  | result (r : Option (ℕ × ℕ) × State) (hlearnt : Learnt af d id sa confirm r)
      (heq : ∀ extra again, f extra again = r)
  | split (d' : State) (hok : TableOk d'.myid af (d'.table af))
      (hlen : (d.table af).length < (d'.table af).length)
      (hlearnt : ∀ r, Learnt af d' id sa confirm r → Learnt af d id sa confirm r)
      (heq : ∀ extra again, f extra again = again d')

variable {f : ℕ → (State → Option (ℕ × ℕ) × State) → Option (ℕ × ℕ) × State}

theorem Outcome.after_quiet {d' : State} (hquiet : Quiet d d')
    (hnodes : nodesOf (d'.table af) = nodesOf (d.table af))
    (h : Outcome af d' id sa confirm f) : Outcome af d id sa confirm f := by
  have hlen' : (d'.table af).length = (d.table af).length := by
    have hrows := congrArg List.length (hquiet.rows af)
    rw [rows, rows, List.length_map, List.length_map] at hrows
    exact hrows
  cases h with
  | result r hlearnt heq => exact .result r (hlearnt.after_quiet hquiet hnodes) heq
  | split d'' hok hlen hlearnt heq =>
    exact .split d'' hok (hlen' ▸ hlen) (fun r hr => (hlearnt r hr).after_quiet hquiet hnodes) heq

/-- The node is in its bucket, and is brought up to date. -/
theorem Learnt.known {i j : ℕ} {b : Bucket} {old : Node} (hok : TableOk d.myid af (d.table af))
    (haf : family sa = af) (hmartian : isMartian sa = false)
    (hfind : findBucket id (d.table af) = some i) (hb : (d.table af)[i]? = some b)
    (hold : b.nodes[j]? = some old) (hid : old.id = id) :
    Learnt af d id sa confirm (some (i, j),
      confirmSearch (d.modifyNode af i j (Node.update d.now sa confirm)) id sa confirm) := by
  obtain ⟨hupid, hupss⟩ := update_spec sa confirm d.now old
  have hnode := (hok.bucket i b hb).nodes old (List.mem_of_getElem? hold)
  refine Learnt.quiet (Learnt.set hok hfind hb hold ?_ (hupid.trans hid) ?_ (Or.inl hid))
    confirmSearch_quiet
  · refine ⟨by rw [hupid]; exact hnode.other, ?_, ?_⟩
    · rcases hupss with hss | ⟨hss, -⟩
      · rw [hss, haf]
      · rw [hss]
        exact hnode.family
    · rcases hupss with hss | ⟨hss, -⟩
      · rw [hss, hmartian]
      · rw [hss]
        exact hnode.martian
  · exact hupss.imp_right fun h => ⟨h.1, hid, h.2⟩

/-- The bucket is full of nodes that are not bad. -/
theorem Outcome.full {i : ℕ} {b : Bucket} {mybucket : Bool}
    (hok : TableOk d.myid af (d.table af)) (hfind : findBucket id (d.table af) = some i)
    (hb : (d.table af)[i]? = some b) (hnew : id ∉ b.nodes.map Node.id)
    (hmy : mybucket = true → findBucket d.myid (d.table af) = some i)
    (hfull : b.maxCount ≤ b.count) :
    Outcome af d id sa confirm fun extra again =>
      if mybucket && !(b.nodes.any fun n => !nodeGood d n) then
        match splitBucket extra (pingDubious d af i b) af i with
        | none => (none, pingDubious d af i b)
        | some d => again d
      else (none, confirmSearch (cacheAway (pingDubious d af i b) af i b sa confirm) id sa
        confirm) := by
  have hnot : id ∉ (nodesOf (d.table af)).map Node.id := by
    intro hmem
    obtain ⟨m, hm, heq⟩ := List.mem_map.mp hmem
    have hfind' : findBucket m.id (d.table af) = some i := by rw [heq, hfind]
    exact hnew (heq ▸ List.mem_map_of_mem ((hok.mem_iff hfind' hb).mp hm))
  have hrefuse : Learnt af d id sa confirm (none, d) :=
    Learnt.refuse hok (Or.inr (Or.inr (Or.inr (Or.inr ⟨hnot, i, b, hfind, hb, hfull⟩))))
  by_cases hsplit : (mybucket && !(b.nodes.any fun n => !nodeGood d n)) = true
  · obtain ⟨hmine, hgood⟩ := Bool.and_eq_true_iff.mp hsplit
    rw [Bool.not_eq_true'] at hgood
    obtain ⟨d', hsome, hsettled, hlen⟩ := splitBucket_spec hok (hmy hmine) hb hfull
    have hne : d'.table af ≠ [] := by
      intro hnil
      rw [hnil] at hlen
      exact absurd hlen (Nat.not_lt_zero _)
    refine .split d' ?_ hlen (fun r hr => hr.after_split hsettled hne) fun extra again => ?_
    · rw [hsettled.apart.myid]
      exact hsettled.table
    · rw [if_pos hsplit, pingDubious_of_good hgood, hsome extra]
  · exact .result _ (hrefuse.quiet (((pingDubious_quiet i b).trans (cacheAway_quiet i b)).trans
      confirmSearch_quiet)) fun extra again => if_neg hsplit

/-- The node is not in its bucket. -/
theorem Outcome.place {i : ℕ} {b : Bucket} {mybucket : Bool}
    (hok : TableOk d.myid af (d.table af)) (haf : family sa = af) (hother : id ≠ d.myid)
    (hmartian : isMartian sa = false) (hfind : findBucket id (d.table af) = some i)
    (hb : (d.table af)[i]? = some b) (hnew : id ∉ b.nodes.map Node.id)
    (hmy : mybucket = true → findBucket d.myid (d.table af) = some i) :
    Outcome af d id sa confirm fun extra again =>
      placeNode extra again d i b mybucket id sa confirm := by
  unfold placeNode
  simp only [haf]
  obtain ⟨hquiet, htable⟩ := stampGrow_quiet (d := d) af mybucket
  refine Outcome.after_quiet hquiet (by rw [htable]) ?_
  have hmyid := (hquiet.apart af).myid
  rw [← hmyid, ← htable] at hok hmy
  rw [← hmyid] at hother
  rw [← htable] at hfind hb
  generalize stampGrow d af mybucket = d at hok hother hfind hb hmy ⊢
  have hfresh : NodeOk d.myid af (Node.fresh d.now id sa confirm) := ⟨hother, haf, hmartian⟩
  cases hbad : b.nodes.findIdx? (knownBad d.now) with
  | some j =>
    obtain ⟨hlt, hp, -⟩ := List.findIdx?_eq_some_iff_getElem.mp hbad
    exact .result _ (Learnt.quiet (Learnt.set hok hfind hb (List.getElem?_eq_getElem hlt) hfresh
      rfl (Or.inl rfl) (Or.inr ⟨hp, hnew⟩)) confirmSearch_quiet) fun extra again => rfl
  | none =>
    by_cases hfull : b.maxCount ≤ b.count
    · simp only [if_pos hfull]
      exact Outcome.full hok hfind hb hnew hmy hfull
    · exact .result _ (Learnt.quiet (Learnt.push hok hfind hb hfresh rfl rfl hnew
        (Int.not_le.mp hfull)) confirmSearch_quiet) fun extra again => if_neg hfull

theorem Outcome.round (hok : TableOk d.myid af (d.table af)) (haf : family sa = af) (id : NodeId)
    (confirm : ℕ) :
    Outcome af d id sa confirm fun extra again => newNodeRound extra again d id sa confirm := by
  unfold newNodeRound
  simp only [haf]
  cases hfind : findBucket id (d.table af) with
  | none =>
    have hnil : d.table af = [] := by
      by_contra hne
      exact findBucket_ne_none.mpr hne hfind
    exact .result _ (Learnt.refuse hok (Or.inl hnil)) fun extra again => rfl
  | some i =>
    by_cases hself : idCmp id d.myid = .eq
    · exact .result _ (Learnt.refuse hok (Or.inr (Or.inl (idCmp_eq.mp hself))))
        fun extra again => if_pos hself
    have hother : id ≠ d.myid := fun heq => hself (idCmp_eq.mpr heq)
    simp only [if_neg hself]
    cases hbad : isMartian sa || nodeBlacklisted d sa with
    | true =>
      have hwhy := Bool.or_eq_true_iff.mp hbad
      exact .result _ (Learnt.refuse hok (Or.inr (Or.inr (hwhy.imp_right Or.inl))))
        fun extra again => rfl
    | false =>
      obtain ⟨hmartian, -⟩ := Bool.or_eq_false_iff.mp hbad
      have hne := findBucket_ne_none.mp (show findBucket id (d.table af) ≠ none by
        rw [hfind]
        exact Option.some_ne_none i)
      have hshape := hok.shape hne
      have hmy : inBucket d.myid (d.table af) i = true → findBucket d.myid (d.table af) = some i :=
        (inBucket_iff hshape.head hshape.sorted).mp
      simp only [Bool.false_eq_true, if_false]
      generalize inBucket d.myid (d.table af) i = mybucket at hmy ⊢
      obtain ⟨hquiet, hnodes⟩ := touchBucket_quiet (d := d) af confirm i
      have hrows := hquiet.rows af
      refine Outcome.after_quiet hquiet hnodes ?_
      have hok' := hok.of_rows hrows
      rw [← (hquiet.apart af).myid] at hok' hother hmy
      rw [← findBucket_of_rows hrows] at hfind hmy
      generalize touchBucket d af i confirm = d at hok' hother hmy hfind ⊢
      obtain ⟨b, hb⟩ := findBucket_get hfind
      simp only [hb]
      cases hj : b.nodes.findIdx? fun n => idCmp n.id id = .eq with
      | some j =>
        obtain ⟨old, hold, hid⟩ := findIdx_id_some hj
        exact .result _ (Learnt.known hok' haf hmartian hfind hb hold hid) fun extra again => rfl
      | none => exact Outcome.place hok' haf hother hmartian hfind hb (findIdx_id_none hj) hmy

/-- There are not more rounds than there can be buckets more. -/
theorem newNodeLoop_ends (hok : TableOk d.myid af (d.table af)) (haf : family sa = af) (id : NodeId)
    (confirm : ℕ) : ∃ r, Learnt af d id sa confirm r ∧ ∀ extra fuel,
      161 - (d.table af).length < fuel → newNodeLoop extra d id sa confirm fuel = r := by
  generalize hk : 161 - (d.table af).length = k
  induction k using Nat.strong_induction_on generalizing d with
  | _ k ih =>
    cases Outcome.round hok haf id confirm with
    | result r hlearnt heq =>
      refine ⟨r, hlearnt, fun extra fuel hfuel => ?_⟩
      obtain ⟨fuel, rfl⟩ := Nat.exists_eq_succ_of_ne_zero (Nat.ne_of_gt (Nat.zero_lt_of_lt hfuel))
      exact heq extra _
    | split d' hok' hlen hlearnt heq =>
      have hne' : d'.table af ≠ [] := by
        intro hnil
        rw [hnil] at hlen
        exact absurd hlen (Nat.not_lt_zero _)
      have hle := (hok'.shape hne').length_le
      rw [length_firsts] at hle
      obtain ⟨r, hr, hloop⟩ := ih (161 - (d'.table af).length) (by omega) hok' rfl
      refine ⟨r, hlearnt r hr, fun extra fuel hfuel => ?_⟩
      obtain ⟨fuel, rfl⟩ := Nat.exists_eq_succ_of_ne_zero (Nat.ne_of_gt (Nat.zero_lt_of_lt hfuel))
      exact (heq extra _).trans (hloop extra fuel (by omega))

theorem newNode_spec (hok : TableOk d.myid af (d.table af)) (haf : family sa = af) (id : NodeId)
    (confirm : ℕ) :
    Learnt af d id sa confirm (newNode d id sa confirm) := by
  obtain ⟨r, hr, hloop⟩ := newNodeLoop_ends hok haf id confirm
  rw [newNode, hloop 0 162 (by omega)]
  exact hr

end Loop

end SeaStore.Dht
