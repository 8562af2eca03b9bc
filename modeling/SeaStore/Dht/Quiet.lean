import Mathlib.Data.List.Forall2
import SeaStore.Dht.Nearest
import SeaStore.Dht.Search

/-!
What asking other nodes leaves alone. Messages go out, nodes are marked as
pinged, and searches learn of nodes; but the ids and addresses in the buckets
stay, and so does all that is stored. The nodes of a search are the closest
ones, in order.
-/
namespace SeaStore.Dht

open Posix Controller

/-- What of a bucket does not change when its nodes are asked. -/
def Bucket.row (b : Bucket) : NodeId × ℤ × ℤ × List (NodeId × Sockaddr) :=
  (b.first, b.count, b.maxCount, b.nodes.map fun n => (n.id, n.ss))

def rows (bs : List Bucket) : List (NodeId × ℤ × ℤ × List (NodeId × Sockaddr)) :=
  bs.map Bucket.row

/-- The state but for the buckets, the searches and what is sent. -/
def State.still (d : State) : State :=
  { d with
    buckets := [], buckets6 := [], searches := [], sent := [], events := [], randoms := []
    mybucketGrowTime := 0, mybucket6GrowTime := 0 }

/-- The nodes of a search are sorted by their distance to what it looks for, and a token
is short enough to be sent back. -/
structure SearchOk (sr : Search) : Prop where
  sorted : (sr.nodes.map fun n => distance n.id sr.id).Pairwise (· < ·)
  length_le : sr.nodes.length ≤ searchNodes
  family : ∀ n ∈ sr.nodes, family n.ss = sr.af
  token : ∀ n ∈ sr.nodes, n.token.length < 40

structure Tends (sr sr' : Search) : Prop where
  tid : sr'.tid = sr.tid
  af : sr'.af = sr.af
  id : sr'.id = sr.id
  port : sr'.port = sr.port
  ok : SearchOk sr → SearchOk sr'

structure Quiet (d d' : State) : Prop where
  still : d'.still = d.still
  rows : ∀ af, rows (d'.table af) = rows (d.table af)
  searches : List.Forall₂ Tends d.searches d'.searches

section State

variable {d : State} {af af' : Af}

theorem table_setTable (bs : List Bucket) :
    (d.setTable af bs).table af' = if af = .inet ↔ af' = .inet then bs else d.table af' := by
  unfold State.setTable State.table
  by_cases h : af = .inet
  · by_cases h' : af' = .inet
    · simp [h, h']
    · simp [h, h']
  · by_cases h' : af' = .inet
    · simp [h, h']
    · simp [h, h']

@[simp] theorem table_setTable_self (bs : List Bucket) : (d.setTable af bs).table af = bs := by
  rw [table_setTable, if_pos Iff.rfl]

@[simp] theorem still_setTable (bs : List Bucket) : (d.setTable af bs).still = d.still := by
  unfold State.setTable
  split
  · rfl
  · rfl

@[simp] theorem searches_setTable (bs : List Bucket) :
    (d.setTable af bs).searches = d.searches := by
  unfold State.setTable
  split
  · rfl
  · rfl

end State

section Tends

variable {sr sr' sr'' : Search}

theorem Tends.refl (sr : Search) : Tends sr sr := ⟨rfl, rfl, rfl, rfl, fun h => h⟩

theorem Tends.trans (h : Tends sr sr') (h' : Tends sr' sr'') : Tends sr sr'' :=
  ⟨h'.tid.trans h.tid, h'.af.trans h.af, h'.id.trans h.id, h'.port.trans h.port,
    fun hok => h'.ok (h.ok hok)⟩

/-- A node of a search is changed, but not its id, its family or its token. -/
theorem Tends.modify (sr : Search) (i : ℕ) {f : SearchNode → SearchNode}
    (hid : ∀ n, (f n).id = n.id) (hss : ∀ n, (f n).ss = n.ss) (htok : ∀ n, (f n).token = n.token) :
    Tends sr { sr with nodes := sr.nodes.modify i f } := by
  refine ⟨rfl, rfl, rfl, rfl, fun hok => ⟨?_, ?_, ?_, ?_⟩⟩
  · rw [map_modify_eq (fun n => by rw [hid])]
    exact hok.sorted
  · rw [List.length_modify]
    exact hok.length_le
  · intro n hn
    obtain ⟨m, hm, heq⟩ : ∃ m ∈ sr.nodes, m.ss = n.ss := by
      have hmem : n.ss ∈ (sr.nodes.modify i f).map SearchNode.ss := List.mem_map_of_mem hn
      rw [map_modify_eq hss] at hmem
      exact List.mem_map.mp hmem
    rw [← heq]
    exact hok.family m hm
  · intro n hn
    obtain ⟨m, hm, heq⟩ : ∃ m ∈ sr.nodes, m.token = n.token := by
      have hmem : n.token ∈ (sr.nodes.modify i f).map SearchNode.token := List.mem_map_of_mem hn
      rw [map_modify_eq htok] at hmem
      exact List.mem_map.mp hmem
    rw [← heq]
    exact hok.token m hm

theorem forall₂_modify {ss : List Search} {si : ℕ} {f : Search → Search}
    (hf : ∀ sr, ss[si]? = some sr → Tends sr (f sr)) :
    List.Forall₂ Tends ss (ss.modify si f) := by
  rw [List.forall₂_iff_get]
  refine ⟨(List.length_modify ..).symm, fun i hi hi' => ?_⟩
  simp only [List.get_eq_getElem]
  rw [List.getElem_modify]
  by_cases h : si = i
  · subst h
    rw [if_pos rfl]
    exact hf _ (List.getElem?_eq_getElem hi)
  · rw [if_neg h]
    exact Tends.refl _

theorem forall₂_tends_trans {l l' l'' : List Search} (h : List.Forall₂ Tends l l')
    (h' : List.Forall₂ Tends l' l'') : List.Forall₂ Tends l l'' := by
  induction h generalizing l'' with
  | nil => exact h'
  | cons ht _ ih =>
    cases h' with
    | cons ht' h' => exact List.Forall₂.cons (ht.trans ht') (ih h')

theorem forall₂_tends_refl (ss : List Search) : List.Forall₂ Tends ss ss :=
  List.forall₂_same.mpr fun sr _ => Tends.refl sr

end Tends

section Insert

variable {now : ℤ} {sr : Search} {id : NodeId} {sa : Sockaddr} {replied : Bool}
  {token : Option Bytes}

theorem learn_spec (n : SearchNode) :
    (n.learn now sa replied token).id = n.id ∧ (n.learn now sa replied token).ss = sa ∧
      (n.token.length < 40 → (n.learn now sa replied token).token.length < 40) := by
  cases token with
  | none =>
    cases replied with
    | true => exact ⟨rfl, rfl, fun hn => hn⟩
    | false => exact ⟨rfl, rfl, fun hn => hn⟩
  | some token =>
    by_cases hlen : 40 ≤ token.length
    · cases replied with
      | true =>
        simp only [SearchNode.learn, if_pos hlen]
        exact ⟨rfl, rfl, fun hn => hn⟩
      | false =>
        simp only [SearchNode.learn, if_pos hlen]
        exact ⟨rfl, rfl, fun hn => hn⟩
    · cases replied with
      | true =>
        simp only [SearchNode.learn, if_neg hlen]
        exact ⟨rfl, rfl, fun _ => Nat.not_le.mp hlen⟩
      | false =>
        simp only [SearchNode.learn, if_neg hlen]
        exact ⟨rfl, rfl, fun _ => Nat.not_le.mp hlen⟩

/-- The distances of the nodes of a search are what is offered to a bounded list. -/
theorem placeOf_eq_place (id target : NodeId) (ids : List NodeId) :
    placeOf id target ids =
      Nearest.place (distance id target) (ids.map fun other => distance other target) := by
  induction ids with
  | nil => rfl
  | cons other ids ih =>
    rw [placeOf, List.map_cons, Nearest.place, ih]
    have heq : idCmp id other = .eq ↔ distance id target = distance other target := by
      rw [idCmp_eq]
      exact ⟨fun h => by rw [h], distance_inj⟩
    have hlt : xorcmp id other target = .lt ↔ distance id target < distance other target := by
      rw [xorcmp_eq_compare]
      exact Nat.compare_eq_lt
    simp only [heq, hlt]

/-- A node that is offered to a search is kept if it is one of the closest. -/
theorem distances_insertSearchNode (hok : SearchOk sr) (hfam : family sa = sr.af) :
    ((insertSearchNode now sr id sa replied token).2.nodes.map fun n => distance n.id sr.id) =
      Nearest.offer searchNodes (sr.nodes.map fun n => distance n.id sr.id)
        (distance id sr.id) := by
  have hids : (sr.nodes.map SearchNode.id).map (fun other => distance other sr.id) =
      sr.nodes.map fun n => distance n.id sr.id := by
    rw [List.map_map]
    rfl
  unfold insertSearchNode Nearest.offer
  rw [if_neg (not_not.mpr hfam), placeOf_eq_place, hids]
  generalize hplace : Nearest.place (distance id sr.id)
    (sr.nodes.map fun n => distance n.id sr.id) = p
  obtain ⟨found, i⟩ := p
  cases found with
  | true =>
    simp only [if_true]
    rw [map_modify_eq (fun n => by rw [(learn_spec n).1])]
  | false =>
    have hkey : distance ((SearchNode.fresh id sa).learn now sa replied token).id sr.id =
        distance id sr.id := by
      rw [(learn_spec _).1]
      rfl
    have hmap := Nearest.map_insertIdx_take (fun n : SearchNode => distance n.id sr.id)
      hok.sorted hok.length_le (by rw [hkey]; exact hplace)
    simp only [Nearest.offer, hkey, hplace] at hmap
    simp only [Bool.false_eq_true, if_false] at hmap ⊢
    rw [← hmap]
    split
    · rfl
    · rfl

theorem insertSearchNode_family (hfam : family sa ≠ sr.af) :
    insertSearchNode now sr id sa replied token = (none, sr) := if_pos hfam

/-- A node of a search after an insertion is one of before, or has the new address. -/
theorem insertSearchNode_fields (hfam : family sa = sr.af) :
    (insertSearchNode now sr id sa replied token).2.tid = sr.tid ∧
      (insertSearchNode now sr id sa replied token).2.af = sr.af ∧
      (insertSearchNode now sr id sa replied token).2.id = sr.id ∧
      (insertSearchNode now sr id sa replied token).2.port = sr.port ∧
      ∀ n ∈ (insertSearchNode now sr id sa replied token).2.nodes,
        n ∈ sr.nodes ∨ n.ss = sa ∧ ((∀ m ∈ sr.nodes, m.token.length < 40) →
          n.token.length < 40) := by
  unfold insertSearchNode
  rw [if_neg (not_not.mpr hfam)]
  generalize placeOf id sr.id (sr.nodes.map SearchNode.id) = p
  obtain ⟨found, i⟩ := p
  cases found with
  | true =>
    refine ⟨rfl, rfl, rfl, rfl, fun n hn => ?_⟩
    obtain ⟨j, hj⟩ := List.mem_iff_getElem?.mp hn
    simp only [if_true] at hj
    rw [List.getElem?_modify] at hj
    obtain ⟨m, hm, rfl⟩ := Option.map_eq_some_iff.mp hj
    have hmem := List.mem_of_getElem? hm
    by_cases hij : i = j
    · rw [if_pos hij]
      exact Or.inr ⟨(learn_spec m).2.1, fun htok => (learn_spec m).2.2 (htok m hmem)⟩
    · rw [if_neg hij]
      exact Or.inl hmem
  | false =>
    simp only [Bool.false_eq_true, if_false]
    by_cases hi : i = searchNodes
    · rw [if_pos hi]
      exact ⟨rfl, rfl, rfl, rfl, fun n hn => Or.inl hn⟩
    · rw [if_neg hi]
      refine ⟨rfl, rfl, rfl, rfl, fun n hn => ?_⟩
      rcases List.eq_or_mem_of_mem_insertIdx (List.mem_of_mem_take hn) with rfl | hmem
      · exact Or.inr ⟨(learn_spec _).2.1,
          fun _ => (learn_spec _).2.2 (by simp [SearchNode.fresh])⟩
      · exact Or.inl hmem

theorem insertSearchNode_tends :
    Tends sr (insertSearchNode now sr id sa replied token).2 := by
  by_cases hfam : family sa = sr.af
  · obtain ⟨htid, haf, hid, hport, hnodes⟩ :=
      @insertSearchNode_fields now sr id sa replied token hfam
    refine ⟨htid, haf, hid, hport, fun hok => ?_⟩
    have hall : Nearest.Smallest searchNodes {x | x ∈ sr.nodes.map fun n => distance n.id sr.id}
        (sr.nodes.map fun n => distance n.id sr.id) :=
      ⟨hok.sorted, by rw [List.length_map]; exact hok.length_le, fun x hx => hx,
        fun x hx => Or.inl hx⟩
    have hoff := hall.offer (distance id sr.id)
    rw [← distances_insertSearchNode hok hfam] at hoff
    refine ⟨by rw [hid]; exact hoff.sorted, ?_, ?_, ?_⟩
    · have hle := hoff.length_le
      rw [List.length_map] at hle
      exact hle
    · intro n hn
      rw [haf]
      rcases hnodes n hn with hmem | ⟨hss, -⟩
      · exact hok.family n hmem
      · rw [hss, hfam]
    · intro n hn
      rcases hnodes n hn with hmem | ⟨-, htok⟩
      · exact hok.token n hmem
      · exact htok hok.token
  · rw [insertSearchNode_family hfam]
    exact Tends.refl sr

end Insert

section Quiet

variable {d d' d'' : State} {af : Af}

theorem Quiet.refl (d : State) : Quiet d d := ⟨rfl, fun _ => rfl, forall₂_tends_refl _⟩

theorem Quiet.trans (h : Quiet d d') (h' : Quiet d' d'') : Quiet d d'' :=
  ⟨h'.still.trans h.still, fun af => (h'.rows af).trans (h.rows af),
    forall₂_tends_trans h.searches h'.searches⟩

theorem setTable_quiet {bs : List Bucket} (hrows : rows bs = rows (d.table af)) :
    Quiet d (d.setTable af bs) := by
  refine ⟨still_setTable bs, fun af' => ?_, ?_⟩
  · rw [table_setTable]
    split
    · rw [hrows]
      unfold State.table
      by_cases h : af = .inet
      · rw [if_pos h, if_pos (by tauto)]
      · rw [if_neg h, if_neg (by tauto)]
    · rfl
  · rw [searches_setTable]
    exact forall₂_tends_refl _

theorem modifyBucket_quiet {i : ℕ} {f : Bucket → Bucket} (hf : ∀ b, (f b).row = b.row) :
    Quiet d (d.modifyBucket af i f) := setTable_quiet (map_modify_eq hf _ _)

theorem modifyNode_quiet {i j : ℕ} {f : Node → Node}
    (hf : ∀ n, ((f n).id, (f n).ss) = (n.id, n.ss)) : Quiet d (d.modifyNode af i j f) :=
  modifyBucket_quiet fun b => by
    unfold Bucket.row Bucket.modifyNode
    rw [map_modify_eq hf]

theorem modifySearch_quiet {si : ℕ} {f : Search → Search}
    (hf : ∀ sr, d.searches[si]? = some sr → Tends sr (f sr)) : Quiet d (d.modifySearch si f) :=
  ⟨rfl, fun _ => rfl, forall₂_modify hf⟩

theorem dhtSend_quiet (bytes : Bytes) (confirm : Bool) (sa : Sockaddr) :
    Quiet d (dhtSend d bytes confirm sa) := by
  unfold dhtSend
  split
  · exact Quiet.refl d
  · split
    · exact ⟨rfl, fun _ => rfl, forall₂_tends_refl _⟩
    · exact Quiet.refl d

theorem emit_quiet (size : ℕ) (pieces : List Piece) (confirm : Bool) (sa : Sockaddr) :
    Quiet d (emit d size pieces confirm sa) := by
  unfold emit
  split
  · exact dhtSend_quiet _ confirm sa
  · exact Quiet.refl d

theorem sendCachedPing_quiet (i : ℕ) : Quiet d (sendCachedPing d af i) := by
  unfold sendCachedPing
  split
  · exact Quiet.refl d
  · exact (emit_quiet ..).trans (modifyBucket_quiet fun b => rfl)

theorem pinged_quiet (i j : ℕ) (b : Option ℕ) : Quiet d (pinged d af i j b) := by
  unfold pinged
  split
  · exact Quiet.refl d
  · have hmark : Quiet d (d.modifyNode af i j fun n =>
        { n with pinged := n.pinged + 1, pingedTime := d.now }) := modifyNode_quiet fun n => rfl
    simp only
    split
    · split
      · exact hmark.trans (sendCachedPing_quiet _)
      · split
        · exact hmark.trans (sendCachedPing_quiet _)
        · exact hmark
    · exact hmark

theorem pingedById_quiet (id : NodeId) : Quiet d (pingedById d id af) := by
  unfold pingedById
  split
  · exact pinged_quiet ..
  · exact Quiet.refl d

theorem markSearchNode_quiet (si ni : ℕ) : Quiet d (markSearchNode d si ni) :=
  modifySearch_quiet fun sr _ =>
    Tends.modify sr ni (fun _ => rfl) (fun _ => rfl) (fun _ => rfl)

theorem ackSearchNode_quiet (si ni : ℕ) : Quiet d (ackSearchNode d si ni) :=
  modifySearch_quiet fun sr _ =>
    Tends.modify sr ni (fun _ => rfl) (fun _ => rfl) (fun _ => rfl)

theorem searchSendGetPeers_quiet (si : ℕ) (ni : Option ℕ) :
    Quiet d (searchSendGetPeers d si ni).2 := by
  unfold searchSendGetPeers
  split
  · exact Quiet.refl d
  · split
    · exact Quiet.refl d
    · split
      · exact Quiet.refl d
      · split
        · exact ((emit_quiet ..).trans (markSearchNode_quiet ..)).trans (pingedById_quiet _)
        · exact Quiet.refl d

theorem addSearchNodeFrom_quiet (id : NodeId) (sa : Sockaddr) (si fuel : ℕ) :
    Quiet d (addSearchNodeFrom d id sa si fuel) := by
  induction fuel generalizing d si with
  | zero => exact Quiet.refl d
  | succ fuel ih =>
    rw [addSearchNodeFrom]
    split
    · exact Quiet.refl d
    · next sr hsr =>
      have hinsert : Quiet d (d.modifySearch si fun _ =>
          (insertSearchNode d.now sr id sa false none).2) := by
        refine modifySearch_quiet fun sr' hsr' => ?_
        rw [hsr] at hsr'
        obtain rfl := Option.some.inj hsr'
        exact insertSearchNode_tends
      refine Quiet.trans ?_ (ih _)
      split
      · simp only
        split
        · exact hinsert.trans (searchSendGetPeers_quiet ..)
        · exact hinsert
      · exact Quiet.refl d

theorem addSearchNode_quiet (id : NodeId) (sa : Sockaddr) : Quiet d (addSearchNode d id sa) :=
  addSearchNodeFrom_quiet ..

theorem announceFrom_quiet (si i j : ℕ) (allAcked : Bool) (fuel : ℕ) :
    Quiet d (announceFrom d si i j allAcked fuel).2 := by
  induction fuel generalizing d i j allAcked with
  | zero => exact Quiet.refl d
  | succ fuel ih =>
    rw [announceFrom]
    split
    · exact Quiet.refl d
    · split
      · exact Quiet.refl d
      · split
        · exact ih ..
        · split
          · exact (ackSearchNode_quiet ..).trans (ih ..)
          · exact (((emit_quiet ..).trans (markSearchNode_quiet ..)).trans
              (pingedById_quiet _)).trans (ih ..)

theorem askFrom_quiet (si i j fuel : ℕ) : Quiet d (askFrom d si i j fuel) := by
  induction fuel generalizing d i j with
  | zero => exact Quiet.refl d
  | succ fuel ih =>
    rw [askFrom]
    split
    · exact Quiet.refl d
    · simp only
      split
      · exact searchSendGetPeers_quiet ..
      · exact (searchSendGetPeers_quiet ..).trans (ih ..)

/-- When a search is done, or has taken a step, its nodes are as they were. -/
theorem stampSearch_quiet (si : ℕ) {f : Search → Search}
    (hf : ∀ sr, (f sr).tid = sr.tid ∧ (f sr).af = sr.af ∧ (f sr).id = sr.id ∧
      (f sr).port = sr.port ∧ (f sr).nodes = sr.nodes) : Quiet d (d.modifySearch si f) := by
  refine modifySearch_quiet fun sr _ => ?_
  obtain ⟨htid, haf, hid, hport, hnodes⟩ := hf sr
  refine ⟨htid, haf, hid, hport, fun hok => ⟨?_, ?_, ?_, ?_⟩⟩
  · rw [hnodes, hid]
    exact hok.sorted
  · rw [hnodes]
    exact hok.length_le
  · rw [hnodes, haf]
    exact hok.family
  · rw [hnodes]
    exact hok.token

theorem finishSearch_quiet (si : ℕ) (sr : Search) : Quiet d (finishSearch d si sr) := by
  have hdone : Quiet d (d.modifySearch si fun sr => { sr with done := true, stepTime := d.now }) :=
    stampSearch_quiet si fun _ => ⟨rfl, rfl, rfl, rfl, rfl⟩
  exact hdone.trans ⟨rfl, fun _ => rfl, forall₂_tends_refl _⟩

theorem searchStep_quiet (si : ℕ) : Quiet d (searchStep d si) := by
  unfold searchStep
  split
  · exact Quiet.refl d
  · split
    · split
      · exact finishSearch_quiet ..
      · simp only
        split
        · exact (announceFrom_quiet ..).trans (finishSearch_quiet ..)
        · exact (announceFrom_quiet ..).trans
            (stampSearch_quiet si fun _ => ⟨rfl, rfl, rfl, rfl, rfl⟩)
    · split
      · exact Quiet.refl d
      · exact (askFrom_quiet ..).trans (stampSearch_quiet si fun _ => ⟨rfl, rfl, rfl, rfl, rfl⟩)

end Quiet

end SeaStore.Dht
