import SeaStore.Dht.NewNode
import SeaStore.Dht.Periodic
import SeaStore.Dht.StoreRun

/-!
The invariant of the whole node, and what the steps that are part of a call do
to it. Most of them leave the storage as it is.
-/
namespace SeaStore.Dht

open Posix Controller

structure StateOk (d : State) : Prop where
  inet : TableOk d.myid .inet d.buckets
  inet6 : TableOk d.myid .inet6 d.buckets6
  searches : ∀ sr ∈ d.searches, SearchOk sr
  numsearches : d.numsearches = d.searches.length
  numsearches_le : d.searches.length ≤ dhtMaxSearches
  storage : StorageOk d.storage d.numstorage

/-- One more address on the blacklist, over the one that has been there longest. -/
def snub (ring : Vector (Option Sockaddr) maxBlacklisted × Fin maxBlacklisted) (sa : Sockaddr) :
    Vector (Option Sockaddr) maxBlacklisted × Fin maxBlacklisted :=
  (ring.1.set ring.2 (some sa), ring.2 + 1)

/-- The blacklist, with the place of the next entry. -/
def State.ring (d : State) : Vector (Option Sockaddr) maxBlacklisted × Fin maxBlacklisted :=
  (d.blacklist, d.nextBlacklisted)

/-- The tokens that are left for requests, and when there were new ones. -/
def State.tokens (d : State) : ℤ × ℤ := (d.tokenBucketTokens.toInt, d.tokenBucketTime)

/-- What becomes of a number in an `int`. -/
def wrapInt (x : ℤ) : ℤ := (Int32.ofInt x).toInt

/-- What a step leaves that does not touch the storage, and blacklists `snubbed`. -/
structure After (snubbed : List Sockaddr) (d d' : State) : Prop where
  ok : StateOk d'
  now : d'.now = d.now
  myid : d'.myid = d.myid
  myV : d'.myV = d.myV
  socket : d'.socket = d.socket
  socket6 : d'.socket6 = d.socket6
  secrets : d'.secrets = d.secrets
  storage : d'.storage = d.storage
  tokens : d'.tokens = d.tokens
  expireStuffTime : d'.expireStuffTime = d.expireStuffTime
  ring : d'.ring = snubbed.foldl snub d.ring

/-- As well as the rows of the tables, but for the times and the numbers drawn. -/
structure Kept (snubbed : List Sockaddr) (d d' : State) : Prop where
  now : d'.now = d.now
  myid : d'.myid = d.myid
  myV : d'.myV = d.myV
  socket : d'.socket = d.socket
  socket6 : d'.socket6 = d.socket6
  secrets : d'.secrets = d.secrets
  storage : d'.storage = d.storage
  numstorage : d'.numstorage = d.numstorage
  numsearches : d'.numsearches = d.numsearches
  tokens : d'.tokens = d.tokens
  expireStuffTime : d'.expireStuffTime = d.expireStuffTime
  ring : d'.ring = snubbed.foldl snub d.ring
  rows : ∀ af, rows (d'.table af) = rows (d.table af)
  searches : List.Forall₂ Tends d.searches d'.searches

section Relations

variable {d d' d'' : State} {af : Af} {snubbed snubbed' : List Sockaddr}

theorem After.refl (hok : StateOk d) : After [] d d :=
  ⟨hok, rfl, rfl, rfl, rfl, rfl, rfl, rfl, rfl, rfl, rfl⟩

theorem After.trans (h : After snubbed d d') (h' : After snubbed' d' d'') :
    After (snubbed ++ snubbed') d d'' :=
  ⟨h'.ok, h'.now.trans h.now, h'.myid.trans h.myid, h'.myV.trans h.myV, h'.socket.trans h.socket,
    h'.socket6.trans h.socket6, h'.secrets.trans h.secrets, h'.storage.trans h.storage,
    h'.tokens.trans h.tokens, h'.expireStuffTime.trans h.expireStuffTime,
    by rw [h'.ring, h.ring, List.foldl_append]⟩

theorem StateOk.table (hok : StateOk d) (haf : af = .inet ∨ af = .inet6) :
    TableOk d.myid af (d.table af) := by
  rcases haf with rfl | rfl
  · exact hok.inet
  · exact hok.inet6

theorem searchOk_of_tends {ss ss' : List Search} (htends : List.Forall₂ Tends ss ss')
    (hok : ∀ sr ∈ ss, SearchOk sr) : ∀ sr ∈ ss', SearchOk sr := by
  induction htends with
  | nil => exact hok
  | cons ht _ ih =>
    intro sr hsr
    rcases List.mem_cons.mp hsr with rfl | hsr
    · exact ht.ok (hok _ (List.mem_cons_self ..))
    · exact ih (fun sr hsr => hok sr (List.mem_cons_of_mem _ hsr)) sr hsr

theorem Kept.refl (d : State) : Kept [] d d :=
  ⟨rfl, rfl, rfl, rfl, rfl, rfl, rfl, rfl, rfl, rfl, rfl, rfl, fun _ => rfl, forall₂_tends_refl _⟩

theorem Kept.trans (h : Kept snubbed d d') (h' : Kept snubbed' d' d'') :
    Kept (snubbed ++ snubbed') d d'' :=
  ⟨h'.now.trans h.now, h'.myid.trans h.myid, h'.myV.trans h.myV, h'.socket.trans h.socket,
    h'.socket6.trans h.socket6, h'.secrets.trans h.secrets, h'.storage.trans h.storage,
    h'.numstorage.trans h.numstorage, h'.numsearches.trans h.numsearches,
    h'.tokens.trans h.tokens, h'.expireStuffTime.trans h.expireStuffTime,
    by rw [h'.ring, h.ring, List.foldl_append],
    fun af => (h'.rows af).trans (h.rows af), forall₂_tends_trans h.searches h'.searches⟩

theorem Kept.after (h : Kept snubbed d d') (hok : StateOk d) : After snubbed d d' := by
  have hlen := h.searches.length_eq
  refine ⟨⟨?_, ?_, searchOk_of_tends h.searches hok.searches, ?_, ?_, ?_⟩, h.now, h.myid, h.myV,
    h.socket, h.socket6, h.secrets, h.storage, h.tokens, h.expireStuffTime, h.ring⟩
  · rw [h.myid]
    exact hok.inet.of_rows (h.rows .inet)
  · rw [h.myid]
    exact hok.inet6.of_rows (h.rows .inet6)
  · rw [h.numsearches, hok.numsearches, hlen]
  · rw [← hlen]
    exact hok.numsearches_le
  · rw [h.storage, h.numstorage]
    exact hok.storage

/-- Only the table of one family has changed, and is well. -/
theorem Apart.after (h : Apart af d d') (haf : af = .inet ∨ af = .inet6) (hok : StateOk d)
    (htable : TableOk d.myid af (d'.table af)) : After [] d d' := by
  have hlen := h.searches.length_eq
  have hmyid := h.myid
  have hnum : d'.numsearches = d.numsearches := by
    have heq := congrArg State.numsearches h.still
    exact heq
  have hstorage : d'.storage = d.storage := by
    have heq := congrArg State.storage h.still
    exact heq
  have hnumstorage : d'.numstorage = d.numstorage := by
    have heq := congrArg State.numstorage h.still
    exact heq
  refine ⟨⟨?_, ?_, searchOk_of_tends h.searches hok.searches, ?_, ?_, ?_⟩, h.now, hmyid, ?_, ?_, ?_,
    ?_, hstorage, ?_, ?_, ?_⟩
  · rw [hmyid]
    rcases haf with rfl | rfl
    · exact htable
    · exact hok.inet.of_rows (h.rows .inet (by simp))
  · rw [hmyid]
    rcases haf with rfl | rfl
    · exact hok.inet6.of_rows (h.rows .inet6 (by simp))
    · exact htable
  · rw [hnum, hok.numsearches, hlen]
  · rw [← hlen]
    exact hok.numsearches_le
  · rw [hstorage, hnumstorage]
    exact hok.storage
  · have heq := congrArg State.myV h.still
    exact heq
  · have heq := congrArg State.socket h.still
    exact heq
  · have heq := congrArg State.socket6 h.still
    exact heq
  · have heq := congrArg State.secrets h.still
    exact heq
  · have heq := congrArg State.tokens h.still
    exact heq
  · have heq := congrArg State.expireStuffTime h.still
    exact heq
  · have heq := congrArg State.ring h.still
    exact heq

theorem Quiet.after (h : Quiet d d') (hok : StateOk d) : After [] d d' :=
  (h.apart .inet).after (Or.inl rfl) hok (hok.inet.of_rows (h.rows .inet))

theorem random_quiet : Quiet d d.random.2 := by
  unfold State.random
  split
  · exact Quiet.refl d
  · exact ⟨rfl, fun _ => rfl, forall₂_tends_refl _⟩

end Relations

section Nodes

variable {d : State} {id : NodeId} {sa : Sockaddr} {confirm : ℕ}

theorem family_of_isInet (hsa : sa.IsInet) : family sa = .inet ∨ family sa = .inet6 := by
  cases sa with
  | inet addr port => exact Or.inl rfl
  | inet6 addr port => exact Or.inr rfl
  | other f => exact hsa.elim

theorem newNode_after (hok : StateOk d) (hsa : sa.IsInet) (id : NodeId) (confirm : ℕ) :
    After [] d (newNode d id sa confirm).2 := by
  have haf := family_of_isInet hsa
  have hlearnt := newNode_spec (hok.table haf) rfl id confirm
  exact hlearnt.apart.after haf hok hlearnt.table

theorem flushId_sublist (id : NodeId) (nodes : List SearchNode) :
    (flushId id nodes).Sublist nodes := by
  fun_induction flushId id nodes with
  | case1 => exact List.Sublist.refl _
  | case2 n heq => exact List.nil_sublist _
  | case3 n heq m ms ih => exact (ih.cons_cons m).cons n
  | case4 n ns hne ih => exact ih.cons_cons n

theorem flush_tends (id : NodeId) (sr : Search) : Tends sr (sr.flush id) := by
  have hsub := flushId_sublist id sr.nodes
  refine ⟨rfl, rfl, rfl, rfl, fun hok => ⟨?_, ?_, ?_, ?_⟩⟩
  · exact hok.sorted.sublist (hsub.map _)
  · exact hsub.length_le.trans hok.length_le
  · exact fun n hn => hok.family n (hsub.subset hn)
  · exact fun n hn => hok.token n (hsub.subset hn)

theorem spoil_quiet {af : Af} (i j : ℕ) : Quiet d (d.modifyNode af i j Node.spoil) :=
  modifyNode_quiet fun _ => rfl

theorem Quiet.kept {d' : State} (h : Quiet d d') : Kept [] d d' := by
  refine ⟨?_, ?_, ?_, ?_, ?_, ?_, ?_, ?_, ?_, ?_, ?_, ?_, h.rows, h.searches⟩
  · have heq := congrArg State.now h.still
    exact heq
  · have heq := congrArg State.myid h.still
    exact heq
  · have heq := congrArg State.myV h.still
    exact heq
  · have heq := congrArg State.socket h.still
    exact heq
  · have heq := congrArg State.socket6 h.still
    exact heq
  · have heq := congrArg State.secrets h.still
    exact heq
  · have heq := congrArg State.storage h.still
    exact heq
  · have heq := congrArg State.numstorage h.still
    exact heq
  · have heq := congrArg State.numsearches h.still
    exact heq
  · have heq := congrArg State.tokens h.still
    exact heq
  · have heq := congrArg State.expireStuffTime h.still
    exact heq
  · have heq := congrArg State.ring h.still
    exact heq

theorem spoilNode_quiet (id : NodeId) (af : Af) : Quiet d (spoilNode d id af) := by
  unfold spoilNode
  split
  · exact (spoil_quiet ..).trans (pinged_quiet ..)
  · exact Quiet.refl d

theorem blacklistNode_kept : Kept [sa] d (blacklistNode d id sa) := by
  refine (spoilNode_quiet id (family sa)).kept.trans ?_
  refine ⟨rfl, rfl, rfl, rfl, rfl, rfl, rfl, rfl, rfl, rfl, rfl, rfl, fun _ => rfl, ?_⟩
  exact List.forall₂_map_right_iff.mpr (List.forall₂_same.mpr fun sr _ => flush_tends id sr)

end Nodes

section Replies

variable {d : State} {af : Af}

theorem addrOf_isInet (haf : af = .inet ∨ af = .inet6) (bytes : Bytes) :
    (addrOf af bytes).IsInet := by
  rcases haf with rfl | rfl
  · exact True.intro
  · exact True.intro

theorem offerSearch_quiet (si : Option ℕ) (id : NodeId) (sa : Sockaddr) (replied : Bool)
    (token : Option Bytes) : Quiet d (offerSearch d si id sa replied token) := by
  cases si with
  | none => exact Quiet.refl d
  | some si => exact modifySearch_quiet fun sr _ => insertSearchNode_tends

theorem learnNodes_after (hok : StateOk d) (haf : af = .inet ∨ af = .inet6) (size : ℕ)
    (si : Option ℕ) (bytes : Bytes) (fuel : ℕ) :
    After [] d (learnNodes d af size si bytes fuel) := by
  induction fuel generalizing d bytes with
  | zero => exact After.refl hok
  | succ fuel ih =>
    rw [learnNodes]
    split
    · exact After.refl hok
    · simp only
      split
      · exact ih hok _
      · have hnode := newNode_after hok (addrOf_isInet haf bytes) (NodeId.ofBytes bytes) 0
        have hoffer : ∀ si, After [] d (offerSearch (newNode d (NodeId.ofBytes bytes)
            (addrOf af bytes) 0).2 si (NodeId.ofBytes bytes) (addrOf af bytes) false none) :=
          fun si => hnode.trans ((offerSearch_quiet ..).after hnode.ok)
        exact (hoffer _).trans (ih (hoffer _).ok _)

theorem nextRequest_quiet (si : Option ℕ) : Quiet d (nextRequest d si) := by
  cases si with
  | none => exact Quiet.refl d
  | some si => exact searchSendGetPeers_quiet ..

theorem valueEvents_quiet (si : Option ℕ) (m : Message) : Quiet d (valueEvents d si m) := by
  unfold valueEvents
  split
  · exact Quiet.refl d
  · exact ⟨rfl, fun _ => rfl, forall₂_tends_refl _⟩

theorem ackAnnounce_quiet (si : ℕ) (id : NodeId) : Quiet d (ackAnnounce d si id) := by
  refine modifySearch_quiet fun sr _ => ?_
  split
  · exact Tends.refl sr
  · exact Tends.modify sr _ (fun _ => rfl) (fun _ => rfl) (fun _ => rfl)

/-- A reply that gets its sender blacklisted: its transaction id is not one of ours, or the
nodes in it cannot be told apart. -/
def Message.broken (m : Message) : Bool :=
  m.tid.length ≠ 4 || (tidMatch m.tid 'p' 'n').isNone &&
    ((tidMatch m.tid 'f' 'n').isSome || (tidMatch m.tid 'g' 'p').isSome) &&
      (m.nodes.length % 26 ≠ 0 ∨ m.nodes6.length % 38 ≠ 0)

theorem handleReply_after (hok : StateOk d) {sa : Sockaddr} (hsa : sa.IsInet) (m : Message) :
    After (if m.broken then [sa] else []) d (handleReply d m sa) := by
  unfold handleReply Message.broken
  by_cases hlen : m.tid.length ≠ 4
  · rw [if_pos hlen, decide_eq_true hlen]
    exact blacklistNode_kept.after hok
  rw [if_neg hlen, decide_eq_false hlen, Bool.false_or]
  by_cases hpn : (tidMatch m.tid 'p' 'n').isSome
  · rw [if_pos hpn, Option.isNone_eq_false_iff.mpr hpn]
    exact newNode_after hok hsa m.id 2
  rw [if_neg hpn, Option.isNone_iff_eq_none.mpr (by simpa using hpn), Bool.true_and]
  by_cases hnodes : ((tidMatch m.tid 'f' 'n').isSome || (tidMatch m.tid 'g' 'p').isSome) = true
  · rw [if_pos hnodes, hnodes, Bool.true_and]
    extract_lets gp si dn dl dl6 d'
    have hlearn : After (if decide (m.nodes.length % 26 ≠ 0 ∨ m.nodes6.length % 38 ≠ 0) then [sa]
        else []) d d' := by
      simp only [d']
      by_cases hbad : m.nodes.length % 26 ≠ 0 ∨ m.nodes6.length % 38 ≠ 0
      · rw [if_pos hbad, decide_eq_true hbad]
        exact blacklistNode_kept.after hok
      · rw [if_neg hbad, decide_eq_false hbad, if_neg Bool.false_ne_true]
        split
        · exact newNode_after hok hsa m.id 1
        · have hnode := newNode_after hok hsa m.id 2
          have hnodes := hnode.trans (learnNodes_after hnode.ok (Or.inl rfl) 26 si m.nodes
            (m.nodes.length + 1))
          have hnodes6 := hnodes.trans (learnNodes_after hnodes.ok (Or.inr rfl) 38 si m.nodes6
            (m.nodes6.length + 1))
          exact hnodes6.trans ((nextRequest_quiet si).after hnodes6.ok)
    have hrest := hlearn.trans
      (((offerSearch_quiet si m.id sa true (some m.token)).trans (valueEvents_quiet si m)).after
        hlearn.ok)
    rw [List.append_nil] at hrest
    exact hrest
  · rw [if_neg hnodes, Bool.eq_false_of_not_eq_true hnodes, Bool.false_and,
      if_neg Bool.false_ne_true]
    split
    · exact After.refl hok
    · split
      · exact newNode_after hok hsa m.id 1
      · next si _ =>
        have hnode := newNode_after hok hsa m.id 2
        exact hnode.trans
          (((ackAnnounce_quiet si m.id).trans (nextRequest_quiet _)).after hnode.ok)

end Replies

end SeaStore.Dht
