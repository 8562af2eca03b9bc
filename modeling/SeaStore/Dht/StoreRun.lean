import SeaStore.Dht.Registry
import SeaStore.Dht.Store

/-!
The storage against its purpose: a registry of the peers that have announced
themselves for a hash. The arrays that grow, the refreshing in place and the
removal that moves the last peer forward do not show.
-/
namespace SeaStore.Dht

open Posix Controller Registry

/-- What a peer is known by. -/
def Peer.key (peer : Peer) : Bytes × UInt16 := (peer.ip, peer.port)

structure PeersOk (st : Storage) : Prop where
  nodup : (st.peers.map Peer.key).Nodup
  length_le : st.peers.length ≤ st.maxpeers
  maxpeers_le : st.maxpeers ≤ dhtMaxPeers

/-- The storage, with its counter. -/
structure StorageOk (storage : List Storage) (numstorage : ℤ) : Prop where
  nodup : (storage.map Storage.id).Nodup
  peers : ∀ st ∈ storage, PeersOk st ∧ st.peers ≠ []
  count : numstorage = storage.length
  length_le : storage.length ≤ dhtMaxHashes

/-- When a peer has announced itself last for a hash. -/
def registry (storage : List Storage) : Entries NodeId (Bytes × UInt16) := fun id key =>
  ((findStorage storage id).bind fun s => storage[s]?).bind fun st =>
    (st.peers.find? (Peer.is key.1 key.2)).map Peer.time

section Lookup

variable {storage : List Storage} {numstorage : ℤ} {id : NodeId}

theorem is_iff {ip : Bytes} {port : UInt16} {peer : Peer} :
    peer.is ip port = true ↔ peer.key = (ip, port) := by
  unfold Peer.is Peer.key
  rw [Bool.and_eq_true, decide_eq_true_eq, decide_eq_true_eq, Prod.mk.injEq, and_comm]

theorem findStorage_some {s : ℕ} (hs : findStorage storage id = some s) :
    ∃ st, storage[s]? = some st ∧ st.id = id := by
  obtain ⟨hlt, hp, -⟩ := List.findIdx?_eq_some_iff_getElem.mp hs
  exact ⟨storage[s], List.getElem?_eq_getElem hlt, (idCmp_eq.mp (of_decide_eq_true hp)).symm⟩

theorem findStorage_none (hs : findStorage storage id = none) : ∀ st ∈ storage, st.id ≠ id := by
  intro st hst heq
  have hp := List.findIdx?_eq_none_iff.mp hs st hst
  exact absurd (idCmp_eq.mpr heq.symm) (of_decide_eq_false hp)

/-- Where the hashes are distinct, the storage of one is the only one. -/
theorem eq_of_id (hnd : (storage.map Storage.id).Nodup) {st st' : Storage} (hst : st ∈ storage)
    (hst' : st' ∈ storage) (heq : st.id = st'.id) : st = st' :=
  List.inj_on_of_nodup_map hnd hst hst' heq

theorem find_peer_iff {peers : List Peer} (hnd : (peers.map Peer.key).Nodup)
    {key : Bytes × UInt16} {t : ℤ} :
    (peers.find? (Peer.is key.1 key.2)).map Peer.time = some t ↔
      ∃ peer ∈ peers, peer.key = key ∧ peer.time = t := by
  rw [Option.map_eq_some_iff]
  constructor
  · intro hex
    obtain ⟨peer, hfind, ht⟩ := hex
    exact ⟨peer, List.mem_of_find?_eq_some hfind, is_iff.mp (List.find?_some hfind), ht⟩
  · intro hex
    obtain ⟨peer, hmem, hkey, ht⟩ := hex
    cases hfind : peers.find? (Peer.is key.1 key.2) with
    | none => exact absurd (is_iff.mpr hkey) (List.find?_eq_none.mp hfind peer hmem)
    | some other =>
      have hother := is_iff.mp (List.find?_some hfind)
      have heq := List.inj_on_of_nodup_map hnd (List.mem_of_find?_eq_some hfind) hmem
        (hother.trans hkey.symm)
      exact ⟨other, rfl, by rw [heq, ht]⟩

theorem registry_iff (hok : StorageOk storage numstorage) {key : Bytes × UInt16} {t : ℤ} :
    registry storage id key = some t ↔
      ∃ st ∈ storage, st.id = id ∧ ∃ peer ∈ st.peers, peer.key = key ∧ peer.time = t := by
  unfold registry
  cases hs : findStorage storage id with
  | none =>
    refine iff_of_false (by simp) fun hex => ?_
    obtain ⟨st, hst, hid, -⟩ := hex
    exact findStorage_none hs st hst hid
  | some s =>
    obtain ⟨st, hst, hid⟩ := findStorage_some hs
    have hmem := List.mem_of_getElem? hst
    rw [Option.bind_some, hst, Option.bind_some, find_peer_iff (hok.peers st hmem).1.nodup]
    constructor
    · intro hex
      exact ⟨st, hmem, hid, hex⟩
    · intro hex
      obtain ⟨st', hst', hid', hex⟩ := hex
      rw [eq_of_id hok.nodup hmem hst' (hid.trans hid'.symm)]
      exact hex

/-- Two registries are the same when they know the same. -/
theorem registry_ext {r r' : Entries NodeId (Bytes × UInt16)}
    (heq : ∀ id key t, r id key = some t ↔ r' id key = some t) : r = r' := by
  funext id key
  exact Option.ext fun t => heq id key t

theorem mem_topics_iff (hok : StorageOk storage numstorage) :
    id ∈ topics (registry storage) ↔ id ∈ storage.map Storage.id := by
  constructor
  · intro htopic
    obtain ⟨key, hne⟩ := htopic
    obtain ⟨t, ht⟩ := Option.ne_none_iff_exists'.mp hne
    obtain ⟨st, hst, hid, -⟩ := (registry_iff hok).mp ht
    exact hid ▸ List.mem_map_of_mem hst
  · intro hmem
    obtain ⟨st, hst, hid⟩ := List.mem_map.mp hmem
    obtain ⟨peer, hpeer⟩ := List.exists_mem_of_ne_nil _ (hok.peers st hst).2
    exact mem_topics ((registry_iff hok).mpr ⟨st, hst, hid, peer, hpeer, rfl, rfl⟩)

theorem ncard_topics (hok : StorageOk storage numstorage) :
    (topics (registry storage)).ncard = storage.length :=
  ncard_eq_length hok.nodup fun _ => mem_topics_iff hok

theorem mem_members_iff (hok : StorageOk storage numstorage) {st : Storage} (hst : st ∈ storage)
    {key : Bytes × UInt16} :
    key ∈ members (registry storage) st.id ↔ key ∈ st.peers.map Peer.key := by
  constructor
  · intro hne
    obtain ⟨t, ht⟩ := Option.ne_none_iff_exists'.mp hne
    obtain ⟨st', hst', hid, peer, hpeer, hkey, -⟩ := (registry_iff hok).mp ht
    rw [eq_of_id hok.nodup hst' hst hid] at hpeer
    exact hkey ▸ List.mem_map_of_mem hpeer
  · intro hmem
    obtain ⟨peer, hpeer, hkey⟩ := List.mem_map.mp hmem
    have hsome := (registry_iff hok).mpr ⟨st, hst, rfl, peer, hpeer, hkey, rfl⟩
    intro hnone
    rw [hnone] at hsome
    exact absurd hsome (by simp)

theorem ncard_members (hok : StorageOk storage numstorage) {st : Storage} (hst : st ∈ storage) :
    (members (registry storage) st.id).ncard = st.peers.length :=
  ncard_eq_length (hok.peers st hst).1.nodup fun _ => mem_members_iff hok hst

end Lookup

section Peers

variable {st : Storage} {now : ℤ} {ip : Bytes} {port : UInt16}

/-- When a peer of the storage of a hash has announced itself last. -/
def Knows (st : Storage) (key : Bytes × UInt16) (t : ℤ) : Prop :=
  ∃ peer ∈ st.peers, peer.key = key ∧ peer.time = t

theorem refresh_key (now : ℤ) (peer : Peer) : (peer.refresh now).key = peer.key := rfl

theorem knows_refresh {i : ℕ} {peer : Peer} (hnd : (st.peers.map Peer.key).Nodup)
    (hi : st.peers[i]? = some peer) (key : Bytes × UInt16) (t : ℤ) :
    Knows { st with peers := st.peers.modify i (Peer.refresh now) } key t ↔
      if key = peer.key then t = now else Knows st key t := by
  have hget : (st.peers.modify i (Peer.refresh now))[i]? = some (peer.refresh now) := by
    rw [List.getElem?_modify_eq, hi]
    rfl
  constructor
  · intro hknow
    obtain ⟨other, hmem, hkey, ht⟩ := hknow
    obtain ⟨j, hj⟩ := List.mem_iff_getElem?.mp hmem
    by_cases hij : i = j
    · subst hij
      simp only at hj
      rw [hget] at hj
      obtain rfl := Option.some.inj hj
      have hkey : peer.key = key := hkey
      rw [if_pos hkey.symm]
      exact ht.symm
    · simp only at hj
      rw [List.getElem?_modify_ne _ _ hij] at hj
      rw [if_neg]
      · exact ⟨other, List.mem_of_getElem? hj, hkey, ht⟩
      · intro heq
        have hsame : (st.peers.map Peer.key)[i]? = (st.peers.map Peer.key)[j]? := by
          rw [List.getElem?_map, List.getElem?_map, hi, hj, Option.map_some, Option.map_some, hkey,
            heq]
        have hilt : i < (st.peers.map Peer.key).length := by
          rw [List.length_map]
          exact (List.getElem?_eq_some_iff.mp hi).1
        exact hij ((List.getElem?_inj hilt hnd).mp hsame)
  · intro hknow
    by_cases hkey : key = peer.key
    · rw [if_pos hkey] at hknow
      exact ⟨peer.refresh now, List.mem_of_getElem? hget, hkey.symm, hknow.symm⟩
    · rw [if_neg hkey] at hknow
      obtain ⟨other, hmem, hok, ht⟩ := hknow
      obtain ⟨j, hj⟩ := List.mem_iff_getElem?.mp hmem
      have hij : i ≠ j := by
        intro hij
        rw [← hij, hi] at hj
        obtain rfl := Option.some.inj hj
        exact hkey hok.symm
      exact ⟨other, List.mem_of_getElem? (by rw [List.getElem?_modify_ne _ _ hij, hj]), hok, ht⟩

theorem knows_append (hnew : (ip, port) ∉ st.peers.map Peer.key) (maxpeers : ℕ)
    (key : Bytes × UInt16) (t : ℤ) :
    Knows { st with maxpeers := maxpeers, peers := st.peers ++ [⟨now, ip, port⟩] } key t ↔
      if key = (ip, port) then t = now else Knows st key t := by
  unfold Knows
  simp only [List.mem_append, List.mem_singleton]
  constructor
  · intro hknow
    obtain ⟨peer, hmem | rfl, hkey, ht⟩ := hknow
    · rw [if_neg]
      · exact ⟨peer, hmem, hkey, ht⟩
      · intro heq
        exact hnew (by rw [← heq, ← hkey]; exact List.mem_map_of_mem hmem)
    · have hkey : (ip, port) = key := hkey
      rw [if_pos hkey.symm]
      exact ht.symm
  · intro hknow
    by_cases hkey : key = (ip, port)
    · rw [if_pos hkey] at hknow
      exact ⟨⟨now, ip, port⟩, Or.inr rfl, hkey.symm, hknow.symm⟩
    · rw [if_neg hkey] at hknow
      obtain ⟨peer, hmem, hk, ht⟩ := hknow
      exact ⟨peer, Or.inl hmem, hk, ht⟩

/-- What storing a peer for a hash comes to, with the answer `rc`. -/
structure Stored (now : ℤ) (ip : Bytes) (port : UInt16) (st st' : Storage) : Prop where
  ok : PeersOk st'
  ne_nil : st'.peers ≠ []
  id : st'.id = st.id
  knows : ∀ key t, Knows st' key t ↔ if key = (ip, port) then t = now else Knows st key t

theorem refresh_stored (hok : PeersOk st) {i : ℕ} {peer : Peer} (hget : st.peers[i]? = some peer)
    (hkey : peer.key = (ip, port)) :
    Stored now ip port st { st with peers := st.peers.modify i (Peer.refresh now) } := by
  have hkeys : (st.peers.modify i (Peer.refresh now)).map Peer.key = st.peers.map Peer.key :=
    map_modify_eq (refresh_key now) st.peers i
  refine ⟨⟨?_, ?_, hok.maxpeers_le⟩, ?_, rfl, fun key t => ?_⟩
  · simp only
    rw [hkeys]
    exact hok.nodup
  · simp only [List.length_modify]
    exact hok.length_le
  · intro hnil
    have hlen := congrArg List.length hnil
    obtain ⟨hlt, -⟩ := List.getElem?_eq_some_iff.mp hget
    simp only [List.length_modify, List.length_nil] at hlen
    omega
  · rw [← hkey]
    exact knows_refresh hok.nodup hget key t

theorem append_stored (hok : PeersOk st) (hnew : (ip, port) ∉ st.peers.map Peer.key)
    {maxpeers : ℕ} (hroom : st.peers.length < maxpeers) (hmax : maxpeers ≤ dhtMaxPeers) :
    Stored now ip port st
      { st with maxpeers := maxpeers, peers := st.peers ++ [⟨now, ip, port⟩] } := by
  have hnd : ((st.peers ++ [Peer.mk now ip port]).map Peer.key).Nodup := by
    rw [List.map_append, List.nodup_append]
    refine ⟨hok.nodup, List.nodup_singleton _, fun a ha b hb => ?_⟩
    rw [List.map_singleton, List.mem_singleton] at hb
    intro heq
    exact hnew (by rw [heq, hb] at ha; exact ha)
  refine ⟨⟨hnd, ?_, hmax⟩, by simp, rfl, knows_append hnew _⟩
  simp only [List.length_append, List.length_singleton]
  exact hroom

theorem growPeers_spec {n : ℕ} (hn : n < dhtMaxPeers) : n < growPeers n ∧
    growPeers n ≤ dhtMaxPeers := by
  unfold growPeers
  split
  · unfold dhtMaxPeers at hn ⊢
    omega
  · omega

/-- A peer that is known is refreshed in its place; a new one comes last, unless there are
too many. -/
theorem store_spec (now : ℤ) (ip : Bytes) (port : UInt16) (hok : PeersOk st) :
    ((ip, port) ∈ st.peers.map Peer.key ∧ (st.store now ip port).1 = 0 ∧
      Stored now ip port st (st.store now ip port).2) ∨
    ((ip, port) ∉ st.peers.map Peer.key ∧ st.peers.length < dhtMaxPeers ∧
      (st.store now ip port).1 = 1 ∧ Stored now ip port st (st.store now ip port).2) ∨
    ((ip, port) ∉ st.peers.map Peer.key ∧ ¬ st.peers.length < dhtMaxPeers ∧
      st.store now ip port = (0, st)) := by
  have hlen := hok.length_le
  have hmax := hok.maxpeers_le
  unfold Storage.store
  cases hi : st.peers.findIdx? (Peer.is ip port) with
  | some i =>
    obtain ⟨hlt, hp, -⟩ := List.findIdx?_eq_some_iff_getElem.mp hi
    have hkey := is_iff.mp hp
    exact Or.inl ⟨hkey ▸ List.mem_map_of_mem (List.getElem_mem hlt), rfl,
      refresh_stored hok (List.getElem?_eq_getElem hlt) hkey⟩
  | none =>
    have hnew : (ip, port) ∉ st.peers.map Peer.key := by
      intro hmem
      obtain ⟨peer, hpeer, hkey⟩ := List.mem_map.mp hmem
      have hnot := List.findIdx?_eq_none_iff.mp hi peer hpeer
      rw [is_iff.mpr hkey] at hnot
      exact absurd hnot (by simp)
    right
    by_cases hroom : st.maxpeers ≤ st.peers.length
    · by_cases hfull : dhtMaxPeers ≤ st.maxpeers
      · right
        simp only
        rw [if_pos hroom, if_pos hfull]
        exact ⟨hnew, by omega, rfl⟩
      · left
        obtain ⟨hgrow, hgrowmax⟩ := growPeers_spec (Nat.lt_of_not_le hfull)
        simp only
        rw [if_pos hroom, if_neg hfull]
        exact ⟨hnew, by omega, rfl, append_stored hok hnew (by omega) hgrowmax⟩
    · left
      simp only
      rw [if_neg hroom]
      exact ⟨hnew, by omega, rfl, append_stored hok hnew (Nat.lt_of_not_le hroom) hmax⟩

end Peers

section Store

variable {d : State} {id : NodeId} {sa : Sockaddr} {port : UInt16} {ip : Bytes}

/-- What is known under a hash is what its storage knows. -/
theorem registry_at {storage : List Storage} {numstorage : ℤ} (hok : StorageOk storage numstorage)
    {st : Storage} (hst : st ∈ storage) {key : Bytes × UInt16} {t : ℤ} :
    registry storage st.id key = some t ↔ Knows st key t := by
  rw [registry_iff hok]
  constructor
  · intro hex
    obtain ⟨st', hst', hid, hex⟩ := hex
    rw [eq_of_id hok.nodup hst' hst hid] at hex
    exact hex
  · intro hknow
    exact ⟨st, hst, rfl, hknow⟩

theorem mem_set_iff_of_id {storage : List Storage} {s : ℕ} {st st' other : Storage}
    (hst : storage[s]? = some st) (hid : st'.id = st.id) (hne : other.id ≠ st.id) :
    other ∈ storage.set s st' ↔ other ∈ storage := by
  constructor
  · intro hmem
    refine (List.mem_or_eq_of_mem_set hmem).resolve_right fun heq => hne ?_
    rw [heq, hid]
  · intro hmem
    obtain ⟨j, hj⟩ := List.mem_iff_getElem?.mp hmem
    apply List.mem_of_getElem? (i := j)
    rw [List.getElem?_set, if_neg, hj]
    intro hsj
    rw [← hsj, hst] at hj
    exact hne (congrArg Storage.id (Option.some.inj hj)).symm

theorem StorageOk.set {storage : List Storage} {numstorage : ℤ}
    (hok : StorageOk storage numstorage) {s : ℕ} {st st' : Storage} (hst : storage[s]? = some st)
    (hid : st'.id = st.id) (hpeers : PeersOk st') (hne : st'.peers ≠ []) :
    StorageOk (storage.set s st') numstorage := by
  obtain ⟨hlt, hget⟩ := List.getElem?_eq_some_iff.mp hst
  have hids : (storage.set s st').map Storage.id = storage.map Storage.id := by
    rw [List.map_set, hid]
    apply List.ext_getElem?
    intro j
    rw [List.getElem?_set, List.getElem?_map]
    by_cases hj : s = j
    · subst hj
      simp [hlt, hget]
    · simp [hj]
  refine ⟨by rw [hids]; exact hok.nodup, fun st'' hst'' => ?_, by
    rw [List.length_set]
    exact hok.count, by
    rw [List.length_set]
    exact hok.length_le⟩
  rcases List.mem_or_eq_of_mem_set hst'' with hmem | rfl
  · exact hok.peers st'' hmem
  · exact ⟨hpeers, hne⟩

/-- The storage of one hash is replaced by one that knows a peer more, or better. -/
theorem registry_set {storage : List Storage} {numstorage : ℤ} (hok : StorageOk storage numstorage)
    {s : ℕ} {st st' : Storage} {now : ℤ} (hst : storage[s]? = some st)
    (hstored : Stored now ip port st st') :
    StorageOk (storage.set s st') numstorage ∧
      registry (storage.set s st') = update (registry storage) st.id (ip, port) now := by
  have hok' := hok.set hst hstored.id hstored.ok hstored.ne_nil
  refine ⟨hok', registry_ext fun id key t => ?_⟩
  by_cases hid : id = st.id
  · subst hid
    obtain ⟨hlt, -⟩ := List.getElem?_eq_some_iff.mp hst
    have hat : registry (storage.set s st') st'.id key = some t ↔ Knows st' key t :=
      registry_at hok' (List.mem_set hlt st')
    rw [hstored.id] at hat
    rw [hat, hstored.knows]
    by_cases hkey : key = (ip, port)
    · subst hkey
      rw [if_pos rfl, update_self, Option.some.injEq, eq_comm]
    · rw [if_neg hkey, update_of_ne fun h => hkey h.2, registry_at hok (List.mem_of_getElem? hst)]
  · rw [update_of_ne fun h => hid h.1, registry_iff hok, registry_iff hok']
    constructor
    · intro hex
      obtain ⟨st'', hst'', hid', hex⟩ := hex
      have hne : st''.id ≠ st.id := fun heq => hid (hid'.symm.trans heq)
      exact ⟨st'', (mem_set_iff_of_id hst hstored.id hne).mp hst'', hid', hex⟩
    · intro hex
      obtain ⟨st'', hst'', hid', hex⟩ := hex
      have hne : st''.id ≠ st.id := fun heq => hid (hid'.symm.trans heq)
      exact ⟨st'', (mem_set_iff_of_id hst hstored.id hne).mpr hst'', hid', hex⟩

/-- The storage of a hash that there was none for. -/
theorem registry_cons {storage : List Storage} {numstorage : ℤ} (hok : StorageOk storage numstorage)
    {st' : Storage} {now : ℤ} (hnew : ∀ st ∈ storage, st.id ≠ id)
    (hroom : storage.length < dhtMaxHashes) (hstored : Stored now ip port ⟨id, 0, []⟩ st') :
    StorageOk (st' :: storage) (numstorage + 1) ∧
      registry (st' :: storage) = update (registry storage) id (ip, port) now := by
  obtain rfl : st'.id = id := hstored.id
  have hok' : StorageOk (st' :: storage) (numstorage + 1) := by
    refine ⟨?_, fun st hst => ?_, by rw [List.length_cons, hok.count]; rfl, hroom⟩
    · rw [List.map_cons, List.nodup_cons]
      refine ⟨fun hmem => ?_, hok.nodup⟩
      obtain ⟨st, hst, heq⟩ := List.mem_map.mp hmem
      exact hnew st hst heq
    · rcases List.mem_cons.mp hst with rfl | hst
      · exact ⟨hstored.ok, hstored.ne_nil⟩
      · exact hok.peers st hst
  refine ⟨hok', registry_ext fun id' key t => ?_⟩
  by_cases hid : id' = st'.id
  · subst hid
    have hnone : registry storage st'.id key = none := by
      cases hr : registry storage st'.id key with
      | none => rfl
      | some t' =>
        obtain ⟨st, hst, heq, -⟩ := (registry_iff hok).mp hr
        exact absurd heq (hnew st hst)
    rw [registry_at hok' (List.mem_cons_self ..), hstored.knows]
    by_cases hkey : key = (ip, port)
    · subst hkey
      rw [if_pos rfl, update_self, Option.some.injEq, eq_comm]
    · rw [if_neg hkey, update_of_ne fun h => hkey h.2, hnone]
      refine iff_of_false (fun hknow => ?_) (by simp)
      obtain ⟨peer, hpeer, -⟩ := hknow
      exact absurd hpeer (by simp)
  · rw [update_of_ne fun h => hid h.1, registry_iff hok, registry_iff hok']
    constructor
    · intro hex
      obtain ⟨st'', hst'', heq, hex⟩ := hex
      refine ⟨st'', (List.mem_cons.mp hst'').resolve_left ?_, heq, hex⟩
      intro h
      rw [h] at heq
      exact hid heq.symm
    · intro hex
      obtain ⟨st'', hst'', heq, hex⟩ := hex
      exact ⟨st'', List.mem_cons_of_mem st' hst'', heq, hex⟩

theorem storageStore_spec (id : NodeId) (port : UInt16)
    (hok : StorageOk d.storage d.numstorage) (hip : ipOf sa = some ip) :
    StorageOk (storageStore d id sa port).2.storage (storageStore d id sa port).2.numstorage ∧
      ((storageStore d id sa port).1, registry (storageStore d id sa port).2.storage) =
        announce dhtMaxPeers dhtMaxHashes (registry d.storage) d.now id (ip, port) := by
  unfold storageStore announce
  rw [hip]
  cases hs : findStorage d.storage id with
  | some s =>
    obtain ⟨st, hst, rfl⟩ := findStorage_some hs
    have hmem := List.mem_of_getElem? hst
    have htopic : st.id ∈ topics (registry d.storage) :=
      (mem_topics_iff hok).mpr (List.mem_map_of_mem hmem)
    have hmember : registry d.storage st.id (ip, port) ≠ none ↔
        (ip, port) ∈ st.peers.map Peer.key := mem_members_iff hok hmem
    simp only [hst, if_pos htopic, ncard_members hok hmem, hmember]
    rcases store_spec d.now ip port (hok.peers st hmem).1 with ⟨hin, hrc, hstored⟩ |
      ⟨hnew, hroom, hrc, hstored⟩ | ⟨hnew, hfull, heq⟩
    · obtain ⟨hok', hreg⟩ := registry_set hok hst hstored
      rw [if_pos hin, hrc, hreg]
      exact ⟨hok', rfl⟩
    · obtain ⟨hok', hreg⟩ := registry_set hok hst hstored
      rw [if_neg hnew, if_pos hroom, hrc, hreg]
      exact ⟨hok', rfl⟩
    · have hsame : d.storage.set s st = d.storage := by
        obtain ⟨hlt, hget⟩ := List.getElem?_eq_some_iff.mp hst
        rw [← hget]
        exact List.set_getElem_self hlt
      rw [heq, if_neg hnew, if_neg hfull, hsame]
      exact ⟨hok, rfl⟩
  | none =>
    have hnew := findStorage_none hs
    have htopic : id ∉ topics (registry d.storage) := by
      intro htopic
      obtain ⟨st, hst, heq⟩ := List.mem_map.mp ((mem_topics_iff hok).mp htopic)
      exact hnew st hst heq
    have hmember : ¬ registry d.storage id (ip, port) ≠ none := fun hne => htopic ⟨_, hne⟩
    have hcount : dhtMaxHashes ≤ d.numstorage ↔ ¬ d.storage.length < dhtMaxHashes := by
      rw [hok.count]
      omega
    simp only
    rw [if_neg hmember, if_neg htopic, ncard_topics hok]
    by_cases hroom : d.storage.length < dhtMaxHashes
    · have hempty : PeersOk ⟨id, 0, []⟩ := ⟨List.nodup_nil, Nat.le_refl 0, Nat.zero_le _⟩
      rw [if_pos hroom, if_neg (fun h => hcount.mp h hroom)]
      rcases store_spec d.now ip port hempty with ⟨hin, -⟩ | ⟨-, -, hrc, hstored⟩ | ⟨-, hfull, -⟩
      · exact absurd hin (by simp)
      · obtain ⟨hok', hreg⟩ := registry_cons hok hnew hroom hstored
        simp only
        rw [hrc, hreg]
        exact ⟨hok', rfl⟩
      · exact absurd (show 0 < dhtMaxPeers by unfold dhtMaxPeers; omega) hfull
    · rw [if_neg hroom, if_pos (hcount.mpr hroom)]
      exact ⟨hok, rfl⟩

end Store

section Expire

/-- The peers behind place `i` that have not expired are kept, in some order. -/
theorem expirePeers_perm (now : ℤ) {fuel i : ℕ} {peers : List Peer} (hi : i ≤ peers.length)
    (hfuel : peers.length - i < fuel) :
    (expirePeers now i peers fuel).Perm
      (peers.take i ++ (peers.drop i).filter fun peer => !peer.expired now) := by
  induction fuel generalizing i peers with
  | zero => exact absurd hfuel (Nat.not_lt_zero _)
  | succ fuel ih =>
    rw [expirePeers]
    cases hget : peers[i]? with
    | none =>
      have hlen := List.getElem?_eq_none_iff.mp hget
      rw [List.take_of_length_le hlen, List.drop_eq_nil_of_le hlen, List.filter_nil,
        List.append_nil]
    | some peer =>
      obtain ⟨hlt, hpeer⟩ := List.getElem?_eq_some_iff.mp hget
      obtain ⟨front, back, rfl, rfl⟩ : ∃ front back, peers = front ++ peer :: back ∧
          front.length = i := by
        refine ⟨peers.take i, peers.drop (i + 1), ?_, List.length_take_of_le hi⟩
        rw [← hpeer, List.getElem_cons_drop, List.take_append_drop]
      rw [List.take_left, List.drop_left, List.filter_cons]
      by_cases hold : peer.expired now = true
      · -- the last peer comes to stand in this place and is looked at next
        simp only [hold, if_true, Bool.not_true, Bool.false_eq_true, if_false]
        rcases List.eq_nil_or_concat back with rfl | ⟨rest, last, rfl⟩
        · simp only [List.getLast?_append, List.getLast?_singleton, Option.some_or,
            List.set_append_right _ _ (Nat.le_refl _), Nat.sub_self, List.set_cons_zero]
          rw [List.dropLast_concat]
          refine (ih (Nat.le_refl _) ?_).trans ?_
          · simp only [List.length_append, List.length_cons, List.length_nil] at hfuel
            omega
          · rw [List.take_length, List.drop_length]
        · have hlast : (front ++ peer :: (rest ++ [last])).getLast? = some last := by
            rw [← List.cons_append, ← List.append_assoc, List.getLast?_concat]
          have hset : (front ++ peer :: (rest ++ [last])).set front.length last =
              front ++ last :: (rest ++ [last]) := by
            rw [List.set_append_right _ _ (Nat.le_refl _), Nat.sub_self, List.set_cons_zero]
          have hdrop : (front ++ last :: (rest ++ [last])).dropLast = front ++ last :: rest := by
            rw [← List.cons_append, ← List.append_assoc, List.dropLast_concat]
          simp only [List.concat_eq_append, hlast, hset, hdrop]
          refine (ih ?_ ?_).trans ?_
          · simp
          · simp only [List.concat_eq_append, List.length_append, List.length_cons,
              List.length_nil] at hfuel ⊢
            omega
          · rw [List.take_left, List.drop_left]
            refine List.Perm.append_left front (List.Perm.filter _ ?_)
            exact (List.perm_append_singleton last rest).symm
      · simp only [hold, Bool.false_eq_true, if_false]
        refine (ih ?_ ?_).trans ?_
        · simp
        · simp only [List.length_append, List.length_cons] at hfuel ⊢
          omega
        · have htake : (front ++ peer :: back).take (front.length + 1) = front ++ [peer] := by
            rw [← List.singleton_append, ← List.append_assoc]
            exact List.take_left' (by simp)
          have hdrop : (front ++ peer :: back).drop (front.length + 1) = back := by
            rw [← List.singleton_append, ← List.append_assoc]
            exact List.drop_left' (by simp)
          rw [htake, hdrop, List.append_assoc]
          simp

theorem expirePeers_spec {st : Storage} (now : ℤ) (hok : PeersOk st) :
    PeersOk { st with peers := expirePeers now 0 st.peers (st.peers.length + 1) } ∧
      ∀ key t, Knows { st with peers := expirePeers now 0 st.peers (st.peers.length + 1) } key t ↔
        Knows st key t ∧ now - 32 * 60 ≤ t := by
  have hperm := expirePeers_perm now (Nat.zero_le st.peers.length)
    (by omega : st.peers.length - 0 < st.peers.length + 1)
  rw [List.take_zero, List.nil_append, List.drop_zero] at hperm
  refine ⟨⟨?_, ?_, hok.maxpeers_le⟩, fun key t => ?_⟩
  · rw [(hperm.map Peer.key).nodup_iff]
    exact hok.nodup.sublist (List.filter_sublist.map Peer.key)
  · simp only
    rw [hperm.length_eq]
    exact (List.length_filter_le _ _).trans hok.length_le
  · unfold Knows
    simp only [hperm.mem_iff, List.mem_filter, Bool.not_eq_true', Peer.expired,
      decide_eq_false_iff_not, Int.not_lt]
    constructor
    · intro hex
      obtain ⟨peer, ⟨hpeer, hage⟩, hkey, rfl⟩ := hex
      exact ⟨⟨peer, hpeer, hkey, rfl⟩, hage⟩
    · intro hex
      obtain ⟨⟨peer, hpeer, hkey, rfl⟩, hage⟩ := hex
      exact ⟨peer, ⟨hpeer, hage⟩, hkey, rfl⟩

theorem expireStorage_spec {d : State} (hok : StorageOk d.storage d.numstorage) :
    StorageOk (expireStorage d).storage (expireStorage d).numstorage ∧
      registry (expireStorage d).storage = expire (registry d.storage) (d.now - 32 * 60) := by
  have hlen : (expireStorage d).storage.length ≤ d.storage.length := by
    unfold expireStorage
    simp only
    exact (List.length_filter_le _ _).trans (Nat.le_of_eq (List.length_map _))
  have hmem : ∀ st', st' ∈ (expireStorage d).storage ↔ st'.peers ≠ [] ∧ ∃ st ∈ d.storage,
      { st with peers := expirePeers d.now 0 st.peers (st.peers.length + 1) } = st' := by
    intro st'
    unfold expireStorage
    simp only [List.mem_filter, List.mem_map, decide_eq_true_eq]
    exact and_comm
  have hids : ((expireStorage d).storage.map Storage.id).Sublist (d.storage.map Storage.id) := by
    have hmap : (d.storage.map fun st => { st with
        peers := expirePeers d.now 0 st.peers (st.peers.length + 1) : Storage }).map Storage.id =
        d.storage.map Storage.id := by
      rw [List.map_map]
      rfl
    rw [← hmap]
    exact List.filter_sublist.map Storage.id
  have hok' : StorageOk (expireStorage d).storage (expireStorage d).numstorage := by
    refine ⟨hok.nodup.sublist hids, fun st' hst' => ?_, ?_, hlen.trans hok.length_le⟩
    · obtain ⟨hne, st, hst, rfl⟩ := (hmem st').mp hst'
      exact ⟨(expirePeers_spec d.now (hok.peers st hst).1).1, hne⟩
    · have hcount := hok.count
      unfold expireStorage at hlen ⊢
      simp only [List.length_map] at hlen ⊢
      split
      · omega
      · omega
  refine ⟨hok', registry_ext fun id key t => ?_⟩
  rw [registry_iff hok', expire, Option.filter_eq_some_iff, registry_iff hok, decide_eq_true_eq]
  constructor
  · intro hex
    obtain ⟨st', hst', hid, hknow⟩ := hex
    obtain ⟨-, st, hst, rfl⟩ := (hmem st').mp hst'
    obtain ⟨hknow', hage⟩ := ((expirePeers_spec d.now (hok.peers st hst).1).2 key t).mp hknow
    exact ⟨⟨st, hst, hid, hknow'⟩, hage⟩
  · intro hex
    obtain ⟨⟨st, hst, hid, hknow⟩, hage⟩ := hex
    have hknow' := ((expirePeers_spec d.now (hok.peers st hst).1).2 key t).mpr ⟨hknow, hage⟩
    refine ⟨_, (hmem _).mpr ⟨?_, st, hst, rfl⟩, hid, hknow'⟩
    obtain ⟨peer, hpeer, -⟩ := hknow'
    exact List.ne_nil_of_mem hpeer

end Expire

end SeaStore.Dht
