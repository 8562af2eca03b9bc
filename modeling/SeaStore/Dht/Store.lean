import SeaStore.Dht.Search

/-!
What has been announced here: for each hash the peers that have it, with the
time of their last announcement. Storing and expiring.
-/
namespace SeaStore.Dht

open Posix Controller

/-- The address of a peer. -/
def ipOf : Sockaddr → Option Bytes
  | .inet addr _ => some addr.toList
  | .inet6 addr _ => some addr.toList
  | .other _ => none

/-- A peer is known by its address and its port. -/
def Peer.is (ip : Bytes) (port : UInt16) (peer : Peer) : Bool := peer.port = port && peer.ip = ip

def Peer.refresh (now : ℤ) (peer : Peer) : Peer := { peer with time := now }

/-- The room for peers is doubled when it is used up, to a limit. -/
def growPeers (maxpeers : ℕ) : ℕ := min (if maxpeers = 0 then 2 else 2 * maxpeers) dhtMaxPeers

/-- A peer in the storage of a hash. -/
def Storage.store (now : ℤ) (ip : Bytes) (port : UInt16) (st : Storage) : ℤ × Storage :=
  match st.peers.findIdx? (Peer.is ip port) with
  | some i => (0, { st with peers := st.peers.modify i (Peer.refresh now) })
  | none =>
    if st.maxpeers ≤ st.peers.length then
      if dhtMaxPeers ≤ st.maxpeers then (0, st)
      else (1, { st with
        maxpeers := growPeers st.maxpeers, peers := st.peers ++ [⟨now, ip, port⟩] })
    else (1, { st with peers := st.peers ++ [⟨now, ip, port⟩] })

def storageStore (d : State) (id : NodeId) (sa : Sockaddr) (port : UInt16) : ℤ × State :=
  match ipOf sa with
  | none => (-1, d)
  | some ip =>
    match findStorage d.storage id with
    | some s =>
      match d.storage[s]? with
      | some st =>
        let (rc, st') := st.store d.now ip port
        (rc, { d with storage := d.storage.set s st' })
      | none => (-1, d)
    | none =>
      if dhtMaxHashes ≤ d.numstorage then (-1, d)
      else
        let (rc, st') := Storage.store d.now ip port ⟨id, 0, []⟩
        (rc, { d with storage := st' :: d.storage, numstorage := d.numstorage + 1 })

def Peer.expired (now : ℤ) (peer : Peer) : Bool := peer.time < now - 32 * 60

/-- The loop over the peers, from `i` on: the last one takes the place of one that has
expired. -/
def expirePeers (now : ℤ) (i : ℕ) (peers : List Peer) : ℕ → List Peer
  | 0 => peers
  | fuel + 1 =>
    match peers[i]? with
    | none => peers
    | some peer =>
      if peer.expired now then
        match peers.getLast? with
        | some last => expirePeers now i (peers.set i last).dropLast fuel
        | none => peers
      else expirePeers now (i + 1) peers fuel

/-- `expire_storage`, the entries without peers being dropped. -/
def expireStorage (d : State) : State :=
  let storage := d.storage.map fun st =>
    { st with peers := expirePeers d.now 0 st.peers (st.peers.length + 1) }
  let kept := storage.filter fun st => st.peers ≠ []
  let dropped := storage.length - kept.length
  { d with
    storage := kept
    numstorage := if dropped = 0 then d.numstorage else max (d.numstorage - dropped) 0 }

end SeaStore.Dht
