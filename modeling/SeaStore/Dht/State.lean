import SeaStore.Controller.DhtToken
import SeaStore.Dht.NodeId
import SeaStore.Posix.Text

/-!
The state of a node of the DHT: the routing tables of the two families, as
buckets of nodes, the searches, what is stored, and what has been sent. Linked
lists are lists, and a pointer into one is a position.
-/
namespace SeaStore.Dht

open Posix Controller

deriving instance DecidableEq for Sockaddr

/-- The families `AF_INET` and `AF_INET6`, and those without a socket. -/
inductive Af
  | inet
  | inet6
  | other (family : UInt16)
  deriving DecidableEq

def family : Sockaddr → Af
  | .inet .. => .inet
  | .inet6 .. => .inet6
  | .other f => .other f

structure Node where
  id : NodeId
  ss : Sockaddr
  time : ℤ
  replyTime : ℤ
  pingedTime : ℤ
  pinged : ℤ
  deriving DecidableEq

/-- A bucket ranges from `first` to the `first` of the next one. Without a
cached address there is `none` in its place. -/
structure Bucket where
  first : NodeId
  count : ℤ
  maxCount : ℤ
  time : ℤ
  nodes : List Node
  cached : Option Sockaddr
  deriving DecidableEq

structure SearchNode where
  id : NodeId
  ss : Sockaddr
  requestTime : ℤ
  replyTime : ℤ
  pinged : ℤ
  token : Bytes
  replied : Bool
  acked : Bool
  deriving DecidableEq

def searchNodes : ℕ := 14

structure Search where
  tid : UInt16
  af : Af
  stepTime : ℤ
  id : NodeId
  port : UInt16
  done : Bool
  nodes : List SearchNode
  deriving DecidableEq

structure Peer where
  time : ℤ
  ip : Bytes
  port : UInt16
  deriving DecidableEq

structure Storage where
  id : NodeId
  maxpeers : ℕ
  peers : List Peer
  deriving DecidableEq

def dhtMaxPeers : ℕ := 2048

def dhtMaxHashes : ℕ := 16384

def dhtMaxSearches : ℕ := 1024

def searchExpireTime : ℤ := 62 * 60

def inflightQueries : ℕ := 4

def searchRetransmit : ℤ := 10

abbrev maxBlacklisted : ℕ := 10

instance : NeZero maxBlacklisted := ⟨by decide⟩

/-- What the callback is told. -/
inductive Event
  | values (id : NodeId) (data : Bytes)
  | values6 (id : NodeId) (data : Bytes)
  | searchDone (af : Af) (id : NodeId)
  deriving DecidableEq

/-- What has been given to `sendto`, with its flag `MSG_CONFIRM`. -/
structure Datagram where
  sa : Sockaddr
  bytes : Bytes
  confirm : Bool
  deriving DecidableEq

/-- The static variables, the datagrams sent and the calls of the callback so far, and
the numbers that `random` still has to return (zero when they are used up). -/
structure State where
  socket : Bool
  socket6 : Bool
  myid : NodeId
  myV : Option (Vector UInt8 4)
  now : ℤ
  buckets : List Bucket
  buckets6 : List Bucket
  storage : List Storage
  numstorage : ℤ
  searches : List Search
  numsearches : ℤ
  searchId : UInt16
  blacklist : Vector (Option Sockaddr) maxBlacklisted
  nextBlacklisted : Fin maxBlacklisted
  secrets : Secrets
  searchTime : ℤ
  confirmNodesTime : ℤ
  rotateSecretsTime : ℤ
  mybucketGrowTime : ℤ
  mybucket6GrowTime : ℤ
  expireStuffTime : ℤ
  tokenBucketTime : ℤ
  tokenBucketTokens : Int32
  sent : List Datagram
  events : List Event
  randoms : List ℕ

def Bucket.modifyNode (j : ℕ) (f : Node → Node) (b : Bucket) : Bucket :=
  { b with nodes := b.nodes.modify j f }

namespace State

/-- The list of the buckets of a family: any that is not `AF_INET` is the other one. -/
def table (d : State) (af : Af) : List Bucket := if af = .inet then d.buckets else d.buckets6

def setTable (d : State) (af : Af) (bs : List Bucket) : State :=
  if af = .inet then { d with buckets := bs } else { d with buckets6 := bs }

def modifyBucket (d : State) (af : Af) (i : ℕ) (f : Bucket → Bucket) : State :=
  d.setTable af ((d.table af).modify i f)

def modifyNode (d : State) (af : Af) (i j : ℕ) (f : Node → Node) : State :=
  d.modifyBucket af i (Bucket.modifyNode j f)

def modifySearch (d : State) (si : ℕ) (f : Search → Search) : State :=
  { d with searches := d.searches.modify si f }

def random (d : State) : ℕ × State :=
  match d.randoms with
  | [] => (0, d)
  | r :: rs => (r, { d with randoms := rs })

end State

def isMartian : Sockaddr → Bool
  | .inet addr port =>
    port.toList = [0, 0] || addr.toList.getD 0 0 = 0 || addr.toList.getD 0 0 = 127 ||
      addr.toList.getD 0 0 &&& 0xE0 = 0xE0
  | .inet6 addr port =>
    port.toList = [0, 0] || addr.toList.getD 0 0 = 0xFF ||
      (addr.toList.getD 0 0 = 0xFE && addr.toList.getD 1 0 &&& 0xC0 = 0x80) ||
      (addr.toList.take 15 = List.replicate 15 0 &&
        (addr.toList.getD 15 0 = 0 || addr.toList.getD 15 0 = 1)) ||
      addr.toList.take 12 = [0, 0, 0, 0, 0, 0, 0, 0, 0, 0, 0xFF, 0xFF]
  | .other _ => false

/-- `node_blacklisted`; the callback `dht_blacklisted` of the program knows no such address. -/
def nodeBlacklisted (d : State) (sa : Sockaddr) : Bool :=
  d.blacklist.toList.any fun entry => entry = some sa

/-- `in_bucket`, for the bucket at a position. -/
def inBucket (id : NodeId) (bs : List Bucket) (i : ℕ) : Bool :=
  match bs[i]? with
  | none => false
  | some b =>
    idCmp b.first id ≠ .gt &&
      match bs[i + 1]? with
      | none => true
      | some next => idCmp id next.first = .lt

/-- `find_bucket`: the buckets are walked while the next one does not begin behind the id. -/
def findBucket (id : NodeId) : List Bucket → Option ℕ
  | [] => none
  | [_] => some 0
  | _ :: next :: bs =>
    if idCmp id next.first = .lt then some 0 else (findBucket id (next :: bs)).map (· + 1)

def previousBucket (i : ℕ) : Option ℕ := if i = 0 then none else some (i - 1)

/-- `find_node`: the positions of its bucket and of the node in there. -/
def findNode (bs : List Bucket) (id : NodeId) : Option (ℕ × ℕ) := do
  let i ← findBucket id bs
  let b ← bs[i]?
  let j ← b.nodes.findIdx? fun n => idCmp n.id id = .eq
  return (i, j)

def randomNode (d : State) (b : Bucket) : Option ℕ × State :=
  if b.count = 0 then (none, d)
  else
    let (r, d) := d.random
    let nn := ((r : ℤ) % b.count).toNat
    (if nn < b.nodes.length then some nn else none, d)

/-- A byte of an id is combined with a mask. -/
def NodeId.orByte (id : NodeId) (i : ℕ) (mask : UInt8) : NodeId :=
  ⟨id.bytes.set i (id.bytes.getD i 0 ||| mask), by rw [List.length_set, id.size]⟩

/-- The bit behind the lowest one bits of both ends of a bucket. -/
def middleBit (bs : List Bucket) (i : ℕ) (first : NodeId) : ℤ :=
  let bit1 := lowbit first
  let bit2 := match bs[i + 1]? with
    | some next => lowbit next.first
    | none => -1
  max bit1 bit2 + 1

/-- The middle id of a bucket. -/
def bucketMiddle (bs : List Bucket) (i : ℕ) (b : Bucket) : Option NodeId :=
  let bit := middleBit bs i b.first
  if 160 ≤ bit then none
  else some (b.first.orByte (bit.toNat / 8) (0x80 >>> UInt8.ofNat (bit.toNat % 8)))

/-- This is our definition of a known-good node. -/
def nodeGood (d : State) (node : Node) : Bool :=
  node.pinged ≤ 2 && node.replyTime ≥ d.now - 7200 && node.time ≥ d.now - 900

/-- A transaction id: what is asked for, and a sequence number in host order. -/
def makeTid (c1 c2 : Char) (seqno : UInt16) : Bytes := byteOf c1 :: byteOf c2 :: le16 seqno

/-- `tid_match`, with the sequence number. -/
def tidMatch (tid : Bytes) (c1 c2 : Char) : Option UInt16 :=
  if tid.getD 0 0 = byteOf c1 ∧ tid.getD 1 0 = byteOf c2 then
    some (readLe16 ((tid.drop 2).take 2))
  else none

/-- An element is changed, but not what is seen of it. -/
theorem map_modify_eq {α β : Type*} {g : α → β} {f : α → α} (hf : ∀ a, g (f a) = g a) (l : List α)
    (i : ℕ) : (l.modify i f).map g = l.map g := by
  apply List.ext_getElem?
  intro j
  rw [List.getElem?_map, List.getElem?_map, List.getElem?_modify]
  by_cases h : i = j
  · simp [h, Function.comp_def, hf]
  · simp [h]

end SeaStore.Dht
