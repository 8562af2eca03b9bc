import SeaStore.Dht.Closest
import SeaStore.Dht.Message
import SeaStore.Dht.Routing
import SeaStore.Dht.Store

/-!
The node as a whole: what it does with a message, and what it does from time to
time. Requests are limited in their rate, buckets that have not been confirmed
for long are asked for nodes, and searches are carried on. The result is `none`
where the program would be aborted, access memory that it must not, or take a
message apart for ever.
-/
namespace SeaStore.Dht

open Posix Controller

/-- `MAX_TOKEN_BUCKET_TOKENS`. -/
def maxTokenBucketTokens : ℤ := 400

/-- Rate control for requests we receive. -/
def tokenBucket (d : State) : Bool × State :=
  let d := if d.tokenBucketTokens = 0 then
      { d with
        tokenBucketTokens :=
          Int32.ofInt (min maxTokenBucketTokens (100 * (d.now - d.tokenBucketTime)))
        tokenBucketTime := d.now }
    else d
  if d.tokenBucketTokens = 0 then (false, d)
  else (true, { d with tokenBucketTokens := d.tokenBucketTokens - 1 })

/-- A byte that `random` gives. -/
def randomByte (d : State) : UInt8 × State :=
  let (r, d) := d.random
  (UInt8.ofNat r, d)

/-- As many random bytes. -/
def randomBytes (d : State) : ℕ → Bytes × State
  | 0 => ([], d)
  | n + 1 =>
    let (b, d) := randomByte d
    let (bs, d) := randomBytes d n
    (b :: bs, d)

/-- Return a random id within a bucket. -/
def bucketRandom (d : State) (bs : List Bucket) (i : ℕ) (b : Bucket) : NodeId × State :=
  let bit := middleBit bs i b.first
  if 160 ≤ bit then (b.first, d)
  else
    let bit := bit.toNat
    let (r, d) := randomByte d
    let mask := UInt8.ofNat (0xFF00 >>> (bit % 8))
    let byte := (b.first.bytes.getD (bit / 8) 0 &&& mask) ||| (r &&& 0xFF >>> UInt8.ofNat (bit % 8))
    let (rest, d) := randomBytes d (19 - bit / 8)
    (NodeId.ofBytes (b.first.bytes.take (bit / 8) ++ byte :: rest), d)

/-- One time in eight. -/
def oneInEight (d : State) : Bool × State :=
  let (r, d) := d.random
  (r % 8 = 0, d)

/-- The bucket behind one that is empty, and sometimes behind any. -/
def onwards (d : State) (af : Af) (i : ℕ) (b : Bucket) : ℕ × State :=
  match (d.table af)[i + 1]? with
  | none => (i, d)
  | some _ =>
    if b.count = 0 then (i + 1, d)
    else
      let (often, d) := oneInEight d
      (if often then i + 1 else i, d)

/-- In place of an empty bucket `c`, and sometimes of any, the one before `i` if it has nodes. -/
def backwards (d : State) (af : Af) (i q : ℕ) (c : Bucket) : ℕ × State :=
  let (back, d) := if c.count = 0 then (true, d) else oneInEight d
  match (previousBucket i).bind fun p => ((d.table af)[p]?).map fun r => (p, r) with
  | none => (q, d)
  | some (p, r) => (if back && 0 < r.count then p else q, d)

/-- The bucket to ask a node of: a neighbour if it is empty, and sometimes anyway. -/
def askedBucket (d : State) (af : Af) (i : ℕ) : Option (ℕ × State) := do
  let b ← (d.table af)[i]?
  let (q, d) := onwards d af i b
  let c ← (d.table af)[q]?
  return backwards d af i q c

/-- A random node of bucket `q` is asked for nodes near `id`. There may be none. -/
def askNode (d : State) (af : Af) (q : ℕ) (id : NodeId) (want : State → ℤ × State) :
    Option (Bool × State) := do
  let b ← (d.table af)[q]?
  let (j, d) := randomNode d b
  match j with
  | none => return (false, d)
  | some j =>
    let n ← b.nodes[j]?
    let (want, d) := want d
    let d := sendFindNode d n.ss (makeTid 'f' 'n' 0) id want (n.replyTime ≥ d.now - 15)
    return (true, pinged d af q j (some q))

/-- Both families are asked for if there are sockets for both. -/
def bothFamilies : ℤ := 3

def neighbourhoodMaintenance (d : State) (af : Af) : Option (Bool × State) :=
  match findBucket d.myid (d.table af) with
  | none => some (false, d)
  | some i => do
    let (r, d) := randomByte d
    let id := NodeId.ofBytes (d.myid.bytes.take 19 ++ [r])
    let (q, d) ← askedBucket d af i
    let want := if d.socket && d.socket6 then bothFamilies else -1
    let (_, d) ← askNode d af q id fun d => (want, d)
    return (true, d)

/-- The other family is asked for as well when its bucket for the id is not full, and
once in a while. -/
def maintenanceWant (af : Af) (id : NodeId) (d : State) : ℤ × State :=
  if d.socket && d.socket6 then
    let other := if af = .inet then .inet6 else .inet
    let hasRoom := ((findBucket id (d.table other)).bind fun i => (d.table other)[i]?).elim false
      fun b => b.count < b.maxCount
    if hasRoom then (bothFamilies, d)
    else
      let (r, d) := d.random
      (if r % 37 = 0 then bothFamilies else -1, d)
  else (-1, d)

/-- The buckets from `i` on, until a node has been asked. -/
def bucketMaintenanceFrom (d : State) (af : Af) (i : ℕ) : ℕ → Option (Bool × State)
  | 0 => some (false, d)
  | fuel + 1 =>
    match (d.table af)[i]? with
    | none => some (false, d)
    | some b =>
      -- the time that an eight node bucket gets is divided by its size
      if b.maxCount.tdiv 8 = 0 then none
      else if b.time < d.now - max ((600 : ℤ).tdiv (b.maxCount.tdiv 8)) 30 then do
        let (id, d) := bucketRandom d (d.table af) i b
        let (q, d) ← askedBucket d af i
        let (asked, d) ← askNode d af q id (maintenanceWant af id)
        if asked then return (true, d) else bucketMaintenanceFrom d af (i + 1) fuel
      else bucketMaintenanceFrom d af (i + 1) fuel

def bucketMaintenance (d : State) (af : Af) : Option (Bool × State) :=
  bucketMaintenanceFrom d af 0 (d.table af).length

/-- `find_search`. -/
def findSearch (d : State) (tid : UInt16) (af : Af) : Option ℕ :=
  d.searches.findIdx? fun sr => sr.tid = tid && sr.af = af

/-- What is given to a call: the time, what `random` returns from now on, the new secret
if one is made, and what the buffers of two tokens hold before. -/
structure Surroundings where
  now : ℤ
  randoms : List ℕ
  rotation : Rotation
  issued : Token
  checked : Token

/-- An address of the bytes of a node in a message. -/
def addrOf (af : Af) (bytes : Bytes) : Sockaddr :=
  match af with
  | .inet =>
    .inet (Vector.ofFn fun i => bytes.getD (20 + i) 0) (Vector.ofFn fun i => bytes.getD (24 + i) 0)
  | .inet6 =>
    .inet6 (Vector.ofFn fun i => bytes.getD (20 + i) 0) (Vector.ofFn fun i => bytes.getD (36 + i) 0)
  | .other f => .other f

/-- The search at position `si`, if there is one, is offered a node. -/
def offerSearch (d : State) (si : Option ℕ) (id : NodeId) (sa : Sockaddr) (replied : Bool)
    (token : Option Bytes) : State :=
  match si with
  | none => d
  | some si => d.modifySearch si fun sr => (insertSearchNode d.now sr id sa replied token).2

/-- The nodes of a reply, of `size` bytes each, go into the table and into the search if
it is of their family. -/
def learnNodes (d : State) (af : Af) (size : ℕ) (si : Option ℕ) : Bytes → ℕ → State
  | _, 0 => d
  | bytes, fuel + 1 =>
    if bytes.length < size then d
    else
      let id := NodeId.ofBytes bytes
      let d :=
        if idCmp id d.myid = .eq then d
        else
          let sa := addrOf af bytes
          let d := (newNode d id sa 0).2
          let si := si.filter fun si => (d.searches[si]?).elim false fun sr => sr.af = af
          offerSearch d si id sa false none
      learnNodes d af size si (bytes.drop size) fuel

/-- `search_send_get_peers` without a node. -/
def nextRequest (d : State) (si : Option ℕ) : State :=
  match si with
  | none => d
  | some si => (searchSendGetPeers d si none).2

/-- The values of a reply are handed on. -/
def valueEvents (d : State) (si : Option ℕ) (m : Message) : State :=
  match si.bind fun si => d.searches[si]? with
  | none => d
  | some sr =>
    let events := if m.values = [] then [] else [.values sr.id m.values]
    let events6 := if m.values6 = [] then [] else [.values6 sr.id m.values6]
    { d with events := d.events ++ (events ++ events6) }

/-- The first node of the search with this id has acknowledged the announcement. -/
def ackAnnounce (d : State) (si : ℕ) (id : NodeId) : State :=
  d.modifySearch si fun sr =>
    match sr.nodes.findIdx? fun n => idCmp n.id id = .eq with
    | none => sr
    | some i => { sr with nodes := sr.nodes.modify i fun n =>
        { n with requestTime := 0, replyTime := d.now, acked := true, pinged := 0 } }

/-- A reply to a question of ours. -/
def handleReply (d : State) (m : Message) (sa : Sockaddr) : State :=
  if m.tid.length ≠ 4 then blacklistNode d m.id sa
  else if (tidMatch m.tid 'p' 'n').isSome then (newNode d m.id sa 2).2
  else if (tidMatch m.tid 'f' 'n').isSome || (tidMatch m.tid 'g' 'p').isSome then
    let gp := tidMatch m.tid 'g' 'p'
    let si := gp.bind fun ttid => findSearch d ttid (family sa)
    let d :=
      if m.nodes.length % 26 ≠ 0 ∨ m.nodes6.length % 38 ≠ 0 then blacklistNode d m.id sa
      else if gp.isSome && si.isNone then (newNode d m.id sa 1).2
      else
        let d := (newNode d m.id sa 2).2
        let d := learnNodes d .inet 26 si m.nodes (m.nodes.length + 1)
        let d := learnNodes d .inet6 38 si m.nodes6 (m.nodes6.length + 1)
        nextRequest d si
    valueEvents (offerSearch d si m.id sa true (some m.token)) si m
  else
    match tidMatch m.tid 'a' 'p' with
    | none => d
    | some ttid =>
      match findSearch d ttid (family sa) with
      | none => (newNode d m.id sa 1).2
      | some si =>
        let d := (newNode d m.id sa 2).2
        nextRequest (ackAnnounce d si m.id) (some si)

/-- The port of a sender, in host order. -/
def portOf : Sockaddr → UInt16
  | .inet _ port => UInt16.ofNat (beNat port.toList)
  | .inet6 _ port => UInt16.ofNat (beNat port.toList)
  | .other _ => 0

def handleGetPeers (d : State) (e : Surroundings) (m : Message) (sa : Sockaddr) : Option State :=
  let d := (newNode d m.id sa 1).2
  if idCmp m.infoHash zeroes = .eq then
    some (sendError d sa m.tid 203 (text "Get_peers with no info_hash"))
  else do
    let token ← makeToken d.secrets sa false e.issued
    let st := ((findStorage d.storage m.infoHash).bind fun s => d.storage[s]?).filter
      fun st => st.peers ≠ []
    match st with
    | some st => sendClosestNodes d sa m.tid m.infoHash m.want (family sa) (some st) token.toList
    | none => sendClosestNodes d sa m.tid m.infoHash m.want (.other 0) none token.toList

/-- The port that is announced: that of the sender if the message says so. -/
def announcedPort (m : Message) (sa : Sockaddr) : UInt16 :=
  if m.impliedPort ≠ 0 then
    match family sa with
    | .other _ => m.port
    | _ => portOf sa
  else m.port

def handleAnnouncePeer (d : State) (e : Surroundings) (m : Message) (sa : Sockaddr) :
    Option State :=
  let d := (newNode d m.id sa 1).2
  if idCmp m.infoHash zeroes = .eq then
    some (sendError d sa m.tid 203 (text "Announce_peer with no info_hash"))
  else do
    let valid ← tokenMatch d.secrets e.checked m.token sa
    if !valid then return sendError d sa m.tid 203 (text "Announce_peer with wrong token")
    if announcedPort m sa = 0 then
      return sendError d sa m.tid 203 (text "Announce_peer with forbidden port number")
    -- if it could not be stored, the requestor is not told
    return sendPeerAnnounced (storageStore d m.infoHash sa (announcedPort m sa)).2 sa m.tid

/-- What is done with a message that has been understood. -/
def handle (d : State) (e : Surroundings) (kind : Kind) (m : Message) (sa : Sockaddr) :
    Option State :=
  match kind with
  | .error => some d
  | .reply => some (handleReply d m sa)
  | .ping => some (sendPong (newNode d m.id sa 1).2 sa m.tid)
  | .findNode =>
    sendClosestNodes (newNode d m.id sa 1).2 sa m.tid m.target m.want (.other 0) none []
  | .getPeers => handleGetPeers d e m sa
  | .announcePeer => handleAnnouncePeer d e m sa

/-- A datagram, and the byte behind it. -/
structure Packet where
  bytes : Bytes
  behind : UInt8
  sa : Sockaddr

/-- What is done with a packet; `none` in the result if the buffer is not terminated. -/
def receive (d : State) (e : Surroundings) (p : Packet) : Option (Option State) :=
  if isMartian p.sa || nodeBlacklisted d p.sa then some (some d)
  else if p.behind ≠ 0 then some none
  else
    match parseMessage p.bytes with
    | .error .unparseable => some (some d)
    | .error _ => none
    | .ok (kind, m) =>
      if kind = .error ∨ idCmp m.id zeroes = .eq ∨ idCmp m.id d.myid = .eq then some (some d)
      else if kind = .reply then (handle d e kind m p.sa).map some
      else
        let (admitted, d) := tokenBucket d
        if admitted then (handle d e kind m p.sa).map some else some (some d)

/-- The searches that are not done and whose last step was some time ago take a step. -/
def stepSearches (d : State) (si : ℕ) : ℕ → State
  | 0 => d
  | fuel + 1 =>
    match d.searches[si]? with
    | none => d
    | some sr =>
      let d := if !sr.done && sr.stepTime + searchRetransmit / 2 + 1 ≤ d.now then searchStep d si
        else d
      stepSearches d (si + 1) fuel

/-- When the next search that is not done is due. -/
def scheduleSearches (d : State) : List Search → State
  | [] => d
  | sr :: searches =>
    if sr.done then scheduleSearches d searches
    else
      let (r, d) := d.random
      let tm := sr.stepTime + searchRetransmit + r % 10
      scheduleSearches
        (if d.searchTime = 0 ∨ tm < d.searchTime then { d with searchTime := tm } else d) searches

def searchesDue (d : State) : State :=
  if 0 < d.searchTime ∧ d.searchTime ≤ d.now then
    let d := stepSearches d 0 d.searches.length
    scheduleSearches { d with searchTime := 0 } d.searches
  else d

/-- `rotate_secrets`. -/
def rotate (d : State) (e : Surroundings) : ℤ × State :=
  let (r, d) := d.random
  let (rc, secrets) := rotateSecrets d.secrets e.rotation
  (rc, { d with rotateSecretsTime := d.now + 900 + r % 1800, secrets := secrets })

/-- The expiry of nodes, peers and searches. -/
def expireStuff (d : State) : State :=
  if d.expireStuffTime ≤ d.now then
    expireSearches (expireStorage (expireBuckets (expireBuckets d .inet) .inet6))
  else d

/-- The neighbourhood of the own id is looked after if nodes have been found there of late. -/
def nearOwnId (d : State) (af : Af) (growTime : ℤ) : Option (Bool × State) :=
  if d.now - 150 ≤ growTime then neighbourhoodMaintenance d af else some (false, d)

def growMaintenance (d : State) (soon : Bool) : Option (Bool × State) :=
  if soon then some (true, d)
  else do
    let (soon, d) ← nearOwnId d .inet d.mybucketGrowTime
    let (soon6, d) ← nearOwnId d .inet6 d.mybucket6GrowTime
    return (soon || soon6, d)

def confirmNodes (d : State) : Option State :=
  if d.confirmNodesTime ≤ d.now then do
    let (soon, d) ← bucketMaintenance d .inet
    let (soon6, d) ← bucketMaintenance d .inet6
    let (soon, d) ← growMaintenance d (soon || soon6)
    let (r, d) := d.random
    return { d with
      confirmNodesTime := d.now + if soon then 5 + (r % 10 : ℕ) else 60 + (r % 120 : ℕ) }
  else some d

/-- How long the caller may sleep. -/
def sleepTime (d : State) : ℤ :=
  let tosleep := if d.now < d.confirmNodesTime then d.confirmNodesTime - d.now else 0
  if 0 < d.searchTime then
    if d.searchTime ≤ d.now then 0 else min tosleep (d.searchTime - d.now)
  else tosleep

/-- What is done at each call, whatever has come in. -/
def maintain (d : State) (e : Surroundings) : Option (ℤ × State) := do
  let d := if d.rotateSecretsTime ≤ d.now then (rotate d e).2 else d
  let d ← confirmNodes (searchesDue (expireStuff d))
  return (sleepTime d, d)

/-- The packet of a call, if there is one with anything in it. -/
def receiveAny (d : State) (e : Surroundings) (p : Option Packet) : Option (Option State) :=
  match p.filter fun p => p.bytes ≠ [] with
  | some p => receive d e p
  | none => some (some d)

/-- The result is that of the call, with the time to sleep where it is set. -/
def dhtPeriodic (d : State) (e : Surroundings) (p : Option Packet) :
    Option (ℤ × Option ℤ × State) := do
  let d := { d with now := e.now, randoms := e.randoms }
  let received ← receiveAny d e p
  match received with
  | none => return (-1, none, d)
  | some d =>
    let (tosleep, d) ← maintain d e
    return (1, some tosleep, d)

/-- The static variables before the first call. -/
def State.atLoad : State where
  socket := false
  socket6 := false
  myid := zeroes
  myV := none
  now := 0
  buckets := []
  buckets6 := []
  storage := []
  numstorage := 0
  searches := []
  numsearches := 0
  searchId := 0
  blacklist := .replicate maxBlacklisted none
  nextBlacklisted := 0
  secrets := ⟨.fill 0, .fill 0⟩
  searchTime := 0
  confirmNodesTime := 0
  rotateSecretsTime := 0
  mybucketGrowTime := 0
  mybucket6GrowTime := 0
  expireStuffTime := 0
  tokenBucketTime := 0
  tokenBucketTokens := 0
  sent := []
  events := []
  randoms := []

/-- A table at the start. -/
def freshTable (socket : Bool) : List Bucket :=
  if socket then [⟨zeroes, 0, 128, 0, [], none⟩] else []

/-- The static variables as they are set at the start; the blacklist is as the process left
it. -/
def zeroState (d : State) (e : Surroundings) (socket socket6 : Bool) (id : NodeId)
    (v : Option (Vector UInt8 4)) : State :=
  { d with
    searches := [], numsearches := 0, storage := [], numstorage := 0
    buckets := freshTable socket, buckets6 := freshTable socket6
    myid := id, myV := v, now := e.now, randoms := e.randoms
    mybucketGrowTime := e.now, mybucket6GrowTime := e.now
    searchTime := 0, nextBlacklisted := 0
    tokenBucketTime := e.now, tokenBucketTokens := Int32.ofInt maxTokenBucketTokens
    secrets := { d.secrets with secret := Token.fill 0 } }

/-- As well as what is drawn. -/
def initState (d : State) (e : Surroundings) (socket socket6 : Bool) (id : NodeId)
    (v : Option (Vector UInt8 4)) : State :=
  let (r, d) := (zeroState d e socket socket6 id v).random
  let (r', d) := d.random
  { d with confirmNodesTime := d.now + r % 3, searchId := UInt16.ofNat r' }

def dhtInit (d : State) (e : Surroundings) (socket socket6 : Bool) (id : NodeId)
    (v : Option (Vector UInt8 4)) : ℤ × State :=
  if d.socket || d.socket6 || d.buckets ≠ [] || d.buckets6 ≠ [] then (-1, d)
  else
    let (rc, d) := rotate (initState d e socket socket6 id v) e
    if rc < 0 then (-1, { d with buckets := [], buckets6 := [] })
    else
      let d := { d with socket := socket, socket6 := socket6 }
      (1, expireBuckets (expireBuckets d .inet) .inet6)

/-- The result is zero for a node that has not been taken up, and for other families there
is an error. -/
def dhtInsertNode (d : State) (id : NodeId) (sa : Sockaddr) : ℤ × State :=
  match family sa with
  | .other _ => (-1, d)
  | _ =>
    let (place, d) := newNode d id sa 0
    (if place.isSome then 1 else 0, d)

def dhtPingNode (d : State) (sa : Sockaddr) : State := sendPing d sa (makeTid 'p' 'n' 0)

end SeaStore.Dht
