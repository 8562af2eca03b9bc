import SeaStore.Dht.Packet

/-!
Searches: each keeps the nodes that are closest to what it looks for, sorted by
their distance, and asks them a few at a time. Asking a node counts against it
in the routing table as well, and the third question in vain wakes up the
candidate that waits for its place.
-/
namespace SeaStore.Dht

open Posix Controller

/-- The cached address of a bucket, unless its family is zero. -/
def Bucket.candidate (b : Bucket) : Option Sockaddr := b.cached.filter fun sa => sa ≠ .other 0

def Bucket.forget (b : Bucket) : Bucket := { b with cached := none }

/-- Every bucket caches the address of a likely node. Ping it. -/
def sendCachedPing (d : State) (af : Af) (i : ℕ) : State :=
  match (d.table af)[i]?.bind Bucket.candidate with
  | none => d
  | some sa =>
    (sendPing d sa (makeTid 'p' 'n' 0)).modifyBucket af i Bucket.forget

/-- A request has been sent to the node at position `j` of bucket `i`. Without a
bucket `b` its own one is looked up. -/
def pinged (d : State) (af : Af) (i j : ℕ) (b : Option ℕ) : State :=
  match ((d.table af)[i]?).bind fun bucket => bucket.nodes[j]? with
  | none => d
  | some n =>
    let d := d.modifyNode af i j fun n =>
      { n with pinged := n.pinged + 1, pingedTime := d.now }
    if 3 ≤ n.pinged + 1 then
      match b with
      | some k => sendCachedPing d af k
      | none =>
        match findBucket n.id (d.table (family n.ss)) with
        | some k => sendCachedPing d (family n.ss) k
        | none => d
    else d

/-- The node of this id is marked as pinged if it is in the routing table. -/
def pingedById (d : State) (id : NodeId) (af : Af) : State :=
  match findNode (d.table af) id with
  | some (i, j) => pinged d af i j none
  | none => d

/-- Where an id belongs among ids sorted by their distance to `target`: its own place
if it is there, or the first place of one that is farther away. -/
def placeOf (id target : NodeId) : List NodeId → Bool × ℕ
  | [] => (false, 0)
  | other :: ids =>
    if idCmp id other = .eq then (true, 0)
    else if xorcmp id other target = .lt then (false, 0)
    else
      let (found, i) := placeOf id target ids
      (found, i + 1)

/-- A node that nothing is known of but its id. -/
def SearchNode.fresh (id : NodeId) (sa : Sockaddr) : SearchNode :=
  ⟨id, sa, 0, 0, 0, [], false, false⟩

/-- What has been learnt of a node, the overlong tokens left aside. -/
def SearchNode.learn (now : ℤ) (n : SearchNode) (sa : Sockaddr) (replied : Bool)
    (token : Option Bytes) : SearchNode :=
  let n := { n with ss := sa }
  let n := if replied then
      { n with replied := true, replyTime := now, requestTime := 0, pinged := 0 }
    else n
  match token with
  | some token => if 40 ≤ token.length then n else { n with token := token }
  | none => n

/-- The position of the node in the search, if it has one. -/
def insertSearchNode (now : ℤ) (sr : Search) (id : NodeId) (sa : Sockaddr) (replied : Bool)
    (token : Option Bytes) : Option ℕ × Search :=
  if family sa ≠ sr.af then (none, sr)
  else
    let (found, i) := placeOf id sr.id (sr.nodes.map SearchNode.id)
    if found then
      (some i, { sr with nodes := sr.nodes.modify i fun n => n.learn now sa replied token })
    else if i = searchNodes then (none, sr)
    else
      let n := (SearchNode.fresh id sa).learn now sa replied token
      (some i, { sr with nodes := (sr.nodes.insertIdx i n).take searchNodes })

/-- Searches that nothing has happened to for too long; who waits for one is told. -/
def expireSearches (d : State) : State :=
  let expired : Search → Bool := fun sr => sr.stepTime < d.now - searchExpireTime
  let gone := d.searches.filter expired
  { d with
    searches := d.searches.filter fun sr => !expired sr
    numsearches := d.numsearches - gone.length
    events := d.events ++ (gone.filter fun sr => !sr.done).map fun sr => .searchDone sr.af sr.id }

/-- The node may be asked, and has not been asked just now. -/
def mayAsk (d : State) (n : SearchNode) : Bool :=
  n.pinged < 3 && !n.replied && n.requestTime < d.now - searchRetransmit

/-- The last of the nodes that may be asked. -/
def lastToAsk (d : State) (nodes : List SearchNode) : Option ℕ :=
  ((nodes.zipIdx.filter fun p => mayAsk d p.1).map Prod.snd).getLast?

/-- A request has been sent to a node of a search. -/
def markSearchNode (d : State) (si ni : ℕ) : State :=
  d.modifySearch si fun sr =>
    { sr with nodes := sr.nodes.modify ni fun n =>
        { n with pinged := n.pinged + 1, requestTime := d.now } }

/-- The number of requests sent, zero or one. -/
def searchSendGetPeers (d : State) (si : ℕ) (ni : Option ℕ) : ℕ × State :=
  match d.searches[si]? with
  | none => (0, d)
  | some sr =>
    match ni.or (lastToAsk d sr.nodes) with
    | none => (0, d)
    | some ni =>
      match sr.nodes[ni]? with
      | none => (0, d)
      | some n =>
        if mayAsk d n then
          let d := sendGetPeers d n.ss (makeTid 'g' 'p' sr.tid) sr.id (-1)
            (n.replyTime ≥ d.now - searchRetransmit)
          (1, pingedById (markSearchNode d si ni) n.id (family n.ss))
        else (0, d)

/-- Insert a new node into any incomplete search, from search `si` on. -/
def addSearchNodeFrom (d : State) (id : NodeId) (sa : Sockaddr) (si : ℕ) : ℕ → State
  | 0 => d
  | fuel + 1 =>
    match d.searches[si]? with
    | none => d
    | some sr =>
      let d :=
        if sr.af = family sa ∧ sr.nodes.length < searchNodes then
          let (place, sr') := insertSearchNode d.now sr id sa false none
          let d := d.modifySearch si fun _ => sr'
          match place with
          | some ni => (searchSendGetPeers d si (some ni)).2
          | none => d
        else d
      addSearchNodeFrom d id sa (si + 1) fuel

def addSearchNode (d : State) (id : NodeId) (sa : Sockaddr) : State :=
  addSearchNodeFrom d id sa 0 d.searches.length

/-- The first eight live nodes have replied. -/
def allReplied : ℕ → List SearchNode → Bool
  | _, [] => true
  | j, n :: ns =>
    if 8 ≤ j then true
    else if 3 ≤ n.pinged then allReplied j ns
    else if n.replied then allReplied (j + 1) ns
    else false

/-- A node without a token has nothing to acknowledge. -/
def ackSearchNode (d : State) (si ni : ℕ) : State :=
  d.modifySearch si fun sr =>
    { sr with nodes := sr.nodes.modify ni fun n => { n with acked := true } }

/-- The first eight live nodes are sent an announcement, if they have not acknowledged
one. A node without a token is taken to have done so. -/
def announceFrom (d : State) (si i j : ℕ) (allAcked : Bool) : ℕ → Bool × State
  | 0 => (allAcked, d)
  | fuel + 1 =>
    match d.searches[si]?.bind fun sr => (sr.nodes[i]?).map fun n => (sr, n) with
    | none => (allAcked, d)
    | some (sr, n) =>
      if 8 ≤ j then (allAcked, d)
      else if 3 ≤ n.pinged then announceFrom d si (i + 1) j allAcked fuel
      else if n.token = [] ∨ n.acked then
        announceFrom (ackSearchNode d si i) si (i + 1) (j + 1) allAcked fuel
      else
        let d := sendAnnouncePeer d n.ss (makeTid 'a' 'p' sr.tid) sr.id sr.port n.token
          (n.replyTime ≥ d.now - 15)
        let d := pingedById (markSearchNode d si i) n.id (family n.ss)
        announceFrom d si (i + 1) (j + 1) false fuel

/-- The nodes of a search are asked in turn, as many as may be asked at a time. -/
def askFrom (d : State) (si i j : ℕ) : ℕ → State
  | 0 => d
  | fuel + 1 =>
    match d.searches[si]?.bind fun sr => sr.nodes[i]? with
    | none => d
    | some _ =>
      let (sent, d) := searchSendGetPeers d si (some i)
      if inflightQueries ≤ j + sent then d else askFrom d si (i + 1) (j + sent) fuel

def finishSearch (d : State) (si : ℕ) (sr : Search) : State :=
  let d := d.modifySearch si fun sr => { sr with done := true, stepTime := d.now }
  { d with events := d.events ++ [.searchDone sr.af sr.id] }

def searchStep (d : State) (si : ℕ) : State :=
  match d.searches[si]? with
  | none => d
  | some sr =>
    if allReplied 0 sr.nodes then
      if sr.port = 0 then finishSearch d si sr
      else
        let (allAcked, d) := announceFrom d si 0 0 true sr.nodes.length
        if allAcked then finishSearch d si sr
        else d.modifySearch si fun sr => { sr with stepTime := d.now }
    else if d.now ≤ sr.stepTime + searchRetransmit then d
    else
      let d := askFrom d si 0 0 sr.nodes.length
      d.modifySearch si fun sr => { sr with stepTime := d.now }

/-- A search is looked at, after the oldest one so far that is done. -/
def olderDone (oldest : Option (ℕ × Search)) (p : Search × ℕ) : Option (ℕ × Search) :=
  if p.1.done then
    match oldest with
    | none => some (p.2, p.1)
    | some (i, sr) => if p.1.stepTime < sr.stepTime then some (p.2, p.1) else some (i, sr)
  else oldest

/-- The oldest search that is done. -/
def oldestDone (searches : List Search) : Option (ℕ × Search) :=
  searches.zipIdx.foldl olderDone none

/-- A search that begins. -/
def Search.blank : Search := ⟨0, .inet, 0, zeroes, 0, false, []⟩

/-- A slot for a search; `enough` tells whether there is memory for a new one. Without a new
one the oldest that is done is looked at, even if none is: the program ends. -/
def newSearch (enough : Bool) (d : State) : Option (ℕ × State) :=
  match (oldestDone d.searches).filter fun p => p.2.stepTime < d.now - searchExpireTime with
  | some (i, _) => some (i, d)
  | none =>
    if d.numsearches < dhtMaxSearches ∧ enough then
      some (0, { d with
        searches := Search.blank :: d.searches, numsearches := d.numsearches + 1 })
    else (oldestDone d.searches).map fun p => (p.1, d)

/-- The nodes of a bucket go into a search. -/
def insertSearchBucket (now : ℤ) (sr : Search) (b : Bucket) : Search :=
  b.nodes.foldl (fun sr n => (insertSearchNode now sr n.id n.ss false none).2) sr

def insertBucketAt (d : State) (af : Af) (sr : Search) (i : Option ℕ) : Search :=
  match i.bind fun i => (d.table af)[i]? with
  | some b => insertSearchBucket d.now sr b
  | none => sr

/-- The bucket of the id, its neighbours and that of the own id, while there is room. -/
def fillSearch (d : State) (sr : Search) (af : Af) (i : ℕ) : Search :=
  let sr := insertBucketAt d af sr (some i)
  let sr := if sr.nodes.length < searchNodes then
      insertBucketAt d af (insertBucketAt d af sr (some (i + 1))) (previousBucket i)
    else sr
  if sr.nodes.length < searchNodes then insertBucketAt d af sr (findBucket d.myid (d.table af))
  else sr

/-- The peers that are stored here. -/
def localValues (id : NodeId) (peers : List Peer) : List Event :=
  peers.filterMap fun peer =>
    if peer.ip.length = 4 then some (.values id (peer.ip ++ htons peer.port))
    else if peer.ip.length = 16 then some (.values6 id (peer.ip ++ htons peer.port))
    else none

def findStorage (storage : List Storage) (id : NodeId) : Option ℕ :=
  storage.findIdx? fun st => idCmp id st.id = .eq

/-- A search that is taken up again keeps the nodes that have replied of late. -/
def Search.restart (now : ℤ) (sr : Search) : Search :=
  let nodes := sr.nodes.filter fun n => !(3 ≤ n.pinged || n.replyTime < now - 7200)
  { sr with
    done := false
    nodes := nodes.map fun n =>
      { n with pinged := 0, token := [], replied := false, acked := false } }

/-- The search that a call is for, prepared: an old one for the same id, or a new one. -/
def openSearch (enough : Bool) (d : State) (id : NodeId) (af : Af) : Option (ℕ × State) :=
  match d.searches.findIdx? fun sr => sr.af = af ∧ idCmp sr.id id = .eq with
  | some si => some (si, d.modifySearch si fun sr => sr.restart d.now)
  | none => do
    let (si, d) ← newSearch enough d
    let tid := d.searchId
    let d := { d with searchId := d.searchId + 1 }
    return (si, d.modifySearch si fun sr =>
      { sr with af := af, tid := tid, stepTime := 0, id := id, done := false, nodes := [] })

/-- The answer to a search that is stored here. -/
def answerLocally (d : State) (id : NodeId) : State :=
  let found := (findStorage d.storage id).bind fun s => d.storage[s]?
  { d with events := d.events ++ localValues id (found.elim [] Storage.peers) }

/-- The first step of a search that has been prepared. -/
def beginSearch (d : State) (si : ℕ) (port : UInt16) (af : Af) (i : ℕ) : State :=
  let d := searchStep
    (d.modifySearch si fun sr => fillSearch d { sr with port := port } af i) si
  { d with searchTime := d.now }

/-- There is a search for this id that is not done. -/
def duplicate (d : State) (id : NodeId) (af : Af) : Bool :=
  match d.searches.find? fun sr => sr.af = af ∧ idCmp sr.id id = .eq with
  | some sr => !sr.done
  | none => false

/-- Start a search; `none` when the program ends. -/
def dhtSearch (enough : Bool) (d : State) (id : NodeId) (port : UInt16) (af : Af) :
    Option (ℤ × State) :=
  match findBucket id (d.table af) with
  | none => some (-1, d)
  | some i => do
    let (si, d') ← openSearch enough (answerLocally d id) id af
    return (if duplicate d id af then 0 else 1, beginSearch d' si port af i)

end SeaStore.Dht
