import SeaStore.Dht.Search

/-!
The routing table. A node that is heard of goes into the bucket of its id, over
a node that is known to be bad if there is one. When the bucket of the own id is
full of good nodes it is split, and its nodes are put in again, which may split
it further; any other bucket keeps its nodes, and the newcomer waits.
-/
namespace SeaStore.Dht

open Posix Controller

/-- A node is put in front of the others. -/
def Bucket.push (n : Node) (b : Bucket) : Bucket :=
  { b with nodes := n :: b.nodes, count := b.count + 1 }

/-- `insert_node`, into the table of the family of the node: it is in, there is no table,
or the bucket must be split. -/
inductive Inserted
  | done (d : State)
  | noTable
  | full (i : ℕ)

def insertNode (d : State) (node : Node) : Inserted :=
  let af := family node.ss
  match findBucket node.id (d.table af) with
  | none => .noTable
  | some i =>
    match (d.table af)[i]? with
    | none => .noTable
    | some b =>
      if b.maxCount ≤ b.count then .full i
      else .done (d.modifyBucket af i (Bucket.push node))

/-- The buckets after the one at position `i` has been split at `mid`: both are empty, and
the one without the own id has as much room as before. -/
def splitAt (myid mid : NodeId) (bs : List Bucket) (i : ℕ) (b : Bucket) : List Bucket :=
  let new : Bucket := ⟨mid, 0, 0, b.time, [], none⟩
  let bs := (bs.modify i fun b => { b with nodes := [], count := 0 }).insertIdx (i + 1) new
  if inBucket myid bs i then
    (bs.modify i fun c => { c with maxCount := max (b.maxCount / 2) 8 }).modify (i + 1)
      fun c => { c with maxCount := b.maxCount }
  else bs.modify (i + 1) fun c => { c with maxCount := max (b.maxCount / 2) 8 }

/-- Splits a bucket, and gives the nodes that must be inserted again. -/
def splitBucketHelper (d : State) (af : Af) (i : ℕ) : Option (List Node × State) := do
  let b ← (d.table af)[i]?
  if !inBucket d.myid (d.table af) i then none
  let mid ← bucketMiddle (d.table af) i b
  let d := sendCachedPing d af i
  let b ← (d.table af)[i]?
  return (b.nodes, d.setTable af (splitAt d.myid mid (d.table af) i b))

/-- The loop over the nodes of a bucket that has been split, with one of them in hand. -/
def reinsert (d : State) (n : Option Node) (nodes : List Node) : ℕ → State
  | 0 => d
  | fuel + 1 =>
    match n, nodes with
    | none, [] => d
    | none, n :: nodes => reinsert d (some n) nodes fuel
    | some n, nodes =>
      match insertNode d n with
      | .noTable => reinsert d none nodes fuel
      | .done d => reinsert d none nodes fuel
      | .full i =>
        if !inBucket d.myid (d.table (family n.ss)) i then reinsert d none nodes fuel
        else
          match splitBucketHelper d (family n.ss) i with
          | none => reinsert d none nodes fuel
          | some (more, d) => reinsert d (some n) (nodes ++ more) fuel

/-- The nodes of all buckets. -/
def nodesOf (bs : List Bucket) : List Node := bs.flatMap Bucket.nodes

/-- As many rounds as the loop may need: at most 160 times all nodes are taken up again. -/
def reinsertFuel (bs : List Bucket) : ℕ := 162 * (2 * (nodesOf bs).length + 4)

/-- The loop may take `extra` rounds more; it never does. -/
def splitBucket (extra : ℕ) (d : State) (af : Af) (i : ℕ) : Option State := do
  let fuel := reinsertFuel (d.table af) + extra
  let (nodes, d) ← splitBucketHelper d af i
  return reinsert d none nodes fuel

/-- What a message from a known node changes. -/
def Node.update (now : ℤ) (sa : Sockaddr) (confirm : ℕ) (n : Node) : Node :=
  if confirm ≠ 0 ∨ n.time < now - 15 * 60 then
    let n := { n with ss := sa, time := if confirm ≠ 0 then now else n.time }
    if 2 ≤ confirm then { n with replyTime := now, pinged := 0, pingedTime := 0 } else n
  else n

/-- A node that has just been learnt of. -/
def Node.fresh (now : ℤ) (id : NodeId) (sa : Sockaddr) (confirm : ℕ) : Node :=
  ⟨id, sa, if confirm ≠ 0 then now else 0, if 2 ≤ confirm then now else 0, 0, 0⟩

/-- Three questions in vain, the last some time ago. -/
def knownBad (now : ℤ) (n : Node) : Bool := 3 ≤ n.pinged && n.pingedTime < now - 15

/-- A reply is of use to the searches as well. -/
def confirmSearch (d : State) (id : NodeId) (sa : Sockaddr) (confirm : ℕ) : State :=
  if confirm = 2 then addSearchNode d id sa else d

/-- The first dubious node that has not been pinged of late is pinged. -/
def pingDubious (d : State) (af : Af) (i : ℕ) (b : Bucket) : State :=
  match b.nodes.findIdx? fun n => !nodeGood d n && n.pingedTime < d.now - 15 with
  | none => d
  | some j =>
    match b.nodes[j]? with
    | none => d
    | some n =>
      (sendPing d n.ss (makeTid 'p' 'n' 0)).modifyNode af i j fun n =>
        { n with pinged := n.pinged + 1, pingedTime := d.now }

def Bucket.touch (now : ℤ) (b : Bucket) : Bucket := { b with time := now }

/-- A reply from one of its nodes confirms a bucket. -/
def touchBucket (d : State) (af : Af) (i confirm : ℕ) : State :=
  if confirm = 2 then d.modifyBucket af i (Bucket.touch d.now) else d

/-- A new node for the bucket of the own id. -/
def stampGrow (d : State) (af : Af) (mybucket : Bool) : State :=
  if mybucket then
    if af = .inet then { d with mybucketGrowTime := d.now }
    else { d with mybucket6GrowTime := d.now }
  else d

/-- No space for this node. Cache it away for later. -/
def cacheAway (d : State) (af : Af) (i : ℕ) (b : Bucket) (sa : Sockaddr) (confirm : ℕ) : State :=
  if confirm ≠ 0 ∨ b.candidate = none then
    d.modifyBucket af i fun b => { b with cached := some sa }
  else d

/-- A node that is not in its bucket `b` takes the place of a bad one or a free one; if there
is neither, the own bucket is split, and the result is that of `again`. -/
def placeNode (extra : ℕ) (again : State → Option (ℕ × ℕ) × State) (d : State) (i : ℕ)
    (b : Bucket) (mybucket : Bool) (id : NodeId) (sa : Sockaddr) (confirm : ℕ) :
    Option (ℕ × ℕ) × State :=
  let af := family sa
  let d := stampGrow d af mybucket
  match b.nodes.findIdx? (knownBad d.now) with
  | some j =>
    let d := d.modifyNode af i j fun _ => Node.fresh d.now id sa confirm
    (some (i, j), confirmSearch d id sa confirm)
  | none =>
    if b.maxCount ≤ b.count then
      let dubious := b.nodes.any fun n => !nodeGood d n
      let d := pingDubious d af i b
      if mybucket && !dubious then
        match splitBucket extra d af i with
        | none => (none, d)
        | some d => again d
      else (none, confirmSearch (cacheAway d af i b sa confirm) id sa confirm)
    else
      let d := d.modifyBucket af i (Bucket.push (Node.fresh d.now id sa confirm))
      (some (i, 0), confirmSearch d id sa confirm)

/-- We just learnt about a node, not necessarily a new one. `confirm` is one if the node
sent a message, two if it sent us a reply. The result is the place of the node. -/
def newNodeRound (extra : ℕ) (again : State → Option (ℕ × ℕ) × State) (d : State) (id : NodeId)
    (sa : Sockaddr) (confirm : ℕ) : Option (ℕ × ℕ) × State :=
  let af := family sa
  match findBucket id (d.table af) with
  | none => (none, d)
  | some i =>
    if idCmp id d.myid = .eq then (none, d)
    else if isMartian sa || nodeBlacklisted d sa then (none, d)
    else
      let mybucket := inBucket d.myid (d.table af) i
      let d := touchBucket d af i confirm
      match (d.table af)[i]? with
      | none => (none, d)
      | some b =>
        match b.nodes.findIdx? fun n => idCmp n.id id = .eq with
        | some j =>
          let d := d.modifyNode af i j (Node.update d.now sa confirm)
          (some (i, j), confirmSearch d id sa confirm)
        | none => placeNode extra again d i b mybucket id sa confirm

def newNodeLoop (extra : ℕ) (d : State) (id : NodeId) (sa : Sockaddr) (confirm : ℕ) :
    ℕ → Option (ℕ × ℕ) × State
  | 0 => (none, d)
  | fuel + 1 =>
    newNodeRound extra (fun d => newNodeLoop extra d id sa confirm fuel) d id sa confirm

/-- The bucket of the own id can be split 160 times. -/
def newNode (d : State) (id : NodeId) (sa : Sockaddr) (confirm : ℕ) : Option (ℕ × ℕ) × State :=
  newNodeLoop 0 d id sa confirm 162

/-- Called periodically to purge known-bad nodes, in the buckets from `i` on. -/
def expireFrom (d : State) (af : Af) (i : ℕ) : ℕ → State
  | 0 => d
  | fuel + 1 =>
    match (d.table af)[i]? with
    | none => d
    | some b =>
      let kept := b.nodes.filter fun n => n.pinged < 4
      let changed := b.nodes.any fun n => 4 ≤ n.pinged
      let d := d.modifyBucket af i fun b =>
        { b with nodes := kept, count := b.count - (b.nodes.length - kept.length) }
      let d := if changed then sendCachedPing d af i else d
      expireFrom d af (i + 1) fuel

def expireBuckets (d : State) (af : Af) : State :=
  let d := expireFrom d af 0 (d.table af).length
  let (r, d) := d.random
  { d with expireStuffTime := d.now + 120 + r % 240 }

/-- The loop that takes an id out of a search steps over the node that has moved into
its place. -/
def flushId (id : NodeId) : List SearchNode → List SearchNode
  | [] => []
  | n :: ns =>
    if idCmp n.id id = .eq then
      match ns with
      | [] => []
      | m :: ms => m :: flushId id ms
    else n :: flushId id ns

/-- Make the node easy to discard. -/
def Node.spoil (n : Node) : Node := { n with pinged := 3 }

def spoilNode (d : State) (id : NodeId) (af : Af) : State :=
  match findNode (d.table af) id with
  | some (i, j) => pinged (d.modifyNode af i j Node.spoil) af i j none
  | none => d

def Search.flush (id : NodeId) (sr : Search) : Search := { sr with nodes := flushId id sr.nodes }

/-- A node that has sent an incorrect message is easy to discard, and its address is not
heard again until ten others have taken its place. -/
def blacklistNode (d : State) (id : NodeId) (sa : Sockaddr) : State :=
  let d := spoilNode d id (family sa)
  { d with
    searches := d.searches.map (Search.flush id)
    blacklist := d.blacklist.set d.nextBlacklisted (some sa)
    nextBlacklisted := d.nextBlacklisted + 1 }

end SeaStore.Dht
