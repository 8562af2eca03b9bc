import SeaStore.Dht.Packet
import SeaStore.Dht.Search

/-!
The answer to a request for nodes: up to eight good nodes, the closest ones to
the id that is asked for in its bucket and the two next to it.
-/
namespace SeaStore.Dht

open Posix Controller

/-- A node as it is sent; the program is aborted for other families. -/
def compact (n : Node) : Option Bytes :=
  match n.ss with
  | .inet addr port => some (n.id.bytes ++ addr.toList ++ port.toList)
  | .inet6 addr port => some (n.id.bytes ++ addr.toList ++ port.toList)
  | .other _ => none

/-- `insert_closest_node`, into a buffer for eight nodes of one family. -/
def insertClosestNode (id : NodeId) (nodes : List Node) (n : Node) : Option (List Node) :=
  match family n.ss with
  | .other _ => none
  | _ =>
    let (found, i) := placeOf n.id id (nodes.map Node.id)
    if found then some nodes
    else if i = 8 then some nodes
    else some ((nodes.insertIdx i n).take 8)

/-- The good nodes of a bucket. -/
def bufferClosestNodes (d : State) (id : NodeId) (nodes : List Node) (b : Bucket) :
    Option (List Node) :=
  b.nodes.foldlM (fun nodes n => if nodeGood d n then insertClosestNode id nodes n else some nodes)
    nodes

/-- The bucket at a position, if there is one. -/
def bufferAt (d : State) (af : Af) (id : NodeId) (nodes : List Node) (j : ℕ) :
    Option (List Node) :=
  match (d.table af)[j]? with
  | some b => bufferClosestNodes d id nodes b
  | none => some nodes

/-- The bucket of the id, the one behind it and the one before it. -/
def closestNodes (d : State) (af : Af) (id : NodeId) : Option (List Node) :=
  match findBucket id (d.table af) with
  | none => some []
  | some i => do
    let nodes ← bufferAt d af id [] i
    let nodes ← bufferAt d af id nodes (i + 1)
    match previousBucket i with
    | some p => bufferAt d af id nodes p
    | none => some nodes

/-- The families that an answer has nodes of. -/
def wanted (want : ℤ) (sa : Sockaddr) : ℕ :=
  if want ≤ 0 then (if family sa = .inet then want4 else want6) else want.toNat

/-- The closest nodes of a family, if it is wanted. -/
def wantedNodes (d : State) (af : Af) (id : NodeId) (flag : ℕ) : Option (List Node) :=
  if flag ≠ 0 then closestNodes d af id else some []

/-- `send_closest_nodes`; `none` if the program is aborted. -/
def sendClosestNodes (d : State) (sa : Sockaddr) (tid : Bytes) (id : NodeId) (want : ℤ) (af : Af)
    (st : Option Storage) (token : Bytes) : Option State := do
  let nodes ← wantedNodes d .inet id (wanted want sa &&& want4)
  let nodes6 ← wantedNodes d .inet6 id (wanted want sa &&& want6)
  let bytes ← nodes.mapM compact
  let bytes6 ← nodes6.mapM compact
  return sendNodesPeers d sa tid bytes.flatten bytes6.flatten af st token

end SeaStore.Dht
