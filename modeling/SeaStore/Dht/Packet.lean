import SeaStore.Dht.State

/-!
The messages that a node sends, put together piece by piece in a buffer of
fixed size, and their sending. The answer to a request has to leave room for
what the request has chosen: its transaction id.
-/
namespace SeaStore.Dht

open Posix Controller

/-- A text of the source. -/
def text (s : String) : Bytes := s.toList.map byteOf

/-- What is printed with `snprintf` and what is copied. -/
inductive Piece
  | print (bytes : Bytes)
  | copy (bytes : Bytes)

def Piece.bytes : Piece → Bytes
  | .print bytes => bytes
  | .copy bytes => bytes

/-- `INC` and `COPY`. A text that fills the buffer to its end loses its last
character to the closing zero. -/
def putPiece (size : ℕ) (buf : Bytes) (piece : Piece) : Option Bytes :=
  if size < buf.length + piece.bytes.length then none
  else
    match piece with
    | .copy bytes => some (buf ++ bytes)
    | .print bytes =>
      if buf.length + bytes.length = size then some (buf ++ bytes.dropLast ++ [0])
      else some (buf ++ bytes)

def assemble (size : ℕ) (pieces : List Piece) : Option Bytes := pieces.foldlM (putPiece size) []

/-- `ADD_V`. -/
def addV (d : State) : List Piece :=
  match d.myV with
  | some v => [.copy (text "1:v4:" ++ v.toList)]
  | none => []

/-- The transaction id behind the text that comes before it. -/
def tidPieces (before : Bytes) (tid : Bytes) : List Piece :=
  [.print (before ++ text "1:t" ++ decimal tid.length ++ text ":"), .copy tid]

/-- The flags of the families that are wanted. -/
def want4 : ℕ := 1

def want6 : ℕ := 2

def wantPieces (want : ℤ) : List Piece :=
  if 0 < want then
    [.print (text "4:wantl" ++ (if want.toNat &&& want4 ≠ 0 then text "2:n4" else []) ++
      (if want.toNat &&& want6 ≠ 0 then text "2:n6" else []) ++ text "e")]
  else []

def pingPieces (d : State) (tid : Bytes) : List Piece :=
  [.print (text "d1:ad2:id20:"), .copy d.myid.bytes] ++ tidPieces (text "e1:q4:ping") tid ++
    addV d ++ [.print (text "1:y1:qe")]

def pongPieces (d : State) (tid : Bytes) : List Piece :=
  [.print (text "d1:rd2:id20:"), .copy d.myid.bytes] ++ tidPieces (text "e") tid ++
    addV d ++ [.print (text "1:y1:re")]

def findNodePieces (d : State) (tid : Bytes) (target : NodeId) (want : ℤ) : List Piece :=
  [.print (text "d1:ad2:id20:"), .copy d.myid.bytes, .print (text "6:target20:"),
      .copy target.bytes] ++
    wantPieces want ++ tidPieces (text "e1:q9:find_node") tid ++ addV d ++
    [.print (text "1:y1:qe")]

def getPeersPieces (d : State) (tid : Bytes) (infohash : NodeId) (want : ℤ) : List Piece :=
  [.print (text "d1:ad2:id20:"), .copy d.myid.bytes, .print (text "9:info_hash20:"),
      .copy infohash.bytes] ++
    wantPieces want ++ tidPieces (text "e1:q9:get_peers") tid ++ addV d ++
    [.print (text "1:y1:qe")]

def announcePeerPieces (d : State) (tid : Bytes) (infohash : NodeId) (port : UInt16)
    (token : Bytes) : List Piece :=
  [.print (text "d1:ad2:id20:"), .copy d.myid.bytes, .print (text "9:info_hash20:"),
      .copy infohash.bytes,
      .print (text "4:porti" ++ decimal port.toNat ++ text "e5:token" ++ decimal token.length ++
        text ":"),
      .copy token] ++
    tidPieces (text "e1:q13:announce_peer") tid ++ addV d ++ [.print (text "1:y1:qe")]

def peerAnnouncedPieces (d : State) (tid : Bytes) : List Piece :=
  [.print (text "d1:rd2:id20:"), .copy d.myid.bytes] ++ tidPieces (text "e") tid ++
    addV d ++ [.print (text "1:y1:re")]

def errorPieces (d : State) (tid : Bytes) (code : ℕ) (message : Bytes) : List Piece :=
  [.print (text "d1:eli" ++ decimal code ++ text "e" ++ decimal message.length ++ text ":"),
      .copy message] ++
    tidPieces (text "e") tid ++ addV d ++ [.print (text "1:y1:ee")]

/-- A port in network order. -/
def htons (port : UInt16) : Bytes := (le16 port).reverse

/-- The peers from `j` on, as a circular list, up to fifty of one family. -/
def peerPieces (len : ℕ) (peers : List Peer) (j0 : ℕ) : ℕ → ℕ → ℕ → List Piece
  | 0, _, _ => []
  | fuel + 1, j, k =>
    let mine := (peers[j]?).filter fun peer => peer.ip.length = len
    let pieces := match mine with
      | some peer =>
        [.print (decimal (len + 2) ++ text ":"), .copy peer.ip, .copy (htons peer.port)]
      | none => []
    let k := if mine.isSome then k + 1 else k
    let j := (j + 1) % peers.length
    if j ≠ j0 ∧ k < 50 then pieces ++ peerPieces len peers j0 fuel j k else pieces

/-- A field of bytes with its length, if there are any. -/
def fieldPieces (name : String) (bytes : Bytes) : List Piece :=
  if bytes = [] then [] else [.print (text name ++ decimal bytes.length ++ text ":"), .copy bytes]

def valuesPieces (peers : List Peer) (af : Af) (j0 : ℕ) : List Piece :=
  if peers = [] then []
  else
    [.print (text "6:valuesl")] ++
      peerPieces (if af = .inet then 4 else 16) peers j0 peers.length j0 0 ++ [.print (text "e")]

def nodesPeersPieces (d : State) (tid nodes nodes6 : Bytes) (values : List Piece)
    (token : Bytes) : List Piece :=
  [.print (text "d1:rd2:id20:"), .copy d.myid.bytes] ++ fieldPieces "5:nodes" nodes ++
    fieldPieces "6:nodes6" nodes6 ++ fieldPieces "5:token" token ++ values ++
    tidPieces (text "e") tid ++ addV d ++ [.print (text "1:y1:re")]

/-- There is a socket for the family. -/
def State.socketOf (d : State) : Af → Bool
  | .inet => d.socket
  | .inet6 => d.socket6
  | .other _ => false

/-- `dht_send`. -/
def dhtSend (d : State) (bytes : Bytes) (confirm : Bool) (sa : Sockaddr) : State :=
  if nodeBlacklisted d sa then d
  else if d.socketOf (family sa) then { d with sent := d.sent ++ [⟨sa, bytes, confirm⟩] }
  else d

/-- A message that fits in its buffer is sent. -/
def emit (d : State) (size : ℕ) (pieces : List Piece) (confirm : Bool) (sa : Sockaddr) : State :=
  match assemble size pieces with
  | some bytes => dhtSend d bytes confirm sa
  | none => d

def sendPing (d : State) (sa : Sockaddr) (tid : Bytes) : State :=
  emit d 512 (pingPieces d tid) false sa

def sendPong (d : State) (sa : Sockaddr) (tid : Bytes) : State :=
  emit d 512 (pongPieces d tid) false sa

def sendFindNode (d : State) (sa : Sockaddr) (tid : Bytes) (target : NodeId) (want : ℤ)
    (confirm : Bool) : State :=
  emit d 512 (findNodePieces d tid target want) confirm sa

def sendGetPeers (d : State) (sa : Sockaddr) (tid : Bytes) (infohash : NodeId) (want : ℤ)
    (confirm : Bool) : State :=
  emit d 512 (getPeersPieces d tid infohash want) confirm sa

/-- The flag is the other way round here. -/
def sendAnnouncePeer (d : State) (sa : Sockaddr) (tid : Bytes) (infohash : NodeId)
    (port : UInt16) (token : Bytes) (confirm : Bool) : State :=
  emit d 512 (announcePeerPieces d tid infohash port token) (!confirm) sa

def sendPeerAnnounced (d : State) (sa : Sockaddr) (tid : Bytes) : State :=
  emit d 512 (peerAnnouncedPieces d tid) false sa

def sendError (d : State) (sa : Sockaddr) (tid : Bytes) (code : ℕ) (message : Bytes) : State :=
  emit d 512 (errorPieces d tid code message) false sa

/-- The slice of the peers begins at a random one. -/
def sendNodesPeers (d : State) (sa : Sockaddr) (tid nodes nodes6 : Bytes) (af : Af)
    (st : Option Storage) (token : Bytes) : State :=
  match st with
  | none => emit d 2048 (nodesPeersPieces d tid nodes nodes6 [] token) false sa
  | some st =>
    if st.peers = [] then emit d 2048 (nodesPeersPieces d tid nodes nodes6 [] token) false sa
    else
      let (r, d) := d.random
      emit d 2048 (nodesPeersPieces d tid nodes nodes6
        (valuesPieces st.peers af (r % st.peers.length)) token) false sa

end SeaStore.Dht
