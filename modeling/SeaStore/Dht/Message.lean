import SeaStore.Dht.Packet

/-!
Messages taken apart. What is looked for is found by its name anywhere in the
message, without regard to where it stands. The message is followed by a zero
byte, which ends all scanning; every access to memory is checked here, so that
one beyond the zero, or beyond the room of a field, would be a fault.
-/
namespace SeaStore.Dht

open Posix Controller

inductive Kind
  | error
  | reply
  | ping
  | findNode
  | getPeers
  | announcePeer
  deriving DecidableEq

/-- `parsed_message`, the lengths being those of the fields. -/
structure Message where
  tid : Bytes
  id : NodeId
  infoHash : NodeId
  target : NodeId
  port : UInt16
  impliedPort : UInt16
  token : Bytes
  nodes : Bytes
  nodes6 : Bytes
  values : Bytes
  values6 : Bytes
  want : ℕ
  deriving DecidableEq

def parseTidLen : ℕ := 16

def parseTokenLen : ℕ := 128

def parseNodesLen : ℕ := 26 * 16

def parseNodes6Len : ℕ := 38 * 16

def parseValuesLen : ℕ := 2048

/-- The message is given up, or memory is accessed that must not be, or a loop does not end
within as many rounds as the message has bytes. -/
inductive Fault
  | unparseable
  | outOfBounds
  | endless
  deriving DecidableEq

abbrev Parse := Except Fault

def memmem : Bytes → Bytes → Option ℕ
  | [], needle => if needle = [] then some 0 else none
  | c :: hay, needle =>
    if needle.isPrefixOf (c :: hay) then some 0 else (memmem hay needle).map (· + 1)

/-- A byte of the message, or the zero behind it. -/
def byteAt (buf : Bytes) (i : ℕ) : Parse UInt8 :=
  match (buf ++ [0])[i]? with
  | some c => .ok c
  | none => .error .outOfBounds

/-- `CHECK`. -/
def checkLen (buf : Bytes) (i : ℕ) (len : ℤ) : Parse Unit :=
  if (buf.length : ℤ) < i + len then .error .unparseable else .ok ()

/-- `memcpy` into a field with room for `room` bytes. -/
def copyAt (buf : Bytes) (i len room : ℕ) : Parse Bytes :=
  if buf.length + 1 < i + len ∨ room < len then .error .outOfBounds
  else .ok (((buf ++ [0]).drop i).take len)

/-- A sign at the front. -/
def signLen (text : Bytes) : ℕ :=
  match text.head? with
  | some c => if c = byteOf '-' ∨ c = byteOf '+' then 1 else 0
  | none => 0

/-- The blanks, the sign and the digits that `strtol` sees. -/
def scanLen (text : Bytes) : ℕ :=
  let blanks := (text.takeWhile isSpace).length
  let sign := signLen (text.drop blanks)
  blanks + sign + ((text.drop (blanks + sign)).takeWhile isDigit).length

/-- How far it gets: behind the last digit, or nowhere if there is none. -/
def numberLen (text : Bytes) : ℕ :=
  let blanks := (text.takeWhile isSpace).length
  let sign := signLen (text.drop blanks)
  if scanLen text = blanks + sign then 0 else scanLen text

/-- `strtol` at a place of the message: the number, and where it ends. -/
def strtolAt (buf : Bytes) (i : ℕ) : Parse (ℤ × ℕ) :=
  let text := (buf ++ [0]).drop i
  if scanLen text < text.length then .ok (atol text, i + numberLen text)
  else .error .outOfBounds

/-- Behind the name its length, a colon and the bytes. -/
def stringField (buf : Bytes) (name : String) (most room : ℕ) : Parse Bytes :=
  match memmem buf (text name) with
  | none => .ok []
  | some p => do
    let (l, q) ← strtolAt buf (p + (text name).length)
    let c ← byteAt buf q
    if c = byteOf ':' ∧ 0 < l ∧ l ≤ most then
      checkLen buf (q + 1) l
      copyAt buf (q + 1) l.toNat room
    else return []

/-- The twenty bytes at the front, or zeros if there are less. -/
def NodeId.ofBytes (bytes : Bytes) : NodeId :=
  ⟨(bytes ++ List.replicate 20 0).take 20, by simp⟩

def idField (buf : Bytes) (name : String) : Parse NodeId :=
  match memmem buf (text name) with
  | none => .ok zeroes
  | some p => do
    checkLen buf (p + (text name).length) 20
    return NodeId.ofBytes (← copyAt buf (p + (text name).length) 20 20)

def numberField (buf : Bytes) (name : String) : Parse UInt16 :=
  match memmem buf (text name) with
  | none => .ok 0
  | some p => do
    let (l, q) ← strtolAt buf (p + (text name).length)
    let c ← byteAt buf q
    return if c = byteOf 'e' ∧ 0 < l ∧ l < 0x10000 then UInt16.ofNat l.toNat else 0

/-- A value goes to the ones of its length, while there is room. -/
def copyValue (buf : Bytes) (i len : ℕ) (values : Bytes) : Parse Bytes :=
  if parseValuesLen < values.length + len then .ok values
  else do
    let value ← copyAt buf i len (parseValuesLen - values.length)
    return values ++ value

/-- The values from place `i` on. -/
def valuesFrom (buf : Bytes) (i : ℕ) (values values6 : Bytes) : ℕ → Parse (Bytes × Bytes)
  | 0 => .error .endless
  | fuel + 1 => do
    let (l, q) ← strtolAt buf i
    let c ← byteAt buf q
    if c = byteOf ':' ∧ 0 < l then
      checkLen buf (q + 1) l
      if l = 6 then
        valuesFrom buf (q + 1 + l.toNat) (← copyValue buf (q + 1) 6 values) values6 fuel
      else if l = 18 then
        valuesFrom buf (q + 1 + l.toNat) values (← copyValue buf (q + 1) 18 values6) fuel
      else valuesFrom buf (q + 1 + l.toNat) values values6 fuel
    else return (values, values6)

def valuesField (buf : Bytes) : Parse (Bytes × Bytes) :=
  match memmem buf (text "6:valuesl") with
  | none => .ok ([], [])
  | some p => valuesFrom buf (p + 9) [] [] (buf.length + 1)

/-- The flags from place `i` on. -/
def wantFrom (buf : Bytes) (i want : ℕ) : ℕ → Parse ℕ
  | 0 => .error .endless
  | fuel + 1 => do
    let c ← byteAt buf i
    if byteOf '0' < c ∧ c ≤ byteOf '9' then
      let colon ← byteAt buf (i + 1)
      let len := digitValue c
      if colon = byteOf ':' ∧ i + 2 + len < buf.length then
        checkLen buf (i + 2) len
        let flag ← copyAt buf (i + 2) len len
        let want :=
          if flag = text "n4" then want ||| want4
          else if flag = text "n6" then want ||| want6
          else want
        wantFrom buf (i + 2 + len) want fuel
      else return want
    else return want

def wantField (buf : Bytes) : Parse ℕ :=
  match memmem buf (text "4:wantl") with
  | none => .ok 0
  | some p => wantFrom buf (p + 7) 0 (buf.length + 1)

/-- What kind of message it is. -/
def kindOf (buf : Bytes) : Parse Kind :=
  let has (name : String) : Bool := (memmem buf (text name)).isSome
  if has "1:y1:r" then .ok .reply
  else if has "1:y1:e" then .ok .error
  else if !has "1:y1:q" then .error .unparseable
  else if has "1:q4:ping" then .ok .ping
  else if has "1:q9:find_node" then .ok .findNode
  else if has "1:q9:get_peers" then .ok .getPeers
  else if has "1:q13:announce_peer" then .ok .announcePeer
  else .error .unparseable

def parseMessage (buf : Bytes) : Parse (Kind × Message) := do
  let tid ← stringField buf "1:t" (parseTidLen - 1) parseTidLen
  let id ← idField buf "2:id20:"
  let infoHash ← idField buf "9:info_hash20:"
  let port ← numberField buf "4:porti"
  let impliedPort ← numberField buf "12:implied_porti"
  let target ← idField buf "6:target20:"
  let token ← stringField buf "5:token" (parseTokenLen - 1) parseTokenLen
  let nodes ← stringField buf "5:nodes" parseNodesLen parseNodesLen
  let nodes6 ← stringField buf "6:nodes6" parseNodes6Len parseNodes6Len
  let (values, values6) ← valuesField buf
  let want ← wantField buf
  let kind ← kindOf buf
  return (kind, ⟨tid, id, infoHash, target, port, impliedPort, token, nodes, nodes6, values,
    values6, want⟩)

end SeaStore.Dht
