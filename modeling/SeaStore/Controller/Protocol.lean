import SeaStore.Controller.Controller

/-!
What one node says to another: a header of twenty-four bytes and a data section
behind it. A client sends a request and takes what its receive buffer then
holds for the reply, whether one has arrived or not. What the message library
makes of the buffer is not known here and left open.
-/
namespace SeaStore.Controller

open Posix Block

/-- `struct data_server_hdr`; a pad byte follows the method. -/
structure DataServerHdr where
  method : UInt8
  error : UInt16
  len : UInt32
  blockId : UInt64
  recordId : UInt64
  deriving DecidableEq

def dataServerHdrSize : ℕ := 24

def dataServerMethodGet : UInt8 := 1

def dataServerMethodPut : UInt8 := 2

def dataServerErrorNone : UInt16 := 0

def dataServerErrorGet : UInt16 := 1

def dataServerErrorPut : UInt16 := 2

def dataServerErrorUnknown : UInt16 := 3

namespace DataServerHdr

def bytes (hdr : DataServerHdr) : Bytes :=
  [hdr.method, 0] ++ le16 hdr.error ++ le32 hdr.len ++ le64 hdr.blockId ++ le64 hdr.recordId

def ofBytes (b : Bytes) : DataServerHdr where
  method := UInt8.ofNat (leNat (slice b 0 1))
  error := readLe16 (slice b 2 2)
  len := readLe32 (slice b 4 4)
  blockId := readLe64 (slice b 8 8)
  recordId := readLe64 (slice b 16 8)

@[simp] theorem bytes_length (hdr : DataServerHdr) : hdr.bytes.length = dataServerHdrSize := by
  simp [bytes, dataServerHdrSize]

theorem ofBytes_message (hdr : DataServerHdr) (data : Bytes) :
    ofBytes (hdr.bytes ++ data) = hdr := by
  have hmethod : ∀ b : UInt8, UInt8.ofNat (leNat [b]) = b := by
    intro b
    simp [leNat]
  simp (disch := simp) only [ofBytes, bytes, slice_append_left, slice_append_right, slice_whole,
    List.length_append, List.length_cons, List.length_nil, le64_length, le32_length, le16_length,
    readLe64_le64, readLe32_le32, readLe16_le16, Nat.reduceAdd, Nat.reduceSub]
  simp [slice, hmethod]

end DataServerHdr

/-- A message, and the address of the node that it has been sent to. -/
abbrev Sent := UInt32 × Bytes

/-- What becomes of one exchange: the return code of `nng_send`, what the node
at the address answers if the request gets there, and the memory of the receive
buffer after `nng_recv`, none where that call does not come back. -/
structure Exchange where
  send : ℕ
  answer : Option Bytes
  received : Option Bytes

/-- The return code, the receive buffer, and what has been sent. Every return
code of the library is printed and forgotten. -/
def client (e : Exchange) (ip : UInt32) (hdr : Bytes) : Option (ℕ × Bytes × List Sent) := do
  let sent := if e.send = 0 then [(ip, hdr.take (DataServerHdr.ofBytes hdr).len.toNat)] else []
  let received ← e.received
  return (0, received, sent)

def getRequest (blockId : UInt64) (recordId : UInt32) : Bytes :=
  DataServerHdr.bytes
    { method := dataServerMethodGet, error := 0, len := UInt32.ofNat dataServerHdrSize,
      blockId := blockId, recordId := recordId.toUInt64 }

def putRequest (buf : Bytes) (bufLen : UInt32) : Bytes :=
  DataServerHdr.bytes
    { method := dataServerMethodPut, error := 0, len := bufLen + UInt32.ofNat dataServerHdrSize,
      blockId := 0, recordId := 0 } ++ buf.take bufLen.toNat

/-- The return code of a read, what has been copied to the caller's buffer, and
what has been sent. -/
structure ReadResult where
  ret : ℕ
  out : Option Bytes
  sent : List Sent

/-- The smaller of the two. -/
def ControllerData.min (a b : UInt32) : UInt32 := if b < a then b else a

/-- A reply with an error is dropped, and the return code stays that of `client`. -/
def controllerDataGet (e : Exchange) (ip : UInt32) (blockId : UInt64) (recordId : UInt32)
    (bufLen : UInt32) : Option ReadResult := do
  let (ret, received, sent) ← client e ip (getRequest blockId recordId)
  let hdr := DataServerHdr.ofBytes received
  if ret ≠ 0 ∨ hdr.error ≠ 0 then return ⟨ret, none, sent⟩
  let retBufLen := ControllerData.min (hdr.len - UInt32.ofNat dataServerHdrSize) bufLen
  if received.length < dataServerHdrSize + retBufLen.toNat then none
  return ⟨0, some (slice received dataServerHdrSize retBufLen.toNat), sent⟩

/-- The return code of a write, its two output arguments, and what has been sent. -/
structure WriteOutput where
  ret : ℕ
  blockId : UInt64
  recordId : UInt32
  sent : List Sent
  deriving DecidableEq

/-- The ids are what the output arguments held before, unless a reply without
an error puts others there. -/
def controllerDataSend (e : Exchange) (buf : Bytes) (bufLen ip : UInt32) (blockId : UInt64)
    (recordId : UInt32) : Option WriteOutput := do
  if buf.length < bufLen.toNat then none
  let (ret, received, sent) ← client e ip (putRequest buf bufLen)
  let hdr := DataServerHdr.ofBytes received
  if ret ≠ 0 ∨ hdr.error ≠ 0 then return ⟨ret, blockId, recordId, sent⟩
  return ⟨0, hdr.blockId, hdr.recordId.toUInt32, sent⟩

end SeaStore.Controller
