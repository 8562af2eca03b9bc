import SeaStore.Controller.Remote

/-!
The data server. A request is processed into a send buffer that lives as long
as the server, and then the request itself is sent back. What a message is
freed twice for is not part of the model.
-/
namespace SeaStore.Rest

open Posix Block Controller

/-- The send buffer as the server uses it: a header, and the data section. -/
structure SendBuf where
  hdr : DataServerHdr
  data : Bytes

def sendBufMax : UInt32 := 1024 * 1024 * 10

structure DataServer where
  controller : SeaController
  sendBuf : SendBuf

/-- What the surroundings decide while one request is processed. -/
structure ServerEnv where
  read : ReadEnv
  write : FallbackEnv

/-- The return code, and the number of bytes of the send buffer that are meant. -/
structure Processed where
  ret : ℕ
  sendBufSize : UInt32

/-- A number of 32 bits stored where one of 64 is kept. -/
def storeLow (old : UInt64) (value : UInt32) : UInt64 :=
  UInt64.ofNat (old.toNat / 2 ^ 32 * 2 ^ 32 + value.toNat)

def SendBuf.copy (buf : SendBuf) (out : Option Bytes) : SendBuf :=
  { buf with data := out.getD [] ++ buf.data.drop (out.getD []).length }

variable (idOf : String → UInt64)

def finishProcess (s : DataServer) (ret : ℕ) (sendBufSize : UInt32) : Processed × DataServer :=
  (⟨ret, if ret ≠ 0 then UInt32.ofNat dataServerHdrSize else sendBufSize⟩, s)

/-- `buf` is the request, and `behind` the memory after it: a put takes the
length of the whole request for the length of its data section. -/
def dataServerProcess (e : ServerEnv) (s : DataServer) (buf behind : Bytes) (size : Int32)
    (sendBufSize : UInt32) : Prog (Processed × DataServer) := do
  if (buf ++ behind).length < dataServerHdrSize then .fault
  let hdr := DataServerHdr.ofBytes (buf ++ behind)
  let data := (buf ++ behind).drop dataServerHdrSize
  let sendHdr := s.sendBuf.hdr
  if hdr.len ≠ size.toUInt32 then
    let sendHdr := { sendHdr with error := dataServerErrorUnknown }
    return finishProcess { s with sendBuf.hdr := sendHdr } EINVAL sendBufSize
  let sendHdr := { sendHdr with method := hdr.method, error := dataServerErrorNone }
  if hdr.method = dataServerMethodGet then
    let sendHdr := { sendHdr with blockId := hdr.blockId, recordId := hdr.recordId }
    let result ← seaControllerRead e.read hdr.blockId hdr.recordId.toUInt32
      (sendBufSize - UInt32.ofNat dataServerHdrSize)
    let sendBuf := SendBuf.copy ⟨sendHdr, s.sendBuf.data⟩ result.out
    if result.ret = 0 then
      let retBufLen := UInt32.ofNat (result.out.getD []).length
      return finishProcess { s with sendBuf := sendBuf } 0
        (UInt32.ofNat dataServerHdrSize + retBufLen)
    return finishProcess { s with sendBuf := { sendBuf with hdr.error := dataServerErrorGet } }
      result.ret sendBufSize
  if hdr.method = dataServerMethodPut then
    let (output, controller) ← seaControllerWrite idOf e.write s.controller data hdr.len.toInt32
      sendHdr.recordId.toUInt32
    let sendHdr := { sendHdr with
      blockId := output.blockId, recordId := storeLow sendHdr.recordId output.recordId }
    if output.ret = 0 then
      return finishProcess ⟨controller, ⟨sendHdr, s.sendBuf.data⟩⟩ 0
        (UInt32.ofNat dataServerHdrSize)
    let sendHdr := { sendHdr with error := dataServerErrorPut }
    return finishProcess ⟨controller, ⟨sendHdr, s.sendBuf.data⟩⟩ output.ret sendBufSize
  let sendHdr := { sendHdr with error := dataServerErrorUnknown }
  return finishProcess { s with sendBuf.hdr := sendHdr } EINVAL sendBufSize

/-- One round of the loop, with the message that is sent back. -/
def dataServerHandle (e : ServerEnv) (s : DataServer) (buf behind : Bytes) :
    Prog (Option Bytes × DataServer) := do
  let (processed, s) ←
    dataServerProcess idOf e s buf behind (Int32.ofNat buf.length) sendBufMax
  return (if processed.sendBufSize ≠ 0 then some buf else none, s)

variable {idOf} {t t' : FileTree SeaPath}

/-- Whatever has become of a request, what is sent back is the request. -/
theorem run_dataServerHandle {e : ServerEnv} {s s' : DataServer} {buf behind reply : Bytes}
    (hrun : (dataServerHandle idOf e s buf behind).run serve t = some ((some reply, s'), t')) :
    reply = buf := by
  unfold dataServerHandle at hrun
  rw [Program.run_bind] at hrun
  obtain ⟨⟨⟨processed, s₁⟩, t₁⟩, -, hrest⟩ := Option.bind_eq_some_iff.mp hrun
  obtain ⟨hreply, -⟩ := Prod.mk.inj (Prod.mk.inj (Option.some.inj hrest)).1
  by_cases hsize : processed.sendBufSize = 0
  · simp [hsize] at hreply
  · simp only [hsize, ne_eq, not_false_eq_true, if_true] at hreply
    exact (Option.some.inj hreply).symm

/-- As it should be: the reply to the request of a put names the record, and the
reply to the request of a get for it carries the payload, and says how long it is. -/
def PutGets (idOf : String → UInt64) (t : FileTree SeaPath) (s : DataServer) (put get : ServerEnv)
    (payload : Bytes) (behindPut behindGet : Bytes) : Prop :=
  ∃ reply s₁ t₁ answer s₂ t₂,
    (dataServerHandle idOf put s (putRequest payload (UInt32.ofNat payload.length)) behindPut).run
      serve t = some ((some reply, s₁), t₁) ∧
    (dataServerHandle idOf get s₁ (getRequest (DataServerHdr.ofBytes reply).blockId
      (DataServerHdr.ofBytes reply).recordId.toUInt32) behindGet).run serve t₁ =
        some ((some answer, s₂), t₂) ∧
    (DataServerHdr.ofBytes answer).error = dataServerErrorNone ∧
    (DataServerHdr.ofBytes answer).len.toNat = answer.length ∧
    answer.drop dataServerHdrSize = payload

/-- No payload comes back from a put and a get: the second reply is the request
of the get, which has no data section. -/
theorem dataServer_never_putGets (idOf : String → UInt64) (t : FileTree SeaPath) (s : DataServer)
    (put get : ServerEnv) {payload : Bytes} (hpos : 1 ≤ payload.length)
    (behindPut behindGet : Bytes) : ¬ PutGets idOf t s put get payload behindPut behindGet := by
  intro hputs
  obtain ⟨reply, s₁, t₁, answer, s₂, t₂, -, hget, -, -, hdata⟩ := hputs
  rw [run_dataServerHandle hget, getRequest, List.drop_of_length_le
    (Nat.le_of_eq (DataServerHdr.bytes_length _))] at hdata
  rw [← hdata] at hpos
  exact absurd hpos (by decide)

def freshServer : DataServer :=
  ⟨⟨⟨controllerName, "", 8⟩, none⟩, ⟨⟨0, 0, 0, 0, 0⟩, []⟩⟩

def freshEnv : ServerEnv :=
  ⟨⟨[], ⟨1, none, none⟩⟩,
    ⟨⟨⟨0, .whole⟩, .clear 0, .none, ⟨.clear 0, .whole⟩⟩, 0, 0, [], ⟨1, none, none⟩⟩⟩

/-- A payload of one byte. -/
theorem dataServer_never_putGets_byte :
    ¬ PutGets (fun _ => 7) (fun _ => none) freshServer freshEnv freshEnv [97]
      (List.replicate 24 0) [] :=
  dataServer_never_putGets (fun _ => 7) (fun _ => none) freshServer freshEnv freshEnv (by decide)
    (List.replicate 24 0) []

/-- The byte is stored in block 8 with what lies behind the request, the reply
names block 0, and the next reply has no data. -/
theorem dataServer_echoes_requests :
    ((dataServerHandle (fun _ => 7) freshEnv freshServer (putRequest [97] 1)
        (List.replicate 24 0)).run serve (fun _ => none)).map
          (fun s => (s.1.1, (s.2 (.data dataDir 8)).map File.size)) =
        some (some (putRequest [97] 1), some 41) ∧
      ¬ PutGets (fun _ => 7) (fun _ => none) freshServer freshEnv freshEnv [97]
        (List.replicate 24 0) [] := by
  constructor
  · decide +kernel
  · intro hputs
    obtain ⟨reply, s₁, t₁, answer, s₂, t₂, -, hget, -, -, hdata⟩ := hputs
    rw [run_dataServerHandle hget, getRequest, List.drop_of_length_le
      (Nat.le_of_eq (DataServerHdr.bytes_length _))] at hdata
    exact absurd hdata (List.cons_ne_nil _ _).symm

end SeaStore.Rest
