import SeaStore.Controller.Protocol

/-!
Reading from and writing to other nodes, when the local log does not do. The
nodes are those of a DHT: a search hands what it finds to a callback, and a
write asks for any good node. A search always ends in an error, so that no read
ever leaves the node.
-/
namespace SeaStore.Controller

open Posix Block

inductive DhtEvent
  | none
  | values
  | values6
  | searchDone
  | searchDone6
  deriving DecidableEq

/-- One call of the callback: `data` is the memory from the pointer on, and
`dataLen` the part of it that is meant. -/
structure DhtCall where
  event : DhtEvent
  data : Option Bytes
  dataLen : ℕ

/-- A peer found by a search: its address as four bytes in memory, and its port. -/
structure DhtPeer where
  address : UInt32
  port : UInt16

/-- Six bytes, the port in network order. -/
def DhtPeer.compact (peer : DhtPeer) : Bytes := le32 peer.address ++ (le16 peer.port).reverse

def DhtCall.found (peers : List DhtPeer) (behind : Bytes) : DhtCall :=
  ⟨.values, some (peers.flatMap DhtPeer.compact ++ behind), 6 * peers.length⟩

def DhtCall.done : DhtCall := ⟨.searchDone, Option.none, 0⟩

/-- `get_data_callback`, for what `*ip` holds: whatever the event, the data is
taken for a `struct sockaddr_in`, whose address is at its fourth byte. -/
def getDataCallback (_ip : UInt32) (call : DhtCall) : Option UInt32 := do
  let sin ← call.data
  if sin.length < 8 then Option.none
  return readLe32 (slice sin 4 4)

/-- The return code is never set to anything else. -/
def dhtListGetNode (calls : List DhtCall) (_blockId : UInt64) (_recordId ip : UInt32) :
    Option (ℕ × UInt32) := do
  let ip ← calls.foldlM getDataCallback ip
  return (EINVAL, ip)

/-- `dht_list_get_nodes` takes the address of `*num` for an `int`, and
`dht_get_nodes` stores the number of nodes through what is left of it: a crash
unless that is all of it. -/
def dhtListGetNodes (numAt : UInt64) (num : ℕ) (nodes : List UInt32) : Option (List UInt32) :=
  if asInt numAt = numAt then some (nodes.take num) else none

/-- Where a node is found it is assigned to the pointer and not to what it
points to. `num4At` is where `num4` lies on the stack. -/
def dhtListGetFreeNode (num4At : UInt64) (nodes : List UInt32) (ip : UInt32) :
    Option (ℕ × UInt32) := do
  let _ ← dhtListGetNodes num4At 1 nodes
  return (0, ip)

/-- The calls of the callback during one read, and the exchange with a node. -/
structure ReadEnv where
  calls : List DhtCall
  exchange : Exchange

def seaControllerRead (e : ReadEnv) (blockId : UInt64) (recordId bufLen : UInt32) :
    Prog ReadResult := do
  let result ← seaControllerReadFromLocal blockId recordId bufLen.toInt32
  if result.ret = 0 then return ⟨0, result.out, []⟩
  let (ret, ip) ← .ofOption (dhtListGetNode e.calls blockId recordId 0)
  if ret ≠ 0 then return ⟨ret, result.out, []⟩
  .ofOption (controllerDataGet e.exchange ip blockId recordId bufLen)

/-- What the surroundings decide when a write falls back on another node: the
local write, what the uninitialised `ip` holds, where `num4` lies on the stack,
the good nodes of the DHT, and the exchange. -/
structure FallbackEnv where
  store : WriteEnv
  ip : UInt32
  num4At : UInt64
  nodes : List UInt32
  exchange : Exchange

variable (idOf : String → UInt64)

/-- `recordId` is what the caller's argument holds before the call. -/
def seaControllerWrite (e : FallbackEnv) (controller : SeaController) (buf : Bytes) (bufLen : Int32)
    (recordId : UInt32) : Prog (WriteOutput × SeaController) := do
  let (result, controller) ← seaControllerWriteLocal idOf e.store controller buf bufLen
  let recordId := result.recordId.getD recordId
  if result.ret = 0 then return (⟨0, result.blockId, recordId, []⟩, controller)
  let (ret, ip) ← .ofOption (dhtListGetFreeNode e.num4At e.nodes e.ip)
  if ret ≠ 0 then return (⟨ret, result.blockId, recordId, []⟩, controller)
  let output ← .ofOption
    (controllerDataSend e.exchange buf bufLen.toUInt32 ip result.blockId recordId)
  return (output, controller)

variable {idOf} {t t' : FileTree SeaPath}

theorem dhtListGetFreeNode_eq (num4At : UInt64) (nodes : List UInt32) (ip : UInt32) :
    dhtListGetFreeNode num4At nodes ip = if asInt num4At = num4At then some (0, ip) else none := by
  unfold dhtListGetFreeNode dhtListGetNodes
  split <;> rfl

/-- A search never reports a node. -/
theorem dhtListGetNode_ret {calls : List DhtCall} {blockId : UInt64} {recordId ip ip' : UInt32}
    {ret : ℕ} (h : dhtListGetNode calls blockId recordId ip = some (ret, ip')) : ret = EINVAL := by
  unfold dhtListGetNode at h
  obtain ⟨_, -, hret⟩ := Option.bind_eq_some_iff.mp h
  exact (congrArg Prod.fst (Option.some.inj hret)).symm

/-- A read sends nothing, and returns zero only with a record of the local log. -/
theorem run_seaControllerRead {e : ReadEnv} {blockId : UInt64} {recordId bufLen : UInt32}
    {result : ReadResult} (hrun : (seaControllerRead e blockId recordId bufLen).run serve t =
      some (result, t')) :
    result.sent = [] ∧ (result.ret = 0 → (seaControllerReadFromLocal blockId recordId
      bufLen.toInt32).run serve t = some (⟨0, result.out⟩, t')) := by
  unfold seaControllerRead at hrun
  rw [Program.run_bind] at hrun
  obtain ⟨⟨localResult, t₁⟩, hlocal, hrest⟩ := Option.bind_eq_some_iff.mp hrun
  by_cases hzero : localResult.ret = 0
  · simp only [hzero, if_true, Program.run_pure] at hrest
    obtain ⟨rfl, rfl⟩ := Prod.mk.inj (Option.some.inj hrest)
    refine ⟨rfl, fun _ => ?_⟩
    rw [hlocal, ← hzero]
  · simp only [hzero, if_false] at hrest
    cases hnode : dhtListGetNode e.calls blockId recordId 0 with
    | none => simp [hnode] at hrest
    | some found =>
      obtain ⟨ret, ip⟩ := found
      obtain rfl := dhtListGetNode_ret hnode
      simp only [hnode, Program.run_bind, Program.run_ofOption_some, Option.bind_some, EINVAL,
        ne_eq, Nat.succ_ne_zero, not_false_eq_true, if_true, Program.run_pure] at hrest
      obtain ⟨rfl, rfl⟩ := Prod.mk.inj (Option.some.inj hrest)
      exact ⟨rfl, fun hret => absurd hret (Nat.succ_ne_zero 21)⟩

/-- As it should be for a record that is not to be had locally: the request
goes to one of the peers that the search has found, and if that peer answers
with the record, its bytes are what is read. -/
def ReadsFromPeer (t : FileTree SeaPath) (e : ReadEnv) (peers : List DhtPeer) (blockId : UInt64)
    (recordId bufLen : UInt32) : Prop :=
  ∃ result t', (seaControllerRead e blockId recordId bufLen).run serve t = some (result, t') ∧
    ∃ peer ∈ peers, result.sent = [(peer.address, getRequest blockId recordId)] ∧
      ∀ hdr bytes, e.exchange.answer = some (DataServerHdr.bytes hdr ++ bytes) →
        hdr.error = dataServerErrorNone → bytes.length ≤ bufLen.toNat →
        result.ret = 0 ∧ result.out = some bytes

/-- The calls of the callback that a search can make: one for each delivery of
peers, and one for the end, or none. -/
def searchCalls (found : List (List DhtPeer × Bytes)) (done : Bool) : List DhtCall :=
  (found.map fun delivery => .found delivery.1 delivery.2) ++ if done then [.done] else []

/-- Whatever peers a search delivers, and whether it comes to its end or not,
the read reaches none of them. -/
theorem seaControllerRead_never_reaches (t : FileTree SeaPath) (found : List (List DhtPeer × Bytes))
    (done : Bool) (exchange : Exchange) (blockId : UInt64) (recordId bufLen : UInt32) :
    ¬ ReadsFromPeer t ⟨searchCalls found done, exchange⟩ (found.flatMap Prod.fst) blockId recordId
      bufLen := by
  intro hreads
  obtain ⟨result, t', hrun, peer, -, hsent, -⟩ := hreads
  rw [(run_seaControllerRead hrun).1] at hsent
  exact absurd hsent (List.cons_ne_nil _ _).symm

/-- One peer, which would answer. -/
theorem seaControllerRead_reaches_no_peer :
    ¬ ReadsFromPeer (fun _ => none)
      ⟨searchCalls [([⟨0x0b00a8c0, 8889⟩], [0, 0])] false,
        ⟨0, some (DataServerHdr.bytes ⟨1, 0, 25, 7, 0⟩ ++ [97]),
          some (DataServerHdr.bytes ⟨1, 0, 25, 7, 0⟩ ++ [97])⟩⟩ [⟨0x0b00a8c0, 8889⟩] 7 0 4 := by
  intro hreads
  obtain ⟨result, t', hrun, peer, -, hsent, -⟩ := hreads
  have heval : ((seaControllerRead ⟨searchCalls [([⟨0x0b00a8c0, 8889⟩], [0, 0])] false,
      ⟨0, some (DataServerHdr.bytes ⟨1, 0, 25, 7, 0⟩ ++ [97]),
        some (DataServerHdr.bytes ⟨1, 0, 25, 7, 0⟩ ++ [97])⟩⟩ 7 0 4).run serve
          (fun _ => none)).map (fun s => s.1.sent) = some [] := by decide +kernel
  rw [hrun] at heval
  rw [show result.sent = [] from Option.some.inj heval] at hsent
  exact absurd hsent (List.cons_ne_nil _ _).symm

end SeaStore.Controller
