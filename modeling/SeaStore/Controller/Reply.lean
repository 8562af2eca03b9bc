import SeaStore.Controller.Protocol

/-!
Where the reply to a remote read goes. The message library is asked to allocate
the memory for a reply itself, which means that it stores the address of that
memory in the receive buffer, and its size where it is told to; the caller hands
it the size of the buffer in place of a pointer. No step is looked at for failure.
-/
namespace SeaStore.Controller

open Posix Block

/-- The return codes of `nng_req0_open`, `nng_dial`, `nng_send` and `nng_recv`, the
message that the peer replies with, and what the receive buffer held when it was
allocated. -/
structure Transport where
  opened : ℕ
  dialed : ℕ
  sent : ℕ
  received : ℕ
  reply : Bytes
  heap : Bytes

/-- A message that has been received is not in the buffer, and its size is stored
at the address 10485760, which is no object of the program. -/
def Transport.exchange (t : Transport) : Exchange where
  send := t.sent
  answer := some t.reply
  received := if t.received = 0 then none else some t.heap

def Transport.Succeeds (t : Transport) : Prop :=
  t.opened = 0 ∧ t.dialed = 0 ∧ t.sent = 0 ∧ t.received = 0

/-- Four independent facts of a message. -/
structure Transport.WellFormed (t : Transport) : Prop where
  succeeds : t.Succeeds
  header : dataServerHdrSize ≤ t.reply.length
  error : (DataServerHdr.ofBytes t.reply).error = dataServerErrorNone
  len : (DataServerHdr.ofBytes t.reply).len.toNat = t.reply.length

/-- As it should be: zero is returned for a well-formed reply only, whose data
section is copied as far as the caller's buffer goes; else nothing is written. -/
def GetsChecked (t : Transport) (ip : UInt32) (blockId : UInt64) (recordId bufLen : UInt32) :
    Prop :=
  ∃ result, controllerDataGet t.exchange ip blockId recordId bufLen = some result ∧
    (result.ret = 0 ∧ t.WellFormed ∧
        result.out = some (slice t.reply dataServerHdrSize
          (min (t.reply.length - dataServerHdrSize) bufLen.toNat)) ∨
      result.ret ≠ 0 ∧ result.out = none)

section Get

variable {e : Exchange} {ip : UInt32} {blockId : UInt64} {recordId bufLen : UInt32}

/-- The return code is zero whenever the function returns. -/
theorem controllerDataGet_ret {result : ReadResult}
    (hget : controllerDataGet e ip blockId recordId bufLen = some result) : result.ret = 0 := by
  unfold controllerDataGet at hget
  obtain ⟨⟨ret, received, sent⟩, hclient, hrest⟩ := Option.bind_eq_some_iff.mp hget
  unfold client at hclient
  obtain ⟨buffer, -, hdone⟩ := Option.bind_eq_some_iff.mp hclient
  obtain ⟨rfl, -⟩ := Prod.mk.inj (Option.some.inj hdone)
  by_cases herror : (DataServerHdr.ofBytes received).error = 0
  · simp only [herror, ne_eq, not_true_eq_false, or_self, if_false] at hrest
    split at hrest
    · exact absurd hrest (by simp)
    · rw [← Option.some.inj hrest]
  · simp only [herror, ne_eq, not_true_eq_false, not_false_eq_true, or_true, if_true] at hrest
    rw [← Option.some.inj hrest]

theorem controllerDataGet_not_received (hreceived : e.received = none) :
    controllerDataGet e ip blockId recordId bufLen = none := by
  simp [controllerDataGet, client, hreceived]

end Get

/-- A remote get never does as it should: if a message comes in, its size is
written outside the program's memory, and if none comes in the return code is zero. -/
theorem controllerDataGet_never_getsChecked (t : Transport) (ip : UInt32) (blockId : UInt64)
    (recordId bufLen : UInt32) : ¬ GetsChecked t ip blockId recordId bufLen := by
  intro hchecked
  obtain ⟨result, hget, hresult⟩ := hchecked
  have hfailed : t.received ≠ 0 := by
    intro hreceived
    rw [controllerDataGet_not_received (if_pos hreceived)] at hget
    exact absurd hget (by simp)
  rcases hresult with hzero | hnonzero
  · exact hfailed hzero.2.1.succeeds.2.2.2
  · exact hnonzero.1 (controllerDataGet_ret hget)

def timedOut (size : ℕ) : Transport := ⟨0, 0, 0, 5, [], List.replicate size 0⟩

/-- As many bytes as the caller has room for are taken from the cleared buffer. -/
theorem controllerDataGet_cleared {size : ℕ} (hsize : 32 ≤ size) :
    controllerDataGet (timedOut size).exchange 0 7 1 8 =
      some ⟨0, some (List.replicate 8 0), [(0, getRequest 7 1)]⟩ := by
  have hslice : ∀ pos count, pos + count ≤ size →
      slice (List.replicate size 0) pos count = List.replicate count 0 := by
    intro pos count hle
    rw [slice, List.drop_replicate, List.take_replicate, Nat.min_eq_left (by omega)]
  have hhdr : DataServerHdr.ofBytes (List.replicate size 0) = ⟨0, 0, 0, 0, 0⟩ := by
    simp only [DataServerHdr.ofBytes, hslice 0 1 (by omega), hslice 2 2 (by omega),
      hslice 4 4 (by omega), hslice 8 8 (by omega), hslice 16 8 (by omega)]
    decide
  have hclient : client (timedOut size).exchange 0 (getRequest 7 1) =
      some (0, List.replicate size 0, [(0, getRequest 7 1)]) := by
    have hwhole : (getRequest 7 1).take (DataServerHdr.ofBytes (getRequest 7 1)).len.toNat =
        getRequest 7 1 := by decide +kernel
    simp [client, timedOut, Transport.exchange, hwhole]
  have hcount : (ControllerData.min (0 - UInt32.ofNat dataServerHdrSize) 8).toNat = 8 := by
    decide
  have hlong : ¬ size < dataServerHdrSize + 8 := by
    unfold dataServerHdrSize
    omega
  unfold controllerDataGet
  simp only [hclient, Option.bind_eq_bind, Option.bind_some, hhdr, hcount, ne_eq,
    not_true_eq_false, or_self, if_false, List.length_replicate, hlong]
  rw [hslice dataServerHdrSize 8 (by omega)]
  rfl

/-- Zero is returned, and eight bytes of the buffer are handed to the caller. -/
theorem controllerDataGet_timedOut :
    controllerDataGet (timedOut 10485760).exchange 0 7 1 8 =
        some ⟨0, some (List.replicate 8 0), [(0, getRequest 7 1)]⟩ ∧
      ¬ GetsChecked (timedOut 10485760) 0 7 1 8 := by
  refine ⟨controllerDataGet_cleared (by omega), ?_⟩
  intro hchecked
  obtain ⟨result, hrun, hresult⟩ := hchecked
  rcases hresult with hzero | hnonzero
  · exact Nat.succ_ne_zero 4 hzero.2.1.succeeds.2.2.2
  · exact hnonzero.1 (controllerDataGet_ret hrun)

end SeaStore.Controller
