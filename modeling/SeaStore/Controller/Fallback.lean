import SeaStore.Block.Crash
import SeaStore.Block.Place
import SeaStore.Controller.Remote

/-!
When a write that returns zero has kept its record. A local write has, if its
block was in order. The fallback crashes where the address of a local variable
does not fit into an `int`. Elsewhere it returns zero whenever it returns: the
address it sends to was never set, a failed exchange is taken for a reply, and a
reply with an error for one without. What is then lost is not lost only by luck.
-/
namespace SeaStore.Controller

open Posix Block

variable (idOf : String → UInt64)

/-- The block that is held is the current one, and the super block's own block
is another. -/
structure Coherent (controller : SeaController) : Prop where
  held : ∀ block, controller.block = some block →
    block.On dataDir controller.superBlock.blockId
  apart : ¬ (controller.superBlock.dir = dataDir ∧
    idOf controller.superBlock.controllerName = controller.superBlock.blockId)

variable {idOf} {t t' : FileTree SeaPath} {controller controller' : SeaController}
  {block : SeaBlock} {p : Payload}

/-- A store of the super block changes its own data file at most. -/
theorem spares_expire {path : SeaPath} {super : SuperBlock}
    (hne : path ≠ .data super.dir (idOf super.controllerName)) (e : StoreEnv) :
    (controllerSuperBlockExpireBlockId idOf e super).Spares path fun _ => True := by
  unfold controllerSuperBlockExpireBlockId syncSuperBlockToDisk
  apply Program.Spares.bind
  apply Program.Spares.bind
  apply readOnly_seaBlockOpen.spares.mono
  intro opened hon
  cases opened with
  | none => trivial
  | some block =>
    apply Program.Spares.bind
    apply (spares_seaBlockUpdate (hon block rfl) hne e.frame 0 (le64 (super.blockId + 1)) 8).mono
    intro result _
    trivial

theorem controllerBlock_on (hsound : Coherent idOf controller) {e : CreateEnv}
    (hrun : (controllerBlock e controller controller.superBlock.blockId).run serve t =
      some (some block, t')) : block.On dataDir controller.superBlock.blockId := by
  unfold controllerBlock at hrun
  cases hheld : controller.block with
  | some held =>
    simp only [hheld] at hrun
    obtain ⟨hblock, -⟩ := Prod.mk.inj (Option.some.inj hrun)
    obtain rfl := Option.some.inj hblock
    exact hsound.held held hheld
  | none =>
    simp only [hheld] at hrun
    rw [Program.run_bind] at hrun
    obtain ⟨⟨opened, t₁⟩, -, hrest⟩ := Option.bind_eq_some_iff.mp hrun
    by_cases hnone : opened.isNone = true
    · simp only [hnone, if_true] at hrest
      rw [Program.run_bind] at hrest
      obtain ⟨⟨ret, t₂⟩, -, hlast⟩ := Option.bind_eq_some_iff.mp hrest
      exact seaBlockOpen_on hlast
    · simp only [hnone] at hrest
      exact seaBlockOpen_on hrest

/-- A local write that returns zero has told the id that its handle counted to,
and has stored its record under it exactly when the block was in order. -/
theorem run_write_zero (hsound : Coherent idOf controller) {e : WriteEnv} {result : WriteResult}
    (hrun : (seaControllerWriteLocal idOf e controller p.bytes p.length).run serve t =
      some ((result, controller'), t')) (hret : result.ret = 0) :
    ∃ block t₁, (controllerBlock e.create controller controller.superBlock.blockId).run serve t =
        some (some block, t₁) ∧
      result.blockId = controller.superBlock.blockId ∧
      result.recordId = some block.index.header.count ∧
      (StoredAt t' dataDir controller.superBlock.blockId block.index.header.count p ↔
        InOrder t₁ dataDir controller.superBlock.blockId block.index.header.count e.ambient p) := by
  unfold seaControllerWriteLocal at hrun
  simp only [controllerSuperBlockGetBlockId] at hrun
  rw [Program.run_bind] at hrun
  obtain ⟨⟨opened, t₁⟩, hblock, hrest⟩ := Option.bind_eq_some_iff.mp hrun
  cases opened with
  | none =>
    obtain ⟨rfl, -⟩ := Prod.mk.inj (Prod.mk.inj (Option.some.inj hrest)).1
    exact absurd hret (Nat.succ_ne_zero 1)
  | some block =>
    simp only [] at hrest
    rw [Program.run_bind] at hrest
    obtain ⟨⟨⟨appended, block'⟩, t₂⟩, happend, hlast⟩ := Option.bind_eq_some_iff.mp hrest
    have hon := controllerBlock_on hsound hblock
    by_cases hzero : appended.ret = 0
    swap
    · simp only [ne_eq, hzero, not_false_eq_true, if_true] at hlast
      obtain ⟨rfl, -⟩ := Prod.mk.inj (Prod.mk.inj (Option.some.inj hlast)).1
      exact absurd hret hzero
    have hack := append_acknowledged hon happend hzero
    refine ⟨block, t₁, hblock, ?_⟩
    simp only [ne_eq, hzero, not_true_eq_false, if_false] at hlast
    by_cases hover : appended.overLimit.getD false = true
    · rw [if_pos hover] at hlast
      rw [Program.run_bind] at hlast
      obtain ⟨⟨super, t₃⟩, hexpire, hdone⟩ := Option.bind_eq_some_iff.mp hlast
      obtain ⟨hpair, rfl⟩ := Prod.mk.inj (Option.some.inj hdone)
      obtain ⟨rfl, -⟩ := Prod.mk.inj hpair
      refine ⟨rfl, hack.recordId, ?_⟩
      have hdata : t₃ (.data dataDir controller.superBlock.blockId) =
          t₂ (.data dataDir controller.superBlock.blockId) := by
        refine ((spares_expire ?_ e.store).run hexpire).2
        simpa using fun h₁ h₂ => hsound.apart ⟨h₁.symm, h₂.symm⟩
      have hindex : t₃ (.index dataDir controller.superBlock.blockId) =
          t₂ (.index dataDir controller.superBlock.blockId) :=
        ((spares_expire (by simp) e.store).run hexpire).2
      rw [StoredAt.congr hdata hindex]
      exact hack.storedAt_iff
    · rw [if_neg hover] at hlast
      obtain ⟨hpair, rfl⟩ := Prod.mk.inj (Option.some.inj hlast)
      obtain ⟨rfl, -⟩ := Prod.mk.inj hpair
      exact ⟨rfl, hack.recordId, hack.storedAt_iff⟩

/-- The local write of a call has returned zero, and the record is stored under
the ids of the call. -/
def StoredLocally (idOf : String → UInt64) (e : FallbackEnv) (controller : SeaController)
    (t t' : FileTree SeaPath) (p : Payload) (output : WriteOutput) : Prop :=
  ∃ result controller', (seaControllerWriteLocal idOf e.store controller p.bytes p.length).run serve
      t = some ((result, controller'), t') ∧ result.ret = 0 ∧
    StoredAt t' dataDir output.blockId output.recordId p

/-- The record has been sent to a node that the DHT has reported, and that node
has answered without an error and with the ids of the call. -/
def StoredRemotely (e : FallbackEnv) (p : Payload) (output : WriteOutput) : Prop :=
  ∃ node ∈ e.nodes, (node, putRequest p.bytes p.length.toUInt32) ∈ output.sent ∧
    ∃ answer, e.exchange.answer = some answer ∧
      (DataServerHdr.ofBytes answer).error = dataServerErrorNone ∧
      (DataServerHdr.ofBytes answer).blockId = output.blockId ∧
      (DataServerHdr.ofBytes answer).recordId.toUInt32 = output.recordId

/-- A write that returns zero has kept its record. -/
def NotLost (idOf : String → UInt64) (e : FallbackEnv) (controller : SeaController)
    (t : FileTree SeaPath) (p : Payload) (recordId : UInt32) : Prop :=
  ∀ output controller' t', (seaControllerWrite idOf e controller p.bytes p.length recordId).run
      serve t = some ((output, controller'), t') → output.ret = 0 →
    StoredLocally idOf e controller t t' p output ∨ StoredRemotely e p output

def BlockInOrder (e : FallbackEnv) (controller : SeaController) (t : FileTree SeaPath)
    (p : Payload) : Prop :=
  ∀ block t₁, (controllerBlock e.store.create controller controller.superBlock.blockId).run serve
      t = some (some block, t₁) →
    InOrder t₁ dataDir controller.superBlock.blockId block.index.header.count e.store.ambient p

/-- Either `nng_recv` does not come back, or the uninitialised address is that
of a good node, to which the request gets, and which answers without an error
and with the ids that the receive buffer holds, if the error in it is zero, and
else the output arguments. -/
def Lucky (e : FallbackEnv) (blockId : UInt64) (recordId : UInt32) : Prop :=
  ∀ received, e.exchange.received = some received →
    e.exchange.send = 0 ∧ e.ip ∈ e.nodes ∧ ∃ answer, e.exchange.answer = some answer ∧
      (DataServerHdr.ofBytes answer).error = dataServerErrorNone ∧
      ((DataServerHdr.ofBytes answer).blockId, (DataServerHdr.ofBytes answer).recordId.toUInt32) =
        if (DataServerHdr.ofBytes received).error = 0 then
          ((DataServerHdr.ofBytes received).blockId,
            (DataServerHdr.ofBytes received).recordId.toUInt32)
        else (blockId, recordId)

section Fallback

variable {e : FallbackEnv} {recordId : UInt32}

theorem putRequest_take (p : Payload) : (putRequest p.bytes p.length.toUInt32).take
    (DataServerHdr.ofBytes (putRequest p.bytes p.length.toUInt32)).len.toNat =
      putRequest p.bytes p.length.toUInt32 := by
  have hlt := p.length_lt
  have hlen := p.toNat_length
  apply List.take_of_length_le
  rw [putRequest, DataServerHdr.ofBytes_message, List.length_append, DataServerHdr.bytes_length,
    p.length_toUInt32, hlen, List.take_length, UInt32.toNat_add, hlen]
  simp only [dataServerHdrSize, UInt32.reduceOfNat, UInt32.reduceToNat]
  omega

/-- A send always returns zero, if it returns. -/
theorem controllerDataSend_eq {received : Bytes} (hreceived : e.exchange.received = some received)
    (p : Payload) (blockId : UInt64) (recordId : UInt32) : ∃ output,
      controllerDataSend e.exchange p.bytes p.length.toUInt32 e.ip blockId recordId =
        some output ∧ output.ret = 0 ∧
      output.sent = (if e.exchange.send = 0 then [(e.ip, putRequest p.bytes p.length.toUInt32)]
        else []) ∧
      (output.blockId, output.recordId) = if (DataServerHdr.ofBytes received).error = 0 then
          ((DataServerHdr.ofBytes received).blockId,
            (DataServerHdr.ofBytes received).recordId.toUInt32)
        else (blockId, recordId) := by
  have hshort : ¬ p.bytes.length < p.length.toUInt32.toNat := by
    rw [p.length_toUInt32, p.toNat_length]
    omega
  have htake := putRequest_take p
  unfold controllerDataSend client
  by_cases herror : (DataServerHdr.ofBytes received).error = 0
  · refine ⟨⟨0, (DataServerHdr.ofBytes received).blockId,
      (DataServerHdr.ofBytes received).recordId.toUInt32,
      if e.exchange.send = 0 then [(e.ip, putRequest p.bytes p.length.toUInt32)] else []⟩, ?_, rfl,
      rfl, ?_⟩
    · simp [hshort, hreceived, htake, herror]
    · rw [if_pos herror]
  · refine ⟨⟨0, blockId, recordId,
      if e.exchange.send = 0 then [(e.ip, putRequest p.bytes p.length.toUInt32)] else []⟩, ?_, rfl,
      rfl, ?_⟩
    · simp [hshort, hreceived, htake, herror]
    · rw [if_neg herror]

variable {result : WriteResult}

/-- After a local write that has returned zero nothing is sent. -/
theorem notLost_of_local (hlocal : (seaControllerWriteLocal idOf e.store controller p.bytes
      p.length).run serve t = some ((result, controller'), t')) (hret : result.ret = 0) :
    NotLost idOf e controller t p recordId ↔
      StoredAt t' dataDir result.blockId (result.recordId.getD recordId) p := by
  have hrun : (seaControllerWrite idOf e controller p.bytes p.length recordId).run serve t =
      some ((⟨0, result.blockId, result.recordId.getD recordId, []⟩, controller'), t') := by
    unfold seaControllerWrite
    rw [Program.run_bind_of_run serve hlocal]
    simp [hret]
  constructor
  · intro hkept
    rcases hkept _ _ _ hrun rfl with hstored | hsent
    · obtain ⟨-, -, -, -, hat⟩ := hstored
      exact hat
    · obtain ⟨node, -, hmem, -⟩ := hsent
      exact absurd hmem List.not_mem_nil
  · intro hat output controller₁ t₁ hrun₁ _
    rw [hrun] at hrun₁
    cases hrun₁
    exact Or.inl ⟨result, controller', hlocal, hret, hat⟩

theorem run_write_fallback (hlocal : (seaControllerWriteLocal idOf e.store controller p.bytes
      p.length).run serve t = some ((result, controller'), t')) (hret : result.ret ≠ 0)
    (recordId : UInt32) :
    (seaControllerWrite idOf e controller p.bytes p.length recordId).run serve t =
      (if asInt e.num4At = e.num4At then controllerDataSend e.exchange p.bytes p.length.toUInt32
        e.ip result.blockId (result.recordId.getD recordId) else none).map
          fun output => ((output, controller'), t') := by
  unfold seaControllerWrite
  rw [Program.run_bind_of_run serve hlocal]
  by_cases hnum4 : asInt e.num4At = e.num4At
  · cases hsend : controllerDataSend e.exchange p.bytes p.length.toUInt32 e.ip result.blockId
        (result.recordId.getD recordId) with
    | none => simp [hret, dhtListGetFreeNode_eq, hnum4, hsend]
    | some output => simp [hret, dhtListGetFreeNode_eq, hnum4, hsend]
  · simp [hret, dhtListGetFreeNode_eq, hnum4]

theorem storedRemotely_iff_lucky {received : Bytes} {output : WriteOutput} {blockId : UInt64}
    (hreceived : e.exchange.received = some received)
    (hsent : output.sent = if e.exchange.send = 0 then
      [(e.ip, putRequest p.bytes p.length.toUInt32)] else [])
    (hids : (output.blockId, output.recordId) =
      if (DataServerHdr.ofBytes received).error = 0 then
        ((DataServerHdr.ofBytes received).blockId,
          (DataServerHdr.ofBytes received).recordId.toUInt32)
      else (blockId, recordId)) :
    StoredRemotely e p output ↔ Lucky e blockId recordId := by
  constructor
  · intro hremote received₁ hreceived₁
    obtain rfl : received = received₁ := Option.some.inj (hreceived.symm.trans hreceived₁)
    obtain ⟨node, hnode, hmem, answer, hanswer, herror, hblock, hrecord⟩ := hremote
    rw [hsent] at hmem
    by_cases hsends : e.exchange.send = 0
    · rw [if_pos hsends, List.mem_singleton] at hmem
      obtain ⟨rfl, -⟩ := Prod.mk.inj hmem
      exact ⟨hsends, hnode, answer, hanswer, herror, by rw [hblock, hrecord, hids]⟩
    · rw [if_neg hsends] at hmem
      exact absurd hmem List.not_mem_nil
  · intro hlucky
    obtain ⟨hsends, hnode, answer, hanswer, herror, hsame⟩ := hlucky received hreceived
    rw [← hids] at hsame
    obtain ⟨hblock, hrecord⟩ := Prod.mk.inj hsame
    refine ⟨e.ip, hnode, ?_, answer, hanswer, herror, hblock, hrecord⟩
    rw [hsent, if_pos hsends]
    exact List.mem_singleton_self _

/-- After one that has not, the call crashes, or the record is kept by luck only. -/
theorem notLost_of_fallback (hlocal : (seaControllerWriteLocal idOf e.store controller p.bytes
      p.length).run serve t = some ((result, controller'), t')) (hret : result.ret ≠ 0) :
    NotLost idOf e controller t p recordId ↔ (asInt e.num4At = e.num4At →
      Lucky e result.blockId (result.recordId.getD recordId)) := by
  have hrun := run_write_fallback hlocal hret recordId
  by_cases hnum4 : asInt e.num4At = e.num4At
  swap
  · rw [if_neg hnum4, Option.map_none] at hrun
    refine iff_of_true ?_ (fun hcut => absurd hcut hnum4)
    intro output controller₁ t₁ hrun₁
    exact absurd (hrun.symm.trans hrun₁) (by simp)
  rw [forall_prop_of_true hnum4]
  rw [if_pos hnum4] at hrun
  cases hreceived : e.exchange.received with
  | none =>
    refine iff_of_true ?_ ?_
    · intro output controller₁ t₁ hrun₁
      rw [hrun] at hrun₁
      simp [controllerDataSend, client, hreceived] at hrun₁
    · intro received hsome
      exact absurd (hreceived.symm.trans hsome) (by simp)
  | some received =>
    obtain ⟨output, hsend, hzero, hsent, hids⟩ :=
      controllerDataSend_eq hreceived p result.blockId (result.recordId.getD recordId)
    rw [hsend, Option.map_some] at hrun
    rw [← storedRemotely_iff_lucky hreceived hsent hids]
    constructor
    · intro hkept
      rcases hkept _ _ _ hrun hzero with hstored | hremote
      · obtain ⟨result₁, controller₁, hlocal₁, hret₁, -⟩ := hstored
        rw [hlocal] at hlocal₁
        cases hlocal₁
        exact absurd hret₁ hret
      · exact hremote
    · intro hremote output₁ controller₁ t₁ hrun₁ _
      rw [hrun] at hrun₁
      cases hrun₁
      exact Or.inr hremote

end Fallback

/-- A write that returns zero has kept its record exactly when the local write
returned zero on a block in order, or returned an error and the fallback crashed
or was lucky. -/
theorem seaControllerWrite_notLost_iff (hsound : Coherent idOf controller) (e : FallbackEnv)
    (t : FileTree SeaPath) (p : Payload) (recordId : UInt32) :
    NotLost idOf e controller t p recordId ↔
      ∀ result controller' t', (seaControllerWriteLocal idOf e.store controller p.bytes
          p.length).run serve t = some ((result, controller'), t') →
        if result.ret = 0 then BlockInOrder e controller t p
        else asInt e.num4At = e.num4At →
          Lucky e result.blockId (result.recordId.getD recordId) := by
  cases hlocal : (seaControllerWriteLocal idOf e.store controller p.bytes p.length).run serve t with
  | none =>
    refine iff_of_true ?_ (fun _ _ _ h => absurd h (by simp))
    intro output controller' t' hrun
    unfold seaControllerWrite at hrun
    rw [Program.run_bind, hlocal] at hrun
    exact absurd hrun (by simp)
  | some written =>
    obtain ⟨⟨result, controller'⟩, t'⟩ := written
    have hcond : (∀ result₁ controller₁ t₁, some ((result, controller'), t') =
        some ((result₁, controller₁), t₁) → if result₁.ret = 0 then BlockInOrder e controller t p
          else asInt e.num4At = e.num4At →
            Lucky e result₁.blockId (result₁.recordId.getD recordId)) ↔
        if result.ret = 0 then BlockInOrder e controller t p
          else asInt e.num4At = e.num4At →
            Lucky e result.blockId (result.recordId.getD recordId) := by
      constructor
      · intro hall
        exact hall result controller' t' rfl
      · intro hone result₁ controller₁ t₁ hsame
        cases hsame
        exact hone
    rw [hcond]
    by_cases hret : result.ret = 0
    · rw [if_pos hret, notLost_of_local hlocal hret]
      obtain ⟨block, t₁, hblock, hid, hrecord, hstored⟩ := run_write_zero hsound hlocal hret
      rw [hid, hrecord, Option.getD_some, hstored]
      constructor
      · intro horder block₁ t₂ hblock₁
        rw [hblock] at hblock₁
        cases hblock₁
        exact horder
      · intro horder
        exact horder block t₁ hblock
    · rw [if_neg hret]
      exact notLost_of_fallback hlocal hret

def freshController : SeaController := ⟨⟨controllerName, "", 8⟩, none⟩

/-- The disk is full, so that the frame of a local write fails. -/
def fullDisk : WriteEnv := ⟨⟨0, .whole⟩, .clear 0, ⟨.error 28, .whole, .whole⟩, ⟨.clear 0, .whole⟩⟩

theorem fullDisk_fails : ((seaControllerWriteLocal (fun _ => 7) fullDisk freshController
    (Payload.single 97).bytes (Payload.single 97).length).run serve (fun _ => none)).map
      (fun s => s.1.1) = some ⟨ENOENT, 8, none⟩ := by decide +kernel

theorem freshController_coherent : Coherent (fun _ => 7) freshController :=
  ⟨fun _ h => absurd h (by simp [freshController]), by simp [freshController]⟩

/-- The stack is at the lower end of the memory, the uninitialised address
happens to be the node's, and its answer is what the receive buffer holds. -/
theorem seaControllerWrite_notLost_lucky :
    NotLost (fun _ => 7) ⟨fullDisk, 0x0b00a8c0, 0x7ffffffc, [0x0b00a8c0],
      ⟨0, some (DataServerHdr.bytes ⟨2, 0, 24, 9, 3⟩), some (DataServerHdr.bytes ⟨2, 0, 24, 9, 3⟩)⟩⟩
      freshController (fun _ => none) (.single 97) 0 := by
  apply (seaControllerWrite_notLost_iff freshController_coherent _ (fun _ => none)
    (.single 97) 0).mpr
  intro result controller' t' hrun
  have hresult := fullDisk_fails
  rw [hrun] at hresult
  obtain rfl : result = ⟨ENOENT, 8, none⟩ := Option.some.inj hresult
  rw [if_neg (by decide)]
  intro _ received hreceived
  obtain rfl := Option.some.inj hreceived
  exact ⟨rfl, List.mem_singleton_self _, _, rfl, by decide, by decide⟩

def unanswered (store : WriteEnv) (num4At : UInt64) : FallbackEnv :=
  ⟨store, 0x0100007f, num4At, [], ⟨1, none, some (List.replicate 24 0)⟩⟩

/-- The first append of another process has died after its index entry. A record
written after it is told the id of an entry that leads to the other one. And with
the stack at the lower end of the memory a write returns zero without any node
or answer, as long as the receive buffer has zeros for the error. -/
theorem seaControllerWrite_loses_record :
    (∃ w, crashRun dataDir 8 (fun _ => none) 0 0 0 [.crash (.clear 0) (.single 97) .afterEntry] =
        some w ∧
      ¬ NotLost (fun _ => 7) (unanswered ⟨⟨0, .whole⟩, .clear 0, .none, ⟨.clear 0, .whole⟩⟩
        0x7ffd12345678) freshController w.tree (.single 98) 0) ∧
    ¬ NotLost (fun _ => 7) (unanswered fullDisk 0x7ffffffc) freshController (fun _ => none)
      (.single 97) 0 := by
  constructor
  · obtain ⟨w, hw, hmap⟩ := Option.bind_eq_some_iff.mp (show
      (crashRun dataDir 8 (fun _ => none) 0 0 0
        [.crash (.clear 0) (.single 97) .afterEntry]).bind (fun w =>
          ((seaControllerWrite (fun _ => 7)
            (unanswered ⟨⟨0, .whole⟩, .clear 0, .none, ⟨.clear 0, .whole⟩⟩ 0x7ffd12345678)
            freshController (Payload.single 98).bytes (Payload.single 98).length 0).run serve
              w.tree).map (fun s => (s.1.1,
                ((queryFresh dataDir 8 0 1).run serve s.2).map Prod.fst))) =
      some (⟨0, 8, 0, []⟩, some ⟨0, some [97]⟩) by decide +kernel)
    obtain ⟨⟨⟨output, controller'⟩, t'⟩, hrun, hval⟩ := Option.map_eq_some_iff.mp hmap
    obtain ⟨rfl, hquery⟩ := Prod.mk.inj hval
    have hnot : ¬ ReadsBack t' dataDir 8 0 (.single 98) := not_readsBack hquery (by decide)
    refine ⟨w, hw, ?_⟩
    intro hkept
    rcases hkept _ controller' t' hrun rfl with hlocal | hremote
    · obtain ⟨-, -, -, -, hstored⟩ := hlocal
      exact hnot (StoredAt.readsBack hstored)
    · obtain ⟨node, hmem, -⟩ := hremote
      exact absurd hmem List.not_mem_nil
  · intro hkept
    obtain ⟨written, hrun, hzero⟩ := Option.map_eq_some_iff.mp (show
      ((seaControllerWrite (fun _ => 7) (unanswered fullDisk 0x7ffffffc) freshController
        (Payload.single 97).bytes (Payload.single 97).length 0).run serve (fun _ => none)).map
          (fun s => s.1.1.ret) = some 0 by decide +kernel)
    obtain ⟨⟨output, controller'⟩, t'⟩ := written
    rcases hkept output controller' t' hrun hzero with hlocal | hremote
    · obtain ⟨result, controller₁, hwrite, hret, -⟩ := hlocal
      have hresult := fullDisk_fails
      rw [show (unanswered fullDisk 0x7ffffffc).store = fullDisk from rfl] at hwrite
      rw [hwrite] at hresult
      obtain rfl : result = ⟨ENOENT, 8, none⟩ := Option.some.inj hresult
      exact absurd hret (Nat.succ_ne_zero 1)
    · obtain ⟨node, hmem, -⟩ := hremote
      exact absurd hmem List.not_mem_nil

end SeaStore.Controller
