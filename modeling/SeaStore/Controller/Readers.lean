import SeaStore.Controller.Writer
import SeaStore.Posix.Run

/-!
One writer and any number of readers of the data directory, with their calls
interleaved in any order. The writer's calls publish, whoever looks; a reader
withstands whatever is published between two of its own calls. No read is torn,
and no record is missed whose write had returned when the read began.
-/
namespace SeaStore.Controller

open Posix Block

/-- The writer between two calls of the controller, or within a write. -/
inductive Writer
  | idle (controller : SeaController)
  | busy (w : WriteCall) (rest : Prog (WriteResult × SeaController))

/-- Records that writes have returned, each with the place it was told. -/
abbrev Acked := List ((UInt64 × UInt32) × Bytes)

/-- A read: what it asks for, and what had been acknowledged when it began. -/
structure ReadCall where
  blockId : UInt64
  recordId : UInt32
  bufLen : Int32
  before : Acked

structure SharedLog where
  tree : FileTree SeaPath
  pending : List WriteCall
  writer : Writer
  acked : Acked
  readers : List (ReadCall × Prog QueryResult)
  answers : List (ReadCall × QueryResult)

/-- Whose turn it is: the writer's, a new reader's, or a reader's that has begun. -/
inductive Turn
  | write
  | start (blockId : UInt64) (recordId : UInt32) (bufLen : Int32)
  | read (i : ℕ)

variable (idOf : String → UInt64) (dir : String)

/-- The record of a write that has returned zero. -/
def WriteCall.acknowledge (w : WriteCall) (result : WriteResult) : Acked :=
  if result.ret = 0 then
    (result.recordId.map fun recordId =>
      ((result.blockId, recordId), w.buf.take w.bufLen.toUInt32.toNat)).toList
  else []

/-- A turn is the start of a write, one system call, or a return. -/
def sharedStep (s : SharedLog) : Turn → Option SharedLog
  | .write =>
    match s.writer with
    | .idle controller =>
      match s.pending with
      | [] => none
      | w :: pending => some { s with
          pending := pending, writer := .busy w (w.program idOf controller) }
    | .busy w rest =>
      match rest.value with
      | some (result, controller) => some { s with
          writer := .idle controller, acked := s.acked ++ w.acknowledge result }
      | none => do
        let (rest, tree) ← rest.advance serve s.tree
        return { s with tree := tree, writer := .busy w rest }
  | .start blockId recordId bufLen => do
    let (rest, tree) ←
      (seaControllerReadFromLocal blockId recordId bufLen).advance serve s.tree
    return { s with
      tree := tree, readers := s.readers ++ [(⟨blockId, recordId, bufLen, s.acked⟩, rest)] }
  | .read i => do
    let (call, rest) ← s.readers[i]?
    match rest.value with
    | some result => return { s with
        readers := s.readers.eraseIdx i, answers := s.answers ++ [(call, result)] }
    | none => do
      let (rest, tree) ← rest.advance serve s.tree
      return { s with tree := tree, readers := s.readers.set i (call, rest) }

/-- A controller is created, and then it is the turn of whoever comes next. -/
def sharedRun (t : FileTree SeaPath) (now garbage : UInt64) (writes : List WriteCall)
    (turns : List Turn) : Option SharedLog := do
  let (controller, tree) ← (seaControllerCreate idOf ⟨⟨now, .whole⟩, garbage⟩ dir).run serve t
  runSteps (sharedStep idOf) ⟨tree, writes, .idle controller, [], [], []⟩ turns

/-- What a read may return, when the records belong where `log` says: all of a
record or an error, and the record if it had been acknowledged and fits. -/
structure Whole (log : Acked) (call : ReadCall) (result : QueryResult) : Prop where
  untorn : result.ret = 0 → ∃ bytes, ((call.blockId, call.recordId), bytes) ∈ log ∧
    result.out = some bytes
  found : ∀ bytes, ((call.blockId, call.recordId), bytes) ∈ call.before →
    (bytes.length : ℤ) ≤ call.bufLen.toInt → result = ⟨0, some bytes⟩

section Invariant

variable (recs : List Payload)

/-- What is left of a read gives a whole record, whatever is published. -/
structure ReaderSound (t : FileTree SeaPath) (call : ReadCall) (rest : Prog QueryResult) :
    Prop where
  before : ∀ entry ∈ call.before, entry ∈ paired (idOf controllerName) recs
  quiet : rest.Quiet serve
  answers : rest.Withstands serve (Publishes (placesOf (idOf controllerName) recs))
    (fun result _ => Answers call.bufLen
      (∀ bytes, ((call.blockId, call.recordId), bytes) ∉ call.before)
      (placesOf (idOf controllerName) recs (call.blockId, call.recordId)) result) t

/-- A write that began after `n` records has returned. -/
structure Returned (n : ℕ) (pending : List WriteCall) (w : WriteCall) (result : WriteResult)
    (controller : SeaController) (t : FileTree SeaPath) (m : ℕ) : Prop where
  idle : Idle idOf dir recs m t controller
  rest : recs.drop m = pending.filterMap WriteCall.record
  acked : (paired (idOf controllerName) recs).take m =
    (paired (idOf controllerName) recs).take n ++ w.acknowledge result
  published : ∀ entry ∈ w.acknowledge result, Published t entry.1

/-- After `n` records the writer is idle, or what is left of its write publishes. -/
def WriterSound (n : ℕ) (pending : List WriteCall) (t : FileTree SeaPath) : Writer → Prop
  | .idle controller => Idle idOf dir recs n t controller ∧
      recs.drop n = pending.filterMap WriteCall.record
  | .busy w rest => rest.Steps serve (Publishes (placesOf (idOf controllerName) recs)) t ∧
      ∀ result controller t', rest.run serve t = some ((result, controller), t') →
        ∃ m, Returned idOf dir recs n pending w result controller t' m

structure Sound (s : SharedLog) : Prop where
  visible : Shows (placesOf (idOf controllerName) recs) s.tree
  writer : ∃ n, s.acked = (paired (idOf controllerName) recs).take n ∧
    WriterSound idOf dir recs n s.pending s.tree s.writer
  published : ∀ entry ∈ s.acked, Published s.tree entry.1
  readers : ∀ reader ∈ s.readers, ReaderSound idOf recs s.tree reader.1 reader.2
  answers : ∀ answer ∈ s.answers, Whole (paired (idOf controllerName) recs) answer.1 answer.2

end Invariant

variable {idOf dir} {recs : List Payload} {t t' : FileTree SeaPath}

section Reads

variable {call : ReadCall} {rest rest' : Prog QueryResult} {blockId : UInt64}
  {recordId : UInt32} {bufLen : Int32} {before : Acked}

theorem view_of_shows {places : Places} (hshows : Shows places t)
    (hpub : ∀ bytes, ((blockId, recordId), bytes) ∈ before → Published t (blockId, recordId)) :
    View blockId recordId (∀ bytes, ((blockId, recordId), bytes) ∉ before)
      (places (blockId, recordId)) t := by
  have hmay : ¬ Published t (blockId, recordId) →
      ∀ bytes, ((blockId, recordId), bytes) ∉ before :=
    fun hnot bytes hmem => hnot (hpub bytes hmem)
  rcases hshows blockId with hnone | ⟨f, g, hpresent, hcounted⟩
  · left
    refine ⟨hnone, hmay ?_⟩
    rintro ⟨f, g, hpresent, -⟩
    exact absurd (hpresent.data.symm.trans hnone) (by simp)
  · right
    refine ⟨f, g, hpresent, ?_⟩
    by_cases hlt : recordId < headerCount g
    · exact Or.inr ⟨hlt, hcounted recordId hlt⟩
    · left
      refine ⟨UInt32.not_lt.mp hlt, hmay ?_⟩
      rintro ⟨f', g', hpresent', hlt'⟩
      obtain rfl : g' = g := Option.some.inj (hpresent'.index.symm.trans hpresent.index)
      exact hlt hlt'

theorem readerSound_start (hshows : Shows (placesOf (idOf controllerName) recs) t)
    (hbefore : ∀ entry ∈ before, entry ∈ paired (idOf controllerName) recs)
    (hpub : ∀ entry ∈ before, Published t entry.1) :
    ReaderSound idOf recs t ⟨blockId, recordId, bufLen, before⟩
      (seaControllerReadFromLocal blockId recordId bufLen) := by
  refine ⟨hbefore, quiet_queryFresh _ _ _ _, ?_⟩
  apply withstands_seaControllerReadFromLocal
    (R := Publishes (placesOf (idOf controllerName) recs)) And.left Publishes.trans
  intro t' ht
  apply view_of_shows (ht.2 hshows)
  intro bytes hmem
  exact (hpub _ hmem).grows ht.1

theorem ReaderSound.publishes (h : ReaderSound idOf recs t call rest)
    (ht : Publishes (placesOf (idOf controllerName) recs) t t') :
    ReaderSound idOf recs t' call rest :=
  ⟨h.before, h.quiet, h.answers.later Publishes.trans (fun _ _ _ hanswer _ => hanswer) ht⟩

theorem ReaderSound.advance (h : ReaderSound idOf recs t call rest)
    (ha : rest.advance serve t = some (rest', t')) :
    t' = t ∧ ReaderSound idOf recs t call rest' := by
  obtain ⟨rfl, hquiet⟩ := h.quiet.advance ha
  exact ⟨rfl, h.before, hquiet, h.answers.advance (Publishes.refl _) ha⟩

/-- A read that returns gives all of a record. -/
theorem ReaderSound.whole (h : ReaderSound idOf recs t call rest)
    (hfew : recs.length ≤ 2 ^ 64 * blockMax) {result : QueryResult}
    (hvalue : rest.value = some result) :
    Whole (paired (idOf controllerName) recs) call result := by
  have hanswer := h.answers
  rw [Program.eq_pure_of_value hvalue] at hanswer
  rcases hanswer with ⟨rfl, hnever⟩ | ⟨p, hp, rfl⟩
  · constructor
    · intro hret
      exact absurd hret (by decide)
    · intro bytes hmem
      exact absurd hmem (hnever bytes)
  · constructor
    · intro hret
      by_cases hshort : call.bufLen.toUInt32 < UInt32.ofNat p.bytes.length
      · rw [if_pos hshort] at hret
        exact absurd hret (by decide)
      · rw [if_neg hshort]
        exact ⟨p.bytes, hp, rfl⟩
    · intro bytes hmem hfit
      -- there is one record at this place
      obtain rfl : p.bytes = bytes := by
        have hnodup : ((paired (idOf controllerName) recs).map Prod.fst).Nodup := paired_nodup hfew
        have heq := List.inj_on_of_nodup_map hnodup hp (h.before _ hmem) rfl
        exact congrArg Prod.snd heq
      rw [if_neg (bufLen_lt_iff p hfit)]

end Reads

section Writes

variable {w : WriteCall} {n : ℕ} {pending : List WriteCall} {controller : SeaController}

theorem paired_take_succ {base : UInt64} {p : Payload} (hp : recs[n]? = some p) :
    (paired base recs).take (n + 1) = (paired base recs).take n ++ [(place base n, p.bytes)] := by
  have hget : (paired base recs)[n]? = some (place base n, p.bytes) := by
    rw [paired, List.getElem?_mapIdx, hp]
    rfl
  rw [List.take_add_one, hget, Option.toList_some]

theorem acknowledge_record {p : Payload} (h : w.record = some p) (blockId : UInt64)
    (recordId : UInt32) :
    w.acknowledge ⟨0, blockId, some recordId⟩ = [((blockId, recordId), p.bytes)] := by
  obtain ⟨hlen, -, hbytes⟩ := payloadOf_eq_some h
  rw [hbytes, WriteCall.acknowledge, if_pos rfl, hlen, p.length_toUInt32, p.toNat_length]
  rfl

theorem writerSound_start (hfew : recs.length < 2 ^ 64 * blockMax)
    (h : Idle idOf dir recs n t controller)
    (hrest : recs.drop n = (w :: pending).filterMap WriteCall.record) :
    WriterSound idOf dir recs n pending t (.busy w (w.program idOf controller)) := by
  cases hrecord : w.record with
  | none =>
    rw [List.filterMap_cons_none hrecord] at hrest
    obtain ⟨hsteps, hrefuse⟩ := h.refuse hrecord
    refine ⟨hsteps, ?_⟩
    intro result controller' t' hrun
    obtain ⟨hret, hidle⟩ := hrefuse result controller' t' hrun
    have hack : w.acknowledge result = [] := if_neg hret
    refine ⟨n, hidle, hrest, ?_, ?_⟩
    · rw [hack, List.append_nil]
    · rw [hack]
      intro entry hmem
      exact absurd hmem (List.not_mem_nil)
  | some p =>
    rw [List.filterMap_cons_some hrecord] at hrest
    have hp : recs[n]? = some p := by
      rw [← List.head?_drop, hrest, List.head?_cons]
    obtain ⟨hn, -⟩ := List.getElem?_eq_some_iff.mp hp
    obtain ⟨hsteps, controller', t', hrun, hidle, hpub⟩ := h.write hrecord hp (by omega)
    refine ⟨hsteps, ?_⟩
    intro result controller'' t'' hrun'
    obtain ⟨⟨rfl, rfl⟩, rfl⟩ : (_ = result ∧ controller' = controller'') ∧ t' = t'' := by
      simpa only [Prod.mk.injEq] using Option.some.inj (hrun.symm.trans hrun')
    have hack := acknowledge_record hrecord (place (idOf controllerName) n).1
      (place (idOf controllerName) n).2
    refine ⟨n + 1, hidle, ?_, ?_, ?_⟩
    · rw [← List.drop_drop, hrest, List.drop_one, List.tail_cons]
    · rw [hack]
      exact paired_take_succ hp
    · rw [hack]
      intro entry hmem
      obtain rfl := List.mem_singleton.mp hmem
      exact hpub

theorem WriterSound.advance {rest rest' : Prog (WriteResult × SeaController)}
    (h : WriterSound idOf dir recs n pending t (.busy w rest))
    (ha : rest.advance serve t = some (rest', t')) :
    Publishes (placesOf (idOf controllerName) recs) t t' ∧
      WriterSound idOf dir recs n pending t' (.busy w rest') := by
  obtain ⟨hpublishes, hsteps⟩ := h.1.advance ha
  refine ⟨hpublishes, hsteps, ?_⟩
  intro result controller t'' hrun
  exact h.2 result controller t'' ((Program.run_of_advance ha).trans hrun)

/-- A write returns what it has done. -/
theorem WriterSound.returned {rest : Prog (WriteResult × SeaController)} {result : WriteResult}
    (h : WriterSound idOf dir recs n pending t (.busy w rest))
    (hvalue : rest.value = some (result, controller)) :
    ∃ m, Returned idOf dir recs n pending w result controller t m := by
  apply h.2
  rw [Program.eq_pure_of_value hvalue]
  rfl

end Writes

namespace Sound

variable {s s' : SharedLog}

theorem acked_subset (h : Sound idOf dir recs s) :
    ∀ entry ∈ s.acked, entry ∈ paired (idOf controllerName) recs := by
  obtain ⟨n, hacked, -⟩ := h.writer
  rw [hacked]
  intro entry hmem
  exact List.mem_of_mem_take hmem

theorem write_step (h : Sound idOf dir recs s) (hfew : recs.length < 2 ^ 64 * blockMax)
    (hstep : sharedStep idOf s .write = some s') : Sound idOf dir recs s' := by
  obtain ⟨n, hacked, hwriter⟩ := h.writer
  obtain ⟨tree, pending, writer, acked, readers, answers⟩ := s
  cases writer with
  | idle controller =>
    cases pending with
    | nil => exact absurd hstep (by simp [sharedStep])
    | cons w pending =>
      obtain rfl := Option.some.inj hstep
      exact ⟨h.visible, ⟨n, hacked, writerSound_start hfew hwriter.1 hwriter.2⟩, h.published,
        h.readers, h.answers⟩
  | busy w rest =>
    cases hvalue : rest.value with
    | some out =>
      obtain ⟨result, controller⟩ := out
      simp only [sharedStep, hvalue] at hstep
      obtain rfl := Option.some.inj hstep
      obtain ⟨m, hreturned⟩ := hwriter.returned hvalue
      have hacked' := hreturned.acked
      rw [← hacked] at hacked'
      refine ⟨h.visible, ⟨m, hacked'.symm, hreturned.idle, hreturned.rest⟩, ?_, h.readers,
        h.answers⟩
      intro entry hmem
      rcases List.mem_append.mp hmem with hold | hnew
      · exact h.published entry hold
      · exact hreturned.published entry hnew
    | none =>
      simp only [sharedStep, hvalue] at hstep
      obtain ⟨⟨rest', tree'⟩, hadvance, heq⟩ := Option.bind_eq_some_iff.mp hstep
      obtain rfl := Option.some.inj heq
      obtain ⟨hpublishes, hwriter'⟩ := hwriter.advance hadvance
      refine ⟨hpublishes.2 h.visible, ⟨n, hacked, hwriter'⟩, ?_, ?_, h.answers⟩
      · intro entry hmem
        exact (h.published entry hmem).grows hpublishes.1
      · intro reader hmem
        exact (h.readers reader hmem).publishes hpublishes

theorem start_step (h : Sound idOf dir recs s) {blockId : UInt64} {recordId : UInt32}
    {bufLen : Int32} (hstep : sharedStep idOf s (.start blockId recordId bufLen) = some s') :
    Sound idOf dir recs s' := by
  simp only [sharedStep] at hstep
  obtain ⟨⟨rest, tree⟩, hadvance, heq⟩ := Option.bind_eq_some_iff.mp hstep
  obtain rfl := Option.some.inj heq
  obtain ⟨rfl, hreader⟩ := (readerSound_start h.visible h.acked_subset h.published).advance hadvance
  refine ⟨h.visible, h.writer, h.published, ?_, h.answers⟩
  intro reader hmem
  rcases List.mem_append.mp hmem with hold | hnew
  · exact h.readers reader hold
  · obtain rfl := List.mem_singleton.mp hnew
    exact hreader

theorem read_step (h : Sound idOf dir recs s) (hfew : recs.length ≤ 2 ^ 64 * blockMax) {i : ℕ}
    (hstep : sharedStep idOf s (.read i) = some s') : Sound idOf dir recs s' := by
  obtain ⟨⟨call, rest⟩, hreader, hstep⟩ := Option.bind_eq_some_iff.mp hstep
  have hsound := h.readers _ (List.mem_of_getElem? hreader)
  cases hvalue : rest.value with
  | some result =>
    simp only [hvalue] at hstep
    obtain rfl := Option.some.inj hstep
    refine ⟨h.visible, h.writer, h.published, ?_, ?_⟩
    · intro reader hmem
      exact h.readers reader (List.mem_of_mem_eraseIdx hmem)
    · intro answer hmem
      rcases List.mem_append.mp hmem with hold | hnew
      · exact h.answers answer hold
      · obtain rfl := List.mem_singleton.mp hnew
        exact hsound.whole hfew hvalue
  | none =>
    simp only [hvalue] at hstep
    obtain ⟨⟨rest', tree⟩, hadvance, heq⟩ := Option.bind_eq_some_iff.mp hstep
    obtain rfl := Option.some.inj heq
    obtain ⟨rfl, hreader'⟩ := hsound.advance hadvance
    refine ⟨h.visible, h.writer, h.published, ?_, h.answers⟩
    intro reader hmem
    rcases List.mem_or_eq_of_mem_set hmem with hold | rfl
    · exact h.readers reader hold
    · exact hreader'

theorem step (h : Sound idOf dir recs s) (hfew : recs.length < 2 ^ 64 * blockMax) {turn : Turn}
    (hstep : sharedStep idOf s turn = some s') : Sound idOf dir recs s' := by
  cases turn with
  | write => exact h.write_step hfew hstep
  | start blockId recordId bufLen => exact h.start_step hstep
  | read i => exact h.read_step (by omega) hstep

/-- A reader that has begun is never stuck. -/
theorem read_isSome (h : Sound idOf dir recs s) {i : ℕ} (hi : i < s.readers.length) :
    (sharedStep idOf s (.read i)).isSome := by
  have hreader := List.getElem?_eq_getElem hi
  have hsound := h.readers _ (List.getElem_mem hi)
  simp only [sharedStep, hreader, Option.bind_eq_bind, Option.bind_some]
  cases hvalue : s.readers[i].2.value with
  | some result => rfl
  | none =>
    cases hadvance : s.readers[i].2.advance serve s.tree with
    | some next => rfl
    | none =>
      obtain ⟨value, hsome⟩ := hsound.answers.not_stuck hadvance
      exact absurd (hvalue.symm.trans hsome) (by simp)

end Sound

/-- Whatever the order of the calls, reads give whole records: those that the
writes are told their places of, in the order of the writes. A write that returns
zero is told a place. -/
theorem sharedRun_reads_whole (idOf : String → UInt64) (dir : String) {now garbage : UInt64}
    {writes : List WriteCall} {turns : List Turn} {s : SharedLog}
    (hempty : ∀ id, Absent t dataDir id)
    (hsuper : Absent t dir (idOf controllerName))
    (hfew : (writes.filterMap WriteCall.record).length < 2 ^ 64 * blockMax)
    (hrun : sharedRun idOf dir t now garbage writes turns = some s) :
    s.acked <+: paired (idOf controllerName) (writes.filterMap WriteCall.record) ∧
    ((paired (idOf controllerName) (writes.filterMap WriteCall.record)).map Prod.fst).Nodup ∧
    (∀ answer ∈ s.answers, Whole (paired (idOf controllerName)
      (writes.filterMap WriteCall.record)) answer.1 answer.2) ∧
    (∀ i < s.readers.length, (sharedStep idOf s (.read i)).isSome) ∧
    ∀ w ∈ writes, ∀ controller, (w.program idOf controller).Returns
      fun out => out.1.ret = 0 → out.1.recordId.isSome := by
  obtain ⟨controller, t', hcreate, hidle, hshows⟩ :=
    idle_created (writes.filterMap WriteCall.record) hempty hsuper now garbage
  have hsteps : runSteps (sharedStep idOf) ⟨t', writes, .idle controller, [], [], []⟩ turns =
      some s := by
    simpa [sharedRun, hcreate] using hrun
  have hsound : Sound idOf dir (writes.filterMap WriteCall.record) s := by
    apply runSteps_invariant (fun _ s => Sound idOf dir (writes.filterMap WriteCall.record) s)
      _ _ hsteps
    · intro past turn s₁ s₂ hs hstep
      exact hs.step hfew hstep
    · exact ⟨hshows, ⟨0, by simp, hidle, by simp⟩, by simp, by simp, by simp⟩
  obtain ⟨n, hacked, -⟩ := hsound.writer
  refine ⟨?_, paired_nodup (by omega), hsound.answers, fun i hi => hsound.read_isSome hi, ?_⟩
  · rw [hacked]
    exact List.take_prefix _ _
  · intro w _ controller
    exact seaControllerWriteLocal_returns idOf _ controller w.buf w.bufLen

/-- One reader begins while the record is being written and one when the write
has returned. -/
theorem sharedRun_reads_whole_interleaved :
    let idOf := controllerGetBlockId fun _ => controllerHash
    let writes : List WriteCall := [⟨0, .clear 0, ⟨.clear 0, .whole⟩, [97, 98], 2⟩]
    let log := paired (idOf controllerName) (writes.filterMap WriteCall.record)
    ∃ s, sharedRun idOf "" (fun _ => none) 0 0 writes
        (List.replicate 12 .write ++
          [.start 0x6633303163343936 0 16, .write, .write, .start 0x6633303163343936 0 16] ++
          (List.replicate 6 [.read 1, .read 0]).flatten) = some s ∧
      s.answers.map Prod.snd = [⟨0, some [97, 98]⟩, ⟨0, some [97, 98]⟩] ∧ s.acked = log ∧
      s.acked <+: log ∧ (log.map Prod.fst).Nodup ∧
      (∀ answer ∈ s.answers, Whole log answer.1 answer.2) ∧
      ∀ i < s.readers.length, (sharedStep idOf s (.read i)).isSome := by
  intro idOf writes log
  have hanswers : (sharedRun idOf "" (fun _ => none) 0 0 writes
      (List.replicate 12 .write ++
        [.start 0x6633303163343936 0 16, .write, .write, .start 0x6633303163343936 0 16] ++
        (List.replicate 6 [.read 1, .read 0]).flatten)).map
          (fun s => (s.answers.map Prod.snd, s.acked)) =
      some ([⟨0, some [97, 98]⟩, ⟨0, some [97, 98]⟩], log) := by decide +kernel
  obtain ⟨s, hrun, hs⟩ := Option.map_eq_some_iff.mp hanswers
  obtain ⟨hresults, hacked⟩ := Prod.mk.inj hs
  obtain ⟨hfront, hnodup, hwhole, hready, -⟩ := sharedRun_reads_whole idOf ""
    (fun _ => ⟨rfl, rfl⟩) ⟨rfl, rfl⟩ (by decide) hrun
  exact ⟨s, hrun, hresults, hacked, hfront, hnodup, hwhole, hready⟩

end SeaStore.Controller
