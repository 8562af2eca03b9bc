import SeaStore.Block.Create
import SeaStore.Posix.Run

/-!
Reading a record back on a fresh handle, and a handle that appends while every
call completes in full. The ids it hands out are numbered on from the count in
its header, so that the records read back exactly when they are stored at the
places their ids name.
-/
namespace SeaStore.Block

open Posix

variable {t : FileTree SeaPath} {dir : String} {id : UInt64} {hdr : SeaBlockIndexHeader}
  {recs : List Payload}

/-- A query for the id on a fresh handle, with any buffer the payload fits in,
returns zero and exactly the payload. -/
def ReadsBack (t : FileTree SeaPath) (dir : String) (id : UInt64) (recordId : UInt32)
    (p : Payload) : Prop :=
  ∀ bufLen : Int32, (p.bytes.length : ℤ) ≤ bufLen.toInt →
    (queryFresh dir id recordId bufLen).run serve t = some (⟨0, some p.bytes⟩, t)

theorem Payload.toInt_length (p : Payload) : p.length.toInt = p.bytes.length := by
  have h := p.length_lt
  have hint : p.length.toInt = ((UInt32.ofNat p.bytes.length).toNat : ℤ).bmod (2 ^ 32) :=
    BitVec.toInt_eq_toNat_bmod _
  rw [hint, p.toNat_length]
  simp only [Int.bmod]
  omega

/-- One other answer is enough for a record not to read back. -/
theorem not_readsBack {recordId : UInt32} {p : Payload} {result : QueryResult}
    (hrun : ((queryFresh dir id recordId p.length).run serve t).map Prod.fst = some result)
    (hne : result ≠ ⟨0, some p.bytes⟩) : ¬ ReadsBack t dir id recordId p := by
  intro h
  rw [h p.length (Int.le_of_eq p.toInt_length.symm)] at hrun
  exact hne (Option.some.inj hrun).symm

/-- A record reads back when it is counted, and stored at the place of its id. -/
theorem readsBack_iff (himg : Image t dir id hdr recs) (recordId : UInt32) (p : Payload) :
    ReadsBack t dir id recordId p ↔
      recordId.toNat < hdr.count.toNat ∧ recs[recordId.toNat]? = some p := by
  constructor
  · intro h
    have hrun := h p.length (Int.le_of_eq p.toInt_length.symm)
    rw [run_queryFresh himg] at hrun
    exact (lookup_eq_iff (Int.le_of_eq p.toInt_length.symm)).mp
      (congrArg Prod.fst (Option.some.inj hrun))
  · rintro ⟨hcount, hp⟩ bufLen hbuf
    rw [run_queryFresh himg, lookup_of_get hcount hp hbuf]

/-- The ids handed out for `ps` by a handle whose count is `start`. -/
def numbered (start : UInt32) (ps : List Payload) : List (UInt32 × Payload) :=
  ps.mapIdx (fun i p => (start + UInt32.ofNat i, p))

theorem numbered_concat (start : UInt32) (ps : List Payload) (p : Payload) :
    numbered start (ps ++ [p]) = numbered start ps ++ [(start + UInt32.ofNat ps.length, p)] := by
  simp [numbered, List.mapIdx_append]

theorem mem_numbered {start recordId : UInt32} {ps : List Payload} {p : Payload} :
    (recordId, p) ∈ numbered start ps ↔
      ∃ i, ps[i]? = some p ∧ recordId = start + UInt32.ofNat i := by
  rw [numbered, List.mem_mapIdx]
  constructor
  · rintro ⟨i, hi, heq⟩
    obtain ⟨rfl, rfl⟩ := Prod.mk.inj heq
    exact ⟨i, List.getElem?_eq_getElem hi, rfl⟩
  · rintro ⟨i, hp, rfl⟩
    obtain ⟨hi, rfl⟩ := List.getElem?_eq_some_iff.mp hp
    exact ⟨i, hi, rfl⟩

/-- Numbered from zero, under a header that counts them, the payloads read back
exactly when there are fewer than `2 ^ 32` of them and they are the first ones stored. -/
theorem numbered_readsBack_iff (himg : Image t dir id hdr recs) {ps : List Payload}
    (hcount : hdr.count = UInt32.ofNat ps.length) :
    (∀ recordId p, (recordId, p) ∈ numbered 0 ps → ReadsBack t dir id recordId p) ↔
      ps.length < 2 ^ 32 ∧ ps <+: recs := by
  have hcount' : hdr.count.toNat = ps.length % 2 ^ 32 := by rw [hcount, UInt32.toNat_ofNat']
  have hid : ∀ i : ℕ, ((0 : UInt32) + UInt32.ofNat i).toNat = i % 2 ^ 32 := by
    intro i
    rw [UInt32.zero_add, UInt32.toNat_ofNat']
  constructor
  · intro h
    have hlt : ps.length < 2 ^ 32 := by
      by_contra hge
      have hi : 2 ^ 32 - 1 < ps.length := by omega
      have hback := h _ _ (mem_numbered.mpr ⟨2 ^ 32 - 1, List.getElem?_eq_getElem hi, rfl⟩)
      have hbound := ((readsBack_iff himg _ _).mp hback).1
      rw [hid, hcount'] at hbound
      omega
    refine ⟨hlt, List.prefix_iff_getElem?.mpr ?_⟩
    intro i hi
    have hback := h _ _ (mem_numbered.mpr ⟨i, List.getElem?_eq_getElem hi, rfl⟩)
    have hget := ((readsBack_iff himg _ _).mp hback).2
    rwa [hid, Nat.mod_eq_of_lt (by omega)] at hget
  · rintro ⟨hlt, hfront⟩ recordId p hmem
    obtain ⟨i, hp, rfl⟩ := mem_numbered.mp hmem
    obtain ⟨hi, rfl⟩ := List.getElem?_eq_some_iff.mp hp
    rw [readsBack_iff himg, hid, hcount', Nat.mod_eq_of_lt hlt, Nat.mod_eq_of_lt (by omega)]
    exact ⟨hi, List.prefix_iff_getElem?.mp hfront i hi⟩

/-- A creation all of whose calls complete in full. -/
def createStep (dir : String) (id : UInt64) (t : FileTree SeaPath) (now maxSize maxCount : UInt64) :
    Option (FileTree SeaPath) :=
  match (seaBlockCreate ⟨now, .whole⟩ dir id maxSize maxCount).run serve t with
  | some (0, tree) => some tree
  | _ => none

def openStep (dir : String) (id : UInt64) (t : FileTree SeaPath) : Option SeaBlock :=
  match (seaBlockOpen dir id).run serve t with
  | some (some block, _) => some block
  | _ => none

theorem createStep_absent (habs : Absent t dir id) (now maxSize maxCount : UInt64) :
    ∃ t', createStep dir id t now maxSize maxCount = some t' ∧
      Image t' dir id (createdHeader id maxCount now) [] ∧ AgreeOff t t' dir id ∧
      t' (.data dir id) = some .empty := by
  obtain ⟨t', hrun, himg, hagree, hempty⟩ :=
    run_seaBlockCreate_absent habs now maxSize maxCount
  exact ⟨t', by simp only [createStep, hrun], himg, hagree, hempty⟩

theorem createStep_over (himg : Image t dir id hdr recs) (now maxSize maxCount : UInt64) :
    ∃ t', createStep dir id t now maxSize maxCount = some t' ∧
      Image t' dir id (createdHeader id maxCount now) recs ∧ AgreeOff t t' dir id := by
  obtain ⟨t', hrun, himg', hagree⟩ := run_seaBlockCreate_over himg now maxSize maxCount
  exact ⟨t', by simp only [createStep, hrun], himg', hagree⟩

theorem openStep_image (himg : Image t dir id hdr recs) :
    openStep dir id t = some (openedBlock dir id hdr) := by
  simp only [openStep, run_seaBlockOpen himg]

theorem openStep_absent (habs : t (.data dir id) = none) : openStep dir id t = none := by
  simp only [openStep, run_seaBlockOpen_absent habs]

/-- A handle at work: the files, the handle, and what its appends have returned. -/
structure Writer where
  tree : FileTree SeaPath
  block : SeaBlock
  acked : List (UInt32 × Payload)

/-- An append all of whose calls complete in full, and so returns zero. -/
def appendStep (w : Writer) (op : Ambient × Payload) : Option Writer :=
  match (seaBlockAppend op.1 .none w.block op.2.bytes op.2.length).run serve w.tree with
  | some ((⟨0, some recordId, _⟩, block), tree) =>
    some ⟨tree, block, w.acked ++ [(recordId, op.2)]⟩
  | _ => none

theorem appendStep_acked {w w' : Writer} {op : Ambient × Payload}
    (hstep : appendStep w op = some w') : w.acked <+: w'.acked := by
  unfold appendStep at hstep
  split at hstep
  · obtain rfl := Option.some.inj hstep
    exact List.prefix_append _ _
  · exact absurd hstep (by simp)

/-- The handle's header is the one on disk. -/
def Held (t : FileTree SeaPath) (dir : String) (id : UInt64) (block : SeaBlock)
    (recs : List Payload) : Prop :=
  block.On dir id ∧ Image t dir id block.index.header recs

/-- The handle's header is the one on disk, and counts exactly the records stored. -/
structure Counts (t : FileTree SeaPath) (dir : String) (id : UInt64) (block : SeaBlock)
    (recs : List Payload) : Prop where
  held : Held t dir id block recs
  count : block.index.header.count = UInt32.ofNat recs.length

def newWriter (dir : String) (id : UInt64) (t : FileTree SeaPath)
    (now maxSize maxCount : UInt64) : Option Writer := do
  let tree ← createStep dir id t now maxSize maxCount
  let block ← openStep dir id tree
  return ⟨tree, block, []⟩

theorem newWriter_data {now maxSize maxCount : UInt64} {w : Writer} (habs : Absent t dir id)
    (hnew : newWriter dir id t now maxSize maxCount = some w) :
    w.tree (.data dir id) = some .empty := by
  obtain ⟨tree, hcreate, himg, -, hempty⟩ := createStep_absent habs now maxSize maxCount
  unfold newWriter at hnew
  rw [hcreate, Option.bind_eq_bind, Option.bind_some, openStep_image himg] at hnew
  obtain rfl := Option.some.inj hnew
  exact hempty

theorem newWriter_held {now maxSize maxCount : UInt64} {w : Writer} (habs : Absent t dir id)
    (hnew : newWriter dir id t now maxSize maxCount = some w) :
    Held w.tree dir id w.block [] ∧ w.block.index.header.count = 0 ∧ w.acked = [] := by
  obtain ⟨tree, hcreate, himg, -⟩ := createStep_absent habs now maxSize maxCount
  unfold newWriter at hnew
  rw [hcreate, Option.bind_eq_bind, Option.bind_some, openStep_image himg] at hnew
  obtain rfl := Option.some.inj hnew
  exact ⟨⟨openedBlock_on dir id _, himg⟩, rfl, rfl⟩

theorem Appended.held {t' : FileTree SeaPath} {mem : SeaBlockIndexHeader} {a : Ambient}
    {p : Payload} {result : AppendResult} {block' : SeaBlock}
    (h : Appended t t' dir id mem recs a p result block') :
    Held t' dir id block' (recs ++ [p]) := by
  refine ⟨h.on, ?_⟩
  rw [h.header]
  exact h.image

theorem Appended.counts {t' : FileTree SeaPath} {a : Ambient} {p : Payload} {result : AppendResult}
    {block block' : SeaBlock} (hcounts : Counts t dir id block recs)
    (h : Appended t t' dir id block.index.header recs a p result block') :
    Counts t' dir id block' (recs ++ [p]) := by
  refine ⟨h.held, ?_⟩
  rw [h.header, SeaBlockIndexHeader.bump, hcounts.count, List.length_append, List.length_singleton,
    UInt32.ofNat_add]
  rfl

theorem Refused.counts {t' : FileTree SeaPath} {result : AppendResult} {block block' : SeaBlock}
    (hcounts : Counts t dir id block recs)
    (h : Refused t t' dir id block.index.header recs block result block') :
    Counts t' dir id block' recs := by
  refine ⟨⟨h.on, ?_⟩, ?_⟩
  · rw [h.index]
    exact h.image
  · rw [h.index]
    exact hcounts.count

theorem Counts.of_agreeOff {t' : FileTree SeaPath} {block : SeaBlock} {id' : UInt64}
    (h : Counts t dir id block recs) (hagree : AgreeOff t t' dir id') (hne : id ≠ id') :
    Counts t' dir id block recs :=
  ⟨⟨h.held.1, hagree.image (fun hsame => hne hsame.2) h.held.2⟩, h.count⟩

/-- One more record for a handle that counts its own, when every write
completes and the ids do not run out. -/
theorem Counts.append {block : SeaBlock} (h : Counts t dir id block recs) (a : Ambient)
    (p : Payload) (hfit : recs.length < 2 ^ 32) :
    ∃ result block' t', (seaBlockAppend a .none block p.bytes p.length).run serve t =
        some ((result, block'), t') ∧ AgreeOff t t' dir id ∧
      (result.ret = 0 → result.recordId = some (UInt32.ofNat recs.length) ∧
        Counts t' dir id block' (recs ++ [p])) := by
  have hentry : Faults.none.entry.Full indexEntrySize := Outcome.full_whole _
  have hheader : Faults.none.header.Full indexHeaderSize := Outcome.full_whole _
  obtain ⟨result, block', t', hrun, hcases⟩ :=
    append_total (a := a) (p := p) h.held.1 h.held.2 hentry hheader hfit
  rcases hcases with happ | href
  · refine ⟨result, block', t', hrun, happ.agree, fun _ => ⟨?_, happ.counts h⟩⟩
    rw [happ.result_eq, h.count]
  · refine ⟨result, block', t', hrun, href.agree, fun hret => ?_⟩
    rw [href.result_eq] at hret
    exact absurd hret (by simp [ENOENT])

theorem appendStep_appended {w w' : Writer} {op : Ambient × Payload}
    (hon : w.block.On dir id) (himg : Image w.tree dir id hdr recs)
    (hstep : appendStep w op = some w') :
    w'.acked = w.acked ++ [(w.block.index.header.count, op.2)] ∧
      ∃ result, Appended w.tree w'.tree dir id w.block.index.header recs op.1 op.2 result
        w'.block := by
  unfold appendStep at hstep
  split at hstep
  · rename_i recordId limit block tree hrun
    have happ := appended_of_ret hon himg hrun rfl
    cases hstep
    have hid : recordId = w.block.index.header.count := by
      simpa using congrArg AppendResult.recordId happ.result_eq
    exact ⟨by rw [hid], _, happ⟩
  · exact absurd hstep (by simp)

/-- A run of appends on a handle whose header is the one on disk: the ids count
on from the header's count, and the records are stored behind the old ones. -/
theorem appendRun_held {w w' : Writer} {ops : List (Ambient × Payload)}
    (hheld : Held w.tree dir id w.block recs) (hrun : runSteps appendStep w ops = some w') :
    Held w'.tree dir id w'.block (recs ++ ops.map Prod.snd) ∧
      w'.block.index.header.count = w.block.index.header.count + UInt32.ofNat ops.length ∧
      w'.acked = w.acked ++ numbered w.block.index.header.count (ops.map Prod.snd) := by
  refine runSteps_invariant (fun past s =>
    Held s.tree dir id s.block (recs ++ past.map Prod.snd) ∧
      s.block.index.header.count = w.block.index.header.count + UInt32.ofNat past.length ∧
      s.acked = w.acked ++ numbered w.block.index.header.count (past.map Prod.snd)) ?_ ?_ hrun
  · rintro past op s s' ⟨hs, hcount, hacked⟩ hstep
    obtain ⟨hacked', result, happ⟩ := appendStep_appended hs.1 hs.2 hstep
    refine ⟨by simpa using happ.held, ?_, ?_⟩
    · rw [happ.header, SeaBlockIndexHeader.bump, hcount, UInt32.add_assoc]
      simp [UInt32.ofNat_add]
    · rw [hacked', hacked, hcount, List.map_append, List.map_singleton, numbered_concat]
      simp
  · simpa [numbered] using hheld

end SeaStore.Block
