import SeaStore.Block.Indexed
import SeaStore.Block.Overwrite

/-!
A block whose data file was removed and whose index file was not. Creating it
again puts a header without records in front of the old entries, and the entries
of new records go behind them. With frames of one size an old entry leads to the
new record of its own place, as long as there is one, and the entries behind lead
to earlier records than their places say.
-/
namespace SeaStore.Block

open Posix

/-- The data file holds the frames of `filled` end to end; in the index file their
entries stand behind those of `stale`. -/
def Leftover (t : FileTree SeaPath) (dir : String) (id : UInt64) (hdr : SeaBlockIndexHeader)
    (stale : List SeaBlockIndexEntry) (filled : List (Ambient × Payload)) : Prop :=
  ∃ f g entries, t (.data dir id) = some f ∧ t (.index dir id) = some g ∧
    g.bytes = hdr.bytes ++ (stale ++ entries).flatMap SeaBlockIndexEntry.bytes ∧
    f.bytes = dataBytes filled ∧
    entries.map (fun e => e.offset.toNat) = (located 0 filled).map Prod.fst

def evenly (size n : ℕ) : List ℕ := (List.range n).map fun i => (size + 16) * i

/-- The record that the `i`-th entry leads to when `m` entries were left over. -/
def reached (m i : ℕ) : ℕ := if i < m then i else i - m

/-- Each of `k` records is reached through its own place when nothing was left over,
or when the places left over are enough for all. -/
theorem reached_eq_iff (m k : ℕ) : (∀ i < k, reached m i = i) ↔ m = 0 ∨ k ≤ m := by
  constructor
  · intro h
    by_contra hnot
    have hm := h m (by omega)
    rw [reached, if_neg (Nat.lt_irrefl m)] at hm
    omega
  · intro h i hi
    rw [reached]
    split <;> omega

theorem reached_lt {m k i : ℕ} (hi : i < k) : reached m i < k := by
  rw [reached]
  split <;> omega

section Even

variable {filled : List (Ambient × Payload)} {size : ℕ}

theorem dataBytes_even (hsize : ∀ op ∈ filled, op.2.bytes.length = size) :
    (dataBytes filled).length = (size + 16) * filled.length := by
  induction filled with
  | nil => rfl
  | cons op rest ih =>
    have hop := hsize op (List.mem_cons_self ..)
    rw [dataBytes_cons, List.length_append, Payload.frame_length, hop,
      ih (fun op' hmem => hsize op' (List.mem_cons_of_mem op hmem)), List.length_cons,
      Nat.mul_succ, Nat.add_comm]

/-- Frames of one size lie at the multiples of it. -/
theorem located_even (hsize : ∀ op ∈ filled, op.2.bytes.length = size) :
    (located 0 filled).map Prod.fst = evenly size filled.length := by
  apply List.ext_getElem?
  intro i
  rw [List.getElem?_map, evenly, List.getElem?_map]
  by_cases hi : i < filled.length
  · have hold : filled[i]? = some filled[i] := List.getElem?_eq_getElem hi
    have hbefore : ∀ op ∈ filled.take i, op.2.bytes.length = size :=
      fun op hmem => hsize op (List.mem_of_mem_take hmem)
    rw [located_getElem? hold, List.getElem?_range hi, Option.map_some, Option.map_some,
      dataBytes_even hbefore, List.length_take_of_le (Nat.le_of_lt hi)]
  · rw [List.getElem?_eq_none (by rw [located_length]; omega),
      List.getElem?_eq_none (by rw [List.length_range]; omega)]
    rfl

theorem frameAt_even (hsize : ∀ op ∈ filled, op.2.bytes.length = size) {i : ℕ}
    {op : Ambient × Payload} (hop : filled[i]? = some op) :
    FrameAt (dataBytes filled) ((size + 16) * i) op.2 := by
  obtain ⟨hi, -⟩ := List.getElem?_eq_some_iff.mp hop
  have hbefore : ∀ op ∈ filled.take i, op.2.bytes.length = size :=
    fun op hmem => hsize op (List.mem_of_mem_take hmem)
  have hplace := located_getElem? hop
  rw [dataBytes_even hbefore, List.length_take_of_le (Nat.le_of_lt hi)] at hplace
  exact frameAt_of_located (List.mem_of_getElem? hplace)

/-- Behind `m` entries at the multiples, those of the records start from zero again. -/
theorem evenly_getElem? {m k i : ℕ} (hi : i < k) :
    (evenly size m ++ evenly size k)[i]? = some ((size + 16) * reached m i) := by
  have hlen : (evenly size m).length = m := by simp [evenly]
  rw [reached]
  by_cases hm : i < m
  · rw [List.getElem?_append_left (by omega), if_pos hm]
    simp [evenly, hm]
  · rw [List.getElem?_append_right (by omega), if_neg hm, hlen]
    have hin : i - m < k := by omega
    simp [evenly, hin]

end Even

variable {t t' : FileTree SeaPath} {dir : String} {id : UInt64} {hdr : SeaBlockIndexHeader}
  {f g : File} {stale : List SeaBlockIndexEntry} {filled : List (Ambient × Payload)}
  {block block' : SeaBlock} {a : Ambient} {faults : Faults} {p : Payload} {result : AppendResult}

/-- Whatever the files, an append that returns zero has told the count of its handle
and raised it. -/
theorem append_done (hon : block.On dir id)
    (hrun : (seaBlockAppend a faults block p.bytes p.length).run serve t =
      some ((result, block'), t')) (hret : result.ret = 0) :
    result.recordId = some block.index.header.count ∧ block'.On dir id ∧
      block'.index.header = block.index.header.bump a.now := by
  obtain ⟨f, g, g', g'', hf, hg, hframe, hentry, hheader, hid, rfl⟩ :=
    append_completes hon hrun hret
  obtain ⟨fd, hfd, -, hblock⟩ := run_seaBlockAppend_data a faults p hon hf
  have hg' : (t.set (.data dir id) (frameWrite f a faults.frame p).2) block.index.fd.path =
      some g := by rw [hon.index_path, FileTree.set_other _ _ (by simp), hg]
  obtain ⟨fd', hfd', hindex⟩ := run_indexAppend_header hg' hentry hheader
  rw [if_pos rfl] at hindex
  rw [if_pos hframe, hindex, hrun, Option.map_some] at hblock
  obtain ⟨-, rfl⟩ := Prod.mk.inj (Prod.mk.inj (Option.some.inj hblock)).1
  exact ⟨hid, ⟨hfd, hfd'.trans hon.index_path⟩, rfl⟩

section Create

/-- Whatever the files, a block can be created and opened, and then counts nothing. -/
theorem run_seaBlockCreate_ready (t : FileTree SeaPath) (dir : String)
    (id now maxSize maxCount : UInt64) :
    ∃ t', (seaBlockCreate ⟨now, .whole⟩ dir id maxSize maxCount).run serve t = some (0, t') ∧
      (seaBlockOpen dir id).run serve t' =
        some (some (openedBlock dir id (createdHeader id maxCount now)), t') ∧
      AgreeOff t t' dir id := by
  obtain ⟨g', hheader, hrun⟩ := run_seaBlockCreate_files t dir id now maxSize maxCount
  have hbytes : g'.bytes = overlay ((t (.index dir id)).getD .empty).bytes 0
      (createdHeader id maxCount now).bytes := by
    have hok : (((t (.index dir id)).getD .empty).write 0 (createdHeader id maxCount now).bytes
        .whole).1 = .ok (createdHeader id maxCount now).bytes.length := by
      rw [SeaBlockIndexHeader.bytes_length]
      exact congrArg Prod.fst hheader
    have hwritten := File.write_ok_bytes hok
    rw [show (((t (.index dir id)).getD .empty).write 0 (createdHeader id maxCount now).bytes
      .whole).2 = g' from congrArg Prod.snd hheader] at hwritten
    exact hwritten
  have hfront : slice g'.bytes 0 indexHeaderSize = (createdHeader id maxCount now).bytes := by
    rw [hbytes]
    simp [overlay, slice]
  have hsize : indexHeaderSize ≤ g'.size := by
    have hlen := congrArg List.length hfront
    rw [slice_length, SeaBlockIndexHeader.bytes_length] at hlen
    rw [File.size]
    omega
  refine ⟨_, hrun, ?_, ?_⟩
  · have hindex : ((t.set (.index dir id) g').set (.data dir id)
        ((t (.data dir id)).getD .empty)) (.index dir id) = some g' := by
      rw [FileTree.set_other _ _ (by simp), FileTree.set_self]
    have hopen := run_seaBlockOpen_header (FileTree.set_self _ _ _) hindex hsize
    rw [hfront, SeaBlockIndexHeader.ofBytes_bytes] at hopen
    exact hopen
  · intro path hdata hindex
    rw [FileTree.set_other _ _ hdata, FileTree.set_other _ _ hindex]

theorem run_seaBlockDataDestroy (t : FileTree SeaPath) (dir : String) (id : UInt64) :
    (seaBlockDataDestroy dir id).run serve t =
      some (0, Function.update t (.data dir id) none) := by
  unfold seaBlockDataDestroy
  rw [Program.run_bind_of_run serve (run_access t (.data dir id))]
  cases hf : t (.data dir id) with
  | none =>
    rw [Function.update_eq_self_iff.mpr hf.symm]
    rfl
  | some f =>
    rw [Option.isSome_some, if_pos rfl, Program.run_bind_of_run serve (run_unlink t _), hf]
    rfl

end Create

/-- Two payloads of one length cannot both be read back under one id. -/
theorem ReadsBack.unique {recordId : UInt32} {q : Payload} (hp : ReadsBack t dir id recordId p)
    (hq : ReadsBack t dir id recordId q) (hlen : p.bytes.length = q.bytes.length) : p = q := by
  have hrun := hp p.length (Int.le_of_eq p.toInt_length.symm)
  rw [hq p.length (Int.le_of_eq (by rw [p.toInt_length, hlen]))] at hrun
  have hout := (QueryResult.mk.inj (Prod.mk.inj (Option.some.inj hrun)).1).2
  exact Payload.ext (Option.some.inj hout).symm

namespace Leftover

theorem congr (h : Leftover t dir id hdr stale filled)
    (hdata : t' (.data dir id) = t (.data dir id))
    (hindex : t' (.index dir id) = t (.index dir id)) : Leftover t' dir id hdr stale filled := by
  obtain ⟨f, g, entries, hf, hg, hbytes, hframes, hoffsets⟩ := h
  exact ⟨f, g, entries, hdata.trans hf, hindex.trans hg, hbytes, hframes, hoffsets⟩

/-- With the data file removed and the block created again, the entries stay behind a
header that counts none, and there are no frames. -/
theorem recreate (h : Leftover t dir id hdr [] filled) {size : ℕ}
    (hsize : ∀ op ∈ filled, op.2.bytes.length = size) (now maxSize maxCount : UInt64) :
    ∃ t₁ t₂ stale, (seaBlockDataDestroy dir id).run serve t = some (0, t₁) ∧
      (seaBlockCreate ⟨now, .whole⟩ dir id maxSize maxCount).run serve t₁ = some (0, t₂) ∧
      Leftover t₂ dir id (createdHeader id maxCount now) stale [] ∧
      stale.map (fun e => e.offset.toNat) = evenly size stale.length ∧
      stale.length = filled.length := by
  obtain ⟨f, g, entries, hf, hg, hbytes, -, hoffsets⟩ := h
  have hlen : entries.length = filled.length := by
    rw [← List.length_map (fun e : SeaBlockIndexEntry => e.offset.toNat), hoffsets,
      List.length_map, located_length]
  rw [located_even hsize, ← hlen] at hoffsets
  obtain ⟨g', hheader, hrun⟩ := run_seaBlockCreate_files
    (Function.update t (.data dir id) none) dir id now maxSize maxCount
  have hindex : (Function.update t (.data dir id) none) (.index dir id) = some g := by
    rw [Function.update_of_ne (by simp), hg]
  rw [hindex, Option.getD_some] at hheader
  rw [Function.update_self, Option.getD_none] at hrun
  refine ⟨_, _, entries, run_seaBlockDataDestroy t dir id, hrun, ⟨.empty, g', [],
    FileTree.set_self _ _ _, ?_, ?_, rfl, rfl⟩, hoffsets, hlen⟩
  · rw [FileTree.set_other _ _ (by simp), FileTree.set_self]
  · rw [List.append_nil]
    exact index_put_header hbytes hheader

theorem append (h : Leftover t dir id hdr stale filled) (hon : block.On dir id)
    (hrun : (seaBlockAppend a faults block p.bytes p.length).run serve t =
      some ((result, block'), t')) (hret : result.ret = 0) :
    Leftover t' dir id (block.index.header.bump a.now) stale (filled ++ [(a, p)]) := by
  obtain ⟨f, g, entries, hf, hg, hbytes, hframes, hoffsets⟩ := h
  obtain ⟨f₁, g₁, g', g'', hf₁, hg₁, hframe, hentry, hheader, -, rfl⟩ :=
    append_completes hon hrun hret
  obtain rfl : f₁ = f := Option.some.inj (hf₁.symm.trans hf)
  obtain rfl : g₁ = g := Option.some.inj (hg₁.symm.trans hg)
  have hmax := f₁.size_le
  have hnew : (newEntry f₁ a).offset.toNat = (dataBytes filled).length := by
    simp only [offMax] at hmax
    simp only [newEntry, File.size, UInt64.toNat_ofNat', ← hframes]
    omega
  refine ⟨(frameWrite f₁ a faults.frame p).2, g'', entries ++ [newEntry f₁ a], ?_,
    FileTree.set_self _ _ _, ?_, ?_, ?_⟩
  · rw [FileTree.set_other _ _ (by simp), FileTree.set_self]
  · rw [← List.append_assoc]
    exact index_put_header (index_add_entry hbytes hentry) hheader
  · rw [hframe.bytes, hframes, dataBytes_append]
    simp [dataBytes]
  · rw [List.map_append, List.map_singleton, hoffsets, located_append, List.map_append, hnew,
      Nat.zero_add]
    rfl

/-- Without old entries, an append all of whose calls complete, and that returns nonzero,
had no room for its frame and has left the files as they were. -/
theorem append_fails (h : Leftover t dir id hdr [] filled) {size : ℕ}
    (hpos : 1 ≤ size) (hsize : ∀ op ∈ filled, op.2.bytes.length = size) (hon : block.On dir id)
    (hrun : (seaBlockAppend a .none block p.bytes p.length).run serve t =
      some ((result, block'), t')) (hret : result.ret ≠ 0) :
    Leftover t' dir id hdr [] filled ∧ block'.On dir id := by
  obtain ⟨f, g, entries, hf, hg, hbytes, hframes, hoffsets⟩ := h
  have hlen : entries.length = filled.length := by
    rw [← List.length_map (fun e : SeaBlockIndexEntry => e.offset.toNat), hoffsets,
      List.length_map, located_length]
  have hroom : g.size + indexEntrySize ≤ offMax := by
    have hdata : (size + 16) * filled.length ≤ offMax := by
      rw [← dataBytes_even hsize, ← hframes]
      exact f.size_le
    have hcount : (1 + 16) * filled.length ≤ (size + 16) * filled.length :=
      Nat.mul_le_mul_right _ (Nat.add_le_add_right hpos 16)
    rw [index_file_size hbytes, List.nil_append, hlen]
    simp only [indexHeaderSize, indexEntrySize, offMax] at hdata ⊢
    omega
  obtain ⟨fd, hfd, -, hblock⟩ := run_seaBlockAppend_data a .none p hon hf
  by_cases hframe : FrameCompletes f a Faults.none.frame p
  · have hdata := ((frameCompletes_iff f a .whole p).mp hframe).2
    obtain ⟨result', block'', t'', hrun', hret'⟩ := append_succeeds hon hf hg hdata hroom a
    rw [hrun] at hrun'
    obtain ⟨rfl, -⟩ := Prod.mk.inj (Prod.mk.inj (Option.some.inj hrun')).1
    exact absurd hret' hret
  · have hfull : f.size + (p.frame a).length ≤ offMax → False := by
      intro hdata
      rw [p.frame_length] at hdata
      exact hframe ((frameCompletes_iff f a .whole p).mpr ⟨Outcome.full_whole _, by omega⟩)
    have hsame : (frameWrite f a Faults.none.frame p).2 = f :=
      congrArg Prod.snd (File.put_no_fit hfull)
    rw [if_neg hframe, hrun, hsame] at hblock
    obtain ⟨hpair, rfl⟩ := Prod.mk.inj (Option.some.inj hblock)
    obtain ⟨-, rfl⟩ := Prod.mk.inj hpair
    refine ⟨⟨f, g, entries, FileTree.set_self _ _ _, ?_, hbytes, hframes, hoffsets⟩,
      ⟨hfd, hon.index_path⟩⟩
    rw [FileTree.set_other _ _ (by simp), hg]

/-- A counted record is answered from the frame that its entry leads to. -/
theorem readsBack_iff (h : Leftover t dir id hdr stale filled) {size : ℕ}
    (hsize : ∀ op ∈ filled, op.2.bytes.length = size)
    (hstale : stale.map (fun e => e.offset.toNat) = evenly size stale.length) {recordId : UInt32}
    (hcount : recordId < hdr.count) (hin : recordId.toNat < filled.length)
    (hlen : p.bytes.length = size) :
    ReadsBack t dir id recordId p ↔
      (filled.map Prod.snd)[reached stale.length recordId.toNat]? = some p := by
  obtain ⟨f, g, entries, hf, hg, hbytes, hframes, hoffsets⟩ := h
  rw [located_even hsize] at hoffsets
  obtain ⟨e, he, hoffset⟩ : ∃ e, (stale ++ entries)[recordId.toNat]? = some e ∧
      e.offset.toNat = (size + 16) * reached stale.length recordId.toNat := by
    have hget : (evenly size stale.length ++ evenly size filled.length)[recordId.toNat]? =
        some ((size + 16) * reached stale.length recordId.toNat) := evenly_getElem? hin
    rw [← hstale, ← hoffsets, ← List.map_append, List.getElem?_map] at hget
    exact Option.map_eq_some_iff.mp hget
  obtain ⟨op, hop⟩ : ∃ op, filled[reached stale.length recordId.toNat]? = some op :=
    ⟨_, List.getElem?_eq_getElem (reached_lt hin)⟩
  have hframe := frameAt_even hsize hop
  rw [← hframes, ← hoffset] at hframe
  have hback : ReadsBack t dir id recordId op.2 := by
    have hentry := slice_indexEntry hbytes he
    apply StoredAt.readsBack
    refine ⟨f, g, hf, hg, ?_, ?_, ?_⟩
    · rw [countOnDisk, slice_indexHeader hbytes, SeaBlockIndexHeader.ofBytes_bytes]
      exact hcount
    · rw [entryPlace, hentry, SeaBlockIndexEntry.bytes_length]
    · rw [entryPlace, hentry, SeaBlockIndexEntry.ofBytes_bytes]
      exact hframe
  rw [List.getElem?_map, hop, Option.map_some, Option.some.injEq]
  constructor
  · intro hp
    exact hback.unique hp ((hsize op (List.mem_of_getElem? hop)).trans hlen.symm)
  · rintro rfl
    exact hback

theorem not_readsBack (h : Leftover t dir id hdr stale filled) {recordId : UInt32}
    (hcount : hdr.count ≤ recordId) : ¬ ReadsBack t dir id recordId p := by
  obtain ⟨f, g, entries, hf, hg, hbytes, -, -⟩ := h
  intro hback
  have hrun := hback p.length (Int.le_of_eq p.toInt_length.symm)
  rw [run_queryFresh_past hf hg hbytes hcount] at hrun
  have hret := congrArg QueryResult.ret (Prod.mk.inj (Option.some.inj hrun)).1
  exact absurd hret (by simp [EINVAL])

/-- Numbered from zero under a header that counts them, records that are all different
read back exactly when their ids do not run out and no entry left over stands in the way. -/
theorem numbered_readsBack_iff (h : Leftover t dir id hdr stale filled) {size : ℕ}
    (hsize : ∀ op ∈ filled, op.2.bytes.length = size)
    (hstale : stale.map (fun e => e.offset.toNat) = evenly size stale.length)
    (hcount : hdr.count = UInt32.ofNat filled.length)
    (hdiffer : filled.length < 2 ^ 32 → (filled.map Prod.snd).Nodup) :
    (∀ recordId p, (recordId, p) ∈ numbered 0 (filled.map Prod.snd) →
        ReadsBack t dir id recordId p) ↔
      filled.length < 2 ^ 32 ∧ (stale = [] ∨ filled.length ≤ stale.length) := by
  have hmem : ∀ i p, (filled.map Prod.snd)[i]? = some p →
      (UInt32.ofNat i, p) ∈ numbered 0 (filled.map Prod.snd) := by
    intro i p hp
    exact mem_numbered.mpr ⟨i, hp, (UInt32.zero_add _).symm⟩
  by_cases hfit : filled.length < 2 ^ 32
  swap
  · -- the last id of all is told and never counted
    refine iff_of_false (fun hall => ?_) (fun hand => hfit hand.1)
    have hi : 2 ^ 32 - 1 < (filled.map Prod.snd).length := by
      rw [List.length_map]
      omega
    refine h.not_readsBack ?_ (hall _ _ (hmem _ _ (List.getElem?_eq_getElem hi)))
    have hlt := hdr.count.toNat_lt
    rw [UInt32.le_iff_toNat_le, UInt32.toNat_ofNat']
    omega
  have hback : ∀ i p, (filled.map Prod.snd)[i]? = some p →
      (ReadsBack t dir id (UInt32.ofNat i) p ↔ reached stale.length i = i) := by
    intro i p hp
    obtain ⟨op, hop, rfl⟩ : ∃ op, filled[i]? = some op ∧ op.2 = p := by
      rw [List.getElem?_map] at hp
      exact Option.map_eq_some_iff.mp hp
    obtain ⟨hi, -⟩ := List.getElem?_eq_some_iff.mp hop
    have hid : (UInt32.ofNat i).toNat = i := by
      rw [UInt32.toNat_ofNat', Nat.mod_eq_of_lt (Nat.lt_trans hi hfit)]
    have hcounted : UInt32.ofNat i < hdr.count := by
      rw [UInt32.lt_iff_toNat_lt, hcount, hid, UInt32.toNat_ofNat', Nat.mod_eq_of_lt hfit]
      exact hi
    rw [h.readsBack_iff hsize hstale hcounted (by rw [hid]; exact hi)
      (hsize op (List.mem_of_getElem? hop)), hid]
    constructor
    · intro hreached
      have hlt : reached stale.length i < (filled.map Prod.snd).length := by
        rw [List.length_map]
        exact reached_lt hi
      exact (List.getElem?_inj hlt (hdiffer hfit)).mp (hreached.trans hp.symm)
    · intro hreached
      rw [hreached, hp]
  rw [and_iff_right hfit, ← List.length_eq_zero_iff, ← reached_eq_iff]
  constructor
  · intro hall i hi
    have hp : (filled.map Prod.snd)[i]? = some filled[i].2 := by
      rw [List.getElem?_map, List.getElem?_eq_getElem hi, Option.map_some]
    exact (hback i _ hp).mp (hall _ _ (hmem i _ hp))
  · intro hall recordId p hnum
    obtain ⟨i, hp, rfl⟩ := mem_numbered.mp hnum
    obtain ⟨hi, -⟩ := List.getElem?_eq_some_iff.mp hp
    rw [List.length_map] at hi
    rw [UInt32.zero_add]
    exact (hback i p hp).mpr (hall i hi)

end Leftover

end SeaStore.Block
