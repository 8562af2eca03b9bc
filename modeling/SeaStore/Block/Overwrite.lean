import SeaStore.Block.Batch
import SeaStore.Block.Place
import SeaStore.Block.Update

/-!
Updates whose payload has another length than the record. The new frame goes
over the old one and, where it is longer, over the records behind. A reader looks
at the length field of a frame and at the payload, so that a record behind is
still read as before exactly when none of those bytes has changed.
-/
namespace SeaStore.Block

open Posix

def framePlace (filled : List (Ambient × Payload)) (i : ℕ) : ℕ :=
  (dataBytes (filled.take i)).length

/-- Where the new frame of record `i` reaches the length field or the payload of
a counted record behind it, it has the bytes that are there. -/
def Unharmed (filled : List (Ambient × Payload)) (count i : ℕ) (a : Ambient) (p : Payload) : Prop :=
  ∀ j old, i < j → j < count → filled[j]? = some old →
    ∀ k, framePlace filled j + 4 ≤ k → k < framePlace filled j + 8 + old.2.bytes.length →
      k < framePlace filled i + (p.frame a).length →
        (p.frame a)[k - framePlace filled i]? = (dataBytes filled)[k]?

/-- The record reads back its new payload, and every other id what it read before. -/
def UpdateRight (t t' : FileTree SeaPath) (dir : String) (id : UInt64) (recordId : UInt32)
    (p : Payload) : Prop :=
  ReadsBack t' dir id recordId p ∧ ∀ other, other ≠ recordId → ∀ bufLen : Int32,
    ((queryFresh dir id other bufLen).run serve t').map Prod.fst =
      ((queryFresh dir id other bufLen).run serve t).map Prod.fst

/-- What a query makes of the bytes that it finds. -/
def answerWith (bufLen : Int32) (data : Bytes) : QueryResult :=
  if bufLen.toUInt32 < UInt32.ofNat data.length then ⟨ENOENT, none⟩ else ⟨0, some data⟩

/-- The payload that the loop finds at one offset of a data file, none if it is cut. -/
def payloadAt (data : Bytes) (offset : ℕ) : Bytes := ((scan data 0 [offset]).head?).getD []

variable {t t' : FileTree SeaPath} {dir : String} {id : UInt64} {hdr : SeaBlockIndexHeader}
  {f g : File} {entries : List SeaBlockIndexEntry} {filled : List (Ambient × Payload)}
  {recordId : UInt32} {a : Ambient} {p : Payload}

theorem run_seaBlockOpen_bytes (hf : t (.data dir id) = some f) (hg : t (.index dir id) = some g)
    (hbytes : g.bytes = hdr.bytes ++ entries.flatMap SeaBlockIndexEntry.bytes) :
    (seaBlockOpen dir id).run serve t = some (some (openedBlock dir id hdr), t) := by
  simp [seaBlockOpen, seaBlockDataOpen, run_openFile_some false hf, run_seaBlockIndexOpen hg hbytes,
    openedBlock]

/-- A query on a fresh handle, whatever is in the data file at the entry's offset. -/
theorem run_queryFresh_entry (hf : t (.data dir id) = some f) (hg : t (.index dir id) = some g)
    (hbytes : g.bytes = hdr.bytes ++ entries.flatMap SeaBlockIndexEntry.bytes)
    (hcount : ¬ hdr.count ≤ recordId) {e : SeaBlockIndexEntry}
    (he : entries[recordId.toNat]? = some e)
    (hin : e.offset.toNat + dataHeaderSize ≤ f.bytes.length) (bufLen : Int32) :
    (queryFresh dir id recordId bufLen).run serve t =
      some (answerWith bufLen (payloadAt f.bytes e.offset.toNat), t) := by
  have hentry := slice_indexEntry hbytes he
  have hg' : t (openedBlock dir id hdr).index.fd.path = some g := hg
  have hf' : t (openedBlock dir id hdr).data.fd.path = some f := hf
  obtain ⟨fd, hindex⟩ := run_indexQuery_entry hg' hcount (by
    rw [entryPlace, hentry, SeaBlockIndexEntry.bytes_length])
  rw [entryPlace, hentry, SeaBlockIndexEntry.ofBytes_bytes] at hindex
  obtain ⟨data, hloop⟩ := run_queryLoop hf' seaBlockRecordMalloc [e.offset] (by simpa using hin)
  unfold queryFresh
  rw [Program.run_bind_of_run serve (run_seaBlockOpen_bytes hf hg hbytes)]
  simp only []
  unfold seaBlockQueryByRecordId
  rw [Program.run_bind, Program.run_bind_of_run serve hindex]
  simp only [seaBlockDataQueryByOffsets]
  rw [Program.run_bind_of_run serve hloop]
  have hfirst : (seaBlockRecordGetFirst (seaBlockRecordMalloc ++ scan f.bytes
      (openedBlock dir id hdr).data.fd.pos ([e.offset].map UInt64.toNat))).getD [] =
        payloadAt f.bytes e.offset.toNat := rfl
  simp only [hfirst, answerWith]
  by_cases hbuf : bufLen.toUInt32 < UInt32.ofNat (payloadAt f.bytes e.offset.toNat).length
  · simp only [if_pos hbuf]
    rfl
  · simp only [if_neg hbuf]
    rfl

theorem run_queryFresh_past (hf : t (.data dir id) = some f) (hg : t (.index dir id) = some g)
    (hbytes : g.bytes = hdr.bytes ++ entries.flatMap SeaBlockIndexEntry.bytes)
    (hcount : hdr.count ≤ recordId) (bufLen : Int32) :
    (queryFresh dir id recordId bufLen).run serve t = some (⟨EINVAL, none⟩, t) := by
  have hpast : (openedBlock dir id hdr).index.header.count ≤ recordId := hcount
  unfold queryFresh
  rw [Program.run_bind_of_run serve (run_seaBlockOpen_bytes hf hg hbytes)]
  simp only []
  unfold seaBlockQueryByRecordId
  rw [Program.run_bind, Program.run_bind_of_run serve (run_indexQuery_past hpast)]
  rfl

/-- With every buffer the same answer comes from the same bytes only. -/
theorem answerWith_eq_iff (x y : Bytes) :
    (∀ bufLen, answerWith bufLen x = answerWith bufLen y) ↔ x = y := by
  constructor
  · intro h
    -- no length is above the largest buffer
    have hnot : ∀ n : UInt32, ¬ (-1 : Int32).toUInt32 < n := by
      intro n hn
      have hlt := n.toNat_lt
      rw [UInt32.lt_iff_toNat_lt, show (-1 : Int32).toUInt32.toNat = 2 ^ 32 - 1 by decide] at hn
      omega
    have hbig := h (-1)
    rw [answerWith, answerWith, if_neg (hnot _), if_neg (hnot _)] at hbig
    simpa using hbig
  · rintro rfl bufLen
    rfl

section Payload

variable {data other : Bytes} {offset : ℕ}

theorem dataHeaderLength_slice (data : Bytes) (offset : ℕ) :
    dataHeaderLength (slice data offset dataHeaderSize) = readLe32 (slice data (offset + 4) 4) := by
  rw [dataHeaderLength, slice_slice data (by rw [dataHeaderSize])]

/-- What is found at an offset are as many bytes behind the header as it tells,
or none when there are fewer. -/
theorem payloadAt_eq (hfit : offset + dataHeaderSize ≤ data.length) (hmax : offset ≤ offMax)
    {length : ℕ} (hlength : (readLe32 (slice data (offset + 4) 4)).toNat = length) :
    payloadAt data offset =
      if (slice data (offset + dataHeaderSize) length).length ≠ length then []
      else slice data (offset + dataHeaderSize) length := by
  have hland : landing 0 offset = offset := by
    rw [landing, Nat.zero_add, if_pos hmax]
  have hfull : (slice data offset dataHeaderSize).length = dataHeaderSize := by
    rw [slice_length]
    omega
  simp only [payloadAt, scan, hland, hfull, ne_eq, not_true_eq_false, if_false,
    dataHeaderLength_slice, hlength]
  by_cases hwhole : (slice data (offset + dataHeaderSize) length).length = length
  · rw [if_neg (not_not.mpr hwhole), if_neg (not_not.mpr hwhole)]
    rfl
  · rw [if_pos hwhole, if_pos hwhole]
    rfl

/-- Where one file has a frame, another gives the same payload exactly when it has
the same length field and the same payload bytes there. -/
theorem payloadAt_eq_iff (hframe : FrameAt data offset p)
    (hfit : offset + dataHeaderSize ≤ other.length) (hmax : offset ≤ offMax) :
    payloadAt other offset = p.bytes ↔
      ∀ k, offset + 4 ≤ k → k < offset + 8 + p.bytes.length → other[k]? = data[k]? := by
  have height : dataHeaderSize = 8 := rfl
  have hend := hframe.end_le
  obtain ⟨-, hlength⟩ := hframe.header
  rw [dataHeaderLength_slice] at hlength
  have hsplit : (∀ k, offset + 4 ≤ k → k < offset + 8 + p.bytes.length → other[k]? = data[k]?) ↔
      slice other (offset + 4) 4 = slice data (offset + 4) 4 ∧
        slice other (offset + dataHeaderSize) p.bytes.length = p.bytes := by
    have hrest : slice other (offset + dataHeaderSize) p.bytes.length = p.bytes ↔
        slice other (offset + dataHeaderSize) p.bytes.length =
          slice data (offset + dataHeaderSize) p.bytes.length := by
      rw [hframe.payload]
    rw [hrest, slice_eq_iff, slice_eq_iff]
    constructor
    · intro h
      exact ⟨fun k hk hk' => h k hk (by omega), fun k hk hk' => h k (by omega) (by omega)⟩
    · rintro ⟨hfield, hrest⟩ k hk hk'
      by_cases hin : k < offset + 4 + 4
      · exact hfield k hk hin
      · exact hrest k (by omega) (by omega)
  obtain ⟨length, hfound⟩ : ∃ length, (readLe32 (slice other (offset + 4) 4)).toNat = length :=
    ⟨_, rfl⟩
  rw [hsplit, payloadAt_eq hfit hmax hfound]
  constructor
  · intro h
    by_cases hwhole : (slice other (offset + dataHeaderSize) length).length = length
    · rw [if_neg (not_not.mpr hwhole)] at h
      have hlen : length = p.bytes.length := by rw [← hwhole, h]
      rw [hlen] at h hfound
      refine ⟨?_, h⟩
      have hsame : readLe32 (slice other (offset + 4) 4) =
          readLe32 (slice data (offset + 4) 4) := by
        rw [← UInt32.toNat_inj, hfound, hlength]
      have hfull : ∀ bytes : Bytes, offset + 8 ≤ bytes.length →
          (slice bytes (offset + 4) 4).length = 4 := by
        intro bytes hle
        rw [slice_length]
        omega
      rw [← le32_readLe32 _ (hfull other hfit), hsame, le32_readLe32 _ (hfull data (by omega))]
    · rw [if_pos hwhole] at h
      exact absurd h.symm p.ne_nil
  · rintro ⟨hfield, hrest⟩
    rw [hfield, hlength] at hfound
    subst hfound
    rw [if_neg (by rw [hrest]; exact not_not.mpr rfl), hrest]

end Payload

section Frames

variable {i j : ℕ} {old : Ambient × Payload}

theorem framePlace_succ (hold : filled[i]? = some old) :
    framePlace filled (i + 1) = framePlace filled i + old.2.bytes.length + 16 := by
  rw [framePlace, List.take_add_one, hold, Option.toList_some, dataBytes_append,
    List.length_append, dataBytes_cons, List.length_append, Payload.frame_length]
  simp [framePlace, dataBytes, Nat.add_assoc]

theorem framePlace_mono (filled : List (Ambient × Payload)) (hle : i ≤ j) :
    framePlace filled i ≤ framePlace filled j := by
  have hfront : filled.take i = (filled.take j).take i := by
    rw [List.take_take, Nat.min_eq_left hle]
  obtain ⟨rest, hrest⟩ : ∃ rest, filled.take j = filled.take i ++ rest :=
    ⟨(filled.take j).drop i, by rw [hfront, List.take_append_drop]⟩
  rw [framePlace, framePlace, hrest, dataBytes_append, List.length_append]
  exact Nat.le_add_right _ _

theorem framePlace_frameAt (hold : filled[i]? = some old) :
    FrameAt (dataBytes filled) (framePlace filled i) old.2 :=
  frameAt_of_located (List.mem_of_getElem? (located_getElem? hold))

/-- Of another record, a new frame changes what it has behind the new frame's
place: nothing of the records before it. -/
theorem payloadAt_overlay_iff {first : Ambient × Payload} (hfirst : filled[i]? = some first)
    (hold : filled[j]? = some old) (hne : j ≠ i) (hmax : (dataBytes filled).length ≤ offMax) :
    payloadAt (overlay (dataBytes filled) (framePlace filled i) (p.frame a))
        (framePlace filled j) = old.2.bytes ↔
      (i < j → ∀ k, framePlace filled j + 4 ≤ k → k < framePlace filled j + 8 + old.2.bytes.length →
        k < framePlace filled i + (p.frame a).length →
          (p.frame a)[k - framePlace filled i]? = (dataBytes filled)[k]?) := by
  have hframe := framePlace_frameAt hold
  have hend := hframe.end_le
  have hin := (framePlace_frameAt hfirst).end_le
  have hgrow := length_le_overlay (dataBytes filled) (framePlace filled i) (p.frame a)
  rw [payloadAt_eq_iff hframe (by simp only [dataHeaderSize]; omega) (by omega)]
  have hplace : framePlace filled i ≤ (dataBytes filled).length := by omega
  constructor
  · intro h hij k hk hk' hreach
    have hsucc := framePlace_succ hfirst
    have hmono := framePlace_mono filled (show i + 1 ≤ j by omega)
    have hsame := h k hk hk'
    rwa [getElem?_overlay hplace, if_pos ⟨by omega, hreach⟩] at hsame
  · intro h k hk hk'
    rw [getElem?_overlay hplace]
    by_cases hover : framePlace filled i ≤ k ∧ k < framePlace filled i + (p.frame a).length
    · rw [if_pos hover]
      rcases Nat.lt_or_gt_of_ne hne with hji | hij
      · -- a record in front ends before the new frame begins
        have hsucc := framePlace_succ hold
        have hmono := framePlace_mono filled (show j + 1 ≤ i by omega)
        omega
      · exact h hij k hk hk' hover.2
    · rw [if_neg hover]

end Frames

/-- An update that returns zero has written its frame over the one of its record. -/
theorem updated_of_ret {block block' : SeaBlock} (hon : block.On dir id)
    (h : LaidOut t dir id block.index.header filled)
    (hcount : block.index.header.count.toNat ≤ filled.length)
    (hrun : (seaBlockUpdate a .whole block recordId p.bytes p.length).run serve t =
      some ((0, block'), t')) :
    ∃ f' old, recordId < block.index.header.count ∧ filled[recordId.toNat]? = some old ∧
      t' = t.set (.data dir id) f' ∧
      f'.bytes = overlay (dataBytes filled) (framePlace filled recordId.toNat) (p.frame a) := by
  obtain ⟨f, g, entries, hf, hg, hst, hdata, hoffsets⟩ := h
  have hcounted : ¬ block.index.header.count ≤ recordId := by
    intro hpast
    rw [run_seaBlockUpdate_past hpast] at hrun
    exact absurd (Prod.mk.inj (Prod.mk.inj (Option.some.inj hrun)).1).1 (by decide)
  have hlt : recordId.toNat < filled.length := by
    rw [UInt32.le_iff_toNat_le] at hcounted
    omega
  have hold : filled[recordId.toNat]? = some filled[recordId.toNat] := List.getElem?_eq_getElem hlt
  obtain ⟨e, he, hoffset⟩ := entry_of_located hoffsets hold
  have hend := (framePlace_frameAt hold).end_le
  have hmax := f.size_le
  rw [hdata] at hmax
  have hg' : t block.index.fd.path = some g := by rw [hon.index_path]; exact hg
  have hf' : t block.data.fd.path = some f := by rw [hon.data_path]; exact hf
  obtain ⟨fd, -, hquery⟩ := run_indexQuery_hit hg' hst hcounted he
  have hpos : (block.data.fd.seekSet (seaBlockOffsetGet { seaBlockOffsetMalloc with
      offset := [e.offset] } 0)).pos = framePlace filled recordId.toNat := by
    show (block.data.fd.seekSet e.offset).pos = _
    have hplace : framePlace filled recordId.toNat = e.offset.toNat := hoffset.symm
    rw [hplace, Fd.seekSet_of_le (by omega)]
  obtain ⟨fd', -, hinsert⟩ := run_insertByOffsets hf' _ a .whole p hpos
  unfold seaBlockUpdate at hrun
  rw [Program.run_bind_of_run serve hquery] at hrun
  simp only [] at hrun
  rw [Program.run_bind_of_run serve hinsert, hon.data_path] at hrun
  obtain ⟨hpair, rfl⟩ := Prod.mk.inj (Option.some.inj hrun)
  have hret := (Prod.mk.inj hpair).1
  refine ⟨_, _, UInt32.not_le.mp hcounted, hold, rfl, ?_⟩
  by_cases hok : (f.write (framePlace filled recordId.toNat) (p.frame a) .whole).1 =
      .ok (p.frame a).length
  · rw [File.write_ok_bytes hok, hdata]
  · simp only [if_neg hok] at hret
    exact absurd hret (by decide)

section Others

variable {f' : File}

theorem update_readsBack (hf : t (.data dir id) = some f') (hg : t (.index dir id) = some g)
    (hindex : g.bytes = hdr.bytes ++ entries.flatMap SeaBlockIndexEntry.bytes)
    (hoffsets : entries.map (fun e => e.offset.toNat) = (located 0 filled).map Prod.fst)
    (hcounted : recordId < hdr.count) {old : Ambient × Payload}
    (hold : filled[recordId.toNat]? = some old)
    (hbytes : f'.bytes =
      overlay (dataBytes filled) (framePlace filled recordId.toNat) (p.frame a)) :
    ReadsBack t dir id recordId p := by
  obtain ⟨e, he, hoffset⟩ := entry_of_located hoffsets hold
  have hin := (framePlace_frameAt hold).end_le
  have hplace : framePlace filled recordId.toNat = e.offset.toNat := hoffset.symm
  have hframe : FrameAt f'.bytes e.offset.toNat p := by
    rw [hbytes, hplace]
    exact frameAt_overlay (by omega) a p
  have hend := hframe.end_le
  have hmax := f'.size_le
  have hfit : e.offset.toNat + dataHeaderSize ≤ f'.bytes.length := by
    simp only [dataHeaderSize]
    omega
  intro bufLen hbuf
  rw [run_queryFresh_entry hf hg hindex (UInt32.not_le.mpr hcounted) he hfit,
    (payloadAt_eq_iff hframe hfit (by omega)).mpr (fun _ _ _ => rfl), answerWith,
    if_neg (bufLen_lt_iff p hbuf)]

/-- Another counted record is answered as before exactly when its payload is
still found at its place. -/
theorem update_sameAnswers {other : UInt32} (hf : t (.data dir id) = some f)
    (hg : t (.index dir id) = some g)
    (hindex : g.bytes = hdr.bytes ++ entries.flatMap SeaBlockIndexEntry.bytes)
    (hdata : f.bytes = dataBytes filled)
    (hoffsets : entries.map (fun e => e.offset.toNat) = (located 0 filled).map Prod.fst)
    (hother : other < hdr.count) {r : Ambient × Payload} (hr : filled[other.toNat]? = some r)
    (hgrow : f.bytes.length ≤ f'.bytes.length) :
    (∀ bufLen : Int32,
      ((queryFresh dir id other bufLen).run serve (t.set (.data dir id) f')).map Prod.fst =
        ((queryFresh dir id other bufLen).run serve t).map Prod.fst) ↔
      payloadAt f'.bytes (framePlace filled other.toNat) = r.2.bytes := by
  have hf' : t.set (.data dir id) f' (.data dir id) = some f' := FileTree.set_self _ _ _
  have hg' : t.set (.data dir id) f' (.index dir id) = some g := by
    rw [FileTree.set_other _ _ (by simp), hg]
  obtain ⟨e, he, hoffset⟩ := entry_of_located hoffsets hr
  have hframe := framePlace_frameAt hr
  rw [← hdata] at hframe
  have hend := hframe.end_le
  have hmax := f.size_le
  have hfit : framePlace filled other.toNat + dataHeaderSize ≤ f.bytes.length := by
    simp only [dataHeaderSize]
    omega
  have hsame := (payloadAt_eq_iff hframe hfit (by omega)).mpr (fun _ _ _ => rfl)
  have hpast := UInt32.not_le.mpr hother
  have hplace : framePlace filled other.toNat = e.offset.toNat := hoffset.symm
  rw [hplace] at hfit hsame ⊢
  simp only [run_queryFresh_entry hf' hg' hindex hpast he (Nat.le_trans hfit hgrow),
    run_queryFresh_entry hf hg hindex hpast he hfit, Option.map_some, Option.some.injEq,
    answerWith_eq_iff]
  rw [hsame]

/-- Such an update touches one record only exactly when what its frame puts over
the records behind is what they have there. -/
theorem updateRight_iff (h : LaidOut t dir id hdr filled) (hcount : hdr.count.toNat ≤ filled.length)
    (hcounted : recordId < hdr.count) {old : Ambient × Payload}
    (hold : filled[recordId.toNat]? = some old)
    (hbytes : f'.bytes =
      overlay (dataBytes filled) (framePlace filled recordId.toNat) (p.frame a)) :
    UpdateRight t (t.set (.data dir id) f') dir id recordId p ↔
      Unharmed filled hdr.count.toNat recordId.toNat a p := by
  obtain ⟨f, g, entries, hf, hg, hst, hdata, hoffsets⟩ := h
  have hf' : t.set (.data dir id) f' (.data dir id) = some f' := FileTree.set_self _ _ _
  have hg' : t.set (.data dir id) f' (.index dir id) = some g := by
    rw [FileTree.set_other _ _ (by simp), hg]
  have hmax := f.size_le
  rw [hdata] at hmax
  have hgrow : f.bytes.length ≤ f'.bytes.length := by
    rw [hbytes, hdata]
    exact length_le_overlay _ _ _
  have hback := update_readsBack hf' hg' hst.index_bytes hoffsets hcounted hold hbytes
  have hsame : ∀ other, other < hdr.count → other ≠ recordId → ∀ r,
      filled[other.toNat]? = some r → ((∀ bufLen : Int32,
        ((queryFresh dir id other bufLen).run serve (t.set (.data dir id) f')).map Prod.fst =
          ((queryFresh dir id other bufLen).run serve t).map Prod.fst) ↔
        payloadAt (overlay (dataBytes filled) (framePlace filled recordId.toNat) (p.frame a))
          (framePlace filled other.toNat) = r.2.bytes) := by
    intro other hother _ r hr
    rw [← hbytes]
    exact update_sameAnswers hf hg hst.index_bytes hdata hoffsets hother hr hgrow
  constructor
  · rintro ⟨-, hothers⟩ j r hij hj hr
    have hlt := hdr.count.toNat_lt
    obtain ⟨other, rfl⟩ : ∃ other : UInt32, other.toNat = j :=
      ⟨UInt32.ofNat j, by rw [UInt32.toNat_ofNat']; exact Nat.mod_eq_of_lt (by omega)⟩
    have hne : other ≠ recordId := by
      rintro rfl
      exact Nat.lt_irrefl _ hij
    have hkept := (hsame other (UInt32.lt_iff_toNat_lt.mpr hj) hne r hr).mp (hothers other hne)
    exact (payloadAt_overlay_iff hold hr (Nat.ne_of_gt hij) hmax).mp hkept hij
  · intro hsafe
    refine ⟨hback, ?_⟩
    intro other hne
    by_cases hother : other < hdr.count
    · have hlt := UInt32.lt_iff_toNat_lt.mp hother
      have hin : other.toNat < filled.length := Nat.lt_of_lt_of_le hlt hcount
      have hr : filled[other.toNat]? = some filled[other.toNat] := List.getElem?_eq_getElem hin
      have hne' : other.toNat ≠ recordId.toNat := fun heq => hne (UInt32.toNat_inj.mp heq)
      apply (hsame other hother hne _ hr).mpr
      exact (payloadAt_overlay_iff hold hr hne' hmax).mpr fun hij => hsafe _ _ hij hlt hr
    · have hpast := UInt32.not_lt.mp hother
      intro bufLen
      rw [run_queryFresh_past hf' hg' hst.index_bytes hpast,
        run_queryFresh_past hf hg hst.index_bytes hpast]
      rfl

end Others

/-- A payload at most four bytes longer reaches no field that is read: a frame
header begins with its magic, a flag and a pad. -/
theorem unharmed_of_le {i : ℕ} {old : Ambient × Payload} (hold : filled[i]? = some old)
    (hlen : p.bytes.length ≤ old.2.bytes.length + 4) (count : ℕ) (a : Ambient) :
    Unharmed filled count i a p := by
  intro j r hij _ hr k hk _ hreach
  have hsucc := framePlace_succ hold
  have hmono := framePlace_mono filled (show i + 1 ≤ j by omega)
  rw [p.frame_length] at hreach
  omega

/-- An update that returns zero touches one record only exactly when its frame
leaves the records behind unharmed. -/
theorem updateRet_right_iff {block block' : SeaBlock} (hon : block.On dir id)
    (h : LaidOut t dir id block.index.header filled)
    (hcount : block.index.header.count = UInt32.ofNat filled.length)
    (hrun : (seaBlockUpdate a .whole block recordId p.bytes p.length).run serve t =
      some ((0, block'), t')) :
    UpdateRight t t' dir id recordId p ↔
      Unharmed filled (filled.length % 2 ^ 32) recordId.toNat a p := by
  have hnat : block.index.header.count.toNat = filled.length % 2 ^ 32 := by
    rw [hcount, UInt32.toNat_ofNat']
  have hle : block.index.header.count.toNat ≤ filled.length := by
    rw [hnat]
    exact Nat.mod_le _ _
  obtain ⟨f', old, hcounted, hold, rfl, hbytes⟩ := updated_of_ret hon h hle hrun
  rw [← hnat]
  exact updateRight_iff h hle hcounted hold hbytes

section Run

variable {now maxSize maxCount : UInt64} {w₀ w : Writer} {block' : SeaBlock}

/-- So it is on every block that appends have filled. -/
theorem updateRun_right_iff (habs : Absent t dir id)
    (hnew : newWriter dir id t now maxSize maxCount = some w₀)
    (hfill : runSteps appendStep w₀ filled = some w)
    (hrun : (seaBlockUpdate a .whole w.block recordId p.bytes p.length).run serve w.tree =
      some ((0, block'), t')) :
    UpdateRight w.tree t' dir id recordId p ↔
      Unharmed filled (filled.length % 2 ^ 32) recordId.toNat a p := by
  obtain ⟨hlaid, hcount⟩ := fill_laidOut habs hnew hfill
  have hon := (appendRun_held (newWriter_held habs hnew).1 hfill).1.1
  exact updateRet_right_iff hon hlaid hcount hrun

/-- Two records of one byte, the first of which is updated; it succeeds if it is computed to. -/
theorem update_first_of_two {p : Payload} (h : (do
    let w₀ ← newWriter "" 0 (fun _ => none) 0 0 0
    let w ← runSteps appendStep w₀ [(.clear 0, .single 97), (.clear 0, .single 98)]
    match (seaBlockUpdate (.clear 0) .whole w.block 0 p.bytes p.length).run serve w.tree with
    | some ((0, block), tree) => some (block, tree)
    | _ => none : Option (SeaBlock × FileTree SeaPath)).isSome) :
    ∃ w₀ w block' t', newWriter "" 0 (fun _ => none) 0 0 0 = some w₀ ∧
      runSteps appendStep w₀ [(.clear 0, .single 97), (.clear 0, .single 98)] = some w ∧
      (seaBlockUpdate (.clear 0) .whole w.block 0 p.bytes p.length).run serve w.tree =
        some ((0, block'), t') := by
  obtain ⟨⟨block', t'⟩, hall⟩ := Option.isSome_iff_exists.mp h
  obtain ⟨w₀, hnew, hall⟩ := Option.bind_eq_some_iff.mp hall
  obtain ⟨w, hfill, hall⟩ := Option.bind_eq_some_iff.mp hall
  split at hall
  · rename_i block tree hrun
    exact ⟨w₀, w, block, tree, hnew, hfill, hrun⟩
  · exact absurd hall (by simp)

/-- Ten bytes in the place of the first of two records of one byte: the second
one is not found any more. -/
theorem updateRun_right_too_long :
    ∃ p w₀ w block' t', p.bytes = List.replicate 10 99 ∧
      newWriter "" 0 (fun _ => none) 0 0 0 = some w₀ ∧
      runSteps appendStep w₀ [(.clear 0, .single 97), (.clear 0, .single 98)] = some w ∧
      (seaBlockUpdate (.clear 0) .whole w.block 0 p.bytes p.length).run serve w.tree =
        some ((0, block'), t') ∧
      ¬ UpdateRight w.tree t' "" 0 0 p := by
  obtain ⟨p, hp⟩ : ∃ p : Payload, p = ⟨List.replicate 10 99, by simp, by decide⟩ := ⟨_, rfl⟩
  obtain ⟨w₀, w, block', t', hnew, hfill, hrun⟩ := update_first_of_two (p := p) (by
    rw [hp]
    decide +kernel)
  obtain ⟨hlaid, hcount⟩ := fill_laidOut ⟨rfl, rfl⟩ hnew hfill
  have hon := (appendRun_held (newWriter_held ⟨rfl, rfl⟩ hnew).1 hfill).1.1
  refine ⟨p, w₀, w, block', t', by rw [hp], hnew, hfill, hrun, ?_⟩
  rw [updateRet_right_iff hon hlaid hcount hrun]
  -- the lowest byte of the second record's length field
  intro hsafe
  have hbyte := hsafe 1 (.clear 0, .single 98) (by decide) (by decide) rfl 21 (by decide)
    (by decide) (by rw [hp]; decide)
  rw [hp] at hbyte
  exact absurd hbyte (by decide)

/-- Three bytes in its place reach no field of the second record that is read. -/
theorem updateRun_right_longer :
    ∃ p w₀ w block' t', p.bytes = List.replicate 3 99 ∧
      newWriter "" 0 (fun _ => none) 0 0 0 = some w₀ ∧
      runSteps appendStep w₀ [(.clear 0, .single 97), (.clear 0, .single 98)] = some w ∧
      (seaBlockUpdate (.clear 0) .whole w.block 0 p.bytes p.length).run serve w.tree =
        some ((0, block'), t') ∧
      UpdateRight w.tree t' "" 0 0 p := by
  obtain ⟨p, hp⟩ : ∃ p : Payload, p = ⟨List.replicate 3 99, by simp, by decide⟩ := ⟨_, rfl⟩
  obtain ⟨w₀, w, block', t', hnew, hfill, hrun⟩ := update_first_of_two (p := p) (by
    rw [hp]
    decide +kernel)
  refine ⟨p, w₀, w, block', t', by rw [hp], hnew, hfill, hrun, ?_⟩
  have hlen : p.bytes.length ≤ (Payload.single 97).bytes.length + 4 := by
    rw [hp]
    decide
  exact (updateRun_right_iff ⟨rfl, rfl⟩ hnew hfill hrun).mpr
    (unharmed_of_le (i := 0) rfl hlen _ _)

end Run

end SeaStore.Block
