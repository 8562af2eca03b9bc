import SeaStore.Block.Layout

/-!
Batch queries. The loop over the offsets reuses one descriptor, and its first
seek is relative: after a record it looks for the next frame's header at the sum
of that frame's offset and the end of the payload just read. The batch agrees
with single queries exactly when the eight bytes found there happen to carry the
right lengths, and when the sum of the two arguments stays within 32 bits.
-/
namespace SeaStore.Block

open Posix

/-- The records `first` to `first + count - 1`, with their offsets. -/
def window (filled : List (Ambient × Payload)) (first count : ℕ) : List (ℕ × Payload) :=
  ((located 0 filled).drop first).take count

theorem window_frameAt (filled : List (Ambient × Payload)) (first count : ℕ) :
    ∀ r ∈ window filled first count, FrameAt (dataBytes filled) r.1 r.2 := by
  intro r hr
  exact frameAt_of_located (List.mem_of_mem_drop (List.mem_of_mem_take hr))

/-- Where a relative seek leads; out of range it leads nowhere. -/
def landing (pos offset : ℕ) : ℕ := if pos + offset ≤ offMax then pos + offset else pos

/-- The eight bytes at `pos` are there, and read as a frame header they tell `length`. -/
def Carries (data : Bytes) (pos length : ℕ) : Prop :=
  (slice data pos dataHeaderSize).length = dataHeaderSize ∧
    (dataHeaderLength (slice data pos dataHeaderSize)).toNat = length

/-- The loop goes no further than `pos`, whatever offset comes next: there is no
header where it looks, or one whose payload would run out of the file. -/
def Stops (data : Bytes) (pos : ℕ) : List ℕ → Prop
  | [] => True
  | offset :: _ => ∀ length, Carries data (landing pos offset) length →
      data.length < offset + dataHeaderSize + length

/-- From `pos` on the relative seeks land on bytes that carry the lengths of the
records, one after the other, and the loop stops after the last. -/
def Follows (data : Bytes) : ℕ → List (ℕ × Payload) → List ℕ → Prop
  | pos, [], beyond => Stops data pos beyond
  | pos, (offset, p) :: rest, beyond =>
    Carries data (landing pos offset) p.bytes.length ∧
      Follows data (offset + dataHeaderSize + p.bytes.length) rest beyond

def batchFresh (dir : String) (blockId : UInt64) (firstRecordId count : UInt32) :
    Prog (Option SeaBlockRecord) := do
  match ← seaBlockOpen dir blockId with
  | none => return none
  | some block =>
    let (records, _, block) ← seaBlockQueryByCount block firstRecordId count
    seaBlockClose block
    return records

/-- The batch returns the records from `first` on, as many as asked for or left,
each as a single query on a fresh handle with the largest buffer does. -/
def BatchAgrees (t : FileTree SeaPath) (dir : String) (id : UInt64) (n first count : UInt32) :
    Prop :=
  ∃ records, (batchFresh dir id first count).run serve t = some (some records, t) ∧
    records.length = min count.toNat (n.toNat - first.toNat) ∧
    ∀ i record, records[i]? = some record →
      (queryFresh dir id (first + UInt32.ofNat i) Int32.maxValue).run serve t =
        some (⟨0, some record⟩, t)

def scan (data : Bytes) : ℕ → List ℕ → List Bytes
  | _, [] => []
  | pos, offset :: rest =>
    let header := slice data (landing pos offset) dataHeaderSize
    if header.length ≠ dataHeaderSize then []
    else
      let length := (dataHeaderLength header).toNat
      let payload := slice data (offset + dataHeaderSize) length
      if payload.length ≠ length then []
      else payload :: scan data (offset + dataHeaderSize + length) rest

variable {t : FileTree SeaPath} {dir : String} {id : UInt64} {hdr : SeaBlockIndexHeader}
  {recs : List Payload} {f g : File} {entries : List SeaBlockIndexEntry}

theorem seekCur_landing {fd : Fd SeaPath} {offset : UInt64} (h : offset.toNat ≤ offMax) :
    fd.seekCur offset = { fd with pos := landing fd.pos offset.toNat } := by
  unfold landing
  by_cases hsum : fd.pos + offset.toNat ≤ offMax
  · rw [if_pos hsum]
    exact Fd.seekCur_of_le h hsum
  · have hrange : ¬ (0 ≤ (fd.pos : ℤ) + offset.toNat ∧ (fd.pos : ℤ) + offset.toNat ≤ offMax) := by
      omega
    rw [if_neg hsum, Fd.seekCur, Fd.moveTo, Fd.offT_of_le h, if_neg hrange]

theorem run_queryLoop {fd : Fd SeaPath} (hf : t fd.path = some f) (records : SeaBlockRecord)
    (offsets : List UInt64) (hin : ∀ o ∈ offsets, o.toNat + dataHeaderSize ≤ f.bytes.length) :
    ∃ data, (seaBlockDataQueryLoop ⟨fd⟩ records offsets).run serve t =
      some ((records ++ scan f.bytes fd.pos (offsets.map UInt64.toNat), data), t) := by
  induction offsets generalizing fd records with
  | nil => exact ⟨⟨fd⟩, by simp [seaBlockDataQueryLoop, scan]⟩
  | cons offset rest ih =>
    have hfit := hin offset List.mem_cons_self
    have hmax := f.size_le
    have hrest : ∀ o ∈ rest, o.toNat + dataHeaderSize ≤ f.bytes.length := by
      intro o ho
      exact hin o (List.mem_cons_of_mem offset ho)
    have hnat : (offset + UInt64.ofNat dataHeaderSize).toNat = offset.toNat + dataHeaderSize := by
      simp only [UInt64.toNat_add, UInt64.toNat_ofNat', dataHeaderSize, offMax] at hmax hfit ⊢
      omega
    rw [seaBlockDataQueryLoop, seekCur_landing (by omega)]
    rw [Program.run_bind_of_run serve
      (run_read ⟨fd.path, landing fd.pos offset.toNat⟩ dataHeaderSize hf)]
    simp only [List.map_cons, scan]
    generalize slice f.bytes (landing fd.pos offset.toNat) dataHeaderSize = header
    by_cases hshort : header.length ≠ dataHeaderSize
    · rw [if_pos hshort, if_pos hshort, List.append_nil]
      exact ⟨_, rfl⟩
    rw [if_neg hshort, if_neg hshort, Fd.seekSet_of_le (by omega), hnat]
    rw [Program.run_bind_of_run serve (run_read ⟨fd.path, offset.toNat + dataHeaderSize⟩
      (dataHeaderLength header).toNat hf)]
    simp only
    generalize hpayload : slice f.bytes (offset.toNat + dataHeaderSize)
      (dataHeaderLength header).toNat = payload
    by_cases hcut : payload.length ≠ (dataHeaderLength header).toNat
    · rw [if_pos hcut, if_pos hcut, List.append_nil]
      exact ⟨_, rfl⟩
    have hwhole : payload.length = (dataHeaderLength header).toNat := not_not.mp hcut
    rw [if_neg hcut, if_neg hcut]
    have hnext : t (⟨fd.path, offset.toNat + dataHeaderSize + payload.length⟩ :
        Fd SeaPath).path = some f := hf
    obtain ⟨data, hrun⟩ := ih hnext
      (seaBlockRecordAppend records payload (dataHeaderLength header).toNat) hrest
    refine ⟨data, ?_⟩
    rw [hrun, seaBlockRecordAppend, List.take_of_length_le (Nat.le_of_eq hwhole), hwhole,
      List.append_assoc, List.singleton_append]

theorem scan_cons_eq_nil_iff {data : Bytes} {pos offset : ℕ} {rest : List ℕ}
    (hfit : offset + dataHeaderSize ≤ data.length) :
    scan data pos (offset :: rest) = [] ↔ Stops data pos (offset :: rest) := by
  unfold scan Stops Carries
  simp only
  generalize slice data (landing pos offset) dataHeaderSize = header
  by_cases hshort : header.length ≠ dataHeaderSize
  · rw [if_pos hshort]
    exact iff_of_true rfl (fun length hcarry => absurd hcarry.1 hshort)
  rw [if_neg hshort]
  generalize hlen : (dataHeaderLength header).toNat = length
  have hslice := slice_length data (offset + dataHeaderSize) length
  by_cases hcut : (slice data (offset + dataHeaderSize) length).length ≠ length
  · rw [if_pos hcut]
    refine iff_of_true rfl ?_
    rintro other ⟨-, rfl⟩
    omega
  · rw [if_neg hcut]
    refine iff_of_false (List.cons_ne_nil _ _) ?_
    intro hstop
    have hend := hstop length ⟨not_not.mp hshort, rfl⟩
    omega

/-- The scan finds the records of the window, and nothing else, exactly when it
follows them and stops after the last. -/
theorem scan_eq_iff {data : Bytes} (pos : ℕ) {records : List (ℕ × Payload)} {beyond : List ℕ}
    (hframes : ∀ r ∈ records, FrameAt data r.1 r.2)
    (hin : ∀ o ∈ beyond, o + dataHeaderSize ≤ data.length) :
    scan data pos (records.map Prod.fst ++ beyond) = records.map (fun r => r.2.bytes) ↔
      Follows data pos records beyond := by
  induction records generalizing pos with
  | nil =>
    rw [List.map_nil, List.nil_append, List.map_nil, Follows]
    cases beyond with
    | nil => exact iff_of_true rfl trivial
    | cons offset rest => exact scan_cons_eq_nil_iff (hin offset List.mem_cons_self)
  | cons r rest ih =>
    obtain ⟨offset, p⟩ := r
    have hframe : FrameAt data offset p := hframes (offset, p) List.mem_cons_self
    have hend := hframe.end_le
    have hrest : ∀ r ∈ rest, FrameAt data r.1 r.2 := by
      intro r hr
      exact hframes r (List.mem_cons_of_mem _ hr)
    rw [Follows, ← ih _ hrest]
    simp only [List.map_cons, List.cons_append, scan, Carries]
    generalize slice data (landing pos offset) dataHeaderSize = header
    by_cases hshort : header.length ≠ dataHeaderSize
    · rw [if_pos hshort]
      refine iff_of_false (List.cons_ne_nil _ _).symm ?_
      rintro ⟨⟨hfull, -⟩, -⟩
      exact hshort hfull
    rw [if_neg hshort]
    have hslice := slice_length data (offset + dataHeaderSize) (dataHeaderLength header).toNat
    by_cases hlen : (dataHeaderLength header).toNat = p.bytes.length
    · have hpay := hframe.payload
      rw [hlen, hpay, if_neg (by simp)]
      simp only [List.cons.injEq, true_and]
      exact (and_iff_right ⟨not_not.mp hshort, trivial⟩).symm
    · refine iff_of_false ?_ (fun h => hlen h.1.2)
      by_cases hcut :
          (slice data (offset + dataHeaderSize) (dataHeaderLength header).toNat).length ≠
            (dataHeaderLength header).toNat
      · rw [if_pos hcut]
        exact (List.cons_ne_nil _ _).symm
      · -- the payload read has the length that was found, so it is not the record
        rw [if_neg hcut]
        intro heq
        have hhead := congrArg List.length (List.cons.inj heq).1
        exact hlen ((not_not.mp hcut).symm.trans hhead)

section IndexBatch

theorem flatMap_bytes_drop (entries : List SeaBlockIndexEntry) (i : ℕ) :
    (entries.flatMap SeaBlockIndexEntry.bytes).drop (indexEntrySize * i) =
      (entries.drop i).flatMap SeaBlockIndexEntry.bytes := by
  induction i generalizing entries with
  | zero => rfl
  | succ i ih =>
    cases entries with
    | nil => simp
    | cons e rest =>
      rw [List.flatMap_cons, List.drop_succ_cons, ← ih rest, Nat.mul_succ, Nat.add_comm,
        ← List.drop_drop, List.drop_left' e.bytes_length]

theorem flatMap_bytes_take (entries : List SeaBlockIndexEntry) (i : ℕ) :
    (entries.flatMap SeaBlockIndexEntry.bytes).take (indexEntrySize * i) =
      (entries.take i).flatMap SeaBlockIndexEntry.bytes := by
  induction i generalizing entries with
  | zero => simp
  | succ i ih =>
    cases entries with
    | nil => simp
    | cons e rest =>
      rw [List.flatMap_cons, List.take_succ_cons, List.flatMap_cons, ← ih rest, Nat.mul_succ,
        Nat.add_comm, List.take_add, List.take_left' e.bytes_length,
        List.drop_left' e.bytes_length]

theorem entryListOffsets_flatMap (es : List SeaBlockIndexEntry) :
    entryListOffsets (es.flatMap SeaBlockIndexEntry.bytes) es.length =
      es.map SeaBlockIndexEntry.offset := by
  apply List.ext_getElem
  · simp [entryListOffsets]
  · intro i hi hi'
    have hlt : i < es.length := by simpa using hi'
    have hslice := slice_entries (List.getElem?_eq_getElem hlt)
    simp only [entryListOffsets, List.getElem_map, List.getElem_range, hslice,
      SeaBlockIndexEntry.ofBytes_bytes]

theorem offsetAppend_fit {header : SeaBlockOffset} (offset : UInt64)
    (hsize : header.size = seaBlockOffsetMalloc.size)
    (halloc : header.allocated = seaBlockOffsetMalloc.allocated)
    (hfit : header.offset.length < incrementSize) :
    seaBlockOffsetAppend header offset =
      some { header with offset := header.offset ++ [offset] } := by
  have hroom : ¬ header.size.toNat ≤ header.offset.length := by
    rw [hsize]
    simp only [incrementSize] at hfit
    exact Nat.not_le.mpr (Nat.lt_of_lt_of_le hfit (show 1280 ≤ _ by decide))
  have hspace : ¬ header.allocated < offsetHeaderSize + 8 * (header.offset.length + 1) := by
    rw [halloc]
    simp only [seaBlockOffsetMalloc, offsetHeaderSize, incrementSize] at hfit ⊢
    omega
  rw [seaBlockOffsetAppend, if_neg hroom, if_neg hspace]

theorem foldlM_offsetAppend (offsets : List UInt64) (header : SeaBlockOffset)
    (hsize : header.size = seaBlockOffsetMalloc.size)
    (halloc : header.allocated = seaBlockOffsetMalloc.allocated)
    (hfit : header.offset.length + offsets.length ≤ incrementSize) :
    offsets.foldlM seaBlockOffsetAppend header =
      some { header with offset := header.offset ++ offsets } := by
  induction offsets generalizing header with
  | nil => simp
  | cons offset rest ih =>
    rw [List.length_cons] at hfit
    rw [List.foldlM_cons, offsetAppend_fit offset hsize halloc (by omega), Option.bind_eq_bind,
      Option.bind_some, ih { header with offset := header.offset ++ [offset] } hsize halloc (by
        rw [List.length_append, List.length_singleton]
        omega)]
    simp

variable {index : SeaBlockIndex} {first count : UInt32}

/-- How many entries a batch query reads: the sum is taken in 32 bits. -/
def readCountOf (n first count : UInt32) : UInt32 :=
  if first + count < n then count else n - first

/-- A batch query gives the offsets of the entries asked for, or, when it asks
for more than there are, an empty list and no count. -/
theorem run_indexQueryByCount (hg : t index.fd.path = some g)
    (hindex : g.bytes = hdr.bytes ++ entries.flatMap SeaBlockIndexEntry.bytes)
    (hfirst : first < index.header.count) (hin : first.toNat < entries.length)
    (hcap : ((entries.drop first.toNat).take
      (readCountOf index.header.count first count).toNat).length ≤ incrementSize) :
    ∃ fd : Fd SeaPath, fd.path = index.fd.path ∧
      (seaBlockIndexQueryByCount index first count).run serve t =
        some (if first.toNat + (readCountOf index.header.count first count).toNat ≤
            entries.length then
          (some { seaBlockOffsetMalloc with offset := ((entries.drop first.toNat).take
            (readCountOf index.header.count first count).toNat).map SeaBlockIndexEntry.offset },
            some (readCountOf index.header.count first count), { index with fd := fd })
        else (some seaBlockOffsetMalloc, none, { index with fd := fd }), t) := by
  have hnot : ¬ index.header.count ≤ first := UInt32.not_le.mpr hfirst
  have hbytes : slice g.bytes (indexHeaderSize + indexEntrySize * first.toNat)
      (indexEntrySize * (readCountOf index.header.count first count).toNat) =
        ((entries.drop first.toNat).take
          (readCountOf index.header.count first count).toNat).flatMap
            SeaBlockIndexEntry.bytes := by
    rw [hindex, slice_append_right _ _ _ _ (by simp), SeaBlockIndexHeader.bytes_length,
      Nat.add_sub_cancel_left, slice, flatMap_bytes_drop, flatMap_bytes_take]
  have hcount : (if first + count < index.header.count then count
      else index.header.count - first) = readCountOf index.header.count first count := rfl
  unfold seaBlockIndexQueryByCount
  rw [seek_entry, if_neg hnot]
  simp only [hcount]
  rw [Program.run_bind_of_run serve (run_read
    ⟨index.fd.path, indexHeaderSize + indexEntrySize * first.toNat⟩ _ hg)]
  simp only [hbytes]
  generalize readCountOf index.header.count first count = n at hcap
  generalize hes : (entries.drop first.toNat).take n.toNat = es at hcap
  simp only [incrementSize] at hcap
  have hlen : es.length = min n.toNat (entries.length - first.toNat) := by
    rw [← hes, List.length_take, List.length_drop]
  have hsize : (UInt32.ofNat (es.flatMap SeaBlockIndexEntry.bytes).length).toNat =
      indexEntrySize * es.length := by
    rw [entries_length, UInt32.toNat_ofNat']
    simp only [indexEntrySize]
    omega
  rw [hsize]
  refine ⟨⟨index.fd.path, indexHeaderSize + indexEntrySize * first.toNat +
    (es.flatMap SeaBlockIndexEntry.bytes).length⟩, rfl, ?_⟩
  by_cases hthere : first.toNat + n.toNat ≤ entries.length
  · have hall : es.length = n.toNat := by omega
    have hoffsets : (entryListOffsets (es.flatMap SeaBlockIndexEntry.bytes) n.toNat).foldlM
        seaBlockOffsetAppend seaBlockOffsetMalloc =
          some { seaBlockOffsetMalloc with offset := es.map SeaBlockIndexEntry.offset } := by
      rw [← hall, entryListOffsets_flatMap, foldlM_offsetAppend _ _ rfl rfl (by
        simp only [seaBlockOffsetMalloc, List.length_nil, List.length_map, incrementSize]
        omega)]
      simp [seaBlockOffsetMalloc]
    rw [if_pos hthere, if_neg (by rw [hall]; exact not_not.mpr rfl), hoffsets]
    rfl
  · have hnone : indexEntrySize * es.length ≠ indexEntrySize * n.toNat := by
      simp only [indexEntrySize]
      omega
    rw [if_neg hthere, if_pos hnone]
    rfl

end IndexBatch

section Agreement

variable {filled : List (Ambient × Payload)} {first count : UInt32}

/-- The offsets the loop goes on to behind the last counted record: there are
some only if the sum of the arguments has wrapped around. -/
def beyond (filled : List (Ambient × Payload)) (first count counted : ℕ) : List ℕ :=
  if first + count < 2 ^ 32 then []
  else (window filled (first + counted) (count - counted)).map Prod.fst

/-- When a batch of `count` records from `first` on agrees with single queries,
in terms of the appends alone: the window is the counted records asked for. -/
def BatchSafe (filled : List (Ambient × Payload)) (first count : ℕ) : Prop :=
  let counted := min count (filled.length % 2 ^ 32 - first)
  (first + count < 2 ^ 32 ∨ first + count ≤ filled.length) ∧
    Follows (dataBytes filled) 0 (window filled first counted)
      (beyond filled first count counted)

theorem run_batchFresh (h : LaidOut t dir id hdr filled) (hfirst : first < hdr.count)
    (hin : first.toNat < filled.length)
    (hcap : (readCountOf hdr.count first count).toNat ≤ incrementSize) :
    (batchFresh dir id first count).run serve t = some (some (scan (dataBytes filled) 0
      (if first.toNat + (readCountOf hdr.count first count).toNat ≤ filled.length then
        (window filled first.toNat (readCountOf hdr.count first count).toNat).map Prod.fst
      else [])), t) := by
  have himg := h.image
  obtain ⟨f, g, entries, hf, hg, hst, hdata, hoffsets⟩ := h
  have hg' : t (openedBlock dir id hdr).index.fd.path = some g := hg
  have hfirst' : first < (openedBlock dir id hdr).index.header.count := hfirst
  have hlength : entries.length = filled.length := by
    rw [hst.length_eq, List.length_map]
  have hfew : ((entries.drop first.toNat).take
      (readCountOf hdr.count first count).toNat).length ≤ incrementSize := by
    rw [List.length_take]
    exact Nat.le_trans (Nat.min_le_left _ _) hcap
  obtain ⟨real, index, hindex⟩ : ∃ real index,
      (seaBlockIndexQueryByCount (openedBlock dir id hdr).index first count).run serve t =
        some ((some { seaBlockOffsetMalloc with offset :=
          if first.toNat + (readCountOf hdr.count first count).toNat ≤ filled.length then
            ((entries.drop first.toNat).take
              (readCountOf hdr.count first count).toNat).map SeaBlockIndexEntry.offset
          else [] }, real, index), t) := by
    obtain ⟨fd, -, hrun⟩ := run_indexQueryByCount hg' hst.index_bytes hfirst'
      (by rw [hlength]; exact hin) hfew
    rw [hrun, openedBlock_header, hlength]
    split_ifs
    · exact ⟨_, _, rfl⟩
    · exact ⟨_, _, rfl⟩
  generalize hn : (readCountOf hdr.count first count).toNat = n at hindex
  generalize hos : (if first.toNat + n ≤ filled.length then
    ((entries.drop first.toNat).take n).map SeaBlockIndexEntry.offset else []) = offsets at hindex
  have hnats : offsets.map UInt64.toNat = (if first.toNat + n ≤ filled.length then
      (window filled first.toNat n).map Prod.fst else []) := by
    rw [← hos]
    split
    · rw [List.map_map, window, List.map_take, List.map_take, List.map_drop, List.map_drop,
        ← hoffsets]
      rfl
    · rfl
  have hinside : ∀ o ∈ offsets, o.toNat + dataHeaderSize ≤ f.bytes.length := by
    intro o ho
    have hmap := List.mem_map_of_mem (f := UInt64.toNat) ho
    rw [hnats] at hmap
    split at hmap
    · obtain ⟨r, hr, hoff⟩ := List.mem_map.mp hmap
      have hend := (window_frameAt _ _ _ r hr).end_le
      rw [← hdata, hoff] at hend
      simp only [dataHeaderSize]
      omega
    · exact absurd hmap List.not_mem_nil
  have hf' : t (openedBlock dir id hdr).data.fd.path = some f := hf
  obtain ⟨data, hloop⟩ := run_queryLoop hf' seaBlockRecordMalloc offsets hinside
  unfold batchFresh
  rw [Program.run_bind_of_run serve (run_seaBlockOpen himg)]
  simp only [seaBlockQueryByCount]
  rw [Program.run_bind, Program.run_bind_of_run serve hindex]
  simp only [seaBlockDataQueryByOffsets]
  rw [Program.run_bind_of_run serve hloop, hnats, hdata]
  rfl

theorem run_queryFresh_counted (h : LaidOut t dir id hdr filled) {i : ℕ} {r : ℕ × Payload}
    (hi : first.toNat + i < hdr.count.toNat) (hr : (located 0 filled)[first.toNat + i]? = some r) :
    (queryFresh dir id (first + UInt32.ofNat i) Int32.maxValue).run serve t =
      some (⟨0, some r.2.bytes⟩, t) := by
  have hlt := hdr.count.toNat_lt
  have hid : (first + UInt32.ofNat i).toNat = first.toNat + i := by
    have hnat : (UInt32.ofNat i).toNat = i := by
      rw [UInt32.toNat_ofNat']
      exact Nat.mod_eq_of_lt (by omega)
    rw [UInt32.toNat_add, hnat]
    exact Nat.mod_eq_of_lt (by omega)
  have hrec : (filled.map Prod.snd)[(first + UInt32.ofNat i).toNat]? = some r.2 := by
    rw [hid, ← located_snd 0, List.getElem?_map, hr]
    rfl
  have hbuf : (r.2.bytes.length : ℤ) ≤ Int32.maxValue.toInt := by
    have hbound := r.2.length_lt
    have hmax : Int32.maxValue.toInt = 2 ^ 31 - 1 := by decide
    omega
  rw [run_queryFresh h.image, lookup_of_get (by omega) hrec hbuf]

theorem batchAgrees_iff_scan (h : LaidOut t dir id hdr filled)
    (hcounted : hdr.count.toNat ≤ filled.length) {records : List Bytes}
    (hrun : (batchFresh dir id first count).run serve t = some (some records, t)) :
    BatchAgrees t dir id hdr.count first count ↔
      records = (window filled first.toNat
        (min count.toNat (hdr.count.toNat - first.toNat))).map (fun r => r.2.bytes) := by
  generalize hcnt : min count.toNat (hdr.count.toNat - first.toNat) = counted
  have hlen : (window filled first.toNat counted).length = counted := by
    rw [window, List.length_take, List.length_drop, located_length]
    omega
  have hget : ∀ i, i < counted → ∃ r, (located 0 filled)[first.toNat + i]? = some r ∧
      (window filled first.toNat counted)[i]? = some r := by
    intro i hi
    have hlt : first.toNat + i < (located 0 filled).length := by
      rw [located_length]
      omega
    refine ⟨_, List.getElem?_eq_getElem hlt, ?_⟩
    rw [window, List.getElem?_take_of_lt hi, List.getElem?_drop]
    exact List.getElem?_eq_getElem hlt
  constructor
  · rintro ⟨records', hrun', hlen', hback⟩
    obtain rfl : records = records' := by
      have heq := hrun.symm.trans hrun'
      simpa using heq
    rw [hcnt] at hlen'
    apply List.ext_getElem?
    intro i
    by_cases hi : i < counted
    · obtain ⟨r, hr, hwin⟩ := hget i hi
      have hthere : i < records.length := by omega
      have hone := hback i _ (List.getElem?_eq_getElem hthere)
      rw [run_queryFresh_counted h (by omega) hr] at hone
      rw [List.getElem?_map, hwin, List.getElem?_eq_getElem hthere]
      simpa using hone.symm
    · rw [List.getElem?_eq_none (by omega), List.getElem?_eq_none (by simp [hlen]; omega)]
  · rintro rfl
    refine ⟨_, hrun, by rw [List.length_map, hlen, hcnt], ?_⟩
    intro i record hrecord
    rw [List.getElem?_map] at hrecord
    obtain ⟨r', hwin', rfl⟩ := Option.map_eq_some_iff.mp hrecord
    have hi : i < counted := by
      have hthere := (List.getElem?_eq_some_iff.mp hwin').1
      omega
    obtain ⟨r, hr, hwin⟩ := hget i hi
    obtain rfl : r' = r := Option.some.inj (hwin'.symm.trans hwin)
    exact run_queryFresh_counted h (by omega) hr

theorem readCountOf_toNat {n first count : UInt32} (hfirst : first.toNat < n.toNat)
    (hsum : first.toNat + count.toNat < 2 ^ 32) :
    (readCountOf n first count).toNat = min count.toNat (n.toNat - first.toNat) := by
  have hadd : (first + count).toNat = first.toNat + count.toNat := by
    rw [UInt32.toNat_add, Nat.mod_eq_of_lt hsum]
  have hsub : (n - first).toNat = n.toNat - first.toNat := by
    rw [UInt32.toNat_sub_of_le]
    rw [UInt32.le_iff_toNat_le]
    omega
  unfold readCountOf
  by_cases hin : first + count < n
  · rw [if_pos hin]
    rw [UInt32.lt_iff_toNat_lt, hadd] at hin
    omega
  · rw [if_neg hin, hsub]
    rw [UInt32.lt_iff_toNat_lt, hadd] at hin
    omega

theorem readCountOf_wrapped {n first count : UInt32} (hfirst : first.toNat < n.toNat)
    (hsum : 2 ^ 32 ≤ first.toNat + count.toNat) : readCountOf n first count = count := by
  have hcount := count.toNat_lt
  have hlow : first + count < n := by
    rw [UInt32.lt_iff_toNat_lt, UInt32.toNat_add]
    omega
  rw [readCountOf, if_pos hlow]

theorem window_append (filled : List (Ambient × Payload)) (first count more : ℕ) :
    window filled first (count + more) =
      window filled first count ++ window filled (first + count) more := by
  unfold window
  rw [List.take_add, List.drop_drop]

/-- On a block filled by appends, a batch of at most as many records as a list
of offsets holds agrees with single queries exactly when it is safe. -/
theorem batch_agrees_iff {now maxSize maxCount : UInt64} {w w' : Writer} (habs : Absent t dir id)
    (hnew : newWriter dir id t now maxSize maxCount = some w)
    (hfill : runSteps appendStep w filled = some w')
    (hfirst : first < w'.block.index.header.count)
    (hcap : count.toNat ≤ incrementSize) :
    BatchAgrees w'.tree dir id w'.block.index.header.count first count ↔
      BatchSafe filled first.toNat count.toNat := by
  obtain ⟨hlaid, hcount⟩ := fill_laidOut habs hnew hfill
  generalize w'.block.index.header = hdr at hlaid hcount hfirst
  have hn : hdr.count.toNat = filled.length % 2 ^ 32 := by rw [hcount, UInt32.toNat_ofNat']
  have hfirst' : first.toNat < hdr.count.toNat := UInt32.lt_iff_toNat_lt.mp hfirst
  have hle : hdr.count.toNat ≤ filled.length := by
    rw [hn]
    exact Nat.mod_le _ _
  unfold BatchSafe
  rw [← hn]
  generalize hcnt : min count.toNat (hdr.count.toNat - first.toNat) = counted
  simp only
  by_cases hfits : first.toNat + count.toNat < 2 ^ 32
  · have hread := readCountOf_toNat hfirst' hfits
    rw [hcnt] at hread
    have hrun := run_batchFresh hlaid hfirst (by omega) (by rw [hread]; omega)
    rw [hread, if_pos (by omega)] at hrun
    have hscan := scan_eq_iff 0 (window_frameAt filled first.toNat counted)
      (fun o ho => absurd ho List.not_mem_nil)
    rw [List.append_nil] at hscan
    rw [batchAgrees_iff_scan hlaid hle hrun, hcnt, hscan, beyond, if_pos hfits]
    exact (and_iff_right (Or.inl hfits)).symm
  · have hread := readCountOf_wrapped hfirst' (Nat.not_lt.mp hfits)
    have hrun := run_batchFresh hlaid hfirst (by omega) (by rw [hread]; exact hcap)
    rw [hread] at hrun
    rw [batchAgrees_iff_scan hlaid hle hrun, hcnt]
    by_cases hthere : first.toNat + count.toNat ≤ filled.length
    · have hsplit : count.toNat = counted + (count.toNat - counted) := by omega
      have hin : ∀ o ∈ (window filled (first.toNat + counted) (count.toNat - counted)).map
          Prod.fst, o + dataHeaderSize ≤ (dataBytes filled).length := by
        intro o ho
        obtain ⟨r, hr, rfl⟩ := List.mem_map.mp ho
        have hend := (window_frameAt _ _ _ r hr).end_le
        simp only [dataHeaderSize]
        omega
      rw [if_pos hthere, hsplit, window_append, List.map_append, ← hsplit,
        scan_eq_iff 0 (window_frameAt filled first.toNat counted) hin, beyond, if_neg hfits]
      exact (and_iff_right (Or.inr hthere)).symm
    · -- not all entries that are asked for are there, and the index gives none
      rw [if_neg hthere]
      apply iff_of_false
      · intro hnil
        have hlen := congrArg List.length hnil
        rw [List.length_map, window, List.length_take, List.length_drop, located_length] at hlen
        simp only [scan, List.length_nil] at hlen
        omega
      · rintro ⟨hsum, -⟩
        omega

/-- Of two records of one byte a batch of two returns the first one only. -/
theorem batch_drops_record :
    ∃ w w', newWriter "" 0 (fun _ => none) 0 0 0 = some w ∧
      runSteps appendStep w [(.clear 0, .single 97), (.clear 0, .single 98)] = some w' ∧
      ((batchFresh "" 0 0 2).run serve w'.tree).map Prod.fst = some (some [[97]]) ∧
      ¬ BatchAgrees w'.tree "" 0 w'.block.index.header.count 0 2 := by
  obtain ⟨w, hw, hmap⟩ := Option.bind_eq_some_iff.mp (show
    (newWriter "" 0 (fun _ => none) 0 0 0).bind (fun w => (runSteps appendStep w
      [(.clear 0, .single 97), (.clear 0, .single 98)]).map (fun w' =>
        (((batchFresh "" 0 0 2).run serve w'.tree).map Prod.fst,
          w'.block.index.header.count))) = some (some (some [[97]]), 2) by decide +kernel)
  obtain ⟨w', hrun, hval⟩ := Option.map_eq_some_iff.mp hmap
  obtain ⟨hbatch, hcount⟩ := Prod.mk.inj hval
  refine ⟨w, w', hw, hrun, hbatch, ?_⟩
  rintro ⟨records, hrecords, hlen, -⟩
  rw [hrecords] at hbatch
  obtain rfl : records = [[97]] := by simpa using hbatch
  rw [hcount] at hlen
  exact absurd hlen (by decide)

/-- A payload of nine bytes that tells its own length where the loop looks for it. -/
theorem batch_agrees_by_chance :
    ∃ w w', newWriter "" 0 (fun _ => none) 0 0 0 = some w ∧
      runSteps appendStep w [(.clear 0, .single 97), (.clear 0,
        ⟨[0, 0, 0, 0, 0, 9, 0, 0, 0], by decide, by decide⟩)] = some w' ∧
      BatchAgrees w'.tree "" 0 w'.block.index.header.count 0 2 := by
  obtain ⟨w, hw, hmap⟩ := Option.bind_eq_some_iff.mp (show
    (newWriter "" 0 (fun _ => none) 0 0 0).bind (fun w => (runSteps appendStep w
      [(.clear 0, .single 97), (.clear 0,
        ⟨[0, 0, 0, 0, 0, 9, 0, 0, 0], by decide, by decide⟩)]).map (fun w' =>
          w'.block.index.header.count)) = some 2 by decide +kernel)
  obtain ⟨w', hrun, hcount⟩ := Option.map_eq_some_iff.mp hmap
  refine ⟨w, w', hw, hrun, ?_⟩
  have hfirst : 0 < w'.block.index.header.count := by
    rw [hcount]
    decide
  refine (batch_agrees_iff ⟨rfl, rfl⟩ hw hrun hfirst (by decide)).mpr ?_
  exact ⟨Or.inl (by decide), ⟨by decide, by decide⟩, ⟨by decide, by decide⟩, trivial⟩

end Agreement

end SeaStore.Block
