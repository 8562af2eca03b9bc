import SeaStore.Block.SeaBlock
import Mathlib.Data.List.Forall2

/-!
What the two files of a block store. The index file is a header and a list of
entries, and each entry's offset starts a complete frame in the data file;
between and after the frames the data file may hold anything. The count in the
header is kept apart from the number of entries, since the two can differ. A
query on a fresh handle is a lookup in the list of records.
-/
namespace SeaStore.Block

open Posix

/-- A payload that can be framed: it is not empty, and the frame's length is an `int`. -/
structure Payload where
  bytes : Bytes
  ne_nil : bytes ≠ []
  length_lt : bytes.length < 2 ^ 31 - 16
  deriving DecidableEq

namespace Payload

def single (b : UInt8) : Payload := ⟨[b], List.cons_ne_nil b [], show 1 < 2 ^ 31 - 16 by decide⟩

def length (p : Payload) : Int32 := Int32.ofNat p.bytes.length

def frame (p : Payload) (a : Ambient) : Bytes :=
  Block.frame a p.bytes (UInt32.ofNat p.bytes.length)

@[ext] theorem ext {p q : Payload} (h : p.bytes = q.bytes) : p = q := by
  cases p
  cases q
  simpa using h

theorem length_pos (p : Payload) : 0 < p.bytes.length := List.length_pos_iff.mpr p.ne_nil

theorem length_toUInt32 (p : Payload) : p.length.toUInt32 = UInt32.ofNat p.bytes.length := rfl

theorem toNat_length (p : Payload) : (UInt32.ofNat p.bytes.length).toNat = p.bytes.length := by
  have h := p.length_lt
  simp only [UInt32.toNat_ofNat']
  omega

theorem length_ne_zero (p : Payload) : p.length ≠ 0 := by
  intro h
  have hnat : (UInt32.ofNat p.bytes.length).toNat = 0 := by
    rw [← length_toUInt32, h]
    rfl
  rw [toNat_length] at hnat
  exact Nat.ne_of_gt p.length_pos hnat

theorem frame_length (p : Payload) (a : Ambient) : (p.frame a).length = p.bytes.length + 16 := by
  simp only [frame, Block.frame_length, dataHeaderSize, dataTailSize]
  omega

theorem toInt_frameBufLen (p : Payload) :
    (frameBufLen (UInt32.ofNat p.bytes.length)).toInt = p.bytes.length + 16 := by
  have h := p.length_lt
  rw [toInt_frameBufLen_bmod, toNat_length]
  simp only [Int.bmod]
  omega

end Payload

/-- `data` holds a complete frame of the payload at `offset`. -/
def FrameAt (data : Bytes) (offset : ℕ) (p : Payload) : Prop :=
  ∃ (before : Bytes) (a : Ambient), before.length = offset ∧ before ++ p.frame a <+: data

namespace FrameAt

variable {data more : Bytes} {offset : ℕ} {p : Payload}

theorem mono (h : FrameAt data offset p) (hmore : data <+: more) : FrameAt more offset p := by
  obtain ⟨before, a, hbefore, hdata⟩ := h
  exact ⟨before, a, hbefore, hdata.trans hmore⟩

theorem at_end (data : Bytes) (a : Ambient) (p : Payload) :
    FrameAt (data ++ p.frame a) data.length p :=
  ⟨data, a, rfl, List.prefix_rfl⟩

theorem end_le (h : FrameAt data offset p) : offset + p.bytes.length + 16 ≤ data.length := by
  obtain ⟨before, a, rfl, hdata⟩ := h
  have hle := hdata.length_le
  rw [List.length_append, p.frame_length] at hle
  omega

theorem header (h : FrameAt data offset p) :
    (slice data offset dataHeaderSize).length = dataHeaderSize ∧
      (dataHeaderLength (slice data offset dataHeaderSize)).toNat = p.bytes.length := by
  have hend := h.end_le
  obtain ⟨before, a, rfl, hdata⟩ := h
  have hslice : slice data before.length dataHeaderSize =
      SeaBlockDataHeader.bytes ⟨dataMagicHeader, 0, a.headerPad, UInt32.ofNat p.bytes.length⟩ := by
    rw [slice_of_grown hdata _ _ (by
      rw [List.length_append, p.frame_length]; simp only [dataHeaderSize]; omega)]
    rw [slice_append_length, Payload.frame, Block.frame, List.append_assoc,
      slice_append_left _ _ _ _ (by simp), slice_whole _ _ (by simp)]
  rw [hslice]
  exact ⟨by simp, by rw [dataHeaderLength_bytes]; exact p.toNat_length⟩

theorem payload (h : FrameAt data offset p) :
    slice data (offset + dataHeaderSize) p.bytes.length = p.bytes := by
  have hend := h.end_le
  obtain ⟨before, a, rfl, hdata⟩ := h
  rw [slice_of_grown hdata _ _ (by
    rw [List.length_append, p.frame_length]; simp only [dataHeaderSize]; omega)]
  rw [slice_append_right _ _ _ _ (by omega), Nat.add_sub_cancel_left, Payload.frame, Block.frame,
    List.append_assoc, slice_append_right _ _ _ _ (by simp), SeaBlockDataHeader.bytes_length,
    Nat.sub_self, slice_append_left _ _ _ _ (by simp), slice_whole _ _ rfl]

end FrameAt

/-- A data file and an index file store `recs`, one entry for each record. -/
structure Stored (f g : File) (hdr : SeaBlockIndexHeader) (entries : List SeaBlockIndexEntry)
    (recs : List Payload) : Prop where
  index_bytes : g.bytes = hdr.bytes ++ entries.flatMap SeaBlockIndexEntry.bytes
  frames : List.Forall₂ (fun e p => FrameAt f.bytes e.offset.toNat p) entries recs

/-- The files of block `id` in `dir` store `recs` under the header `hdr`. -/
def Image (t : FileTree SeaPath) (dir : String) (id : UInt64) (hdr : SeaBlockIndexHeader)
    (recs : List Payload) : Prop :=
  ∃ f g entries, t (.data dir id) = some f ∧ t (.index dir id) = some g ∧
    Stored f g hdr entries recs

theorem entries_length (entries : List SeaBlockIndexEntry) :
    (entries.flatMap SeaBlockIndexEntry.bytes).length = indexEntrySize * entries.length := by
  induction entries with
  | nil => rfl
  | cons e rest ih =>
    simp only [List.flatMap_cons, List.length_append, ih, SeaBlockIndexEntry.bytes_length,
      List.length_cons, Nat.mul_succ, Nat.add_comm]

theorem slice_entries {entries : List SeaBlockIndexEntry} {i : ℕ} {e : SeaBlockIndexEntry}
    (h : entries[i]? = some e) :
    slice (entries.flatMap SeaBlockIndexEntry.bytes) (indexEntrySize * i) indexEntrySize =
      e.bytes := by
  induction entries generalizing i with
  | nil => simp at h
  | cons first rest ih =>
    rw [List.flatMap_cons]
    cases i with
    | zero =>
      obtain rfl : first = e := by simpa using h
      rw [Nat.mul_zero, slice_append_left _ _ _ _ (by simp), slice_whole _ _ (by simp)]
    | succ i =>
      have hpos : indexEntrySize * (i + 1) - first.bytes.length = indexEntrySize * i := by
        rw [SeaBlockIndexEntry.bytes_length, Nat.mul_succ, Nat.add_sub_cancel]
      rw [slice_append_right _ _ _ _ (by
        rw [SeaBlockIndexEntry.bytes_length, Nat.mul_succ]; omega), hpos]
      exact ih (by simpa using h)

section IndexBytes

variable {g : File} {hdr : SeaBlockIndexHeader} {entries : List SeaBlockIndexEntry}

theorem index_file_size (hbytes : g.bytes = hdr.bytes ++ entries.flatMap SeaBlockIndexEntry.bytes) :
    g.size = indexHeaderSize + indexEntrySize * entries.length := by
  rw [File.size, hbytes, List.length_append, entries_length, SeaBlockIndexHeader.bytes_length]

theorem slice_indexHeader
    (hbytes : g.bytes = hdr.bytes ++ entries.flatMap SeaBlockIndexEntry.bytes) :
    slice g.bytes 0 indexHeaderSize = hdr.bytes := by
  rw [hbytes, slice_append_left _ _ _ _ (by simp), slice_whole _ _ (by simp)]

theorem slice_indexEntry (hbytes : g.bytes = hdr.bytes ++ entries.flatMap SeaBlockIndexEntry.bytes)
    {i : ℕ} {e : SeaBlockIndexEntry} (he : entries[i]? = some e) :
    slice g.bytes (indexHeaderSize + indexEntrySize * i) indexEntrySize = e.bytes := by
  rw [hbytes, slice_append_right _ _ _ _ (by simp), SeaBlockIndexHeader.bytes_length,
    Nat.add_sub_cancel_left]
  exact slice_entries he

end IndexBytes

theorem toNat_entryOffset (recordId : UInt32) :
    (entryOffset recordId).toNat = indexHeaderSize + indexEntrySize * recordId.toNat := by
  have h : recordId.toNat < 2 ^ 32 := recordId.toNat_lt
  simp only [entryOffset, UInt64.toNat_add, UInt64.toNat_mul, UInt64.toNat_ofNat',
    UInt32.toNat_toUInt64, indexHeaderSize, indexEntrySize]
  omega

namespace Stored

variable {f g : File} {hdr : SeaBlockIndexHeader} {entries : List SeaBlockIndexEntry}
  {recs : List Payload}

theorem length_eq (h : Stored f g hdr entries recs) : entries.length = recs.length :=
  h.frames.length_eq

theorem index_size (h : Stored f g hdr entries recs) :
    g.bytes.length = indexHeaderSize + indexEntrySize * recs.length := by
  rw [← h.length_eq]
  exact index_file_size h.index_bytes

theorem header_bytes (h : Stored f g hdr entries recs) :
    slice g.bytes 0 indexHeaderSize = hdr.bytes :=
  slice_indexHeader h.index_bytes

theorem entry_bytes (h : Stored f g hdr entries recs) {i : ℕ} {e : SeaBlockIndexEntry}
    (he : entries[i]? = some e) :
    slice g.bytes (indexHeaderSize + indexEntrySize * i) indexEntrySize = e.bytes :=
  slice_indexEntry h.index_bytes he

theorem frame_at (h : Stored f g hdr entries recs) {i : ℕ} {p : Payload}
    (hp : recs[i]? = some p) :
    ∃ e, entries[i]? = some e ∧ FrameAt f.bytes e.offset.toNat p := by
  obtain ⟨hi, rfl⟩ := List.getElem?_eq_some_iff.mp hp
  have hi' : i < entries.length := by rw [h.length_eq]; exact hi
  refine ⟨entries[i], List.getElem?_eq_getElem hi', ?_⟩
  exact (List.forall₂_iff_get.mp h.frames).2 i hi' hi

end Stored

/-- What a query on a fresh handle answers when the header counts `count`
records and the files store `recs`. -/
def lookup (count : UInt32) (recs : List Payload) (recordId : UInt32) (bufLen : Int32) :
    QueryResult :=
  if count ≤ recordId then ⟨EINVAL, none⟩
  else match recs[recordId.toNat]? with
    | none => ⟨0, some []⟩
    | some p =>
      if bufLen.toUInt32 < UInt32.ofNat p.bytes.length then ⟨ENOENT, none⟩
      else ⟨0, some p.bytes⟩

end SeaStore.Block
