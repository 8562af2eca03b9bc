import SeaStore.Block.Calls
import SeaStore.Controller.Controller

/-!
What a reader of the data directory may rely on while a writer is at work. A
block with a data file has an index with a whole header, each entry that the
header counts leads to a complete frame of the right record, and the files only
grow. A reader that withstands such growth never returns a torn record.
-/
namespace SeaStore.Controller

open Posix Block

def headerCount (g : File) : UInt32 :=
  (SeaBlockIndexHeader.ofBytes (slice g.bytes 0 indexHeaderSize)).count

/-- Both files of a block are there, the index with a whole header. -/
structure Present (t : FileTree SeaPath) (id : UInt64) (f g : File) : Prop where
  data : t (.data dataDir id) = some f
  index : t (.index dataDir id) = some g
  header : indexHeaderSize ≤ g.bytes.length

/-- The entry of this id leads to a complete frame of the payload. -/
def EntryAt (f g : File) (recordId : UInt32) (p : Payload) : Prop :=
  ∃ e : SeaBlockIndexEntry,
    slice g.bytes (indexHeaderSize + indexEntrySize * recordId.toNat) indexEntrySize = e.bytes ∧
      FrameAt f.bytes e.offset.toNat p

/-- Frames and entries stay, and the count does not go back. -/
structure Grown (f g f' g' : File) : Prop where
  data : f.bytes <+: f'.bytes
  entries : g.bytes.drop indexHeaderSize <+: g'.bytes.drop indexHeaderSize
  count : headerCount g ≤ headerCount g'

def Grows (t t' : FileTree SeaPath) : Prop :=
  ∀ id f g, Present t id f g → ∃ f' g', Present t' id f' g' ∧ Grown f g f' g'

/-- The places of the log, each with the payload that belongs there. -/
abbrev Places := UInt64 × UInt32 → Payload → Prop

/-- What the files of a block show a reader: nothing yet, or for each counted
id a frame of the payload that belongs at its place. -/
def BlockShows (places : Places) (t : FileTree SeaPath) (id : UInt64) : Prop :=
  t (.data dataDir id) = none ∨ ∃ f g, Present t id f g ∧
    ∀ recordId, recordId < headerCount g → ∃ p, places (id, recordId) p ∧ EntryAt f g recordId p

def Shows (places : Places) (t : FileTree SeaPath) : Prop := ∀ id, BlockShows places t id

/-- What a writer may do while others read. -/
def Publishes (places : Places) (t t' : FileTree SeaPath) : Prop :=
  Grows t t' ∧ (Shows places t → Shows places t')

namespace Grown

variable {f g f' g' f'' g'' : File}

theorem refl (f g : File) : Grown f g f g :=
  ⟨List.prefix_rfl, List.prefix_rfl, UInt32.le_refl _⟩

theorem trans (h : Grown f g f' g') (h' : Grown f' g' f'' g'') : Grown f g f'' g'' :=
  ⟨h.data.trans h'.data, h.entries.trans h'.entries, UInt32.le_trans h.count h'.count⟩

theorem entryAt (h : Grown f g f' g') {recordId : UInt32} {p : Payload}
    (hentry : EntryAt f g recordId p) : EntryAt f' g' recordId p := by
  obtain ⟨e, hslice, hframe⟩ := hentry
  refine ⟨e, ?_, hframe.mono h.data⟩
  have hdrop : ∀ bytes : Bytes,
      slice bytes (indexHeaderSize + indexEntrySize * recordId.toNat) indexEntrySize =
        slice (bytes.drop indexHeaderSize) (indexEntrySize * recordId.toNat) indexEntrySize := by
    intro bytes
    simp only [slice, List.drop_drop]
  have hlen : (slice (g.bytes.drop indexHeaderSize) (indexEntrySize * recordId.toNat)
      indexEntrySize).length = indexEntrySize := by
    rw [← hdrop, hslice, SeaBlockIndexEntry.bytes_length]
  rw [slice_length] at hlen
  have hfit : indexEntrySize * recordId.toNat + indexEntrySize ≤
      (g.bytes.drop indexHeaderSize).length := by
    have hpos : 0 < indexEntrySize := by decide
    omega
  rw [hdrop, slice_of_grown h.entries _ _ hfit, ← hdrop, hslice]

end Grown

namespace Grows

variable {t t' t'' : FileTree SeaPath}

theorem refl (t : FileTree SeaPath) : Grows t t :=
  fun _ f g h => ⟨f, g, h, Grown.refl f g⟩

theorem trans (h : Grows t t') (h' : Grows t' t'') : Grows t t'' := by
  intro id f g hpresent
  obtain ⟨f', g', hpresent', hgrown⟩ := h id f g hpresent
  obtain ⟨f'', g'', hpresent'', hgrown'⟩ := h' id f' g' hpresent'
  exact ⟨f'', g'', hpresent'', hgrown.trans hgrown'⟩

end Grows

namespace Publishes

variable {places : Places} {t t' t'' : FileTree SeaPath}

theorem refl (places : Places) (t : FileTree SeaPath) : Publishes places t t :=
  ⟨Grows.refl t, fun h => h⟩

theorem trans (h : Publishes places t t') (h' : Publishes places t' t'') :
    Publishes places t t'' :=
  ⟨h.1.trans h'.1, fun hshows => h'.2 (h.2 hshows)⟩

/-- A change to one block publishes when the block only grows and shows what it should. -/
theorem of_agreeOff {id : UInt64} (hagree : AgreeOff t t' dataDir id)
    (hgrow : ∀ f g, Present t id f g → ∃ f' g', Present t' id f' g' ∧ Grown f g f' g')
    (hshow : BlockShows places t' id) : Publishes places t t' := by
  have hother : ∀ {id'}, id' ≠ id → ∀ {f g}, Present t id' f g → Present t' id' f g := by
    intro id' hne f g h
    refine ⟨?_, ?_, h.header⟩
    · rw [hagree _ (by simpa using hne) (by simp), h.data]
    · rw [hagree _ (by simp) (by simpa using hne), h.index]
  constructor
  · intro id' f g hpresent
    by_cases hid : id' = id
    · subst hid
      exact hgrow f g hpresent
    · exact ⟨f, g, hother hid hpresent, Grown.refl f g⟩
  · intro hshows id'
    by_cases hid : id' = id
    · subst hid
      exact hshow
    · rcases hshows id' with hnone | ⟨f, g, hpresent, hcounted⟩
      · left
        rw [hagree _ (by simpa using hid) (by simp), hnone]
      · exact Or.inr ⟨f, g, hother hid hpresent, hcounted⟩

end Publishes

section Stores

variable {places : Places} {t t' : FileTree SeaPath} {id : UInt64} {f g f' g' : File}
  {hdr hdr' : SeaBlockIndexHeader} {entries entries' : List SeaBlockIndexEntry}
  {recs recs' : List Payload}

theorem Stored.headerCount_eq (h : Stored f g hdr entries recs) : headerCount g = hdr.count := by
  rw [headerCount, h.header_bytes, SeaBlockIndexHeader.ofBytes_bytes]

theorem Stored.entryAt (h : Stored f g hdr entries recs) {recordId : UInt32} {p : Payload}
    (hp : recs[recordId.toNat]? = some p) : EntryAt f g recordId p := by
  obtain ⟨e, he, hframe⟩ := h.frame_at hp
  exact ⟨e, h.entry_bytes he, hframe⟩

theorem Stored.present (h : Stored f g hdr entries recs) (hf : t (.data dataDir id) = some f)
    (hg : t (.index dataDir id) = some g) : Present t id f g := by
  refine ⟨hf, hg, ?_⟩
  rw [h.index_size]
  exact Nat.le_add_right _ _

/-- The counted records belong where they are. -/
def InPlace (places : Places) (id : UInt64) (count : UInt32) (recs : List Payload) : Prop :=
  ∀ recordId, recordId < count → ∃ p, recs[recordId.toNat]? = some p ∧ places (id, recordId) p

theorem Stored.blockShows (h : Stored f g hdr entries recs) (hf : t (.data dataDir id) = some f)
    (hg : t (.index dataDir id) = some g) (hplace : InPlace places id hdr.count recs) :
    BlockShows places t id := by
  refine Or.inr ⟨f, g, Stored.present h hf hg, ?_⟩
  intro recordId hlt
  rw [Stored.headerCount_eq h] at hlt
  obtain ⟨p, hp, hbelongs⟩ := hplace recordId hlt
  exact ⟨p, hbelongs, Stored.entryAt h hp⟩

/-- More frames, more entries, a higher count: nothing that was shown is lost. -/
theorem publishes_of_stored (hagree : AgreeOff t t' dataDir id)
    (hf : t (.data dataDir id) = some f) (hg : t (.index dataDir id) = some g)
    (h : Stored f g hdr entries recs) (hf' : t' (.data dataDir id) = some f')
    (hg' : t' (.index dataDir id) = some g') (h' : Stored f' g' hdr' entries' recs')
    (hdata : f.bytes <+: f'.bytes) (hentries : entries <+: entries')
    (hcount : hdr.count ≤ hdr'.count) (hplace : InPlace places id hdr'.count recs') :
    Publishes places t t' := by
  refine Publishes.of_agreeOff hagree ?_ (Stored.blockShows h' hf' hg' hplace)
  intro f₁ g₁ hpresent
  obtain rfl : f₁ = f := Option.some.inj (hpresent.data.symm.trans hf)
  obtain rfl : g₁ = g := Option.some.inj (hpresent.index.symm.trans hg)
  refine ⟨f', g', Stored.present h' hf' hg', hdata, ?_, ?_⟩
  · rw [h.index_bytes, h'.index_bytes, ← SeaBlockIndexHeader.bytes_length hdr, List.drop_left,
      SeaBlockIndexHeader.bytes_length, ← SeaBlockIndexHeader.bytes_length hdr', List.drop_left]
    obtain ⟨more, rfl⟩ := hentries
    rw [List.flatMap_append]
    exact List.prefix_append _ _
  · rw [Stored.headerCount_eq h, Stored.headerCount_eq h']
    exact hcount

/-- As long as a block has no data file a reader cannot open it. -/
theorem publishes_of_no_data (hagree : AgreeOff t t' dataDir id)
    (hdata : t (.data dataDir id) = none) (hshow : BlockShows places t' id) :
    Publishes places t t' := by
  refine Publishes.of_agreeOff hagree ?_ hshow
  intro f g hpresent
  exact absurd (hpresent.data.symm.trans hdata) (by simp)

end Stores

section Reading

variable {t : FileTree SeaPath} {R : FileTree SeaPath → FileTree SeaPath → Prop}

/-- What one read meets whenever it looks: no data file yet, or a count that
is too low, if it `mayFail`; or else a frame of a payload with `P`. -/
def View (id : UInt64) (recordId : UInt32) (mayFail : Prop) (P : Payload → Prop)
    (t : FileTree SeaPath) : Prop :=
  (t (.data dataDir id) = none ∧ mayFail) ∨ ∃ f g, Present t id f g ∧
    ((headerCount g ≤ recordId ∧ mayFail) ∨
      (recordId < headerCount g ∧ ∃ p, P p ∧ EntryAt f g recordId p))

/-- What one read may answer. -/
def Answers (bufLen : Int32) (mayFail : Prop) (P : Payload → Prop) (result : QueryResult) : Prop :=
  (result = ⟨EINVAL, none⟩ ∧ mayFail) ∨ ∃ p, P p ∧
    result = if bufLen.toUInt32 < UInt32.ofNat p.bytes.length then ⟨ENOENT, none⟩
      else ⟨0, some p.bytes⟩

variable {id : UInt64} {recordId : UInt32} {mayFail : Prop} {P : Payload → Prop}

/-- What one read has learnt from opening the block: the counted entry leads to
a frame from here on. -/
def Learnt (id : UInt64) (recordId : UInt32) (mayFail : Prop) (P : Payload → Prop)
    (opened : Option SeaBlock) (t : FileTree SeaPath) : Prop :=
  (opened = none ∧ mayFail) ∨ ∃ f g hdr, Present t id f g ∧
    opened = some (openedBlock dataDir id hdr) ∧
    ((hdr.count ≤ recordId ∧ mayFail) ∨
      (recordId < hdr.count ∧ ∃ p, P p ∧ EntryAt f g recordId p))

theorem withstands_seaBlockIndexOpen (hgrows : ∀ {a b}, R a b → Grows a b)
    (htrans : ∀ {a b c}, R a b → R b c → R a c)
    (hview : ∀ t', R t t' → View id recordId mayFail P t') {f g : File} (h : Present t id f g) :
    (seaBlockIndexOpen dataDir id).Withstands serve R (fun index t' => ∃ i, index = .ok i ∧
      Learnt id recordId mayFail P
        (some ⟨dataDir, id, ⟨⟨.data dataDir id, 0⟩⟩, i⟩) t') t := by
  apply Program.Withstands.bind
  apply withstands_openFile
  intro t₁ h₁
  obtain ⟨f₁, g₁, hpresent₁, -⟩ := hgrows h₁ id f g h
  simp only [hpresent₁.index, Option.isSome_some, if_true]
  apply Program.Withstands.bind
  apply withstands_read
  intro t₂ h₂
  obtain ⟨f₂, g₂, hpresent₂, -⟩ := hgrows h₂ id f₁ g₁ hpresent₁
  have hlen : (slice g₂.bytes 0 indexHeaderSize).length = indexHeaderSize := by
    rw [slice_length]
    exact Nat.min_eq_left hpresent₂.header
  refine ⟨g₂, hpresent₂.index, ?_⟩
  simp only [hlen, ne_eq, not_true_eq_false, if_false]
  refine ⟨_, rfl, Or.inr ⟨f₂, g₂, .ofBytes (slice g₂.bytes 0 indexHeaderSize), hpresent₂, rfl, ?_⟩⟩
  rcases hview t₂ (htrans h₁ h₂) with ⟨hnone, -⟩ | ⟨f₃, g₃, hpresent₃, hcases⟩
  · exact absurd (hpresent₂.data.symm.trans hnone) (by simp)
  · obtain rfl : f₃ = f₂ := Option.some.inj (hpresent₃.data.symm.trans hpresent₂.data)
    obtain rfl : g₃ = g₂ := Option.some.inj (hpresent₃.index.symm.trans hpresent₂.index)
    exact hcases

theorem withstands_seaBlockOpen (hgrows : ∀ {a b}, R a b → Grows a b)
    (htrans : ∀ {a b c}, R a b → R b c → R a c)
    (hview : ∀ t', R t t' → View id recordId mayFail P t') :
    (seaBlockOpen dataDir id).Withstands serve R (Learnt id recordId mayFail P) t := by
  apply Program.Withstands.bind
  apply Program.Withstands.bind
  apply withstands_openFile
  intro t₁ h₁
  rcases hview t₁ h₁ with ⟨hnone, hmay⟩ | ⟨f₁, g₁, hpresent₁, -⟩
  · simp only [hnone, Option.isSome_none, Bool.false_eq_true, if_false]
    exact Or.inl ⟨rfl, hmay⟩
  · simp only [hpresent₁.data, Option.isSome_some, if_true]
    apply Program.Withstands.bind
    apply (withstands_seaBlockIndexOpen hgrows htrans (fun t' h' => hview t' (htrans h₁ h'))
      hpresent₁).mono
    rintro index t₂ ⟨i, rfl, hlearnt⟩
    exact hlearnt

theorem withstands_queryLoop (hgrows : ∀ {a b}, R a b → Grows a b) {f g : File} {p : Payload}
    {offset : UInt64} (h : Present t id f g) (hframe : FrameAt f.bytes offset.toNat p)
    {post : SeaBlockRecord × SeaBlockData → FileTree SeaPath → Prop}
    (hpost : ∀ data t', post ([p.bytes], data) t') :
    (seaBlockDataQueryLoop ⟨⟨.data dataDir id, 0⟩⟩ [] [offset]).Withstands serve R post t := by
  have hend := hframe.end_le
  have hmax := f.size_le
  have hnat : (offset + UInt64.ofNat dataHeaderSize).toNat = offset.toNat + dataHeaderSize := by
    simp only [UInt64.toNat_add, UInt64.toNat_ofNat', dataHeaderSize]
    simp only [offMax] at hmax
    omega
  have hseek : (⟨.data dataDir id, 0⟩ : Fd SeaPath).seekCur offset =
      ⟨.data dataDir id, offset.toNat⟩ := by
    rw [Fd.seekCur_start rfl, Fd.seekSet_of_le (by omega)]
  have hseek' : ∀ pos, (⟨.data dataDir id, pos⟩ : Fd SeaPath).seekSet
      (offset + UInt64.ofNat dataHeaderSize) =
      ⟨.data dataDir id, offset.toNat + dataHeaderSize⟩ := by
    intro pos
    rw [Fd.seekSet_of_le (by rw [hnat]; simp only [dataHeaderSize]; omega), hnat]
  rw [seaBlockDataQueryLoop, hseek]
  apply Program.Withstands.bind
  apply withstands_read
  intro t₁ h₁
  obtain ⟨f₁, g₁, hpresent₁, hgrown₁⟩ := hgrows h₁ id f g h
  have hframe₁ := hframe.mono hgrown₁.data
  refine ⟨f₁, hpresent₁.data, ?_⟩
  simp only [hframe₁.header.1, ne_eq, not_true_eq_false, if_false, hframe₁.header.2, hseek']
  apply Program.Withstands.bind
  apply withstands_read
  intro t₂ h₂
  obtain ⟨f₂, g₂, hpresent₂, hgrown₂⟩ := hgrows h₂ id f₁ g₁ hpresent₁
  refine ⟨f₂, hpresent₂.data, ?_⟩
  simp only [(hframe₁.mono hgrown₂.data).payload, not_true_eq_false, if_false,
    seaBlockRecordAppend, List.take_length]
  exact hpost _ t₂

theorem withstands_query (hgrows : ∀ {a b}, R a b → Grows a b) {hdr : SeaBlockIndexHeader}
    {f g : File} (h : Present t id f g)
    (hcases : (hdr.count ≤ recordId ∧ mayFail) ∨
      (recordId < hdr.count ∧ ∃ p, P p ∧ EntryAt f g recordId p)) (bufLen : Int32) :
    (seaBlockQueryByRecordId (openedBlock dataDir id hdr) recordId bufLen).Withstands serve R
      (fun result _ => Answers bufLen mayFail P result.1) t := by
  unfold seaBlockQueryByRecordId seaBlockIndexQueryByRecordId
  rw [openedBlock_header]
  rcases hcases with ⟨hpast, hmay⟩ | ⟨hlt, p, hp, hentry⟩
  · rw [if_pos hpast]
    exact Or.inl ⟨rfl, hmay⟩
  have hnot : ¬ hdr.count ≤ recordId := by
    rw [UInt32.le_iff_toNat_le]
    rw [UInt32.lt_iff_toNat_lt] at hlt
    omega
  rw [if_neg hnot, seek_entry]
  apply Program.Withstands.bind
  apply Program.Withstands.bind
  apply withstands_read
  intro t₁ h₁
  obtain ⟨f₁, g₁, hpresent₁, hgrown₁⟩ := hgrows h₁ id f g h
  obtain ⟨e, hslice, hframe⟩ := hgrown₁.entryAt hentry
  refine ⟨g₁, hpresent₁.index, ?_⟩
  simp only [hslice, SeaBlockIndexEntry.bytes_length, ne_eq, not_true_eq_false, if_false,
    SeaBlockIndexEntry.ofBytes_bytes]
  have hlist : seaBlockOffsetAppend seaBlockOffsetMalloc e.offset =
      some { seaBlockOffsetMalloc with offset := [e.offset] } := rfl
  rw [hlist]
  apply Program.Withstands.bind
  rw [Program.withstands_ofOption_some, Program.withstands_pure]
  apply Program.Withstands.bind
  apply withstands_queryLoop hgrows hpresent₁ hframe
  intro data t₂
  by_cases hshort : bufLen.toUInt32 < UInt32.ofNat p.bytes.length
  · simp only [seaBlockRecordGetFirst, List.head?_cons, Option.getD_some, hshort, if_true]
    exact Or.inr ⟨p, hp, by rw [if_pos hshort]⟩
  · simp only [seaBlockRecordGetFirst, List.head?_cons, Option.getD_some, hshort, if_false]
    exact Or.inr ⟨p, hp, by rw [if_neg hshort]⟩

theorem withstands_seaControllerReadFromLocal (hgrows : ∀ {a b}, R a b → Grows a b)
    (htrans : ∀ {a b c}, R a b → R b c → R a c)
    (hview : ∀ t', R t t' → View id recordId mayFail P t') (bufLen : Int32) :
    (seaControllerReadFromLocal id recordId bufLen).Withstands serve R
      (fun result _ => Answers bufLen mayFail P result) t := by
  apply Program.Withstands.bind
  apply (withstands_seaBlockOpen hgrows htrans hview).mono
  rintro opened t₁ (⟨rfl, hmay⟩ | ⟨f, g, hdr, hpresent, rfl, hcases⟩)
  · exact Or.inl ⟨rfl, hmay⟩
  · apply Program.Withstands.bind
    apply (withstands_query hgrows hpresent hcases bufLen).mono
    intro result t₂ hanswer
    exact hanswer

end Reading

end SeaStore.Controller
