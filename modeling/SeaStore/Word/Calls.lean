import SeaStore.Column.Calls
import SeaStore.Posix.Confined
import SeaStore.Word.Word

/-!
What the calls of a word's index do: to the file that they are on when that
holds a list of documents, and to every other file, which is nothing.
-/
namespace SeaStore.Word

open Posix Block Column

variable {wordMd5 : CString → Bytes} {t t' : FileTree WordPath} {path : WordPath}
  {docs : List UInt64} {dir : String} {word : CString} {errno : ℕ}

/-- The file is an array of these documents, whatever its header counts. -/
def Listed (t : FileTree WordPath) (path : WordPath) (docs : List UInt64) : Prop :=
  ∃ (hdr : ColArrayHdr) (elems : List (Vector UInt8 8)), Contents t path hdr elems ∧
    (colArrayGetTypeSize hdr.recordType).toNat = 8 ∧ elementBytes elems = docBytes docs

theorem Listed.of_same (h : Listed t path docs) (hsame : t' path = t path) :
    Listed t' path docs := by
  obtain ⟨hdr, elems, ⟨f, hf, hbytes⟩, htype, hdocs⟩ := h
  exact ⟨hdr, elems, ⟨f, hsame.trans hf, hbytes⟩, htype, hdocs⟩

theorem docs_length {elems : List (Vector UInt8 8)}
    (hdocs : elementBytes elems = docBytes docs) : elems.length = docs.length := by
  have hlen := congrArg List.length hdocs
  rw [elementBytes_length, docBytes_length] at hlen
  omega

/-- The whole elements of documents are all of them. -/
theorem wholeElements_docBytes (docs : List UInt64) :
    elementBytes (wholeElements 8 (docBytes docs)) = docBytes docs := by
  rw [elementBytes_wholeElements, docBytes_length, Nat.mul_div_cancel_left _ (by decide),
    ← docBytes_length, List.take_length]

section Create

variable {stack : Vector UInt8 32}

/-- A creation is one of an array under the hash of at most 31 characters. -/
theorem seaWordCreate_eq (hlen : word.val.length ≠ 32) (e : ArrayCreateEnv) :
    seaWordCreate wordMd5 e dir word =
      colArrayCreate e ⟨dir, wordMd5 (word.cut 31)⟩ (some (wordInfo word)) := by
  unfold seaWordCreate
  simp only [ofName_wordInfo word hlen]
  rfl

/-- A creation lists nothing where there was no file, and what was listed where
there was one. -/
theorem run_seaWordCreate (hlen : word.val.length ≠ 32)
    (h : t ⟨dir, wordMd5 (word.cut 31)⟩ = none ∧ docs = [] ∨
      Listed t ⟨dir, wordMd5 (word.cut 31)⟩ docs) :
    ∃ t', (seaWordCreate wordMd5 ⟨stack, .whole, errno⟩ dir word).run serve t =
        some (arrayHdrSize, t') ∧
      Listed t' ⟨dir, wordMd5 (word.cut 31)⟩ docs := by
  obtain ⟨length, hlength⟩ := strlen_isSome ((zero_mem_wordInfo word).mpr hlen)
  rw [seaWordCreate_eq hlen]
  rcases h with ⟨habs, rfl⟩ | ⟨hdr, elems, hcontents, -, hdocs⟩
  · obtain ⟨f, hrun, hbytes⟩ := run_colArrayCreate stack errno habs hlength
    refine ⟨_, hrun, newHdr stack (wordInfo word) length, [],
      ⟨f, FileTree.set_self _ _ _, ?_⟩, rfl, rfl⟩
    rw [hbytes, elementBytes_nil, List.append_nil]
  · obtain ⟨f, hrun, hbytes⟩ := run_colArrayCreate_over stack errno hcontents hlength
    exact ⟨_, hrun, newHdr stack (wordInfo word) length, elems,
      ⟨f, FileTree.set_self _ _ _, hbytes⟩, rfl, hdocs⟩

/-- Where the name field has no end the hash leaves it. -/
theorem run_seaWordCreate_fault (hlen : word.val.length = 32) :
    (seaWordCreate wordMd5 ⟨stack, .whole, errno⟩ dir word).run serve t = none := by
  have hnone : CString.ofName (wordInfo word).colName = none := by
    apply if_neg
    rw [zero_mem_wordInfo]
    exact not_not.mpr hlen
  unfold seaWordCreate
  simp only [hnone]
  rw [Program.run_bind, Program.run_ofOption_none]
  rfl

/-- Whatever there was, a creation comes to its end and changes no other file. -/
theorem seaWordCreate_elsewhere (hlen : word.val.length ≠ 32) (t : FileTree WordPath) :
    ∃ ret t', (seaWordCreate wordMd5 ⟨stack, .whole, errno⟩ dir word).run serve t =
        some (ret, t') ∧
      ∀ other, other ≠ ⟨dir, wordMd5 (word.cut 31)⟩ → t' other = t other := by
  obtain ⟨length, hlength⟩ := strlen_isSome ((zero_mem_wordInfo word).mpr hlen)
  rw [seaWordCreate_eq hlen]
  refine ⟨_, _, run_colArrayCreate_any _ hlength, ?_⟩
  intro other hne
  exact FileTree.set_other _ _ hne

end Create

/-- The handle's file, and the size of its elements. -/
abbrev SeaWord.On (conn : SeaWord) (path : WordPath) : Prop := conn.array.On path 8

theorem run_seaWordOpen (errno : ℕ) (h : Listed t ⟨dir, wordMd5 word⟩ docs) :
    ∃ conn : SeaWord, (seaWordOpen wordMd5 errno dir word).run serve t =
        some ((0, some conn), t) ∧ conn.On ⟨dir, wordMd5 word⟩ := by
  obtain ⟨hdr, elems, hcontents, htype, -⟩ := h
  refine ⟨⟨⟨⟨⟨dir, wordMd5 word⟩, arrayHdrSize⟩, hdr⟩⟩, ?_, rfl, ?_⟩
  · unfold seaWordOpen
    rw [Program.run_bind_of_run serve (run_colArrayOpen hcontents errno)]
    rfl
  · exact htype

theorem run_seaWordOpen_absent (errno : ℕ) (h : t ⟨dir, wordMd5 word⟩ = none) :
    (seaWordOpen wordMd5 errno dir word).run serve t = some ((ENOENT, none), t) := by
  unfold seaWordOpen
  rw [Program.run_bind_of_run serve (run_colArrayOpen_absent h errno)]
  rfl

def docIdLen (docs : List UInt64) : Int32 := Int32.ofNat (docBytes docs).length

theorem run_seaWordInsertDoc (errno : ℕ) {conn : SeaWord} (hon : conn.On path)
    (h : Listed t path docs) (hfit : docs.length < 2 ^ 31) (more : List UInt64)
    (hmore : (docBytes more).length < 2 ^ 31) :
    ∃ conn' t', (seaWordInsertDoc ⟨.whole, .whole, errno⟩ conn more (docIdLen more)).run serve t =
        some ((0, conn'), t') ∧ conn'.On path ∧ Listed t' path (docs ++ more) := by
  obtain ⟨hdr, elems, hcontents, -, hdocs⟩ := h
  have hlen := docs_length hdocs
  obtain ⟨array', f, hrun, hpath', hhdr', hbytes⟩ := run_colArrayAppend hon hcontents
    (docBytes more) (by omega) (by simp only [arrayHdrSize, offMax]; omega) errno
  have hon' : array'.On path 8 := by
    refine ⟨hpath', ?_⟩
    rw [hhdr']
    exact hon.size_eq
  refine ⟨⟨array'⟩, t.set path f, ?_, hon', array'.hdr, elems ++ wholeElements 8 (docBytes more),
    ⟨f, FileTree.set_self _ _ _, hbytes⟩, hon'.size_eq, ?_⟩
  · unfold seaWordInsertDoc
    have hword : (docIdLen more).toUInt32 = UInt32.ofNat (docBytes more).length := rfl
    rw [hword, Program.run_bind_of_run serve hrun]
    rfl
  · rw [elementBytes_append, hdocs, wholeElements_docBytes, docBytes, docBytes, docBytes,
      List.flatMap_append]

/-- A search with room for all documents gives all of them in order. -/
theorem run_seaWordFind (errno : ℕ) {conn : SeaWord} (hon : conn.On path) (h : Listed t path docs)
    {limit docIdListLen : Int32} (hlimit : (docs.length : ℤ) ≤ limit.toInt)
    (hshort : limit.toInt < 2 ^ 28) (hroom : ((docBytes docs).length : ℤ) ≤ docIdListLen.toInt) :
    ∃ conn', (seaWordFindDocByWordsForward errno conn limit docIdListLen).run serve t =
        some ((⟨0, some (UInt32.ofNat docs.length), docBytes docs⟩, conn'), t) ∧
      conn'.On path := by
  obtain ⟨hdr, elems, hcontents, -, hdocs⟩ := h
  have hlen := docs_length hdocs
  rw [docBytes_length] at hroom
  have hlimitNat := (toNat_toUInt32 limit).trans (if_pos (by omega))
  have hroomNat := (toNat_toUInt32 docIdListLen).trans (if_pos (by omega))
  have hroomLt : docIdListLen.toInt < 2 ^ 31 := docIdListLen.toInt_lt
  obtain ⟨array', hrun, hon'⟩ := run_colArrayRead hon hcontents errno
    0 limit.toUInt32 docIdListLen.toUInt32 (UInt32.le_iff_toNat_le.mpr (Nat.zero_le _))
    (by omega) (by omega)
  have hall : Column.window elems (0 : UInt32).toNat limit.toUInt32.toNat
      (docIdListLen.toUInt32.toNat / 8) = elems := by
    rw [Column.window, UInt32.toNat_zero, List.drop_zero]
    apply List.take_of_length_le
    omega
  rw [hall, hdocs, hlen] at hrun
  refine ⟨⟨array'⟩, ?_, hon'⟩
  unfold seaWordFindDocByWordsForward
  rw [Program.run_bind_of_run serve hrun]
  rfl

section Confined

theorem confined_seaWordOpen :
    (seaWordOpen wordMd5 errno dir word).Confined ⟨dir, wordMd5 word⟩ fun opened =>
      ∀ conn, opened.2 = some conn → conn.array.fd.path = ⟨dir, wordMd5 word⟩ := by
  apply Program.Confined.bind
  apply Program.Confined.bind
  apply confined_openFile
  intro fd hfd
  cases fd with
  | none =>
    intro conn hconn
    exact absurd hconn (by simp)
  | some fd =>
    simp only []
    apply Program.Confined.bind
    apply confined_read (hfd fd rfl)
    intro header fd' hpath
    simp only []
    split
    · intro conn hconn
      exact absurd hconn (by simp)
    · intro conn hconn
      obtain rfl := Option.some.inj hconn
      exact hpath

theorem confined_seaWordInsertDoc {conn : SeaWord} (hpath : conn.array.fd.path = path)
    (e : ArrayAppendEnv) (docs : List UInt64) :
    (seaWordInsertDoc e conn docs (docIdLen docs)).Confined path (fun _ => True) := by
  have hword : (docIdLen docs).toUInt32.toNat ≤ (docBytes docs).length := by
    have heq : (docIdLen docs).toUInt32 = UInt32.ofNat (docBytes docs).length := rfl
    rw [heq, UInt32.toNat_ofNat']
    exact Nat.mod_le _ _
  have hreal := toNat_wholeSize (docIdLen docs).toUInt32
    (colArrayGetTypeSize conn.array.hdr.recordType)
  have hle := Nat.mul_div_le (docIdLen docs).toUInt32.toNat
    (colArrayGetTypeSize conn.array.hdr.recordType).toNat
  apply Program.Confined.bind
  unfold colArrayAppend
  simp only []
  rw [if_neg (by omega)]
  apply Program.Confined.bind
  apply confined_seekEnd hpath
  intro off fd hpath₁
  simp only []
  apply Program.Confined.bind
  apply confined_write hpath₁
  intro result fd' hpath₂
  simp only []
  split
  · apply Program.Confined.bind
    apply confined_truncate hpath₂
    trivial
  · apply Program.Confined.bind
    apply confined_write ((Fd.seekSet_path fd' 0).trans hpath₂)
    intro result' fd'' _
    trivial

end Confined

end SeaStore.Word
