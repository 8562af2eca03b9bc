import SeaStore.Word.Calls
import SeaStore.Word.Md5

/-!
Searching for a word after filling its index, with other words filled before
and after. The documents come back exactly when the word fits in the name field
with its closing zero, and no other word just fills that field.
-/
namespace SeaStore.Word

open Posix Block Column

/-- A word to create and fill, and the bytes that stand where its header is built. -/
structure WordFill where
  stack : Vector UInt8 32
  word : CString
  docs : List UInt64

/-- What the insertion returned, and three searches: right after it, after other
words have been filled, and on a handle opened after that. -/
structure WordFound where
  insert : ℕ
  first : ArrayReadResult
  later : ArrayReadResult
  fresh : Option ArrayReadResult
  deriving DecidableEq

/-- The error of opening the word, and what was found where it opened. -/
structure WordTrial where
  error : ℕ
  found : Option WordFound
  deriving DecidableEq

variable (wordMd5 : CString → Bytes) (errno : ℕ) (dir : String)

/-- A word is created, and filled when it opens. -/
def fillWord (fill : WordFill) : Program (files WordPath) Unit := do
  let _ ← seaWordCreate wordMd5 ⟨fill.stack, .whole, errno⟩ dir fill.word
  let (_, conn) ← seaWordOpen wordMd5 errno dir fill.word
  match conn with
  | none => return ()
  | some conn =>
    let (_, conn) ← seaWordInsertDoc ⟨.whole, .whole, errno⟩ conn fill.docs (docIdLen fill.docs)
    seaWordClose conn

def fillWords : List WordFill → Program (files WordPath) Unit
  | [] => return ()
  | fill :: fills => do
    fillWord wordMd5 errno dir fill
    fillWords fills

/-- Other words are filled, and the word is searched for on the same handle and
on a new one. -/
def searchAgain (after : List WordFill) (word : CString) (conn : SeaWord)
    (limit docIdListLen : Int32) :
    Program (files WordPath) (ArrayReadResult × Option ArrayReadResult) := do
  fillWords wordMd5 errno dir after
  let (later, conn) ← seaWordFindDocByWordsForward errno conn limit docIdListLen
  seaWordClose conn
  match (← seaWordOpen wordMd5 errno dir word).2 with
  | none => return (later, none)
  | some conn =>
    let (fresh, conn) ← seaWordFindDocByWordsForward errno conn limit docIdListLen
    seaWordClose conn
    return (later, some fresh)

def wordTrial (before : List WordFill) (fill : WordFill) (after : List WordFill)
    (limit docIdListLen : Int32) : Program (files WordPath) WordTrial := do
  fillWords wordMd5 errno dir before
  let _ ← seaWordCreate wordMd5 ⟨fill.stack, .whole, errno⟩ dir fill.word
  let (error, conn) ← seaWordOpen wordMd5 errno dir fill.word
  match conn with
  | none => return ⟨error, none⟩
  | some conn =>
    let (ret, conn) ← seaWordInsertDoc ⟨.whole, .whole, errno⟩ conn fill.docs (docIdLen fill.docs)
    let (first, conn) ← seaWordFindDocByWordsForward errno conn limit docIdListLen
    let (later, fresh) ← searchAgain wordMd5 errno dir after fill.word conn limit docIdListLen
    return ⟨error, some ⟨ret, first, later, fresh⟩⟩

def allFound (docs : List UInt64) : ArrayReadResult :=
  ⟨0, some (UInt32.ofNat docs.length), docBytes docs⟩

/-- The word opens, takes the documents, and gives all of them every time. -/
def WordTrial.right (docs : List UInt64) : WordTrial :=
  ⟨0, some ⟨0, allFound docs, allFound docs, some (allFound docs)⟩⟩

variable {wordMd5 errno dir} {t t' : FileTree WordPath} {path : WordPath} {fill : WordFill}
  {fills : List WordFill}

/-- Filling a word keeps what a creation of its file and changes elsewhere keep. -/
theorem run_fillWord {K : FileTree WordPath → Prop}
    (hframe : ∀ {t t'}, t' path = t path → K t → K t')
    (hcreate : path = ⟨dir, wordMd5 (fill.word.cut 31)⟩ → ∀ t, K t → ∃ ret t',
      (seaWordCreate wordMd5 ⟨fill.stack, .whole, errno⟩ dir fill.word).run serve t =
        some (ret, t') ∧ K t')
    (hother : path ≠ ⟨dir, wordMd5 fill.word⟩) (hlen : fill.word.val.length ≠ 32) (h : K t) :
    ∃ t', (fillWord wordMd5 errno dir fill).run serve t = some ((), t') ∧ K t' := by
  obtain ⟨ret, t₁, hrun₁, h₁⟩ : ∃ ret t₁, (seaWordCreate wordMd5 ⟨fill.stack, .whole, errno⟩ dir
      fill.word).run serve t = some (ret, t₁) ∧ K t₁ := by
    by_cases htarget : path = ⟨dir, wordMd5 (fill.word.cut 31)⟩
    · exact hcreate htarget t h
    · obtain ⟨ret, t₁, hrun, hkept⟩ := seaWordCreate_elsewhere hlen t
      exact ⟨ret, t₁, hrun, hframe (hkept path htarget) h⟩
  obtain ⟨⟨error, opened⟩, t₂, hrun₂, hopened, hkept₂⟩ :=
    (confined_seaWordOpen : (seaWordOpen wordMd5 errno dir fill.word).Confined _ _).run t₁
  have h₂ := hframe (hkept₂ path hother) h₁
  unfold fillWord
  rw [Program.run_bind_of_run serve hrun₁, Program.run_bind_of_run serve hrun₂]
  cases opened with
  | none => exact ⟨t₂, rfl, h₂⟩
  | some conn =>
    obtain ⟨⟨ret', conn'⟩, t₃, hrun₃, -, hkept₃⟩ := (confined_seaWordInsertDoc (hopened conn rfl)
      ⟨.whole, .whole, errno⟩ fill.docs).run t₂
    simp only []
    rw [Program.run_bind_of_run serve hrun₃]
    exact ⟨t₃, rfl, hframe (hkept₃ path hother) h₂⟩

/-- So does filling any number of words, none of which just fills the field. -/
theorem run_fillWords {K : FileTree WordPath → Prop}
    (hframe : ∀ {t t'}, t' path = t path → K t → K t')
    (hcreate : ∀ fill ∈ fills, path = ⟨dir, wordMd5 (fill.word.cut 31)⟩ → ∀ t, K t → ∃ ret t',
      (seaWordCreate wordMd5 ⟨fill.stack, .whole, errno⟩ dir fill.word).run serve t =
        some (ret, t') ∧ K t')
    (hother : ∀ fill ∈ fills, path ≠ ⟨dir, wordMd5 fill.word⟩)
    (hlen : ∀ fill ∈ fills, fill.word.val.length ≠ 32) (h : K t) :
    ∃ t', (fillWords wordMd5 errno dir fills).run serve t = some ((), t') ∧ K t' := by
  induction fills generalizing t with
  | nil => exact ⟨t, rfl, h⟩
  | cons fill fills ih =>
    simp only [List.mem_cons, forall_eq_or_imp] at hcreate hother hlen
    obtain ⟨t₁, hrun₁, h₁⟩ := run_fillWord hframe hcreate.1 hother.1 hlen.1 h
    obtain ⟨t', hrun, h'⟩ := ih hcreate.2 hother.2 hlen.2 h₁
    refine ⟨t', ?_, h'⟩
    rw [fillWords, Program.run_bind_of_run serve hrun₁]
    exact hrun

/-- One word that just fills the field is enough for a fault. -/
theorem run_fillWords_fault (h : ∃ fill ∈ fills, fill.word.val.length = 32)
    (t : FileTree WordPath) : (fillWords wordMd5 errno dir fills).run serve t = none := by
  induction fills generalizing t with
  | nil => simp at h
  | cons fill fills ih =>
    rw [fillWords, Program.run_bind]
    by_cases hlen : fill.word.val.length = 32
    · rw [fillWord, Program.run_bind, run_seaWordCreate_fault hlen]
      rfl
    · have hrest : ∃ fill ∈ fills, fill.word.val.length = 32 := by
        simpa [hlen] using h
      cases (fillWord wordMd5 errno dir fill).run serve t with
      | none => rfl
      | some done => exact ih hrest done.2

section Trial

variable {before after : List WordFill} {limit docIdListLen : Int32}

theorem CString.cut_of_le {word : CString} {count : ℕ} (h : word.val.length ≤ count) :
    word.cut count = word :=
  Subtype.ext (List.take_of_length_le h)

theorem path_ne (hinj : Function.Injective wordMd5) {word other : CString} (h : other ≠ word) :
    (⟨dir, wordMd5 word⟩ : WordPath) ≠ ⟨dir, wordMd5 other⟩ := by
  intro heq
  exact h (hinj (WordPath.mk.inj heq).2.symm)

/-- The searches after other words have been filled. -/
theorem run_searchAgain (errno : ℕ) (hinj : Function.Injective wordMd5) {conn : SeaWord}
    (hon : conn.On ⟨dir, wordMd5 fill.word⟩) (h : Listed t ⟨dir, wordMd5 fill.word⟩ fill.docs)
    (hother : ∀ other ∈ after, other.word ≠ fill.word)
    (hlen : ∀ other ∈ after, other.word.val.length ≠ 32)
    (hlimit : (fill.docs.length : ℤ) ≤ limit.toInt) (hshort : limit.toInt < 2 ^ 28)
    (hroom : ((docBytes fill.docs).length : ℤ) ≤ docIdListLen.toInt) :
    ∃ t', (searchAgain wordMd5 errno dir after fill.word conn limit docIdListLen).run serve t =
      some ((allFound fill.docs, some (allFound fill.docs)), t') := by
  obtain ⟨t₁, hrun₁, h₁⟩ : ∃ t₁, (fillWords wordMd5 errno dir after).run serve t =
      some ((), t₁) ∧ Listed t₁ ⟨dir, wordMd5 fill.word⟩ fill.docs := by
    apply run_fillWords (K := fun t => Listed t ⟨dir, wordMd5 fill.word⟩ fill.docs)
      (fun hsame hlisted => hlisted.of_same hsame) _ _ hlen h
    · intro other hmem htarget t₂ h₂
      rw [htarget] at h₂ ⊢
      obtain ⟨t₃, hrun, h₃⟩ := run_seaWordCreate (hlen other hmem) (Or.inr h₂)
      exact ⟨_, t₃, hrun, h₃⟩
    · intro other hmem
      exact path_ne hinj (hother other hmem)
  obtain ⟨conn₂, hfind, -⟩ := run_seaWordFind errno hon h₁ hlimit hshort hroom
  obtain ⟨conn₃, hopen, hon₃⟩ := run_seaWordOpen errno h₁
  obtain ⟨conn₄, hfind', -⟩ := run_seaWordFind errno hon₃ h₁ hlimit hshort hroom
  refine ⟨t₁, ?_⟩
  unfold searchAgain
  rw [Program.run_bind_of_run serve hrun₁, Program.run_bind_of_run serve hfind]
  simp only []
  rw [seaWordClose, Program.run_bind_of_run serve (show (colArrayClose conn₂.array).run serve t₁ =
    some ((), t₁) from rfl), Program.run_bind_of_run serve hopen]
  simp only []
  rw [Program.run_bind_of_run serve hfind']
  rfl

/-- Up to the later searches, the trial of a word that fits goes well. -/
theorem run_wordTrial_first (errno : ℕ) (after : List WordFill) (hinj : Function.Injective wordMd5)
    (hempty : ∀ name, t ⟨dir, name⟩ = none)
    (hother : ∀ other ∈ before, other.word ≠ fill.word)
    (hlen : ∀ other ∈ before, other.word.val.length ≠ 32) (hle : fill.word.val.length ≤ 31)
    (hlimit : (fill.docs.length : ℤ) ≤ limit.toInt) (hshort : limit.toInt < 2 ^ 28)
    (hroom : ((docBytes fill.docs).length : ℤ) ≤ docIdListLen.toInt) :
    ∃ (conn : SeaWord) (t₁ : FileTree WordPath), conn.On ⟨dir, wordMd5 fill.word⟩ ∧
      Listed t₁ ⟨dir, wordMd5 fill.word⟩ fill.docs ∧
      (wordTrial wordMd5 errno dir before fill after limit docIdListLen).run serve t =
        (do
          let (later, fresh) ← searchAgain wordMd5 errno dir after fill.word conn limit docIdListLen
          return (⟨0, some ⟨0, allFound fill.docs, later, fresh⟩⟩ : WordTrial)).run serve t₁ := by
  have hne : fill.word.val.length ≠ 32 := by omega
  have hcut : fill.word.cut 31 = fill.word := CString.cut_of_le hle
  obtain ⟨t₁, hrun₁, h₁⟩ : ∃ t₁, (fillWords wordMd5 errno dir before).run serve t =
      some ((), t₁) ∧ (t₁ ⟨dir, wordMd5 fill.word⟩ = none ∧ ([] : List UInt64) = [] ∨
        Listed t₁ ⟨dir, wordMd5 fill.word⟩ []) := by
    apply run_fillWords (K := fun t => t ⟨dir, wordMd5 fill.word⟩ = none ∧
      ([] : List UInt64) = [] ∨ Listed t ⟨dir, wordMd5 fill.word⟩ []) _ _ _ hlen
      (Or.inl ⟨hempty _, rfl⟩)
    · exact ⟨dir, wordMd5 fill.word⟩
    · intro t t' hsame hstands
      rcases hstands with ⟨habs, -⟩ | hlisted
      · exact Or.inl ⟨hsame.trans habs, rfl⟩
      · exact Or.inr (hlisted.of_same hsame)
    · intro other hmem htarget t₂ h₂
      rw [htarget] at h₂ ⊢
      obtain ⟨t₃, hrun, h₃⟩ := run_seaWordCreate (hlen other hmem) h₂
      exact ⟨_, t₃, hrun, Or.inr h₃⟩
    · intro other hmem
      exact path_ne hinj (hother other hmem)
  rw [← hcut] at h₁
  obtain ⟨t₂, hrun₂, h₂⟩ := run_seaWordCreate hne h₁
  rw [hcut] at h₂
  obtain ⟨conn, hopen, hon⟩ := run_seaWordOpen errno h₂
  have hbytes := docBytes_length fill.docs
  obtain ⟨conn₃, t₃, hrun₃, hon₃, h₃⟩ := run_seaWordInsertDoc errno hon h₂ (by decide) fill.docs
    (by omega)
  rw [List.nil_append] at h₃
  obtain ⟨conn₄, hfind, hon₄⟩ := run_seaWordFind errno hon₃ h₃ hlimit hshort hroom
  refine ⟨conn₄, t₃, hon₄, h₃, ?_⟩
  unfold wordTrial
  rw [Program.run_bind_of_run serve hrun₁, Program.run_bind_of_run serve hrun₂,
    Program.run_bind_of_run serve hopen]
  simp only []
  rw [Program.run_bind_of_run serve hrun₃]
  simp only []
  rw [Program.run_bind_of_run serve hfind]
  rfl

/-- A word that is longer than the field is not found under its own hash. -/
theorem run_wordTrial_long (errno : ℕ) (before after : List WordFill) (limit docIdListLen : Int32)
    (hinj : Function.Injective wordMd5)
    (hempty : ∀ name, t ⟨dir, name⟩ = none)
    (hother : ∀ other ∈ before, other.word ≠ fill.word)
    (hlen : ∀ other ∈ before, other.word.val.length ≠ 32) (hlong : 32 < fill.word.val.length) :
    ∃ t', (wordTrial wordMd5 errno dir before fill after limit docIdListLen).run serve t =
      some (⟨ENOENT, none⟩, t') := by
  have hcut : ∀ word : CString, fill.word ≠ word.cut 31 := by
    intro word heq
    have hle := List.length_take_le 31 word.val
    have hlen := congrArg (fun w : CString => w.val.length) heq
    simp only [CString.cut] at hlen
    omega
  obtain ⟨t₁, hrun₁, h₁⟩ : ∃ t₁, (fillWords wordMd5 errno dir before).run serve t =
      some ((), t₁) ∧ t₁ ⟨dir, wordMd5 fill.word⟩ = none := by
    apply run_fillWords (K := fun t => t ⟨dir, wordMd5 fill.word⟩ = none)
      (fun hsame habs => hsame.trans habs) _ _ hlen (hempty _)
    · intro other hmem htarget
      exact absurd htarget.symm (path_ne hinj (hcut other.word))
    · intro other hmem
      exact path_ne hinj (hother other hmem)
  have hne : fill.word.val.length ≠ 32 := by omega
  obtain ⟨ret, t₂, hrun₂, hkept⟩ := seaWordCreate_elsewhere hne t₁
  have h₂ : t₂ ⟨dir, wordMd5 fill.word⟩ = none :=
    (hkept _ (path_ne hinj (hcut fill.word)).symm).trans h₁
  refine ⟨t₂, ?_⟩
  unfold wordTrial
  rw [Program.run_bind_of_run serve hrun₁, Program.run_bind_of_run serve hrun₂,
    Program.run_bind_of_run serve (run_seaWordOpen_absent errno h₂)]
  rfl

/-- A word is found again, with all its documents every time, exactly when it
has at most 31 characters and none of the other words has 32. -/
theorem wordTrial_right_iff (hinj : Function.Injective wordMd5) (errno : ℕ)
    (hempty : ∀ name, t ⟨dir, name⟩ = none)
    (hother : ∀ other ∈ before ++ after, other.word ≠ fill.word)
    (hlimit : (fill.docs.length : ℤ) ≤ limit.toInt) (hshort : limit.toInt < 2 ^ 28)
    (hroom : ((docBytes fill.docs).length : ℤ) ≤ docIdListLen.toInt) :
    (∃ t', (wordTrial wordMd5 errno dir before fill after limit docIdListLen).run serve t =
        some (WordTrial.right fill.docs, t')) ↔
      fill.word.val.length ≤ 31 ∧ ∀ other ∈ before ++ after, other.word.val.length ≠ 32 := by
  have hbefore : ∀ other ∈ before, other.word ≠ fill.word :=
    fun other hmem => hother other (List.mem_append_left _ hmem)
  have hafter : ∀ other ∈ after, other.word ≠ fill.word :=
    fun other hmem => hother other (List.mem_append_right _ hmem)
  constructor
  · intro hright
    obtain ⟨t', hrun⟩ := hright
    have hlen : ∀ other ∈ before, other.word.val.length ≠ 32 := by
      intro other hmem h32
      unfold wordTrial at hrun
      rw [Program.run_bind, run_fillWords_fault ⟨other, hmem, h32⟩] at hrun
      exact absurd hrun (by simp)
    rcases Nat.lt_trichotomy fill.word.val.length 32 with hlt | h32 | hlong
    · refine ⟨by omega, ?_⟩
      intro other hmem
      rcases List.mem_append.mp hmem with hold | hnew
      · exact hlen other hold
      · intro h32
        obtain ⟨conn, t₁, -, -, hfirst⟩ := run_wordTrial_first errno after hinj hempty hbefore hlen
          (by omega) hlimit hshort hroom
        rw [hfirst, searchAgain, Program.run_bind, Program.run_bind,
          run_fillWords_fault ⟨other, hnew, h32⟩] at hrun
        exact absurd hrun (by simp)
    · unfold wordTrial at hrun
      rw [Program.run_bind] at hrun
      obtain ⟨⟨⟨⟩, t₁⟩, -, hrest⟩ := Option.bind_eq_some_iff.mp hrun
      rw [Program.run_bind, run_seaWordCreate_fault h32] at hrest
      exact absurd hrest (by simp)
    · obtain ⟨t₂, hlongRun⟩ := run_wordTrial_long errno before after limit docIdListLen
        hinj hempty hbefore hlen hlong
      have heq := congrArg Prod.fst (Option.some.inj (hlongRun.symm.trans hrun))
      exact absurd heq (by simp [WordTrial.right])
  · intro hfits
    obtain ⟨hle, hlen⟩ := hfits
    obtain ⟨conn, t₁, hon, h₁, hrun⟩ := run_wordTrial_first errno after hinj
      hempty hbefore (fun other hmem => hlen other (List.mem_append_left _ hmem)) hle hlimit
      hshort hroom
    obtain ⟨t', hagain⟩ := run_searchAgain errno hinj hon h₁ hafter
      (fun other hmem => hlen other (List.mem_append_right _ hmem)) hlimit hshort hroom
    refine ⟨t', ?_⟩
    rw [hrun, Program.run_bind_of_run serve hagain]
    rfl

end Trial

section Samples

/-- A function that gives known texts for some strings, and for any other one
the string behind a letter that no digit is. -/
def hashTable : List (Bytes × Bytes) → Bytes → Bytes
  | [], word => 120 :: word
  | (known, text) :: rest, word => if word = known then text else hashTable rest word

theorem hashTable_cases (table : List (Bytes × Bytes)) (word : Bytes) :
    hashTable table word ∈ table.map Prod.snd ∨ hashTable table word = 120 :: word := by
  induction table with
  | nil => exact Or.inr rfl
  | cons entry rest ih =>
    rw [hashTable, List.map_cons, List.mem_cons]
    split
    · exact Or.inl (Or.inl rfl)
    · rcases ih with hmem | heq
      · exact Or.inl (Or.inr hmem)
      · exact Or.inr heq

theorem hashTable_injective {table : List (Bytes × Bytes)} (hnodup : (table.map Prod.snd).Nodup)
    (hdigits : ∀ text ∈ table.map Prod.snd, text.head? ≠ some 120) :
    Function.Injective (hashTable table) := by
  induction table with
  | nil =>
    intro a b h
    exact (List.cons.inj h).2
  | cons entry rest ih =>
    rw [List.map_cons, List.nodup_cons] at hnodup
    rw [List.map_cons, List.forall_mem_cons] at hdigits
    have hnew : ∀ word, entry.2 ≠ hashTable rest word := by
      intro word heq
      rcases hashTable_cases rest word with hmem | hother
      · exact hnodup.1 (heq ▸ hmem)
      · exact hdigits.1 (by rw [heq, hother]; rfl)
    intro a b h
    rw [hashTable, hashTable] at h
    split at h
    case isTrue ha =>
      split at h
      case isTrue hb => exact ha.trans hb.symm
      case isFalse => exact absurd h (hnew b)
    case isFalse =>
      split at h
      case isTrue => exact absurd h.symm (hnew a)
      case isFalse => exact ih hnodup.2 hdigits.2 h

/-- The true hashes of `"test"`, and of 31 and 33 letters. -/
def sampleMd5 (word : CString) : Bytes :=
  hashTable
    [([116, 101, 115, 116], md5 (fun _ => #v[0x09, 0x8f, 0x6b, 0xcd, 0x46, 0x21, 0xd3, 0x73, 0xca,
        0xde, 0x4e, 0x83, 0x26, 0x27, 0xb4, 0xf6]) ""),
      (List.replicate 31 97, md5 (fun _ => #v[0x3b, 0x08, 0x45, 0xdb, 0x57, 0xc2, 0x00,
        0xbe, 0x60, 0x52, 0x46, 0x6f, 0x87, 0xb2, 0x19, 0x8a]) ""),
      (List.replicate 33 97, md5 (fun _ => #v[0xb4, 0xf1, 0x3c, 0xb0, 0x81, 0xe4, 0x12,
        0xf4, 0x4e, 0x99, 0x74, 0x2c, 0xb1, 0x28, 0xa1, 0xa5]) "")] word.val

theorem sampleMd5_injective : Function.Injective sampleMd5 := by
  intro a b h
  exact Subtype.ext (hashTable_injective (by decide +kernel) (by decide +kernel) h)

def longFill : WordFill := ⟨Vector.replicate 32 0, ⟨List.replicate 33 97, by decide⟩, [7]⟩

def testFill : WordFill := ⟨Vector.replicate 32 0, ⟨[116, 101, 115, 116], by decide⟩, [7, 9]⟩

/-- A word of 33 letters is created under the hash of its first 31, and does not open. -/
theorem wordTrial_loses_long_word :
    Function.Injective sampleMd5 ∧
    (∃ t', (wordTrial sampleMd5 0 "" [] longFill [] 1 8).run serve (fun _ => none) =
      some (⟨ENOENT, none⟩, t')) ∧
    ¬ ∃ t', (wordTrial sampleMd5 0 "" [] longFill [] 1 8).run serve (fun _ => none) =
      some (WordTrial.right longFill.docs, t') := by
  have hempty : ∀ name, (fun _ => none : FileTree WordPath) ⟨"", name⟩ = none := fun _ => rfl
  obtain ⟨t', hrun⟩ : ∃ t', (wordTrial sampleMd5 0 "" [] longFill [] 1 8).run serve
      (fun _ => none) = some (⟨ENOENT, none⟩, t') :=
    run_wordTrial_long 0 [] [] 1 8 sampleMd5_injective hempty (by simp) (by simp) (by decide)
  refine ⟨sampleMd5_injective, ⟨t', hrun⟩, ?_⟩
  intro hright
  obtain ⟨t'', hrun'⟩ := hright
  have heq := congrArg Prod.fst (Option.some.inj (hrun.symm.trans hrun'))
  exact absurd heq (by simp [WordTrial.right])

/-- A short word is found, with a long one filled before and after it. -/
theorem wordTrial_right_short_word :
    ∃ t', (wordTrial sampleMd5 0 "" [longFill] testFill [longFill] 2 16).run serve
      (fun _ => none) = some (WordTrial.right testFill.docs, t') := by
  have hempty : ∀ name, (fun _ => none : FileTree WordPath) ⟨"", name⟩ = none := fun _ => rfl
  apply (wordTrial_right_iff sampleMd5_injective 0 hempty (by decide) (by decide) (by decide)
    (by decide)).mpr
  decide

end Samples

end SeaStore.Word
