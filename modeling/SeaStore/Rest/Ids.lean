import Mathlib.Data.List.TakeWhile
import SeaStore.Block.Format
import SeaStore.Posix.Text

/-!
Ids in the REST interface. The reply to a POST names a record as its block id
and its record id in decimal digits with an underscore between; a GET finds the
two in the URI with `strtok` and `atol`. Every id that was handed out is read
back, but texts are accepted that no POST has ever rendered.
-/
namespace SeaStore.Rest

open Posix Block

def bytesOf (text : List Char) : Bytes := text.map byteOf

/-- `"%llu_%u"`. -/
def restId (blockId : UInt64) (recordId : UInt32) : Bytes :=
  decimal blockId.toNat ++ byteOf '_' :: decimal recordId.toNat

def idOpen : Bytes := bytesOf ['{', '"', 'i', 'd', '"', ':', '"']

def idClose : Bytes := bytesOf ['"', '}']

/-- The text that `rest_handle_post` replies with: `snprintf` writes at most 1023
bytes and a zero. -/
def resBuf (blockId : UInt64) (recordId : UInt32) : Bytes :=
  (idOpen ++ restId blockId recordId ++ idClose).take 1023

/-- A return code and the two output arguments. -/
structure ParsedId where
  ret : ℕ
  blockId : UInt64
  recordId : UInt32
  deriving DecidableEq

def idDelim : Bytes := [byteOf '=']

def partDelim : Bytes := [byteOf '_']

/-- The output arguments keep their values unless all four tokens are there. The
third call of `strtok` starts again in the middle, on the second token. -/
def getBlockIdAndRecordId (uri : Bytes) (blockId : UInt64) (recordId : UInt32) : ParsedId :=
  match strtok idDelim uri with
  | (none, _) => ⟨EINVAL, blockId, recordId⟩
  | (some _, rest) =>
    match (strtok idDelim rest).1 with
    | none => ⟨EINVAL, blockId, recordId⟩
    | some idStr =>
      match strtok partDelim idStr with
      | (none, _) => ⟨EINVAL, blockId, recordId⟩
      | (some blockStr, rest) =>
        match (strtok partDelim rest).1 with
        | none => ⟨EINVAL, blockId, recordId⟩
        | some recordIdStr =>
          ⟨0, UInt64.ofInt (atol blockStr), UInt32.ofInt (atol recordIdStr)⟩

def idUri : Bytes := bytesOf ['/', 'a', 'p', 'i', '/', 's', 'e', 'a', '?', 'i', 'd', '=']

/-- The text after the first `=` of a URI, up to the next `=` or `&` or the end. -/
def idText (uri : Bytes) : Bytes :=
  ((uri.dropWhile (· ≠ byteOf '=')).drop 1).takeWhile fun c => c ≠ byteOf '=' ∧ c ≠ byteOf '&'

/-- The two pieces of a URI that are taken for numbers, if there are two. -/
def idParts (uri : Bytes) : Option (Bytes × Bytes) := do
  let (name, rest) := strtok idDelim uri
  let _ ← name
  let idStr ← (strtok idDelim rest).1
  let (blockStr, rest) := strtok partDelim idStr
  let blockStr ← blockStr
  let recordIdStr ← (strtok partDelim rest).1
  return (blockStr, recordIdStr)

section Parsing

variable {uri : Bytes} {blockId : UInt64} {recordId : UInt32}

theorem getBlockIdAndRecordId_eq :
    getBlockIdAndRecordId uri blockId recordId =
      match idParts uri with
      | none => ⟨EINVAL, blockId, recordId⟩
      | some (blockStr, recordIdStr) =>
        ⟨0, UInt64.ofInt (atol blockStr), UInt32.ofInt (atol recordIdStr)⟩ := by
  unfold getBlockIdAndRecordId idParts
  rcases strtok idDelim uri with ⟨_ | name, rest⟩
  · rfl
  rcases hid : (strtok idDelim rest).1 with _ | idStr
  · simp [hid]
  rcases hblock : strtok partDelim idStr with ⟨_ | blockStr, rest'⟩
  · simp [hid, hblock]
  rcases hrecord : (strtok partDelim rest').1 with _ | recordIdStr
  · simp [hid, hblock, hrecord]
  · simp [hid, hblock, hrecord]

/-- Where the id text stands in a URI that does not start with `=`. -/
theorem exists_idText (hhead : uri.head? ≠ some (byteOf '=')) (hne : idText uri ≠ []) :
    ∃ name rest : Bytes, uri = name ++ byteOf '=' :: (idText uri ++ rest) ∧ name ≠ [] ∧
      (∀ c ∈ name, c ∉ idDelim) ∧ ∀ c ∈ rest.head?, c = byteOf '=' ∨ c = byteOf '&' := by
  have hsplit : uri.takeWhile (· ≠ byteOf '=') ++ uri.dropWhile (· ≠ byteOf '=') = uri :=
    List.takeWhile_append_dropWhile
  have hname : ∀ c ∈ uri.takeWhile (· ≠ byteOf '='), c ∉ idDelim := by
    intro c hc
    have hequals := of_decide_eq_true (List.all_eq_true.mp List.all_takeWhile c hc)
    simpa [idDelim] using hequals
  have hfirst : ∀ c ∈ (uri.dropWhile (· ≠ byteOf '=')).head?, c = byteOf '=' := by
    intro c hc
    simpa using head?_dropWhile c hc
  unfold idText at hne ⊢
  generalize uri.takeWhile (· ≠ byteOf '=') = name at hsplit hname
  generalize uri.dropWhile (· ≠ byteOf '=') = behind at hsplit hfirst hne ⊢
  obtain ⟨tail, rfl⟩ : ∃ tail, behind = byteOf '=' :: tail := by
    cases behind with
    | nil => simp at hne
    | cons c tail => exact ⟨tail, by rw [hfirst c rfl]⟩
  refine ⟨name, tail.dropWhile fun c => decide (c ≠ byteOf '=' ∧ c ≠ byteOf '&'), ?_, ?_, hname, ?_⟩
  · rw [List.drop_one, List.tail_cons, List.takeWhile_append_dropWhile, hsplit]
  · intro hempty
    rw [← hsplit, hempty] at hhead
    exact hhead rfl
  · intro c hc
    have hstop := head?_dropWhile c hc
    simp only [decide_eq_true_eq] at hstop
    tauto

/-- A URI whose id text is two runs of digits gives these two pieces, and what
else is in the second one comes after an `&`. -/
theorem idParts_of_digits {s t : Bytes} (hhead : uri.head? ≠ some (byteOf '='))
    (htext : idText uri = s ++ byteOf '_' :: t) (hs : IsDecimal s) (ht : IsDecimal t) :
    ∃ more : Bytes, (∀ c ∈ more.head?, ¬ isDigit c) ∧ idParts uri = some (s, t ++ more) := by
  obtain ⟨name, rest, huri, hnameNe, hname, hrest⟩ :=
    exists_idText hhead (by simp [htext])
  have hdigits : ∀ c ∈ s ++ byteOf '_' :: t, c ∉ idDelim := by
    intro c hc hin
    obtain rfl : c = byteOf '=' := List.mem_singleton.mp hin
    rcases List.mem_append.mp hc with hmem | hmem
    · exact absurd (hs.digits _ hmem) (by decide)
    · rcases List.mem_cons.mp hmem with hunder | hmem
      · exact absurd hunder (by decide)
      · exact absurd (ht.digits _ hmem) (by decide)
  have hpart : ∀ {text : Bytes}, IsDecimal text → ∀ c ∈ text, c ∉ partDelim := by
    intro text htext c hc hin
    obtain rfl : c = byteOf '_' := List.mem_singleton.mp hin
    exact absurd (htext.digits _ hc) (by decide)
  refine ⟨(rest.takeWhile (· ∉ idDelim)).takeWhile (· ∉ partDelim), ?_, ?_⟩
  · intro c hc hdigit
    rcases hrest c (mem_head?_of_takeWhile (mem_head?_of_takeWhile hc)) with rfl | rfl
    · exact absurd hdigit (by decide)
    · exact absurd hdigit (by decide)
  · rw [htext] at huri
    have hfirst : strtok idDelim uri = (some name, s ++ byteOf '_' :: t ++ rest) := by
      rw [huri]
      exact strtok_append_cons hnameNe hname (List.mem_singleton_self _) _
    have hsecond := strtok_append (by simp) hdigits rest
    have hblock : strtok partDelim (s ++ byteOf '_' :: t ++ rest.takeWhile (· ∉ idDelim)) =
        (some s, t ++ rest.takeWhile (· ∉ idDelim)) := by
      rw [List.append_assoc, List.cons_append]
      exact strtok_append_cons hs.ne_nil (hpart hs) (List.mem_singleton_self _) _
    have hrecord := strtok_append ht.ne_nil (hpart ht) (rest.takeWhile (· ∉ idDelim))
    unfold idParts
    simp only [hfirst, hsecond, hblock, hrecord, Option.bind_eq_bind, Option.bind_some]
    rfl

/-- What a URI is read as when its id text has been rendered. -/
theorem getBlockIdAndRecordId_of_idText {b : UInt64} {r : UInt32}
    (hhead : uri.head? ≠ some (byteOf '=')) (htext : idText uri = restId b r) :
    getBlockIdAndRecordId uri blockId recordId =
      ⟨0, UInt64.ofInt (clampLong b.toNat), r⟩ := by
  obtain ⟨more, hmore, hparts⟩ := idParts_of_digits hhead htext (isDecimal_decimal b.toNat)
    (isDecimal_decimal r.toNat)
  have hblock : atol (decimal b.toNat) = clampLong b.toNat := by
    have hdigits : atol (decimal b.toNat ++ []) = clampLong (digitsValue (decimal b.toNat)) :=
      atol_digits (decimal_ne_nil b.toNat) (fun c => isDigit_of_mem_decimal) (by simp)
    rwa [List.append_nil, digitsValue_decimal] at hdigits
  have hrecord : atol (decimal r.toNat ++ more) = r.toNat := by
    have hlt := r.toNat_lt
    rw [atol_digits (decimal_ne_nil r.toNat) (fun c => isDigit_of_mem_decimal) hmore,
      digitsValue_decimal, clampLong_of_lt (by omega)]
  rw [getBlockIdAndRecordId_eq, hparts]
  simp only [hblock, hrecord, ofInt_toNat32]

end Parsing

/-- Two numbers in decimal digits, the first below 2^63, with an underscore
between them. -/
def IsRestId (text : Bytes) : Prop :=
  ∃ s t : Bytes, text = s ++ byteOf '_' :: t ∧ IsDecimal s ∧ IsDecimal t ∧
    digitsValue s < 2 ^ 63 ∧ digitsValue t < 2 ^ 32

/-- As it should be: whatever is accepted is the text of the id that comes out. -/
def AnswersOnlyIds (uri : Bytes) : Prop :=
  ∀ blockId recordId b r,
    getBlockIdAndRecordId uri blockId recordId = ⟨0, b, r⟩ → idText uri = restId b r

/-- A URI is rejected for want of a piece, or its id text is an id. In front of
the first `=` there is a name; where there is none the pieces are of what comes
after the id text, and the numbers they spell must be the ones of the id text. -/
def OnlyIds (uri : Bytes) : Prop :=
  ∀ s t, idParts uri = some (s, t) →
    if uri.head? = some (byteOf '=') then
      ∃ m n, Spells s m ∧ Spells t n ∧
        idText uri = restId (UInt64.ofInt (clampLong m)) (UInt32.ofInt (clampLong n))
    else IsRestId (idText uri)

section Ids

variable {uri : Bytes}

theorem isRestId_restId {b : UInt64} (h : b.toNat < 2 ^ 63) (r : UInt32) :
    IsRestId (restId b r) :=
  ⟨decimal b.toNat, decimal r.toNat, rfl, isDecimal_decimal _, isDecimal_decimal _,
    by rwa [digitsValue_decimal], by rw [digitsValue_decimal]; exact r.toNat_lt⟩

theorem exists_restId {text : Bytes} (h : IsRestId text) :
    ∃ (b : UInt64) (r : UInt32), b.toNat < 2 ^ 63 ∧ text = restId b r := by
  obtain ⟨s, t, rfl, hs, ht, hblock, hrecord⟩ := h
  refine ⟨UInt64.ofNat (digitsValue s), UInt32.ofNat (digitsValue t), ?_, ?_⟩
  · rw [UInt64.toNat_ofNat', Nat.mod_eq_of_lt (by omega)]
    exact hblock
  · rw [restId, UInt64.toNat_ofNat', UInt32.toNat_ofNat', Nat.mod_eq_of_lt (by omega),
      Nat.mod_eq_of_lt hrecord, decimal_digitsValue hs, decimal_digitsValue ht]

theorem ofInt_clampLong {b : UInt64} (h : b.toNat < 2 ^ 63) :
    UInt64.ofInt (clampLong b.toNat) = b := by
  rw [clampLong_of_lt h, ofInt_toNat64]

theorem toNat_ofInt_clampLong (n : ℕ) : (UInt64.ofInt (clampLong n)).toNat < 2 ^ 63 := by
  have hbounds := clampLong_natCast_bounds n
  rw [UInt64.ofInt, UInt64.toNat_ofNat']
  omega

theorem answersOnlyIds_iff_of_parts {s t : Bytes} (hparts : idParts uri = some (s, t)) :
    AnswersOnlyIds uri ↔
      idText uri = restId (UInt64.ofInt (atol s)) (UInt32.ofInt (atol t)) := by
  unfold AnswersOnlyIds
  simp only [getBlockIdAndRecordId_eq, hparts]
  constructor
  · intro honly
    exact honly 0 0 _ _ rfl
  · intro htext blockId recordId b r hget
    cases hget
    exact htext

end Ids

/-- Every id below 2^63 that a POST has replied with is read back by a GET. -/
theorem getBlockIdAndRecordId_resBuf {blockId : UInt64} (h : blockId.toNat < 2 ^ 63)
    (recordId : UInt32) (b : UInt64) (r : UInt32) :
    resBuf blockId recordId = idOpen ++ restId blockId recordId ++ idClose ∧
      getBlockIdAndRecordId (idUri ++ restId blockId recordId) b r = ⟨0, blockId, recordId⟩ := by
  constructor
  · have hblock : (decimal blockId.toNat).length ≤ 20 :=
      decimal_length_le (by omega) (blockId.toNat_lt.trans (by norm_num))
    have hrecord : (decimal recordId.toNat).length ≤ 10 :=
      decimal_length_le (by omega) (recordId.toNat_lt.trans (by norm_num))
    apply List.take_of_length_le
    simp only [restId, idOpen, idClose, bytesOf, List.length_append, List.length_cons,
      List.length_map, List.length_nil]
    omega
  · have htext : idText (idUri ++ restId blockId recordId) = restId blockId recordId := by
      have hdrop : (idUri ++ restId blockId recordId).dropWhile (· ≠ byteOf '=') =
          byteOf '=' :: restId blockId recordId := rfl
      rw [idText, hdrop, List.drop_one, List.tail_cons, List.takeWhile_eq_self_iff]
      intro c hc
      apply decide_eq_true
      have hdigit : ∀ d : UInt8, isDigit d → d ≠ byteOf '=' ∧ d ≠ byteOf '&' :=
        fun d hd => ⟨ne_of_isDigit hd (by decide), ne_of_isDigit hd (by decide)⟩
      rcases List.mem_append.mp hc with hmem | hmem
      · exact hdigit c (isDigit_of_mem_decimal hmem)
      · rcases List.mem_cons.mp hmem with rfl | hmem
        · decide
        · exact hdigit c (isDigit_of_mem_decimal hmem)
    have hhead : (idUri ++ restId blockId recordId).head? = some (byteOf '/') := rfl
    rw [getBlockIdAndRecordId_of_idText (by rw [hhead]; decide) htext, ofInt_clampLong h]

/-- The first block of the controller, and the last record id. -/
theorem getBlockIdAndRecordId_resBuf_last :
    (7364335866113696822 : UInt64).toNat < 2 ^ 63 ∧
      getBlockIdAndRecordId (idUri ++ restId 7364335866113696822 4294967295) 101010 1 =
        ⟨0, 7364335866113696822, 4294967295⟩ :=
  ⟨by decide, (getBlockIdAndRecordId_resBuf (by decide) 4294967295 101010 1).2⟩

/-- Only ids are answered exactly where the pieces of the URI are those of an id. -/
theorem answersOnlyIds_iff (uri : Bytes) : AnswersOnlyIds uri ↔ OnlyIds uri := by
  unfold OnlyIds
  rcases hparts : idParts uri with _ | ⟨s, t⟩
  · refine iff_of_true ?_ (by simp)
    intro blockId recordId b r hget
    rw [getBlockIdAndRecordId_eq, hparts] at hget
    exact absurd (congrArg ParsedId.ret hget) (by decide : EINVAL ≠ 0)
  · rw [answersOnlyIds_iff_of_parts hparts]
    simp only [Option.some.injEq, Prod.mk.injEq]
    by_cases hhead : uri.head? = some (byteOf '=')
    · simp only [hhead, if_true]
      constructor
      · intro htext s' t' hpieces
        rw [← hpieces.1, ← hpieces.2]
        exact ⟨subjectValue s, subjectValue t, spells_subjectValue s, spells_subjectValue t, htext⟩
      · intro hspells
        obtain ⟨m, n, hm, hn, htext⟩ := hspells s t ⟨rfl, rfl⟩
        rw [← subjectValue_of_spells hm, ← subjectValue_of_spells hn] at htext
        exact htext
    · simp only [hhead, if_false]
      -- the pieces are read as the numbers of the id text when that is an id
      have hpieces : ∀ (b : UInt64) (r : UInt32), idText uri = restId b r →
          UInt64.ofInt (atol s) = UInt64.ofInt (clampLong b.toNat) ∧
            UInt32.ofInt (atol t) = r := by
        intro b r htext
        have hget : getBlockIdAndRecordId uri 0 0 = ⟨0, UInt64.ofInt (clampLong b.toNat), r⟩ :=
          getBlockIdAndRecordId_of_idText hhead htext
        rw [getBlockIdAndRecordId_eq, hparts] at hget
        exact ⟨congrArg ParsedId.blockId hget, congrArg ParsedId.recordId hget⟩
      constructor
      · intro htext s' t' _
        rw [htext]
        apply isRestId_restId
        rw [(hpieces _ _ htext).1]
        exact toNat_ofInt_clampLong _
      · intro hid
        obtain ⟨b, r, hlt, htext⟩ := exists_restId (hid s t ⟨rfl, rfl⟩)
        rw [(hpieces b r htext).1, (hpieces b r htext).2, ofInt_clampLong hlt]
        exact htext

/-- A letter after the digits is not part of the id. -/
theorem answersOnlyIds_fails_letter :
    getBlockIdAndRecordId (idUri ++ bytesOf ['1', '_', '2', 'x']) 101010 1 = ⟨0, 1, 2⟩ ∧
      ¬ AnswersOnlyIds (idUri ++ bytesOf ['1', '_', '2', 'x']) := by
  have hget : getBlockIdAndRecordId (idUri ++ bytesOf ['1', '_', '2', 'x']) 101010 1 =
      ⟨0, 1, 2⟩ := by decide +kernel
  refine ⟨hget, ?_⟩
  intro honly
  exact absurd (honly 101010 1 1 2 hget) (by decide +kernel)

end SeaStore.Rest
