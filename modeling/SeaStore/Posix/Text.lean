import Mathlib.Data.Nat.Digits.Lemmas
import SeaStore.Posix.Bytes

/-!
Text as the C library takes it apart: numbers printed with `"%u"` and `"%llu"`
and read again with `atol`, and tokens cut out with `strtok`. A string is the
list of its bytes in front of the closing zero. A printed number is its own
digits without a leading zero, and there is no other text of that shape with
its value. What `atol` accepts is wider.
-/
namespace SeaStore.Posix

/-- A character of the source, as a byte. -/
def byteOf (c : Char) : UInt8 := UInt8.ofNat c.toNat

def isDigit (c : UInt8) : Bool := decide (48 ≤ c.toNat ∧ c.toNat ≤ 57)

/-- `isspace` in the locale `"C"`. -/
def isSpace (c : UInt8) : Bool := decide (c.toNat = 32 ∨ 9 ≤ c.toNat ∧ c.toNat ≤ 13)

def digitByte (d : ℕ) : UInt8 := UInt8.ofNat (48 + d)

def digitValue (c : UInt8) : ℕ := c.toNat - 48

/-- `"%u"` and `"%llu"`. -/
def decimal (n : ℕ) : Bytes :=
  if n = 0 then [byteOf '0'] else (Nat.digits 10 n).reverse.map digitByte

/-- The number that a run of digits stands for. -/
def digitsValue (digits : Bytes) : ℕ := Nat.ofDigits 10 (digits.reverse.map digitValue)

/-- The number at the front of a text, of any size. -/
def subjectValue (text : Bytes) : ℤ :=
  match text.dropWhile isSpace with
  | [] => 0
  | c :: rest =>
    if c = byteOf '-' then -(digitsValue (rest.takeWhile isDigit) : ℤ)
    else if c = byteOf '+' then digitsValue (rest.takeWhile isDigit)
    else digitsValue ((c :: rest).takeWhile isDigit)

/-- A `long`, of 64 bits. What does not fit becomes the bound next to it. -/
def clampLong (n : ℤ) : ℤ := max (-2 ^ 63) (min n (2 ^ 63 - 1))

/-- `strtol` to the base ten. -/
def atol (text : Bytes) : ℤ := clampLong (subjectValue text)

/-- A text of digits alone, with no zero before another digit. -/
structure IsDecimal (text : Bytes) : Prop where
  ne_nil : text ≠ []
  digits : ∀ c ∈ text, isDigit c
  noLeadingZero : text.head? = some (byteOf '0') → text.length = 1

def signText : Option Bool → Bytes
  | none => []
  | some false => [byteOf '+']
  | some true => [byteOf '-']

/-- `text` is blanks, a sign or none, and digits, and `n` is the number they
stand for; if there are no digits, it is zero. What follows does not continue
them. -/
def Spells (text : Bytes) (n : ℤ) : Prop :=
  ∃ (blanks : Bytes) (sign : Option Bool) (digits rest : Bytes),
    text = blanks ++ (signText sign ++ (digits ++ rest)) ∧
    (∀ c ∈ blanks, isSpace c) ∧ (∀ c ∈ digits, isDigit c) ∧
    (∀ c ∈ rest.head?, ¬ isDigit c) ∧
    (sign = none → digits = [] → ∀ c ∈ rest.head?,
      ¬ isSpace c ∧ c ≠ byteOf '-' ∧ c ≠ byteOf '+') ∧
    n = if sign = some true then -(digitsValue digits : ℤ) else digitsValue digits

section Digits

theorem digitValue_digitByte {d : ℕ} (h : d < 10) : digitValue (digitByte d) = d := by
  simp only [digitValue, digitByte, UInt8.toNat_ofNat']
  omega

theorem digitByte_digitValue {c : UInt8} (h : isDigit c) : digitByte (digitValue c) = c := by
  have hc := of_decide_eq_true h
  apply UInt8.toNat_inj.mp
  simp only [digitValue, digitByte, UInt8.toNat_ofNat']
  omega

theorem isDigit_digitByte {d : ℕ} (h : d < 10) : isDigit (digitByte d) := by
  apply decide_eq_true
  simp only [digitByte, UInt8.toNat_ofNat']
  omega

theorem digitValue_lt {c : UInt8} (h : isDigit c) : digitValue c < 10 := by
  have hc := of_decide_eq_true h
  unfold digitValue
  omega

theorem digitValue_eq_zero_iff {c : UInt8} (h : isDigit c) :
    digitValue c = 0 ↔ c = byteOf '0' := by
  constructor
  · intro hzero
    rw [← digitByte_digitValue h, hzero]
    rfl
  · intro hchar
    subst hchar
    rfl

theorem isDigit_of_mem_decimal {n : ℕ} {c : UInt8} (h : c ∈ decimal n) : isDigit c := by
  unfold decimal at h
  by_cases hzero : n = 0
  · rw [if_pos hzero] at h
    rw [List.mem_singleton.mp h]
    decide
  · rw [if_neg hzero] at h
    obtain ⟨d, hd, rfl⟩ := List.mem_map.mp h
    exact isDigit_digitByte (Nat.digits_lt_base (by omega) (List.mem_reverse.mp hd))

theorem decimal_ne_nil (n : ℕ) : decimal n ≠ [] := by
  unfold decimal
  by_cases hzero : n = 0
  · simp [hzero]
  · simp [hzero, Nat.digits_ne_nil_iff_ne_zero]

theorem decimal_length_le {n k : ℕ} (hk : 0 < k) (h : n < 10 ^ k) : (decimal n).length ≤ k := by
  unfold decimal
  by_cases hzero : n = 0
  · rw [if_pos hzero]
    exact hk
  · rw [if_neg hzero, List.length_map, List.length_reverse]
    exact (Nat.digits_length_le_iff (by omega) n).mpr h

/-- A printed number has the value that was printed. -/
theorem digitsValue_decimal (n : ℕ) : digitsValue (decimal n) = n := by
  unfold decimal
  by_cases hzero : n = 0
  · rw [if_pos hzero, hzero]
    rfl
  · rw [if_neg hzero, digitsValue, ← List.map_reverse, List.reverse_reverse, List.map_map]
    have hmap : (Nat.digits 10 n).map (digitValue ∘ digitByte) = Nat.digits 10 n := by
      refine (List.map_congr_left ?_).trans (List.map_id _)
      intro d hd
      exact digitValue_digitByte (Nat.digits_lt_base (by omega) hd)
    rw [hmap, Nat.ofDigits_digits]

theorem isDecimal_decimal (n : ℕ) : IsDecimal (decimal n) where
  ne_nil := decimal_ne_nil n
  digits _ := isDigit_of_mem_decimal
  noLeadingZero := by
    intro hhead
    unfold decimal at hhead ⊢
    by_cases hzero : n = 0
    · rw [if_pos hzero]
      rfl
    · rw [if_neg hzero] at hhead
      have hne : Nat.digits 10 n ≠ [] := Nat.digits_ne_nil_iff_ne_zero.mpr hzero
      rw [List.head?_map, List.head?_reverse, List.getLast?_eq_some_getLast hne] at hhead
      have hlast := Nat.digits_lt_base (by omega) (List.getLast_mem hne)
      have hfirst : (Nat.digits 10 n).getLast hne = 0 := by
        rw [← digitValue_digitByte hlast, Option.some.inj hhead]
        rfl
      exact absurd hfirst (Nat.getLast_digit_ne_zero 10 hzero)

/-- There is one text for each number that is one of digits without a leading zero. -/
theorem decimal_digitsValue {text : Bytes} (h : IsDecimal text) :
    decimal (digitsValue text) = text := by
  have hback : ∀ digits : Bytes, (∀ c ∈ digits, isDigit c) →
      digits.map (digitByte ∘ digitValue) = digits := by
    intro digits hdigits
    refine (List.map_congr_left ?_).trans (List.map_id _)
    intro c hc
    exact digitByte_digitValue (hdigits c hc)
  obtain ⟨c, rest, rfl⟩ := List.exists_cons_of_ne_nil h.ne_nil
  have hc : isDigit c := h.digits c (List.mem_cons_self ..)
  by_cases hzero : digitValue c = 0
  · have hlength := h.noLeadingZero (by rw [(digitValue_eq_zero_iff hc).mp hzero]; rfl)
    obtain rfl : rest = [] := List.length_eq_zero_iff.mp (Nat.succ.inj hlength)
    rw [(digitValue_eq_zero_iff hc).mp hzero]
    rfl
  · have hdigits : Nat.digits 10 (digitsValue (c :: rest)) =
        (c :: rest).reverse.map digitValue := by
      apply Nat.digits_ofDigits 10 (by omega)
      · intro d hd
        obtain ⟨b, hb, rfl⟩ := List.mem_map.mp hd
        exact digitValue_lt (h.digits b (List.mem_reverse.mp hb))
      · intro hne
        simpa using hzero
    have hpos : digitsValue (c :: rest) ≠ 0 := by
      rw [← Nat.digits_ne_nil_iff_ne_zero (b := 10), hdigits]
      simp
    rw [decimal, if_neg hpos, hdigits, ← List.map_reverse, List.reverse_reverse, List.map_map,
      hback _ h.digits]

end Digits

section Reading

variable {text : Bytes}

theorem not_isSpace_of_isDigit {c : UInt8} (h : isDigit c) : ¬ isSpace c := by
  have hc := of_decide_eq_true h
  intro hspace
  have hs := of_decide_eq_true hspace
  omega

theorem ne_of_isDigit {c d : UInt8} (h : isDigit c) (hd : ¬ isDigit d) : c ≠ d := by
  intro heq
  subst heq
  exact hd h

theorem ne_sign_of_isDigit {c : UInt8} (h : isDigit c) : c ≠ byteOf '-' ∧ c ≠ byteOf '+' :=
  ⟨ne_of_isDigit h (by decide), ne_of_isDigit h (by decide)⟩

theorem dropWhile_of_head {p : UInt8 → Bool} (h : ∀ c ∈ text.head?, ¬ p c) :
    text.dropWhile p = text := by
  cases text with
  | nil => rfl
  | cons c rest => exact List.dropWhile_cons_of_neg (h c rfl)

theorem takeWhile_of_head {p : UInt8 → Bool} (h : ∀ c ∈ text.head?, ¬ p c) :
    text.takeWhile p = [] := by
  cases text with
  | nil => rfl
  | cons c rest => exact List.takeWhile_cons_of_neg (h c rfl)

theorem head?_dropWhile {p : UInt8 → Bool} : ∀ c ∈ (text.dropWhile p).head?, ¬ p c := by
  intro c hc
  have hnot := List.head?_dropWhile_not p text
  rw [Option.mem_def.mp hc] at hnot
  simp [hnot]

/-- The digits at the front, when something else or nothing follows them. -/
theorem takeWhile_digits {digits rest : Bytes} (hdigits : ∀ c ∈ digits, isDigit c)
    (hrest : ∀ c ∈ rest.head?, ¬ isDigit c) : (digits ++ rest).takeWhile isDigit = digits := by
  rw [List.takeWhile_append_of_pos hdigits, takeWhile_of_head hrest, List.append_nil]

/-- A text that starts with neither a blank nor a sign. -/
theorem subjectValue_of_head
    (h : ∀ c ∈ text.head?, ¬ isSpace c ∧ c ≠ byteOf '-' ∧ c ≠ byteOf '+') :
    subjectValue text = digitsValue (text.takeWhile isDigit) := by
  unfold subjectValue
  rw [dropWhile_of_head (fun c hc => (h c hc).1)]
  cases text with
  | nil => rfl
  | cons c rest => simp only [(h c rfl).2.1, (h c rfl).2.2, if_false]

theorem isDigit_of_mem_takeWhile : ∀ c ∈ text.takeWhile isDigit, isDigit c :=
  List.all_eq_true.mp List.all_takeWhile

theorem subjectValue_minus (rest : Bytes) :
    subjectValue (byteOf '-' :: rest) = -(digitsValue (rest.takeWhile isDigit) : ℤ) := rfl

theorem subjectValue_plus (rest : Bytes) :
    subjectValue (byteOf '+' :: rest) = digitsValue (rest.takeWhile isDigit) := rfl

theorem subjectValue_of_spells {n : ℤ} (h : Spells text n) : subjectValue text = n := by
  obtain ⟨blanks, sign, digits, rest, rfl, hblanks, hdigits, hrest, hnone, rfl⟩ := h
  have hskip : ∀ tail : Bytes, subjectValue (blanks ++ tail) = subjectValue tail := by
    intro tail
    unfold subjectValue
    rw [List.dropWhile_append_of_pos hblanks]
  rw [hskip]
  match sign with
  | none =>
    rw [signText, List.nil_append, subjectValue_of_head ?_, takeWhile_digits hdigits hrest]
    · rfl
    cases digits with
    | nil => exact hnone rfl rfl
    | cons d digits =>
      intro c hc
      obtain rfl : d = c := Option.some.inj hc
      have hd := hdigits d (List.mem_cons_self ..)
      exact ⟨not_isSpace_of_isDigit hd, ne_sign_of_isDigit hd⟩
  | some false =>
    rw [signText, List.singleton_append, subjectValue_plus, takeWhile_digits hdigits hrest]
    rfl
  | some true =>
    rw [signText, List.singleton_append, subjectValue_minus, takeWhile_digits hdigits hrest]
    rfl

theorem spells_subjectValue (text : Bytes) : Spells text (subjectValue text) := by
  have hsplit : text.takeWhile isSpace ++ text.dropWhile isSpace = text :=
    List.takeWhile_append_dropWhile
  have hblanks : ∀ c ∈ text.takeWhile isSpace, isSpace c :=
    List.all_eq_true.mp List.all_takeWhile
  have hhead : ∀ c ∈ (text.dropWhile isSpace).head?, ¬ isSpace c := head?_dropWhile
  unfold subjectValue
  generalize text.takeWhile isSpace = blanks at hsplit hblanks
  generalize text.dropWhile isSpace = subject at hsplit hhead
  cases subject with
  | nil =>
    exact ⟨blanks, none, [], [], by simpa [signText] using hsplit.symm, hblanks, by simp,
      by simp, by simp, rfl⟩
  | cons c rest =>
    by_cases hminus : c = byteOf '-'
    · subst hminus
      exact ⟨blanks, some true, rest.takeWhile isDigit, rest.dropWhile isDigit,
        by rw [List.takeWhile_append_dropWhile, ← hsplit]; rfl, hblanks,
        isDigit_of_mem_takeWhile, head?_dropWhile, by simp, rfl⟩
    · by_cases hplus : c = byteOf '+'
      · subst hplus
        exact ⟨blanks, some false, rest.takeWhile isDigit, rest.dropWhile isDigit,
          by rw [List.takeWhile_append_dropWhile, ← hsplit]; rfl, hblanks,
          isDigit_of_mem_takeWhile, head?_dropWhile, by simp, rfl⟩
      · refine ⟨blanks, none, (c :: rest).takeWhile isDigit, (c :: rest).dropWhile isDigit,
          by rw [List.takeWhile_append_dropWhile, ← hsplit]; rfl, hblanks,
          isDigit_of_mem_takeWhile, head?_dropWhile, ?_, by simp [hminus, hplus]⟩
        -- without digits the rest is the whole text behind the blanks
        intro _ hempty d hd
        have hwhole : (c :: rest).dropWhile isDigit = c :: rest := by
          have happend := List.takeWhile_append_dropWhile (p := isDigit) (l := c :: rest)
          rwa [hempty, List.nil_append] at happend
        rw [hwhole] at hd
        obtain rfl : c = d := Option.some.inj hd
        exact ⟨hhead c rfl, hminus, hplus⟩

/-- The number at the front of a text is the one that the text spells. -/
theorem spells_iff {n : ℤ} : Spells text n ↔ subjectValue text = n := by
  constructor
  · exact subjectValue_of_spells
  · intro hvalue
    rw [← hvalue]
    exact spells_subjectValue text

/-- `atol` on a run of digits with no digit behind it. -/
theorem atol_digits {digits rest : Bytes} (hne : digits ≠ [])
    (hdigits : ∀ c ∈ digits, isDigit c) (hrest : ∀ c ∈ rest.head?, ¬ isDigit c) :
    atol (digits ++ rest) = clampLong (digitsValue digits) := by
  have hspells : Spells (digits ++ rest) (digitsValue digits) :=
    ⟨[], none, digits, rest, rfl, by simp, hdigits, hrest, fun _ hnil => absurd hnil hne, rfl⟩
  rw [atol, spells_iff.mp hspells]

theorem clampLong_of_lt {n : ℕ} (h : n < 2 ^ 63) : clampLong n = n := by
  unfold clampLong
  omega

theorem clampLong_natCast_bounds (n : ℕ) : 0 ≤ clampLong n ∧ clampLong n < 2 ^ 63 := by
  unfold clampLong
  omega

theorem ofInt_toNat32 (x : UInt32) : UInt32.ofInt x.toNat = x := by
  have hx : x.toNat < 2 ^ 32 := x.toNat_lt
  have hmod : ((x.toNat : ℤ) % 2 ^ 32).toNat = x.toNat := by omega
  rw [UInt32.ofInt, hmod, UInt32.ofNat_toNat]

theorem ofInt_toNat64 (x : UInt64) : UInt64.ofInt x.toNat = x := by
  have hx : x.toNat < 2 ^ 64 := x.toNat_lt
  have hmod : ((x.toNat : ℤ) % 2 ^ 64).toNat = x.toNat := by omega
  rw [UInt64.ofInt, hmod, UInt64.ofNat_toNat]

end Reading

/-- The first token of `text` and the text that the next call starts from.
Delimiters in front of the token are passed over, and one behind it is cut off. -/
def strtok (delims text : Bytes) : Option Bytes × Bytes :=
  let text := text.dropWhile (· ∈ delims)
  let token := text.takeWhile (· ∉ delims)
  (if token = [] then none else some token, (text.dropWhile (· ∉ delims)).drop 1)

theorem mem_head?_of_takeWhile {p : UInt8 → Bool} {text : Bytes} {c : UInt8}
    (h : c ∈ (text.takeWhile p).head?) : c ∈ text.head? := by
  cases text with
  | nil => exact h
  | cons d rest =>
    by_cases hd : p d
    · rwa [List.takeWhile_cons_of_pos hd] at h
    · rw [List.takeWhile_cons_of_neg hd] at h
      exact absurd h (by simp)

/-- The token of a text that starts with no delimiter. -/
theorem strtok_append {delims front : Bytes} (hne : front ≠ []) (hfront : ∀ c ∈ front, c ∉ delims)
    (rest : Bytes) :
    strtok delims (front ++ rest) = (some (front ++ rest.takeWhile (· ∉ delims)),
      (rest.dropWhile (· ∉ delims)).drop 1) := by
  have hskip : (front ++ rest).dropWhile (· ∈ delims) = front ++ rest := by
    apply dropWhile_of_head
    intro c hc
    obtain ⟨d, tail, rfl⟩ := List.exists_cons_of_ne_nil hne
    obtain rfl : d = c := Option.some.inj hc
    simpa using hfront d (List.mem_cons_self ..)
  have hinside : ∀ c ∈ front, decide (c ∉ delims) = true := fun c hc => decide_eq_true (hfront c hc)
  unfold strtok
  simp only [hskip]
  rw [List.takeWhile_append_of_pos hinside, List.dropWhile_append_of_pos hinside,
    if_neg (by simp [hne])]

/-- The token ends where a delimiter stands, and the next call starts behind that. -/
theorem strtok_append_cons {delims front : Bytes} (hne : front ≠ [])
    (hfront : ∀ c ∈ front, c ∉ delims) {d : UInt8} (hd : d ∈ delims) (rest : Bytes) :
    strtok delims (front ++ d :: rest) = (some front, rest) := by
  have hstop : ∀ c ∈ (d :: rest).head?, ¬ decide (c ∉ delims) = true := by
    intro c hc
    obtain rfl : d = c := Option.some.inj hc
    simpa using hd
  rw [strtok_append hne hfront, takeWhile_of_head hstop, dropWhile_of_head hstop,
    List.append_nil, List.drop_one, List.tail_cons]

end SeaStore.Posix
