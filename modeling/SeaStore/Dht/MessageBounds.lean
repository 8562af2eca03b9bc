import SeaStore.Dht.Message

/-!
Taking a message apart stays within the message and the zero behind it, and
within the fields that are filled, and comes to an end. What is between is
whatever anybody has sent.
-/
namespace SeaStore.Dht

open Posix

/-- There is an end, memory is not accessed where it must not be, and what is found is as `Q`
says. -/
def Parses {α : Type} (x : Parse α) (Q : α → Prop) : Prop :=
  match x with
  | .ok a => Q a
  | .error fault => fault = .unparseable

section Parses

variable {α β : Type} {Q R : α → Prop} {S : β → Prop}

theorem Parses.ok {a : α} (ha : Q a) : Parses (.ok a) Q := ha

theorem Parses.bind {x : Parse α} {f : α → Parse β} (hx : Parses x Q)
    (hf : ∀ a, Q a → Parses (f a) S) : Parses (x >>= f) S := by
  cases x with
  | error fault => exact hx
  | ok a => exact hf a hx

theorem Parses.imp {x : Parse α} (hx : Parses x Q) (himp : ∀ a, Q a → R a) : Parses x R := by
  cases x with
  | error fault => exact hx
  | ok a => exact himp a hx

end Parses

section Memory

variable {buf : Bytes} {i : ℕ}

theorem memmem_some {hay needle : Bytes} {p : ℕ} (hp : memmem hay needle = some p) :
    p + needle.length ≤ hay.length := by
  induction hay generalizing p with
  | nil =>
    rw [memmem] at hp
    split at hp
    · next hnil =>
      obtain rfl := Option.some.inj hp
      rw [hnil]
      exact Nat.le_refl _
    · exact absurd hp (by simp)
  | cons c hay ih =>
    rw [memmem] at hp
    split at hp
    · next hfront =>
      obtain rfl := Option.some.inj hp
      rw [Nat.zero_add]
      exact (List.isPrefixOf_iff_prefix.mp hfront).length_le
    · obtain ⟨q, hq, rfl⟩ := Option.map_eq_some_iff.mp hp
      have hle := ih hq
      rw [List.length_cons]
      omega

/-- A byte other than the closing zero is one of the message. -/
theorem byteAt_spec (hi : i ≤ buf.length) :
    Parses (byteAt buf i) fun c => c ≠ 0 → i < buf.length := by
  unfold byteAt
  rcases Nat.lt_or_eq_of_le hi with hlt | rfl
  · rw [List.getElem?_append_left hlt, List.getElem?_eq_getElem hlt]
    exact fun _ => hlt
  · rw [List.getElem?_append_right (Nat.le_refl _), Nat.sub_self]
    exact fun hne => absurd rfl hne

theorem checkLen_spec (i : ℕ) (len : ℤ) :
    Parses (checkLen buf i len) fun _ => i + len ≤ buf.length := by
  unfold checkLen
  split
  · exact rfl
  · next hle => exact Int.not_lt.mp hle

theorem copyAt_spec {len room : ℕ} (hend : i + len ≤ buf.length + 1) (hroom : len ≤ room) :
    Parses (copyAt buf i len room) fun bytes => bytes.length = len := by
  have hlen : (((buf ++ [0]).drop i).take len).length = len := by
    rw [List.length_take, List.length_drop, List.length_append, List.length_singleton]
    omega
  unfold copyAt
  rw [if_neg (by omega)]
  exact hlen

theorem takeWhile_append_zero {p : UInt8 → Bool} (hp : p 0 = false) (text : Bytes) :
    (text ++ [0]).takeWhile p = text.takeWhile p := by
  induction text with
  | nil => simp [hp]
  | cons c text ih =>
    rw [List.cons_append, List.takeWhile_cons, List.takeWhile_cons, ih]

/-- What stops a number comes before the end. -/
theorem scanLen_append_zero (text : Bytes) : scanLen (text ++ [0]) ≤ text.length := by
  have hspace : isSpace 0 = false := by decide
  have hdigit : isDigit 0 = false := by decide
  have hblanks := (List.takeWhile_sublist (l := text) isSpace).length_le
  unfold scanLen
  rw [takeWhile_append_zero hspace]
  simp only
  generalize (text.takeWhile isSpace).length = blanks at hblanks ⊢
  rw [List.drop_append_of_le_length hblanks]
  -- a sign is not the closing zero
  have hsign : signLen (text.drop blanks ++ [0]) ≤ text.length - blanks := by
    rw [← List.length_drop]
    cases text.drop blanks with
    | nil => exact Nat.le_refl 0
    | cons c rest =>
      unfold signLen
      simp only [List.cons_append, List.head?_cons, List.length_cons]
      split
      · omega
      · omega
  generalize signLen (text.drop blanks ++ [0]) = sign at hsign ⊢
  have hdigits := (List.takeWhile_sublist (l := text.drop (blanks + sign)) isDigit).length_le
  rw [List.length_drop] at hdigits
  rw [List.drop_append_of_le_length (by omega), takeWhile_append_zero hdigit]
  omega

theorem numberLen_le (text : Bytes) : numberLen text ≤ scanLen text := by
  unfold numberLen
  simp only
  split
  · exact Nat.zero_le _
  · exact Nat.le_refl _

theorem strtolAt_spec (hi : i ≤ buf.length) :
    Parses (strtolAt buf i) fun r => i ≤ r.2 ∧ r.2 ≤ buf.length := by
  have htext : (buf ++ [0]).drop i = buf.drop i ++ [0] := List.drop_append_of_le_length hi
  have hscan := scanLen_append_zero (buf.drop i)
  have hnum := numberLen_le (buf.drop i ++ [0])
  have hlen : (buf.drop i ++ [0]).length = buf.length - i + 1 := by
    rw [List.length_append, List.length_drop, List.length_singleton]
  rw [List.length_drop] at hscan
  unfold strtolAt
  rw [htext]
  simp only
  rw [if_pos (by omega)]
  refine Parses.ok ⟨?_, ?_⟩
  · exact Nat.le_add_right i _
  · simp only
    omega

end Memory

section Fields

variable {buf : Bytes}

theorem stringField_spec (name : String) {most room : ℕ} (hroom : most ≤ room) :
    Parses (stringField buf name most room) fun bytes => bytes.length ≤ most := by
  unfold stringField
  split
  · exact Nat.zero_le _
  · next p hp =>
    refine Parses.bind (strtolAt_spec (memmem_some hp)) fun r hr => ?_
    refine Parses.bind (byteAt_spec hr.2) fun c hc => ?_
    split
    · refine Parses.bind (checkLen_spec _ _) fun _ hle => ?_
      exact (copyAt_spec (by omega) (by omega)).imp fun bytes hlen => by omega
    · exact Nat.zero_le _

theorem idField_spec (name : String) : Parses (idField buf name) fun _ => True := by
  unfold idField
  split
  · exact trivial
  · refine Parses.bind (checkLen_spec _ _) fun _ hle => ?_
    exact Parses.bind (copyAt_spec (by omega) (Nat.le_refl _)) fun _ _ => trivial

theorem numberField_spec (name : String) : Parses (numberField buf name) fun _ => True := by
  unfold numberField
  split
  · exact trivial
  · next p hp =>
    refine Parses.bind (strtolAt_spec (memmem_some hp)) fun r hr => ?_
    exact Parses.bind (byteAt_spec hr.2) fun _ _ => trivial

theorem copyValue_spec {i len : ℕ} {values : Bytes} (hend : i + len ≤ buf.length + 1)
    (hvalues : values.length ≤ parseValuesLen) :
    Parses (copyValue buf i len values) fun values => values.length ≤ parseValuesLen := by
  unfold copyValue
  split
  · exact hvalues
  · refine Parses.bind (copyAt_spec hend (by omega)) fun value hlen => ?_
    have hle : (values ++ value).length ≤ parseValuesLen := by
      rw [List.length_append]
      omega
    exact hle

/-- Every value is a step forward, so that the message is soon at its end. -/
theorem valuesFrom_spec {i : ℕ} {values values6 : Bytes} (fuel : ℕ) (hi : i ≤ buf.length)
    (hfuel : buf.length < i + fuel) (hvalues : values.length ≤ parseValuesLen)
    (hvalues6 : values6.length ≤ parseValuesLen) :
    Parses (valuesFrom buf i values values6 fuel) fun r =>
      r.1.length ≤ parseValuesLen ∧ r.2.length ≤ parseValuesLen := by
  induction fuel generalizing i values values6 with
  | zero => omega
  | succ fuel ih =>
    rw [valuesFrom]
    refine Parses.bind (strtolAt_spec hi) fun r hr => ?_
    refine Parses.bind (byteAt_spec hr.2) fun c hc => ?_
    split
    · refine Parses.bind (checkLen_spec _ _) fun _ hle => ?_
      split
      · refine Parses.bind (copyValue_spec (by omega) hvalues) fun values' hvalues' => ?_
        exact ih (by omega) (by omega) hvalues' hvalues6
      · split
        · refine Parses.bind (copyValue_spec (by omega) hvalues6) fun values' hvalues' => ?_
          exact ih (by omega) (by omega) hvalues hvalues'
        · exact ih (by omega) (by omega) hvalues hvalues6
    · exact ⟨hvalues, hvalues6⟩

theorem or_le_three {a b : ℕ} (ha : a ≤ 3) (hb : b ≤ 3) : a ||| b ≤ 3 := by
  have hlt := Nat.or_lt_two_pow (n := 2) (by omega : a < 2 ^ 2) (by omega : b < 2 ^ 2)
  omega

theorem wantFrom_spec {i want : ℕ} (fuel : ℕ) (hi : i ≤ buf.length)
    (hfuel : buf.length < i + fuel) (hwant : want ≤ 3) :
    Parses (wantFrom buf i want fuel) fun want => want ≤ 3 := by
  induction fuel generalizing i want with
  | zero => omega
  | succ fuel ih =>
    rw [wantFrom]
    refine Parses.bind (byteAt_spec hi) fun c hc => ?_
    split
    · next hdigit =>
      have hne : c ≠ 0 := by
        intro hzero
        rw [hzero] at hdigit
        exact absurd hdigit.1 (by decide)
      refine Parses.bind (byteAt_spec (hc hne)) fun colon _ => ?_
      simp only
      split
      · refine Parses.bind (checkLen_spec _ _) fun _ hle => ?_
        refine Parses.bind (copyAt_spec (by omega) (Nat.le_refl _)) fun flag _ => ?_
        refine ih (by omega) (by omega) ?_
        split
        · exact or_le_three hwant (by decide)
        · split
          · exact or_le_three hwant (by decide)
          · exact hwant
      · exact hwant
    · exact hwant

theorem kindOf_spec : Parses (kindOf buf) fun _ => True := by
  unfold kindOf
  simp only
  split
  · exact trivial
  · split
    · exact trivial
    · split
      · exact rfl
      · split
        · exact trivial
        · split
          · exact trivial
          · split
            · exact trivial
            · split
              · exact trivial
              · exact rfl

/-- What is known of the fields of a message. -/
structure MessageOk (m : Message) : Prop where
  tid : m.tid.length < parseTidLen
  token : m.token.length < parseTokenLen
  nodes : m.nodes.length ≤ parseNodesLen
  nodes6 : m.nodes6.length ≤ parseNodes6Len
  values : m.values.length ≤ parseValuesLen
  values6 : m.values6.length ≤ parseValuesLen
  want : m.want ≤ 3

theorem parseMessage_spec (buf : Bytes) :
    Parses (parseMessage buf) fun r => MessageOk r.2 := by
  unfold parseMessage
  refine Parses.bind (stringField_spec "1:t" (by decide)) fun tid htid => ?_
  refine Parses.bind (idField_spec "2:id20:") fun id _ => ?_
  refine Parses.bind (idField_spec "9:info_hash20:") fun infoHash _ => ?_
  refine Parses.bind (numberField_spec "4:porti") fun port _ => ?_
  refine Parses.bind (numberField_spec "12:implied_porti") fun impliedPort _ => ?_
  refine Parses.bind (idField_spec "6:target20:") fun target _ => ?_
  refine Parses.bind (stringField_spec "5:token" (by decide)) fun token htoken => ?_
  refine Parses.bind (stringField_spec "5:nodes" (Nat.le_refl _)) fun nodes hnodes => ?_
  refine Parses.bind (stringField_spec "6:nodes6" (Nat.le_refl _)) fun nodes6 hnodes6 => ?_
  have hvalues : Parses (valuesField buf) fun r =>
      r.1.length ≤ parseValuesLen ∧ r.2.length ≤ parseValuesLen := by
    unfold valuesField
    split
    · exact ⟨Nat.zero_le _, Nat.zero_le _⟩
    · next p hp =>
      exact valuesFrom_spec _ (memmem_some hp) (by omega) (Nat.zero_le _) (Nat.zero_le _)
  have hwant : Parses (wantField buf) fun want => want ≤ 3 := by
    unfold wantField
    split
    · exact Nat.zero_le _
    · next p hp => exact wantFrom_spec _ (memmem_some hp) (by omega) (Nat.zero_le _)
  refine Parses.bind hvalues fun values hvalues => ?_
  refine Parses.bind hwant fun want hwant => ?_
  refine Parses.bind kindOf_spec fun kind _ => ?_
  unfold parseTidLen at htid
  unfold parseTokenLen at htoken
  refine Parses.ok ⟨?_, ?_, hnodes, hnodes6, hvalues.1, hvalues.2, hwant⟩
  · unfold parseTidLen
    simp only
    omega
  · unfold parseTokenLen
    simp only
    omega

end Fields

end SeaStore.Dht
