import Mathlib.Data.List.Basic
import Mathlib.Order.Basic

/-!
Ranges given by their first numbers: each goes on to the first number of the
next one. A walk from the left finds the range of a number, and splitting a
range at one of its numbers leaves all others where they are.
-/
namespace SeaStore.Ranges

/-- The ranges are walked while the next one does not begin behind `v`. -/
def locate (v : ℕ) : List ℕ → Option ℕ
  | [] => none
  | [_] => some 0
  | _ :: e :: ends => if v < e then some 0 else (locate v (e :: ends)).map (· + 1)

theorem locate_cons_cons (v a e : ℕ) (ends : List ℕ) :
    locate v (a :: e :: ends) = if v < e then some 0 else (locate v (e :: ends)).map (· + 1) := rfl

variable {v : ℕ} {ends : List ℕ}

theorem head_le {e : ℕ} (hsorted : (e :: ends).Pairwise (· < ·)) {j w : ℕ}
    (hw : (e :: ends)[j]? = some w) : e ≤ w := by
  cases j with
  | zero => exact Nat.le_of_eq (Option.some.inj hw)
  | succ j => exact Nat.le_of_lt ((List.pairwise_cons.mp hsorted).1 w (List.mem_of_getElem? hw))

theorem map_succ_eq_some_iff {o : Option ℕ} {i : ℕ} :
    o.map (· + 1) = some (i + 1) ↔ o = some i := by
  cases o with
  | none => simp
  | some j => simp

theorem locate_eq_some_iff (hsorted : ends.Pairwise (· < ·)) {i : ℕ} :
    locate v ends = some i ↔
      i < ends.length ∧ (∀ e, i ≠ 0 → ends[i]? = some e → e ≤ v) ∧
        ∀ e, ends[i + 1]? = some e → v < e := by
  induction ends generalizing i with
  | nil => simp [locate]
  | cons a ends ih =>
    cases ends with
    | nil =>
      rw [locate]
      constructor
      · intro hloc
        obtain rfl : 0 = i := Option.some.inj hloc
        exact ⟨Nat.one_pos, fun e hne => absurd rfl hne, fun e he => absurd he (by simp)⟩
      · intro hat
        obtain rfl : i = 0 := Nat.lt_one_iff.mp hat.1
        rfl
    | cons e rest =>
      obtain ⟨-, hrest⟩ := List.pairwise_cons.mp hsorted
      rw [locate]
      cases i with
      | zero =>
        by_cases hlt : v < e
        · rw [if_pos hlt]
          refine ⟨fun _ => ⟨Nat.succ_pos _, fun w hne => absurd rfl hne, fun w hw => ?_⟩,
            fun _ => rfl⟩
          rw [← Option.some.inj hw]
          exact hlt
        · rw [if_neg hlt]
          refine iff_of_false (fun hloc => ?_) fun hat => hlt (hat.2.2 e rfl)
          obtain ⟨j, -, hj⟩ := Option.map_eq_some_iff.mp hloc
          exact absurd hj (Nat.succ_ne_zero j)
      | succ i =>
        by_cases hlt : v < e
        · rw [if_pos hlt]
          refine iff_of_false (fun hloc => absurd (Option.some.inj hloc) (Nat.succ_ne_zero i).symm)
            fun hat => ?_
          have hi : i < (e :: rest).length := Nat.lt_of_succ_lt_succ hat.1
          have hget := List.getElem?_eq_getElem hi
          have hle := hat.2.1 _ (Nat.succ_ne_zero i) hget
          have hge := head_le hrest hget
          omega
        · rw [if_neg hlt]
          rw [map_succ_eq_some_iff, ih hrest]
          constructor
          · intro hat
            obtain ⟨hi, hle, hlast⟩ := hat
            refine ⟨Nat.succ_lt_succ hi, fun w _ hw => ?_, hlast⟩
            cases i with
            | zero =>
              rw [← Option.some.inj hw]
              exact Nat.le_of_not_lt hlt
            | succ i => exact hle w (Nat.succ_ne_zero i) hw
          · intro hat
            obtain ⟨hi, hle, hlast⟩ := hat
            exact ⟨Nat.lt_of_succ_lt_succ hi, fun w _ hw => hle w (Nat.succ_ne_zero i) hw, hlast⟩

theorem exists_locate (hne : ends ≠ []) (v : ℕ) : ∃ i < ends.length, locate v ends = some i := by
  induction ends with
  | nil => exact absurd rfl hne
  | cons a ends ih =>
    cases ends with
    | nil => exact ⟨0, Nat.one_pos, rfl⟩
    | cons e rest =>
      rw [locate]
      by_cases hlt : v < e
      · exact ⟨0, Nat.succ_pos _, if_pos hlt⟩
      · obtain ⟨i, hi, hloc⟩ := ih (List.cons_ne_nil _ _)
        exact ⟨i + 1, Nat.succ_lt_succ hi, by rw [if_neg hlt, hloc]; rfl⟩

/-- Where a number is after range `m` has been split at `mid`, if it was in range `i` before. -/
def side (m mid v i : ℕ) : ℕ :=
  if i < m then i
  else if i = m then (if v < mid then i else i + 1)
  else i + 1

/-- Numbers are together after the split if they were before, on the same side of `mid` if it
was their range. -/
theorem side_eq_iff {m mid v w i j : ℕ} : side m mid v i = side m mid w j ↔
    i = j ∧ (i = m → (v < mid ↔ w < mid)) := by
  unfold side
  split_ifs <;> omega

theorem side_of_ne {m mid v i : ℕ} (hne : i ≠ m) :
    side m mid v i = if i < m then i else i + 1 := by
  unfold side
  rw [if_neg hne]

theorem side_self {m mid v : ℕ} : side m mid v m = if v < mid then m else m + 1 := by
  unfold side
  rw [if_neg (Nat.lt_irrefl m), if_pos rfl]

theorem side_zero {m mid v : ℕ} : side (m + 1) mid v 0 = 0 := if_pos (Nat.succ_pos m)

theorem side_succ {m mid v i : ℕ} : side (m + 1) mid v (i + 1) = side m mid v i + 1 := by
  unfold side
  split_ifs <;> omega

/-- A range is split at `mid`. -/
theorem locate_insert (v : ℕ) (pre : List ℕ) (a mid : ℕ) (post : List ℕ)
    (hmid : ∀ e ∈ post.head?, mid < e) :
    locate v (pre ++ a :: mid :: post) =
      (locate v (pre ++ a :: post)).map (side pre.length mid v) := by
  induction pre with
  | nil =>
    rw [List.nil_append, List.nil_append, locate_cons_cons]
    cases post with
    | nil =>
      by_cases hlt : v < mid
      · simp [hlt, locate, side_self]
      · simp [hlt, locate, side_self]
    | cons e rest =>
      have hme : mid < e := hmid e rfl
      rw [locate_cons_cons v mid, locate_cons_cons v a]
      by_cases hlt : v < mid
      · have hve : v < e := Nat.lt_trans hlt hme
        simp [hlt, hve, side_self]
      · rw [if_neg hlt]
        by_cases hve : v < e
        · simp [hve, hlt, side_self]
        · rw [if_neg hve]
          simp [Function.comp_def, side_of_ne]
  | cons p pre ih =>
    have hstep : ∀ rest : List ℕ, ∃ x xs, pre ++ a :: rest = x :: xs ∧
        (pre = [] → x = a) ∧ ∀ y ys, pre = y :: ys → x = y := by
      intro rest
      cases pre with
      | nil => exact ⟨a, rest, rfl, fun _ => rfl, fun y ys hy => absurd hy (by simp)⟩
      | cons y ys =>
        refine ⟨y, ys ++ a :: rest, rfl, fun hnil => absurd hnil (by simp), fun z zs hz => ?_⟩
        exact (List.cons.inj hz).1
    obtain ⟨x, xs, hx, hnil, hcons⟩ := hstep (mid :: post)
    obtain ⟨y, ys, hy, hnil', hcons'⟩ := hstep post
    have hxy : x = y := by
      cases pre with
      | nil => rw [hnil rfl, hnil' rfl]
      | cons z zs => rw [hcons z zs rfl, hcons' z zs rfl]
    rw [List.cons_append, List.cons_append, hx, hy, locate_cons_cons, locate_cons_cons, ← hx,
      ← hy, hxy]
    by_cases hlt : v < y
    · simp [hlt, side_zero]
    · rw [if_neg hlt, if_neg hlt, ih, Option.map_map, Option.map_map]
      congr 1
      funext i
      rw [Function.comp_apply, Function.comp_apply, List.length_cons, side_succ]

end SeaStore.Ranges
