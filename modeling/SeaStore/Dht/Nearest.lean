import Mathlib.Data.List.InsertIdx
import Mathlib.Data.Set.Insert
import Mathlib.Data.List.Perm.Subperm
import Mathlib.Tactic.Tauto
import Mathlib.Order.Basic

/-!
The smallest of the numbers that have been offered, a bounded number of them, in
order. A new one is put where it belongs, and what then is too many falls off
the end. It does not matter in which order the numbers come.
-/
namespace SeaStore.Nearest

variable {K : Type*} [LinearOrder K]

/-- Where a number belongs: its own place if it is there, or the first place of a
larger one. -/
def place (x : K) : List K → Bool × ℕ
  | [] => (false, 0)
  | y :: ys =>
    if x = y then (true, 0)
    else if x < y then (false, 0)
    else ((place x ys).1, (place x ys).2 + 1)

/-- A number is offered to a list that has room for `k`. -/
def offer (k : ℕ) (l : List K) (x : K) : List K :=
  if (place x l).1 then l else (l.insertIdx (place x l).2 x).take k

/-- The list holds the `k` smallest of `s`, or all of them if there are fewer. -/
structure Smallest (k : ℕ) (s : Set K) (l : List K) : Prop where
  sorted : l.Pairwise (· < ·)
  length_le : l.length ≤ k
  mem : ∀ x ∈ l, x ∈ s
  least : ∀ x ∈ s, x ∈ l ∨ l.length = k ∧ ∀ y ∈ l, y < x

section Place

variable {l : List K} {x : K} {i : ℕ}

theorem place_true (hplace : place x l = (true, i)) : l[i]? = some x := by
  induction l generalizing i with
  | nil => exact absurd hplace (by simp [place])
  | cons y ys ih =>
    rw [place] at hplace
    by_cases heq : x = y
    · rw [if_pos heq] at hplace
      obtain rfl : 0 = i := congrArg Prod.snd hplace
      rw [heq]
      rfl
    · rw [if_neg heq] at hplace
      by_cases hlt : x < y
      · rw [if_pos hlt] at hplace
        exact absurd (congrArg Prod.fst hplace) (by simp)
      · rw [if_neg hlt] at hplace
        obtain ⟨h1, rfl⟩ := Prod.mk.inj hplace
        exact ih (Prod.ext h1 rfl)

/-- A number that is not there belongs between the smaller and the larger ones. -/
theorem place_false (hsorted : l.Pairwise (· < ·)) (hplace : place x l = (false, i)) :
    ∃ near far, l = near ++ far ∧ near.length = i ∧ (∀ y ∈ near, y < x) ∧ ∀ y ∈ far, x < y := by
  induction l generalizing i with
  | nil =>
    obtain rfl : 0 = i := congrArg Prod.snd hplace
    exact ⟨[], [], rfl, rfl, by simp, by simp⟩
  | cons y ys ih =>
    obtain ⟨hhead, htail⟩ := List.pairwise_cons.mp hsorted
    rw [place] at hplace
    by_cases heq : x = y
    · rw [if_pos heq] at hplace
      exact absurd (congrArg Prod.fst hplace) (by simp)
    · rw [if_neg heq] at hplace
      by_cases hlt : x < y
      · rw [if_pos hlt] at hplace
        obtain rfl : 0 = i := congrArg Prod.snd hplace
        refine ⟨[], y :: ys, rfl, rfl, by simp, ?_⟩
        intro z hz
        rcases List.mem_cons.mp hz with rfl | hin
        · exact hlt
        · exact hlt.trans (hhead z hin)
      · rw [if_neg hlt] at hplace
        obtain ⟨h1, rfl⟩ := Prod.mk.inj hplace
        obtain ⟨near, far, rfl, hlen, hnear, hfar⟩ := ih htail (Prod.ext h1 rfl)
        refine ⟨y :: near, far, rfl, by rw [List.length_cons, hlen], ?_, hfar⟩
        intro z hz
        rcases List.mem_cons.mp hz with rfl | hin
        · exact lt_of_le_of_ne (le_of_not_gt hlt) (Ne.symm heq)
        · exact hnear z hin

theorem insertIdx_length_append {α : Type*} (near far : List α) (x : α) :
    (near ++ far).insertIdx near.length x = near ++ x :: far := by
  induction near with
  | nil => rfl
  | cons y near ih => rw [List.cons_append, List.length_cons, List.insertIdx_succ_cons, ih]; rfl

end Place

section Offer

variable {k : ℕ} {s : Set K} {l : List K}

theorem Smallest.nil (k : ℕ) : Smallest k (∅ : Set K) [] :=
  ⟨List.Pairwise.nil, Nat.zero_le k, by simp, by simp⟩

/-- The two ways an offer goes: the number is there, or it comes between the others. -/
theorem offer_cases (hsorted : l.Pairwise (· < ·)) (k : ℕ) (x : K) :
    (x ∈ l ∧ offer k l x = l) ∨
      ∃ near far, l = near ++ far ∧ (∀ y ∈ near, y < x) ∧ (∀ y ∈ far, x < y) ∧
        offer k l x = (near ++ x :: far).take k := by
  obtain ⟨found, i, hplace⟩ : ∃ found i, place x l = (found, i) := ⟨_, _, rfl⟩
  unfold offer
  cases found with
  | true =>
    rw [hplace]
    exact Or.inl ⟨List.mem_of_getElem? (place_true hplace), if_pos rfl⟩
  | false =>
    obtain ⟨near, far, rfl, rfl, hnear, hfar⟩ := place_false hsorted hplace
    rw [hplace]
    refine Or.inr ⟨near, far, rfl, hnear, hfar, ?_⟩
    rw [if_neg (by simp), insertIdx_length_append]

/-- What is put into a list of other things by a key of theirs. -/
theorem map_insertIdx_take {α : Type*} (f : α → K) {l : List α} {a : α} {i : ℕ}
    (hsorted : (l.map f).Pairwise (· < ·)) (hle : l.length ≤ k)
    (hplace : place (f a) (l.map f) = (false, i)) :
    (if i = k then l else (l.insertIdx i a).take k).map f = offer k (l.map f) (f a) := by
  have hoffer : offer k (l.map f) (f a) = ((l.map f).insertIdx i (f a)).take k := by
    rw [offer, hplace, if_neg Bool.false_ne_true]
  rw [hoffer]
  by_cases hi : i = k
  · -- it belongs behind all of a full list
    obtain ⟨near, far, hl, hlen, -, -⟩ := place_false hsorted hplace
    have hfar : far = [] := by
      have hlen' := congrArg List.length hl
      rw [List.length_map, List.length_append] at hlen'
      exact List.length_eq_zero_iff.mp (by omega)
    rw [if_pos hi, hl, hfar, List.append_nil, ← hi, ← hlen, List.insertIdx_length_self,
      List.take_left]
  · rw [if_neg hi, List.map_take, List.map_insertIdx]

theorem pairwise_insert {near far : List K} {x : K} (hsorted : (near ++ far).Pairwise (· < ·))
    (hnear : ∀ y ∈ near, y < x) (hfar : ∀ y ∈ far, x < y) :
    (near ++ x :: far).Pairwise (· < ·) := by
  obtain ⟨hsnear, hsfar, hcross⟩ := List.pairwise_append.mp hsorted
  rw [List.pairwise_append, List.pairwise_cons]
  refine ⟨hsnear, ⟨hfar, hsfar⟩, ?_⟩
  intro a ha b hb
  rcases List.mem_cons.mp hb with rfl | hb
  · exact hnear a ha
  · exact hcross a ha b hb

/-- What falls off the end is larger than all that is kept. -/
theorem take_least (hsorted : l.Pairwise (· < ·)) (k : ℕ) {z : K} (hz : z ∈ l) :
    z ∈ l.take k ∨ (l.take k).length = k ∧ ∀ y ∈ l.take k, y < z := by
  rw [← List.take_append_drop k l] at hz hsorted
  rcases List.mem_append.mp hz with hz | hz
  · exact Or.inl hz
  · refine Or.inr ⟨?_, fun y hy => (List.pairwise_append.mp hsorted).2.2 y hy z hz⟩
    have hpos := List.length_pos_of_mem hz
    rw [List.length_drop] at hpos
    rw [List.length_take]
    omega

/-- The newcomer is kept only if a larger one than it falls off. -/
theorem lt_of_mem_insert_take {near far : List K} {x y z : K} (hnear : ∀ w ∈ near, w < x)
    (hfar : ∀ w ∈ far, x < w) (hfull : (near ++ far).length = k) (hless : ∀ w ∈ near ++ far, w < y)
    (hz : z ∈ (near ++ x :: far).take k) : z < y := by
  rcases List.mem_append.mp (List.mem_of_mem_take hz) with hz' | hz'
  · exact hless z (List.mem_append_left far hz')
  · rcases List.mem_cons.mp hz' with rfl | hz'
    · cases far with
      | cons w far =>
        exact (hfar w (List.mem_cons_self ..)).trans
          (hless w (List.mem_append_right near (List.mem_cons_self ..)))
      | nil =>
        have hnl : near.length = k := by simpa using hfull
        rw [← hnl, List.take_left] at hz
        exact absurd (hnear z hz) (lt_irrefl z)
    · exact hless z (List.mem_append_right near hz')

theorem Smallest.offer (hsm : Smallest k s l) (x : K) :
    Smallest k (insert x s) (offer k l x) := by
  rcases offer_cases hsm.sorted k x with ⟨hin, heq⟩ | ⟨near, far, rfl, hnear, hfar, heq⟩
  · rw [heq]
    refine ⟨hsm.sorted, hsm.length_le, fun y hy => Set.mem_insert_of_mem x (hsm.mem y hy), ?_⟩
    intro y hy
    rcases hy with rfl | hy
    · exact Or.inl hin
    · exact hsm.least y hy
  · rw [heq]
    have hsorted := pairwise_insert hsm.sorted hnear hfar
    have hlen : (near ++ x :: far).length = (near ++ far).length + 1 := by
      simp only [List.length_append, List.length_cons]
      omega
    have hle := hsm.length_le
    have htake : ((near ++ x :: far).take k).length = min k ((near ++ far).length + 1) := by
      rw [List.length_take, hlen]
    refine ⟨hsorted.sublist (List.take_sublist ..), by omega, ?_, ?_⟩
    · intro y hy
      rcases List.mem_append.mp (List.mem_of_mem_take hy) with hy | hy
      · exact Set.mem_insert_of_mem x (hsm.mem y (List.mem_append_left far hy))
      · rcases List.mem_cons.mp hy with rfl | hy
        · exact Set.mem_insert y s
        · exact Set.mem_insert_of_mem x (hsm.mem y (List.mem_append_right near hy))
    · intro y hy
      by_cases hin : y ∈ near ++ x :: far
      · exact take_least hsorted k hin
      rw [List.mem_append, List.mem_cons] at hin
      have hys : y ∈ s := by
        rcases hy with rfl | hy
        · exact absurd (Or.inr (Or.inl rfl)) hin
        · exact hy
      rcases hsm.least y hys with hmem | ⟨hfull, hless⟩
      · exact absurd ((List.mem_append.mp hmem).imp_right Or.inr) hin
      · exact Or.inr ⟨by omega, fun z hz => lt_of_mem_insert_take hnear hfar hfull hless hz⟩

/-- A run of offers. -/
theorem Smallest.foldl (hsm : Smallest k s l) (xs : List K) :
    Smallest k (s ∪ {x | x ∈ xs}) (xs.foldl (Nearest.offer k) l) := by
  induction xs generalizing s l with
  | nil => simpa using hsm
  | cons x xs ih =>
    have hset : s ∪ {y | y ∈ x :: xs} = insert x s ∪ {y | y ∈ xs} := by
      ext y
      simp only [Set.mem_union, Set.mem_ofPred_eq, List.mem_cons, Set.mem_insert_iff]
      tauto
    rw [List.foldl_cons, hset]
    exact ih (hsm.offer x)

/-- The smallest are determined by what has been offered. -/
theorem Smallest.unique {l' : List K} (hsm : Smallest k s l) (hsm' : Smallest k s l') :
    l = l' := by
  have hsub : ∀ {l l' : List K}, Smallest k s l → Smallest k s l' → l ⊆ l' := by
    intro l l' h h' x hx
    rcases h'.least x (h.mem x hx) with hin | ⟨hfull, hless⟩
    · exact hin
    · -- all of a full list are smaller than `x`, and so are in the other one, before it
      have hsub' : l' ⊆ l := by
        intro y hy
        rcases h.least y (h'.mem y hy) with hin | ⟨-, hless'⟩
        · exact hin
        · exact absurd ((hless' x hx).trans (hless y hy)) (lt_irrefl x)
      have hperm : l'.Subperm l := List.Nodup.subperm (h'.sorted.imp ne_of_lt) hsub'
      have hlen : l.length ≤ l'.length := by rw [hfull]; exact h.length_le
      exact (hperm.perm_of_length_le hlen).symm.subset hx
  have hnd : l.Nodup := hsm.sorted.imp ne_of_lt
  have hnd' : l'.Nodup := hsm'.sorted.imp ne_of_lt
  have hperm : l.Perm l' :=
    (hnd.subperm (hsub hsm hsm')).antisymm (hnd'.subperm (hsub hsm' hsm))
  exact hperm.eq_of_pairwise (fun a b _ _ hab hba => absurd (hab.trans hba) (lt_irrefl a))
    hsm.sorted hsm'.sorted

end Offer

end SeaStore.Nearest
