import Mathlib.Data.Set.Card

/-!
Who has announced what, and when: for each topic a bounded number of members
with the time of their last announcement, for a bounded number of topics. A
topic without members is forgotten.
-/
namespace SeaStore.Registry

variable {H K : Type*} [DecidableEq H] [DecidableEq K]

/-- When a member has announced itself last, if it is known. -/
abbrev Entries (H K : Type*) := H → K → Option ℤ

def members (r : Entries H K) (h : H) : Set K := {k | r h k ≠ none}

def topics (r : Entries H K) : Set H := {h | ∃ k, r h k ≠ none}

def update (r : Entries H K) (h : H) (k : K) (now : ℤ) : Entries H K :=
  fun h' k' => if h' = h ∧ k' = k then some now else r h' k'

open Classical in
/-- An announcement, answered with one if it is new, with zero if it is not or there is no
more room for members, and with minus one if there is no more room for topics. -/
noncomputable def announce (maxMembers maxTopics : ℕ) (r : Entries H K) (now : ℤ) (h : H) (k : K) :
    ℤ × Entries H K :=
  if r h k ≠ none then (0, update r h k now)
  else if h ∈ topics r then
    if (members r h).ncard < maxMembers then (1, update r h k now) else (0, r)
  else if (topics r).ncard < maxTopics then (1, update r h k now)
  else (-1, r)

/-- Whoever has not announced itself since `limit` is forgotten. -/
def expire (r : Entries H K) (limit : ℤ) : Entries H K :=
  fun h k => (r h k).filter fun t => limit ≤ t

section Update

variable {r : Entries H K} {h : H} {k : K} {now : ℤ}

omit [DecidableEq H] [DecidableEq K] in
theorem mem_topics {t : ℤ} (hin : r h k = some t) : h ∈ topics r :=
  ⟨k, by rw [hin]; exact Option.some_ne_none t⟩

theorem update_self : update r h k now h k = some now := if_pos ⟨rfl, rfl⟩

theorem update_of_ne {h' : H} {k' : K} (hne : ¬ (h' = h ∧ k' = k)) :
    update r h k now h' k' = r h' k' := if_neg hne

/-- Who is known stays so when somebody is announced, and is as old as before unless it is the
one who is announced. -/
theorem announce_known {maxMembers maxTopics : ℕ} {h' : H} {k' : K} {t : ℤ}
    (hin : r h' k' = some t) : (announce maxMembers maxTopics r now h k).2 h' k' =
      some (if h' = h ∧ k' = k then now else t) := by
  by_cases heq : h' = h ∧ k' = k
  · obtain ⟨rfl, rfl⟩ := heq
    have hknown : r h' k' ≠ none := by
      rw [hin]
      exact Option.some_ne_none t
    rw [announce, if_pos hknown, if_pos ⟨rfl, rfl⟩]
    exact update_self
  · have hup : update r h k now h' k' = some t := (update_of_ne heq).trans hin
    rw [if_neg heq, announce]
    split_ifs
    · exact hup
    · exact hup
    · exact hin
    · exact hup
    · exact hin

/-- What is announced again, or is new and answered with one, is known from now on. -/
theorem announce_self {maxMembers maxTopics : ℕ}
    (hrc : r h k ≠ none ∨ (announce maxMembers maxTopics r now h k).1 = 1) :
    (announce maxMembers maxTopics r now h k).2 h k = some now := by
  unfold announce at hrc ⊢
  by_cases hknown : r h k ≠ none
  · rw [if_pos hknown]
    exact update_self
  · rw [if_neg hknown] at hrc ⊢
    have hrc := hrc.resolve_left hknown
    split
    · next htopic =>
      rw [if_pos htopic] at hrc
      split
      · exact update_self
      · next hfull =>
        rw [if_neg hfull] at hrc
        exact absurd hrc Int.zero_ne_one
    · next htopic =>
      rw [if_neg htopic] at hrc
      split
      · exact update_self
      · next hfull =>
        rw [if_neg hfull] at hrc
        have hrc : (-1 : ℤ) = 1 := hrc
        exact absurd hrc (by decide)

/-- Nothing is known but what was, and what is announced now. -/
theorem announce_some {maxMembers maxTopics : ℕ} {h' : H} {k' : K} {t : ℤ}
    (hin : (announce maxMembers maxTopics r now h k).2 h' k' = some t) :
    r h' k' = some t ∨ (h' = h ∧ k' = k) ∧ t = now := by
  have hup : update r h k now h' k' = some t → r h' k' = some t ∨ (h' = h ∧ k' = k) ∧ t = now := by
    intro hup
    by_cases heq : h' = h ∧ k' = k
    · rw [update, if_pos heq] at hup
      exact Or.inr ⟨heq, (Option.some.inj hup).symm⟩
    · rw [update_of_ne heq] at hup
      exact Or.inl hup
  unfold announce at hin
  split at hin
  · exact hup hin
  · split at hin
    · split at hin
      · exact hup hin
      · exact Or.inl hin
    · split at hin
      · exact hup hin
      · exact Or.inl hin

omit [DecidableEq H] [DecidableEq K] in
theorem expire_eq_some {limit t : ℤ} :
    expire r limit h k = some t ↔ r h k = some t ∧ limit ≤ t := by
  rw [expire, Option.filter_eq_some_iff, decide_eq_true_eq]

end Update

section Counts

/-- The number of members, and of topics, of entries that are listed. -/
theorem ncard_eq_length {α β : Type*} [DecidableEq α] {l : List β} {f : β → α} {s : Set α}
    (hnd : (l.map f).Nodup) (hs : ∀ a, a ∈ s ↔ a ∈ l.map f) : s.ncard = l.length := by
  have heq : s = ((l.map f).toFinset : Set α) := by
    ext a
    rw [hs, List.coe_toFinset, Set.mem_ofPred_eq]
  rw [heq, Set.ncard_coe_finset, List.toFinset_card_of_nodup hnd, List.length_map]

end Counts

end SeaStore.Registry
