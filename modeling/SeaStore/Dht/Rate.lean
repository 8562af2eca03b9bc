import Mathlib.Algebra.Order.Ring.Int
import Mathlib.Tactic.Linarith

/-!
A bucket of tokens. A request takes a token; an empty bucket is filled for the
time since it was filled last, but not over its brim. The tokens are counted in
a type of numbers that may not have them all: `wrap` is what becomes of a number
in it. However the requests come, there are not many more granted in any time
than the rate allows. If a clock that is set back ever makes the number of tokens
negative, all are granted.
-/
namespace SeaStore.Rate

variable {wrap : ℤ → ℤ} {cap rate : ℤ}

/-- The tokens, and the time of the last filling. -/
abbrev Bucket := ℤ × ℤ

/-- An empty bucket is filled. -/
def fill (wrap : ℤ → ℤ) (cap rate now : ℤ) (b : Bucket) : Bucket :=
  if b.1 = 0 then (wrap (min cap (rate * (now - b.2))), now) else b

/-- A request at the time `now`, whether it is granted and what is left. -/
def take (wrap : ℤ → ℤ) (cap rate now : ℤ) (b : Bucket) : Bool × Bucket :=
  let b := fill wrap cap rate now b
  if b.1 = 0 then (false, b) else (true, (wrap (b.1 - 1), b.2))

/-- The number of requests granted of those at the given times. -/
def granted (wrap : ℤ → ℤ) (cap rate : ℤ) : Bucket → List ℤ → ℕ
  | _, [] => 0
  | b, t :: ts =>
    (if (take wrap cap rate t b).1 then 1 else 0) +
      granted wrap cap rate (take wrap cap rate t b).2 ts

/-- The type has the numbers from `lo` to `hi`. -/
def Exact (wrap : ℤ → ℤ) (lo hi : ℤ) : Prop := ∀ x, lo ≤ x → x ≤ hi → wrap x = x

/-- Times in order, from `s` on and up to `e`. -/
def Within (s e : ℤ) (ts : List ℤ) : Prop := (s :: ts).Pairwise (· ≤ ·) ∧ ∀ t ∈ ts, t ≤ e

theorem Within.cons {s e t : ℤ} {ts : List ℤ} (h : Within s e (t :: ts)) :
    s ≤ t ∧ t ≤ e ∧ Within t e ts := by
  obtain ⟨hs, htail⟩ := List.pairwise_cons.mp h.1
  exact ⟨hs t (List.mem_cons_self ..), h.2 t (List.mem_cons_self ..), htail,
    fun u hu => h.2 u (List.mem_cons_of_mem t hu)⟩

theorem Within.mono {s t e : ℤ} {ts : List ℤ} (h : Within t e ts) (hle : s ≤ t) :
    Within s e ts := by
  obtain ⟨ht, htail⟩ := List.pairwise_cons.mp h.1
  exact ⟨List.pairwise_cons.mpr ⟨fun u hu => hle.trans (ht u hu), htail⟩, h.2⟩

/-- A bucket that is neither overdrawn nor too full, filled last at `now` or before. -/
structure Sound (cap now : ℤ) (b : Bucket) : Prop where
  nonneg : 0 ≤ b.1
  le : b.1 ≤ cap
  time : b.2 ≤ now

section Take

variable {now : ℤ} {b : Bucket}

theorem fill_eq (hwrap : Exact wrap 0 cap) (hcap : 0 ≤ cap) (hrate : 0 ≤ rate)
    (hb : Sound cap now b) : fill wrap cap rate now b =
      if b.1 = 0 then (min cap (rate * (now - b.2)), now) else b := by
  have hearned : 0 ≤ rate * (now - b.2) := mul_nonneg hrate (by linarith [hb.time])
  rw [fill, hwrap _ (le_min hcap hearned) (min_le_left _ _)]

theorem fill_sound (hwrap : Exact wrap 0 cap) (hcap : 0 ≤ cap) (hrate : 0 ≤ rate)
    (hb : Sound cap now b) : Sound cap now (fill wrap cap rate now b) := by
  rw [fill_eq hwrap hcap hrate hb]
  split
  · have hearned : 0 ≤ rate * (now - b.2) := mul_nonneg hrate (by linarith [hb.time])
    exact ⟨le_min hcap hearned, min_le_left _ _, le_refl now⟩
  · exact hb

/-- A sound bucket stays so, and gives one token or none of those it is filled with. -/
theorem take_spec (hwrap : Exact wrap 0 cap) (hcap : 0 ≤ cap) (hrate : 0 ≤ rate)
    (hb : Sound cap now b) :
    Sound cap now (take wrap cap rate now b).2 ∧
      (if (take wrap cap rate now b).1 then 1 else 0) + (take wrap cap rate now b).2.1 =
        (fill wrap cap rate now b).1 ∧
      (take wrap cap rate now b).2.2 = (fill wrap cap rate now b).2 := by
  have hfill := fill_sound hwrap hcap hrate hb
  unfold take
  simp only
  split
  · exact ⟨hfill, by simp, rfl⟩
  · next hne =>
    have hpos := hfill.nonneg
    have hle := hfill.le
    rw [hwrap _ (by omega) (by omega)]
    exact ⟨⟨by simp only; omega, by simp only; omega, hfill.time⟩, by simp, rfl⟩

/-- What is granted was there, or has been earned since the last filling. -/
theorem take_le (hwrap : Exact wrap 0 cap) (hcap : 0 ≤ cap) (hrate : 0 ≤ rate)
    (hb : Sound cap now b) :
    (if (take wrap cap rate now b).1 then 1 else 0) + (take wrap cap rate now b).2.1 -
      rate * (take wrap cap rate now b).2.2 ≤ b.1 - rate * b.2 := by
  obtain ⟨-, htokens, htime⟩ := take_spec hwrap hcap hrate hb
  rw [htokens, htime, fill_eq hwrap hcap hrate hb]
  split
  · next hempty =>
    have hmin := min_le_right cap (rate * (now - b.2))
    have hexpand : rate * (now - b.2) = rate * now - rate * b.2 := mul_sub rate now b.2
    simp only
    linarith
  · exact le_refl _

/-- A bucket that is overdrawn is never filled. -/
theorem take_of_neg (cap rate now : ℤ) (hneg : b.1 < 0) :
    take wrap cap rate now b = (true, (wrap (b.1 - 1), b.2)) := by
  have hne : b.1 ≠ 0 := ne_of_lt hneg
  unfold take fill
  simp only [if_neg hne]

end Take

section Runs

variable {b : Bucket} {ts : List ℤ} {s e : ℤ}

theorem Sound.mono {now now' : ℤ} (hb : Sound cap now b) (hle : now ≤ now') : Sound cap now' b :=
  ⟨hb.nonneg, hb.le, hb.time.trans hle⟩

/-- The tokens there are, and those earned since the last filling, are all that is granted. -/
theorem granted_le (hwrap : Exact wrap 0 cap) (hcap : 0 ≤ cap) (hrate : 0 ≤ rate)
    (hb : Sound cap s b) (hse : s ≤ e) (hts : Within s e ts) :
    (granted wrap cap rate b ts : ℤ) ≤ b.1 + rate * (e - b.2) := by
  induction ts generalizing b s with
  | nil =>
    have hearned : 0 ≤ rate * (e - b.2) := mul_nonneg hrate (by linarith [hb.time])
    rw [granted]
    have hnonneg := hb.nonneg
    push_cast
    linarith
  | cons t ts ih =>
    obtain ⟨hst, hte, hrest⟩ := hts.cons
    have hsound := hb.mono hst
    have hone := take_le hwrap hcap hrate hsound
    have hmore := ih (take_spec hwrap hcap hrate hsound).1 hte hrest
    rw [granted]
    have hexpand : ∀ u : ℤ, rate * (e - u) = rate * e - rate * u := fun u => mul_sub rate e u
    rw [hexpand] at hmore ⊢
    push_cast
    linarith

/-- In any time, not only since the last filling: two full buckets and the rate. -/
theorem granted_le_window (hwrap : Exact wrap 0 cap) (hcap : 0 ≤ cap) (hrate : 0 ≤ rate)
    (hb : Sound cap s b) (hse : s ≤ e) (hts : Within s e ts) :
    (granted wrap cap rate b ts : ℤ) ≤ b.1 + cap + rate * (e - s) := by
  induction ts generalizing b with
  | nil =>
    have hearned : 0 ≤ rate * (e - s) := mul_nonneg hrate (by linarith)
    rw [granted]
    have hnonneg := hb.nonneg
    push_cast
    linarith
  | cons t ts ih =>
    obtain ⟨hst, hte, hrest⟩ := hts.cons
    have hlater := hb.mono hst
    obtain ⟨hsound, htokens, htime⟩ := take_spec hwrap hcap hrate hlater
    rw [granted]
    push_cast
    by_cases hempty : b.1 = 0
    · -- from this filling on the tokens have to be earned
      have hmore := granted_le hwrap hcap hrate hsound hte hrest
      have hfilled : fill wrap cap rate t b = (min cap (rate * (t - b.2)), t) := by
        rw [fill_eq hwrap hcap hrate hlater, if_pos hempty]
      have hmin := min_le_left cap (rate * (t - b.2))
      have hearned : rate * (e - t) ≤ rate * (e - s) :=
        mul_le_mul_of_nonneg_left (by linarith) hrate
      rw [hfilled] at htokens htime
      rw [htime] at hmore
      simp only at htokens hmore
      linarith
    · have hsame : fill wrap cap rate t b = b := if_neg hempty
      rw [hsame] at htokens htime
      have hmore := ih ⟨hsound.nonneg, hsound.le, by rw [htime]; exact hb.time⟩ (hrest.mono hst)
      linarith

end Runs

end SeaStore.Rate
