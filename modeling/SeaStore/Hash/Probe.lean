import Mathlib.Data.Fintype.EquivFin
import Mathlib.Data.Fintype.Card
import Mathlib.Data.Nat.ModEq
import Mathlib.Data.Nat.Prime.Basic
import Mathlib.Tactic.Ring

/-!
Probing by triangular numbers. In a table whose size is a power of two the
places of the probes from any start are all different for as many probes as the
table has places, so that every place comes up; the start itself comes up again
only when almost twice as many probes have been made.
-/
namespace SeaStore.Probe

/-- The place of probe `n` from `start`, in a table of `m` places. -/
def probe (m start n : ℕ) : ℕ := (start + n * (n + 1) / 2) % m

theorem probe_lt {m : ℕ} (hm : 0 < m) (start n : ℕ) : probe m start n < m := Nat.mod_lt _ hm

theorem probe_zero (m start : ℕ) : probe m start 0 = start % m := by
  rw [probe, Nat.zero_mul, Nat.zero_div, Nat.add_zero]

theorem triangular_succ (n : ℕ) : (n + 1) * (n + 1 + 1) / 2 = n * (n + 1) / 2 + (n + 1) := by
  have hsplit : (n + 1) * (n + 1 + 1) = n * (n + 1) + (n + 1) * 2 := by ring
  rw [hsplit, Nat.add_mul_div_right _ _ (by omega)]

theorem probe_succ (m start n : ℕ) : probe m start (n + 1) = (probe m start n + (n + 1)) % m := by
  rw [probe, probe, triangular_succ, Nat.mod_add_mod, Nat.add_assoc]

/-- Of two numbers of different parity, a power of two divides one if it divides
their product. -/
theorem two_pow_dvd_of_mul {a b k : ℕ} (hpar : a % 2 ≠ b % 2) (hdvd : 2 ^ k ∣ a * b) :
    2 ^ k ∣ a ∨ 2 ^ k ∣ b := by
  rcases Nat.mod_two_eq_zero_or_one a with ha | ha
  · left
    have hb : Nat.Coprime (2 ^ k) b := Nat.Coprime.pow_left k (by
      rw [Nat.coprime_two_left, Nat.odd_iff]
      omega)
    exact hb.dvd_of_dvd_mul_right hdvd
  · right
    have hcop : Nat.Coprime (2 ^ k) a := Nat.Coprime.pow_left k (by
      rw [Nat.coprime_two_left, Nat.odd_iff]
      exact ha)
    exact hcop.dvd_of_dvd_mul_left hdvd

/-- When two probes come to the same place, twice the table's size divides the
product of their distance and their sum and one. -/
theorem dvd_of_probe_eq {m start a b : ℕ} (hle : b ≤ a) (heq : probe m start a = probe m start b) :
    2 * m ∣ (a - b) * (a + b + 1) := by
  obtain ⟨d, rfl⟩ := Nat.exists_eq_add_of_le hle
  have hsum : (b + d) * (b + d + 1) / 2 = b * (b + 1) / 2 + d * (2 * b + d + 1) / 2 := by
    have hsplit : (b + d) * (b + d + 1) = b * (b + 1) + d * (2 * b + d + 1) := by ring
    have heven : 2 ∣ b * (b + 1) := (Nat.even_mul_succ_self b).two_dvd
    rw [hsplit]
    omega
  have hdvd : m ∣ d * (2 * b + d + 1) / 2 := by
    have hmod : Nat.ModEq m (start + b * (b + 1) / 2)
        (start + b * (b + 1) / 2 + d * (2 * b + d + 1) / 2) := by
      rw [probe, probe, hsum, ← Nat.add_assoc] at heq
      exact heq.symm
    exact (Nat.modEq_iff_dvd' (Nat.le_add_right _ _)).mp hmod |>.trans (by
      rw [Nat.add_sub_cancel_left])
  have heven : 2 ∣ d * (2 * b + d + 1) := by
    rcases Nat.even_or_odd d with hd | hd
    · exact hd.two_dvd.mul_right _
    · refine Dvd.dvd.mul_left ?_ d
      obtain ⟨c, rfl⟩ := hd
      exact ⟨b + c + 1, by ring⟩
  have hsub : b + d - b = d := Nat.add_sub_cancel_left b d
  have hadd : b + d + b + 1 = 2 * b + d + 1 := by omega
  rw [hsub, hadd, ← Nat.div_mul_cancel heven, Nat.mul_comm _ 2]
  exact Nat.mul_dvd_mul_left 2 hdvd

/-- The first probes, as many as there are places, come to different places. -/
theorem probe_injective {k start a b : ℕ} (ha : a < 2 ^ k) (hb : b < 2 ^ k)
    (heq : probe (2 ^ k) start a = probe (2 ^ k) start b) : a = b := by
  have aux : ∀ {a b : ℕ}, b ≤ a → a < 2 ^ k → b < 2 ^ k →
      probe (2 ^ k) start a = probe (2 ^ k) start b → a = b := by
    intro a b hle ha hb heq
    have hdvd := dvd_of_probe_eq hle heq
    rw [← Nat.pow_succ'] at hdvd
    have hpow : 2 ^ (k + 1) = 2 * 2 ^ k := Nat.pow_succ'
    rcases two_pow_dvd_of_mul (by omega) hdvd with hsub | hadd
    · by_contra hne
      have hge := Nat.le_of_dvd (by omega) hsub
      omega
    · have hge := Nat.le_of_dvd (by omega) hadd
      omega
  rcases Nat.le_total b a with hle | hle
  · exact aux hle ha hb heq
  · exact (aux hle hb ha heq.symm).symm

/-- Every place comes up within as many probes as there are places. -/
theorem exists_probe (k start : ℕ) {i : ℕ} (hi : i < 2 ^ k) :
    ∃ n < 2 ^ k, probe (2 ^ k) start n = i := by
  have hpos : 0 < 2 ^ k := Nat.pow_pos (by omega)
  let f : Fin (2 ^ k) → Fin (2 ^ k) := fun n => ⟨probe (2 ^ k) start n, probe_lt hpos _ _⟩
  have hinj : Function.Injective f := by
    intro a b hab
    exact Fin.ext (probe_injective a.isLt b.isLt (congrArg Fin.val hab))
  obtain ⟨n, hn⟩ := (Finite.injective_iff_surjective.mp hinj) ⟨i, hi⟩
  exact ⟨n, n.isLt, congrArg Fin.val hn⟩

/-- The first place does not come up again within as many probes as there are places. -/
theorem probe_ne_start {k start n : ℕ} (hpos : 0 < n) (hn : n < 2 ^ k) :
    probe (2 ^ k) start n ≠ probe (2 ^ k) start 0 := by
  intro heq
  have hzero := probe_injective hn (Nat.pow_pos (by omega)) heq
  omega

/-- Where the search for a place of a kind first stops. -/
theorem exists_first_probe (k start : ℕ) {stop : ℕ → Prop}
    (hsome : ∃ i < 2 ^ k, stop i) :
    ∃ n < 2 ^ k, stop (probe (2 ^ k) start n) ∧
      ∀ s < n, ¬ stop (probe (2 ^ k) start s) := by
  classical
  obtain ⟨i, hi, hstop⟩ := hsome
  obtain ⟨n, hn, rfl⟩ := exists_probe k start hi
  have hex : ∃ n, stop (probe (2 ^ k) start n) := ⟨n, hstop⟩
  refine ⟨Nat.find hex, lt_of_le_of_lt (Nat.find_min' hex hstop) hn, Nat.find_spec hex, ?_⟩
  intro s hs
  exact Nat.find_min hex hs

end SeaStore.Probe
