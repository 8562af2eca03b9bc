import Mathlib.Data.Finset.Card
import Mathlib.Data.Finset.Range
import Mathlib.Data.Multiset.MapFold

/-!
Entries in numbered slots, some of which are taken. What the taken slots hold is
a multiset, so that an entry may move from slot to slot.
-/
namespace SeaStore.Slots

variable {α : Type} {taken : Finset ℕ} {f g : ℕ → α} {i : ℕ}

/-- What the taken slots hold. -/
def held (f : ℕ → α) (taken : Finset ℕ) : Multiset α := taken.val.map f

theorem mem_held {a : α} : a ∈ held f taken ↔ ∃ i ∈ taken, f i = a := Multiset.mem_map

theorem card_held (f : ℕ → α) (taken : Finset ℕ) : (held f taken).card = taken.card :=
  Multiset.card_map f taken.val

theorem held_congr (heq : ∀ j ∈ taken, g j = f j) : held g taken = held f taken :=
  Multiset.map_congr rfl heq

/-- A free slot is taken. -/
theorem held_insert (hfree : i ∉ taken) (heq : ∀ j ∈ taken, g j = f j) :
    held g (insert i taken) = g i ::ₘ held f taken := by
  rw [held, Finset.insert_val_of_notMem hfree, Multiset.map_cons, ← held, held_congr heq]

/-- The entry of a taken slot is replaced. -/
theorem held_replace (hin : i ∈ taken) (heq : ∀ j ∈ taken, j ≠ i → g j = f j) :
    f i ::ₘ held g taken = g i ::ₘ held f taken := by
  have hfree : i ∉ taken.erase i := Finset.notMem_erase i taken
  have hrest : ∀ j ∈ taken.erase i, g j = f j := by
    intro j hj
    exact heq j (Finset.mem_of_mem_erase hj) (Finset.ne_of_mem_erase hj)
  have hold : held f taken = f i ::ₘ held f (taken.erase i) := by
    rw [← held_insert hfree (fun j _ => rfl), Finset.insert_erase hin]
  have hnew : held g taken = g i ::ₘ held f (taken.erase i) := by
    rw [← held_insert hfree hrest, Finset.insert_erase hin]
  rw [hold, hnew, Multiset.cons_swap]

/-- A taken slot is given up. -/
theorem held_erase (hin : i ∈ taken) : held f taken = f i ::ₘ held f (taken.erase i) := by
  rw [← held_insert (Finset.notMem_erase i taken) (fun j _ => rfl), Finset.insert_erase hin]

/-- Fewer entries than slots leave one free. -/
theorem exists_free {n : ℕ} (hlt : taken.card < n) : ∃ i < n, i ∉ taken := by
  obtain ⟨i, hi, hfree⟩ := Finset.exists_mem_notMem_of_card_lt_card
    (lt_of_lt_of_eq hlt (Finset.card_range n).symm)
  exact ⟨i, Finset.mem_range.mp hi, hfree⟩

end SeaStore.Slots
