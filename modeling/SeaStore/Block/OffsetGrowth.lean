import Mathlib.Data.List.Induction
import SeaStore.Block.Batch
import SeaStore.Posix.Run

/-!
The growth of an offset list. Its `size` is in bytes and its count in elements,
so that it counts as full long after its memory is: the growth, which would not
tell the caller where the list has gone to, is never reached before a store
outside the memory.
-/
namespace SeaStore.Block

open Posix

/-- The size that a full list is reallocated with, an `int`. -/
def grownSize (size : UInt32) : Int32 :=
  ((size.toUInt64 - UInt64.ofNat offsetHeaderSize) * 2 +
    UInt64.ofNat offsetHeaderSize).toUInt32.toInt32

/-- A full list after `realloc`: the `size` field is doubled, header and all. -/
def SeaBlockOffset.grow (header : SeaBlockOffset) : SeaBlockOffset where
  size := header.size * 2
  allocated := (grownSize header.size).toInt.toNat
  offset := header.offset

/-- What the caller's pointer points to after an append, none where the list has
moved away from there; no result where the store is outside the memory. -/
def offsetAppendAt (moves : Bool) (header : SeaBlockOffset) (offset : UInt64) :
    Option (Option SeaBlockOffset) :=
  let full := header.size.toNat ≤ header.offset.length
  let header := if full then header.grow else header
  if header.allocated < offsetHeaderSize + 8 * (header.offset.length + 1) then none
  else if full ∧ moves then some none
  else some (some { header with offset := header.offset ++ [offset] })

/-- An append through the caller's pointer, with an offset; a `realloc` in it may
move the list or not. -/
def offsetStep (list : Option SeaBlockOffset) (call : UInt64 × Bool) :
    Option (Option SeaBlockOffset) :=
  match list with
  | none => none
  | some header => offsetAppendAt call.2 header call.1

def seaBlockOffsetCount (header : SeaBlockOffset) : UInt32 := UInt32.ofNat header.offset.length

/-- As it should be after a sequence of appends: all have stored inside the
memory, the `size` field is that of the memory, and the caller finds the offsets. -/
def OffsetsKept (calls : List (UInt64 × Bool)) : Prop :=
  ∃ header, runSteps offsetStep (some seaBlockOffsetMalloc) calls = some (some header) ∧
    header.size.toNat = header.allocated ∧
    (seaBlockOffsetCount header).toNat = calls.length ∧
    ∀ i call, calls[i]? = some call → seaBlockOffsetGet header i = call.1

theorem offsetAppendAt_of_lt {header : SeaBlockOffset} (moves : Bool) (offset : UInt64)
    (hlt : header.offset.length < header.size.toNat) :
    offsetAppendAt moves header offset = (seaBlockOffsetAppend header offset).map some := by
  have hfull : ¬ header.size.toNat ≤ header.offset.length := Nat.not_le.mpr hlt
  unfold offsetAppendAt seaBlockOffsetAppend
  simp only [hfull, if_false, false_and]
  split
  · rfl
  · rfl

theorem offsetRun_fit {calls : List (UInt64 × Bool)} (hfit : calls.length ≤ incrementSize) :
    runSteps offsetStep (some seaBlockOffsetMalloc) calls =
      some (some { seaBlockOffsetMalloc with offset := calls.map Prod.fst }) := by
  induction calls using List.reverseRecOn with
  | nil => rfl
  | append_singleton past call ih =>
    rw [List.length_append, List.length_singleton] at hfit
    have hlen : (past.map Prod.fst).length < incrementSize := by
      rw [List.length_map]
      omega
    have hlt : (past.map Prod.fst).length < seaBlockOffsetMalloc.size.toNat :=
      Nat.lt_of_lt_of_le hlen (by decide)
    have hfitOne := @offsetAppend_fit
      { seaBlockOffsetMalloc with offset := past.map Prod.fst } call.1 rfl rfl hlen
    rw [runSteps_append, ih (by omega), Option.bind_some, runSteps, offsetStep,
      offsetAppendAt_of_lt _ _ hlt, hfitOne]
    simp [runSteps]

/-- One more is stored outside the memory, for the list is not full yet. -/
theorem offsetRun_overflow {calls : List (UInt64 × Bool)} (hlong : incrementSize < calls.length) :
    runSteps offsetStep (some seaBlockOffsetMalloc) calls = none := by
  have hlen : (calls.take incrementSize).length = incrementSize :=
    List.length_take_of_le (Nat.le_of_lt hlong)
  have hfirst := offsetRun_fit (Nat.le_of_eq hlen)
  obtain ⟨call, rest, hrest⟩ : ∃ call rest, calls.drop incrementSize = call :: rest :=
    List.exists_cons_of_ne_nil (by simpa using hlong)
  have hmap : ((calls.take incrementSize).map Prod.fst).length = incrementSize := by
    rw [List.length_map, hlen]
  have hstep : offsetAppendAt call.2
      { seaBlockOffsetMalloc with offset := (calls.take incrementSize).map Prod.fst } call.1 =
        none := by
    rw [offsetAppendAt_of_lt]
    · unfold seaBlockOffsetAppend
      simp only [hmap]
      rfl
    · simp only [hmap]
      decide
  rw [← List.take_append_drop incrementSize calls, runSteps_append, hfirst, hrest,
    Option.bind_some, runSteps, offsetStep, hstep]
  rfl

/-- An offset list works for as many appends as it is made for, and for no more. -/
theorem offsetsKept_iff (calls : List (UInt64 × Bool)) :
    OffsetsKept calls ↔ calls.length ≤ incrementSize := by
  constructor
  · intro hkept
    obtain ⟨header, hrun, -⟩ := hkept
    by_contra hlong
    rw [offsetRun_overflow (Nat.lt_of_not_le hlong)] at hrun
    exact absurd hrun (by simp)
  · intro hfit
    have hsize : seaBlockOffsetMalloc.size.toNat = seaBlockOffsetMalloc.allocated := by decide
    refine ⟨_, offsetRun_fit hfit, hsize, ?_, ?_⟩
    · have hle : calls.length ≤ 1280 := hfit
      rw [seaBlockOffsetCount, List.length_map, UInt32.toNat_ofNat']
      omega
    · intro i call hcall
      rw [seaBlockOffsetGet, List.getD_eq_getElem?_getD, List.getElem?_map, hcall]
      rfl

/-- The next append after 1280 stores behind the memory. -/
theorem offsetsKept_fails_next :
    runSteps offsetStep (some seaBlockOffsetMalloc) (List.replicate 1281 (7, false)) = none ∧
      ¬ OffsetsKept (List.replicate 1281 (7, false)) := by
  have hrun : runSteps offsetStep (some seaBlockOffsetMalloc) (List.replicate 1281 (7, false)) =
      none := by
    apply offsetRun_overflow
    rw [List.length_replicate, incrementSize]
    omega
  refine ⟨hrun, ?_⟩
  intro hkept
  obtain ⟨header, hdone, -⟩ := hkept
  rw [hrun] at hdone
  exact absurd hdone (by simp)

end SeaStore.Block
