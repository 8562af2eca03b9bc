import SeaStore.Posix.Bytes
import Mathlib.Data.List.Flatten

/-!
Byte strings taken apart into elements of one size. Elements lie one after the
other, so that a window of elements is a slice at multiples of the size.
-/
namespace SeaStore.Posix

variable {size : ℕ}

/-- The bytes of elements, one after the other. -/
def elementBytes (elems : List (Vector UInt8 size)) : Bytes := elems.flatMap Vector.toList

/-- The element at the front of a byte string. -/
def firstElement (size : ℕ) (bytes : Bytes) : Vector UInt8 size :=
  Vector.ofFn fun i => bytes.getD i 0

/-- The first `count` elements of a byte string. -/
def elements (size : ℕ) : ℕ → Bytes → List (Vector UInt8 size)
  | 0, _ => []
  | count + 1, bytes => firstElement size bytes :: elements size count (bytes.drop size)

/-- A byte string cut to a whole number of elements. -/
def wholeElements (size : ℕ) (bytes : Bytes) : List (Vector UInt8 size) :=
  elements size (bytes.length / size) bytes

@[simp] theorem elementBytes_nil : elementBytes ([] : List (Vector UInt8 size)) = [] := rfl

@[simp] theorem elementBytes_cons (e : Vector UInt8 size) (rest : List (Vector UInt8 size)) :
    elementBytes (e :: rest) = e.toList ++ elementBytes rest := rfl

@[simp] theorem elementBytes_append (front rest : List (Vector UInt8 size)) :
    elementBytes (front ++ rest) = elementBytes front ++ elementBytes rest :=
  List.flatMap_append

theorem elementBytes_length (elems : List (Vector UInt8 size)) :
    (elementBytes elems).length = size * elems.length := by
  induction elems with
  | nil => rfl
  | cons e rest ih =>
    rw [elementBytes_cons, List.length_append, ih, Vector.length_toList, List.length_cons,
      Nat.mul_succ, Nat.add_comm]

@[simp] theorem elements_length (count : ℕ) (bytes : Bytes) :
    (elements size count bytes).length = count := by
  induction count generalizing bytes with
  | zero => rfl
  | succ count ih => rw [elements, List.length_cons, ih]

theorem firstElement_toList {bytes : Bytes} (h : size ≤ bytes.length) :
    (firstElement size bytes).toList = bytes.take size := by
  apply List.ext_getElem
  · rw [Vector.length_toList, List.length_take, Nat.min_eq_left h]
  · intro i h₁ h₂
    rw [List.length_take] at h₂
    simp [firstElement, show i < bytes.length by omega]

/-- The elements that a byte string is long enough for are its front. -/
theorem elementBytes_elements {count : ℕ} {bytes : Bytes} (h : size * count ≤ bytes.length) :
    elementBytes (elements size count bytes) = bytes.take (size * count) := by
  induction count generalizing bytes with
  | zero => rfl
  | succ count ih =>
    rw [Nat.mul_succ] at h
    have hrest : elementBytes (elements size count (bytes.drop size)) =
        (bytes.drop size).take (size * count) := by
      apply ih
      rw [List.length_drop]
      omega
    rw [elements, elementBytes_cons, hrest, firstElement_toList (by omega), Nat.mul_succ,
      Nat.add_comm, List.take_add]

theorem elementBytes_wholeElements (bytes : Bytes) :
    elementBytes (wholeElements size bytes) = bytes.take (size * (bytes.length / size)) :=
  elementBytes_elements (Nat.mul_div_le _ _)

theorem take_elementBytes (elems : List (Vector UInt8 size)) (count : ℕ) :
    (elementBytes elems).take (size * count) = elementBytes (elems.take count) := by
  induction elems generalizing count with
  | nil => simp
  | cons e rest ih =>
    cases count with
    | zero => simp
    | succ count =>
      have hlen : e.toList.length = size := Vector.length_toList
      have hfront : e.toList.take (size + size * count) = e.toList :=
        List.take_of_length_le (by rw [hlen]; exact Nat.le_add_right _ _)
      rw [elementBytes_cons, Nat.mul_succ, Nat.add_comm, List.take_succ_cons, elementBytes_cons,
        ← ih, List.take_append, hlen, Nat.add_sub_cancel_left, hfront]

theorem drop_elementBytes (elems : List (Vector UInt8 size)) (count : ℕ) :
    (elementBytes elems).drop (size * count) = elementBytes (elems.drop count) := by
  induction elems generalizing count with
  | nil => simp
  | cons e rest ih =>
    cases count with
    | zero => simp
    | succ count =>
      rw [elementBytes_cons, Nat.mul_succ, Nat.add_comm, List.drop_succ_cons, ← ih,
        ← List.drop_drop, List.drop_left' Vector.length_toList]

/-- A slice at multiples of the size is a window of elements. -/
theorem slice_elementBytes (elems : List (Vector UInt8 size)) (start count : ℕ) :
    slice (elementBytes elems) (size * start) (size * count) =
      elementBytes ((elems.drop start).take count) := by
  rw [slice, drop_elementBytes, take_elementBytes]

end SeaStore.Posix
