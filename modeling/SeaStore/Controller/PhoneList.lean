import SeaStore.Block.Format

/-!
The phone list: for each block the nodes that hold it, in a hash table of
pointers to entries. A key is put into the table before its value is stored,
and only where the key was there already does the value follow; a lookup does
not ask whether the key was found.
-/
namespace SeaStore.Controller

open Posix Block

/-- What the list uses of `khash.h`, for iterators and values of these types:
`put` gives the table, an iterator and a return code, and `endOf` is `kh_end`.
Outside the buckets a value can neither be read nor written. -/
structure Khash (Iter V : Type) where
  Table : Type
  init : Table
  endOf : Table → Iter
  put : Table → UInt64 → Table × Iter × Int32
  get : Table → UInt64 → Iter
  value : Table → Iter → Option V
  setValue : Table → Iter → V → Option Table

/-- What its documentation says, when allocation succeeds. The buckets end
where `kh_end` points. -/
structure Khash.Documented {Iter V : Type} (kh : Khash Iter V) : Prop where
  get_init : ∀ key, kh.get kh.init key = kh.endOf kh.init
  put_absent : ∀ table key, kh.get table key = kh.endOf table →
    (kh.put table key).2.2 = 1 ∨ (kh.put table key).2.2 = 2
  put_present : ∀ table key, kh.get table key ≠ kh.endOf table → (kh.put table key).2.2 = 0
  setValue_put : ∀ table key v,
    (kh.setValue (kh.put table key).1 (kh.put table key).2.1 v).isSome
  value_end : ∀ table, kh.value table (kh.endOf table) = none

structure PhoneEntry (Iter : Type) where
  blockId : UInt64
  nodeLen : UInt32
  entry : Iter
  node : List UInt32

/-- What a bucket holds: a null pointer, an entry, or what its memory held when
it was allocated. -/
inductive PhoneSlot (Iter : Type)
  | null
  | entry (e : PhoneEntry Iter)
  | wild

variable {Iter : Type}

structure PhoneList (kh : Khash Iter (PhoneSlot Iter)) where
  nodeCap : UInt32
  header : kh.Table

/-- The larger of the two, in spite of the name. -/
def PhoneList.min (a b : UInt32) : UInt32 := if b < a then a else b

variable {kh : Khash Iter (PhoneSlot Iter)}

def phoneListCreate (kh : Khash Iter (PhoneSlot Iter)) (nodeCap : UInt32) : PhoneList kh :=
  ⟨nodeCap, kh.init⟩

/-- The copy must not go beyond the caller's nodes. A new key keeps its bucket
though its entry is freed. -/
def phoneListPut (list : PhoneList kh) (blockId : UInt64) (node : List UInt32)
    (nodeLen : UInt32) : Option (Int32 × PhoneList kh) := do
  let nodeCount := if 0 < nodeLen then PhoneList.min list.nodeCap nodeLen else list.nodeCap
  if node.length < nodeCount.toNat then none
  let (header, entry, ret) := kh.put list.header blockId
  if ret ≠ 0 then
    return (ret, { list with header := header })
  let header ← kh.setValue header entry
    (.entry ⟨blockId, nodeCount, entry, node.take nodeCount.toNat⟩)
  return (0, { list with header := header })

/-- The return code, the bytes written to `node`, and `ret_node_len` where it is
written. -/
structure PhoneResult where
  ret : Int32
  out : Bytes
  retNodeLen : Option UInt32
  deriving DecidableEq

/-- The number of nodes is taken for a number of bytes. The copy must stay
within the entry and within the caller's buffer. -/
def phoneListGet (list : PhoneList kh) (blockId : UInt64) (nodeLen : UInt32) :
    Option PhoneResult := do
  let k := kh.get list.header blockId
  if nodeLen = 0 then
    return ⟨Int32.ofNat ENOENT, [], none⟩
  match ← kh.value list.header k with
  | .null => return ⟨Int32.ofNat EINVAL, [], none⟩
  | .wild => none
  | .entry e =>
    let nodeCount := PhoneList.min list.nodeCap nodeLen
    if 4 * e.node.length < nodeCount.toNat ∨ 4 * nodeLen.toNat < nodeCount.toNat then none
    return ⟨0, (e.node.flatMap le32).take nodeCount.toNat, some nodeCount⟩

structure NodeArray where
  nodes : List UInt32
  ne_nil : nodes ≠ []
  length_lt : nodes.length < 2 ^ 32

namespace NodeArray

def length (array : NodeArray) : UInt32 := UInt32.ofNat array.nodes.length

theorem toNat_length (array : NodeArray) : array.length.toNat = array.nodes.length := by
  rw [length, UInt32.toNat_ofNat', Nat.mod_eq_of_lt array.length_lt]

theorem length_pos (array : NodeArray) : 0 < array.length := by
  rw [UInt32.lt_iff_toNat_lt, array.toNat_length]
  exact List.length_pos_iff.mpr array.ne_nil

end NodeArray

abbrev PhonePut := UInt64 × NodeArray

/-- The return codes of a sequence of puts, and the list after it. -/
def phonePuts (list : PhoneList kh) : List PhonePut → Option (List Int32 × PhoneList kh)
  | [] => some ([], list)
  | (blockId, array) :: puts => do
    let (ret, list) ← phoneListPut list blockId array.nodes array.length
    let (rets, list) ← phonePuts list puts
    return (ret :: rets, list)

def lastPut (puts : List PhonePut) (blockId : UInt64) : Option NodeArray :=
  (puts.reverse.find? fun put => put.1 = blockId).map Prod.snd

/-- As a map has it: every put returns zero, and a lookup gives the first nodes
of the last put, or fails and writes nothing. -/
def LooksUp (kh : Khash Iter (PhoneSlot Iter)) (nodeCap : UInt32) (puts : List PhonePut)
    (blockId : UInt64) (nodeLen : UInt32) : Prop :=
  ∃ rets list, phonePuts (phoneListCreate kh nodeCap) puts = some (rets, list) ∧
    (∀ ret ∈ rets, ret = 0) ∧
    ∃ result, phoneListGet list blockId nodeLen = some result ∧
      match lastPut puts blockId with
      | some array =>
        let count := Nat.min nodeCap.toNat (Nat.min array.nodes.length nodeLen.toNat)
        result = ⟨0, (array.nodes.take count).flatMap le32, some (UInt32.ofNat count)⟩
      | none => result.ret ≠ 0 ∧ result.out = []

section Lemmas

variable {list : PhoneList kh} {blockId : UInt64}

theorem PhoneList.toNat_min (a b : UInt32) : (PhoneList.min a b).toNat = max a.toNat b.toNat := by
  unfold PhoneList.min
  by_cases hlt : b < a
  · rw [if_pos hlt]
    rw [UInt32.lt_iff_toNat_lt] at hlt
    omega
  · rw [if_neg hlt]
    rw [UInt32.lt_iff_toNat_lt] at hlt
    omega

/-- A put returns zero only for a block that is in the table, and only when it
is given as many nodes as an entry can take. -/
theorem phoneListPut_zero_iff (h : kh.Documented) (array : NodeArray) :
    (∃ list', phoneListPut list blockId array.nodes array.length = some (0, list')) ↔
      kh.get list.header blockId ≠ kh.endOf list.header ∧
        list.nodeCap.toNat ≤ array.nodes.length := by
  have hcount : (if 0 < array.length then PhoneList.min list.nodeCap array.length
      else list.nodeCap).toNat = max list.nodeCap.toNat array.nodes.length := by
    rw [if_pos array.length_pos, PhoneList.toNat_min, array.toNat_length]
  unfold phoneListPut
  simp only [hcount]
  by_cases hshort : array.nodes.length < max list.nodeCap.toNat array.nodes.length
  · refine iff_of_false ?_ (by omega)
    intro hput
    obtain ⟨list', hput⟩ := hput
    simp [hshort] at hput
  · simp only [if_neg hshort]
    by_cases habsent : kh.get list.header blockId = kh.endOf list.header
    · refine iff_of_false ?_ (fun hright => hright.1 habsent)
      intro hput
      obtain ⟨list', hput⟩ := hput
      rcases h.put_absent list.header blockId habsent with hret | hret
      · simp [hret] at hput
      · simp [hret] at hput
    · refine iff_of_true ?_ ⟨habsent, by omega⟩
      obtain ⟨header, hset⟩ := Option.isSome_iff_exists.mp (h.setValue_put list.header blockId
        (.entry ⟨blockId, if 0 < array.length then PhoneList.min list.nodeCap array.length
          else list.nodeCap, (kh.put list.header blockId).2.1,
          array.nodes.take (max list.nodeCap.toNat array.nodes.length)⟩))
      refine ⟨{ list with header := header }, ?_⟩
      simp [h.put_present list.header blockId habsent, hset]

/-- A lookup of a block that is not in the table reads beyond the buckets. -/
theorem phoneListGet_absent (h : kh.Documented)
    (habsent : kh.get list.header blockId = kh.endOf list.header) {nodeLen : UInt32}
    (hlen : 1 ≤ nodeLen) : phoneListGet list blockId nodeLen = none := by
  have hne : nodeLen ≠ 0 := by
    intro hzero
    rw [hzero] at hlen
    exact absurd hlen (by decide)
  unfold phoneListGet
  simp [hne, habsent, h.value_end]

end Lemmas

/-- After no sequence of puts, of one or more nodes each, does the list look any
block up as a map has it: the first put does not return zero, and without a put
there is no bucket that a lookup could read. -/
theorem phoneList_never_looksUp (h : kh.Documented) (nodeCap : UInt32)
    (puts : List PhonePut) (blockId : UInt64) {nodeLen : UInt32} (hlen : 1 ≤ nodeLen) :
    ¬ LooksUp kh nodeCap puts blockId nodeLen := by
  intro hlooks
  obtain ⟨rets, list, hputs, hzero, result, hget, -⟩ := hlooks
  cases puts with
  | nil =>
    obtain ⟨-, rfl⟩ := Prod.mk.inj (Option.some.inj hputs)
    rw [phoneListGet_absent h (h.get_init blockId) hlen] at hget
    exact absurd hget (by simp)
  | cons put puts =>
    obtain ⟨firstId, array⟩ := put
    obtain ⟨⟨ret, list₁⟩, hput, hrest⟩ := Option.bind_eq_some_iff.mp hputs
    obtain ⟨⟨rets', list₂⟩, -, hlast⟩ := Option.bind_eq_some_iff.mp hrest
    obtain ⟨rfl, -⟩ := Prod.mk.inj (Option.some.inj hlast)
    obtain rfl : ret = 0 := hzero ret (List.mem_cons_self ..)
    have hpresent := (phoneListPut_zero_iff h array).mp ⟨list₁, hput⟩
    exact hpresent.1 (h.get_init firstId)

/-- A table that is a list of keys with their values, never out of memory, whose
new buckets hold `fresh`. -/
def bucketKhash (fresh : PhoneSlot ℕ) : Khash ℕ (PhoneSlot ℕ) where
  Table := List (UInt64 × PhoneSlot ℕ)
  init := []
  endOf table := table.length
  put table key :=
    let iter := table.findIdx fun bucket => bucket.1 = key
    if iter < table.length then (table, iter, 0) else (table ++ [(key, fresh)], table.length, 1)
  get table key := table.findIdx fun bucket => bucket.1 = key
  value table iter := (table[iter]?).map Prod.snd
  setValue table iter v :=
    (table[iter]?).map fun bucket => table.set iter (bucket.1, v)

theorem bucketKhash_documented (fresh : PhoneSlot ℕ) : (bucketKhash fresh).Documented where
  get_init key := rfl
  put_absent table key habsent := by
    left
    simp only [bucketKhash] at habsent ⊢
    rw [if_neg (by omega)]
  put_present table key hpresent := by
    simp only [bucketKhash] at hpresent ⊢
    rw [if_pos (lt_of_le_of_ne List.findIdx_le_length hpresent)]
  setValue_put := by
    intro (table : List (UInt64 × PhoneSlot ℕ)) key v
    by_cases hlt : table.findIdx (fun bucket => bucket.1 = key) < table.length
    · simp [bucketKhash, hlt]
    · simp [bucketKhash, hlt]
  value_end := by
    intro (table : List (UInt64 × PhoneSlot ℕ))
    simp [bucketKhash]

def listKhash : Khash ℕ (PhoneSlot ℕ) := bucketKhash .wild

/-- One node, put for block 5 and looked up. -/
theorem phoneList_never_looksUp_one :
    ¬ LooksUp listKhash 3 [(5, ⟨[0x0100007f], List.cons_ne_nil _ _, by decide⟩)] 5 1 :=
  phoneList_never_looksUp (bucketKhash_documented .wild) 3 _ 5 (by decide)

/-- Three nodes are enough for the list, but the put of a new block returns one. -/
theorem phoneList_loses_first_put :
    ¬ LooksUp listKhash 3 [(5, ⟨[1, 2, 3], List.cons_ne_nil _ _, by decide⟩)] 5 3 := by
  intro hlooks
  obtain ⟨rets, list, hputs, hzero, -⟩ := hlooks
  have hrun : (phonePuts (phoneListCreate listKhash 3)
      [(5, ⟨[1, 2, 3], List.cons_ne_nil _ _, by decide⟩)]).map Prod.fst = some [1] := by decide
  rw [hputs] at hrun
  obtain rfl : rets = [1] := Option.some.inj hrun
  exact absurd (hzero 1 (List.mem_singleton_self 1)) (by decide)

end SeaStore.Controller
