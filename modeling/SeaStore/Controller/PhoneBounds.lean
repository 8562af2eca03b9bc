import SeaStore.Controller.PhoneList

/-!
The arrays around the phone list: the nodes that a put reads, the nodes that an
entry holds, and the nodes that a lookup writes. `min` is the larger of two
numbers, and a lookup copies bytes where it counts nodes.
-/
namespace SeaStore.Controller

open Posix Block

variable {Iter : Type} {kh : Khash Iter (PhoneSlot Iter)}

/-- What else the documentation of `khash.h` says: a new table has no values, a
put makes none, and `kh_value` is one place. What a new bucket holds is open. -/
structure Khash.Stores (kh : Khash Iter (PhoneSlot Iter)) : Prop extends kh.Documented where
  value_init : ∀ iter e, kh.value kh.init iter ≠ some (.entry e)
  value_put : ∀ table key iter e, kh.value (kh.put table key).1 iter = some (.entry e) →
    ∃ iter', kh.value table iter' = some (.entry e)
  value_setValue : ∀ table iter v table', kh.setValue table iter v = some table' →
    kh.value table' iter = some v ∧
      ∀ iter', iter' ≠ iter → kh.value table' iter' = kh.value table iter'

/-- Every entry says how many nodes it holds, and these are no more than the
list allows. -/
def EntriesHold (list : PhoneList kh) : Prop :=
  ∀ iter e, kh.value list.header iter = some (.entry e) →
    e.nodeLen.toNat = e.node.length ∧ e.node.length ≤ list.nodeCap.toNat

/-- A put of an array, or a lookup with room for one or more nodes. -/
inductive PhoneCall
  | put (blockId : UInt64) (array : NodeArray)
  | get (blockId : UInt64) (nodeLen : UInt32) (pos : 1 ≤ nodeLen)

/-- As it should be: a put stays within the array it is given, a lookup within the
entry and the output, and the number that it reports is that of the whole nodes
it has written. -/
def StaysWithin (list : PhoneList kh) (call : PhoneCall) (list' : PhoneList kh) : Prop :=
  match call with
  | .put blockId array =>
    ∃ ret, phoneListPut list blockId array.nodes array.length = some (ret, list')
  | .get blockId nodeLen _ =>
    list' = list ∧ ∃ result, phoneListGet list blockId nodeLen = some result ∧
      result.out.length ≤ 4 * nodeLen.toNat ∧
      ∀ n, result.retNodeLen = some n → n.toNat = result.out.length / 4

/-- Each call of a run stays within its arrays, and leaves entries that hold
what they say. -/
def CallsStayWithin : PhoneList kh → List PhoneCall → Prop
  | _, [] => True
  | list, call :: calls =>
    ∃ list', StaysWithin list call list' ∧ EntriesHold list' ∧ CallsStayWithin list' calls

/-- What makes a call fit the state before it: a put is of as many nodes as the
list allows, or more when its block is not in the table; a lookup finds a null
pointer. -/
def CallFits (list : PhoneList kh) : PhoneCall → Prop
  | .put blockId array =>
    list.nodeCap.toNat ≤ array.nodes.length ∧
      (kh.get list.header blockId ≠ kh.endOf list.header →
        array.nodes.length = list.nodeCap.toNat)
  | .get blockId _ _ => kh.value list.header (kh.get list.header blockId) = some .null

def afterCall (list : PhoneList kh) : PhoneCall → Option (PhoneList kh)
  | .put blockId array => (phoneListPut list blockId array.nodes array.length).map Prod.snd
  | .get .. => some list

def CallsFit : PhoneList kh → List PhoneCall → Prop
  | _, [] => True
  | list, call :: calls =>
    CallFits list call ∧ ∀ list', afterCall list call = some list' → CallsFit list' calls

section Steps

variable {list : PhoneList kh} {blockId : UInt64}

/-- A put reads as many nodes as the list allows, if it is given fewer. -/
theorem phoneListPut_short {array : NodeArray}
    (hshort : array.nodes.length < list.nodeCap.toNat) :
    phoneListPut list blockId array.nodes array.length = none := by
  have hcount : (PhoneList.min list.nodeCap array.length).toNat = list.nodeCap.toNat := by
    rw [PhoneList.toNat_min, array.toNat_length]
    omega
  unfold phoneListPut
  simp [array.length_pos, hcount, hshort]

/-- What a put does with an array that is long enough: a new block gets a bucket
without a value, a known one an entry of the whole array. -/
theorem phoneListPut_of_le {array : NodeArray} (hle : list.nodeCap.toNat ≤ array.nodes.length) :
    phoneListPut list blockId array.nodes array.length =
      if (kh.put list.header blockId).2.2 ≠ 0 then
        some ((kh.put list.header blockId).2.2,
          { list with header := (kh.put list.header blockId).1 })
      else
        (kh.setValue (kh.put list.header blockId).1 (kh.put list.header blockId).2.1
          (.entry ⟨blockId, array.length, (kh.put list.header blockId).2.1, array.nodes⟩)).map
            fun header => (0, { list with header := header }) := by
  have hcount : PhoneList.min list.nodeCap array.length = array.length := by
    apply UInt32.toNat_inj.mp
    rw [PhoneList.toNat_min, array.toNat_length]
    omega
  have htake : array.nodes.take array.length.toNat = array.nodes := by
    rw [array.toNat_length, List.take_length]
  have hlong : ¬ array.nodes.length < array.length.toNat := by
    rw [array.toNat_length]
    omega
  unfold phoneListPut
  simp only [array.length_pos, if_true, hcount, hlong, if_false, htake, Option.bind_eq_bind]
  by_cases hret : (kh.put list.header blockId).2.2 = 0
  · simp only [hret, ne_eq, not_true_eq_false, if_false, Option.map_eq_bind]
    rfl
  · simp [hret]

theorem entriesHold_put (h : kh.Stores) (hold : EntriesHold list) :
    EntriesHold { list with header := (kh.put list.header blockId).1 } := by
  intro iter e hvalue
  obtain ⟨iter', hvalue'⟩ := h.value_put list.header blockId iter e hvalue
  exact hold iter' e hvalue'

/-- A new entry leaves a list whose entries hold what they say only if it does, too. -/
theorem entriesHold_setValue_iff (h : kh.Stores) (hold : EntriesHold list) {iter : Iter}
    {e : PhoneEntry Iter} {header : kh.Table}
    (hset : kh.setValue list.header iter (.entry e) = some header) :
    EntriesHold { list with header := header } ↔
      e.nodeLen.toNat = e.node.length ∧ e.node.length ≤ list.nodeCap.toNat := by
  obtain ⟨hself, hother⟩ := h.value_setValue _ _ _ _ hset
  constructor
  · intro hafter
    exact hafter iter e hself
  · intro hnew iter' e' hvalue
    by_cases hiter : iter' = iter
    · subst hiter
      obtain rfl : e = e' := PhoneSlot.entry.inj (Option.some.inj (hself.symm.trans hvalue))
      exact hnew
    · rw [hother iter' hiter] at hvalue
      exact hold iter' e' hvalue

/-- A lookup that copies anything reports bytes for nodes, and one without an
entry reads what is not there; only a null pointer ends it before. -/
theorem staysWithin_get_iff (hcap : 1 ≤ list.nodeCap.toNat) {nodeLen : UInt32}
    (hlen : 1 ≤ nodeLen) {list' : PhoneList kh} :
    StaysWithin list (.get blockId nodeLen hlen) list' ↔
      list' = list ∧ kh.value list.header (kh.get list.header blockId) = some .null := by
  have hne : nodeLen ≠ 0 := by
    intro hzero
    subst hzero
    exact absurd hlen (by decide)
  refine and_congr_right fun _ => ?_
  unfold phoneListGet
  simp only [hne, if_false]
  rcases kh.value list.header (kh.get list.header blockId) with _ | _ | e | _
  · simp
  · simp
  · refine iff_of_false ?_ (by simp)
    simp only [Option.bind_eq_bind, Option.bind_some]
    intro hwithin
    obtain ⟨result, hget, -, hreport⟩ := hwithin
    split at hget
    · exact absurd hget (by simp)
    · obtain rfl := Option.some.inj hget
      have hcount := hreport _ rfl
      rw [List.length_take, PhoneList.toNat_min] at hcount
      omega
  · simp

/-- One call does as it should in exactly the states that it fits. -/
theorem exists_staysWithin_iff (h : kh.Stores) (hcap : 1 ≤ list.nodeCap.toNat)
    (hold : EntriesHold list) (call : PhoneCall) :
    (∃ list', StaysWithin list call list' ∧ EntriesHold list') ↔ CallFits list call := by
  cases call with
  | get blockId nodeLen pos =>
    simp only [staysWithin_get_iff hcap pos, CallFits]
    constructor
    · intro hstays
      obtain ⟨list', ⟨-, hnull⟩, -⟩ := hstays
      exact hnull
    · intro hnull
      exact ⟨list, ⟨rfl, hnull⟩, hold⟩
  | put blockId array =>
    by_cases hle : list.nodeCap.toNat ≤ array.nodes.length
    · simp only [StaysWithin, phoneListPut_of_le hle, CallFits, hle, true_and]
      have hput : EntriesHold { list with header := (kh.put list.header blockId).1 } :=
        entriesHold_put h hold
      by_cases habsent : kh.get list.header blockId = kh.endOf list.header
      · have hret : (kh.put list.header blockId).2.2 ≠ 0 := by
          rcases h.put_absent list.header blockId habsent with hone | htwo
          · rw [hone]
            decide
          · rw [htwo]
            decide
        refine iff_of_true ⟨_, ⟨_, if_pos hret⟩, hput⟩ (fun hpresent => absurd habsent hpresent)
      · have hret : (kh.put list.header blockId).2.2 = 0 :=
          h.put_present list.header blockId habsent
        obtain ⟨header, hset⟩ := Option.isSome_iff_exists.mp (h.setValue_put list.header blockId
          (.entry ⟨blockId, array.length, (kh.put list.header blockId).2.1, array.nodes⟩))
        have hholds := entriesHold_setValue_iff h hput hset
        simp only [hret, ne_eq, not_true_eq_false, if_false, hset, Option.map_some,
          Option.some.injEq, Prod.mk.injEq, habsent, not_false_eq_true, true_imp_iff]
        rw [array.toNat_length] at hholds
        constructor
        · intro hstays
          obtain ⟨list', ⟨ret, -, rfl⟩, hafter⟩ := hstays
          exact Nat.le_antisymm (hholds.mp hafter).2 hle
        · intro hexact
          exact ⟨_, ⟨0, rfl, rfl⟩, hholds.mpr ⟨rfl, Nat.le_of_eq hexact⟩⟩
    · have hnone : phoneListPut list blockId array.nodes array.length = none :=
        phoneListPut_short (Nat.lt_of_not_le hle)
      simp only [StaysWithin, hnone, CallFits, hle, false_and, iff_false]
      intro hstays
      obtain ⟨list', ⟨ret, hput⟩, -⟩ := hstays
      exact absurd hput (by simp)

theorem afterCall_of_staysWithin {call : PhoneCall} {list' : PhoneList kh}
    (hstays : StaysWithin list call list') : afterCall list call = some list' := by
  cases call with
  | put blockId array =>
    obtain ⟨ret, hput⟩ := hstays
    simp [afterCall, hput]
  | get blockId nodeLen pos => rw [hstays.1, afterCall]

theorem afterCall_nodeCap {call : PhoneCall} {list' : PhoneList kh}
    (hafter : afterCall list call = some list') : list'.nodeCap = list.nodeCap := by
  cases call with
  | get blockId nodeLen pos => rw [← Option.some.inj hafter]
  | put blockId array =>
    obtain ⟨⟨ret, list''⟩, hput, rfl⟩ := Option.map_eq_some_iff.mp hafter
    by_cases hle : list.nodeCap.toNat ≤ array.nodes.length
    · rw [phoneListPut_of_le hle] at hput
      split at hput
      · obtain ⟨-, rfl⟩ := Prod.mk.inj (Option.some.inj hput)
        rfl
      · obtain ⟨header, -, heq⟩ := Option.map_eq_some_iff.mp hput
        obtain ⟨-, rfl⟩ := Prod.mk.inj heq
        rfl
    · rw [phoneListPut_short (Nat.lt_of_not_le hle)] at hput
      exact absurd hput (by simp)

theorem callsStayWithin_iff (h : kh.Stores) (hcap : 1 ≤ list.nodeCap.toNat)
    (hold : EntriesHold list) (calls : List PhoneCall) :
    CallsStayWithin list calls ↔ CallsFit list calls := by
  induction calls generalizing list with
  | nil => exact Iff.rfl
  | cons call calls ih =>
    constructor
    · intro hwithin
      obtain ⟨list₁, hstays, hold₁, hrest⟩ := hwithin
      refine ⟨(exists_staysWithin_iff h hcap hold call).mp ⟨list₁, hstays, hold₁⟩, ?_⟩
      intro list₂ hafter
      have hsame := afterCall_of_staysWithin hstays
      obtain rfl := Option.some.inj (hafter.symm.trans hsame)
      exact (ih (by rwa [afterCall_nodeCap hsame]) hold₁).mp hrest
    · intro hcalls
      obtain ⟨hfits, hrest⟩ := hcalls
      obtain ⟨list₁, hstays, hold₁⟩ := (exists_staysWithin_iff h hcap hold call).mpr hfits
      have hafter := afterCall_of_staysWithin hstays
      exact ⟨list₁, hstays, hold₁,
        (ih (by rwa [afterCall_nodeCap hafter]) hold₁).mpr (hrest list₁ hafter)⟩

end Steps

theorem entriesHold_create (h : kh.Stores) (nodeCap : UInt32) :
    EntriesHold (phoneListCreate kh nodeCap) := by
  intro iter e hvalue
  exact absurd hvalue (h.value_init iter e)

/-- From a new list on, the calls stay within their arrays exactly as long as
each fits the state before it. -/
theorem phoneCalls_stayWithin_iff (h : kh.Stores) {nodeCap : UInt32} (hcap : 1 ≤ nodeCap)
    (calls : List PhoneCall) :
    CallsStayWithin (phoneListCreate kh nodeCap) calls ↔
      CallsFit (phoneListCreate kh nodeCap) calls := by
  have hpos : 1 ≤ nodeCap.toNat := UInt32.le_iff_toNat_le.mp hcap
  exact callsStayWithin_iff h hpos (entriesHold_create h nodeCap) calls

theorem bucketKhash_stores {fresh : PhoneSlot ℕ} (hfresh : ∀ e, fresh ≠ .entry e) :
    (bucketKhash fresh).Stores where
  toDocumented := bucketKhash_documented fresh
  value_init := by
    intro iter e
    simp [bucketKhash]
  value_put := by
    intro (table : List (UInt64 × PhoneSlot ℕ)) key (iter : ℕ) e hvalue
    refine ⟨iter, ?_⟩
    by_cases hlt : table.findIdx (fun bucket => bucket.1 = key) < table.length
    · simpa [bucketKhash, hlt] using hvalue
    · -- the new bucket is not an entry
      simp only [bucketKhash, hlt, if_false, List.getElem?_append] at hvalue ⊢
      by_cases hiter : iter < table.length
      · rwa [if_pos hiter] at hvalue
      · rw [if_neg hiter, List.getElem?_singleton] at hvalue
        split at hvalue
        · exact absurd (Option.some.inj hvalue) (hfresh e)
        · exact absurd hvalue (by simp)
  value_setValue := by
    intro (table : List (UInt64 × PhoneSlot ℕ)) (iter : ℕ) v table' hset
    obtain ⟨bucket, hbucket, rfl⟩ := Option.map_eq_some_iff.mp hset
    obtain ⟨hlt, -⟩ := List.getElem?_eq_some_iff.mp hbucket
    refine ⟨by simp [bucketKhash, hlt], ?_⟩
    intro (iter' : ℕ) hne
    simp [bucketKhash, List.getElem?_set_ne (Ne.symm hne)]

theorem length_one (a : UInt32) : [a].length < 2 ^ 32 := by simp

theorem length_three (a b c : UInt32) : [a, b, c].length < 2 ^ 32 := by simp

def threeNodes (a b c : UInt32) : NodeArray :=
  ⟨[a, b, c], List.cons_ne_nil _ _, length_three a b c⟩

/-- Three nodes put for one block, looked up while its bucket holds a null pointer,
and put again. -/
theorem phoneCalls_stayWithin_twice :
    CallsStayWithin (phoneListCreate (bucketKhash .null) 3)
      [.put 5 (threeNodes 1 2 3), .get 5 3 (by decide), .put 5 (threeNodes 4 5 6)] := by
  have hstores : (bucketKhash .null).Stores := bucketKhash_stores (by simp)
  refine (phoneCalls_stayWithin_iff hstores (by decide) _).mpr ?_
  refine ⟨⟨by decide, fun hpresent => absurd rfl hpresent⟩, ?_⟩
  intro list₁ hafter
  obtain rfl : (⟨3, [(5, .null)]⟩ : PhoneList (bucketKhash .null)) = list₁ :=
    Option.some.inj hafter
  refine ⟨rfl, ?_⟩
  intro list₂ hafter
  obtain rfl : (⟨3, [(5, .null)]⟩ : PhoneList (bucketKhash .null)) = list₂ :=
    Option.some.inj hafter
  exact ⟨⟨by decide, fun _ => rfl⟩, fun _ _ => trivial⟩

/-- The one node of a local write is read as three. -/
theorem phoneCalls_not_stayWithin :
    ¬ CallsStayWithin (phoneListCreate listKhash 3)
      [.put 5 ⟨[0x0100007f], List.cons_ne_nil _ _, length_one _⟩] := by
  intro hwithin
  obtain ⟨list', ⟨ret, hput⟩, -⟩ := hwithin
  have hnone : phoneListPut (phoneListCreate listKhash 3) 5 [0x0100007f] 1 = none := by decide
  exact absurd (hput.symm.trans hnone) (by simp)

end SeaStore.Controller
