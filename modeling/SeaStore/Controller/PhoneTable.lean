import SeaStore.Hash.MapRun
import SeaStore.Controller.PhoneList

/-!
The phone list over the table of `khash.h` itself. Whatever the list answers
over a plain list of keys it answers over the table too, through every rehash;
where nothing is said of a bucket, the table may hold an old pointer there.
-/
namespace SeaStore.Controller

open Posix Hash

/-- Memory is never short; what it held is not known. -/
def plentyOfMemory : Alloc UInt64 (PhoneSlot UInt32) where
  flags := true
  keys := true
  vals := true
  cutKeys := true
  cutVals := true
  key _ := 0
  val _ := .wild

/-- `khash_t(64)`. A put without an end leaves no bucket to write to. -/
def khash64 : Khash UInt32 (PhoneSlot UInt32) where
  Table := KHash UInt64 (PhoneSlot UInt32)
  init := khInit
  endOf := khEnd
  put h key :=
    match khPut khInt64HashFunc plentyOfMemory h key with
    | some (x, ret, h) => (h, x, ret)
    | none => (khInit, 0, 0)
  get h key := (khGet khInt64HashFunc h key).getD (khEnd h)
  value := khValue
  setValue := khSetValue

/-- What the list of keys has for a key. -/
def slotOf (table : List (UInt64 × PhoneSlot ℕ)) (key : UInt64) : Option (PhoneSlot ℕ) :=
  (table[table.findIdx fun bucket => bucket.1 = key]?).map Prod.snd

/-- A slot of the list of keys and the table's value for the same key. -/
def SameSlot : Option (PhoneSlot ℕ) → Option (PhoneSlot UInt32) → Prop
  | none, value => value = none
  | some .null, value => value = some .null
  | some (.entry e), value => ∃ e', value = some (.entry e') ∧ e'.node = e.node
  | some .wild, value => value.isSome

/-- The table holds the same keys, with the same nodes where they are known. -/
structure Agrees (table : List (UInt64 × PhoneSlot ℕ)) (h : KHash UInt64 (PhoneSlot UInt32)) :
    Prop where
  valid : Valid khInt64HashFunc h
  undeleted : h.Undeleted
  size : h.size.toNat = table.length
  slots : ∃ m, Holds m h ∧ ∀ key, SameSlot (slotOf table key) (m key)

section SlotOf

variable {table : List (UInt64 × PhoneSlot ℕ)} {key : UInt64}

theorem slotOf_cons (bucket : UInt64 × PhoneSlot ℕ) (table : List (UInt64 × PhoneSlot ℕ))
    (key : UInt64) :
    slotOf (bucket :: table) key = if bucket.1 = key then some bucket.2 else slotOf table key := by
  unfold slotOf
  rw [List.findIdx_cons]
  by_cases heq : bucket.1 = key
  · simp [heq]
  · simp [heq]

theorem slotOf_isSome_iff :
    (slotOf table key).isSome ↔
      table.findIdx (fun bucket => bucket.1 = key) < table.length := by
  unfold slotOf
  simp

theorem slotOf_append (hnone : slotOf table key = none) (s : PhoneSlot ℕ) (key' : UInt64) :
    slotOf (table ++ [(key, s)]) key' = if key' = key then some s else slotOf table key' := by
  induction table with
  | nil =>
    rw [List.nil_append, slotOf_cons]
    exact if_congr eq_comm rfl rfl
  | cons bucket table ih =>
    rw [slotOf_cons] at hnone
    rw [List.cons_append, slotOf_cons, slotOf_cons]
    by_cases hfirst : bucket.1 = key
    · rw [if_pos hfirst] at hnone
      exact absurd hnone (by simp)
    · rw [if_neg hfirst] at hnone
      rw [ih hnone]
      by_cases heq : key' = key
      · rw [if_pos heq, if_pos heq, if_neg (heq.symm ▸ hfirst)]
      · rw [if_neg heq, if_neg heq]

theorem slotOf_setValue {s : PhoneSlot ℕ} (table' : List (UInt64 × PhoneSlot ℕ))
    (hset : listKhash.setValue table (table.findIdx fun bucket => bucket.1 = key) s = some table') :
    table'.length = table.length ∧
      ∀ key', slotOf table' key' = if key' = key then some s else slotOf table key' := by
  induction table generalizing table' with
  | nil => exact absurd hset (by simp [listKhash, bucketKhash])
  | cons bucket table ih =>
    simp only [listKhash, bucketKhash] at hset ih
    rw [List.findIdx_cons] at hset
    by_cases hfirst : bucket.1 = key
    · simp only [hfirst, decide_true, cond_true, List.getElem?_cons_zero, Option.map_some,
        List.set_cons_zero, Option.some.injEq] at hset
      subst hset
      refine ⟨rfl, fun key' => ?_⟩
      rw [slotOf_cons, slotOf_cons, hfirst]
      by_cases heq : key' = key
      · rw [if_pos heq.symm, if_pos heq]
      · rw [if_neg (Ne.symm heq), if_neg heq, if_neg (Ne.symm heq)]
    · simp only [hfirst, decide_false, cond_false, List.getElem?_cons_succ, List.set_cons_succ]
        at hset
      obtain ⟨bucket', hget, hcons⟩ := Option.map_eq_some_iff.mp hset
      obtain ⟨hlen, hslots⟩ := ih (table.set
        (table.findIdx fun bucket => bucket.1 = key) (bucket'.1, s)) (by rw [hget]; rfl)
      subst hcons
      refine ⟨by rw [List.length_cons, List.length_cons, hlen], fun key' => ?_⟩
      rw [slotOf_cons, slotOf_cons, hslots key']
      by_cases heq : key' = key
      · rw [if_pos heq, if_pos heq, if_neg (heq.symm ▸ hfirst)]
      · rw [if_neg heq, if_neg heq]

end SlotOf

section Agrees

variable {table : List (UInt64 × PhoneSlot ℕ)} {h : KHash UInt64 (PhoneSlot UInt32)}

theorem sameSlot_isSome {s : Option (PhoneSlot ℕ)} {value : Option (PhoneSlot UInt32)}
    (hsame : SameSlot s value) : value.isSome = s.isSome := by
  cases s with
  | none =>
    rw [show value = none from hsame]
    rfl
  | some s =>
    cases s with
    | null =>
      rw [show value = some .null from hsame]
      rfl
    | entry e =>
      obtain ⟨e', rfl, -⟩ := hsame
      rfl
    | wild => exact hsame

theorem agrees_init : Agrees listKhash.init khash64.init where
  valid := khInit_valid
  undeleted := rfl
  size := rfl
  slots := by
    refine ⟨fun _ => none, ?_, fun _ => rfl⟩
    intro key v
    simp [khash64, khInit, KHash.entries, liveSet, Slots.held]

/-- A put into both, as far as the bucket goes. -/
theorem Agrees.put (hag : Agrees table h) (hsize : table.length < 2 ^ 30) (key : UInt64) :
    ∃ x h', khash64.put h key = (h', x, (listKhash.put table key).2.2) ∧
      Agrees (listKhash.put table key).1 h' ∧
      ((listKhash.put table key).2.2 = 0 → x.toNat ∈ liveSet h'.flags h'.nBuckets.toNat ∧
        h'.keys[x.toNat]? = some key) := by
  obtain ⟨m, hm, hslots⟩ := hag.slots
  obtain ⟨x, ret, h', hput, hv', hundel, hcases⟩ := khPut_eq hag.valid plentyOfMemory key
    (by rw [hag.size]; exact hsize)
  obtain ⟨hne, hundel'⟩ := hundel hag.undeleted
  have hkey := sameSlot_isSome (hslots key)
  have hreal : khash64.put h key = (h', x, ret) := by
    simp only [khash64, hput]
  rcases hcases with ⟨-, hshort, -⟩ | ⟨rfl, hx, hxkey, hsame⟩ |
      ⟨hret, hx, hxkey, habsent, v, -, hcons⟩
  · exact absurd hshort (by simp [plentyOfMemory])
  · -- the key is in both
    have hsome : (slotOf table key).isSome := by
      obtain ⟨v, -, hval⟩ := (hm.congr hsame).of_live hv' hx hxkey
      rw [← hkey, hval]
      rfl
    have hlist : listKhash.put table key =
        (table, table.findIdx fun bucket => bucket.1 = key, 0) :=
      if_pos (slotOf_isSome_iff.mp hsome)
    refine ⟨x, h', by rw [hlist]; exact hreal, ?_, fun _ => ⟨hx, hxkey⟩⟩
    rw [hlist]
    refine ⟨hv', hundel', ?_, m, hm.congr hsame, hslots⟩
    rw [← hv'.card_entries, hsame, hag.valid.card_entries, hag.size]
  · -- the key is in neither
    have hmnone : m key = none := (hm.eq_none_iff hag.valid).mpr habsent
    have hnone : slotOf table key = none := by
      rw [hmnone] at hkey
      exact Option.not_isSome_iff_eq_none.mp (by rw [← hkey]; simp)
    have hlist : listKhash.put table key = (table ++ [(key, .wild)], table.length, 1) := by
      refine if_neg fun hlt => ?_
      rw [← slotOf_isSome_iff, hnone] at hlt
      exact absurd hlt (by simp)
    obtain rfl : ret = 1 := hret.resolve_right hne
    have hag' : Agrees (table ++ [(key, .wild)]) h' := by
      refine ⟨hv', hundel', ?_, Function.update m key (some v),
        hm.update hv' (a := some v) (fun key' w hne' => by rw [Multiset.mem_cons]; simp [hne'])
          hcons, fun key' => ?_⟩
      · rw [← hv'.card_entries, hcons, Multiset.card_cons, hag.valid.card_entries, hag.size,
          List.length_append]
        rfl
      · rw [slotOf_append hnone]
        by_cases heq : key' = key
        · rw [heq, if_pos rfl, Function.update_self]
          rfl
        · rw [if_neg heq, Function.update_of_ne heq]
          exact hslots key'
    refine ⟨x, h', by rw [hlist]; exact hreal, by rw [hlist]; exact hag', fun hzero => ?_⟩
    rw [hlist] at hzero
    exact absurd (show (1 : Int32) = 0 from hzero) (by decide)

/-- The value of a key that is there is written in both. -/
theorem Agrees.setValue (hag : Agrees table h) {key : UInt64} {x : UInt32}
    {table' : List (UInt64 × PhoneSlot ℕ)} {e : PhoneEntry ℕ} (e' : PhoneEntry UInt32)
    (hx : x.toNat ∈ liveSet h.flags h.nBuckets.toNat) (hkey : h.keys[x.toNat]? = some key)
    (hnode : e'.node = e.node)
    (hset : listKhash.setValue table (table.findIdx fun bucket => bucket.1 = key) (.entry e) =
      some table') :
    ∃ h', khash64.setValue h x (.entry e') = some h' ∧ Agrees table' h' := by
  obtain ⟨m, hm, hslots⟩ := hag.slots
  obtain ⟨h', hwrite, hv', -, -, -, hentries⟩ := khSetValue_eq hag.valid hx (.entry e')
  obtain ⟨v, hval, hold⟩ := hm.of_live hag.valid hx hkey
  obtain ⟨rest, hrest⟩ := Multiset.exists_cons_of_mem ((hm key v).mp hold)
  rw [hkey, hval, hrest, Multiset.cons_swap, Multiset.cons_inj_right] at hentries
  obtain ⟨hlen, hslots'⟩ := slotOf_setValue _ hset
  have hsize : h'.size = h.size := by
    simp only [khSetValue, Option.map_eq_some_iff] at hwrite
    obtain ⟨w, -, rfl⟩ := hwrite
    rfl
  have hocc : h'.nOccupied = h.nOccupied := by
    simp only [khSetValue, Option.map_eq_some_iff] at hwrite
    obtain ⟨w, -, rfl⟩ := hwrite
    rfl
  refine ⟨h', hwrite, hv', hocc.trans (hag.undeleted.trans hsize.symm),
    by rw [hsize, hag.size, hlen], Function.update m key (some (.entry e')),
    hm.update hv' (a := some v) (fun _ _ _ => by rw [hrest]) hentries, fun key' => ?_⟩
  rw [hslots' key']
  by_cases heq : key' = key
  · rw [heq, if_pos rfl, Function.update_self]
    exact ⟨e', rfl, hnode⟩
  · rw [if_neg heq, Function.update_of_ne heq]
    exact hslots key'

/-- A lookup in both: of a key that is there. -/
theorem Agrees.value (hag : Agrees table h) {key : UInt64} {s : PhoneSlot ℕ}
    (hslot : slotOf table key = some s) :
    SameSlot (some s) (khash64.value h (khash64.get h key)) := by
  obtain ⟨m, hm, hslots⟩ := hag.slots
  have hsame := hslots key
  rw [hslot] at hsame
  obtain ⟨x, hget, hcases⟩ := khGet_eq hag.valid key
  rcases hcases with ⟨hx, hkey⟩ | ⟨-, habsent⟩
  · obtain ⟨v, hval, hold⟩ := hm.of_live hag.valid hx hkey
    have hreal : khash64.value h (khash64.get h key) = some v := by
      simp only [khash64, hget, Option.getD_some]
      exact hval
    rw [hreal, ← hold]
    exact hsame
  · have hnone := (hm.eq_none_iff hag.valid).mpr ((absent_iff h key).mp habsent)
    have hsome := sameSlot_isSome hsame
    rw [hnone] at hsome
    exact absurd hsome (by simp)

end Agrees

section Lists

variable {list list₁ : PhoneList listKhash} {list' : PhoneList khash64}

/-- A put into the list over keys is a put into the one over the table. -/
theorem phoneListPut_agrees (hag : Agrees list.header list'.header)
    (hcap : list'.nodeCap = list.nodeCap) (hsize : list.header.length < 2 ^ 30)
    {blockId : UInt64} {node : List UInt32} {nodeLen : UInt32} {ret : Int32}
    (hput : phoneListPut list blockId node nodeLen = some (ret, list₁)) :
    ∃ list₁', phoneListPut list' blockId node nodeLen = some (ret, list₁') ∧
      Agrees list₁.header list₁'.header ∧ list₁'.nodeCap = list₁.nodeCap ∧
      list₁.header.length ≤ list.header.length + 1 := by
  obtain ⟨x, h', hreal, hag', hlive⟩ := hag.put hsize blockId
  have hgrow : (listKhash.put list.header blockId).1.length ≤ list.header.length + 1 := by
    simp only [listKhash, bucketKhash]
    split
    · exact Nat.le_succ _
    · rw [List.length_append]
      exact Nat.le_refl _
  unfold phoneListPut at hput ⊢
  rw [hcap]
  simp only [hreal] at hput ⊢
  by_cases hshort : node.length < (if 0 < nodeLen then PhoneList.min list.nodeCap nodeLen
      else list.nodeCap).toNat
  · rw [if_pos hshort] at hput
    exact absurd hput (by simp)
  · rw [if_neg hshort] at hput ⊢
    by_cases hret : (listKhash.put list.header blockId).2.2 = 0
    · obtain ⟨hx, hkey⟩ := hlive hret
      simp only [hret, ne_eq, not_true, if_false, Option.bind_eq_bind] at hput ⊢
      obtain ⟨header, hset, hlast⟩ := Option.bind_eq_some_iff.mp hput
      obtain ⟨rfl, rfl⟩ := Prod.mk.inj (Option.some.inj hlast)
      have hlist : (listKhash.put list.header blockId).1 = list.header ∧
          (listKhash.put list.header blockId).2.1 =
            list.header.findIdx fun bucket => bucket.1 = blockId := by
        simp only [listKhash, bucketKhash] at hret ⊢
        split at hret
        · rw [if_pos ‹_›]
          exact ⟨rfl, rfl⟩
        · exact absurd (show (1 : Int32) = 0 from hret) (by decide)
      rw [hlist.1, hlist.2] at hset
      rw [hlist.1] at hag'
      obtain ⟨h₂, hwrite, hag₂⟩ := hag'.setValue ⟨blockId,
        if 0 < nodeLen then PhoneList.min list.nodeCap nodeLen else list.nodeCap, x, _⟩
        hx hkey rfl hset
      refine ⟨⟨list.nodeCap, h₂⟩, by rw [hwrite]; rfl, hag₂, rfl, ?_⟩
      rw [(slotOf_setValue _ hset).1]
      exact Nat.le_succ _
    · simp only [hret, ne_eq, not_false_iff, if_true] at hput ⊢
      obtain ⟨rfl, rfl⟩ := Prod.mk.inj (Option.some.inj hput)
      exact ⟨⟨list.nodeCap, h'⟩, rfl, hag', rfl, hgrow⟩

theorem phonePuts_agrees {puts : List PhonePut} (hag : Agrees list.header list'.header)
    (hcap : list'.nodeCap = list.nodeCap) (hsize : list.header.length + puts.length ≤ 2 ^ 30)
    {rets : List Int32} (hputs : phonePuts list puts = some (rets, list₁)) :
    ∃ list₁', phonePuts list' puts = some (rets, list₁') ∧
      Agrees list₁.header list₁'.header ∧ list₁'.nodeCap = list₁.nodeCap := by
  induction puts generalizing list list' rets with
  | nil =>
    obtain ⟨rfl, rfl⟩ := Prod.mk.inj (Option.some.inj hputs)
    exact ⟨list', rfl, hag, hcap⟩
  | cons put puts ih =>
    obtain ⟨blockId, array⟩ := put
    rw [List.length_cons] at hsize
    obtain ⟨⟨ret, list₂⟩, hput, hrest⟩ := Option.bind_eq_some_iff.mp hputs
    obtain ⟨⟨rets', list₃⟩, hmore, hlast⟩ := Option.bind_eq_some_iff.mp hrest
    obtain ⟨rfl, rfl⟩ := Prod.mk.inj (Option.some.inj hlast)
    obtain ⟨list₂', hput', hag₂, hcap₂, hgrow⟩ := phoneListPut_agrees hag hcap (by omega) hput
    obtain ⟨list₁', hmore', hag₁, hcap₁⟩ := ih hag₂ hcap₂ (by omega) hmore
    refine ⟨list₁', ?_, hag₁, hcap₁⟩
    simp only [phonePuts, hput', Option.bind_eq_bind, Option.bind_some, hmore']
    rfl

/-- A lookup over the keys that has a result has the same over the table. -/
theorem phoneListGet_agrees (hag : Agrees list.header list'.header)
    (hcap : list'.nodeCap = list.nodeCap) {blockId : UInt64} {nodeLen : UInt32}
    {result : PhoneResult} (hget : phoneListGet list blockId nodeLen = some result) :
    phoneListGet list' blockId nodeLen = some result := by
  unfold phoneListGet at hget ⊢
  rw [hcap]
  by_cases hzero : nodeLen = 0
  · simp only [hzero, if_true] at hget ⊢
    exact hget
  · simp only [hzero, if_false] at hget ⊢
    obtain ⟨s, hvalue, hrest⟩ := Option.bind_eq_some_iff.mp hget
    have hsame := hag.value (show slotOf list.header blockId = some s from hvalue)
    cases s with
    | null =>
      have hreal : khash64.value list'.header (khash64.get list'.header blockId) = some .null :=
        hsame
      rw [hreal]
      exact hrest
    | wild => exact absurd hrest (by simp)
    | entry e =>
      obtain ⟨e', hreal, hnode⟩ := hsame
      rw [hreal]
      simp only [Option.bind_eq_bind, Option.bind_some, hnode]
      exact hrest

end Lists

/-- Over the hash table every run of at most `2 ^ 30` puts gives the return codes
that it gives over a plain list of keys, and every lookup that has a result there has
the same result here. -/
theorem phoneList_khash64_refines {nodeCap : UInt32} {puts : List PhonePut} {rets : List Int32}
    {list : PhoneList listKhash} (hlen : puts.length ≤ 2 ^ 30)
    (hputs : phonePuts (phoneListCreate listKhash nodeCap) puts = some (rets, list)) :
    ∃ list', phonePuts (phoneListCreate khash64 nodeCap) puts = some (rets, list') ∧
      ∀ blockId nodeLen result, phoneListGet list blockId nodeLen = some result →
        phoneListGet list' blockId nodeLen = some result := by
  have hempty : Agrees (phoneListCreate listKhash nodeCap).header
      (phoneListCreate khash64 nodeCap).header := agrees_init
  obtain ⟨list', hputs', hag, hcap⟩ := phonePuts_agrees hempty rfl
    (by rw [phoneListCreate]; simpa [listKhash, bucketKhash] using hlen) hputs
  exact ⟨list', hputs', fun _ _ _ hget => phoneListGet_agrees hag hcap hget⟩

/-- Block 5 is put twice: only the second put stores its nodes, and the lookup gives
three bytes of them. -/
theorem phoneList_khash64_refines_twice :
    ∃ list', phonePuts (phoneListCreate khash64 3)
        [(5, ⟨[1, 2, 3], List.cons_ne_nil _ _, by decide⟩),
          (5, ⟨[4, 5, 6], List.cons_ne_nil _ _, by decide⟩)] = some ([1, 0], list') ∧
      phoneListGet list' 5 3 = some ⟨0, [4, 0, 0], some 3⟩ := by
  have hputs : phonePuts (phoneListCreate listKhash 3)
      [(5, ⟨[1, 2, 3], List.cons_ne_nil _ _, by decide⟩),
        (5, ⟨[4, 5, 6], List.cons_ne_nil _ _, by decide⟩)] =
      some ([1, 0], ⟨3, [(5, .entry ⟨5, 3, 0, [4, 5, 6]⟩)]⟩) := rfl
  obtain ⟨list', hputs', hgets⟩ := phoneList_khash64_refines (by decide) hputs
  exact ⟨list', hputs', hgets 5 3 _ (by decide)⟩

end SeaStore.Controller
