import Mathlib.Logic.Function.Basic
import SeaStore.Posix.Run
import SeaStore.Hash.Put

/-!
A table under its callers: a put is followed by the writing of the value, a
lookup by the reading of it, a deletion begins with a lookup. Over whole runs,
through every rehash and every failed allocation, the table answers as a map.
-/
namespace SeaStore.Hash

open Posix Slots

variable {K V : Type}

inductive MapOp (K V : Type)
  | put (alloc : Alloc K V) (key : K) (v : V)
  | get (key : K)
  | del (key : K)
  | resize (alloc : Alloc K V) (newNBuckets : UInt32)
  | clear

inductive MapReply (V : Type)
  | stored (fresh : Bool)
  | outOfMemory
  | found (v : Option V)
  | done
  deriving DecidableEq

variable [DecidableEq K] (hash : K → UInt32)

/-- One operation, as the users of the table make it. -/
def mapOp (h : KHash K V) : MapOp K V → Option (KHash K V × MapReply V)
  | .put alloc key v => do
    let (x, ret, h) ← khPut hash alloc h key
    if ret = -1 then return (h, .outOfMemory)
    let h ← khSetValue h x v
    return (h, .stored (ret ≠ 0))
  | .get key => do
    let x ← khGet hash h key
    if x = khEnd h then return (h, .found none)
    return (h, .found (some (← khValue h x)))
  | .del key => do
    let x ← khGet hash h key
    return (← khDel h x, .done)
  | .resize alloc newNBuckets => do
    let (rc, h) ← khResize hash alloc h newNBuckets
    return (h, if rc = -1 then .outOfMemory else .done)
  | .clear => some (khClear h, .done)

abbrev MapState (K V : Type) := KHash K V × List (MapReply V)

def mapStep (s : MapState K V) (op : MapOp K V) : Option (MapState K V) :=
  (mapOp hash s.1 op).map fun (h, reply) => (h, s.2 ++ [reply])

/-- A put finds fewer than `2 ^ 30` keys in the table, and a resize to fewer buckets
gets the memory for them. -/
def Affordable (s : MapState K V) : MapOp K V → Prop
  | .put _ _ _ => s.1.size.toNat < 2 ^ 30
  | .resize alloc newNBuckets => resizeTo newNBuckets < s.1.nBuckets → alloc.Cuts
  | _ => True

/-- Memory was short in one of the allocations. -/
def Alloc.Short (alloc : Alloc K V) : Prop :=
  alloc.flags = false ∨ alloc.keys = false ∨ alloc.vals = false

/-- What a map answers, and what becomes of it. Only what needs memory may fail, and
then nothing changes. -/
def MapNext (m : K → Option V) : MapOp K V → MapReply V → (K → Option V) → Prop
  | .put alloc key v, reply, m' =>
    reply = .stored (m key).isNone ∧ m' = Function.update m key (some v) ∨
      reply = .outOfMemory ∧ alloc.Short ∧ m' = m
  | .get key, reply, m' => reply = .found (m key) ∧ m' = m
  | .del key, reply, m' => reply = .done ∧ m' = Function.update m key none
  | .resize alloc _, reply, m' => (reply = .done ∨ reply = .outOfMemory ∧ alloc.Short) ∧ m' = m
  | .clear, reply, m' => reply = .done ∧ m' = fun _ => none

/-- The table holds the pairs of the map and no others. -/
def Holds (m : K → Option V) (h : KHash K V) : Prop :=
  ∀ key v, m key = some v ↔ (some key, some v) ∈ h.entries

section Holds

variable {hash : K → UInt32} {m : K → Option V} {h h' : KHash K V} {key : K}

omit [DecidableEq K] in
/-- What a live bucket holds is a pair of the map. -/
theorem Holds.of_live (hm : Holds m h) (hv : Valid hash h) {i : ℕ}
    (hi : i ∈ liveSet h.flags h.nBuckets.toNat) (hkey : h.keys[i]? = some key) :
    ∃ v, h.vals[i]? = some v ∧ m key = some v := by
  have hlt : i < h.vals.length := Nat.lt_of_lt_of_le (mem_liveSet.mp hi).1 hv.vals
  have hval : h.vals[i]? = some h.vals[i] := List.getElem?_eq_getElem hlt
  refine ⟨h.vals[i], hval, (hm key _).mpr (mem_held.mpr ⟨i, hi, ?_⟩)⟩
  rw [hkey, hval]

omit [DecidableEq K] in
theorem Holds.eq_none_iff (hm : Holds m h) (hv : Valid hash h) :
    m key = none ↔ some key ∉ h.entries.map Prod.fst := by
  rw [← absent_iff]
  constructor
  · intro hnone i hi hkey
    obtain ⟨v, -, hsome⟩ := hm.of_live hv hi hkey
    rw [hnone] at hsome
    exact absurd hsome (by simp)
  · intro habsent
    cases hval : m key with
    | none => rfl
    | some v =>
      obtain ⟨i, hi, hpair⟩ := mem_held.mp ((hm key v).mp hval)
      exact absurd (congrArg Prod.fst hpair) (habsent i hi)

/-- No other pair has the key of a pair that is taken out. -/
theorem mem_entries_cons {e : Multiset (Option K × Option V)} {key key' : K} {a b : Option V}
    {v : V} (hnodup : ((some key, a) ::ₘ e).map Prod.fst |>.Nodup) :
    (some key', some v) ∈ (some key, b) ::ₘ e ↔
      if key' = key then b = some v else (some key', some v) ∈ (some key, a) ::ₘ e := by
  rw [Multiset.map_cons, Multiset.nodup_cons] at hnodup
  rw [Multiset.mem_cons, Multiset.mem_cons, Prod.mk.injEq, Prod.mk.injEq, Option.some.injEq]
  by_cases heq : key' = key
  · have hnot : (some key', some v) ∉ e := by
      intro hmem
      have hkey : some key' ∈ e.map Prod.fst := Multiset.mem_map_of_mem Prod.fst hmem
      exact hnodup.1 (heq ▸ hkey)
    simp only [heq, if_true, true_and]
    rw [heq] at hnot
    exact ⟨fun hor => (hor.resolve_right hnot).symm, fun hb => .inl hb.symm⟩
  · simp [heq]

/-- One key gets a value, whatever it had before. -/
theorem Holds.update (hm : Holds m h) (hv : Valid hash h') {a : Option V} {v : V}
    {e : Multiset (Option K × Option V)}
    (hold : ∀ key' w, key' ≠ key → ((some key', some w) ∈ (some key, a) ::ₘ e ↔
      (some key', some w) ∈ h.entries))
    (hnew : h'.entries = (some key, some v) ::ₘ e) :
    Holds (Function.update m key (some v)) h' := by
  have hnodup : ((some key, some v) ::ₘ e).map Prod.fst |>.Nodup := by
    rw [← hnew]
    exact (injOn_iff_nodup h').mp hv.distinct
  intro key' w
  rw [hnew, mem_entries_cons (b := some v) hnodup]
  by_cases heq : key' = key
  · subst heq
    rw [Function.update_self, if_pos rfl]
  · rw [Function.update_of_ne heq, hm key' w, if_neg heq, ← hold key' w heq, Multiset.mem_cons,
      Multiset.mem_cons]
    simp [heq]

omit [DecidableEq K] in
theorem Holds.congr (hm : Holds m h) (heq : h'.entries = h.entries) : Holds m h' := by
  intro key v
  rw [heq]
  exact hm key v

end Holds

section Step

variable {hash : K → UInt32} {m : K → Option V} {h : KHash K V}

/-- A put with its value, and a put that fails. -/
theorem mapOp_put (hv : Valid hash h) (hm : Holds m h) (alloc : Alloc K V) (key : K) (v : V)
    (hsize : h.size.toNat < 2 ^ 30) :
    ∃ h' reply m', mapOp hash h (.put alloc key v) = some (h', reply) ∧
      MapNext m (.put alloc key v) reply m' ∧ Valid hash h' ∧ Holds m' h' := by
  obtain ⟨x, ret, h₁, hput, hv₁, -, hcases⟩ := khPut_eq hv alloc key hsize
  unfold mapOp
  simp only [Option.bind_eq_bind, hput, Option.bind_some]
  rcases hcases with ⟨rfl, hshort, hsame⟩ | ⟨rfl, hx, hkey, hsame⟩ |
      ⟨hret, hx, hkey, habsent, w, hval, hcons⟩
  · exact ⟨h₁, .outOfMemory, m, rfl, .inr ⟨rfl, hshort, rfl⟩, hv₁, hm.congr hsame⟩
  · -- the key was there: its value is replaced
    obtain ⟨h₂, hset, hv₂, -, -, -, hwrite⟩ := khSetValue_eq hv₁ hx v
    obtain ⟨w, hval, hold⟩ := (hm.congr hsame).of_live hv₁ hx hkey
    rw [hkey, hval, hsame] at hwrite
    have hin : (some key, some w) ∈ h.entries := (hm key w).mp hold
    obtain ⟨e, he⟩ := Multiset.exists_cons_of_mem hin
    rw [he, Multiset.cons_swap, Multiset.cons_inj_right] at hwrite
    refine ⟨h₂, .stored (m key).isNone, _, ?_, .inl ⟨rfl, rfl⟩, hv₂,
      hm.update (a := some w) hv₂ (fun _ _ _ => by rw [he]) hwrite⟩
    rw [hset, hold]
    rfl
  · -- a new key: the bucket held some value, which is replaced
    obtain ⟨h₂, hset, hv₂, -, -, -, hwrite⟩ := khSetValue_eq hv₁ hx v
    rw [hkey, hval, hcons, Multiset.cons_swap, Multiset.cons_inj_right] at hwrite
    have hnone : m key = none := (hm.eq_none_iff hv).mpr habsent
    refine ⟨h₂, .stored (m key).isNone, _, ?_, .inl ⟨rfl, rfl⟩, hv₂,
      hm.update (a := some w) hv₂ (fun key' u hne => ?_) hwrite⟩
    · rw [if_neg (by rcases hret with rfl | rfl <;> decide), hset, hnone]
      rcases hret with rfl | rfl <;> rfl
    · rw [Multiset.mem_cons]
      simp [hne]

theorem mapOp_get (hv : Valid hash h) (hm : Holds m h) (key : K) :
    mapOp hash h (.get key) = some (h, .found (m key)) := by
  obtain ⟨x, hget, hcases⟩ := khGet_eq hv key
  unfold mapOp
  simp only [Option.bind_eq_bind, hget, Option.bind_some]
  rcases hcases with ⟨hx, hkey⟩ | ⟨rfl, habsent⟩
  · obtain ⟨v, hval, hsome⟩ := hm.of_live hv hx hkey
    have hne : x ≠ khEnd h := by
      intro heq
      have hlt := (mem_liveSet.mp hx).1
      rw [heq, khEnd] at hlt
      exact absurd hlt (Nat.lt_irrefl _)
    rw [if_neg hne, khValue, hval, hsome]
    rfl
  · rw [(hm.eq_none_iff hv).mpr ((absent_iff h key).mp habsent)]
    exact if_pos rfl

theorem mapOp_del (hv : Valid hash h) (hm : Holds m h) (key : K) :
    ∃ h', mapOp hash h (.del key) = some (h', .done) ∧ Valid hash h' ∧
      Holds (Function.update m key none) h' := by
  obtain ⟨x, hget, hcases⟩ := khGet_eq hv key
  unfold mapOp
  simp only [Option.bind_eq_bind, hget, Option.bind_some]
  rcases hcases with ⟨hx, hkey⟩ | ⟨hend, habsent⟩
  · obtain ⟨h', hdel, hv', hentries⟩ := (khDel_eq hv x).2 hx
    rw [hkey] at hentries
    refine ⟨h', by rw [hdel]; rfl, hv', ?_⟩
    have hnodup := (injOn_iff_nodup h).mp hv.distinct
    rw [hentries, Multiset.map_cons, Multiset.nodup_cons] at hnodup
    intro key' v
    by_cases heq : key' = key
    · subst heq
      rw [Function.update_self]
      refine ⟨fun hnone => absurd hnone (by simp), fun hmem => ?_⟩
      exact absurd (Multiset.mem_map_of_mem Prod.fst hmem) hnodup.1
    · rw [Function.update_of_ne heq, hm key' v, hentries, Multiset.mem_cons]
      simp [heq]
  · refine ⟨h, by rw [(khDel_eq hv x).1 hend]; rfl, hv, ?_⟩
    have hnone := (hm.eq_none_iff hv).mpr ((absent_iff h key).mp habsent)
    rw [← hnone, Function.update_eq_self]
    exact hm

/-- Every operation answers as the map does. -/
theorem mapStep_holds (a : K → Option V) (s : MapState K V) (op : MapOp K V)
    (hrel : Valid hash s.1 ∧ Holds a s.1) (hroom : Affordable s op) :
    ∃ s' a' r, mapStep hash s op = some s' ∧ MapNext a op r a' ∧
      (Valid hash s'.1 ∧ Holds a' s'.1) ∧ s'.2 = s.2 ++ [r] := by
  obtain ⟨hv, hm⟩ := hrel
  unfold mapStep
  cases op with
  | put alloc key v =>
    obtain ⟨h', reply, m', hop, hnext, hv', hm'⟩ := mapOp_put hv hm alloc key v hroom
    exact ⟨(h', s.2 ++ [reply]), m', reply, by rw [hop]; rfl, hnext, ⟨hv', hm'⟩, rfl⟩
  | get key =>
    exact ⟨(s.1, s.2 ++ [.found (a key)]), a, _, by rw [mapOp_get hv hm]; rfl, ⟨rfl, rfl⟩,
      ⟨hv, hm⟩, rfl⟩
  | del key =>
    obtain ⟨h', hop, hv', hm'⟩ := mapOp_del hv hm key
    exact ⟨(h', s.2 ++ [.done]), _, _, by rw [hop]; rfl, ⟨rfl, rfl⟩, ⟨hv', hm'⟩, rfl⟩
  | resize alloc newNBuckets =>
    obtain ⟨rc, h', hrun, hv', hentries, -, -, hcases⟩ := khResize_eq hv alloc newNBuckets hroom
    refine ⟨(h', s.2 ++ [if rc = -1 then .outOfMemory else .done]), a, _,
      by rw [mapOp]; simp only [Option.bind_eq_bind, hrun, Option.bind_some]; rfl, ⟨?_, rfl⟩,
      ⟨hv', hm.congr hentries⟩, rfl⟩
    rcases hcases with ⟨rfl, -, -⟩ | ⟨rfl, -, hshort⟩ | ⟨rfl, -, -, -⟩
    · exact .inl rfl
    · exact .inr ⟨rfl, hshort⟩
    · exact .inl rfl
  | clear =>
    obtain ⟨hv', hempty⟩ := khClear_eq hv
    refine ⟨(khClear s.1, s.2 ++ [.done]), _, _, rfl, ⟨rfl, rfl⟩, ⟨hv', ?_⟩, rfl⟩
    intro key v
    rw [hempty]
    simp

omit [DecidableEq K] in
theorem khInit_valid : Valid hash (khInit : KHash K V) where
  buckets := .inl ⟨rfl, rfl⟩
  upperBound := by simp [khInit, upperBoundOf]
  keys := Nat.zero_le _
  vals := Nat.zero_le _
  size := rfl
  nOccupied := rfl
  nOccupied_le := Nat.le_refl _
  distinct := fun i hi => absurd hi (by simp [khInit, liveSet])
  onWay := fun i hi => absurd hi (by simp [khInit, liveSet])

end Step

/-- From an empty table every run of puts, lookups, deletions, resizes and clearings
is possible, as long as no put finds `2 ^ 30` keys and there is memory to cut an array,
and its answers are those of a map, in which only a put or a resize that is short of
memory fails. -/
theorem mapRun_follows {ops : List (MapOp K V)}
    (hroom : Allowed (mapStep hash) Affordable (khInit, []) ops) :
    ∃ h replies m, runSteps (mapStep hash) (khInit, []) ops = some (h, replies) ∧
      Follows MapNext (fun _ => none) ops replies m ∧ Holds m h := by
  have hempty : Holds (fun _ => none) (khInit : KHash K V) := by
    intro key v
    rw [KHash.entries]
    simp [khInit, liveSet, held]
  have hinit : Valid hash (khInit : KHash K V) ∧ Holds (fun _ => none) (khInit : KHash K V) :=
    ⟨khInit_valid, hempty⟩
  have hrun := runSteps_follows (s := (khInit, [])) mapStep_holds hinit hroom
  obtain ⟨⟨h, done⟩, m, replies, hrun, hfollows, hrel, hreplies⟩ := hrun
  obtain rfl : done = replies := hreplies
  exact ⟨h, done, m, hrun, hfollows, hrel.2⟩

/-- A key is put and looked up, the table grows to 64 buckets and shrinks to four,
a second growth is short of memory, and the key is looked up, deleted and looked up
again. -/
def growAndShrink : List (MapOp UInt64 ℕ) :=
  let enough : Alloc UInt64 ℕ := ⟨true, true, true, true, true, fun _ => 0, fun _ => 0⟩
  [.put enough 7 1, .get 7, .resize enough 40, .get 7, .resize enough 1, .get 7,
    .resize { enough with vals := false } 9, .get 7, .del 7, .get 7]

theorem mapRun_follows_grow :
    ∃ h replies m, runSteps (mapStep khInt64HashFunc) (khInit, []) growAndShrink =
        some (h, replies) ∧
      Follows MapNext (fun _ => none) growAndShrink replies m ∧ Holds m h :=
  mapRun_follows khInt64HashFunc ⟨show (0 : UInt32).toNat < 2 ^ 30 by decide,
    fun _ _ => ⟨trivial, fun _ _ => ⟨fun _ => ⟨rfl, rfl⟩, fun _ _ => ⟨trivial,
      fun _ _ => ⟨fun _ => ⟨rfl, rfl⟩, fun _ _ => ⟨trivial, fun _ _ => ⟨fun _ => ⟨rfl, rfl⟩,
        fun _ _ => ⟨trivial, fun _ _ => ⟨trivial, fun _ _ => ⟨trivial, fun _ _ => trivial⟩⟩⟩⟩⟩⟩⟩⟩⟩⟩

end SeaStore.Hash
