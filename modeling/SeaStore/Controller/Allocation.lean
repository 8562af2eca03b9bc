import SeaStore.Controller.LocalLog
import SeaStore.Controller.Writer

/-!
The ids that one controller hands out. Between its creation and its end the
blocks are filled one after the other: the place of an acknowledged record is
found by dividing its number by the size of a block. A write that fails leaves
the counters alone, and a read does not look at them.
-/
namespace SeaStore.Controller

open Posix Block

def LocalOp.isRestart : LocalOp → Bool
  | .restart .. => true
  | .write .. | .read .. => false

/-- The records of block `k` when the blocks before it are full. -/
def blockContents (recs : List Payload) (k : ℕ) : List Payload :=
  (recs.drop (k * blockMax)).take blockMax

section Blocks

variable {recs : List Payload} {k : ℕ}

theorem blockContents_length :
    (blockContents recs k).length = min blockMax (recs.length - k * blockMax) := by
  rw [blockContents, List.length_take, List.length_drop]

theorem blockContents_current_length (recs : List Payload) :
    (blockContents recs (recs.length / blockMax)).length = recs.length % blockMax := by
  rw [blockContents_length]
  simp only [blockMax]
  omega

theorem blockContents_current (recs : List Payload) (p : Payload) :
    blockContents (recs ++ [p]) (recs.length / blockMax) =
      blockContents recs (recs.length / blockMax) ++ [p] := by
  have hstart : recs.length / blockMax * blockMax ≤ recs.length := Nat.div_mul_le_self _ _
  have hroom : (recs.drop (recs.length / blockMax * blockMax)).length < blockMax := by
    rw [List.length_drop]
    simp only [blockMax]
    omega
  rw [blockContents, blockContents, List.drop_append_of_le_length hstart,
    List.take_of_length_le (Nat.le_of_lt hroom), List.take_of_length_le]
  rw [List.length_append, List.length_singleton]
  exact hroom

theorem blockContents_other (p : Payload) (hk : k ≠ recs.length / blockMax) :
    blockContents (recs ++ [p]) k = blockContents recs k := by
  by_cases hlt : k < recs.length / blockMax
  · have hfull : (k + 1) * blockMax ≤ recs.length :=
      (Nat.le_div_iff_mul_le (by decide)).mp hlt
    rw [Nat.add_mul, Nat.one_mul] at hfull
    rw [blockContents, blockContents, List.drop_append_of_le_length (by omega),
      List.take_append_of_le_length]
    rw [List.length_drop]
    omega
  · have hnone : recs.length < k * blockMax :=
      (Nat.div_lt_iff_lt_mul (by decide)).mp (by omega)
    have hafter : (recs ++ [p]).length ≤ k * blockMax := by
      rw [List.length_append, List.length_singleton]
      exact hnone
    rw [blockContents, blockContents, List.drop_eq_nil_of_le hafter,
      List.drop_eq_nil_of_le (Nat.le_of_lt hnone)]

theorem div_blockMax_lt {n : ℕ} (hn : n ≤ 2 ^ 32) : n / blockMax < 2 ^ 32 := by
  simp only [blockMax]
  omega

end Blocks

theorem toNat_place {base : UInt64} (hbase : base.toNat < 2 ^ 63 - 2 ^ 32) {n : ℕ}
    (hn : n ≤ 2 ^ 32) :
    (place base n).1.toNat = base.toNat + 1 + n / seaBlockMaxCountDefault.toNat ∧
      (place base n).2.toNat = n % seaBlockMaxCountDefault.toNat := by
  have hmod : n % blockMax < 2 ^ 17 := Nat.mod_lt _ (by decide)
  constructor
  · rw [toNat_maxCountDefault]
    exact toNat_blockIdAt hbase (div_blockMax_lt hn)
  · rw [toNat_maxCountDefault, place, UInt32.toNat_ofNat', Nat.mod_eq_of_lt (by omega)]

/-- Every acknowledged record is at the place of its number. -/
structure Allocated (base : UInt64) (dir : String) (contents : UInt64 → List Payload)
    (s : LocalLog) : Prop where
  kept : Kept base dir s.acked.length (s.acked.length / blockMax) contents s
  filled : ∀ k < 2 ^ 32, contents (blockIdAt base k) = blockContents (s.acked.map Prod.snd) k
  places : ∀ i entry, s.acked[i]? = some entry → entry.1 = place base i

namespace Allocated

variable {idOf : String → UInt64} {base : UInt64} {dir : String}
  {contents : UInt64 → List Payload} {s : LocalLog}

theorem current (h : Allocated base dir contents s) (hn : s.acked.length ≤ 2 ^ 32) :
    (contents (blockIdAt base (s.acked.length / blockMax))).length =
      s.acked.length % blockMax := by
  have hdiv := div_blockMax_lt hn
  have hlen := blockContents_current_length (s.acked.map Prod.snd)
  rw [List.length_map] at hlen
  rw [h.filled _ (by omega), hlen]

theorem concat (h : Allocated base dir contents s) (hn : s.acked.length ≤ 2 ^ 32) {p : Payload}
    {s' : LocalLog}
    (hacked : s'.acked = s.acked ++ [(place base s.acked.length, p)])
    (hkept : Kept base dir (s.acked.length + 1)
      (if blockMax ≤ s.acked.length % blockMax + 1 then s.acked.length / blockMax + 1
        else s.acked.length / blockMax)
      (Function.update contents (blockIdAt base (s.acked.length / blockMax))
        (contents (blockIdAt base (s.acked.length / blockMax)) ++ [p])) s') :
    Allocated base dir (Function.update contents (blockIdAt base (s.acked.length / blockMax))
      (contents (blockIdAt base (s.acked.length / blockMax)) ++ [p])) s' := by
  have hdiv := div_blockMax_lt hn
  have hlen : s'.acked.length = s.acked.length + 1 := by
    rw [hacked, List.length_append, List.length_singleton]
  have hrecs : s'.acked.map Prod.snd = s.acked.map Prod.snd ++ [p] := by
    rw [hacked, List.map_append, List.map_singleton]
  constructor
  · rw [hlen]
    have hnext : (if blockMax ≤ s.acked.length % blockMax + 1 then s.acked.length / blockMax + 1
        else s.acked.length / blockMax) = (s.acked.length + 1) / blockMax := by
      rcases succ_div_mod s.acked.length with ⟨hroom, hquot, -⟩ | ⟨hfull, hquot, -⟩
      · rw [if_neg (by omega), hquot]
      · rw [if_pos (by omega), hquot]
    rw [hnext] at hkept
    exact hkept
  · intro k hk
    rw [hrecs]
    by_cases hcurrent : k = s.acked.length / blockMax
    · have hconcat := blockContents_current (s.acked.map Prod.snd) p
      rw [List.length_map] at hconcat
      rw [hcurrent, Function.update_self, hconcat, h.filled _ (by omega)]
    · have hid : blockIdAt base k ≠ blockIdAt base (s.acked.length / blockMax) :=
        fun hsame => hcurrent (blockIdAt_inj_of_lt (by omega) (by omega) hsame)
      rw [Function.update_of_ne hid, h.filled k hk, blockContents_other]
      rw [List.length_map]
      exact hcurrent
  · intro i entry hi
    rw [hacked] at hi
    by_cases hlast : i < s.acked.length
    · rw [List.getElem?_append_left hlast] at hi
      exact h.places i entry hi
    · obtain ⟨hlt, -⟩ := List.getElem?_eq_some_iff.mp hi
      rw [List.length_append, List.length_singleton] at hlt
      obtain rfl : i = s.acked.length := by omega
      rw [List.getElem?_concat_length] at hi
      obtain rfl := Option.some.inj hi
      rfl

/-- The blocks before the current one are full, and count their records. -/
theorem full_block (h : Allocated base dir contents s) (hn : s.acked.length ≤ 2 ^ 32) {k : ℕ}
    (hk : k < s.acked.length / blockMax) :
    (blockContents (s.acked.map Prod.snd) k).length = blockMax ∧
      CountedBlock s.tree dataDir (blockIdAt base k)
        (blockContents (s.acked.map Prod.snd) k) := by
  have hdiv := div_blockMax_lt hn
  have hstart : (k + 1) * blockMax ≤ s.acked.length :=
    (Nat.le_div_iff_mul_le (by decide)).mp hk
  rw [Nat.add_mul, Nat.one_mul] at hstart
  have hlen : (blockContents (s.acked.map Prod.snd) k).length = blockMax := by
    rw [blockContents_length, List.length_map]
    omega
  refine ⟨hlen, ?_⟩
  have hblock := h.kept.shelved (blockIdAt base k)
  rw [h.filled k (by omega)] at hblock
  rcases hblock with ⟨-, hnil⟩ | hcounted
  · rw [hnil] at hlen
    exact absurd hlen (by decide)
  · exact hcounted

theorem unchanged (h : Allocated base dir contents s) {s' : LocalLog}
    (hacked : s'.acked = s.acked)
    (hkept : Kept base dir s.acked.length (s.acked.length / blockMax) contents s') :
    Allocated base dir contents s' := by
  constructor
  · rw [hacked]
    exact hkept
  · rw [hacked]
    exact h.filled
  · rw [hacked]
    exact h.places

/-- A write that returns zero is told the next place, and no other write is
told one. -/
theorem run_write (h : Allocated (idOf controllerName) dir contents s)
    (hbase : (idOf controllerName).toNat < 2 ^ 63 - 2 ^ 32) (hn : s.acked.length ≤ 2 ^ 32)
    (now : UInt64) (a : Ambient) (frame : Outcome) (store : StoreEnv) (p : Payload) :
    ∃ result controller' t', (seaControllerWriteLocal idOf
        ⟨⟨now, .whole⟩, a, ⟨frame, .whole, .whole⟩, store⟩ s.controller p.bytes p.length).run
          serve s.tree = some ((result, controller'), t') ∧
      (result = ⟨0, (place (idOf controllerName) s.acked.length).1,
          some (place (idOf controllerName) s.acked.length).2⟩ ∨
        (result.ret = ENOENT ∧ result.recordId = none)) := by
  have hdiv := div_blockMax_lt hn
  have hlen := h.current hn
  have hmod : s.acked.length % blockMax < 2 ^ 17 := Nat.mod_lt _ (by decide)
  obtain ⟨result, controller', t', hrun, hcases⟩ := h.kept.run_write
    (blockIdAt_ne_base hbase (by omega)) (by omega) now a frame store p
  refine ⟨result, controller', t', hrun, ?_⟩
  rcases hcases with ⟨hresult, -⟩ | ⟨hresult, -⟩
  · left
    rw [hresult, hlen]
    rfl
  · right
    rw [hresult]
    exact ⟨rfl, rfl⟩

/-- One write keeps the blocks filled one after the other. -/
theorem write_step (h : Allocated (idOf controllerName) dir contents s)
    (hbase : (idOf controllerName).toNat < 2 ^ 63 - 2 ^ 32) (hn : s.acked.length ≤ 2 ^ 32)
    (now : UInt64) (a : Ambient) (frame : Outcome) (store : StoreEnv) (p : Payload) :
    ∃ s' contents', localStep idOf dir s (.write now a frame store p) = some s' ∧
      s.acked <+: s'.acked ∧ s'.acked.length ≤ s.acked.length + 1 ∧
      Allocated (idOf controllerName) dir contents' s' := by
  have hdiv := div_blockMax_lt hn
  have hlen := h.current hn
  have hmod : s.acked.length % blockMax < 2 ^ 17 := Nat.mod_lt _ (by decide)
  obtain ⟨s', hstep, hcases⟩ := h.kept.write_step (blockIdAt_ne_base hbase (by omega))
    (by omega) now a frame store p
  rw [hlen] at hcases
  rcases hcases with ⟨hacked, hkept⟩ | ⟨hacked, hkept⟩
  · refine ⟨s', _, hstep, ?_, ?_, h.concat hn hacked hkept⟩
    · rw [hacked]
      exact List.prefix_append _ _
    · rw [hacked, List.length_append, List.length_singleton]
  · refine ⟨s', contents, hstep, ?_, ?_, h.unchanged hacked hkept⟩
    · exact ⟨[], by rw [hacked, List.append_nil]⟩
    · rw [hacked]
      exact Nat.le_succ _

end Allocated

variable {idOf : String → UInt64} {dir : String}

theorem localStep_acked_mono {s s' : LocalLog} {op : LocalOp}
    (hstep : localStep idOf dir s op = some s') : s.acked <+: s'.acked := by
  cases op with
  | write now a frame store p =>
    obtain ⟨⟨⟨result, controller⟩, tree⟩, -, hs'⟩ := Option.bind_eq_some_iff.mp hstep
    obtain rfl := Option.some.inj hs'
    exact List.prefix_append _ _
  | read blockId recordId bufLen =>
    obtain ⟨⟨result, tree⟩, -, hs'⟩ := Option.bind_eq_some_iff.mp hstep
    obtain rfl := Option.some.inj hs'
    exact List.prefix_refl _
  | restart now garbage =>
    obtain ⟨⟨controller, tree⟩, -, hs'⟩ := Option.bind_eq_some_iff.mp hstep
    obtain rfl := Option.some.inj hs'
    exact List.prefix_refl _

/-- More than `2 ^ 32` acknowledgments, or all there are, are at the places of
their numbers: `s₁` is the last state, or one that had that many. -/
structure FirstAllocated (base : UInt64) (dir : String) (s : LocalLog) : Prop where
  reached : ∃ s₁ contents, Allocated base dir contents s₁ ∧ s₁.acked <+: s.acked ∧
    (s₁ = s ∨ 2 ^ 32 < s₁.acked.length)

namespace FirstAllocated

variable {s : LocalLog}

theorem step (hbase : (idOf controllerName).toNat < 2 ^ 63 - 2 ^ 32)
    (h : FirstAllocated (idOf controllerName) dir s) {op : LocalOp} (hop : op.isRestart = false)
    {s' : LocalLog} (hstep : localStep idOf dir s op = some s') :
    FirstAllocated (idOf controllerName) dir s' := by
  obtain ⟨s₁, contents, hs₁, hfront, hcases⟩ := h.reached
  by_cases hmany : 2 ^ 32 < s₁.acked.length
  · exact ⟨s₁, contents, hs₁, hfront.trans (localStep_acked_mono hstep), Or.inr hmany⟩
  · obtain rfl : s₁ = s := hcases.resolve_right hmany
    cases op with
    | write now a frame store p =>
      obtain ⟨s₂, contents₂, hstep₂, -, -, hs₂⟩ :=
        hs₁.write_step hbase (by omega) now a frame store p
      obtain rfl : s₂ = s' := Option.some.inj (hstep₂.symm.trans hstep)
      exact ⟨s₂, contents₂, hs₂, List.prefix_refl _, Or.inl rfl⟩
    | read blockId recordId bufLen =>
      obtain rfl : s₁ = s' :=
        Option.some.inj ((hs₁.kept.read_step blockId recordId bufLen).symm.trans hstep)
      exact ⟨s₁, contents, hs₁, List.prefix_refl _, Or.inl rfl⟩
    | restart now garbage => exact absurd hop (by simp [LocalOp.isRestart])

theorem places (h : FirstAllocated (idOf controllerName) dir s) {n : ℕ} (hn : n < 2 ^ 32)
    {entry : (UInt64 × UInt32) × Payload} (hentry : s.acked[n]? = some entry) :
    entry.1 = place (idOf controllerName) n := by
  obtain ⟨s₁, contents, hs₁, hfront, hcases⟩ := h.reached
  obtain ⟨hlt, -⟩ := List.getElem?_eq_some_iff.mp hentry
  have hlt₁ : n < s₁.acked.length := by
    rcases hcases with rfl | hmany
    · exact hlt
    · omega
  obtain ⟨rest, hrest⟩ := hfront
  rw [← hrest, List.getElem?_append_left hlt₁] at hentry
  exact hs₁.places n entry hentry

/-- A state with no more than that many is one of them. -/
theorem allocated {base : UInt64} (h : FirstAllocated base dir s)
    (hfew : s.acked.length ≤ 2 ^ 32) : ∃ contents, Allocated base dir contents s := by
  obtain ⟨s₁, contents, hs₁, hfront, hcases⟩ := h.reached
  rcases hcases with rfl | hmany
  · exact ⟨contents, hs₁⟩
  · have hle := hfront.length_le
    omega

end FirstAllocated

theorem allocated_start {t : FileTree SeaPath} {now garbage : UInt64}
    (hdata : ∀ id, Absent t dataDir id) (hdir : ∀ id, Absent t dir id) :
    ∃ s, localStart idOf dir t now garbage = some s ∧ s.acked = [] ∧
      Allocated (idOf controllerName) dir (fun _ => []) s := by
  obtain ⟨s, hstart, hnil, hkept⟩ := localStart_kept now garbage hdata hdir
  refine ⟨s, hstart, hnil, ?_⟩
  constructor
  · rw [hnil]
    exact hkept
  · intro k hk
    simp [hnil, blockContents]
  · intro i entry hi
    simp [hnil] at hi

/-- Every run with no more writes than that goes through to its end. -/
theorem localSteps_total {contents : UInt64 → List Payload} {s : LocalLog}
    (hbase : (idOf controllerName).toNat < 2 ^ 63 - 2 ^ 32) (ops : List LocalOp)
    (hops : ∀ op ∈ ops, op.isRestart = false)
    (h : Allocated (idOf controllerName) dir contents s)
    (hn : s.acked.length + ops.countP LocalOp.isWrite ≤ 2 ^ 32) :
    ∃ s', runSteps (localStep idOf dir) s ops = some s' := by
  induction ops generalizing contents s with
  | nil => exact ⟨s, rfl⟩
  | cons op ops ih =>
    have hrest : ∀ op ∈ ops, op.isRestart = false :=
      fun op' hmem => hops op' (List.mem_cons_of_mem op hmem)
    simp only [runSteps]
    cases op with
    | write now a frame store p =>
      rw [List.countP_cons_of_pos rfl] at hn
      obtain ⟨s₁, contents₁, hstep, -, hle, h₁⟩ :=
        h.write_step hbase (by omega) now a frame store p
      rw [hstep]
      exact ih hrest h₁ (by omega)
    | read blockId recordId bufLen =>
      rw [List.countP_cons_of_neg (by simp [LocalOp.isWrite])] at hn
      rw [h.kept.read_step blockId recordId bufLen]
      exact ih hrest h hn
    | restart now garbage =>
      exact absurd (hops _ (List.mem_cons_self ..)) (by simp [LocalOp.isRestart])

/-- From directories without block files, after any run of writes and reads of
one controller, frames failing or not: the `n`-th write that returned zero was
told block `base + 1 + n / M` and record `n % M`, the blocks before the last
one hold `M` records each, and so does the next write if it returns zero. -/
theorem localRun_allocates (digest : String → Word.Digest) {t : FileTree SeaPath}
    {now garbage : UInt64} {ops : List LocalOp}
    (hdata : ∀ id, Absent t dataDir id) (hdir : ∀ id, Absent t dir id)
    (hops : ∀ op ∈ ops, op.isRestart = false) :
    (ops.countP LocalOp.isWrite ≤ 2 ^ 32 →
      ∃ s, localRun (controllerGetBlockId digest) dir t now garbage ops = some s) ∧
    ∀ s, localRun (controllerGetBlockId digest) dir t now garbage ops = some s →
      (∀ n < 2 ^ 32, ∀ blockId recordId p, s.acked[n]? = some ((blockId, recordId), p) →
        blockId.toNat = (controllerGetBlockId digest controllerName).toNat + 1 +
            n / seaBlockMaxCountDefault.toNat ∧
          recordId.toNat = n % seaBlockMaxCountDefault.toNat) ∧
      (s.acked.length ≤ 2 ^ 32 → ∀ k < s.acked.length / seaBlockMaxCountDefault.toNat,
        ∃ recs, recs.length = seaBlockMaxCountDefault.toNat ∧
          recs = blockContents (s.acked.map Prod.snd) k ∧
          CountedBlock s.tree dataDir
            (blockIdAt (controllerGetBlockId digest controllerName) k) recs) ∧
      (s.acked.length < 2 ^ 32 → ∀ now a frame store (p : Payload), ∃ result controller' t',
        (seaControllerWriteLocal (controllerGetBlockId digest)
          ⟨⟨now, .whole⟩, a, ⟨frame, .whole, .whole⟩, store⟩ s.controller p.bytes p.length).run
            serve s.tree = some ((result, controller'), t') ∧
        (result.ret = 0 →
          result.blockId.toNat = (controllerGetBlockId digest controllerName).toNat + 1 +
              s.acked.length / seaBlockMaxCountDefault.toNat ∧
            ∃ recordId, result.recordId = some recordId ∧
              recordId.toNat = s.acked.length % seaBlockMaxCountDefault.toNat)) := by
  have hbase : (controllerGetBlockId digest controllerName).toNat < 2 ^ 63 - 2 ^ 32 :=
    Nat.lt_of_le_of_lt (Word.nameBlockId_bounds digest controllerName).2 (by decide)
  obtain ⟨s₀, hstart, hnil, h₀⟩ : ∃ s, localStart (controllerGetBlockId digest) dir t now garbage =
      some s ∧ s.acked = [] ∧
        Allocated (controllerGetBlockId digest controllerName) dir (fun _ => []) s :=
    allocated_start hdata hdir
  have hrun_eq : localRun (controllerGetBlockId digest) dir t now garbage ops =
      runSteps (localStep (controllerGetBlockId digest) dir) s₀ ops := by
    unfold localRun
    rw [hstart]
    rfl
  rw [hrun_eq]
  constructor
  · intro hfew
    apply localSteps_total hbase ops hops h₀
    rw [hnil]
    simpa using hfew
  · intro s hrun
    have hallowed : Allowed (localStep (controllerGetBlockId digest) dir)
        (fun _ op => op.isRestart = false) s₀ ops := allowed_of_forall hops
    have hfirst : FirstAllocated (controllerGetBlockId digest controllerName) dir s := by
      refine runSteps_of_allowed (FirstAllocated _ dir) ?_ ?_ hallowed hrun
      · intro s op s' hs hop hstep
        exact hs.step hbase hop hstep
      · exact ⟨s₀, _, h₀, List.prefix_refl _, Or.inl rfl⟩
    refine ⟨?_, ?_, ?_⟩
    · intro n hn blockId recordId p hentry
      have hplace := hfirst.places hn hentry
      have hnat := toNat_place hbase (Nat.le_of_lt hn)
      rw [← hplace] at hnat
      exact hnat
    · intro hfew k hk
      obtain ⟨contents, hs⟩ := hfirst.allocated hfew
      obtain ⟨hlen, hcounted⟩ := hs.full_block hfew hk
      exact ⟨_, hlen, rfl, hcounted⟩
    · intro hfew now a frame store p
      obtain ⟨contents, hs⟩ := hfirst.allocated (Nat.le_of_lt hfew)
      obtain ⟨result, controller', t', hwrite, hcases⟩ :=
        hs.run_write hbase (Nat.le_of_lt hfew) now a frame store p
      refine ⟨result, controller', t', hwrite, ?_⟩
      intro hret
      obtain ⟨hblock, hrecord⟩ := toNat_place hbase (Nat.le_of_lt hfew)
      rcases hcases with hresult | ⟨hno, -⟩
      · rw [hresult]
        exact ⟨hblock, _, rfl, hrecord⟩
      · rw [hret] at hno
        exact absurd hno (by decide)

/-- A frame cut short between two records, and a read. -/
def cutShort : List LocalOp :=
  [.write 0 (.clear 0) .whole ⟨.clear 0, .whole⟩ (.single 97),
    .write 0 (.clear 0) (.short 3) ⟨.clear 0, .whole⟩ (.single 98), .read 7 0 4,
    .write 0 (.clear 0) .whole ⟨.clear 0, .whole⟩ (.single 99)]

theorem localRun_allocates_cutShort :
    ∃ s, localRun (controllerGetBlockId fun _ => controllerHash) "" (fun _ => none) 0 0 cutShort =
        some s ∧ s.acked.length = 2 ∧
      ∀ n < 2 ^ 32, ∀ blockId recordId p, s.acked[n]? = some ((blockId, recordId), p) →
        blockId.toNat = (controllerGetBlockId (fun _ => controllerHash) controllerName).toNat + 1 +
            n / seaBlockMaxCountDefault.toNat ∧
          recordId.toNat = n % seaBlockMaxCountDefault.toNat := by
  have hlength : (localRun (controllerGetBlockId fun _ => controllerHash) "" (fun _ => none) 0 0
      cutShort).map (·.acked.length) = some 2 := by decide +kernel
  obtain ⟨s, hrun, htwo⟩ := Option.map_eq_some_iff.mp hlength
  have hplaces := @localRun_allocates "" (fun _ => controllerHash) (fun _ => none) 0 0 cutShort
    (fun _ => ⟨rfl, rfl⟩) (fun _ => ⟨rfl, rfl⟩) (by simp [cutShort, LocalOp.isRestart])
  exact ⟨s, hrun, htwo, (hplaces.2 s hrun).1⟩

end SeaStore.Controller
