import SeaStore.Controller.Published
import Mathlib.Data.List.Nodup

/-!
The one writer of the data directory, call by call. Its blocks are filled one
after the other, and every call of a write publishes: the records that a reader
can see at any moment are those at their places. The numbering holds until the
ids of `2 ^ 64` full blocks are used up.
-/
namespace SeaStore.Controller

open Posix Block

/-- How many records fill a block. -/
def blockMax : ℕ := 128 * 1024

theorem toNat_maxCountDefault : seaBlockMaxCountDefault.toNat = blockMax := rfl

def place (base : UInt64) (i : ℕ) : UInt64 × UInt32 :=
  (blockIdAt base (i / blockMax), UInt32.ofNat (i % blockMax))

/-- The records with the places their writes are told. -/
def paired (base : UInt64) (recs : List Payload) : List ((UInt64 × UInt32) × Bytes) :=
  recs.mapIdx fun i p => (place base i, p.bytes)

def placesOf (base : UInt64) (recs : List Payload) : Places :=
  fun pair p => (pair, p.bytes) ∈ paired base recs

/-- The records of block `k` after `m` writes. -/
def blockRecords (recs : List Payload) (k m : ℕ) : List Payload :=
  (recs.take m).drop (k * blockMax)

variable {base : UInt64} {recs : List Payload} {k m n : ℕ} {p : Payload}

theorem mem_paired {pair : UInt64 × UInt32} {bytes : Bytes} :
    (pair, bytes) ∈ paired base recs ↔
      ∃ i q, recs[i]? = some q ∧ pair = place base i ∧ bytes = q.bytes := by
  rw [paired, List.mem_mapIdx]
  constructor
  · rintro ⟨i, hi, heq⟩
    obtain ⟨rfl, rfl⟩ := Prod.mk.inj heq
    exact ⟨i, recs[i], List.getElem?_eq_getElem hi, rfl, rfl⟩
  · rintro ⟨i, q, hq, rfl, rfl⟩
    obtain ⟨hi, rfl⟩ := List.getElem?_eq_some_iff.mp hq
    exact ⟨i, hi, rfl⟩

theorem blockIdAt_inj_of_lt {j k : ℕ} (hj : j < 2 ^ 64) (hk : k < 2 ^ 64)
    (h : blockIdAt base j = blockIdAt base k) : j = k := by
  have hsum : UInt64.ofNat j = UInt64.ofNat k := by
    simpa [blockIdAt] using h
  have hnat := congrArg UInt64.toNat hsum
  rw [UInt64.toNat_ofNat', UInt64.toNat_ofNat'] at hnat
  omega

/-- Only the last of all ids is the super block's own. -/
theorem blockIdAt_eq_base (hk : k + 1 < 2 ^ 64) : base ≠ blockIdAt base k := by
  intro h
  have hnat := congrArg UInt64.toNat h
  have hbase := base.toNat_lt
  rw [blockIdAt, UInt64.toNat_add, UInt64.toNat_add, UInt64.toNat_ofNat', UInt64.toNat_one] at hnat
  omega

theorem place_inj {i j : ℕ} (hi : i < 2 ^ 64 * blockMax) (hj : j < 2 ^ 64 * blockMax)
    (h : place base i = place base j) : i = j := by
  obtain ⟨hblock, hrecord⟩ := Prod.mk.inj h
  simp only [blockMax] at *
  have hquot := blockIdAt_inj_of_lt (by omega) (by omega) hblock
  have hrem := congrArg UInt32.toNat hrecord
  rw [UInt32.toNat_ofNat', UInt32.toNat_ofNat'] at hrem
  omega

/-- No two places are the same before the ids run out. -/
theorem paired_nodup (hfew : recs.length ≤ 2 ^ 64 * blockMax) :
    ((paired base recs).map Prod.fst).Nodup := by
  have hplaces : (paired base recs).map Prod.fst = (List.range recs.length).map (place base) := by
    apply List.ext_getElem
    · simp [paired]
    · intro i h₁ h₂
      simp [paired]
  rw [hplaces]
  apply List.Nodup.map_on _ List.nodup_range
  intro i hi j hj h
  rw [List.mem_range] at hi hj
  exact place_inj (by omega) (by omega) h

theorem blockRecords_length (hm : m ≤ recs.length) :
    (blockRecords recs k m).length = m - k * blockMax := by
  rw [blockRecords, List.length_drop, List.length_take, Nat.min_eq_left hm]

theorem blockRecords_succ (hp : recs[m]? = some p) (hk : k * blockMax ≤ m) :
    blockRecords recs k (m + 1) = blockRecords recs k m ++ [p] := by
  obtain ⟨hm, -⟩ := List.getElem?_eq_some_iff.mp hp
  rw [blockRecords, blockRecords, List.take_add_one, hp, Option.toList_some,
    List.drop_append_of_le_length]
  rw [List.length_take]
  omega

theorem inPlace_blockRecords (hm : m ≤ (k + 1) * blockMax) :
    InPlace (placesOf base recs) (blockIdAt base k)
      (UInt32.ofNat (blockRecords recs k m).length) (blockRecords recs k m) := by
  intro recordId hlt
  have hlen : (blockRecords recs k m).length ≤ blockMax := by
    rw [blockRecords, List.length_drop, List.length_take]
    rw [Nat.succ_mul] at hm
    omega
  have hmax : blockMax < 2 ^ 32 := by decide
  rw [UInt32.lt_iff_toNat_lt, UInt32.toNat_ofNat', Nat.mod_eq_of_lt (by omega)] at hlt
  have hq : (blockRecords recs k m)[recordId.toNat]? =
      some (blockRecords recs k m)[recordId.toNat] := List.getElem?_eq_getElem hlt
  refine ⟨_, hq, mem_paired.mpr ⟨k * blockMax + recordId.toNat, _, ?_, ?_, rfl⟩⟩
  · rw [← hq, blockRecords, List.getElem?_drop, List.getElem?_take_of_lt]
    rw [blockRecords, List.length_drop, List.length_take] at hlt
    omega
  · have hrecord : recordId.toNat < blockMax := by omega
    have hpos : 0 < blockMax := by decide
    rw [place, Nat.mul_comm, Nat.mul_add_div hpos, Nat.div_eq_of_lt hrecord, Nat.add_zero,
      Nat.mul_add_mod, Nat.mod_eq_of_lt hrecord, UInt32.ofNat_toNat]

theorem InPlace.append {places : Places} {id : UInt64} {count : UInt32} {more : List Payload}
    (h : InPlace places id count recs) : InPlace places id count (recs ++ more) := by
  intro recordId hlt
  obtain ⟨q, hq, hbelongs⟩ := h recordId hlt
  obtain ⟨hin, -⟩ := List.getElem?_eq_some_iff.mp hq
  exact ⟨q, by rw [List.getElem?_append_left hin, hq], hbelongs⟩

section Calls

variable {places : Places} {t : FileTree SeaPath} {id : UInt64} {idOf : String → UInt64}

/-- A new block appears to readers with its data file, after its header. -/
theorem publishes_seaBlockCreate (habs : Absent t dataDir id) (now maxSize maxCount : UInt64) :
    (seaBlockCreate ⟨now, .whole⟩ dataDir id maxSize maxCount).Steps serve
      (Publishes places) t := by
  obtain ⟨g, hheader⟩ := headerWrite_whole .empty (createdHeader id maxCount now)
  have hindex : ∀ file : File, (t.set (.index dataDir id) file) (.data dataDir id) = none := by
    intro file
    rw [FileTree.set_other _ _ (by simp), habs.1]
  have hset : (t.set (.index dataDir id) g).set (.data dataDir id) .empty (.index dataDir id) =
      some g := by
    rw [FileTree.set_other _ _ (by simp), FileTree.set_self]
  apply steps_seaBlockCreate habs hheader
  · apply publishes_of_no_data _ habs.1 (Or.inl (hindex .empty))
    intro path _ hi
    exact FileTree.set_other _ _ hi
  · apply publishes_of_no_data _ (hindex .empty) (Or.inl (hindex g))
    intro path _ hi
    rw [FileTree.set_other _ _ hi, FileTree.set_other _ _ hi]
  · apply publishes_of_no_data _ (hindex g)
    · apply Stored.blockShows (stored_created hheader) (FileTree.set_self _ _ _) hset
      intro recordId hlt
      rw [UInt32.lt_iff_toNat_lt] at hlt
      exact absurd hlt (Nat.not_lt_zero _)
    · intro path hd _
      exact FileTree.set_other _ _ hd

theorem publishes_controllerBlock {controller : SeaController} {recs : List Payload}
    (h : Ready t controller recs) (now : UInt64) :
    (controllerBlock ⟨now, .whole⟩ controller controller.superBlock.blockId).Steps serve
      (Publishes places) t := by
  have hrefl := Publishes.refl places
  unfold controllerBlock
  unfold Ready at h
  cases hblock : controller.block with
  | some block => trivial
  | none =>
    simp only [hblock] at h ⊢
    apply ((quiet_seaBlockOpen _ _).steps hrefl).bind
    intro opened t₁ hopen
    obtain rfl := (quiet_seaBlockOpen _ _).run_eq hopen
    cases opened with
    | some block => exact (quiet_seaBlockOpen _ _).steps hrefl
    | none =>
      rcases h with ⟨habs, -⟩ | ⟨hdr, -, -, himg⟩
      · apply (publishes_seaBlockCreate habs _ _ _).bind
        intro ret t₂ _
        exact (quiet_seaBlockOpen _ _).steps hrefl
      · rw [run_seaBlockOpen himg] at hopen
        exact absurd hopen (by simp)

theorem publishes_expire {superBlock : SuperBlock} (e : StoreEnv)
    (h : NewBlock t superBlock.dir (idOf superBlock.controllerName)) :
    (controllerSuperBlockExpireBlockId idOf e superBlock).Steps serve (Publishes places) t := by
  have hrefl := Publishes.refl places
  obtain ⟨hdr, hcount, -, himg⟩ := h.counted
  unfold controllerSuperBlockExpireBlockId syncSuperBlockToDisk
  simp only []
  apply Program.Steps.bind
  · apply ((quiet_seaBlockOpen _ _).steps hrefl).bind_of_run (run_seaBlockOpen himg)
    simp only []
    apply Program.Steps.bind
    · unfold seaBlockUpdate
      have hpast : (openedBlock superBlock.dir (idOf superBlock.controllerName)
          hdr).index.header.count ≤ 0 := by
        rw [openedBlock_header, hcount]
        exact UInt32.le_refl 0
      exact ((quiet_seaBlockIndexQueryByRecordId _ _).steps hrefl).bind_of_run
        (run_indexQuery_past hpast) trivial
    · intro ret t' _
      trivial
  · intro ret t' _
    trivial

theorem count_bump {block : SeaBlock} (h : Counts t dataDir id block recs) (now : UInt64)
    (p : Payload) (hfit : recs.length + 1 < 2 ^ 32) :
    (block.index.header.bump now).count = UInt32.ofNat (recs ++ [p]).length ∧
      block.index.header.count ≤ (block.index.header.bump now).count := by
  have hcount : (block.index.header.bump now).count = UInt32.ofNat (recs ++ [p]).length := by
    rw [SeaBlockIndexHeader.bump, h.count, List.length_append, List.length_singleton,
      UInt32.ofNat_add]
    rfl
  refine ⟨hcount, ?_⟩
  rw [hcount, h.count, UInt32.le_iff_toNat_le, UInt32.toNat_ofNat', UInt32.toNat_ofNat',
    List.length_append, List.length_singleton]
  omega

/-- The frame, then its entry, then the count: no change takes a record away or
shows one too early. -/
theorem publishes_seaBlockAppend (places : Places) {block : SeaBlock} {recs : List Payload}
    {f : File} (h : Counts t dataDir id block recs) (hf : t (.data dataDir id) = some f)
    (a : Ambient)
    {p : Payload} (hroom : f.size + p.bytes.length + 16 ≤ offMax) (hfit : recs.length + 1 < 2 ^ 32)
    (hplace : InPlace places id (UInt32.ofNat recs.length) recs)
    (hplace' : InPlace places id (UInt32.ofNat (recs ++ [p]).length) (recs ++ [p])) :
    ∃ result block' t', (seaBlockAppend a .none block p.bytes p.length).run serve t =
        some ((result, block'), t') ∧
      (seaBlockAppend a .none block p.bytes p.length).Steps serve (Publishes places) t ∧
      Appended t t' dataDir id block.index.header recs a p result block' ∧
      ∃ f', t' (.data dataDir id) = some f' ∧ f'.size = f.size + p.bytes.length + 16 := by
  obtain ⟨f₀, g, entries, hf₀, hg, hst⟩ := h.held.2
  obtain rfl : f₀ = f := Option.some.inj (hf₀.symm.trans hf)
  have hframe : FrameCompletes f₀ a Faults.none.frame p :=
    (frameCompletes_iff f₀ a .whole p).mpr ⟨Outcome.full_whole _, hroom⟩
  obtain ⟨g', hentry⟩ := entryWrite_full hst (Outcome.full_whole _) (newEntry f₀ a) (by omega)
  obtain ⟨g'', hheader⟩ := headerWrite_whole g' (block.index.header.bump a.now)
  obtain ⟨result, block', t', hrun, happ⟩ :=
    append_appended h.held.1 hf hg hst hframe hentry hheader
  obtain ⟨f', -, hf', -, hbytes, -⟩ := happ.stored f₀ g _ entries hf hg hst
  refine ⟨result, block', t', hrun, ?_, happ, f', hf', ?_⟩
  · -- what each of the three changes leaves stored
    have hst₁ := hst.grow (frameWrite_grows f₀ a .whole p)
    have hst₂ := hst₁.add_entry hentry hframe.frameAt
    have hst₃ := hst₂.put_header hheader
    obtain ⟨hcount, hle⟩ := count_bump h a.now p hfit
    have hframe' : frameWrite f₀ a .whole p =
        (.ok (p.frame a).length, (frameWrite f₀ a .whole p).2) := Prod.ext hframe rfl
    have hdata : ∀ file : File, (t.set (.data dataDir id) (frameWrite f₀ a .whole p).2).set
        (.index dataDir id) file (.data dataDir id) = some (frameWrite f₀ a .whole p).2 := by
      intro file
      rw [FileTree.set_other _ _ (by simp), FileTree.set_self]
    have hindex : (t.set (.data dataDir id) (frameWrite f₀ a .whole p).2) (.index dataDir id) =
        some g := by rw [FileTree.set_other _ _ (by simp), hg]
    apply steps_seaBlockAppend (Publishes.refl places) h.held.1 hf hg hframe' hentry hheader
    · apply publishes_of_stored _ hf hg hst (FileTree.set_self _ _ _) hindex hst₁
        (frameWrite_grows f₀ a .whole p) List.prefix_rfl (UInt32.le_refl _)
      · rw [h.count]
        exact hplace
      · intro path hd _
        exact FileTree.set_other _ _ hd
    · apply publishes_of_stored _ (FileTree.set_self _ _ _) hindex hst₁ (hdata g')
        (FileTree.set_self _ _ _) hst₂ List.prefix_rfl (List.prefix_append _ _) (UInt32.le_refl _)
      · rw [h.count]
        exact hplace.append
      · intro path _ hi
        exact FileTree.set_other _ _ hi
    · apply publishes_of_stored _ (hdata g') (FileTree.set_self _ _ _) hst₂ (hdata g'')
        (FileTree.set_self _ _ _) hst₃ List.prefix_rfl List.prefix_rfl hle
      · rw [hcount]
        exact hplace'
      · intro path _ hi
        rw [FileTree.set_other _ _ hi, FileTree.set_other _ _ hi]
  · rw [File.size, hbytes, List.length_append, p.frame_length, File.size]
    omega

end Calls

end SeaStore.Controller
