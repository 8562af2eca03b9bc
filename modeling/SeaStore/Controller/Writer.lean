import SeaStore.Block.Arguments
import SeaStore.Controller.Writing

/-!
A call of the one writer from its start to its return. Between two calls the
controller is idle: the current block holds the records that are left when the
full blocks are taken away, and the blocks of all later ids are still to come.
-/
namespace SeaStore.Controller

open Posix Block

/-- A write: what its surroundings decide, and its arguments. -/
structure WriteCall where
  now : UInt64
  ambient : Ambient
  store : StoreEnv
  buf : Bytes
  bufLen : Int32

variable (idOf : String → UInt64) (dir : String) (recs : List Payload)

namespace WriteCall

def record (w : WriteCall) : Option Payload := payloadOf w.buf w.bufLen

def env (w : WriteCall) : WriteEnv := ⟨⟨w.now, .whole⟩, w.ambient, .none, w.store⟩

def program (w : WriteCall) (controller : SeaController) : Prog (WriteResult × SeaController) :=
  seaControllerWriteLocal idOf w.env controller w.buf w.bufLen

end WriteCall

/-- The controller after `n` records. -/
structure Idle (n : ℕ) (t : FileTree SeaPath) (controller : SeaController) : Prop where
  superBlock : controller.superBlock =
    ⟨controllerName, dir, blockIdAt (idOf controllerName) (n / blockMax)⟩
  ready : Ready t controller (blockRecords recs (n / blockMax) n)
  roomy : ∀ f, t (.data dataDir (blockIdAt (idOf controllerName) (n / blockMax))) = some f →
    f.size ≤ 2 ^ 31 * (n % blockMax)
  later : ∀ k, n / blockMax < k → k < 2 ^ 64 →
    Vacant t dataDir (blockIdAt (idOf controllerName) k)
  superNew : (dir = dataDir → n / blockMax + 1 < 2 ^ 64) → NewBlock t dir (idOf controllerName)

/-- A reader can open the block and finds that it counts the record. -/
def Published (t : FileTree SeaPath) (pair : UInt64 × UInt32) : Prop :=
  ∃ f g, Present t pair.1 f g ∧ pair.2 < headerCount g

variable {idOf dir recs} {t t' : FileTree SeaPath} {controller controller' : SeaController}
  {n : ℕ} {p : Payload} {w : WriteCall}

theorem Published.grows {pair : UInt64 × UInt32} (h : Published t pair) (hgrows : Grows t t') :
    Published t' pair := by
  obtain ⟨f, g, hpresent, hlt⟩ := h
  obtain ⟨f', g', hpresent', hgrown⟩ := hgrows pair.1 f g hpresent
  exact ⟨f', g', hpresent', UInt32.lt_of_lt_of_le hlt hgrown.count⟩

theorem published_of_counted {id : UInt64} {recs : List Payload} {recordId : UInt32}
    (h : CountedBlock t dataDir id recs) (hlt : recordId < UInt32.ofNat recs.length) :
    Published t (id, recordId) := by
  obtain ⟨hdr, hcount, -, f, g, entries, hf, hg, hst⟩ := h
  refine ⟨f, g, Stored.present hst hf hg, ?_⟩
  rw [Stored.headerCount_eq hst, hcount]
  exact hlt

theorem Vacant.of_agreeOff {dir' : String} {id id' : UInt64} (h : Vacant t dir id)
    (hagree : AgreeOff t t' dir' id') (hne : ¬ (dir = dir' ∧ id = id')) : Vacant t' dir id := by
  rcases h with habs | hnew
  · exact Or.inl (hagree.absent hne habs)
  · exact Or.inr (hnew.of_agreeOff hagree hne)

/-- A controller that holds no block is ready at one that is still to come. -/
theorem Vacant.ready {super : SuperBlock} (h : Vacant t dataDir super.blockId) :
    Ready t ⟨super, none⟩ [] := by
  rcases h with habs | hnew
  · exact Or.inl ⟨habs, rfl⟩
  · exact Or.inr hnew.counted

theorem Vacant.size_eq_zero {id : UInt64} {f : File} (h : Vacant t dataDir id)
    (hf : t (.data dataDir id) = some f) : f.size = 0 := by
  rcases h with habs | hnew
  · exact absurd (habs.1.symm.trans hf) (by simp)
  · obtain rfl : File.empty = f := Option.some.inj (hnew.data.symm.trans hf)
    rfl

theorem succ_div_mod (n : ℕ) :
    (n % blockMax + 1 < blockMax ∧ (n + 1) / blockMax = n / blockMax ∧
      (n + 1) % blockMax = n % blockMax + 1) ∨
    (n % blockMax + 1 = blockMax ∧ (n + 1) / blockMax = n / blockMax + 1 ∧
      (n + 1) % blockMax = 0) := by
  simp only [blockMax]
  omega

theorem blockRecords_length_mod (hn : n ≤ recs.length) :
    (blockRecords recs (n / blockMax) n).length = n % blockMax := by
  rw [blockRecords_length hn]
  simp only [blockMax]
  omega

/-- The arguments of a payload are those of a write of that payload. -/
theorem program_of_record (h : w.record = some p) (controller : SeaController) :
    w.program idOf controller = seaControllerWriteLocal idOf w.env controller p.bytes p.length := by
  unfold WriteCall.program seaControllerWriteLocal
  simp only [seaBlockAppend_payloadOf h]

namespace Idle

/-- What happens to the current block leaves the blocks that are still to come
and the one of the super block as they were. -/
theorem others (h : Idle idOf dir recs n t controller)
    (hagree : AgreeOff t t' dataDir (blockIdAt (idOf controllerName) (n / blockMax))) :
    (∀ k, n / blockMax < k → k < 2 ^ 64 →
      Vacant t' dataDir (blockIdAt (idOf controllerName) k)) ∧
    ((dir = dataDir → n / blockMax + 1 < 2 ^ 64) → NewBlock t' dir (idOf controllerName)) := by
  constructor
  · intro k hlt hk
    apply (h.later k hlt hk).of_agreeOff hagree
    intro hsame
    have heq := blockIdAt_inj_of_lt hk (by omega) hsame.2
    omega
  · intro hlast
    apply (h.superNew hlast).of_agreeOff hagree
    intro hsame
    exact blockIdAt_eq_base (hlast hsame.1) hsame.2

theorem canExpire (h : Idle idOf dir recs n t controller) (hlast : n / blockMax + 1 < 2 ^ 64) :
    CanExpire idOf t controller.superBlock := by
  rw [h.superBlock]
  exact ⟨h.superNew fun _ => hlast, fun hsame => blockIdAt_eq_base hlast hsame.2⟩

/-- The controller gets a handle of its current block, which it may keep. -/
theorem opened (h : Idle idOf dir recs n t controller) (w : WriteCall) :
    ∃ block t₁,
      (controllerBlock w.env.create controller controller.superBlock.blockId).run serve t =
        some (some block, t₁) ∧
      Working t₁ controller.superBlock.blockId block (blockRecords recs (n / blockMax) n) ∧
      AgreeOff t t₁ dataDir controller.superBlock.blockId ∧
      Idle idOf dir recs n t₁ { controller with block := some block } := by
  obtain ⟨block, t₁, hblock, hwork, hagree, hdata⟩ := run_controllerBlock h.ready w.now
  refine ⟨block, t₁, hblock, hwork, hagree, ?_⟩
  rw [h.superBlock] at hagree hdata
  obtain ⟨hlater, hsuper⟩ := h.others hagree
  refine ⟨h.superBlock, hwork, ?_, hlater, hsuper⟩
  intro f hf
  rcases hdata with hsame | hempty
  · exact h.roomy f (hsame.symm.trans hf)
  · obtain rfl : File.empty = f := Option.some.inj (hempty.symm.trans hf)
    exact Nat.zero_le _

/-- The controller gets a handle of its block, and the append is published. -/
theorem append (h : Idle idOf dir recs n t controller) (hp : recs[n]? = some p) (w : WriteCall) :
    ∃ block t₁ appended block' t₂,
      (controllerBlock w.env.create controller controller.superBlock.blockId).run serve t =
        some (some block, t₁) ∧
      Working t₁ controller.superBlock.blockId block (blockRecords recs (n / blockMax) n) ∧
      AgreeOff t t₁ dataDir controller.superBlock.blockId ∧
      (seaBlockAppend w.env.ambient w.env.faults block p.bytes p.length).run serve t₁ =
        some ((appended, block'), t₂) ∧
      (seaBlockAppend w.env.ambient w.env.faults block p.bytes p.length).Steps serve
        (Publishes (placesOf (idOf controllerName) recs)) t₁ ∧
      Appended t₁ t₂ dataDir controller.superBlock.blockId block.index.header
        (blockRecords recs (n / blockMax) n) w.env.ambient p appended block' ∧
      ∀ f, t₂ (.data dataDir controller.superBlock.blockId) = some f →
        f.size ≤ 2 ^ 31 * (n % blockMax + 1) := by
  have hid : controller.superBlock.blockId = blockIdAt (idOf controllerName) (n / blockMax) := by
    rw [h.superBlock]
  obtain ⟨hn, -⟩ := List.getElem?_eq_some_iff.mp hp
  have hlen := blockRecords_length_mod (Nat.le_of_lt hn)
  have hdivMod : n < (n / blockMax + 1) * blockMax ∧ n % blockMax < blockMax := by
    simp only [blockMax]
    omega
  have hmax : blockMax = 131072 := rfl
  obtain ⟨block, t₁, hblock, hwork, hagree, hidle⟩ := h.opened w
  obtain ⟨f, g, entries, hf, hg, hst⟩ := hwork.counts.held.2
  have hsize := hidle.roomy f (by rw [← hid, hf])
  have hlt := p.length_lt
  obtain ⟨appended, block', t₂, happend, hsteps, happ, f', hf', hsize'⟩ :=
    publishes_seaBlockAppend (placesOf (idOf controllerName) recs) (p := p) hwork.counts hf
      w.ambient (by simp only [offMax]; omega) (by omega)
      (by rw [hid]; exact inPlace_blockRecords (by omega))
      (by
        rw [hid, ← blockRecords_succ hp (Nat.div_mul_le_self n blockMax)]
        exact inPlace_blockRecords (by omega))
  refine ⟨block, t₁, appended, block', t₂, hblock, hwork, hagree, happend, hsteps, happ, ?_⟩
  intro f₂ hf₂
  obtain rfl : f' = f₂ := Option.some.inj (hf'.symm.trans hf₂)
  omega

theorem succ (h : Idle idOf dir recs n t controller) (hp : recs[n]? = some p)
    (hn : n + 1 < 2 ^ 64 * blockMax) {result : WriteResult}
    (hlog : Logged t t' controller controller' (blockRecords recs (n / blockMax) n) p result)
    (hsize : ∀ f, t' (.data dataDir (blockIdAt (idOf controllerName) (n / blockMax))) = some f →
      f.size ≤ 2 ^ 31 * (n % blockMax + 1)) :
    Idle idOf dir recs (n + 1) t' controller' := by
  obtain ⟨hlt, -⟩ := List.getElem?_eq_some_iff.mp hp
  have hlen := blockRecords_length_mod (Nat.le_of_lt hlt)
  have hagree := hlog.agree
  rw [h.superBlock] at hagree
  obtain ⟨hlater, hsuper⟩ := h.others hagree
  rcases succ_div_mod n with ⟨hroom, hdiv, hmod⟩ | ⟨hfull, hdiv, hmod⟩
  · obtain ⟨hsame, hready⟩ := hlog.room (by rw [hlen, toNat_maxCountDefault]; exact hroom)
    rw [← blockRecords_succ hp (Nat.div_mul_le_self n blockMax)] at hready
    constructor
    · rw [hsame, h.superBlock, hdiv]
    · rw [hdiv]
      exact hready
    · rw [hdiv, hmod]
      exact hsize
    · rw [hdiv]
      exact hlater
    · rw [hdiv]
      exact hsuper
  · have hlast : n / blockMax + 1 < 2 ^ 64 := by
      simp only [blockMax] at *
      omega
    have hnext := hlater (n / blockMax + 1) (Nat.lt_succ_self _) hlast
    obtain rfl := hlog.full (by rw [hlen, toNat_maxCountDefault, hfull])
    have hnil : blockRecords recs (n / blockMax + 1) (n + 1) = [] := by
      apply List.eq_nil_of_length_eq_zero
      rw [← hdiv, blockRecords_length_mod (by omega), hmod]
    constructor
    · rw [h.superBlock, hdiv]
      simp only [blockIdAt_succ]
    · rw [hdiv, hnil]
      apply Vacant.ready
      rw [h.superBlock]
      simp only [blockIdAt_succ]
      exact hnext
    · rw [hdiv, hmod]
      intro f hf
      exact Nat.le_of_eq (hnext.size_eq_zero hf)
    · rw [hdiv]
      intro k hk
      exact hlater k (by omega)
    · rw [hdiv]
      intro _
      exact hsuper fun _ => hlast

/-- A write of a record publishes it at the next place. -/
theorem write (h : Idle idOf dir recs n t controller) (hrecord : w.record = some p)
    (hp : recs[n]? = some p) (hn : n + 1 < 2 ^ 64 * blockMax) :
    (w.program idOf controller).Steps serve (Publishes (placesOf (idOf controllerName) recs)) t ∧
    ∃ controller' t', (w.program idOf controller).run serve t =
        some ((⟨0, (place (idOf controllerName) n).1, some (place (idOf controllerName) n).2⟩,
          controller'), t') ∧
      Idle idOf dir recs (n + 1) t' controller' ∧
      Published t' (place (idOf controllerName) n) := by
  have hid : controller.superBlock.blockId = blockIdAt (idOf controllerName) (n / blockMax) := by
    rw [h.superBlock]
  obtain ⟨hlt, -⟩ := List.getElem?_eq_some_iff.mp hp
  have hlen := blockRecords_length_mod (Nat.le_of_lt hlt)
  have hmod : n % blockMax < blockMax := Nat.mod_lt _ (by decide)
  have hmax : blockMax = 131072 := rfl
  have hexpire : seaBlockMaxCountDefault.toNat ≤
      (blockRecords recs (n / blockMax) n).length + 1 → CanExpire idOf t controller.superBlock := by
    intro hfull
    rw [hlen, toNat_maxCountDefault] at hfull
    apply h.canExpire
    simp only [blockMax] at *
    omega
  obtain ⟨block, t₁, appended, block', t₂, hblock, hwork, hagree, happend, hsteps, happ, hsize⟩ :=
    h.append hp w
  obtain ⟨result, controller', hrun, hlog⟩ := run_write_appended (e := w.env) idOf hblock hwork
    hagree happend happ (by omega) hexpire
  rw [program_of_record hrecord]
  refine ⟨?_, controller', t₂, ?_, h.succ hp hn hlog (by rw [← hid]; exact hsize), ?_⟩
  · -- the calls of the write, one after the other
    have hresult := happ.result_eq
    rw [overLimitOf_bump w.env.ambient.now hwork.counts.count hwork.maxCount (by omega)] at hresult
    obtain rfl := hresult
    apply (publishes_controllerBlock h.ready w.now).bind_of_run hblock
    apply hsteps.bind_of_run happend
    generalize hover : decide (seaBlockMaxCountDefault.toNat ≤
      (blockRecords recs (n / blockMax) n).length + 1) = atLimit
    cases atLimit with
    | true =>
      obtain ⟨hsuper, hne⟩ := hexpire (of_decide_eq_true hover)
      apply (publishes_expire _ (hsuper.of_agreeOff (hagree.trans happ.agree) hne)).bind
      intro superBlock t' _
      trivial
    | false => trivial
  · rw [hrun, hlog.result_eq, hid, hlen]
    rfl
  · have hcounted := hlog.counted
    rw [hid] at hcounted
    apply published_of_counted hcounted
    rw [UInt32.lt_iff_toNat_lt, List.length_append, List.length_singleton, hlen,
      UInt32.toNat_ofNat', UInt32.toNat_ofNat']
    omega

/-- Any other write appends nothing: if it meets no fault, it is refused. -/
theorem refuse (h : Idle idOf dir recs n t controller) (hrecord : w.record = none)
    {places : Places} :
    (w.program idOf controller).Steps serve (Publishes places) t ∧
    ∀ result controller' t', (w.program idOf controller).run serve t =
        some ((result, controller'), t') →
      result.ret ≠ 0 ∧ Idle idOf dir recs n t' controller' := by
  obtain ⟨block, t₁, hblock, -, -, hidle⟩ := h.opened w
  have hsteps : (controllerBlock w.env.create controller
      controller.superBlock.blockId).Steps serve (Publishes places) t :=
    publishes_controllerBlock h.ready w.now
  have hprogram : w.program idOf controller =
      seaControllerWriteLocal idOf w.env controller w.buf w.bufLen := rfl
  rw [hprogram]
  unfold seaControllerWriteLocal
  simp only [controllerSuperBlockGetBlockId]
  rw [Program.run_bind_of_run serve hblock]
  rcases seaBlockAppend_rejected hrecord w.env.ambient w.env.faults block with hpure | hfault
  · constructor
    · apply hsteps.bind_of_run hblock
      simp only [hpure]
      trivial
    · intro result controller' t' hrun
      simp only [hpure] at hrun
      obtain ⟨⟨rfl, rfl⟩, rfl⟩ : (_ = result ∧ _ = controller') ∧ t₁ = t' := by
        simpa only [Prod.mk.injEq] using Option.some.inj hrun
      have hret : EINVAL ≠ 0 := by decide
      exact ⟨hret, hidle⟩
  · constructor
    · apply hsteps.bind_of_run hblock
      simp only [hfault]
      trivial
    · intro result controller' t' hrun
      simp only [hfault] at hrun
      exact absurd hrun (by simp [Program.run_bind])

end Idle

theorem NewBlock.blockShows {places : Places} {id : UInt64} (h : NewBlock t dataDir id) :
    BlockShows places t id := by
  obtain ⟨hdr, hcount, -, f, g, entries, hf, hg, hst⟩ := h.counted
  apply Stored.blockShows hst hf hg
  intro recordId hlt
  rw [hcount, UInt32.lt_iff_toNat_lt] at hlt
  exact absurd hlt (Nat.not_lt_zero _)

/-- Where there are no blocks, a controller that has just been created is idle,
and a reader sees nothing. -/
theorem idle_created (recs : List Payload) (hempty : ∀ id, Absent t dataDir id)
    (hsuper : Absent t dir (idOf controllerName)) (now garbage : UInt64) :
    ∃ controller t', (seaControllerCreate idOf ⟨⟨now, .whole⟩, garbage⟩ dir).run serve t =
        some (controller, t') ∧
      Idle idOf dir recs 0 t' controller ∧
      Shows (placesOf (idOf controllerName) recs) t' := by
  obtain ⟨t', hrun, hnew, hagree⟩ := run_seaControllerCreate idOf now garbage (Or.inl hsuper)
  refine ⟨_, t', hrun, ?_, ?_⟩
  · have hvacant : ∀ id, Vacant t' dataDir id := by
      intro id
      by_cases hsame : dataDir = dir ∧ id = idOf controllerName
      · obtain ⟨rfl, rfl⟩ := hsame
        exact Or.inr hnew
      · exact Or.inl (hagree.absent hsame (hempty id))
    have hfirst : blockIdAt (idOf controllerName) (0 / blockMax) = idOf controllerName + 1 := by
      simp [blockIdAt]
    constructor
    · rw [hfirst]
    · have hnil : blockRecords recs (0 / blockMax) 0 = [] := by simp [blockRecords]
      rw [hnil]
      exact (hvacant _).ready
    · intro f hf
      exact Nat.le_of_eq ((hvacant _).size_eq_zero hf)
    · intro k _ _
      exact hvacant _
    · intro _
      exact hnew
  · intro id
    by_cases hsame : dataDir = dir ∧ id = idOf controllerName
    · obtain ⟨rfl, rfl⟩ := hsame
      exact hnew.blockShows
    · exact Or.inl (hagree.absent hsame (hempty id)).1

end SeaStore.Controller
