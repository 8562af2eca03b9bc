import SeaStore.Block.Update
import SeaStore.Controller.Readers

/-!
Where the ids run out. After `2 ^ 64` full blocks the controller writes to the
super block's own block; when that is full as well, storing the next id goes
over record 0 of it, and a reader takes the stored id for the record.
-/
namespace SeaStore.Controller

open Posix Block

variable {idOf : String → UInt64} {dir : String} {recs : List Payload}
  {t t' : FileTree SeaPath} {controller controller' : SeaController} {w : WriteCall} {p : Payload}

/-- What the super block stores, taken as a record. -/
def idPayload (id : UInt64) : Payload :=
  ⟨le64 id, List.ne_nil_of_length_pos (by rw [le64_length]; decide), by rw [le64_length]; decide⟩

/-- A reader finds `p` for record 0, whoever appended what. -/
def Shadowed (t : FileTree SeaPath) (id : UInt64) (p : Payload) : Prop :=
  ∃ f g, Present t id f g ∧ 0 < headerCount g ∧ EntryAt f g 0 p

/-- Storing the id over a block that has records puts it in the place of the first. -/
theorem run_expire_counted (super : SuperBlock) (hdir : super.dir = dataDir)
    (h : CountedBlock t super.dir (idOf super.controllerName) recs) (hpos : 0 < recs.length)
    (hfit : recs.length < 2 ^ 32)
    (hroom : ∀ f, t (.data super.dir (idOf super.controllerName)) = some f →
      f.size + 8 ≤ offMax) (a : Ambient) :
    ∃ t', (controllerSuperBlockExpireBlockId idOf ⟨a, .whole⟩ super).run serve t =
        some ({ super with blockId := super.blockId + 1 }, t') ∧
      Shadowed t' (idOf super.controllerName) (idPayload (super.blockId + 1)) := by
  obtain ⟨hdr, hcount, -, himg⟩ := h
  obtain ⟨f, g, entries, hf, hg, hst⟩ := himg
  have hnat : hdr.count.toNat = recs.length := by
    rw [hcount, UInt32.toNat_ofNat', Nat.mod_eq_of_lt hfit]
  obtain ⟨e, he, hframe⟩ := hst.frame_at (i := 0) (List.getElem?_eq_getElem hpos)
  have hend := hframe.end_le
  have hsize := hroom f hf
  rw [File.size] at hsize
  have hpast :
      ¬ (openedBlock super.dir (idOf super.controllerName) hdr).index.header.count ≤ 0 := by
    rw [openedBlock_header, UInt32.le_iff_toNat_le, hnat]
    exact Nat.not_le.mpr hpos
  have hlen : (idPayload (super.blockId + 1)).bytes.length = 8 := le64_length _
  have hlength : (idPayload (super.blockId + 1)).length = 8 := by
    rw [Payload.length, hlen]
    rfl
  obtain ⟨block', f', hrun, -, -, hbytes⟩ :=
    run_seaBlockUpdate_hit (p := idPayload (super.blockId + 1))
      (openedBlock_on super.dir (idOf super.controllerName) hdr) hf hg hst hpast he a
      (by rw [hlen]; omega)
  have hle64 : (idPayload (super.blockId + 1)).bytes = le64 (super.blockId + 1) := rfl
  rw [hlength, hle64] at hrun
  have hg' : t.set (.data super.dir (idOf super.controllerName)) f'
      (.index super.dir (idOf super.controllerName)) = some g := by
    rw [FileTree.set_other _ _ (by simp), hg]
  refine ⟨t.set (.data super.dir (idOf super.controllerName)) f', ?_, f', g, ⟨?_, ?_, ?_⟩, ?_,
    e, ?_, ?_⟩
  · unfold controllerSuperBlockExpireBlockId syncSuperBlockToDisk
    simp only []
    rw [Program.run_bind, Program.run_bind_of_run serve (run_seaBlockOpen
      ⟨f, g, entries, hf, hg, hst⟩)]
    simp only []
    rw [Program.run_bind_of_run serve hrun]
    rfl
  · rw [← hdir]
    exact FileTree.set_self _ _ _
  · rw [← hdir]
    exact hg'
  · rw [hst.index_size]
    exact Nat.le_add_right _ _
  · rw [Stored.headerCount_eq hst, UInt32.lt_iff_toNat_lt, hnat]
    exact hpos
  · exact hst.entry_bytes he
  · rw [hbytes]
    exact frameAt_overlay (by omega) a _

/-- The last id of all is the super block's own. -/
theorem blockIdAt_last (base : UInt64) : blockIdAt base (2 ^ 64 - 1) = base := by
  apply UInt64.toNat_inj.mp
  have hbase := base.toNat_lt
  rw [blockIdAt, UInt64.toNat_add, UInt64.toNat_add, UInt64.toNat_ofNat', UInt64.toNat_one]
  omega

/-- The write that fills the last block of all returns its place as any other
does, and leaves the id in the place of the block's first record. -/
theorem Idle.last_write {n : ℕ} (h : Idle idOf dataDir recs n t controller)
    (hrecord : w.record = some p) (hp : recs[n]? = some p) (hn : n + 1 = 2 ^ 64 * blockMax)
    (hstore : w.store.frame = .whole) :
    ∃ controller' t', (w.program idOf controller).run serve t =
        some ((⟨0, (place (idOf controllerName) n).1, some (place (idOf controllerName) n).2⟩,
          controller'), t') ∧
      Shadowed t' (idOf controllerName) (idPayload (idOf controllerName + 1)) := by
  have hlast : n / blockMax = 2 ^ 64 - 1 ∧ n % blockMax = 131071 := by
    simp only [blockMax] at hn ⊢
    omega
  have hsuper : controller.superBlock =
      ⟨controllerName, dataDir, idOf controllerName⟩ := by
    rw [h.superBlock, hlast.1, blockIdAt_last]
  obtain ⟨hlt, -⟩ := List.getElem?_eq_some_iff.mp hp
  have hlen := blockRecords_length_mod (Nat.le_of_lt hlt)
  obtain ⟨block, t₁, appended, block', t₂, hblock, hwork, -, happend, -, happ, hsize⟩ :=
    h.append hp w
  have hresult := happ.result_eq
  rw [overLimitOf_bump w.env.ambient.now hwork.counts.count hwork.maxCount (by omega),
    hwork.counts.count] at hresult
  obtain rfl := hresult
  have hcounted := (working_of_appended hwork happ).counted
  rw [hsuper] at hcounted hsize
  have hfull : (blockRecords recs (n / blockMax) n ++ [p]).length = 131072 := by
    rw [List.length_append, List.length_singleton, hlen, hlast.2]
  obtain ⟨t', hexpire, hshadowed⟩ := run_expire_counted controller.superBlock (by rw [hsuper])
    (by rw [hsuper]; exact hcounted) (by omega) (by omega)
    (by
      rw [hsuper]
      intro f hf
      have hle := hsize f hf
      simp only [offMax]
      omega)
    w.store.ambient
  have hstoreEq : w.env.store = ⟨w.store.ambient, .whole⟩ := by
    rw [← hstore]
    rfl
  have hover : decide (seaBlockMaxCountDefault.toNat ≤
      (blockRecords recs (n / blockMax) n).length + 1) = true := by
    rw [decide_eq_true_eq, toNat_maxCountDefault, hlen, hlast.2]
    decide
  rw [← hstoreEq] at hexpire
  rw [hsuper] at hshadowed
  refine ⟨⟨{ controller.superBlock with blockId := controller.superBlock.blockId + 1 }, none⟩, t',
    ?_, hshadowed⟩
  rw [program_of_record hrecord]
  unfold seaControllerWriteLocal
  simp only [controllerSuperBlockGetBlockId]
  rw [Program.run_bind_of_run serve hblock]
  simp only []
  rw [Program.run_bind_of_run serve happend, hover]
  simp only [ne_eq, not_true_eq_false, if_false, if_true, Option.getD_some]
  rw [Program.run_bind_of_run serve hexpire, hlen, hsuper]
  simp only [place, hlast.1, blockIdAt_last]
  rfl

section Turns

variable {tree tree' : FileTree SeaPath} (pending : List WriteCall) (acked : Acked)
  (readers : List (ReadCall × Prog QueryResult)) (answers : List (ReadCall × QueryResult))

/-- Turn after turn the writer ends what is left of its write. -/
theorem busy_turns {rest : Prog (WriteResult × SeaController)} {result : WriteResult}
    (hrun : rest.run serve tree = some ((result, controller'), tree')) :
    ∃ k, runSteps (sharedStep idOf) ⟨tree, pending, .busy w rest, acked, readers, answers⟩
        (List.replicate k .write) =
      some ⟨tree', pending, .idle controller', acked ++ w.acknowledge result, readers,
        answers⟩ := by
  induction rest generalizing tree with
  | pure value =>
    obtain ⟨rfl, rfl⟩ := Prod.mk.inj (Option.some.inj hrun)
    exact ⟨1, rfl⟩
  | fault => exact absurd hrun (by simp [Program.run])
  | call c next ih =>
    obtain ⟨k, hk⟩ := ih _ hrun
    exact ⟨k + 1, hk⟩

theorem write_turns {result : WriteResult}
    (hrun : (w.program idOf controller).run serve tree = some ((result, controller'), tree')) :
    ∃ turns, runSteps (sharedStep idOf)
        ⟨tree, w :: pending, .idle controller, acked, readers, answers⟩ turns =
      some ⟨tree', pending, .idle controller', acked ++ w.acknowledge result, readers,
        answers⟩ := by
  obtain ⟨k, hk⟩ := busy_turns pending acked readers answers hrun
  exact ⟨.write :: List.replicate k .write, hk⟩

theorem reading_turns {call : ReadCall} {rest : Prog QueryResult} {result : QueryResult}
    {writer : Writer} (hquiet : rest.Quiet serve)
    (hrun : rest.run serve tree = some (result, tree)) :
    ∃ k, runSteps (sharedStep idOf) ⟨tree, pending, writer, acked, [(call, rest)], answers⟩
        (List.replicate k (.read 0)) =
      some ⟨tree, pending, writer, acked, [], answers ++ [(call, result)]⟩ := by
  induction rest with
  | pure value =>
    obtain ⟨rfl, -⟩ := Prod.mk.inj (Option.some.inj hrun)
    exact ⟨1, rfl⟩
  | fault => exact absurd hrun (by simp [Program.run])
  | call c next ih =>
    obtain ⟨hsame, hnext⟩ := hquiet
    rw [Program.run, hsame tree] at hrun
    obtain ⟨k, hk⟩ := ih (serve c tree).1 (hnext _) hrun
    refine ⟨k + 1, ?_⟩
    rw [← hk]
    have hstep : sharedStep idOf ⟨tree, pending, writer, acked, [(call, .call c next)], answers⟩
        (.read 0) = some ⟨(serve c tree).2, pending, writer, acked,
          [(call, next (serve c tree).1)], answers⟩ := rfl
    rw [List.replicate_succ, runSteps, hstep, hsame tree]
    rfl

theorem fill_turns {total : ℕ} (hrecord : w.record = some p) (j : ℕ) :
    ∀ {n : ℕ} {tree controller}, n + j < total → total ≤ 2 ^ 64 * blockMax →
      Idle idOf dir (List.replicate total p) n tree controller →
      ∃ turns tree' controller', runSteps (sharedStep idOf)
          ⟨tree, List.replicate j w ++ pending, .idle controller,
            (paired (idOf controllerName) (List.replicate total p)).take n, readers, answers⟩
          turns =
        some ⟨tree', pending, .idle controller',
          (paired (idOf controllerName) (List.replicate total p)).take (n + j), readers,
          answers⟩ ∧
        Idle idOf dir (List.replicate total p) (n + j) tree' controller' := by
  induction j with
  | zero =>
    intro n tree controller _ _ h
    exact ⟨[], tree, controller, rfl, h⟩
  | succ j ih =>
    intro n tree controller hn hfew h
    have hp : (List.replicate total p)[n]? = some p := by
      rw [List.getElem?_replicate, if_pos (by omega)]
    obtain ⟨-, controller₁, tree₁, hrun, hidle, -⟩ := h.write hrecord hp (by omega)
    obtain ⟨turns₁, hturns₁⟩ := write_turns (List.replicate j w ++ pending)
      ((paired (idOf controllerName) (List.replicate total p)).take n) readers answers hrun
    obtain ⟨turns₂, tree₂, controller₂, hturns₂, hidle₂⟩ := ih (n := n + 1) (by omega) hfew hidle
    have hcount : n + 1 + j = n + (j + 1) := by omega
    rw [hcount] at hturns₂ hidle₂
    refine ⟨turns₁ ++ turns₂, tree₂, controller₂, ?_, hidle₂⟩
    rw [acknowledge_record hrecord, ← paired_take_succ hp] at hturns₁
    rw [runSteps_append, List.replicate_succ, List.cons_append, hturns₁]
    exact hturns₂

end Turns

/-- What stands in the place of a record is what a read of it returns. -/
theorem Shadowed.read {id : UInt64} (h : Shadowed t id p) (bufLen : Int32)
    (hfit : (p.bytes.length : ℤ) ≤ bufLen.toInt) :
    (seaControllerReadFromLocal id 0 bufLen).run serve t = some (⟨0, some p.bytes⟩, t) := by
  obtain ⟨f, g, hpresent, hlt, hentry⟩ := h
  have hgrows : ∀ {a b : FileTree SeaPath}, a = b → Grows a b := by
    intro a b hab
    subst hab
    exact Grows.refl a
  have hview : ∀ t', t = t' → View id 0 False (· = p) t' := by
    intro t' ht
    subst ht
    exact Or.inr ⟨f, g, hpresent, Or.inr ⟨hlt, p, rfl, hentry⟩⟩
  obtain ⟨result, hrun, hanswer⟩ := (withstands_seaControllerReadFromLocal hgrows Eq.trans hview
    bufLen).run (fun _ => rfl) (quiet_queryFresh _ _ _ _)
  rcases hanswer with ⟨-, hnever⟩ | ⟨q, rfl, rfl⟩
  · exact hnever.elim
  · rw [if_neg (bufLen_lt_iff _ hfit)] at hrun
    exact hrun

theorem Shadowed.read_turns {id : UInt64} (h : Shadowed t id p) (bufLen : Int32)
    (hfit : (p.bytes.length : ℤ) ≤ bufLen.toInt) (pending : List WriteCall) (writer : Writer)
    (acked : Acked) (answers : List (ReadCall × QueryResult)) :
    ∃ turns, runSteps (sharedStep idOf) ⟨t, pending, writer, acked, [], answers⟩ turns =
      some ⟨t, pending, writer, acked, [],
        answers ++ [(⟨id, 0, bufLen, acked⟩, ⟨0, some p.bytes⟩)]⟩ := by
  have hrun := h.read bufLen hfit
  have hquiet : (seaControllerReadFromLocal id 0 bufLen).Quiet serve := quiet_queryFresh _ _ _ _
  obtain ⟨⟨rest, t'⟩, hrest⟩ :
      ∃ next, (seaControllerReadFromLocal id 0 bufLen).advance serve t = some next := ⟨_, rfl⟩
  obtain ⟨rfl, hquiet'⟩ := hquiet.advance hrest
  rw [Program.run_of_advance hrest] at hrun
  obtain ⟨k, hk⟩ := reading_turns pending acked answers hquiet' hrun
  refine ⟨.start id 0 bufLen :: List.replicate k (.read 0), ?_⟩
  rw [← hk, runSteps, sharedStep, hrest]
  rfl

/-- When all ids are used up a reader can find an id where a record should be. -/
theorem misread_turns {total : ℕ} (hrecord : w.record = some p)
    (htotal : total = 2 ^ 64 * blockMax) (hstore : w.store.frame = .whole)
    (hidle : Idle idOf dataDir (List.replicate total p) 0 t controller) :
    ∃ turns s, runSteps (sharedStep idOf) ⟨t, List.replicate total w, .idle controller, [], [], []⟩
        turns = some s ∧
      s.acked = paired (idOf controllerName) (List.replicate total p) ∧
      s.answers = [(⟨idOf controllerName, 0, 16, s.acked⟩,
        ⟨0, some (le64 (idOf controllerName + 1))⟩)] := by
  obtain ⟨n, hn⟩ : ∃ n, total = n + 1 := ⟨2 ^ 64 * blockMax - 1, by rw [htotal, blockMax]; omega⟩
  subst hn
  have hp : (List.replicate (n + 1) p)[n]? = some p := by
    rw [List.getElem?_replicate, if_pos (Nat.lt_succ_self n)]
  obtain ⟨turns₁, t₁, controller₁, hturns₁, hidle₁⟩ := fill_turns [w] [] [] hrecord n
    (n := 0) (by omega) (Nat.le_of_eq htotal) hidle
  rw [Nat.zero_add, List.take_zero] at hturns₁
  rw [Nat.zero_add] at hidle₁
  obtain ⟨controller₂, t₂, hrun, hshadowed⟩ := hidle₁.last_write hrecord hp htotal hstore
  obtain ⟨turns₂, hturns₂⟩ := write_turns [] ((paired (idOf controllerName)
    (List.replicate (n + 1) p)).take n) [] [] hrun
  have hall : (paired (idOf controllerName) (List.replicate (n + 1) p)).take n ++
      w.acknowledge ⟨0, (place (idOf controllerName) n).1, some (place (idOf controllerName) n).2⟩ =
      paired (idOf controllerName) (List.replicate (n + 1) p) := by
    rw [acknowledge_record hrecord, ← paired_take_succ hp]
    apply List.take_of_length_le
    rw [paired, List.length_mapIdx, List.length_replicate]
  rw [hall] at hturns₂
  obtain ⟨turns₃, hturns₃⟩ := hshadowed.read_turns 16
    (by rw [show (idPayload _).bytes.length = 8 from le64_length _]; decide) [] (.idle controller₂)
    (paired (idOf controllerName) (List.replicate (n + 1) p)) []
  refine ⟨turns₁ ++ (turns₂ ++ turns₃), ⟨t₂, [], .idle controller₂,
    paired (idOf controllerName) (List.replicate (n + 1) p), [],
    [(⟨idOf controllerName, 0, 16, paired (idOf controllerName) (List.replicate (n + 1) p)⟩,
      ⟨0, some (le64 (idOf controllerName + 1))⟩)]⟩, ?_, rfl, rfl⟩
  rw [List.replicate_succ', runSteps_append, hturns₁, Option.bind_some, runSteps_append, hturns₂]
  exact hturns₃

def letterWrite : WriteCall := ⟨0, .clear 0, ⟨.clear 0, .whole⟩, [97], 1⟩

/-- `2 ^ 64` full blocks of one letter: the read of an acknowledged record gives
the eight bytes of a stored id, which were no write's payload. -/
theorem sharedRun_misreads_stored_id :
    let idOf := controllerGetBlockId fun _ => controllerHash
    ∃ turns s, sharedRun idOf dataDir (fun _ => none) 0 0
        (List.replicate (2 ^ 64 * blockMax) letterWrite) turns = some s ∧
      (s.acked.map Prod.fst).Nodup ∧
      ((0x6633303163343935, 0), [97]) ∈ s.acked ∧
      s.answers = [(⟨0x6633303163343935, 0, 16, s.acked⟩,
        ⟨0, some [0x36, 0x39, 0x34, 0x63, 0x31, 0x30, 0x33, 0x66]⟩)] := by
  intro idOf
  have hid : idOf controllerName = 0x6633303163343935 := by decide +kernel
  have hrecord : letterWrite.record = some (.single 97) := by decide
  have habs : ∀ id, Absent (fun _ => none) dataDir id := fun _ => ⟨rfl, rfl⟩
  obtain ⟨controller, t', hcreate, hidle, -⟩ := idle_created
    (List.replicate (2 ^ 64 * blockMax) (.single 97)) habs (habs (idOf controllerName)) 0 0
  obtain ⟨turns, s, hturns, hacked, hanswers⟩ := misread_turns hrecord rfl rfl hidle
  refine ⟨turns, s, ?_, ?_, ?_, ?_⟩
  · rw [sharedRun, hcreate]
    exact hturns
  · rw [hacked]
    apply paired_nodup
    rw [List.length_replicate]
  · rw [hacked, mem_paired]
    refine ⟨(2 ^ 64 - 1) * blockMax, .single 97, ?_, ?_, rfl⟩
    · rw [List.getElem?_replicate, if_pos (by simp only [blockMax]; omega)]
    · rw [place, Nat.mul_div_cancel _ (by decide), Nat.mul_mod_left, hid, blockIdAt_last]
      rfl
  · rw [hanswers, hid]
    rfl

end SeaStore.Controller
