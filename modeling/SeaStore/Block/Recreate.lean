import SeaStore.Block.ReadBack

/-!
Creating a block over an earlier one. A history of creations, openings and
appends leaves every record that it ever appended in the files, whatever the
headers said meanwhile; a further creation resets the count and nothing else,
so new records are stored behind the old ones but numbered from zero.
-/
namespace SeaStore.Block

open Posix

/-- One operation of the life of a block id; closing a handle changes no file. -/
inductive HistoryOp
  | create (now maxSize maxCount : UInt64)
  | reopen
  | append (a : Ambient) (p : Payload)

def historyPayloads (history : List HistoryOp) : List Payload :=
  history.filterMap fun
    | .append _ p => some p
    | _ => none

/-- The files, and the last handle that was opened. -/
structure History where
  tree : FileTree SeaPath
  handle : Option SeaBlock

/-- One operation, with every call completing in full and zero returned. -/
def historyStep (dir : String) (id : UInt64) (s : History) : HistoryOp → Option History
  | .create now maxSize maxCount =>
    (createStep dir id s.tree now maxSize maxCount).map fun tree => { s with tree := tree }
  | .reopen => (openStep dir id s.tree).map fun block => { s with handle := some block }
  | .append a p => do
    let block ← s.handle
    let w ← appendStep ⟨s.tree, block, []⟩ (a, p)
    return ⟨w.tree, some w.block⟩

/-- A history on no block, then one more creation with the given arguments, an
opening, and appends on the handle it gives. -/
def recreate (dir : String) (id : UInt64) (t : FileTree SeaPath) (history : List HistoryOp)
    (now maxSize maxCount : UInt64) (ops : List (Ambient × Payload)) : Option Writer := do
  let old ← runSteps (historyStep dir id) ⟨t, none⟩ history
  let tree ← createStep dir id old.tree now maxSize maxCount
  let block ← openStep dir id tree
  runSteps appendStep ⟨tree, block, []⟩ ops

variable {t : FileTree SeaPath} {dir : String} {id : UInt64} {hdr : SeaBlockIndexHeader}
  {recs : List Payload}

/-- After a history the files store all its payloads, under some header; before
the first creation there are no files and no handle. -/
def Written (dir : String) (id : UInt64) (ps : List Payload) (s : History) : Prop :=
  (Absent s.tree dir id ∧ s.handle = none ∧ ps = []) ∨
    ((∃ hdr, Image s.tree dir id hdr ps) ∧ ∀ block ∈ s.handle, block.On dir id)

theorem Written.create {s : History} {ps : List Payload} (hs : Written dir id ps s)
    (now maxSize maxCount : UInt64) :
    ∃ t', createStep dir id s.tree now maxSize maxCount = some t' ∧
      Image t' dir id (createdHeader id maxCount now) ps := by
  rcases hs with ⟨habs, -, rfl⟩ | ⟨⟨hdr, himg⟩, -⟩
  · obtain ⟨t', hstep, himg, -⟩ := createStep_absent habs now maxSize maxCount
    exact ⟨t', hstep, himg⟩
  · obtain ⟨t', hstep, himg', -⟩ := createStep_over himg now maxSize maxCount
    exact ⟨t', hstep, himg'⟩

theorem historyStep_written {s s' : History} {op : HistoryOp} {ps : List Payload}
    (hs : Written dir id ps s) (hstep : historyStep dir id s op = some s') :
    Written dir id (ps ++ historyPayloads [op]) s' := by
  cases op with
  | create now maxSize maxCount =>
    obtain ⟨t', hcreate, himg⟩ := hs.create now maxSize maxCount
    simp only [historyStep, hcreate, Option.map_some, Option.some.injEq] at hstep
    subst hstep
    refine Or.inr ⟨⟨_, by simpa [historyPayloads] using himg⟩, ?_⟩
    rcases hs with ⟨-, hnone, -⟩ | ⟨-, hon⟩
    · simp [hnone]
    · exact hon
  | reopen =>
    rcases hs with ⟨⟨hdata, -⟩, -, -⟩ | ⟨⟨hdr, himg⟩, -⟩
    · simp [historyStep, openStep_absent hdata] at hstep
    · simp only [historyStep, openStep_image himg, Option.map_some, Option.some.injEq] at hstep
      subst hstep
      refine Or.inr ⟨⟨hdr, by simpa [historyPayloads] using himg⟩, ?_⟩
      rintro block ⟨⟩
      exact openedBlock_on dir id hdr
  | append a p =>
    obtain ⟨block, hblock, hstep⟩ := Option.bind_eq_some_iff.mp hstep
    obtain ⟨w, happend, hstep⟩ := Option.bind_eq_some_iff.mp hstep
    obtain rfl := Option.some.inj hstep
    rcases hs with ⟨-, hnone, -⟩ | ⟨⟨hdr, himg⟩, hon⟩
    · simp [hnone] at hblock
    · obtain ⟨-, result, happ⟩ := appendStep_appended (hon block hblock) himg happend
      refine Or.inr ⟨⟨_, happ.image⟩, ?_⟩
      rintro block' ⟨⟩
      exact happ.on

theorem history_written {s : History} {history : List HistoryOp} (habs : Absent t dir id)
    (hrun : runSteps (historyStep dir id) ⟨t, none⟩ history = some s) :
    Written dir id (historyPayloads history) s := by
  refine runSteps_invariant (fun past s => Written dir id (historyPayloads past) s)
    ?_ (Or.inl ⟨habs, rfl, rfl⟩) hrun
  intro past op s s' hs hstep
  rw [historyPayloads, List.filterMap_append]
  exact historyStep_written hs hstep

/-- The handle opened after the last creation hands out ids from zero, for
records that are stored behind all those of the history. -/
theorem recreate_stored {w : Writer} {history : List HistoryOp} {now maxSize maxCount : UInt64}
    {ops : List (Ambient × Payload)} (habs : Absent t dir id)
    (hrun : recreate dir id t history now maxSize maxCount ops = some w) :
    w.acked = numbered 0 (ops.map Prod.snd) ∧
      ∃ hdr, hdr.count = UInt32.ofNat ops.length ∧
        Image w.tree dir id hdr (historyPayloads history ++ ops.map Prod.snd) := by
  obtain ⟨old, hold, hrun⟩ := Option.bind_eq_some_iff.mp hrun
  obtain ⟨tree, himg, hrun⟩ : ∃ tree, Image tree dir id (createdHeader id maxCount now)
      (historyPayloads history) ∧ (openStep dir id tree).bind
        (fun block => runSteps appendStep ⟨tree, block, []⟩ ops) = some w := by
    obtain ⟨t', hcreate, himg⟩ := (history_written habs hold).create now maxSize maxCount
    rw [hcreate] at hrun
    exact ⟨t', himg, hrun⟩
  rw [openStep_image himg, Option.bind_some] at hrun
  obtain ⟨hheld, hcount, hacked⟩ := appendRun_held ⟨openedBlock_on dir id _, himg⟩ hrun
  have hzero : (openedBlock dir id (createdHeader id maxCount now)).index.header.count = 0 := rfl
  simp only [hzero, UInt32.zero_add, List.nil_append] at hcount hacked
  exact ⟨hacked, w.block.index.header, hcount, hheld.2⟩

/-- After a creation over an earlier block the new records read back exactly
when they repeat the old ones in order, and there are fewer than `2 ^ 32`. -/
theorem recreate_readsBack_iff {w : Writer} {history : List HistoryOp}
    {now maxSize maxCount : UInt64} {ops : List (Ambient × Payload)} (habs : Absent t dir id)
    (hrun : recreate dir id t history now maxSize maxCount ops = some w) :
    (∀ recordId p, (recordId, p) ∈ w.acked → ReadsBack w.tree dir id recordId p) ↔
      ops.length < 2 ^ 32 ∧
        ops.map Prod.snd <+: historyPayloads history ++ ops.map Prod.snd := by
  obtain ⟨hacked, hdr, hcount, himg⟩ := recreate_stored habs hrun
  rw [hacked, numbered_readsBack_iff himg (by simpa using hcount), List.length_map]

/-- A second creation over one stored record loses the first new one. -/
theorem recreate_loses_record :
    ∃ w, recreate "" 0 (fun _ => none)
        [.create 0 0 0, .reopen, .append (.clear 0) (.single 97)] 0 0 0
        [(.clear 0, .single 98)] = some w ∧
      (0, Payload.single 98) ∈ w.acked ∧ ¬ ReadsBack w.tree "" 0 0 (.single 98) := by
  obtain ⟨w, hw⟩ := Option.isSome_iff_exists.mp (show (recreate "" 0 (fun _ => none)
    [.create 0 0 0, .reopen, .append (.clear 0) (.single 97)] 0 0 0
    [(.clear 0, .single 98)]).isSome by decide +kernel)
  obtain ⟨hacked, hdr, -, himg⟩ := recreate_stored ⟨rfl, rfl⟩ hw
  refine ⟨w, hw, ?_, ?_⟩
  · rw [hacked]
    exact List.mem_singleton_self _
  · rw [readsBack_iff himg]
    simp [historyPayloads, Payload.single]

/-- Creating twice before the first append loses nothing. -/
theorem recreate_readsBack_empty :
    ∃ w, recreate "" 0 (fun _ => none) [.create 0 0 0] 0 0 0
        [(.clear 0, .single 97), (.clear 0, .single 98)] = some w ∧
      ∀ recordId p, (recordId, p) ∈ w.acked → ReadsBack w.tree "" 0 recordId p := by
  obtain ⟨w, hw⟩ := Option.isSome_iff_exists.mp (show (recreate "" 0 (fun _ => none)
    [.create 0 0 0] 0 0 0 [(.clear 0, .single 97), (.clear 0, .single 98)]).isSome by
      decide +kernel)
  exact ⟨w, hw, (recreate_readsBack_iff ⟨rfl, rfl⟩ hw).mpr ⟨by decide, List.prefix_rfl⟩⟩

end SeaStore.Block
