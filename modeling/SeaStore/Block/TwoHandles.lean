import SeaStore.Block.ReadBack

/-!
Two handles of one block. Each keeps the count that it read when it was opened
and raises it with its own appends only, so an append made after one by the
other handle gives out an id for the second time. Nothing is lost exactly when
no handle appends after the other one has since it was opened.
-/
namespace SeaStore.Block

open Posix

inductive Which
  | first
  | second
  deriving DecidableEq

/-- An opening of one of the handles, or an append on it. -/
inductive HandlesOp
  | openHandle (h : Which)
  | append (h : Which) (a : Ambient) (p : Payload)

/-- The files, the two handles, and what all the appends have returned. -/
structure TwoHandles where
  tree : FileTree SeaPath
  handle : Which → Option SeaBlock
  acked : List (UInt32 × Payload)

def handlesStep (dir : String) (id : UInt64) (s : TwoHandles) : HandlesOp → Option TwoHandles
  | .openHandle h =>
    (openStep dir id s.tree).map fun block =>
      { s with handle := Function.update s.handle h (some block) }
  | .append h a p => do
    let block ← s.handle h
    let w ← appendStep ⟨s.tree, block, s.acked⟩ (a, p)
    return ⟨w.tree, Function.update s.handle h (some w.block), w.acked⟩

/-- A block is created, filled by one handle and closed; then two handles are
opened and append in any order, the calls of each one at a time. -/
def handlesRun (dir : String) (id : UInt64) (t : FileTree SeaPath)
    (now maxSize maxCount : UInt64) (filled : List (Ambient × Payload)) (ops : List HandlesOp) :
    Option TwoHandles := do
  let w ← newWriter dir id t now maxSize maxCount
  let w ← runSteps appendStep w filled
  runSteps (handlesStep dir id) ⟨w.tree, fun _ => none, []⟩ ops

/-- The ids are distinct, and each reads back its own payload. -/
def Lossless (dir : String) (id : UInt64) (s : TwoHandles) : Prop :=
  (s.acked.map Prod.fst).Nodup ∧
    ∀ recordId p, (recordId, p) ∈ s.acked → ReadsBack s.tree dir id recordId p

/-- No handle appends after the other has since it was opened; `sync` tells
which handles have made or seen all appends so far. -/
def InSync : (Which → Bool) → List HandlesOp → Prop
  | _, [] => True
  | sync, .openHandle h :: ops => InSync (Function.update sync h true) ops
  | sync, .append h _ _ :: ops => sync h = true ∧ InSync (fun other => decide (other = h)) ops

def appends (ops : List HandlesOp) : ℕ :=
  ops.countP fun
    | .append .. => true
    | .openHandle _ => false

variable {t : FileTree SeaPath} {dir : String} {id : UInt64} {old : List Payload}

/-- All appends so far were in sync: the ids go on from the records that were
there, and a handle that is not in sync still has a count that is taken. -/
structure Serial (dir : String) (id : UInt64) (old : List Payload) (sync : Which → Bool)
    (s : TwoHandles) (new : List Payload) : Prop where
  image : ∃ hdr, hdr.count.toNat = (old ++ new).length ∧ Image s.tree dir id hdr (old ++ new)
  acked : s.acked = numbered (UInt32.ofNat old.length) new
  on : ∀ h block, s.handle h = some block → block.On dir id
  synced : ∀ h block, s.handle h = some block → sync h = true →
    block.index.header.count.toNat = (old ++ new).length
  stale : ∀ h block, s.handle h = some block → sync h = false →
    old.length ≤ block.index.header.count.toNat ∧
      block.index.header.count.toNat < (old ++ new).length

theorem numbered_fst_toNat {start : UInt32} {ps : List Payload} {i : ℕ}
    (h : start.toNat + ps.length < 2 ^ 32) (hi : i < ps.length) :
    (start + UInt32.ofNat i).toNat = start.toNat + i := by
  have hnat : (UInt32.ofNat i).toNat = i := by
    rw [UInt32.toNat_ofNat']
    exact Nat.mod_eq_of_lt (by omega)
  rw [UInt32.toNat_add, hnat]
  exact Nat.mod_eq_of_lt (by omega)

theorem numbered_nodup {start : UInt32} {ps : List Payload}
    (h : start.toNat + ps.length < 2 ^ 32) : ((numbered start ps).map Prod.fst).Nodup := by
  apply List.pairwise_iff_getElem.mpr
  intro i j hi hj hlt heq
  have hlen : ((numbered start ps).map Prod.fst).length = ps.length := by simp [numbered]
  rw [hlen] at hi hj
  have hids : start + UInt32.ofNat i = start + UInt32.ofNat j := by
    simpa [numbered] using heq
  have hnat := congrArg UInt32.toNat hids
  rw [numbered_fst_toNat h hi, numbered_fst_toNat h hj] at hnat
  omega

theorem update_cases {handle : Which → Option SeaBlock} {h h' : Which} {opened block : SeaBlock}
    (hblock : Function.update handle h (some opened) h' = some block) :
    (h' = h ∧ block = opened) ∨ (h' ≠ h ∧ handle h' = some block) := by
  by_cases heq : h' = h
  · rw [heq, Function.update_self] at hblock
    exact Or.inl ⟨heq, (Option.some.inj hblock).symm⟩
  · rw [Function.update_of_ne heq] at hblock
    exact Or.inr ⟨heq, hblock⟩

namespace Serial

variable {sync : Which → Bool} {s s' : TwoHandles} {new : List Payload} {h : Which}

theorem lossless (hs : Serial dir id old sync s new) : Lossless dir id s := by
  obtain ⟨hdr, hcount, himg⟩ := hs.image
  have hlt : old.length + new.length < 2 ^ 32 := by
    have hbound := hdr.count.toNat_lt
    rw [hcount, List.length_append] at hbound
    exact hbound
  have hold : (UInt32.ofNat old.length).toNat = old.length := by
    rw [UInt32.toNat_ofNat']
    exact Nat.mod_eq_of_lt (by omega)
  have hfit : (UInt32.ofNat old.length).toNat + new.length < 2 ^ 32 := by omega
  constructor
  · rw [hs.acked]
    exact numbered_nodup hfit
  · intro recordId p hmem
    rw [hs.acked] at hmem
    obtain ⟨i, hi, rfl⟩ := mem_numbered.mp hmem
    obtain ⟨hlen, hp⟩ := List.getElem?_eq_some_iff.mp hi
    apply (readsBack_iff himg _ p).mpr
    rw [numbered_fst_toNat hfit hlen, hold]
    constructor
    · rw [hcount, List.length_append]
      omega
    · rw [List.getElem?_append_right (by omega), Nat.add_sub_cancel_left]
      exact hi

theorem openHandle (hs : Serial dir id old sync s new)
    (hstep : handlesStep dir id s (.openHandle h) = some s') :
    Serial dir id old (Function.update sync h true) s' new := by
  obtain ⟨hdr, hcount, himg⟩ := hs.image
  rw [handlesStep, openStep_image himg] at hstep
  obtain rfl := Option.some.inj hstep
  constructor
  · exact ⟨hdr, hcount, himg⟩
  · exact hs.acked
  · intro h' block hblock
    rcases update_cases hblock with ⟨-, rfl⟩ | ⟨-, hblock⟩
    · exact openedBlock_on dir id hdr
    · exact hs.on h' block hblock
  · intro h' block hblock hsync
    rcases update_cases hblock with ⟨-, rfl⟩ | ⟨hne, hblock⟩
    · exact hcount
    · rw [Function.update_of_ne hne] at hsync
      exact hs.synced h' block hblock hsync
  · intro h' block hblock hsync
    rcases update_cases hblock with ⟨rfl, -⟩ | ⟨hne, hblock⟩
    · rw [Function.update_self] at hsync
      exact absurd hsync (by decide)
    · rw [Function.update_of_ne hne] at hsync
      exact hs.stale h' block hblock hsync

/-- An append of a handle in sync gives out the next id, and leaves the other
handle behind. -/
theorem append_synced {a : Ambient} {p : Payload} (hs : Serial dir id old sync s new)
    (hsync : sync h = true) (hfit : (old ++ new).length + 1 < 2 ^ 32)
    (hstep : handlesStep dir id s (.append h a p) = some s') :
    Serial dir id old (fun other => decide (other = h)) s' (new ++ [p]) := by
  obtain ⟨block, hblock, hstep⟩ := Option.bind_eq_some_iff.mp hstep
  obtain ⟨w, happend, hstep⟩ := Option.bind_eq_some_iff.mp hstep
  obtain rfl := Option.some.inj hstep
  obtain ⟨hdr, -, himg⟩ := hs.image
  have hcount := hs.synced h block hblock hsync
  obtain ⟨hacked, result, happ⟩ := appendStep_appended (hs.on h block hblock) himg happend
  have hnext : w.block.index.header.count.toNat = (old ++ (new ++ [p])).length := by
    rw [happ.header, SeaBlockIndexHeader.bump, UInt32.toNat_add, hcount]
    simp only [List.length_append, List.length_singleton] at hfit ⊢
    exact (Nat.mod_eq_of_lt (show old.length + new.length + 1 < 2 ^ 32 by omega)).trans
      (Nat.add_assoc _ _ _)
  have hid : block.index.header.count = UInt32.ofNat old.length + UInt32.ofNat new.length := by
    rw [← UInt32.ofNat_add, ← List.length_append, ← hcount, UInt32.ofNat_toNat]
  constructor
  · refine ⟨w.block.index.header, hnext, ?_⟩
    rw [← List.append_assoc]
    exact happ.held.2
  · rw [hacked, hs.acked, numbered_concat, hid]
  · intro h' block' hblock'
    rcases update_cases hblock' with ⟨-, rfl⟩ | ⟨-, hblock'⟩
    · exact happ.on
    · exact hs.on h' block' hblock'
  · intro h' block' hblock' hsync'
    rcases update_cases hblock' with ⟨-, rfl⟩ | ⟨hne, -⟩
    · exact hnext
    · exact absurd (of_decide_eq_true hsync') hne
  · intro h' block' hblock' hstale
    rcases update_cases hblock' with ⟨heq, -⟩ | ⟨-, hblock'⟩
    · exact absurd heq (of_decide_eq_false hstale)
    -- the other handle's count is what it was, and there is one record more
    have hbefore : old.length ≤ block'.index.header.count.toNat ∧
        block'.index.header.count.toNat ≤ (old ++ new).length := by
      cases hsync' : sync h' with
      | true =>
        rw [hs.synced h' block' hblock' hsync', List.length_append]
        omega
      | false =>
        obtain ⟨hlow, hhigh⟩ := hs.stale h' block' hblock' hsync'
        omega
    rw [← List.append_assoc, List.length_append, List.length_singleton]
    omega

/-- An append of a handle out of sync gives out an id that is taken. -/
theorem append_stale {a : Ambient} {p : Payload} (hs : Serial dir id old sync s new)
    (hsync : sync h = false) (hstep : handlesStep dir id s (.append h a p) = some s') :
    ¬ (s'.acked.map Prod.fst).Nodup := by
  obtain ⟨block, hblock, hstep⟩ := Option.bind_eq_some_iff.mp hstep
  obtain ⟨w, happend, hstep⟩ := Option.bind_eq_some_iff.mp hstep
  obtain rfl := Option.some.inj hstep
  obtain ⟨hdr, hfull, himg⟩ := hs.image
  obtain ⟨hlow, hhigh⟩ := hs.stale h block hblock hsync
  obtain ⟨hacked, -⟩ := appendStep_appended (hs.on h block hblock) himg happend
  have htaken : block.index.header.count ∈ s.acked.map Prod.fst := by
    obtain ⟨i, hi⟩ := Nat.exists_eq_add_of_le hlow
    rw [List.length_append] at hhigh
    have hlt : i < new.length := by omega
    apply List.mem_map.mpr
    refine ⟨(block.index.header.count, new[i]), ?_, rfl⟩
    rw [hs.acked, mem_numbered]
    refine ⟨i, List.getElem?_eq_getElem hlt, ?_⟩
    rw [← UInt32.ofNat_add, ← hi, UInt32.ofNat_toNat]
  intro hnodup
  rw [hacked, List.map_append, List.map_singleton] at hnodup
  obtain ⟨-, -, hdisjoint⟩ := List.nodup_append.mp hnodup
  exact hdisjoint _ htaken _ (List.mem_singleton_self _) rfl

end Serial

theorem handlesStep_acked {s s' : TwoHandles} {op : HandlesOp}
    (hstep : handlesStep dir id s op = some s') : s.acked <+: s'.acked := by
  cases op with
  | openHandle h =>
    obtain ⟨block, -, rfl⟩ := Option.map_eq_some_iff.mp hstep
    exact List.prefix_rfl
  | append h a p =>
    obtain ⟨block, -, hstep⟩ := Option.bind_eq_some_iff.mp hstep
    obtain ⟨w, happend, hstep⟩ := Option.bind_eq_some_iff.mp hstep
    obtain rfl := Option.some.inj hstep
    exact appendStep_acked happend

theorem handlesSteps_acked {s s' : TwoHandles} {ops : List HandlesOp}
    (hrun : runSteps (handlesStep dir id) s ops = some s') : s.acked <+: s'.acked := by
  refine runSteps_invariant (fun _ s' => s.acked <+: s'.acked) ?_ List.prefix_rfl hrun
  intro past op s₁ s₂ hs hstep
  exact hs.trans (handlesStep_acked hstep)

/-- From a state in which all appends were in sync, nothing is lost exactly
when they go on to be. -/
theorem handlesSteps_lossless_iff {sync : Which → Bool} {s s' : TwoHandles} {new : List Payload}
    {ops : List HandlesOp} (hs : Serial dir id old sync s new)
    (hfit : (old ++ new).length + appends ops < 2 ^ 32)
    (hrun : runSteps (handlesStep dir id) s ops = some s') :
    Lossless dir id s' ↔ InSync sync ops := by
  induction ops generalizing sync s new with
  | nil =>
    obtain rfl := Option.some.inj hrun
    exact iff_of_true hs.lossless trivial
  | cons op ops ih =>
    obtain ⟨s₁, hstep, hrest⟩ := Option.bind_eq_some_iff.mp hrun
    cases op with
    | openHandle h =>
      have hfit' : (old ++ new).length + appends ops < 2 ^ 32 := by
        simpa [appends] using hfit
      exact ih (hs.openHandle hstep) hfit' hrest
    | append h a p =>
      have hfit' : (old ++ (new ++ [p])).length + appends ops < 2 ^ 32 := by
        simp only [appends, List.countP_cons, List.length_append, List.length_singleton] at hfit ⊢
        simp only [if_true] at hfit
        omega
      rw [InSync]
      cases hsync : sync h with
      | true =>
        have hone : (old ++ new).length + 1 < 2 ^ 32 := by
          simp only [List.length_append, List.length_singleton] at hfit' ⊢
          omega
        rw [ih (hs.append_synced hsync hone hstep) hfit' hrest]
        exact (and_iff_right rfl).symm
      | false =>
        apply iff_of_false
        · rintro ⟨hnodup, -⟩
          apply hs.append_stale hsync hstep
          obtain ⟨more, hmore⟩ := handlesSteps_acked hrest
          rw [← hmore, List.map_append] at hnodup
          exact (List.nodup_append.mp hnodup).1
        · rintro ⟨habsurd, -⟩
          exact absurd habsurd (by decide)

/-- Two handles of one block, with fewer than `2 ^ 32` records in all, give out
distinct ids that read back exactly when neither ever appends after the other
has since it was opened. -/
theorem handlesRun_lossless_iff {now maxSize maxCount : UInt64}
    {filled : List (Ambient × Payload)} {ops : List HandlesOp} {s : TwoHandles}
    (habs : Absent t dir id) (hfit : filled.length + appends ops < 2 ^ 32)
    (hrun : handlesRun dir id t now maxSize maxCount filled ops = some s) :
    Lossless dir id s ↔ InSync (fun _ => false) ops := by
  obtain ⟨w, hnew, hrun⟩ := Option.bind_eq_some_iff.mp hrun
  obtain ⟨w', hfill, hsteps⟩ := Option.bind_eq_some_iff.mp hrun
  obtain ⟨hheld, hzero, -⟩ := newWriter_held habs hnew
  obtain ⟨hheld', hcount, -⟩ := appendRun_held hheld hfill
  rw [List.nil_append] at hheld'
  have hstart : Serial dir id (filled.map Prod.snd) (fun _ => false)
      ⟨w'.tree, fun _ => none, []⟩ [] := by
    constructor
    · refine ⟨w'.block.index.header, ?_, by simpa using hheld'.2⟩
      rw [hcount, hzero, UInt32.zero_add, UInt32.toNat_ofNat', List.append_nil, List.length_map]
      exact Nat.mod_eq_of_lt (by omega)
    · rfl
    · intro h block hnone
      exact absurd hnone (by simp)
    · intro h block hnone
      exact absurd hnone (by simp)
    · intro h block hnone
      exact absurd hnone (by simp)
  exact handlesSteps_lossless_iff hstart (by simpa using hfit) hsteps

/-- One append on each of two handles: both get id zero. -/
theorem handlesRun_loses_record :
    ∃ s, handlesRun "" 0 (fun _ => none) 0 0 0 []
        [.openHandle .first, .openHandle .second, .append .first (.clear 0) (.single 97),
          .append .second (.clear 0) (.single 98)] = some s ∧
      s.acked = [(0, .single 97), (0, .single 98)] ∧ ¬ Lossless "" 0 s := by
  obtain ⟨s, hrun, hacked⟩ := Option.map_eq_some_iff.mp (show (handlesRun "" 0 (fun _ => none)
    0 0 0 [] [.openHandle .first, .openHandle .second, .append .first (.clear 0) (.single 97),
      .append .second (.clear 0) (.single 98)]).map TwoHandles.acked =
        some [(0, .single 97), (0, .single 98)] by decide +kernel)
  refine ⟨s, hrun, hacked, ?_⟩
  rintro ⟨hnodup, -⟩
  rw [hacked] at hnodup
  exact absurd hnodup (by decide)

/-- One of the two handles appends, the other one does not. -/
theorem handlesRun_lossless_one_sided :
    ∃ s, handlesRun "" 0 (fun _ => none) 0 0 0 [(.clear 0, .single 97)]
        [.openHandle .first, .openHandle .second, .append .second (.clear 0) (.single 98),
          .append .second (.clear 0) (.single 99)] = some s ∧ Lossless "" 0 s := by
  obtain ⟨s, hrun⟩ := Option.isSome_iff_exists.mp (show (handlesRun "" 0 (fun _ => none) 0 0 0
    [(.clear 0, .single 97)] [.openHandle .first, .openHandle .second,
      .append .second (.clear 0) (.single 98), .append .second (.clear 0) (.single 99)]).isSome by
        decide +kernel)
  exact ⟨s, hrun, (handlesRun_lossless_iff ⟨rfl, rfl⟩ (by decide) hrun).mpr
    ⟨rfl, rfl, trivial⟩⟩

end SeaStore.Block
