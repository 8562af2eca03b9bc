import SeaStore.Controller.SuperBlock
import SeaStore.Posix.Run

/-!
Opening, expiring and closing a super block, over and over. Nothing of an
expiry reaches the disk, so every opening starts at the same id; the id before
a close comes back exactly when it had not moved on since the opening.
-/
namespace SeaStore.Controller

open Posix Block

inductive SuperOp
  | openOrCreate (now garbage : UInt64)
  | expire (a : Ambient)
  | close

/-- The files, the super block while it is open, the id it answered just before
it was last closed, and for every re-opening the id before the close and the
id after it. -/
structure SuperSession where
  tree : FileTree SeaPath
  super : Option SuperBlock
  closed : Option UInt64
  reopened : List (UInt64 × UInt64)

variable (idOf : String → UInt64) (dir name : String)

/-- One call, all of whose system calls succeed. A super block is opened while
none is open, and expired or closed while it is. -/
def superStep (s : SuperSession) : SuperOp → Option SuperSession
  | .openOrCreate now garbage =>
    match s.super with
    | some _ => none
    | none => do
      let (super, tree) ← (controllerSuperBlockOpenOrCreate idOf ⟨⟨now, .whole⟩, garbage⟩
        dir name).run serve s.tree
      let blockId := controllerSuperBlockGetBlockId super
      return { s with
        tree := tree, super := some super,
        reopened := s.reopened ++ (s.closed.map fun before => (before, blockId)).toList }
  | .expire a => do
    let super ← s.super
    let (super, tree) ← (controllerSuperBlockExpireBlockId idOf ⟨a, .whole⟩ super).run serve s.tree
    return { s with tree := tree, super := some super }
  | .close => do
    let super ← s.super
    let ((), tree) ← (controllerSuperBlockClose super).run serve s.tree
    return { s with
      tree := tree, super := none, closed := some (controllerSuperBlockGetBlockId super) }

def superRun (t : FileTree SeaPath) (ops : List SuperOp) : Option SuperSession :=
  runSteps (superStep idOf dir name) ⟨t, none, none, []⟩ ops

/-- After `n` expiries since the last opening, every further opening comes when
the expiries since the one before are a multiple of `2 ^ 64`, which is where
the id is back at its start. -/
def NoneExpired : ℕ → List SuperOp → Prop
  | _, [] => True
  | n, .openOrCreate .. :: ops => n % 2 ^ 64 = 0 ∧ NoneExpired 0 ops
  | n, .expire _ :: ops => NoneExpired (n + 1) ops
  | n, .close :: ops => NoneExpired n ops

variable {idOf dir name}

/-- The super block's block is vacant, and the id in memory, or the one before
the close, has moved on by the `n` expiries since the last opening. -/
structure Counted (idOf : String → UInt64) (dir name : String) (n : ℕ) (s : SuperSession) :
    Prop where
  vacant : Vacant s.tree dir (idOf name)
  created : s.super.isSome → NewBlock s.tree dir (idOf name)
  super_eq : ∀ super, s.super = some super → super = ⟨name, dir, idOf name + 1 + UInt64.ofNat n⟩
  closed_eq : s.super = none → ∀ before, s.closed = some before →
    before = idOf name + 1 + UInt64.ofNat n
  unopened : s.super = none → s.closed = none → n = 0

variable {s s' : SuperSession} {n : ℕ}

theorem Counted.openOrCreate {now garbage : UInt64} (hs : Counted idOf dir name n s)
    (hstep : superStep idOf dir name s (.openOrCreate now garbage) = some s') :
    Counted idOf dir name 0 s' ∧
      ((∀ x ∈ s'.reopened, x.2 = x.1) ↔ (∀ x ∈ s.reopened, x.2 = x.1) ∧ n % 2 ^ 64 = 0) := by
  obtain ⟨t', hrun, hnew, -⟩ := run_controllerSuperBlockOpenOrCreate now garbage hs.vacant
  unfold superStep at hstep
  cases hsuper : s.super with
  | some super => simp [hsuper] at hstep
  | none =>
    simp only [hsuper, hrun, Option.bind_eq_bind, Option.bind_some] at hstep
    obtain rfl := Option.some.inj hstep
    constructor
    · refine ⟨Or.inr hnew, fun _ => hnew, ?_, by simp, by simp⟩
      rintro super hsome
      obtain rfl := Option.some.inj hsome
      simp
    · cases hclosed : s.closed with
      | none => simp [hs.unopened hsuper hclosed]
      | some before =>
        have hback : idOf name + 1 = before ↔ n % 2 ^ 64 = 0 := by
          rw [hs.closed_eq hsuper before hclosed, ← UInt64.toNat_inj, UInt64.toNat_add _ (.ofNat n),
            UInt64.toNat_ofNat']
          have hlt := (idOf name + 1).toNat_lt
          omega
        simp only [controllerSuperBlockGetBlockId, Option.map_some, Option.toList_some,
          List.mem_append, List.mem_singleton, or_imp, forall_and, forall_eq, hback]

theorem Counted.expire {a : Ambient} (hs : Counted idOf dir name n s)
    (hstep : superStep idOf dir name s (.expire a) = some s') :
    Counted idOf dir name (n + 1) s' ∧ s'.reopened = s.reopened := by
  unfold superStep at hstep
  cases hsuper : s.super with
  | none => simp [hsuper] at hstep
  | some super =>
    have hnew := hs.created (by rw [hsuper]; rfl)
    obtain rfl := hs.super_eq super hsuper
    simp only [hsuper, Option.bind_eq_bind, Option.bind_some,
      run_controllerSuperBlockExpireBlockId
        ⟨name, dir, idOf name + 1 + UInt64.ofNat n⟩ ⟨a, .whole⟩ hnew] at hstep
    obtain rfl := Option.some.inj hstep
    refine ⟨⟨hs.vacant, fun _ => hnew, ?_, by simp, by simp⟩, rfl⟩
    rintro super hsome
    obtain rfl := Option.some.inj hsome
    rw [UInt64.ofNat_add, ← UInt64.add_assoc]
    rfl

theorem Counted.close (hs : Counted idOf dir name n s)
    (hstep : superStep idOf dir name s .close = some s') :
    Counted idOf dir name n s' ∧ s'.reopened = s.reopened := by
  unfold superStep at hstep
  cases hsuper : s.super with
  | none => simp [hsuper] at hstep
  | some super =>
    obtain rfl := hs.super_eq super hsuper
    simp only [hsuper, Option.bind_eq_bind, Option.bind_some, controllerSuperBlockClose,
      Program.run_pure] at hstep
    obtain rfl := Option.some.inj hstep
    refine ⟨⟨hs.vacant, by simp, by simp, ?_, by simp⟩, rfl⟩
    rintro - before hbefore
    exact (Option.some.inj hbefore).symm

/-- The ids agree over a run when they have agreed before it and nothing has
expired where the run opens the super block again. -/
theorem superSteps_iff {ops : List SuperOp} (hs : Counted idOf dir name n s)
    (hrun : runSteps (superStep idOf dir name) s ops = some s') :
    (∀ x ∈ s'.reopened, x.2 = x.1) ↔ (∀ x ∈ s.reopened, x.2 = x.1) ∧ NoneExpired n ops := by
  induction ops generalizing n s with
  | nil =>
    obtain rfl := Option.some.inj hrun
    simp [NoneExpired]
  | cons op ops ih =>
    obtain ⟨s₁, hstep, hrest⟩ := Option.bind_eq_some_iff.mp hrun
    cases op with
    | openOrCreate now garbage =>
      obtain ⟨hs₁, hiff⟩ := hs.openOrCreate hstep
      rw [ih hs₁ hrest, hiff, NoneExpired, and_assoc]
    | expire a =>
      obtain ⟨hs₁, hsame⟩ := hs.expire hstep
      rw [ih hs₁ hrest, hsame, NoneExpired]
    | close =>
      obtain ⟨hs₁, hsame⟩ := hs.close hstep
      rw [ih hs₁ hrest, hsame, NoneExpired]

theorem counted_start {t : FileTree SeaPath} (habs : Absent t dir (idOf name)) :
    Counted idOf dir name 0 ⟨t, none, none, []⟩ :=
  ⟨Or.inl habs, by simp, by simp, by simp, fun _ _ => rfl⟩

/-- Every re-opening answers the id from before the close exactly when the
number of expiries between the two openings is a multiple of `2 ^ 64`. -/
theorem superRun_persists_iff {t : FileTree SeaPath} {ops : List SuperOp} {s : SuperSession}
    (habs : Absent t dir (idOf name)) (hrun : superRun idOf dir name t ops = some s) :
    (∀ x ∈ s.reopened, x.2 = x.1) ↔ NoneExpired 0 ops := by
  rw [superSteps_iff (counted_start habs) hrun]
  simp

/-- One expiry is forgotten by the next opening. -/
theorem superRun_forgets_expiry :
    ∃ s, superRun (controllerGetBlockId fun _ => controllerHash) "" "controller" (fun _ => none)
        [.openOrCreate 0 0, .expire (.clear 0), .close, .openOrCreate 0 0] = some s ∧
      s.reopened = [(0x6633303163343937, 0x6633303163343936)] ∧
      ¬ ∀ x ∈ s.reopened, x.2 = x.1 := by
  obtain ⟨s, hs, hreopened⟩ := Option.map_eq_some_iff.mp (show (superRun
    (controllerGetBlockId fun _ => controllerHash) "" "controller" (fun _ => none)
    [.openOrCreate 0 0, .expire (.clear 0), .close, .openOrCreate 0 0]).map
      SuperSession.reopened = some [(0x6633303163343937, 0x6633303163343936)] by decide +kernel)
  refine ⟨s, hs, hreopened, ?_⟩
  rw [hreopened]
  intro hkept
  exact absurd (hkept _ (List.mem_singleton_self _)) (by decide)

/-- A super block that is closed without an expiry comes back as it was. -/
theorem superRun_persists_unexpired :
    ∃ s, superRun (controllerGetBlockId fun _ => controllerHash) "" "controller" (fun _ => none)
        [.openOrCreate 0 0, .close, .openOrCreate 0 0, .expire (.clear 0)] = some s ∧
      ∀ x ∈ s.reopened, x.2 = x.1 := by
  obtain ⟨s, hs⟩ := Option.isSome_iff_exists.mp (show (superRun
    (controllerGetBlockId fun _ => controllerHash) "" "controller" (fun _ => none)
    [.openOrCreate 0 0, .close, .openOrCreate 0 0, .expire (.clear 0)]).isSome by decide +kernel)
  exact ⟨s, hs, (superRun_persists_iff ⟨rfl, rfl⟩ hs).mpr (by simp [NoneExpired])⟩

end SeaStore.Controller
