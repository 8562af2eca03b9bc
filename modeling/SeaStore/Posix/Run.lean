import Mathlib.Data.Nat.Notation

/-!
Runs of partial steps, and the one induction over them. A step that is not
possible ends the run without a state.
-/
namespace SeaStore.Posix

variable {S Op : Type}

def runSteps (step : S → Op → Option S) : S → List Op → Option S
  | s, [] => some s
  | s, op :: ops => (step s op).bind (fun s' => runSteps step s' ops)

theorem runSteps_append (step : S → Op → Option S) (s : S) (ops more : List Op) :
    runSteps step s (ops ++ more) =
      (runSteps step s ops).bind (fun s' => runSteps step s' more) := by
  induction ops generalizing s with
  | nil => rfl
  | cons op ops ih =>
    simp only [List.cons_append, runSteps]
    cases step s op with
    | none => rfl
    | some s' => exact ih s'

/-- What holds of the first state, with nothing done, and is kept by each step
holds of the last state, with the whole run done. -/
theorem runSteps_invariant {step : S → Op → Option S} (Inv : List Op → S → Prop)
    (hstep : ∀ past op s s', Inv past s → step s op = some s' → Inv (past ++ [op]) s')
    {s s' : S} {ops : List Op} (h0 : Inv [] s) (hrun : runSteps step s ops = some s') :
    Inv ops s' := by
  have aux : ∀ (ops past : List Op) (s : S), Inv past s → runSteps step s ops = some s' →
      Inv (past ++ ops) s' := by
    intro ops
    induction ops with
    | nil =>
      intro past s hs hrun
      cases hrun
      simpa using hs
    | cons op ops ih =>
      intro past s hs hrun
      obtain ⟨s₁, h₁, hrest⟩ := Option.bind_eq_some_iff.mp hrun
      simpa using ih (past ++ [op]) s₁ (hstep past op s s₁ hs h₁) hrest
  exact aux ops [] s h0 hrun

/-- Every step of the run is one that the state before it allows. -/
def Allowed (step : S → Op → Option S) (allow : S → Op → Prop) : S → List Op → Prop
  | _, [] => True
  | s, op :: ops => allow s op ∧ ∀ s', step s op = some s' → Allowed step allow s' ops

/-- A condition on the steps alone need not be checked state by state. -/
theorem allowed_of_forall {step : S → Op → Option S} {allow : Op → Prop} {s : S} {ops : List Op}
    (h : ∀ op ∈ ops, allow op) : Allowed step (fun _ => allow) s ops := by
  induction ops generalizing s with
  | nil => trivial
  | cons op ops ih =>
    refine ⟨h op (List.mem_cons_self ..), ?_⟩
    intro s' _
    exact ih (fun op' hmem => h op' (List.mem_cons_of_mem op hmem))

/-- What holds of the first state and is kept by every allowed step holds of
the last state of a run of such steps. -/
theorem runSteps_of_allowed {step : S → Op → Option S} {allow : S → Op → Prop} (Inv : S → Prop)
    (hstep : ∀ s op s', Inv s → allow s op → step s op = some s' → Inv s')
    {s s' : S} {ops : List Op} (h0 : Inv s) (hallow : Allowed step allow s ops)
    (hrun : runSteps step s ops = some s') : Inv s' := by
  induction ops generalizing s with
  | nil =>
    obtain rfl := Option.some.inj hrun
    exact h0
  | cons op ops ih =>
    obtain ⟨s₁, h₁, hrest⟩ := Option.bind_eq_some_iff.mp hrun
    exact ih (hstep s op s₁ h0 hallow.1 h₁) (hallow.2 s₁ h₁) hrest

/-- One handle at a time: each operation finds a handle, or none, as it needs
it, and leaves one, or none, to the next. -/
def oneHandle (needs leaves : Op → Bool) : Bool → List Op → Bool
  | _, [] => true
  | opened, op :: ops => opened == needs op && oneHandle needs leaves (leaves op) ops

section Refinement

variable {A R : Type}

/-- What a total specification makes of the steps: its last state, and its replies in order. -/
def specRun (spec : A → Op → A × R) : A → List Op → A × List R
  | a, [] => (a, [])
  | a, op :: ops =>
    let (a, reply) := spec a op
    let (a, replies) := specRun spec a ops
    (a, reply :: replies)

/-- Steps that stay related to those of a specification, and reply as it does,
run as it runs. `Fit` is what is asked of the steps that are still to come. -/
theorem runSteps_refines {step : S → Op → Option S} {spec : A → Op → A × R} {replies : S → List R}
    {Rel : A → S → Prop} {Fit : A → S → List Op → Prop}
    (hstep : ∀ a s op ops, Rel a s → Fit a s (op :: ops) → ∃ s', step s op = some s' ∧
      Rel (spec a op).1 s' ∧ replies s' = replies s ++ [(spec a op).2] ∧ Fit (spec a op).1 s' ops)
    {a : A} {s : S} {ops : List Op} (hrel : Rel a s) (hfit : Fit a s ops) :
    ∃ s', runSteps step s ops = some s' ∧ Rel (specRun spec a ops).1 s' ∧
      replies s' = replies s ++ (specRun spec a ops).2 := by
  induction ops generalizing a s with
  | nil => exact ⟨s, rfl, hrel, (List.append_nil _).symm⟩
  | cons op ops ih =>
    obtain ⟨s₁, h₁, hrel₁, hreplies₁, hfit₁⟩ := hstep a s op ops hrel hfit
    obtain ⟨s', hrun, hrel', hreplies'⟩ := ih hrel₁ hfit₁
    refine ⟨s', ?_, hrel', ?_⟩
    · rw [runSteps, h₁]
      exact hrun
    · rw [hreplies', hreplies₁, List.append_assoc, List.singleton_append]
      rfl

end Refinement

section Following

variable {A R : Type}

/-- A run of a specification that may have several answers to a step. -/
inductive Follows (next : A → Op → R → A → Prop) : A → List Op → List R → A → Prop
  | nil (a : A) : Follows next a [] [] a
  | cons {a a₁ a₂ : A} {op : Op} {r : R} {ops : List Op} {rs : List R} :
      next a op r a₁ → Follows next a₁ ops rs a₂ → Follows next a (op :: ops) (r :: rs) a₂

/-- Allowed steps that always give an answer which the specification has, and
stay related to it, run as it runs. -/
theorem runSteps_follows {step : S → Op → Option S} {next : A → Op → R → A → Prop}
    {allow : S → Op → Prop} {replies : S → List R} {Rel : A → S → Prop}
    (hstep : ∀ a s op, Rel a s → allow s op → ∃ s' a' r, step s op = some s' ∧
      next a op r a' ∧ Rel a' s' ∧ replies s' = replies s ++ [r])
    {a : A} {s : S} {ops : List Op} (hrel : Rel a s) (hallow : Allowed step allow s ops) :
    ∃ s' a' rs, runSteps step s ops = some s' ∧ Follows next a ops rs a' ∧ Rel a' s' ∧
      replies s' = replies s ++ rs := by
  induction ops generalizing a s with
  | nil => exact ⟨s, a, [], rfl, .nil a, hrel, (List.append_nil _).symm⟩
  | cons op ops ih =>
    obtain ⟨s₁, a₁, r, h₁, hnext, hrel₁, hreplies₁⟩ := hstep a s op hrel hallow.1
    obtain ⟨s', a', rs, hrun, hfollows, hrel', hreplies'⟩ := ih hrel₁ (hallow.2 s₁ h₁)
    refine ⟨s', a', r :: rs, ?_, .cons hnext hfollows, hrel', ?_⟩
    · rw [runSteps, h₁]
      exact hrun
    · rw [hreplies', hreplies₁, List.append_assoc, List.singleton_append]

end Following

end SeaStore.Posix
