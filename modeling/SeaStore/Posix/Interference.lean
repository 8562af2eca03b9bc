import SeaStore.Posix.FileTree

/-!
Programs whose calls are interleaved with the calls of others. What a program
does to the world is told call by call; what the others may do to the world
before each of its calls is a relation that the program has to withstand.
-/
namespace SeaStore.Posix

variable {I : Interface} {α β W : Type}

namespace Program

variable (sys : System I W)

/-- Every call of the run from `w` takes the world a `G`-step on. -/
def Steps (G : W → W → Prop) : Program I α → W → Prop
  | pure _, _ => True
  | fault, _ => True
  | call c next, w => G w (sys c w).2 ∧ (next (sys c w).1).Steps G (sys c w).2

/-- No call changes the world, whatever it answers. -/
def Quiet : Program I α → Prop
  | pure _ => True
  | fault => True
  | call c next => (∀ w, (sys c w).2 = w) ∧ ∀ reply, (next reply).Quiet

/-- If the others take the world an `R`-step on before each call, the program
meets no fault, and ends with a value and a world that satisfy `post`. -/
def Withstands (R : W → W → Prop) (post : α → W → Prop) : Program I α → W → Prop
  | pure value, w => post value w
  | fault, _ => False
  | call c next, w => ∀ w', R w w' → (next (sys c w').1).Withstands R post (sys c w').2

/-- The program after its next call, and the world after that call. -/
def advance : Program I α → W → Option (Program I α × W)
  | call c next, w => some (next (sys c w).1, (sys c w).2)
  | pure _, _ | fault, _ => none

/-- The value of a program that has no call left. -/
def value : Program I α → Option α
  | pure value => some value
  | fault | call _ _ => none

variable {sys} {G R : W → W → Prop} {p p' : Program I α} {f : α → Program I β} {w w' : W}

@[simp] theorem quiet_pure (value : α) : (Pure.pure value : Program I α).Quiet sys := trivial

@[simp] theorem steps_pure (value : α) : (Pure.pure value : Program I α).Steps sys G w := trivial

@[simp] theorem withstands_pure {post : α → W → Prop} (value : α) :
    (Pure.pure value : Program I α).Withstands sys R post w ↔ post value w := Iff.rfl

@[simp] theorem withstands_ofOption_some {post : α → W → Prop} (value : α) :
    (ofOption (some value) : Program I α).Withstands sys R post w ↔ post value w := Iff.rfl

theorem Quiet.bind (hp : p.Quiet sys) (hf : ∀ value, (f value).Quiet sys) :
    (p >>= f).Quiet sys := by
  change (p.bind f).Quiet sys
  induction p with
  | pure value => exact hf value
  | fault => trivial
  | call c next ih => exact ⟨hp.1, fun reply => ih reply (hp.2 reply)⟩

theorem Quiet.steps (hrefl : ∀ w, G w w) (hp : p.Quiet sys) : p.Steps sys G w := by
  induction p generalizing w with
  | pure value => trivial
  | fault => trivial
  | call c next ih =>
    refine ⟨?_, ih _ (hp.2 _)⟩
    rw [hp.1 w]
    exact hrefl w

theorem Quiet.run_eq {value : α} (hp : p.Quiet sys) (hrun : p.run sys w = some (value, w')) :
    w' = w := by
  induction p generalizing w with
  | pure v => exact (congrArg Prod.snd (Option.some.inj hrun)).symm
  | fault => exact absurd hrun (by simp [run])
  | call c next ih => rw [ih _ (hp.2 _) hrun, hp.1 w]

/-- The steps of a sequence are those of its first part, and of its second part
from where the first has ended. -/
theorem Steps.bind (hp : p.Steps sys G w)
    (hf : ∀ value w', p.run sys w = some (value, w') → (f value).Steps sys G w') :
    (p >>= f).Steps sys G w := by
  change (p.bind f).Steps sys G w
  induction p generalizing w with
  | pure value => exact hf value w rfl
  | fault => trivial
  | call c next ih => exact ⟨hp.1, ih _ hp.2 hf⟩

theorem Steps.bind_of_run {value : α} (hp : p.Steps sys G w)
    (hrun : p.run sys w = some (value, w')) (hf : (f value).Steps sys G w') :
    (p >>= f).Steps sys G w := by
  apply hp.bind
  intro v w'' hv
  obtain ⟨rfl, rfl⟩ := Prod.mk.inj (Option.some.inj (hrun.symm.trans hv))
  exact hf

section Advance

theorem eq_pure_of_value {v : α} (h : p.value = some v) : p = pure v := by
  cases p with
  | pure v' => rw [Option.some.inj h]
  | fault => exact absurd h (by simp [value])
  | call c next => exact absurd h (by simp [value])

theorem run_of_advance (h : p.advance sys w = some (p', w')) : p.run sys w = p'.run sys w' := by
  cases p with
  | pure value => exact absurd h (by simp [advance])
  | fault => exact absurd h (by simp [advance])
  | call c next =>
    obtain ⟨rfl, rfl⟩ := Prod.mk.inj (Option.some.inj h)
    rfl

theorem Steps.advance (hp : p.Steps sys G w) (h : p.advance sys w = some (p', w')) :
    G w w' ∧ p'.Steps sys G w' := by
  cases p with
  | pure value => exact absurd h (by simp [Program.advance])
  | fault => exact absurd h (by simp [Program.advance])
  | call c next =>
    obtain ⟨rfl, rfl⟩ := Prod.mk.inj (Option.some.inj h)
    exact hp

theorem Quiet.advance (hp : p.Quiet sys) (h : p.advance sys w = some (p', w')) :
    w' = w ∧ p'.Quiet sys := by
  cases p with
  | pure value => exact absurd h (by simp [Program.advance])
  | fault => exact absurd h (by simp [Program.advance])
  | call c next =>
    obtain ⟨rfl, rfl⟩ := Prod.mk.inj (Option.some.inj h)
    exact ⟨hp.1 w, hp.2 _⟩

end Advance

section Withstand

variable {post more : α → W → Prop} {last : β → W → Prop}

theorem Withstands.mono (h : p.Withstands sys R post w)
    (himp : ∀ value w, post value w → more value w) : p.Withstands sys R more w := by
  induction p generalizing w with
  | pure value => exact himp value w h
  | fault => exact h
  | call c next ih => exact fun w' hw => ih _ (h w' hw)

theorem Withstands.bind
    (h : p.Withstands sys R (fun value w => (f value).Withstands sys R last w) w) :
    (p >>= f).Withstands sys R last w := by
  change (p.bind f).Withstands sys R last w
  induction p generalizing w with
  | pure value => exact h
  | fault => exact h
  | call c next ih => exact fun w' hw => ih _ (h w' hw)

/-- The others may go on before the program does. -/
theorem Withstands.later (htrans : ∀ {a b c}, R a b → R b c → R a c)
    (hpost : ∀ value w w', post value w → R w w' → post value w')
    (h : p.Withstands sys R post w) (hw : R w w') : p.Withstands sys R post w' := by
  cases p with
  | pure value => exact hpost value w w' h hw
  | fault => exact h
  | call c next => exact fun w'' hw' => h w'' (htrans hw hw')

theorem Withstands.advance (hrefl : ∀ w, R w w) (h : p.Withstands sys R post w)
    (ha : p.advance sys w = some (p', w')) : p'.Withstands sys R post w' := by
  cases p with
  | pure value => exact absurd ha (by simp [Program.advance])
  | fault => exact h.elim
  | call c next =>
    obtain ⟨rfl, rfl⟩ := Prod.mk.inj (Option.some.inj ha)
    exact h w (hrefl w)

/-- A program that withstands the others is at its end or can go on. -/
theorem Withstands.not_stuck (h : p.Withstands sys R post w) (ha : p.advance sys w = none) :
    ∃ v, p.value = some v := by
  cases p with
  | pure v => exact ⟨v, rfl⟩
  | fault => exact h.elim
  | call c next => exact absurd ha (by simp [Program.advance])

/-- Left alone, a quiet program runs to its end. -/
theorem Withstands.run (hrefl : ∀ w, R w w) (hp : p.Quiet sys)
    (h : p.Withstands sys R post w) : ∃ value, p.run sys w = some (value, w) ∧ post value w := by
  induction p generalizing w with
  | pure value => exact ⟨value, rfl, h⟩
  | fault => exact h.elim
  | call c next ih =>
    have hnext := h w (hrefl w)
    rw [hp.1 w] at hnext
    obtain ⟨value, hrun, hpost⟩ := ih _ (hp.2 _) hnext
    refine ⟨value, ?_, hpost⟩
    rw [Program.run, hp.1 w]
    exact hrun

end Withstand

end Program

section Calls

variable {P : Type} [DecidableEq P] {t : FileTree P} {f : File} {fd : Fd P}
  {G R : FileTree P → FileTree P → Prop}

theorem quiet_openFile (path : P) : (openFile path false).Quiet serve := by
  refine ⟨fun t => ?_, fun _ => trivial⟩
  cases h : t path with
  | none => simp [serve, h]
  | some f => simp [serve, h]

theorem quiet_read (fd : Fd P) (count : ℕ) : (fd.read count).Quiet serve :=
  ⟨fun _ => rfl, fun _ => trivial⟩

theorem quiet_seekEnd (fd : Fd P) : fd.seekEnd.Quiet serve :=
  ⟨fun _ => rfl, fun _ => trivial⟩

theorem steps_write (fd : Fd P) {data : Bytes} {o : Outcome} {result : Except ℕ ℕ} {f' : File}
    (h : t fd.path = some f) (hw : f.write fd.pos data o = (result, f'))
    (hstep : G t (t.set fd.path f')) : (fd.write data o).Steps serve G t := by
  refine ⟨?_, trivial⟩
  simp only [serve, h, hw]
  exact hstep

theorem steps_openFile_create {path : P} (h : t path = none) (hstep : G t (t.set path .empty)) :
    (openFile path true).Steps serve G t := by
  refine ⟨?_, trivial⟩
  simp only [serve, h, if_true]
  exact hstep

theorem withstands_openFile {path : P} {post : Option (Fd P) → FileTree P → Prop}
    (h : ∀ t', R t t' → post (if (t' path).isSome then some ⟨path, 0⟩ else none) t') :
    (openFile path false).Withstands serve R post t := by
  intro t' ht
  have hpost := h t' ht
  cases hpath : t' path with
  | none =>
    simp only [hpath] at hpost
    simp only [serve, hpath]
    exact hpost
  | some f =>
    simp only [hpath] at hpost
    simp only [serve, hpath]
    exact hpost

theorem withstands_read {count : ℕ} {post : Bytes × Fd P → FileTree P → Prop}
    (h : ∀ t', R t t' → ∃ f, t' fd.path = some f ∧ post (slice f.bytes fd.pos count,
      { fd with pos := fd.pos + (slice f.bytes fd.pos count).length }) t') :
    (fd.read count).Withstands serve R post t := by
  intro t' ht
  obtain ⟨f, hf, hpost⟩ := h t' ht
  simp only [serve, hf]
  exact hpost

end Calls

end SeaStore.Posix
