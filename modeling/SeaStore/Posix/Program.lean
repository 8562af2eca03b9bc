import Mathlib.Data.Nat.Notation

/-!
Programs that make calls to a system. A program is a tree of calls, each with
a typed reply; running it threads the world through the calls. A fault stands
for undefined behaviour, after which nothing is promised. The tree is kept, so
that one text of a program can be run to its end, cut short by the death of its
process, or interleaved call by call with other programs.
-/
namespace SeaStore.Posix

structure Interface where
  Call : Type
  Reply : Call → Type

inductive Program (I : Interface) (α : Type) : Type
  | pure (value : α)
  | fault
  | call (c : I.Call) (next : I.Reply c → Program I α)

/-- What each call does to the world, and its reply. -/
abbrev System (I : Interface) (W : Type) := (c : I.Call) → W → I.Reply c × W

namespace Program

variable {I : Interface} {α β W : Type}

def bind : Program I α → (α → Program I β) → Program I β
  | pure value, f => f value
  | fault, _ => fault
  | call c next, f => call c (fun r => (next r).bind f)

instance : Monad (Program I) where
  pure := Program.pure
  bind := Program.bind

/-- A step of a computation that has no value where it goes wrong. -/
def ofOption : Option α → Program I α
  | some value => pure value
  | none => fault

/-- The value and the last world of a run, or nothing if the run meets a fault. -/
def run (sys : System I W) : Program I α → W → Option (α × W)
  | pure value, w => some (value, w)
  | fault, _ => none
  | call c next, w => (next (sys c w).1).run sys (sys c w).2

variable (sys : System I W)

@[simp] theorem run_pure (value : α) (w : W) :
    (Pure.pure value : Program I α).run sys w = some (value, w) := rfl

@[simp] theorem run_fault (w : W) : (fault : Program I α).run sys w = none := rfl

@[simp] theorem run_ofOption_some (value : α) (w : W) :
    (ofOption (some value) : Program I α).run sys w = some (value, w) := rfl

@[simp] theorem run_ofOption_none (w : W) :
    (ofOption none : Program I α).run sys w = none := rfl

@[simp] theorem run_bind (p : Program I α) (f : α → Program I β) (w : W) :
    (p >>= f).run sys w = (p.run sys w).bind (fun s => (f s.1).run sys s.2) := by
  change (p.bind f).run sys w = _
  induction p generalizing w with
  | pure value => rfl
  | fault => rfl
  | call c next ih => exact ih (sys c w).1 (sys c w).2

theorem run_bind_of_run {p : Program I α} {f : α → Program I β} {w w' : W} {value : α}
    (h : p.run sys w = some (value, w')) : (p >>= f).run sys w = (f value).run sys w' := by
  rw [run_bind, h, Option.bind_some]

@[simp] theorem run_ite (c : Prop) [Decidable c] (p q : Program I α) (w : W) :
    (if c then p else q).run sys w = if c then p.run sys w else q.run sys w := by
  split <;> rfl

/-- Whatever the system replies, the value at the end satisfies `post`. -/
def Returns (post : α → Prop) : Program I α → Prop
  | pure value => post value
  | fault => True
  | call _ next => ∀ reply, (next reply).Returns post

theorem returns_of_forall {post : α → Prop} (h : ∀ value, post value) (p : Program I α) :
    p.Returns post := by
  induction p with
  | pure value => exact h value
  | fault => trivial
  | call c next ih => exact ih

theorem Returns.bind {post : β → Prop} {p : Program I α} {f : α → Program I β}
    (h : p.Returns fun value => (f value).Returns post) : (p >>= f).Returns post := by
  change (p.bind f).Returns post
  induction p with
  | pure value => exact h
  | fault => trivial
  | call c next ih => exact fun reply => ih reply (h reply)

theorem Returns.mono {post last : α → Prop} {p : Program I α} (h : p.Returns post)
    (hle : ∀ value, post value → last value) : p.Returns last := by
  induction p with
  | pure value => exact hle value h
  | fault => trivial
  | call c next ih => exact fun reply => ih reply (h reply)

theorem Returns.run {post : α → Prop} {p : Program I α} (h : p.Returns post) {sys : System I W}
    {w w' : W} {value : α} (hrun : p.run sys w = some (value, w')) : post value := by
  induction p generalizing w with
  | pure first =>
    obtain ⟨rfl, -⟩ := Prod.mk.inj (Option.some.inj hrun)
    exact h
  | fault => exact absurd hrun (by simp [Program.run])
  | call c next ih => exact ih _ (h _) hrun

/-- It is enough to look at what follows a program. -/
theorem returns_bind {post : β → Prop} (p : Program I α) {f : α → Program I β}
    (h : ∀ value, (f value).Returns post) : (p >>= f).Returns post :=
  Returns.bind (returns_of_forall h p)

/-- What becomes of a process that dies right after its `n`-th counted call. -/
inductive Fate (α W : Type)
  | died (w : W)
  | ended (value : α) (w : W) (left : ℕ)
  | faulted

/-- The fate of a program; whether a call is counted depends on its reply too. -/
def fate (counted : (c : I.Call) → I.Reply c → Bool) : ℕ → Program I α → W → Fate α W
  | n, pure value, w => .ended value w n
  | _, fault, _ => .faulted
  | n, call c next, w =>
    if counted c (sys c w).1 then
      if n ≤ 1 then .died (sys c w).2 else (next (sys c w).1).fate counted (n - 1) (sys c w).2
    else (next (sys c w).1).fate counted n (sys c w).2

def Fate.andThen : Fate α W → (ℕ → α → W → Fate β W) → Fate β W
  | .died w, _ => .died w
  | .ended value w left, f => f left value w
  | .faulted, _ => .faulted

variable (counted : (c : I.Call) → I.Reply c → Bool)

@[simp] theorem fate_pure (n : ℕ) (value : α) (w : W) :
    (Pure.pure value : Program I α).fate sys counted n w = .ended value w n := rfl

@[simp] theorem fate_bind (n : ℕ) (p : Program I α) (f : α → Program I β) (w : W) :
    (p >>= f).fate sys counted n w = (p.fate sys counted n w).andThen
      (fun left value w' => (f value).fate sys counted left w') := by
  change (p.bind f).fate sys counted n w = _
  induction p generalizing n w with
  | pure value => rfl
  | fault => rfl
  | call c next ih =>
    simp only [bind, fate]
    split
    · split
      · rfl
      · exact ih (sys c w).1 (n - 1) (sys c w).2
    · exact ih (sys c w).1 n (sys c w).2

theorem fate_bind_of_ended {n left : ℕ} {p : Program I α} {f : α → Program I β} {w w' : W}
    {value : α} (h : p.fate sys counted n w = .ended value w' left) :
    (p >>= f).fate sys counted n w = (f value).fate sys counted left w' := by
  rw [fate_bind, h]
  rfl

theorem fate_bind_of_died {n : ℕ} {p : Program I α} {f : α → Program I β} {w w' : W}
    (h : p.fate sys counted n w = .died w') : (p >>= f).fate sys counted n w = .died w' := by
  rw [fate_bind, h]
  rfl

end Program

end SeaStore.Posix
