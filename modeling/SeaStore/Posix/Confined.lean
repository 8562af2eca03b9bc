import SeaStore.Posix.FileTree

/-!
Programs that keep to one file, programs that keep off one, and programs that
only read. Whatever the system replies, a program of the first kind meets no
fault and all its calls are on one path, so that it runs to its end from any
tree and leaves every other file as it was. One of the second kind may read the
file it keeps off. One of the third runs to its end and leaves all files alone.
-/
namespace SeaStore.Posix

variable {P α β : Type} {path : P}

/-- The path that a call is on. -/
def FileCall.target : FileCall P → P
  | .openFile path _ | .size path | .read path _ _ | .write path _ _ _ | .truncate path _
  | .access path | .unlink path => path

/-- Whatever the replies, every call is on `path`, no fault is met, and the
value at the end satisfies `post`. -/
def Program.Confined (path : P) (post : α → Prop) : Program (files P) α → Prop
  | .pure value => post value
  | .fault => False
  | .call c next => FileCall.target c = path ∧ ∀ reply, (next reply).Confined path post

namespace Program.Confined

variable {post : α → Prop} {last : β → Prop} {p : Program (files P) α}
  {f : α → Program (files P) β}

theorem bind (h : p.Confined path fun value => (f value).Confined path last) :
    (p >>= f).Confined path last := by
  change (p.bind f).Confined path last
  induction p with
  | pure value => exact h
  | fault => exact h
  | call c next ih => exact ⟨h.1, fun reply => ih reply (h.2 reply)⟩

/-- A call changes no file but the one it is on. -/
theorem serve_other [DecidableEq P] (c : FileCall P) (t : FileTree P) {other : P}
    (h : other ≠ c.target) : (serve c t).2 other = t other := by
  cases c with
  | openFile path create =>
    cases hfile : t path with
    | some f => simp [serve, hfile]
    | none =>
      cases create with
      | true =>
        simp only [serve, hfile, if_true]
        exact FileTree.set_other t .empty h
      | false => simp [serve, hfile]
  | write path pos data o =>
    cases hfile : t path with
    | some f =>
      simp only [serve, hfile]
      exact FileTree.set_other t (f.write pos data o).2 h
    | none => simp [serve, hfile]
  | truncate path length =>
    cases hfile : t path with
    | some f =>
      simp only [serve, hfile]
      exact FileTree.set_other t (f.truncate length) h
    | none => simp [serve, hfile]
  | unlink path => exact Function.update_of_ne h none t
  | size path => rfl
  | read path pos count => rfl
  | access path => rfl

/-- A confined program runs to its end and changes no other file. -/
theorem run [DecidableEq P] (h : p.Confined path post) (t : FileTree P) :
    ∃ value t', p.run serve t = some (value, t') ∧ post value ∧
      ∀ other, other ≠ path → t' other = t other := by
  induction p generalizing t with
  | pure value => exact ⟨value, t, rfl, h, fun _ _ => rfl⟩
  | fault => exact h.elim
  | call c next ih =>
    obtain ⟨hpath, hnext⟩ := h
    obtain ⟨value, t', hrun, hpost, hkept⟩ := ih (serve c t).1 (hnext _) (serve c t).2
    refine ⟨value, t', hrun, hpost, ?_⟩
    intro other hother
    rw [hkept other hother, serve_other c t (by rw [hpath]; exact hother)]

end Program.Confined

/-- The file that a call may change. -/
def FileCall.changes : FileCall P → Option P
  | .openFile path true | .write path _ _ _ | .truncate path _ | .unlink path => some path
  | .openFile _ false | .size _ | .read _ _ _ | .access _ => none

/-- Whatever the replies, no call changes the file at `path`, and a value at the
end satisfies `post`. -/
def Program.Spares (path : P) (post : α → Prop) : Program (files P) α → Prop
  | .pure value => post value
  | .fault => True
  | .call c next => c.changes ≠ some path ∧ ∀ reply, (next reply).Spares path post

namespace Program.Spares

variable {post : α → Prop} {last : β → Prop} {p : Program (files P) α}
  {f : α → Program (files P) β}

theorem bind (h : p.Spares path fun value => (f value).Spares path last) :
    (p >>= f).Spares path last := by
  change (p.bind f).Spares path last
  induction p with
  | pure value => exact h
  | fault => exact h
  | call c next ih => exact ⟨h.1, fun reply => ih reply (h.2 reply)⟩

theorem mono {weaker : α → Prop} (h : p.Spares path post) (hpost : ∀ value, post value →
    weaker value) : p.Spares path weaker := by
  induction p with
  | pure value => exact hpost value h
  | fault => trivial
  | call c next ih => exact ⟨h.1, fun reply => ih reply (h.2 reply)⟩

theorem serve_same [DecidableEq P] (c : FileCall P) (t : FileTree P)
    (h : c.changes ≠ some path) : (serve c t).2 path = t path := by
  by_cases htarget : path = c.target
  · cases c with
    | openFile other create =>
      cases create with
      | true => exact absurd (congrArg some htarget.symm) h
      | false =>
        cases hfile : t other with
        | some f => simp [serve, hfile]
        | none => simp [serve, hfile]
    | write other pos data o => exact absurd (congrArg some htarget.symm) h
    | truncate other length => exact absurd (congrArg some htarget.symm) h
    | unlink other => exact absurd (congrArg some htarget.symm) h
    | size other => rfl
    | read other pos count => rfl
    | access other => rfl
  · exact Confined.serve_other c t htarget

/-- A run that comes to its end has left the file as it was. -/
theorem run [DecidableEq P] (h : p.Spares path post) {t t' : FileTree P} {value : α}
    (hrun : p.run serve t = some (value, t')) : post value ∧ t' path = t path := by
  induction p generalizing t with
  | pure first =>
    obtain ⟨rfl, rfl⟩ := Prod.mk.inj (Option.some.inj hrun)
    exact ⟨h, rfl⟩
  | fault => exact absurd hrun (by simp)
  | call c next ih =>
    obtain ⟨hpost, hsame⟩ := ih (serve c t).1 (h.2 _) hrun
    exact ⟨hpost, hsame.trans (serve_same c t h.1)⟩

end Program.Spares

/-- Whatever the replies, no call changes a file, no fault is met, and the value
at the end satisfies `post`. -/
def Program.ReadOnly (post : α → Prop) : Program (files P) α → Prop
  | .pure value => post value
  | .fault => False
  | .call c next => c.changes = none ∧ ∀ reply, (next reply).ReadOnly post

namespace Program.ReadOnly

variable {post : α → Prop} {last : β → Prop} {p : Program (files P) α}
  {f : α → Program (files P) β}

theorem bind (h : p.ReadOnly fun value => (f value).ReadOnly last) : (p >>= f).ReadOnly last := by
  change (p.bind f).ReadOnly last
  induction p with
  | pure value => exact h
  | fault => exact h
  | call c next ih => exact ⟨h.1, fun reply => ih reply (h.2 reply)⟩

theorem mono {weaker : α → Prop} (h : p.ReadOnly post) (hpost : ∀ value, post value →
    weaker value) : p.ReadOnly weaker := by
  induction p with
  | pure value => exact hpost value h
  | fault => exact h
  | call c next ih => exact ⟨h.1, fun reply => ih reply (h.2 reply)⟩

/-- Reading keeps off every file. -/
theorem spares (h : p.ReadOnly post) : p.Spares path post := by
  induction p with
  | pure value => exact h
  | fault => trivial
  | call c next ih =>
    refine ⟨?_, fun reply => ih reply (h.2 reply)⟩
    rw [h.1]
    exact Option.some_ne_none _ ∘ Eq.symm

/-- Such a program runs to its end and leaves the files as they were. -/
theorem run [DecidableEq P] (h : p.ReadOnly post) (t : FileTree P) :
    ∃ value, p.run serve t = some (value, t) ∧ post value := by
  induction p with
  | pure value => exact ⟨value, rfl, h⟩
  | fault => exact h.elim
  | call c next ih =>
    obtain ⟨value, hrun, hpost⟩ := ih (serve c t).1 (h.2 _)
    have hsame : (serve c t).2 = t := by
      funext path
      apply Spares.serve_same c t
      rw [h.1]
      exact Option.some_ne_none _ ∘ Eq.symm
    refine ⟨value, ?_, hpost⟩
    rw [Program.run, hsame, hrun]

end Program.ReadOnly

section Calls

variable {fd : Fd P}

/-- A descriptor is one of the file that was asked for. -/
theorem openFile_reply {other : P} {post : Option (Fd P) → Prop}
    (h : ∀ fd, (∀ f, fd = some f → f.path = other) → post fd) (opened : Bool) :
    post (if opened then some ⟨other, 0⟩ else none) := by
  apply h
  intro f hf
  cases opened with
  | true =>
    obtain rfl := Option.some.inj hf
    rfl
  | false => exact absurd hf (by simp)

theorem readOnly_openFile (other : P) {post : Option (Fd P) → Prop}
    (h : ∀ fd, (∀ f, fd = some f → f.path = other) → post fd) :
    (openFile other false).ReadOnly post :=
  ⟨rfl, openFile_reply h⟩

theorem readOnly_read (count : ℕ) {post : Bytes × Fd P → Prop}
    (h : ∀ bytes (fd' : Fd P), fd'.path = fd.path → post (bytes, fd')) :
    (fd.read count).ReadOnly post :=
  ⟨rfl, fun _ => h _ _ rfl⟩

theorem spares_create {other : P} (hne : other ≠ path) (create : Bool)
    {post : Option (Fd P) → Prop} (h : ∀ fd, (∀ f, fd = some f → f.path = other) → post fd) :
    (openFile other create).Spares path post := by
  refine ⟨?_, openFile_reply h⟩
  cases create with
  | true => simpa [FileCall.changes] using hne
  | false => simp [FileCall.changes]

theorem spares_seekEnd {post : UInt64 × Fd P → Prop}
    (h : ∀ off (fd' : Fd P), fd'.path = fd.path → post (off, fd')) :
    fd.seekEnd.Spares path post :=
  ⟨by simp [FileCall.changes], fun _ => h _ _ rfl⟩

theorem spares_truncate (hne : fd.path ≠ path) (length : ℕ) {post : Unit → Prop} (h : post ()) :
    (fd.truncate length).Spares path post :=
  ⟨by simpa [FileCall.changes] using hne, fun _ => h⟩

theorem spares_write (hne : fd.path ≠ path) (data : Bytes) (o : Outcome)
    {post : Except ℕ ℕ × Fd P → Prop} (h : ∀ result (fd' : Fd P), fd'.path = fd.path →
      post (result, fd')) : (fd.write data o).Spares path post := by
  refine ⟨by simpa [FileCall.changes] using hne, ?_⟩
  intro result
  exact h result _ (Fd.advance_path fd result)

theorem confined_openFile (create : Bool) {post : Option (Fd P) → Prop}
    (h : ∀ fd, (∀ f, fd = some f → f.path = path) → post fd) :
    (openFile path create).Confined path post :=
  ⟨rfl, openFile_reply h⟩

theorem confined_seekEnd (hpath : fd.path = path) {post : UInt64 × Fd P → Prop}
    (h : ∀ off (fd' : Fd P), fd'.path = path → post (off, fd')) :
    fd.seekEnd.Confined path post :=
  ⟨hpath, fun _ => h _ _ hpath⟩

theorem confined_read (hpath : fd.path = path) (count : ℕ) {post : Bytes × Fd P → Prop}
    (h : ∀ bytes (fd' : Fd P), fd'.path = path → post (bytes, fd')) :
    (fd.read count).Confined path post :=
  ⟨hpath, fun _ => h _ _ hpath⟩

theorem confined_write (hpath : fd.path = path) (data : Bytes) (o : Outcome)
    {post : Except ℕ ℕ × Fd P → Prop} (h : ∀ result (fd' : Fd P), fd'.path = path →
      post (result, fd')) : (fd.write data o).Confined path post := by
  refine ⟨hpath, ?_⟩
  intro result
  exact h result _ ((Fd.advance_path fd result).trans hpath)

theorem confined_truncate (hpath : fd.path = path) (length : ℕ) {post : Unit → Prop}
    (h : post ()) : (fd.truncate length).Confined path post :=
  ⟨hpath, fun _ => h⟩

end Calls

end SeaStore.Posix
