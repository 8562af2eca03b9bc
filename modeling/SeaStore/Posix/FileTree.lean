import SeaStore.Posix.File
import SeaStore.Posix.Program
import Mathlib.Data.Int.Notation
import Mathlib.Logic.Function.Basic

/-!
Trees of regular files and the calls programs make on them. A descriptor is a
path with a position of its own: two descriptors of one file share its bytes
and nothing else. Directories are not kept, every path can be created. A path
that has been unlinked behaves as an empty file that cannot be written.
-/
namespace SeaStore.Posix

inductive FileCall (P : Type)
  | openFile (path : P) (create : Bool)
  | size (path : P)
  | read (path : P) (pos count : ℕ)
  | write (path : P) (pos : ℕ) (data : Bytes) (outcome : Outcome)
  | truncate (path : P) (length : ℕ)
  | access (path : P)
  | unlink (path : P)

abbrev files (P : Type) : Interface where
  Call := FileCall P
  Reply
    | .openFile .. => Bool
    | .size .. => ℕ
    | .read .. => Bytes
    | .write .. => Except ℕ ℕ
    | .truncate .. => Unit
    | .access .. => Bool
    | .unlink .. => Bool

/-- The error number of a call on a descriptor of no file. -/
def EBADF : ℕ := 9

abbrev FileTree (P : Type) := P → Option File

variable {P : Type} [DecidableEq P]

namespace FileTree

def set (t : FileTree P) (path : P) (f : File) : FileTree P := Function.update t path (some f)

@[simp] theorem set_self (t : FileTree P) (path : P) (f : File) : t.set path f path = some f := by
  simp [set]

@[simp] theorem set_other (t : FileTree P) {path other : P} (f : File) (h : other ≠ path) :
    t.set path f other = t other := by
  simp [set, h]

@[simp] theorem set_set (t : FileTree P) (path : P) (f g : File) :
    (t.set path f).set path g = t.set path g := by
  simp [set]

end FileTree

/-- The effect of one call. Only `openFile` with `create`, `write`, `truncate`
and `unlink` change the tree. -/
def serve : System (files P) (FileTree P)
  | .openFile path create, t =>
    match t path with
    | some _ => (true, t)
    | none => if create then (true, t.set path .empty) else (false, t)
  | .size path, t => ((t path).elim 0 File.size, t)
  | .read path pos count, t => ((t path).elim [] (fun f => slice f.bytes pos count), t)
  | .write path pos data o, t =>
    match t path with
    | some f => ((f.write pos data o).1, t.set path (f.write pos data o).2)
    | none => (.error EBADF, t)
  | .truncate path length, t =>
    match t path with
    | some f => ((), t.set path (f.truncate length))
    | none => ((), t)
  | .access path, t => ((t path).isSome, t)
  | .unlink path, t => ((t path).isSome, Function.update t path none)

/-- An open descriptor: the file's path and the descriptor's own position. -/
structure Fd (P : Type) where
  path : P
  pos : ℕ

/-- The signed file offset that an unsigned 64-bit value becomes. -/
def offT (off : UInt64) : ℤ := if off.toNat ≤ offMax then off.toNat else (off.toNat : ℤ) - 2 ^ 64

/-- `open(path, O_RDWR)`, with `O_CREAT` when `create`; none is `-1`. -/
def openFile (path : P) (create : Bool) : Program (files P) (Option (Fd P)) :=
  .call (.openFile path create) fun opened => pure (if opened then some ⟨path, 0⟩ else none)

/-- `access(path, F_OK)`, true when the file is there. -/
def access (path : P) : Program (files P) Bool := .call (.access path) pure

/-- `unlink(path)`, true when there was such a file. -/
def unlink (path : P) : Program (files P) Bool := .call (.unlink path) pure

namespace Fd

omit [DecidableEq P]

/-- Move to `target` if that is a file offset; a failing `lseek` moves nothing. -/
def moveTo (fd : Fd P) (target : ℤ) : Fd P :=
  if 0 ≤ target ∧ target ≤ offMax then { fd with pos := target.toNat } else fd

/-- `lseek(fd, off, SEEK_SET)`. -/
def seekSet (fd : Fd P) (off : UInt64) : Fd P := fd.moveTo (offT off)

/-- `lseek(fd, off, SEEK_CUR)`. -/
def seekCur (fd : Fd P) (off : UInt64) : Fd P := fd.moveTo (fd.pos + offT off)

/-- `lseek(fd, 0, SEEK_END)`, with the offset it returns. -/
def seekEnd (fd : Fd P) : Program (files P) (UInt64 × Fd P) :=
  .call (.size fd.path) fun size => pure (UInt64.ofNat size, { fd with pos := size })

def read (fd : Fd P) (count : ℕ) : Program (files P) (Bytes × Fd P) :=
  .call (.read fd.path fd.pos count) fun bytes =>
    pure (bytes, { fd with pos := fd.pos + bytes.length })

/-- The descriptor after a `write` with this result. -/
def advance (fd : Fd P) : Except ℕ ℕ → Fd P
  | .ok count => { fd with pos := fd.pos + count }
  | .error _ => fd

def write (fd : Fd P) (data : Bytes) (o : Outcome) : Program (files P) (Except ℕ ℕ × Fd P) :=
  .call (.write fd.path fd.pos data o) fun result => pure (result, fd.advance result)

def truncate (fd : Fd P) (length : ℕ) : Program (files P) Unit :=
  .call (.truncate fd.path length) pure

@[simp] theorem advance_path (fd : Fd P) (result : Except ℕ ℕ) :
    (fd.advance result).path = fd.path := by
  cases result <;> rfl

/-- A write at the end of a file leaves its descriptor at the new end. -/
theorem advance_end (path : P) (f : File) (data : Bytes) (o : Outcome) :
    ((⟨path, f.size⟩ : Fd P).advance (f.write f.size data o).1).pos =
      (f.write f.size data o).2.size := by
  have hput : ∀ more : Bytes,
      ((⟨path, f.size⟩ : Fd P).advance (f.put f.size more).1).pos = (f.put f.size more).2.size := by
    intro more
    by_cases h : f.size + more.length ≤ offMax
    · obtain ⟨hok, hbytes⟩ := File.put_fit h
      have hbytes' : (f.put f.size more).2.bytes = f.bytes ++ more := by
        rw [hbytes, File.size, overlay_end]
      rw [hok]
      show f.size + more.length = (f.put f.size more).2.bytes.length
      rw [hbytes', List.length_append, File.size]
    · simp only [File.put_no_fit h, advance]
  cases o with
  | whole => exact hput data
  | error errno => rfl
  | short count => exact hput (data.take count)

@[simp] theorem seekSet_path (fd : Fd P) (off : UInt64) : (fd.seekSet off).path = fd.path := by
  unfold seekSet moveTo
  split <;> rfl

@[simp] theorem seekCur_path (fd : Fd P) (off : UInt64) : (fd.seekCur off).path = fd.path := by
  unfold seekCur moveTo
  split <;> rfl

theorem offT_of_le {off : UInt64} (h : off.toNat ≤ offMax) : offT off = off.toNat := by
  simp [offT, h]

theorem seekSet_of_le {fd : Fd P} {off : UInt64} (h : off.toNat ≤ offMax) :
    fd.seekSet off = { fd with pos := off.toNat } := by
  simp [seekSet, moveTo, offT_of_le h, h]

@[simp] theorem seekSet_zero (fd : Fd P) : fd.seekSet 0 = ⟨fd.path, 0⟩ := by
  rw [seekSet_of_le (by simp)]
  rfl

/-- From the start of the file a relative seek is an absolute one. -/
theorem seekCur_start {fd : Fd P} {off : UInt64} (h : fd.pos = 0) :
    fd.seekCur off = fd.seekSet off := by
  simp [seekCur, seekSet, h]

theorem seekCur_of_le {fd : Fd P} {off : UInt64} (hoff : off.toNat ≤ offMax)
    (h : fd.pos + off.toNat ≤ offMax) :
    fd.seekCur off = { fd with pos := fd.pos + off.toNat } := by
  have hpos : (0 : ℤ) ≤ fd.pos + off.toNat ∧ ((fd.pos : ℤ) + off.toNat) ≤ offMax := by omega
  have hnat : ((fd.pos : ℤ) + off.toNat).toNat = fd.pos + off.toNat := by omega
  simp [seekCur, moveTo, offT_of_le hoff, hpos, hnat]

/-- A forward relative seek never moves a descriptor back. -/
theorem le_seekCur_pos {fd : Fd P} {off : UInt64} (hoff : off.toNat ≤ offMax) :
    fd.pos ≤ (fd.seekCur off).pos := by
  unfold seekCur moveTo
  rw [offT_of_le hoff]
  split
  · show fd.pos ≤ ((fd.pos : ℤ) + off.toNat).toNat
    omega
  · exact Nat.le_refl _

end Fd

section Runs

variable {t : FileTree P} {f : File}

theorem run_openFile_some {path : P} (create : Bool) (h : t path = some f) :
    (openFile path create).run serve t = some (some ⟨path, 0⟩, t) := by
  simp only [openFile, Program.run, serve, h]
  rfl

theorem run_openFile_none {path : P} (h : t path = none) :
    (openFile path false).run serve t = some (none, t) := by
  simp only [openFile, Program.run, serve, h]
  rfl

theorem run_openFile_create {path : P} (h : t path = none) :
    (openFile path true).run serve t = some (some ⟨path, 0⟩, t.set path .empty) := by
  simp only [openFile, Program.run, serve, h]
  rfl

/-- Opened for creation, a file that is not there becomes an empty one. -/
theorem run_openFile_creating (t : FileTree P) (path : P) :
    (openFile path true).run serve t =
      some (some ⟨path, 0⟩, t.set path ((t path).getD .empty)) := by
  cases hf : t path with
  | none => exact run_openFile_create hf
  | some f =>
    have hsame : t.set path f = t := Function.update_eq_self_iff.mpr hf.symm
    rw [run_openFile_some true hf, Option.getD_some, hsame]

theorem run_seekEnd {fd : Fd P} (h : t fd.path = some f) :
    fd.seekEnd.run serve t = some ((UInt64.ofNat f.size, { fd with pos := f.size }), t) := by
  simp only [Fd.seekEnd, Program.run, serve, h]
  rfl

theorem run_read (fd : Fd P) (count : ℕ) (h : t fd.path = some f) :
    (fd.read count).run serve t = some ((slice f.bytes fd.pos count,
      { fd with pos := fd.pos + (slice f.bytes fd.pos count).length }), t) := by
  simp only [Fd.read, Program.run, serve, h]
  rfl

theorem run_write (fd : Fd P) {data : Bytes} {o : Outcome} {result : Except ℕ ℕ} {f' : File}
    (h : t fd.path = some f) (hw : f.write fd.pos data o = (result, f')) :
    (fd.write data o).run serve t = some ((result, fd.advance result), t.set fd.path f') := by
  simp only [Fd.write, Program.run, serve, h, hw]
  rfl

theorem run_seekEnd_missing {fd : Fd P} (h : t fd.path = none) :
    fd.seekEnd.run serve t = some ((0, { fd with pos := 0 }), t) := by
  simp only [Fd.seekEnd, Program.run, serve, h]
  rfl

theorem run_write_missing {fd : Fd P} (data : Bytes) (o : Outcome) (h : t fd.path = none) :
    (fd.write data o).run serve t = some ((.error EBADF, fd), t) := by
  simp only [Fd.write, Program.run, serve, h]
  rfl

theorem run_truncate {fd : Fd P} (length : ℕ) (h : t fd.path = some f) :
    (fd.truncate length).run serve t = some ((), t.set fd.path (f.truncate length)) := by
  simp only [Fd.truncate, Program.run, serve, h]
  rfl

theorem run_access (t : FileTree P) (path : P) :
    (access path).run serve t = some ((t path).isSome, t) := rfl

theorem run_unlink (t : FileTree P) (path : P) :
    (unlink path).run serve t = some ((t path).isSome, Function.update t path none) := rfl

/-- A write call that has put all its data in place. -/
def wrote : (c : (files P).Call) → (files P).Reply c → Bool
  | .write _ _ data _, result => decide (result = .ok data.length)
  | .openFile .., _ | .size .., _ | .read .., _ | .truncate .., _ | .access .., _
  | .unlink .., _ => false

theorem fate_seekEnd {fd : Fd P} (n : ℕ) (h : t fd.path = some f) :
    fd.seekEnd.fate serve wrote n t =
      .ended (UInt64.ofNat f.size, { fd with pos := f.size }) t n := by
  simp only [Fd.seekEnd, Program.fate, serve, h, wrote]
  rfl

theorem fate_write_whole (fd : Fd P) {data : Bytes} {o : Outcome} {f' : File} (n : ℕ)
    (h : t fd.path = some f) (hw : f.write fd.pos data o = (.ok data.length, f')) :
    (fd.write data o).fate serve wrote n t =
      if n ≤ 1 then .died (t.set fd.path f')
      else .ended (.ok data.length, fd.advance (.ok data.length)) (t.set fd.path f') (n - 1) := by
  simp only [Fd.write, Program.fate, serve, h, hw, wrote, decide_true, if_true]
  rfl

theorem fate_write_failed (fd : Fd P) {data : Bytes} {o : Outcome} {result : Except ℕ ℕ} {f' : File}
    (n : ℕ) (h : t fd.path = some f) (hw : f.write fd.pos data o = (result, f'))
    (hfail : result ≠ .ok data.length) :
    (fd.write data o).fate serve wrote n t =
      .ended (result, fd.advance result) (t.set fd.path f') n := by
  simp only [Fd.write, Program.fate, serve, h, hw, wrote, hfail, decide_false]
  rfl

end Runs

end SeaStore.Posix
