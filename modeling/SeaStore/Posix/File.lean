import SeaStore.Posix.Bytes

/-!
Regular files as byte strings of bounded size. A write reaches the file whole,
in part or not at all, as its outcome says; a write that would take the file
past the largest file offset fails. A hole left by a write past the end reads
as zero bytes.
-/
namespace SeaStore.Posix

/-- The largest value of a 64-bit `off_t`. -/
def offMax : ℕ := 2 ^ 63 - 1

structure File where
  bytes : Bytes
  size_le : bytes.length ≤ offMax

/-- What the system does with one `write(2)`: all of it, nothing and an error
number, or no more than the first `count` bytes. -/
inductive Outcome
  | whole
  | error (errno : ℕ)
  | short (count : ℕ)
  deriving DecidableEq

/-- The error number of a write past the largest file offset. -/
def EFBIG : ℕ := 27

namespace Outcome

/-- How many of `n` bytes the outcome lets through. -/
def reach : Outcome → ℕ → ℕ
  | whole, n => n
  | error _, _ => 0
  | short count, n => min count n

/-- The outcome lets all `n` bytes through, and `write` returns `n`. -/
def Full (o : Outcome) (n : ℕ) : Prop := o = whole ∨ ∃ count, o = short count ∧ n ≤ count

instance (o : Outcome) (n : ℕ) : Decidable (o.Full n) :=
  match o with
  | whole => isTrue (Or.inl rfl)
  | error _ => isFalse (by simp [Full])
  | short count => decidable_of_iff (n ≤ count) (by simp [Full])

theorem Full.reach_eq {o : Outcome} {n : ℕ} (h : o.Full n) : o.reach n = n := by
  rcases h with rfl | ⟨count, rfl, hle⟩
  · rfl
  · exact Nat.min_eq_right hle

theorem reach_le (o : Outcome) (n : ℕ) : o.reach n ≤ n := by
  cases o with
  | whole => exact Nat.le_refl _
  | error _ => exact Nat.zero_le _
  | short count => exact Nat.min_le_right _ _

@[simp] theorem full_whole (n : ℕ) : whole.Full n := Or.inl rfl

end Outcome

/-- The bytes after `data` has been written at `pos`. -/
def overlay (bytes : Bytes) (pos : ℕ) (data : Bytes) : Bytes :=
  bytes.take pos ++ List.replicate (if data = [] then 0 else pos - bytes.length) 0 ++ data ++
    bytes.drop (pos + data.length)

theorem overlay_length_le (bytes : Bytes) (pos : ℕ) (data : Bytes) :
    (overlay bytes pos data).length ≤ max bytes.length (pos + data.length) := by
  simp only [overlay, List.length_append, List.length_take, List.length_replicate,
    List.length_drop]
  split <;> omega

theorem length_le_overlay (bytes : Bytes) (pos : ℕ) (data : Bytes) :
    bytes.length ≤ (overlay bytes pos data).length := by
  simp only [overlay, List.length_append, List.length_take, List.length_replicate,
    List.length_drop]
  split <;> omega

/-- A write at the end of a file appends. -/
theorem overlay_end (bytes data : Bytes) : overlay bytes bytes.length data = bytes ++ data := by
  simp [overlay, List.drop_eq_nil_of_le (show bytes.length ≤ bytes.length + data.length by omega)]

/-- A write inside the file replaces as many bytes as it has. -/
theorem overlay_front (old rest data : Bytes) (h : data.length ≤ old.length) :
    overlay (old ++ rest) 0 data = data ++ old.drop data.length ++ rest := by
  have hdrop : (old ++ rest).drop data.length = old.drop data.length ++ rest :=
    List.drop_append_of_le_length h
  simp [overlay, hdrop]

/-- A write over bytes in the middle leaves what is before and after them. -/
theorem overlay_inside (before old after data : Bytes) (h : data.length = old.length) :
    overlay (before ++ old ++ after) before.length data = before ++ data ++ after := by
  have hdrop : (old ++ after).drop data.length = after := by rw [h, List.drop_left]
  simp [overlay, hdrop]

/-- Inside the file, only the bytes that were written differ. -/
theorem getElem?_overlay {bytes data : Bytes} {pos : ℕ} (hpos : pos ≤ bytes.length) (k : ℕ) :
    (overlay bytes pos data)[k]? =
      if pos ≤ k ∧ k < pos + data.length then data[k - pos]? else bytes[k]? := by
  have hhole : (if data = [] then 0 else pos - bytes.length) = 0 := by
    split
    · rfl
    · exact Nat.sub_eq_zero_of_le hpos
  have htake : (bytes.take pos).length = pos := List.length_take_of_le hpos
  rw [overlay, hhole, List.replicate_zero, List.append_nil, List.append_assoc]
  by_cases hbefore : k < pos
  · rw [List.getElem?_append_left (by omega), List.getElem?_take, if_pos hbefore, if_neg (by omega)]
  · rw [List.getElem?_append_right (by omega), htake]
    by_cases hin : k < pos + data.length
    · rw [List.getElem?_append_left (by omega), if_pos ⟨by omega, hin⟩]
    · rw [List.getElem?_append_right (by omega), List.getElem?_drop, if_neg (by omega)]
      congr 1
      omega

namespace File

def empty : File := ⟨[], Nat.zero_le _⟩

def size (f : File) : ℕ := f.bytes.length

@[ext] theorem ext {f g : File} (h : f.bytes = g.bytes) : f = g := by
  cases f
  cases g
  simpa using h

def put (f : File) (pos : ℕ) (data : Bytes) : Except ℕ ℕ × File :=
  if h : pos + data.length ≤ offMax then
    (.ok data.length, ⟨overlay f.bytes pos data,
      Nat.le_trans (overlay_length_le f.bytes pos data) (Nat.max_le.mpr ⟨f.size_le, h⟩)⟩)
  else (.error EFBIG, f)

/-- `write` at `pos`: the count of bytes written or an error number, and the file. -/
def write (f : File) (pos : ℕ) (data : Bytes) : Outcome → Except ℕ ℕ × File
  | .whole => f.put pos data
  | .error errno => (.error errno, f)
  | .short count => f.put pos (data.take count)

/-- `ftruncate`, which also extends a shorter file with zero bytes. -/
def truncate (f : File) (length : ℕ) : File :=
  if h : length ≤ offMax then
    ⟨f.bytes.take length ++ List.replicate (length - f.bytes.length) 0, by simp; omega⟩
  else f

theorem put_fit {f : File} {pos : ℕ} {data : Bytes} (h : pos + data.length ≤ offMax) :
    (f.put pos data).1 = .ok data.length ∧ (f.put pos data).2.bytes = overlay f.bytes pos data := by
  simp [put, h]

theorem put_no_fit {f : File} {pos : ℕ} {data : Bytes} (h : ¬ pos + data.length ≤ offMax) :
    f.put pos data = (.error EFBIG, f) := by
  simp [put, h]

/-- Cut back to a front part, a file has just that part. -/
theorem truncate_front {f : File} {front rest : Bytes} (h : f.bytes = front ++ rest) :
    (f.truncate front.length).bytes = front := by
  have hle : front.length ≤ f.bytes.length := by
    rw [h, List.length_append]
    omega
  have hfit : front.length ≤ offMax := Nat.le_trans hle f.size_le
  have hnone : front.length - f.bytes.length = 0 := Nat.sub_eq_zero_of_le hle
  simp only [truncate, hfit, dite_true, hnone, List.replicate_zero, List.append_nil]
  rw [h, List.take_left]

/-- The count returned is the count asked for exactly when everything got through. -/
theorem write_ok_iff (f : File) (pos : ℕ) (data : Bytes) (o : Outcome) :
    (f.write pos data o).1 = .ok data.length ↔
      o.Full data.length ∧ pos + data.length ≤ offMax := by
  cases o with
  | whole =>
    by_cases h : pos + data.length ≤ offMax
    · simp [write, put_fit h, h]
    · simp [write, put_no_fit h, h]
  | error errno => simp [write, Outcome.Full]
  | short count =>
    have hfull : (Outcome.short count).Full data.length ↔ data.length ≤ count := by
      simp [Outcome.Full]
    rw [hfull]
    by_cases hle : data.length ≤ count
    · have htake : data.take count = data := List.take_of_length_le hle
      by_cases h : pos + data.length ≤ offMax
      · simp [write, htake, put_fit h, h, hle]
      · simp [write, htake, put_no_fit h, h]
    · by_cases h : pos + (data.take count).length ≤ offMax
      · have hlen : (data.take count).length = count := by simp; omega
        simp only [write, (put_fit h).1, hlen, Except.ok.injEq]
        omega
      · simp [write, put_no_fit h, hle]

/-- A write that let everything through has put the data in place. -/
theorem write_ok_bytes {f : File} {pos : ℕ} {data : Bytes} {o : Outcome}
    (h : (f.write pos data o).1 = .ok data.length) :
    (f.write pos data o).2.bytes = overlay f.bytes pos data := by
  obtain ⟨ho, hfit⟩ := (write_ok_iff f pos data o).mp h
  rcases ho with rfl | ⟨count, rfl, hle⟩
  · exact (put_fit hfit).2
  · have htake : data.take count = data := List.take_of_length_le hle
    simpa only [write, htake] using (put_fit hfit).2

/-- Whatever its outcome, a write leaves the file as it was or with the bytes
that got through, and no others, in place. -/
theorem write_bytes (f : File) (pos : ℕ) (data : Bytes) (o : Outcome) :
    (f.write pos data o).2 = f ∨
      (f.write pos data o).2.bytes = overlay f.bytes pos (data.take (o.reach data.length)) := by
  cases o with
  | error errno => exact Or.inl rfl
  | whole =>
    by_cases h : pos + data.length ≤ offMax
    · exact Or.inr (by simpa [write, Outcome.reach] using (put_fit h).2)
    · exact Or.inl (by simp [write, put_no_fit h])
  | short count =>
    have htake : data.take (min count data.length) = data.take count := by
      rw [← List.take_take, List.take_length]
    by_cases h : pos + (data.take count).length ≤ offMax
    · exact Or.inr (by simpa [write, Outcome.reach, htake] using (put_fit h).2)
    · exact Or.inl (by simp [write, put_no_fit h])

/-- A write that fails has left the file as it was. -/
theorem write_error {f : File} {pos : ℕ} {data : Bytes} {o : Outcome} {errno : ℕ}
    (h : (f.write pos data o).1 = .error errno) : (f.write pos data o).2 = f := by
  have hput : ∀ more : Bytes, (f.put pos more).1 = .error errno → (f.put pos more).2 = f := by
    intro more hmore
    by_cases hfit : pos + more.length ≤ offMax
    · rw [(put_fit hfit).1] at hmore
      exact absurd hmore (by simp)
    · rw [put_no_fit hfit]
  cases o with
  | whole => exact hput data h
  | error _ => rfl
  | short count => exact hput (data.take count) h

/-- A write that has returned a count has put that many bytes in place. -/
theorem write_count {f : File} {pos : ℕ} {data : Bytes} {o : Outcome} {count : ℕ}
    (h : (f.write pos data o).1 = .ok count) :
    count ≤ data.length ∧ (f.write pos data o).2.bytes = overlay f.bytes pos (data.take count) := by
  have hput : ∀ more : Bytes, (f.put pos more).1 = .ok count →
      count = more.length ∧ (f.put pos more).2.bytes = overlay f.bytes pos more := by
    intro more hmore
    by_cases hfit : pos + more.length ≤ offMax
    · rw [(put_fit hfit).1] at hmore
      exact ⟨(Except.ok.inj hmore).symm, (put_fit hfit).2⟩
    · rw [put_no_fit hfit] at hmore
      exact absurd hmore (by simp)
  cases o with
  | whole =>
    obtain ⟨rfl, hbytes⟩ := hput data h
    rw [List.take_length]
    exact ⟨Nat.le_refl _, hbytes⟩
  | error _ => exact absurd h (by simp [write])
  | short room =>
    obtain ⟨rfl, hbytes⟩ := hput (data.take room) h
    rw [List.length_take, ← List.take_take, List.take_length]
    exact ⟨Nat.min_le_right _ _, hbytes⟩

/-- A write at the start puts what gets through over the front. -/
theorem write_front (f : File) {data : Bytes} (hfit : data.length ≤ offMax) (o : Outcome) :
    (f.write 0 data o).2.bytes =
      data.take (o.reach data.length) ++ f.bytes.drop (o.reach data.length) := by
  have hput : ∀ more : Bytes, more.length ≤ offMax →
      (f.put 0 more).2.bytes = more ++ f.bytes.drop more.length := by
    intro more hmore
    rw [(put_fit (by rwa [Nat.zero_add])).2]
    simp [overlay]
  cases o with
  | whole =>
    rw [Outcome.reach, List.take_length]
    exact hput data hfit
  | error _ => rfl
  | short count =>
    have hshort : (data.take count).length = min count data.length := List.length_take
    have htake : data.take (min count data.length) = data.take count := by
      rw [← List.take_take, List.take_length]
    rw [Outcome.reach, htake, ← hshort]
    exact hput (data.take count) (by omega)

/-- What a write has put at the end of a file can be cut off again. -/
theorem truncate_write_end (f : File) (data : Bytes) (o : Outcome) :
    (f.write f.size data o).2.truncate f.size = f := by
  have hgrown : ∃ more, (f.write f.size data o).2.bytes = f.bytes ++ more := by
    rcases write_bytes f f.size data o with hsame | hbytes
    · exact ⟨[], by rw [hsame, List.append_nil]⟩
    · rw [size, overlay_end] at hbytes
      exact ⟨_, hbytes⟩
  obtain ⟨more, hmore⟩ := hgrown
  exact ext (truncate_front hmore)

/-- No write makes a file shorter. -/
theorem size_le_write (f : File) (pos : ℕ) (data : Bytes) (o : Outcome) :
    f.size ≤ (f.write pos data o).2.size := by
  rcases write_bytes f pos data o with hsame | hbytes
  · rw [hsame]
  · rw [size, size, hbytes]
    exact length_le_overlay _ _ _

end File

end SeaStore.Posix
