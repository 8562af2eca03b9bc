import SeaStore.Block.Batch
import SeaStore.Block.IndexRun

/-!
The two queries of an index that return many offsets. The query by count takes
the sum of its arguments in 32 bits, so that it clips its window only while the
sum stays below. The query by time stops at the first entry that is not before
`stop`, but neither skips the entries before `start` nor counts to its limit.
-/
namespace SeaStore.Block

open Posix

variable {t : FileTree SeaPath} {dir : String} {id : UInt64} {g : File}
  {hdr : SeaBlockIndexHeader} {entries : List SeaBlockIndexEntry} {s : IndexSession}
  {index : SeaBlockIndex} {ops : List IndexOp} {now maxCount : UInt64}

theorem Logged.handle (h : Logged dir id entries s) (hopen : s.index = some index) :
    ∃ g, s.tree index.fd.path = some g ∧
      g.bytes = index.header.bytes ++ entries.flatMap SeaBlockIndexEntry.bytes ∧
      index.header.count = UInt32.ofNat entries.length := by
  obtain ⟨g, hdr, hg, hbytes, hcount, hhandle⟩ := h
  obtain ⟨hpath, rfl⟩ := hhandle index hopen
  exact ⟨g, by rw [hpath]; exact hg, hbytes, hcount⟩

section ByCount

/-- The query returns the offsets of the records from `first` on, up to the last
one or the one before `first + count`, with their number. -/
def CountRight (t : FileTree SeaPath) (index : SeaBlockIndex) (entries : List SeaBlockIndexEntry)
    (first count : UInt32) : Prop :=
  ∃ offset real index', (seaBlockIndexQueryByCount index first count).run serve t =
      some ((some offset, some real, index'), t) ∧
    offset.offset = ((entries.take (min entries.length (first.toNat + count.toNat))).drop
      first.toNat).map SeaBlockIndexEntry.offset ∧
    real.toNat = min count.toNat (entries.length - first.toNat)

/-- With at most 1280 entries a query by count clips its window exactly when the
end of the window can be told in 32 bits. -/
theorem Logged.countRight_iff (h : Logged dir id entries s) (hopen : s.index = some index)
    (hcap : entries.length ≤ 1280) {first : UInt32} (hfirst : first.toNat < entries.length)
    (count : UInt32) :
    CountRight s.tree index entries first count ↔ first.toNat + count.toNat < 2 ^ 32 := by
  obtain ⟨g, hg, hbytes, hcount⟩ := h.handle hopen
  have hnat : index.header.count.toNat = entries.length := by
    rw [hcount, UInt32.toNat_ofNat', Nat.mod_eq_of_lt (by omega)]
  have hcounted : first < index.header.count := by
    rw [UInt32.lt_iff_toNat_lt, hnat]
    exact hfirst
  have hfew : ((entries.drop first.toNat).take
      (readCountOf index.header.count first count).toNat).length ≤ incrementSize := by
    rw [List.length_take, List.length_drop, incrementSize]
    omega
  obtain ⟨fd, -, hquery⟩ := run_indexQueryByCount hg hbytes hcounted hfirst hfew
  by_cases hsum : first.toNat + count.toNat < 2 ^ 32
  · refine iff_of_true ?_ hsum
    have hread := readCountOf_toNat (n := index.header.count) (by rw [hnat]; exact hfirst) hsum
    rw [hnat] at hread
    rw [if_pos (by omega)] at hquery
    refine ⟨_, _, _, hquery, ?_, hread⟩
    have hwindow : min entries.length (first.toNat + count.toNat) - first.toNat =
        min count.toNat (entries.length - first.toNat) := by omega
    rw [hread, List.drop_take, hwindow]
  · refine iff_of_false ?_ hsum
    have hread := readCountOf_wrapped (n := index.header.count) (by rw [hnat]; exact hfirst)
      (Nat.not_lt.mp hsum)
    rw [if_neg (by rw [hread]; omega)] at hquery
    rintro ⟨offset, real, index', hright, -⟩
    rw [hquery] at hright
    exact absurd hright (by simp)

/-- So it does on every index of at most 1280 entries. -/
theorem indexRun_countRight_iff (habs : t (.index dir id) = none)
    (hrun : indexRun dir id t now maxCount ops = some s) (hopen : s.index = some index)
    (hcap : (entriesOf ops).length ≤ 1280) {first : UInt32}
    (hfirst : first.toNat < (entriesOf ops).length) (count : UInt32) :
    CountRight s.tree index (entriesOf ops) first count ↔
      first.toNat + count.toNat < 2 ^ 32 :=
  (indexRun_logged habs hrun (by omega)).countRight_iff hopen hcap hfirst count

/-- One record asked for everything from it on: a list of none and no count. -/
theorem indexRun_countRight_wraps :
    ∃ s index, indexRun "" 0 (fun _ => none) 0 0
        [.openIndex, .append 0 100, .append 0 200] = some s ∧ s.index = some index ∧
      ¬ CountRight s.tree index [⟨0, 100⟩, ⟨0, 200⟩] 1 0xffffffff := by
  obtain ⟨index, hindex⟩ := Option.isSome_iff_exists.mp (show ((indexRun "" 0 (fun _ => none) 0 0
    [.openIndex, .append 0 100, .append 0 200]).bind IndexSession.index).isSome by decide +kernel)
  obtain ⟨s, hrun, hopen⟩ := Option.bind_eq_some_iff.mp hindex
  have hfirst : (1 : UInt32).toNat <
      (entriesOf [.openIndex, .append 0 100, .append 0 200]).length := by decide
  have hlogged := indexRun_logged rfl hrun (by decide)
  have hiff := hlogged.countRight_iff hopen (by decide) hfirst 0xffffffff
  refine ⟨s, index, hrun, hopen, ?_⟩
  intro hright
  exact absurd (hiff.mp hright) (by decide)

/-- Asked for five of its two records, it gives both. -/
theorem indexRun_countRight_clips :
    ∃ s index, indexRun "" 0 (fun _ => none) 0 0
        [.openIndex, .append 0 100, .append 0 200] = some s ∧ s.index = some index ∧
      CountRight s.tree index [⟨0, 100⟩, ⟨0, 200⟩] 0 5 := by
  obtain ⟨index, hindex⟩ := Option.isSome_iff_exists.mp (show ((indexRun "" 0 (fun _ => none) 0 0
    [.openIndex, .append 0 100, .append 0 200]).bind IndexSession.index).isSome by decide +kernel)
  obtain ⟨s, hrun, hopen⟩ := Option.bind_eq_some_iff.mp hindex
  have hfirst : (0 : UInt32).toNat <
      (entriesOf [.openIndex, .append 0 100, .append 0 200]).length := by decide
  exact ⟨s, index, hrun, hopen,
    (indexRun_countRight_iff rfl hrun hopen (by decide) hfirst 5).mpr (by decide)⟩

end ByCount

section ByTime

def timeWindow (entries : List SeaBlockIndexEntry) (start stop : UInt64) (first count : ℕ) :
    List SeaBlockIndexEntry :=
  ((entries.drop first).filter fun e => start ≤ e.timestamp ∧ e.timestamp < stop).take count

/-- The query returns the offsets of the window, and the caller's count is their
number afterwards; there may be no list only where there is no record `first`. -/
def TimeRight (t : FileTree SeaPath) (index : SeaBlockIndex) (entries : List SeaBlockIndexEntry)
    (start stop : UInt64) (first count realCount : UInt32) : Prop :=
  ∃ found real index', (seaBlockIndexQueryByTime index start stop first count realCount).run
      serve t = some ((found, real, index'), t) ∧
    real.toNat = (timeWindow entries start stop first.toNat count.toNat).length ∧
    match found with
    | some offset => offset.offset =
        (timeWindow entries start stop first.toNat count.toNat).map SeaBlockIndexEntry.offset
    | none => entries.length ≤ first.toNat

theorem run_queryByTimeLoop {path : SeaPath} (hg : t path = some g)
    (hbytes : g.bytes = hdr.bytes ++ entries.flatMap SeaBlockIndexEntry.bytes) (stop : UInt64)
    {i rounds : ℕ} (hrounds : i + rounds = entries.length) (offset : SeaBlockOffset)
    (hsize : offset.size = seaBlockOffsetMalloc.size)
    (halloc : offset.allocated = seaBlockOffsetMalloc.allocated)
    (hfit : offset.offset.length + rounds ≤ incrementSize) (realCount : UInt32) :
    ∃ fd, (seaBlockIndexQueryByTimeLoop stop rounds
        ⟨path, indexHeaderSize + indexEntrySize * i⟩ offset realCount).run serve t =
      some (({ offset with offset := offset.offset ++ ((entries.drop i).takeWhile
          (fun e => e.timestamp < stop)).map SeaBlockIndexEntry.offset },
        realCount + UInt32.ofNat ((entries.drop i).takeWhile
          (fun e => e.timestamp < stop)).length, fd), t) := by
  induction rounds generalizing i offset realCount with
  | zero =>
    rw [List.drop_eq_nil_of_le (show entries.length ≤ i by omega)]
    exact ⟨⟨path, indexHeaderSize + indexEntrySize * i⟩, by simp [seaBlockIndexQueryByTimeLoop]⟩
  | succ rounds ih =>
    have hi : i < entries.length := by omega
    have hentry := slice_indexEntry hbytes (List.getElem?_eq_getElem hi)
    have hnext : indexHeaderSize + indexEntrySize * i + indexEntrySize =
        indexHeaderSize + indexEntrySize * (i + 1) := by
      rw [Nat.mul_succ, Nat.add_assoc]
    rw [seaBlockIndexQueryByTimeLoop]
    rw [Program.run_bind_of_run serve (run_read
      ⟨path, indexHeaderSize + indexEntrySize * i⟩ indexEntrySize hg)]
    simp only [hentry, SeaBlockIndexEntry.bytes_length, ne_eq, not_true_eq_false, if_false,
      SeaBlockIndexEntry.ofBytes_bytes]
    rw [List.drop_eq_getElem_cons hi, List.takeWhile_cons]
    by_cases hbefore : entries[i].timestamp < stop
    · rw [if_pos hbefore, if_pos (decide_eq_true hbefore),
        offsetAppend_fit _ hsize halloc (by omega), hnext]
      rw [Program.run_bind_of_run serve (Program.run_ofOption_some serve _ t)]
      obtain ⟨fd, hrun⟩ := ih (i := i + 1) (by omega)
        { offset with offset := offset.offset ++ [entries[i].offset] } hsize halloc (by
          rw [List.length_append, List.length_singleton]
          omega) (realCount + 1)
      refine ⟨fd, ?_⟩
      rw [hrun, List.length_cons, UInt32.ofNat_add, UInt32.add_comm (UInt32.ofNat _),
        UInt32.add_assoc, List.map_cons, List.append_assoc]
      rfl
    · rw [if_neg hbefore, if_neg (by simpa using hbefore)]
      exact ⟨⟨path, indexHeaderSize + indexEntrySize * i + indexEntrySize⟩, by simp⟩

/-- Under a clock that never goes backwards these are all the entries before `stop`. -/
theorem takeWhile_before (hclock : entries.Pairwise fun e e' => e.timestamp ≤ e'.timestamp)
    (stop : UInt64) :
    entries.takeWhile (fun e => e.timestamp < stop) =
      entries.filter (fun e => e.timestamp < stop) := by
  induction entries with
  | nil => rfl
  | cons e rest ih =>
    obtain ⟨hfirst, hrest⟩ := List.pairwise_cons.mp hclock
    rw [List.takeWhile_cons, List.filter_cons, ih hrest]
    by_cases hbefore : e.timestamp < stop
    · rw [if_pos (decide_eq_true hbefore), if_pos (decide_eq_true hbefore)]
    · rw [if_neg (by simpa using hbefore), if_neg (by simpa using hbefore)]
      symm
      rw [List.filter_eq_nil_iff]
      intro e' he'
      have hle := hfirst e' he'
      simp only [UInt64.le_iff_toNat_le, UInt64.lt_iff_toNat_lt, decide_eq_true_eq] at hle hbefore ⊢
      omega

/-- What a filter and a limit leave of a list is all of it when neither takes anything away. -/
theorem take_filter_length_iff {α : Type} (q : α → Bool) (l : List α) (count : ℕ) :
    l.length = ((l.filter q).take count).length ↔ (∀ a ∈ l, q a = true) ∧ l.length ≤ count := by
  have hle := List.length_filter_le q l
  rw [← List.length_filter_eq_length_iff, List.length_take]
  omega

theorem timeWindow_eq (entries : List SeaBlockIndexEntry) (start stop : UInt64)
    (first count : ℕ) :
    timeWindow entries start stop first count =
      ((((entries.drop first).filter fun e => e.timestamp < stop).filter
        fun e => start ≤ e.timestamp).take count) := by
  rw [timeWindow, List.filter_filter]
  simp only [Bool.decide_and]

/-- What the query returns under a clock that never goes backwards: the entries
from `first` on that are before `stop`, whatever `start` and `count` are. -/
theorem run_indexQueryByTime (hg : t index.fd.path = some g)
    (hbytes : g.bytes = hdr.bytes ++ entries.flatMap SeaBlockIndexEntry.bytes)
    (hcount : index.header.count.toNat = entries.length)
    (hclock : entries.Pairwise fun e e' => e.timestamp ≤ e'.timestamp)
    (hcap : entries.length ≤ incrementSize) (start stop : UInt64)
    (first count realCount : UInt32) :
    ∃ found index', (seaBlockIndexQueryByTime index start stop first count realCount).run
        serve t = some ((found, realCount + UInt32.ofNat ((entries.drop first.toNat).filter
          fun e => e.timestamp < stop).length, index'), t) ∧
      match found with
      | some offset => offset.offset = ((entries.drop first.toNat).filter
          fun e => e.timestamp < stop).map SeaBlockIndexEntry.offset
      | none => entries.length ≤ first.toNat := by
  unfold seaBlockIndexQueryByTime
  by_cases hpast : index.header.count ≤ first
  · rw [if_pos hpast]
    rw [UInt32.le_iff_toNat_le, hcount] at hpast
    refine ⟨none, index, ?_, hpast⟩
    rw [List.drop_eq_nil_of_le hpast]
    simp
  · rw [if_neg hpast, seek_entry]
    rw [UInt32.le_iff_toNat_le] at hpast
    have hrounds : (index.header.count - first).toNat = entries.length - first.toNat := by
      rw [UInt32.toNat_sub_of_le, hcount]
      rw [UInt32.le_iff_toNat_le]
      omega
    have hsorted := hclock.sublist (List.drop_sublist first.toNat entries)
    have hleft : first.toNat + (index.header.count - first).toNat = entries.length := by omega
    obtain ⟨fd, hrun⟩ := run_queryByTimeLoop hg hbytes stop hleft seaBlockOffsetMalloc rfl rfl
      (by rw [hrounds, seaBlockOffsetMalloc, List.length_nil]; omega) realCount
    rw [takeWhile_before hsorted] at hrun
    rw [Program.run_bind_of_run serve hrun]
    exact ⟨_, _, rfl, rfl⟩

/-- With at most 1280 entries a query by time is right exactly when the caller's
count was zero, no entry from `first` on is before `start`, and those before
`stop` are no more than `count`. -/
theorem Logged.timeRight_iff (h : Logged dir id entries s) (hopen : s.index = some index)
    (hclock : entries.Pairwise fun e e' => e.timestamp ≤ e'.timestamp)
    (hcap : entries.length ≤ 1280) (start stop : UInt64) (first count realCount : UInt32) :
    TimeRight s.tree index entries start stop first count realCount ↔
      realCount = 0 ∧
      (∀ e ∈ entries.drop first.toNat, e.timestamp < stop → start ≤ e.timestamp) ∧
      ((entries.drop first.toNat).filter fun e => e.timestamp < stop).length ≤ count.toNat := by
  obtain ⟨g, hg, hbytes, hcount⟩ := h.handle hopen
  have hnat : index.header.count.toNat = entries.length := by
    rw [hcount, UInt32.toNat_ofNat', Nat.mod_eq_of_lt (by omega)]
  obtain ⟨found, index', hquery, hfound⟩ :=
    run_indexQueryByTime hg hbytes hnat hclock hcap start stop first count realCount
  have hall : (∀ e ∈ entries.drop first.toNat, e.timestamp < stop → start ≤ e.timestamp) ↔
      ∀ e ∈ (entries.drop first.toNat).filter fun e => e.timestamp < stop,
        decide (start ≤ e.timestamp) = true := by
    simp only [List.mem_filter, decide_eq_true_eq, and_imp]
  have hlen : ((entries.drop first.toNat).filter fun e => e.timestamp < stop).length ≤ 1280 := by
    have hfilter := List.length_filter_le (fun e => e.timestamp < stop) (entries.drop first.toNat)
    rw [List.length_drop] at hfilter
    omega
  have hreal : realCount = 0 ↔ (realCount + UInt32.ofNat ((entries.drop first.toNat).filter
      fun e => e.timestamp < stop).length).toNat =
        ((entries.drop first.toNat).filter fun e => e.timestamp < stop).length := by
    have hlt := realCount.toNat_lt
    rw [UInt32.toNat_add, UInt32.toNat_ofNat', ← UInt32.toNat_inj, UInt32.toNat_zero]
    omega
  have hpast : entries.length ≤ first.toNat →
      (entries.drop first.toNat).filter (fun e => e.timestamp < stop) = [] := by
    intro hle
    rw [List.drop_eq_nil_of_le hle, List.filter_nil]
  rw [hall, hreal]
  unfold TimeRight
  rw [timeWindow_eq]
  generalize (entries.drop first.toNat).filter (fun e => e.timestamp < stop) = before at *
  rw [← take_filter_length_iff]
  constructor
  · rintro ⟨found', real', index'', hquery', hreal', hfound'⟩
    rw [hquery] at hquery'
    obtain ⟨hpair, -⟩ := Prod.mk.inj (Option.some.inj hquery')
    obtain ⟨rfl, hrest⟩ := Prod.mk.inj hpair
    rw [← (Prod.mk.inj hrest).1] at hreal'
    have hlength : before.length = ((before.filter
        fun e => start ≤ e.timestamp).take count.toNat).length := by
      cases found with
      | none => simp [hpast hfound']
      | some offset => simpa using congrArg List.length (hfound.symm.trans hfound')
    exact ⟨hreal'.trans hlength.symm, hlength⟩
  · rintro ⟨hreal', hlength⟩
    refine ⟨found, _, index', hquery, hreal'.trans hlength, ?_⟩
    obtain ⟨hkeep, hfew⟩ := (take_filter_length_iff _ _ _).mp hlength
    rw [List.filter_eq_self.mpr hkeep, List.take_of_length_le hfew]
    exact hfound

/-- So it is on every index of at most 1280 entries. -/
theorem indexRun_timeRight_iff (habs : t (.index dir id) = none)
    (hrun : indexRun dir id t now maxCount ops = some s) (hopen : s.index = some index)
    (hclock : (entriesOf ops).Pairwise fun e e' => e.timestamp ≤ e'.timestamp)
    (hcap : (entriesOf ops).length ≤ 1280) (start stop : UInt64) (first count realCount : UInt32) :
    TimeRight s.tree index (entriesOf ops) start stop first count realCount ↔
      realCount = 0 ∧
      (∀ e ∈ (entriesOf ops).drop first.toNat, e.timestamp < stop → start ≤ e.timestamp) ∧
      (((entriesOf ops).drop first.toNat).filter fun e => e.timestamp < stop).length ≤
        count.toNat :=
  (indexRun_logged habs hrun (by omega)).timeRight_iff hopen hclock hcap start stop first count
    realCount

/-- Of the entries of the times 5 and 10 the window from 7 to 20 gets both. -/
theorem indexRun_timeRight_early :
    ∃ s index, indexRun "" 0 (fun _ => none) 0 0
        [.openIndex, .append 5 100, .append 10 200] = some s ∧ s.index = some index ∧
      ¬ TimeRight s.tree index [⟨5, 100⟩, ⟨10, 200⟩] 7 20 0 8 0 := by
  obtain ⟨index, hindex⟩ := Option.isSome_iff_exists.mp (show ((indexRun "" 0 (fun _ => none) 0 0
    [.openIndex, .append 5 100, .append 10 200]).bind IndexSession.index).isSome by decide +kernel)
  obtain ⟨s, hrun, hopen⟩ := Option.bind_eq_some_iff.mp hindex
  have hlogged := indexRun_logged rfl hrun (by decide)
  have hiff := hlogged.timeRight_iff hopen (by decide) (by decide) 7 20 0 8 0
  refine ⟨s, index, hrun, hopen, ?_⟩
  intro hright
  exact absurd (hiff.mp hright) (by decide)

/-- The window from 0 to 10 gets the first one. -/
theorem indexRun_timeRight_front :
    ∃ s index, indexRun "" 0 (fun _ => none) 0 0
        [.openIndex, .append 5 100, .append 10 200] = some s ∧ s.index = some index ∧
      TimeRight s.tree index [⟨5, 100⟩, ⟨10, 200⟩] 0 10 0 1 0 := by
  obtain ⟨index, hindex⟩ := Option.isSome_iff_exists.mp (show ((indexRun "" 0 (fun _ => none) 0 0
    [.openIndex, .append 5 100, .append 10 200]).bind IndexSession.index).isSome by decide +kernel)
  obtain ⟨s, hrun, hopen⟩ := Option.bind_eq_some_iff.mp hindex
  exact ⟨s, index, hrun, hopen, (indexRun_timeRight_iff rfl hrun hopen (by decide) (by decide)
    0 10 0 1 0).mpr (by decide)⟩

end ByTime

end SeaStore.Block
