import SeaStore.Block.ReadBack

/-!
The data file as appends leave it: the frames lie end to end, and the entries
of the index hold their offsets. A frame of the same length can take the place
of another without moving any.
-/
namespace SeaStore.Block

open Posix

/-- The data file that appends leave when all of them complete. -/
def dataBytes (filled : List (Ambient × Payload)) : Bytes :=
  filled.flatMap fun op => op.2.frame op.1

/-- The records with the offsets of their frames, the first frame being at `offset`. -/
def located : ℕ → List (Ambient × Payload) → List (ℕ × Payload)
  | _, [] => []
  | offset, op :: filled =>
    (offset, op.2) :: located (offset + (op.2.frame op.1).length) filled

variable {t : FileTree SeaPath} {dir : String} {id : UInt64} {hdr : SeaBlockIndexHeader}
  {f g : File} {entries : List SeaBlockIndexEntry} {filled : List (Ambient × Payload)}
  {old : Ambient × Payload} {i : ℕ}

theorem dataBytes_append (xs ys : List (Ambient × Payload)) :
    dataBytes (xs ++ ys) = dataBytes xs ++ dataBytes ys := by
  simp [dataBytes]

theorem dataBytes_cons (op : Ambient × Payload) (xs : List (Ambient × Payload)) :
    dataBytes (op :: xs) = op.2.frame op.1 ++ dataBytes xs := rfl

theorem located_append (offset : ℕ) (xs ys : List (Ambient × Payload)) :
    located offset (xs ++ ys) =
      located offset xs ++ located (offset + (dataBytes xs).length) ys := by
  induction xs generalizing offset with
  | nil => rfl
  | cons op rest ih =>
    simp only [List.cons_append, located, ih, dataBytes_cons, List.length_append, Nat.add_assoc]

theorem located_snd (offset : ℕ) (filled : List (Ambient × Payload)) :
    (located offset filled).map Prod.snd = filled.map Prod.snd := by
  induction filled generalizing offset with
  | nil => rfl
  | cons first rest ih => simp only [located, List.map_cons, ih]

theorem located_length (offset : ℕ) (filled : List (Ambient × Payload)) :
    (located offset filled).length = filled.length := by
  have h := congrArg List.length (located_snd offset filled)
  simpa using h

theorem located_frameAt (before : Bytes) (filled : List (Ambient × Payload)) :
    ∀ r ∈ located before.length filled, FrameAt (before ++ dataBytes filled) r.1 r.2 := by
  induction filled generalizing before with
  | nil =>
    intro r hr
    exact absurd hr List.not_mem_nil
  | cons op rest ih =>
    intro r hr
    have hdata : before ++ dataBytes (op :: rest) =
        (before ++ op.2.frame op.1) ++ dataBytes rest := by
      simp [dataBytes]
    rw [hdata]
    rcases List.mem_cons.mp hr with rfl | hrest
    · exact (FrameAt.at_end before op.1 op.2).mono (List.prefix_append _ _)
    · rw [← List.length_append] at hrest
      exact ih (before ++ op.2.frame op.1) r hrest

theorem frameAt_of_located {filled : List (Ambient × Payload)} {r : ℕ × Payload}
    (hr : r ∈ located 0 filled) : FrameAt (dataBytes filled) r.1 r.2 := by
  have hframe := located_frameAt [] filled r hr
  rwa [List.nil_append] at hframe

/-- The files hold the frames of `filled` end to end, and their offsets. -/
def LaidOut (t : FileTree SeaPath) (dir : String) (id : UInt64) (hdr : SeaBlockIndexHeader)
    (filled : List (Ambient × Payload)) : Prop :=
  ∃ f g entries, t (.data dir id) = some f ∧ t (.index dir id) = some g ∧
    Stored f g hdr entries (filled.map Prod.snd) ∧ f.bytes = dataBytes filled ∧
    entries.map (fun e => e.offset.toNat) = (located 0 filled).map Prod.fst

theorem LaidOut.image (h : LaidOut t dir id hdr filled) :
    Image t dir id hdr (filled.map Prod.snd) := by
  obtain ⟨f, g, entries, hf, hg, hst, -, -⟩ := h
  exact ⟨f, g, entries, hf, hg, hst⟩

/-- An append lays its frame behind the others. -/
theorem LaidOut.appended {t' : FileTree SeaPath} {a : Ambient} {p : Payload}
    {mem : SeaBlockIndexHeader} {result : AppendResult} {block' : SeaBlock}
    (h : LaidOut t dir id hdr filled)
    (happ : Appended t t' dir id mem (filled.map Prod.snd) a p result block') :
    LaidOut t' dir id (mem.bump a.now) (filled ++ [(a, p)]) := by
  obtain ⟨f, g, entries, hf, hg, hst, hdata, hoffsets⟩ := h
  obtain ⟨f', g', hf', hg', hbytes, hst'⟩ := happ.stored f g _ entries hf hg hst
  have hmax := f.size_le
  have hnew : (newEntry f a).offset.toNat = (dataBytes filled).length := by
    simp only [offMax] at hmax
    simp only [newEntry, File.size, UInt64.toNat_ofNat', ← hdata]
    omega
  refine ⟨f', g', entries ++ [newEntry f a], hf', hg', ?_, ?_, ?_⟩
  · rw [List.map_append, List.map_singleton]
    exact hst'
  · rw [hbytes, hdata]
    simp [dataBytes]
  · rw [List.map_append, List.map_singleton, hoffsets, located_append, List.map_append, hnew,
      Nat.zero_add]
    rfl

theorem newWriter_laidOut {now maxSize maxCount : UInt64} {w : Writer} (habs : Absent t dir id)
    (hnew : newWriter dir id t now maxSize maxCount = some w) :
    LaidOut w.tree dir id w.block.index.header [] := by
  obtain ⟨hheld, -⟩ := newWriter_held habs hnew
  obtain ⟨f, g, entries, hf, hg, hst⟩ := hheld.2
  obtain rfl := Option.some.inj (hf.symm.trans (newWriter_data habs hnew))
  obtain rfl := List.length_eq_zero_iff.mp hst.length_eq
  exact ⟨.empty, g, [], hf, hg, hst, rfl, rfl⟩

/-- Appends on a new block lay the frames out end to end. -/
theorem fill_laidOut {now maxSize maxCount : UInt64} {w w' : Writer} (habs : Absent t dir id)
    (hnew : newWriter dir id t now maxSize maxCount = some w)
    (hfill : runSteps appendStep w filled = some w') :
    LaidOut w'.tree dir id w'.block.index.header filled ∧
      w'.block.index.header.count = UInt32.ofNat filled.length := by
  obtain ⟨hheld, hzero, -⟩ := newWriter_held habs hnew
  obtain ⟨-, hcount, -⟩ := appendRun_held hheld hfill
  rw [hzero, UInt32.zero_add] at hcount
  have hend : w'.block.On dir id ∧ LaidOut w'.tree dir id w'.block.index.header filled := by
    refine runSteps_invariant (fun past s =>
      s.block.On dir id ∧ LaidOut s.tree dir id s.block.index.header past) ?_
      ⟨hheld.1, newWriter_laidOut habs hnew⟩ hfill
    rintro past op s s' ⟨hon, hs⟩ hstep
    obtain ⟨-, result, happ⟩ := appendStep_appended hon hs.image hstep
    refine ⟨happ.on, ?_⟩
    rw [happ.header]
    exact hs.appended happ
  exact ⟨hend.2, hcount⟩

/-- Frames one after the other, and entries with their offsets, store the records. -/
theorem stored_of_located (hindex : g.bytes = hdr.bytes ++ entries.flatMap SeaBlockIndexEntry.bytes)
    (hdata : f.bytes = dataBytes filled)
    (hoffsets : entries.map (fun e => e.offset.toNat) = (located 0 filled).map Prod.fst) :
    Stored f g hdr entries (filled.map Prod.snd) := by
  refine ⟨hindex, ?_⟩
  have hlen : entries.length = (located 0 filled).length := by
    simpa using congrArg List.length hoffsets
  rw [← located_snd 0 filled, List.forall₂_map_right_iff, List.forall₂_iff_get]
  refine ⟨hlen, ?_⟩
  intro i hi hi'
  have hoffset : entries[i].offset.toNat = (located 0 filled)[i].1 := by
    have hget := congrArg (fun l => l[i]?) hoffsets
    simpa [hi, hi'] using hget
  have hframe := frameAt_of_located (List.getElem_mem hi')
  rwa [← hdata, ← hoffset] at hframe

theorem split_at (hold : filled[i]? = some old) :
    filled = filled.take i ++ old :: filled.drop (i + 1) := by
  obtain ⟨hi, rfl⟩ := List.getElem?_eq_some_iff.mp hold
  rw [List.getElem_cons_drop, List.take_append_drop]

theorem located_getElem? (hold : filled[i]? = some old) :
    (located 0 filled)[i]? = some ((dataBytes (filled.take i)).length, old.2) := by
  obtain ⟨hi, -⟩ := List.getElem?_eq_some_iff.mp hold
  have hlen : (located 0 (filled.take i)).length = i := by
    rw [located_length, List.length_take, Nat.min_eq_left (Nat.le_of_lt hi)]
  conv_lhs => rw [split_at hold, located_append, located, Nat.zero_add]
  rw [List.getElem?_append_right (Nat.le_of_eq hlen), hlen, Nat.sub_self, List.getElem?_cons_zero]

theorem entry_of_located
    (hoffsets : entries.map (fun e => e.offset.toNat) = (located 0 filled).map Prod.fst)
    (hold : filled[i]? = some old) :
    ∃ e, entries[i]? = some e ∧ e.offset.toNat = (dataBytes (filled.take i)).length := by
  have hget := congrArg (fun l => l[i]?) hoffsets
  simp only [List.getElem?_map, located_getElem? hold, Option.map_some] at hget
  exact Option.map_eq_some_iff.mp hget

/-- A frame of the same length in the place of another moves nothing. -/
theorem located_set (hold : filled[i]? = some old) {new : Ambient × Payload}
    (hlen : new.2.bytes.length = old.2.bytes.length) :
    (located 0 (filled.set i new)).map Prod.fst = (located 0 filled).map Prod.fst := by
  obtain ⟨hi, -⟩ := List.getElem?_eq_some_iff.mp hold
  have hframe : (new.2.frame new.1).length = (old.2.frame old.1).length := by
    rw [Payload.frame_length, Payload.frame_length, hlen]
  rw [List.set_eq_take_append_cons_drop, if_pos hi]
  conv_rhs => rw [split_at hold]
  simp only [located_append, located, hframe, List.map_append, List.map_cons]

/-- Written over the frame of a record, a frame of the same length replaces it. -/
theorem overlay_dataBytes (hold : filled[i]? = some old) {new : Ambient × Payload}
    (hlen : new.2.bytes.length = old.2.bytes.length) :
    overlay (dataBytes filled) (dataBytes (filled.take i)).length (new.2.frame new.1) =
      dataBytes (filled.set i new) := by
  obtain ⟨hi, -⟩ := List.getElem?_eq_some_iff.mp hold
  have hframe : (new.2.frame new.1).length = (old.2.frame old.1).length := by
    rw [Payload.frame_length, Payload.frame_length, hlen]
  have hdata : dataBytes filled = dataBytes (filled.take i) ++ old.2.frame old.1 ++
      dataBytes (filled.drop (i + 1)) := by
    conv_lhs => rw [split_at hold]
    rw [dataBytes_append, dataBytes_cons, List.append_assoc]
  rw [hdata, overlay_inside _ _ _ _ hframe, List.set_eq_take_append_cons_drop, if_pos hi,
    dataBytes_append, dataBytes_cons, List.append_assoc]

end SeaStore.Block
