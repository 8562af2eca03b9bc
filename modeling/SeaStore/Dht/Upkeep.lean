import SeaStore.Dht.StateOk

/-!
What is done from time to time, whether a message has come in or not. Nodes,
searches and peers expire, searches are carried on, and a bucket that has not
been confirmed for long has one of its nodes asked. None of it can fail.
-/
namespace SeaStore.Dht

open Posix Controller Ranges

/-- What is left of a state by what is done from time to time. -/
structure Upheld (d d' : State) : Prop where
  ok : StateOk d'
  now : d'.now = d.now
  myid : d'.myid = d.myid
  myV : d'.myV = d.myV
  socket : d'.socket = d.socket
  socket6 : d'.socket6 = d.socket6
  tokens : d'.tokens = d.tokens
  ring : d'.ring = d.ring

/-- Only numbers have been drawn. -/
def Drawn (d d' : State) : Prop := ∃ rs, d' = { d with randoms := rs }

section Upheld

variable {d d' d'' : State}

theorem Upheld.refl (hok : StateOk d) : Upheld d d := ⟨hok, rfl, rfl, rfl, rfl, rfl, rfl, rfl⟩

theorem Upheld.trans (h : Upheld d d') (h' : Upheld d' d'') : Upheld d d'' :=
  ⟨h'.ok, h'.now.trans h.now, h'.myid.trans h.myid, h'.myV.trans h.myV, h'.socket.trans h.socket,
    h'.socket6.trans h.socket6, h'.tokens.trans h.tokens, h'.ring.trans h.ring⟩

theorem After.upheld (h : After [] d d') : Upheld d d' :=
  ⟨h.ok, h.now, h.myid, h.myV, h.socket, h.socket6, h.tokens, h.ring⟩

end Upheld

section Drawn

variable {d d' d'' : State} {af : Af}

theorem Drawn.refl (d : State) : Drawn d d := ⟨d.randoms, rfl⟩

theorem Drawn.trans (h : Drawn d d') (h' : Drawn d' d'') : Drawn d d'' := by
  obtain ⟨rs, rfl⟩ := h
  obtain ⟨rs', rfl⟩ := h'
  exact ⟨rs', rfl⟩

theorem Drawn.table (h : Drawn d d') (af : Af) : d'.table af = d.table af := by
  obtain ⟨rs, rfl⟩ := h
  rfl

theorem Drawn.quiet (h : Drawn d d') : Quiet d d' := by
  obtain ⟨rs, rfl⟩ := h
  exact ⟨rfl, fun _ => rfl, forall₂_tends_refl _⟩

theorem random_drawn : Drawn d d.random.2 := by
  unfold State.random
  split
  · exact Drawn.refl d
  · next r rs _ => exact ⟨rs, rfl⟩

theorem randomByte_drawn : Drawn d (randomByte d).2 := random_drawn

theorem randomBytes_drawn (n : ℕ) : Drawn d (randomBytes d n).2 := by
  induction n generalizing d with
  | zero => exact Drawn.refl d
  | succ n ih => exact randomByte_drawn.trans ih

theorem oneInEight_drawn : Drawn d (oneInEight d).2 := random_drawn

theorem bucketRandom_drawn (bs : List Bucket) (i : ℕ) (b : Bucket) :
    Drawn d (bucketRandom d bs i b).2 := by
  unfold bucketRandom
  simp only
  split
  · exact Drawn.refl d
  · exact randomByte_drawn.trans (randomBytes_drawn _)

theorem maintenanceWant_drawn (id : NodeId) : Drawn d (maintenanceWant af id d).2 := by
  unfold maintenanceWant
  by_cases hboth : (d.socket && d.socket6) = true
  · rw [if_pos hboth]
    extract_lets other hasRoom
    by_cases hroom : hasRoom = true
    · rw [if_pos hroom]
      exact Drawn.refl d
    · rw [if_neg hroom]
      exact random_drawn
  · rw [if_neg hboth]
    exact Drawn.refl d

theorem randomNode_drawn (b : Bucket) : Drawn d (randomNode d b).2 := by
  unfold randomNode
  split
  · exact Drawn.refl d
  · exact random_drawn

theorem randomNode_lt (b : Bucket) {j : ℕ} (hj : (randomNode d b).1 = some j) :
    j < b.nodes.length := by
  unfold randomNode at hj
  split at hj
  · exact absurd hj (by simp)
  · simp only at hj
    split at hj
    · next hlt =>
      obtain rfl := Option.some.inj hj
      exact hlt
    · exact absurd hj (by simp)

end Drawn

section Expiry

variable {d : State} {af : Af}

theorem modifyBucket_after (hok : StateOk d) (haf : af = .inet ∨ af = .inet6) {i : ℕ}
    {f : Bucket → Bucket} (htable : TableOk d.myid af ((d.table af).modify i f)) :
    After [] d (d.modifyBucket af i f) :=
  (Apart.setTable d af _).after haf hok (by rw [table_setTable_self]; exact htable)

theorem expireFrom_after (hok : StateOk d) (haf : af = .inet ∨ af = .inet6) (i fuel : ℕ) :
    After [] d (expireFrom d af i fuel) := by
  induction fuel generalizing d i with
  | zero => exact After.refl hok
  | succ fuel ih =>
    rw [expireFrom]
    split
    · exact After.refl hok
    · next b hb =>
      extract_lets kept changed d₁ d₂
      have hfilter : After [] d d₁ := by
        refine modifyBucket_after hok haf ((hok.table haf).modify (fun b => rfl) ?_)
        intro b' hb' hbucket
        rw [hb] at hb'
        obtain rfl := Option.some.inj hb'
        exact hbucket.filter _
      have hping : After [] d d₂ := by
        by_cases hch : changed = true
        · simp only [d₂, if_pos hch]
          exact hfilter.trans ((sendCachedPing_quiet i).after hfilter.ok)
        · simp only [d₂, if_neg hch]
          exact hfilter
      exact hping.trans (ih hping.ok (i + 1))

/-- The next expiry is set, but nothing is done to what is stored. -/
theorem expireBuckets_upheld (hok : StateOk d) (haf : af = .inet ∨ af = .inet6) :
    Upheld d (expireBuckets d af) ∧ (expireBuckets d af).storage = d.storage ∧
      d.now + 120 ≤ (expireBuckets d af).expireStuffTime ∧
      (expireBuckets d af).expireStuffTime < d.now + 360 := by
  have hexpire := expireFrom_after hok haf 0 (d.table af).length
  have hdraw := hexpire.trans (random_quiet.after hexpire.ok)
  refine ⟨hdraw.upheld.trans ?_, hdraw.storage, ?_⟩
  · exact ⟨⟨hdraw.ok.inet, hdraw.ok.inet6, hdraw.ok.searches, hdraw.ok.numsearches,
      hdraw.ok.numsearches_le, hdraw.ok.storage⟩, rfl, rfl, rfl, rfl, rfl, rfl, rfl⟩
  · have hnow := hdraw.now
    simp only [expireBuckets]
    omega

theorem expireSearches_after (hok : StateOk d) : After [] d (expireSearches d) := by
  have hnum := hok.numsearches
  have hle := hok.numsearches_le
  refine ⟨⟨hok.inet, hok.inet6, fun sr hsr => hok.searches sr (List.mem_filter.mp hsr).1, ?_, ?_,
    hok.storage⟩, rfl, rfl, rfl, rfl, rfl, rfl, rfl, rfl, rfl, rfl⟩
  · have hsplit := List.length_eq_length_filter_add (l := d.searches)
      (fun sr => decide (sr.stepTime < d.now - searchExpireTime))
    simp only [expireSearches]
    omega
  · exact (List.length_filter_le ..).trans hle

theorem expireStorage_upheld (hok : StateOk d) :
    Upheld d (expireStorage d) ∧
      registry (expireStorage d).storage =
        Registry.expire (registry d.storage) (d.now - 32 * 60) := by
  obtain ⟨hstorage, hregistry⟩ := expireStorage_spec hok.storage
  exact ⟨⟨⟨hok.inet, hok.inet6, hok.searches, hok.numsearches, hok.numsearches_le, hstorage⟩,
    rfl, rfl, rfl, rfl, rfl, rfl, rfl⟩, hregistry⟩

/-- What has been announced here, when what is too old has been dropped. -/
noncomputable def dueRegistry (d : State) : Registry.Entries NodeId (Bytes × UInt16) :=
  if d.expireStuffTime ≤ d.now then Registry.expire (registry d.storage) (d.now - 32 * 60)
  else registry d.storage

/-- When the next expiry is due, the last one being done if it was. -/
structure Scheduled (d d' : State) : Prop where
  due : d.expireStuffTime ≤ d.now →
    d.now + 120 ≤ d'.expireStuffTime ∧ d'.expireStuffTime < d.now + 360
  early : d.now < d.expireStuffTime → d'.expireStuffTime = d.expireStuffTime

theorem expireStuff_upheld (hok : StateOk d) :
    Upheld d (expireStuff d) ∧ registry (expireStuff d).storage = dueRegistry d ∧
      Scheduled d (expireStuff d) := by
  unfold expireStuff dueRegistry
  split
  · next hdue =>
    obtain ⟨hbuckets, hsame, -⟩ := expireBuckets_upheld hok (Or.inl rfl)
    obtain ⟨hbuckets6, hsame6, htime⟩ := expireBuckets_upheld hbuckets.ok (Or.inr rfl)
    obtain ⟨hstorage, hregistry⟩ := expireStorage_upheld hbuckets6.ok
    have hsearches := expireSearches_after hstorage.ok
    have hnow := (hbuckets.trans hbuckets6).now
    refine ⟨((hbuckets.trans hbuckets6).trans hstorage).trans hsearches.upheld, ?_, ?_, ?_⟩
    · rw [hsearches.storage, hregistry, hsame6, hsame, hnow]
    · intro _
      rw [hsearches.expireStuffTime, ← hbuckets.now]
      exact htime
    · intro hearly
      omega
  · next hearly => exact ⟨Upheld.refl hok, rfl, fun hdue => absurd hdue hearly, fun _ => rfl⟩

end Expiry

section Searches

variable {d : State}

theorem stepSearches_quiet (si fuel : ℕ) : Quiet d (stepSearches d si fuel) := by
  induction fuel generalizing d si with
  | zero => exact Quiet.refl d
  | succ fuel ih =>
    rw [stepSearches]
    split
    · exact Quiet.refl d
    · simp only
      split
      · exact (searchStep_quiet si).trans (ih _)
      · exact ih _

theorem setSearchTime_kept (tm : ℤ) : Kept [] d { d with searchTime := tm } :=
  ⟨rfl, rfl, rfl, rfl, rfl, rfl, rfl, rfl, rfl, rfl, rfl, rfl, fun _ => rfl,
    forall₂_tends_refl _⟩

theorem scheduleSearches_kept (searches : List Search) :
    Kept [] d (scheduleSearches d searches) := by
  induction searches generalizing d with
  | nil => exact Kept.refl d
  | cons sr searches ih =>
    rw [scheduleSearches]
    split
    · exact ih
    · simp only
      split
      · exact (random_quiet.kept.trans (setSearchTime_kept _)).trans ih
      · exact random_quiet.kept.trans ih

theorem searchesDue_kept : Kept [] d (searchesDue d) := by
  unfold searchesDue
  split
  · exact ((stepSearches_quiet 0 _).kept.trans (setSearchTime_kept 0)).trans
      (scheduleSearches_kept _)
  · exact Kept.refl d

end Searches

section Asking

variable {d : State} {af : Af} {i q : ℕ}

theorem onwards_spec (hi : i < (d.table af).length) (b : Bucket) :
    (onwards d af i b).1 < (d.table af).length ∧ Drawn d (onwards d af i b).2 := by
  unfold onwards
  split
  · exact ⟨hi, Drawn.refl d⟩
  · next c hc =>
    obtain ⟨hi', -⟩ := List.getElem?_eq_some_iff.mp hc
    split
    · exact ⟨hi', Drawn.refl d⟩
    · refine ⟨?_, oneInEight_drawn⟩
      simp only
      split
      · exact hi'
      · exact hi

theorem backwards_spec (hq : q < (d.table af).length) (i : ℕ) (c : Bucket) :
    (backwards d af i q c).1 < (d.table af).length ∧ Drawn d (backwards d af i q c).2 := by
  have hdraw : Drawn d (if c.count = 0 then (true, d) else oneInEight d).2 := by
    split
    · exact Drawn.refl d
    · exact oneInEight_drawn
  unfold backwards
  simp only
  split
  · exact ⟨hq, hdraw⟩
  · next p r hp =>
    obtain ⟨p', -, hp⟩ := Option.bind_eq_some_iff.mp hp
    obtain ⟨b, hb, heq⟩ := Option.map_eq_some_iff.mp hp
    obtain ⟨rfl, -⟩ := Prod.mk.inj heq
    rw [hdraw.table] at hb
    obtain ⟨hlt, -⟩ := List.getElem?_eq_some_iff.mp hb
    refine ⟨?_, hdraw⟩
    generalize ((if c.count = 0 then (true, d) else oneInEight d).1 && decide (0 < r.count)) = back
    cases back with
    | true => exact hlt
    | false => exact hq

theorem askedBucket_spec (d : State) (af : Af) (hi : i < (d.table af).length) :
    ∃ q d', askedBucket d af i = some (q, d') ∧ q < (d.table af).length ∧ Drawn d d' := by
  obtain ⟨b, hb⟩ : ∃ b, (d.table af)[i]? = some b := ⟨_, List.getElem?_eq_getElem hi⟩
  obtain ⟨hlt, hdraw⟩ := onwards_spec hi b
  rw [← hdraw.table af] at hlt
  obtain ⟨c, hc⟩ : ∃ c, ((onwards d af i b).2.table af)[(onwards d af i b).1]? = some c :=
    ⟨_, List.getElem?_eq_getElem hlt⟩
  obtain ⟨hlt', hdraw'⟩ := backwards_spec hlt i c
  rw [hdraw.table af] at hlt'
  refine ⟨_, _, ?_, hlt', hdraw.trans hdraw'⟩
  unfold askedBucket
  simp only [hb, hc, Option.bind_eq_bind, Option.bind_some, Option.pure_def]

theorem askNode_spec (d : State) (af : Af) (hq : q < (d.table af).length) (id : NodeId)
    (want : State → ℤ × State)
    (hwant : ∀ d, Drawn d (want d).2) :
    ∃ asked d', askNode d af q id want = some (asked, d') ∧ Quiet d d' := by
  have hb := List.getElem?_eq_getElem hq
  have hdraw := randomNode_drawn (d := d) (d.table af)[q]
  unfold askNode
  rw [hb, Option.bind_eq_bind, Option.bind_some]
  generalize hr : randomNode d (d.table af)[q] = r at hdraw
  obtain ⟨j, d₁⟩ := r
  cases j with
  | none => exact ⟨false, d₁, rfl, hdraw.quiet⟩
  | some j =>
    have hj := randomNode_lt (d := d) (d.table af)[q] (congrArg Prod.fst hr)
    simp only [List.getElem?_eq_getElem hj]
    exact ⟨true, _, rfl, ((hdraw.trans (hwant d₁)).quiet.trans (emit_quiet ..)).trans
      (pinged_quiet ..)⟩

theorem TableOk.eight_le {myid : NodeId} {bs : List Bucket} {b : Bucket} (hok : TableOk myid af bs)
    (hb : bs[i]? = some b) : 8 ≤ b.maxCount := by
  have hne : bs ≠ [] := by
    rintro rfl
    exact absurd hb (by simp)
  have hshape := hok.shape hne
  obtain ⟨hlt, -⟩ := List.getElem?_eq_some_iff.mp hb
  have hat : (firsts bs)[i]? = some b.first.value := by
    rw [firsts, List.getElem?_map, hb]
    rfl
  have hplace : locate b.first.value (firsts bs) = some i := by
    refine (locate_eq_some_iff hshape.sorted).mpr ⟨by rw [length_firsts]; exact hlt, ?_, ?_⟩
    · intro e _ he
      rw [hat] at he
      exact Nat.le_of_eq (Option.some.inj he).symm
    · intro e he
      obtain ⟨hi, hgeti⟩ := List.getElem?_eq_some_iff.mp hat
      obtain ⟨hj, hgetj⟩ := List.getElem?_eq_some_iff.mp he
      have hsorted :=
        List.pairwise_iff_getElem.mp hshape.sorted i (i + 1) hi hj (Nat.lt_succ_self i)
      rw [hgeti, hgetj] at hsorted
      exact hsorted
  rw [(hok.bucket i b hb).room b.first hplace]
  exact eight_le_roomOf _

theorem bucketMaintenanceFrom_spec (hok : TableOk d.myid af (d.table af)) (fuel : ℕ) :
    ∃ soon d', bucketMaintenanceFrom d af i fuel = some (soon, d') ∧ Quiet d d' := by
  induction fuel generalizing d i with
  | zero => exact ⟨false, d, rfl, Quiet.refl d⟩
  | succ fuel ih =>
    rw [bucketMaintenanceFrom]
    cases hb : (d.table af)[i]? with
    | none => exact ⟨false, d, rfl, Quiet.refl d⟩
    | some b =>
      have hmax := hok.eight_le hb
      obtain ⟨hi, -⟩ := List.getElem?_eq_some_iff.mp hb
      have hne : b.maxCount.tdiv 8 ≠ 0 := by
        rw [Int.tdiv_eq_ediv_of_nonneg (by omega)]
        omega
      simp only [if_neg hne]
      split
      · -- the bucket is due: one of its nodes is asked, or one of a neighbour
        have hrandom := bucketRandom_drawn (d := d) (d.table af) i b
        generalize bucketRandom d (d.table af) i b = r at hrandom ⊢
        obtain ⟨id, d₁⟩ := r
        obtain ⟨q, d₂, hasked, hq, hdraw⟩ := askedBucket_spec d₁ af (i := i)
          (by rw [hrandom.table]; exact hi)
        obtain ⟨asked, d₃, hask, hquiet⟩ := askNode_spec d₂ af (q := q)
          (by rw [hdraw.table]; exact hq) id (maintenanceWant af id)
          fun _ => maintenanceWant_drawn id
        have hsofar : Quiet d d₃ := (hrandom.trans hdraw).quiet.trans hquiet
        simp only [hasked, hask, Option.bind_eq_bind, Option.bind_some, Option.pure_def]
        split
        · exact ⟨true, d₃, rfl, hsofar⟩
        · have hmyid := (hsofar.apart af).myid
          have hok' : TableOk d₃.myid af (d₃.table af) := by
            rw [hmyid]
            exact hok.of_rows (hsofar.rows af)
          obtain ⟨soon, d', heq, hrest⟩ := ih (i := i + 1) hok'
          exact ⟨soon, d', heq, hsofar.trans hrest⟩
      · exact ih hok

theorem bucketMaintenance_spec (hok : StateOk d) (haf : af = .inet ∨ af = .inet6) :
    ∃ soon d', bucketMaintenance d af = some (soon, d') ∧ Quiet d d' :=
  bucketMaintenanceFrom_spec (hok.table haf) _

theorem neighbourhoodMaintenance_spec (hok : StateOk d) (haf : af = .inet ∨ af = .inet6) :
    ∃ soon d', neighbourhoodMaintenance d af = some (soon, d') ∧ Quiet d d' := by
  unfold neighbourhoodMaintenance
  cases hm : findBucket d.myid (d.table af) with
  | none => exact ⟨false, d, rfl, Quiet.refl d⟩
  | some i =>
    have hne : d.table af ≠ [] := by
      intro hnil
      rw [hnil] at hm
      exact absurd hm (by simp [findBucket])
    obtain ⟨j, hj, hfind⟩ := ((hok.table haf).shape hne).exists_locate d.myid
    obtain rfl : i = j := Option.some.inj (hm.symm.trans hfind)
    have hbyte := randomByte_drawn (d := d)
    simp only
    generalize randomByte d = r at hbyte ⊢
    obtain ⟨r, d₁⟩ := r
    obtain ⟨q, d₂, hasked, hq, hdraw⟩ := askedBucket_spec d₁ af (i := i)
      (by rw [hbyte.table]; exact hj)
    obtain ⟨asked, d₃, hask, hquiet⟩ := askNode_spec d₂ af (q := q)
      (by rw [hdraw.table]; exact hq) (NodeId.ofBytes (d.myid.bytes.take 19 ++ [r]))
      (fun d => (if d₂.socket && d₂.socket6 then bothFamilies else -1, d))
      fun d => Drawn.refl d
    have hmyid : d₁.myid = d.myid := (hbyte.quiet.apart af).myid
    rw [← hmyid] at hask
    simp only [hasked, hask, Option.bind_eq_bind, Option.bind_some, Option.pure_def]
    exact ⟨true, d₃, rfl, (hbyte.trans hdraw).quiet.trans hquiet⟩

theorem nearOwnId_spec (hok : StateOk d) (haf : af = .inet ∨ af = .inet6) (growTime : ℤ) :
    ∃ soon d', nearOwnId d af growTime = some (soon, d') ∧ Quiet d d' := by
  unfold nearOwnId
  split
  · exact neighbourhoodMaintenance_spec hok haf
  · exact ⟨false, d, rfl, Quiet.refl d⟩

theorem growMaintenance_spec (hok : StateOk d) (soon : Bool) :
    ∃ soon' d', growMaintenance d soon = some (soon', d') ∧ Quiet d d' := by
  unfold growMaintenance
  split
  · exact ⟨true, d, rfl, Quiet.refl d⟩
  · obtain ⟨soon, d₁, heq, hquiet⟩ := nearOwnId_spec hok (Or.inl rfl) d.mybucketGrowTime
    obtain ⟨soon6, d₂, heq6, hquiet6⟩ :=
      nearOwnId_spec (hquiet.after hok).ok (Or.inr rfl) d₁.mybucket6GrowTime
    simp only [heq, heq6, Option.bind_eq_bind, Option.bind_some, Option.pure_def]
    exact ⟨_, _, rfl, hquiet.trans hquiet6⟩

theorem confirmNodes_spec (hok : StateOk d) : ∃ d', confirmNodes d = some d' ∧ Kept [] d d' := by
  unfold confirmNodes
  split
  · obtain ⟨soon, d₁, heq, hquiet⟩ := bucketMaintenance_spec hok (Or.inl rfl)
    have hok₁ := (hquiet.after hok).ok
    obtain ⟨soon6, d₂, heq6, hquiet6⟩ := bucketMaintenance_spec hok₁ (Or.inr rfl)
    have hok₂ := (hquiet6.after hok₁).ok
    obtain ⟨soon', d₃, hgrow, hquiet'⟩ := growMaintenance_spec hok₂ (soon || soon6)
    simp only [heq, heq6, hgrow, Option.bind_eq_bind, Option.bind_some, Option.pure_def]
    refine ⟨_, rfl, (((hquiet.trans hquiet6).trans hquiet').trans random_quiet).kept.trans ?_⟩
    exact ⟨rfl, rfl, rfl, rfl, rfl, rfl, rfl, rfl, rfl, rfl, rfl, rfl, fun _ => rfl,
    forall₂_tends_refl _⟩
  · exact ⟨d, rfl, Kept.refl d⟩

end Asking

section Maintain

variable {d : State}

theorem rotate_upheld (hok : StateOk d) (e : Surroundings) :
    Upheld d (rotate d e).2 ∧ (rotate d e).2.storage = d.storage ∧
      (rotate d e).2.expireStuffTime = d.expireStuffTime := by
  have hdraw := random_quiet.after hok
  refine ⟨hdraw.upheld.trans ?_, hdraw.storage, hdraw.expireStuffTime⟩
  exact ⟨⟨hdraw.ok.inet, hdraw.ok.inet6, hdraw.ok.searches, hdraw.ok.numsearches,
    hdraw.ok.numsearches_le, hdraw.ok.storage⟩, rfl, rfl, rfl, rfl, rfl, rfl, rfl⟩

theorem maintain_spec (hok : StateOk d) (e : Surroundings) :
    ∃ tosleep d', maintain d e = some (tosleep, d') ∧ Upheld d d' ∧
      registry d'.storage = dueRegistry d ∧ Scheduled d d' := by
  have hrotate : ∃ d₁, (if d.rotateSecretsTime ≤ d.now then (rotate d e).2 else d) = d₁ ∧
      Upheld d d₁ ∧ d₁.storage = d.storage ∧ d₁.expireStuffTime = d.expireStuffTime := by
    split
    · exact ⟨_, rfl, rotate_upheld hok e⟩
    · exact ⟨d, rfl, Upheld.refl hok, rfl, rfl⟩
  obtain ⟨d₁, heq, hupheld, hstorage, htime⟩ := hrotate
  obtain ⟨hexpire, hregistry, hscheduled⟩ := expireStuff_upheld hupheld.ok
  have hsearches := searchesDue_kept.after hexpire.ok
  obtain ⟨d₂, hconfirm, hkept⟩ := confirmNodes_spec hsearches.ok
  have hrest := hsearches.trans (hkept.after hsearches.ok)
  refine ⟨sleepTime d₂, d₂, ?_, (hupheld.trans hexpire).trans hrest.upheld, ?_, ?_, ?_⟩
  · unfold maintain
    rw [heq]
    simp only [hconfirm, Option.bind_eq_bind, Option.bind_some, Option.pure_def]
  · rw [hrest.storage, hregistry]
    unfold dueRegistry
    rw [hstorage, htime, hupheld.now]
  · intro hdue
    rw [hrest.expireStuffTime, ← hupheld.now]
    exact hscheduled.due (by rw [htime, hupheld.now]; exact hdue)
  · intro hearly
    rw [hrest.expireStuffTime, ← htime]
    exact hscheduled.early (by rw [htime, hupheld.now]; exact hearly)

end Maintain

end SeaStore.Dht
