import SeaStore.Dht.Traces

/-!
What the node knows of peers, over all of its runs. Whoever has announced itself
is known for half an hour, whatever else happens; and whoever is known has
announced itself with a token, not much longer ago than that.
-/
namespace SeaStore.Dht

open Posix Controller Registry

/-- A peer can be stored for a hash: it is known, or there is room for it. -/
def Storable (r : Entries NodeId (Bytes × UInt16)) (id : NodeId) (key : Bytes × UInt16) : Prop :=
  r id key ≠ none ∨ (id ∈ topics r ∧ (members r id).ncard < dhtMaxPeers) ∨
    id ∉ topics r ∧ (topics r).ncard < dhtMaxHashes

/-- When a peer has been announced for a hash last in a run of calls. -/
def lastAnnounced (id : NodeId) (key : Bytes × UInt16) : State → List Call → Option ℤ
  | _, [] => none
  | d, c :: cs =>
    ((c.run d).bind fun d' => lastAnnounced id key d' cs).or
      (if c.announced d = some (id, key) then some (c.clock d) else none)

section Stored

variable {d d' : State} {c : Call} {id : NodeId} {key : Bytes × UInt16} {t : ℤ}

theorem Storable.announce {r : Entries NodeId (Bytes × UInt16)} (h : Storable r id key) (now : ℤ) :
    (announce dhtMaxPeers dhtMaxHashes r now id key).2 id key = some now := by
  refine announce_self ?_
  rcases h with hknown | ⟨htopic, hroom⟩ | ⟨htopic, hroom⟩
  · exact Or.inl hknown
  · by_cases hknown : r id key ≠ none
    · exact Or.inl hknown
    · right
      unfold Registry.announce
      rw [if_neg hknown, if_pos htopic, if_pos hroom]
  · by_cases hknown : r id key ≠ none
    · exact Or.inl hknown
    · right
      unfold Registry.announce
      rw [if_neg hknown, if_neg htopic, if_pos hroom]

/-- What is known after a call was known before, or has been announced in it. -/
theorem stored_some (hin : stored d c id key = some t) :
    (c.expires d = true → c.clock d - 32 * 60 ≤ t) ∧
      (registry d.storage id key = some t ∨
        c.announced d = some (id, key) ∧ t = c.clock d) := by
  have htold : ∀ ann : Option (NodeId × Bytes × UInt16),
      afterAnnounce { d with now := c.clock d } ann id key = some t →
        registry d.storage id key = some t ∨ ann = some (id, key) ∧ t = c.clock d := by
    intro ann hann
    cases ann with
    | none => exact Or.inl hann
    | some a =>
      obtain ⟨id', key'⟩ := a
      rcases announce_some hann with hin | ⟨⟨rfl, rfl⟩, rfl⟩
      · exact Or.inl hin
      · exact Or.inr ⟨rfl, rfl⟩
  unfold stored at hin
  split at hin
  · obtain ⟨hin, hlimit⟩ := expire_eq_some.mp hin
    exact ⟨fun _ => hlimit, htold _ hin⟩
  · next hnot => exact ⟨fun hexp => absurd hexp hnot, htold _ hin⟩

/-- What is known stays so for half an hour, and becomes younger when it is announced again. -/
theorem stored_of_known (hin : registry d.storage id key = some t)
    (hsoon : c.clock d ≤ t + 32 * 60) : stored d c id key =
      some (if c.announced d = some (id, key) then c.clock d else t) := by
  have htold : afterAnnounce { d with now := c.clock d } (c.announced d) id key =
      some (if c.announced d = some (id, key) then c.clock d else t) := by
    cases hann : c.announced d with
    | none => exact hin
    | some a =>
      obtain ⟨id', key'⟩ := a
      have hsame : (some (id', key') = some (id, key)) = (id = id' ∧ key = key') := by
        simp only [Option.some.injEq, Prod.mk.injEq, eq_comm]
      simp only [hsame]
      exact announce_known hin
  unfold stored
  split
  · refine expire_eq_some.mpr ⟨htold, ?_⟩
    split
    · linarith
    · linarith
  · exact htold

/-- A peer that is announced is known from now on, if it can be stored. -/
theorem stored_of_announced (hann : c.announced d = some (id, key))
    (hroom : Storable (registry d.storage) id key) : stored d c id key = some (c.clock d) := by
  have htold : afterAnnounce { d with now := c.clock d } (c.announced d) id key =
      some (c.clock d) := by
    rw [hann]
    exact hroom.announce (c.clock d)
  unfold stored
  split
  · exact expire_eq_some.mpr ⟨htold, by linarith⟩
  · exact htold

end Stored

/-- An announcement, with what stands in the buffer for its token. -/
def peerCall : Call :=
  .periodic ⟨200, [], ⟨1, .fill 0⟩, .fill 0, #v[97, 111, 101, 117, 115, 110, 116, 104]⟩
    (some ⟨text "d1:ad2:id20:abcdefghij01234567899:info_hash20:mnopqrstuvwxyz1234564:porti6881e" ++
      text "5:token8:aoeusnthe1:q13:announce_peer1:t2:aa1:y1:qe", 0, otherNode⟩)

theorem peerCall_announced : peerCall.announced freshNode =
    some (NodeId.ofBytes (text "mnopqrstuvwxyz123456"), [10, 0, 0, 1], 6881) := by
  decide +kernel

theorem peerCall_isInet : peerCall.IsInet := by
  intro packet hp
  obtain rfl := Option.some.inj hp
  exact True.intro

theorem peerCall_run : ∃ d', peerCall.run freshNode = some d' := by
  have hne : peerCall.run freshNode ≠ none := by
    rw [ne_eq, call_none_iff freshNode_reachable.ok peerCall_isInet]
    simp [peerCall]
  exact Option.ne_none_iff_exists'.mp hne

theorem freshNode_storable (id : NodeId) (key : Bytes × UInt16) :
    Storable (registry freshNode.storage) id key := by
  have hnone : ∀ id key, registry freshNode.storage id key = none := fun _ _ => rfl
  have htopics : topics (registry freshNode.storage) = ∅ := by
    ext id
    refine iff_of_false (fun hin => ?_) (Set.notMem_empty id)
    obtain ⟨key, hne⟩ := hin
    exact hne (hnone id key)
  refine Or.inr (Or.inr ⟨?_, ?_⟩)
  · rw [htopics]
    exact Set.notMem_empty id
  · rw [htopics, Set.ncard_empty]
    decide

section Run

variable {d d' : State} {c : Call} {cs : List Call} {id : NodeId} {key : Bytes × UInt16} {t : ℤ}

/-- What is known stays so for half an hour, with the time of its last announcement. -/
theorem known_persists (hok : StateOk d) (hrun : Run d cs d') (hsteady : Steady d.now cs)
    (hin : registry d.storage id key = some t) (hle : t ≤ d.now)
    (hsoon : d'.now ≤ t + 32 * 60) :
    registry d'.storage id key = (lastAnnounced id key d cs).or (some t) := by
  induction hrun generalizing t with
  | nil => exact hin
  | @cons d d' d'' c cs hc hrun hrest ih =>
    have hstep := c.run_step hok hc hrun
    obtain ⟨hclock, hsteady⟩ := hsteady
    have hnow : d'.now = c.time.getD d.now := hstep.now
    rw [← hnow] at hclock hsteady
    have hlast := hrest.now_le hstep.ok hsteady
    have hclock' : c.clock d = d'.now := hstep.now.symm
    have hnext := stored_of_known (c := c) hin (by omega)
    rw [← hstep.registry] at hnext
    rw [ih hstep.ok hsteady hnext (by split <;> omega) (by split <;> omega), lastAnnounced, hrun,
      Option.bind_some, Option.or_assoc]
    split
    · rfl
    · rfl

/-- Whoever announces itself with success, and can be stored, is known for half an hour at
least, with the time of its last announcement: in every later state of every run of calls, as
long as the clock is not set back. -/
theorem announced_persists (hd : Reachable d) (hann : c.announced d = some (id, key))
    (hroom : Storable (registry d.storage) id key) (hrun : Run d (c :: cs) d')
    (hsteady : Steady d.now (c :: cs)) (hsoon : d'.now ≤ c.clock d + 32 * 60) :
    registry d'.storage id key = lastAnnounced id key d (c :: cs) ∧
      lastAnnounced id key d (c :: cs) ≠ none := by
  cases hrun with
  | @cons _ d₁ _ _ _ hc hrun hrest =>
    have hstep := c.run_step hd.ok hc hrun
    have hin : registry d₁.storage id key = some (c.clock d) := by
      rw [hstep.registry]
      exact stored_of_announced hann hroom
    have hnow : d₁.now = c.time.getD d.now := hstep.now
    obtain ⟨-, hsteady⟩ := hsteady
    rw [← hnow] at hsteady
    have hlast : lastAnnounced id key d (c :: cs) =
        (lastAnnounced id key d₁ cs).or (some (c.clock d)) := by
      rw [lastAnnounced, hrun, Option.bind_some, if_pos hann]
    rw [hlast]
    refine ⟨known_persists hstep.ok hrest hsteady hin (le_of_eq hstep.now.symm) hsoon, ?_⟩
    simp

theorem announced_persists_pings : ∃ d', Run freshNode [peerCall, pingCall, pingCall] d' ∧
    registry d'.storage (NodeId.ofBytes (text "mnopqrstuvwxyz123456")) ([10, 0, 0, 1], 6881) =
        lastAnnounced (NodeId.ofBytes (text "mnopqrstuvwxyz123456")) ([10, 0, 0, 1], 6881)
          freshNode [peerCall, pingCall, pingCall] ∧
      lastAnnounced (NodeId.ofBytes (text "mnopqrstuvwxyz123456")) ([10, 0, 0, 1], 6881)
        freshNode [peerCall, pingCall, pingCall] ≠ none := by
  have hsome : ([peerCall, pingCall, pingCall].foldlM Call.run freshNode).isSome = true := by
    decide +kernel
  obtain ⟨d', heq⟩ := Option.isSome_iff_exists.mp hsome
  have hinet : ∀ c ∈ [peerCall, pingCall, pingCall], c.IsInet :=
    List.forall_mem_cons.mpr ⟨peerCall_isInet, List.forall_mem_cons.mpr ⟨pingCall_isInet,
      List.forall_mem_singleton.mpr pingCall_isInet⟩⟩
  have hrun := Run.of_foldlM hinet heq
  have hnow : d'.now = 200 := by
    have hclock := congrArg (Option.map State.now) heq
    have hlast : (([peerCall, pingCall, pingCall].foldlM Call.run freshNode).map State.now) =
        some 200 := by
      decide +kernel
    exact Option.some.inj (hclock.symm.trans hlast)
  exact ⟨d', hrun, announced_persists freshNode_reachable peerCall_announced
    (freshNode_storable _ _) hrun ⟨by decide, by decide, by decide, True.intro⟩
    (by rw [hnow]; decide)⟩

/-- What is known has been announced in the run, or was known before. -/
theorem known_announced (hok : StateOk d) (hrun : Run d cs d')
    (hin : registry d'.storage id key = some t) :
    registry d.storage id key = some t ∨
      ∃ before c after d₁, cs = before ++ c :: after ∧ Run d before d₁ ∧
        c.announced d₁ = some (id, key) ∧ c.clock d₁ = t := by
  induction hrun with
  | nil => exact Or.inl hin
  | @cons d d' d'' c cs hc hrun hrest ih =>
    have hstep := c.run_step hok hc hrun
    rcases ih hstep.ok hin with hin | ⟨before, c', after, d₁, rfl, hbefore, hann, htime⟩
    · rw [hstep.registry] at hin
      rcases (stored_some hin).2 with hin | ⟨hann, rfl⟩
      · exact Or.inl hin
      · exact Or.inr ⟨[], c, cs, d, rfl, Run.nil d, hann, rfl⟩
    · exact Or.inr ⟨c :: before, c', after, d₁, rfl, Run.cons hc hrun hbefore, hann, htime⟩

/-- The next expiry is near, and nothing known is too old for it. -/
structure Young (d : State) : Prop where
  due : d.expireStuffTime < d.now + 360
  known : ∀ id key t, registry d.storage id key = some t → d.expireStuffTime < t + (32 * 60 + 360)

theorem Young.step (hok : StateOk d) (hyoung : Young d) (hc : c.IsInet) (hrun : c.run d = some d')
    (hle : d.now ≤ d'.now) : Young d' := by
  have hstep := c.run_step hok hc hrun
  have hnow := hstep.now
  have hdue := hyoung.due
  cases hexp : c.expires d with
  | true =>
    obtain ⟨-, hsoon⟩ := hstep.expired hexp
    refine ⟨hsoon, fun id key t hin => ?_⟩
    rw [hstep.registry] at hin
    have hlimit := (stored_some hin).1 hexp
    omega
  | false =>
    have hsame := hstep.early hexp
    refine ⟨by omega, fun id key t hin => ?_⟩
    rw [hstep.registry] at hin
    rcases (stored_some hin).2 with hin | ⟨-, htime⟩
    · have hknown := hyoung.known id key t hin
      omega
    · omega

theorem Young.run (hok : StateOk d) (hyoung : Young d) (hrun : Run d cs d')
    (hsteady : Steady d.now cs) : Young d' := by
  induction hrun with
  | nil => exact hyoung
  | @cons d d' d'' c cs hc hrun hrest ih =>
    have hstep := c.run_step hok hc hrun
    have hnow : d'.now = c.time.getD d.now := hstep.now
    obtain ⟨hclock, hsteady⟩ := hsteady
    rw [← hnow] at hclock hsteady
    exact ih hstep.ok (hyoung.step hok hc hrun hclock) hsteady

/-- Every peer that a node knows has announced itself since its start, in a call at the time
that is stored with it; and whenever a call has come to its end, that is less than 38
minutes ago. -/
theorem known_sound {d₀ d₁ : State} {e : Surroundings} {socket socket6 : Bool} {myid : NodeId}
    {v : Option (Vector UInt8 4)} (hrc : (dhtInit d₀ e socket socket6 myid v).1 = 1)
    (hrun : Run (dhtInit d₀ e socket socket6 myid v).2 cs d₁) (hc : c.IsInet)
    (hupkept : c.upkept d₁ = true) (hlast : c.run d₁ = some d') (hsteady : Steady e.now (cs ++ [c]))
    (hin : registry d'.storage id key = some t) :
    d'.now < t + 38 * 60 ∧ ∃ before c' after d₂, cs ++ [c] = before ++ c' :: after ∧
      Run (dhtInit d₀ e socket socket6 myid v).2 before d₂ ∧
        c'.announced d₂ = some (id, key) ∧ c'.clock d₂ = t := by
  obtain ⟨hstarted, hdue⟩ := dhtInit_spec hrc
  have hempty : ∀ id key,
      registry (dhtInit d₀ e socket socket6 myid v).2.storage id key = none := by
    intro id key
    rw [hstarted.storage]
    rfl
  have hall : Run (dhtInit d₀ e socket socket6 myid v).2 (cs ++ [c]) d' :=
    hrun.append (Run.cons hc hlast (Run.nil d'))
  have hyoung : Young (dhtInit d₀ e socket socket6 myid v).2 := by
    refine ⟨by rw [hstarted.now]; exact hdue, fun id key t hin => ?_⟩
    rw [hempty] at hin
    exact absurd hin (by simp)
  rw [← hstarted.now] at hsteady
  have hknown := (hyoung.run hstarted.ok hall hsteady).known id key t hin
  have hstep := c.run_step (hrun.ok hstarted.ok) hc hlast
  have hnow := hstep.now
  refine ⟨?_, ?_⟩
  · -- the next expiry is still to come
    cases hexp : c.expires d₁ with
    | true =>
      obtain ⟨hnext, -⟩ := hstep.expired hexp
      omega
    | false =>
      have hsame := hstep.early hexp
      rw [Call.expires, hupkept, Bool.true_and, decide_eq_false_iff_not] at hexp
      omega
  · rcases known_announced hstarted.ok hall hin with hbefore | hann
    · rw [hempty] at hbefore
      exact absurd hbefore (by simp)
    · exact hann

theorem known_sound_peer : ∃ d' : State, d'.now < 200 + 38 * 60 ∧
    ∃ before c after d₂, [] ++ [peerCall] = before ++ c :: after ∧ Run freshNode before d₂ ∧
      c.announced d₂ = some (NodeId.ofBytes (text "mnopqrstuvwxyz123456"), [10, 0, 0, 1], 6881) ∧
        c.clock d₂ = 200 := by
  obtain ⟨d', hrun⟩ := peerCall_run
  have hin : registry d'.storage (NodeId.ofBytes (text "mnopqrstuvwxyz123456"))
      ([10, 0, 0, 1], 6881) = some 200 := by
    rw [(peerCall.run_step freshNode_reachable.ok peerCall_isInet hrun).registry]
    exact stored_of_announced peerCall_announced (freshNode_storable _ _)
  exact ⟨d', known_sound (by decide) (Run.nil freshNode) peerCall_isInet (by decide +kernel) hrun
    ⟨by decide, True.intro⟩ hin⟩

end Run

end SeaStore.Dht
