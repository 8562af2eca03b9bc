import SeaStore.Dht.Contents
import SeaStore.Dht.Handled

/-!
Runs of the node, from its start on, by calls in any order and with whatever
packets come in. The invariant holds in all states that are reached, and no
packet brings the node down; a search does just when there is no slot for a new
one and none of the others is done.
-/
namespace SeaStore.Dht

open Posix Controller Ranges

/-- A call of the interface, with what `random` returns during it; `enough` tells whether
there is memory for a new search. -/
inductive Call
  | periodic (e : Surroundings) (p : Option Packet)
  | search (randoms : List ℕ) (enough : Bool) (id : NodeId) (port : UInt16) (af : Af)
  | insertNode (randoms : List ℕ) (id : NodeId) (sa : Sockaddr)
  | pingNode (sa : Sockaddr)
  | nodes (af : Af)
  | getNodes (num num6 : ℤ)

/-- The addresses of a call are of one of the two families. -/
def Call.IsInet : Call → Prop
  | .periodic _ p => ∀ packet ∈ p, packet.sa.IsInet
  | .search .. => True
  | .insertNode _ _ sa => sa.IsInet
  | .pingNode sa => sa.IsInet
  | .nodes _ => True
  | .getNodes .. => True

/-- The state after a call; `none` when the program has ended. -/
def Call.run (d : State) : Call → Option State
  | .periodic e p => (dhtPeriodic d e p).map fun r => r.2.2
  | .search randoms enough id port af =>
    (dhtSearch enough { d with randoms := randoms } id port af).map Prod.snd
  | .insertNode randoms id sa => some (dhtInsertNode { d with randoms := randoms } id sa).2
  | .pingNode sa => some (dhtPingNode d sa)
  -- the tables are only looked at
  | .nodes _ => some d
  | .getNodes .. => some d

/-- The states of a node, from its start on. -/
inductive Reachable : State → Prop
  | init (d : State) (e : Surroundings) (socket socket6 : Bool) (id : NodeId)
      (v : Option (Vector UInt8 4)) (hrc : (dhtInit d e socket socket6 id v).1 = 1) :
      Reachable (dhtInit d e socket socket6 id v).2
  | call {d d' : State} (c : Call) (hd : Reachable d) (hc : c.IsInet) (hrun : c.run d = some d') :
      Reachable d'

/-- Calls, one after another. -/
inductive Run : State → List Call → State → Prop
  | nil (d : State) : Run d [] d
  | cons {d d' d'' : State} {c : Call} {cs : List Call} (hc : c.IsInet) (hrun : c.run d = some d')
      (hrest : Run d' cs d'') : Run d (c :: cs) d''

theorem Run.reachable {d d' : State} {cs : List Call} (hd : Reachable d) (hrun : Run d cs d') :
    Reachable d' := by
  induction hrun with
  | nil => exact hd
  | @cons d d' d'' c cs hc hrun _ ih => exact ih (hd.call c hc hrun)

/-- The calls can be made just when none of them ends the program. -/
theorem Run.of_foldlM {d d' : State} {cs : List Call} (hcs : ∀ c ∈ cs, c.IsInet)
    (heq : cs.foldlM Call.run d = some d') : Run d cs d' := by
  induction cs generalizing d with
  | nil =>
    obtain rfl := Option.some.inj heq
    exact Run.nil d
  | cons c cs ih =>
    obtain ⟨d₁, hrun, hrest⟩ := Option.bind_eq_some_iff.mp heq
    obtain ⟨hc, hcs⟩ := List.forall_mem_cons.mp hcs
    exact Run.cons hc hrun (ih hcs hrest)

section Periodic

variable {d : State} {e : Surroundings}

/-- The state when a call begins. -/
def ready (d : State) (e : Surroundings) : State := { d with now := e.now, randoms := e.randoms }

theorem ready_ok (hok : StateOk d) (e : Surroundings) : StateOk (ready d e) :=
  ⟨hok.inet, hok.inet6, hok.searches, hok.numsearches, hok.numsearches_le, hok.storage⟩

/-- What the packet of a call stands for: none has come in, or it is empty. -/
def heardPacket (p : Option Packet) : Option Packet := p.filter fun p => p.bytes ≠ []

/-- What is received in a call, and what it leaves. -/
structure Received (d : State) (e : Surroundings) (p : Option Packet) (d' : State) : Prop where
  packet : ∀ packet, heardPacket p = some packet →
    Heard (snubs (ready d e) packet) (announces (ready d e) e packet) (spent (ready d e) packet) d'
  nothing : heardPacket p = none → d' = ready d e

theorem dhtPeriodic_spec (hok : StateOk d) (e : Surroundings) {p : Option Packet}
    (hp : ∀ packet ∈ p, packet.sa.IsInet) :
    (∃ packet ∈ p, packet.behind ≠ 0 ∧ dhtPeriodic d e p = some (-1, none, ready d e)) ∨
      ∃ tosleep d₁ d', dhtPeriodic d e p = some (1, some tosleep, d') ∧ Received d e p d₁ ∧
        Upheld d₁ d' ∧ registry d'.storage = dueRegistry d₁ ∧ Scheduled d₁ d' := by
  have hready := ready_ok hok e
  have hreceive : (∃ packet ∈ p, packet.behind ≠ 0 ∧ receiveAny (ready d e) e p = some none) ∨
      ∃ d₁, receiveAny (ready d e) e p = some (some d₁) ∧ Received d e p d₁ ∧ StateOk d₁ := by
    unfold receiveAny
    cases hheard : p.filter fun p => p.bytes ≠ [] with
    | none =>
      refine Or.inr ⟨ready d e, rfl, ⟨fun packet hpacket => ?_, fun _ => rfl⟩, hready⟩
      rw [heardPacket, hheard] at hpacket
      exact absurd hpacket (by simp)
    | some packet =>
      have hmem : packet ∈ p := (Option.filter_eq_some_iff.mp hheard).1
      obtain ⟨r, heq, hbehind, hsome⟩ := receive_spec hready (hp packet hmem) e
      cases r with
      | none => exact Or.inl ⟨packet, hmem, hbehind rfl, heq⟩
      | some d₁ =>
        refine Or.inr ⟨d₁, heq, ⟨fun packet' hpacket => ?_, fun hnone => ?_⟩, (hsome d₁ rfl).ok⟩
        · rw [heardPacket, hheard] at hpacket
          rw [← Option.some.inj hpacket]
          exact hsome d₁ rfl
        · rw [heardPacket, hheard] at hnone
          exact absurd hnone (by simp)
  unfold dhtPeriodic
  rcases hreceive with ⟨packet, hmem, hbehind, heq⟩ | ⟨d₁, heq, hreceived, hok₁⟩
  · refine Or.inl ⟨packet, hmem, hbehind, ?_⟩
    rw [ready] at heq ⊢
    simp only [heq, Option.bind_eq_bind, Option.bind_some, Option.pure_def]
  · obtain ⟨tosleep, d', hmaintain, hupheld, hregistry, hscheduled⟩ := maintain_spec hok₁ e
    refine Or.inr ⟨tosleep, d₁, d', ?_, hreceived, hupheld, hregistry, hscheduled⟩
    rw [ready] at heq
    simp only [heq, hmaintain, Option.bind_eq_bind, Option.bind_some, Option.pure_def]

end Periodic

section Search

variable {d d' : State} {id : NodeId} {af : Af}

/-- A search is changed, and stays well. -/
theorem modifySearch_after (hok : StateOk d) (si : ℕ) {f : Search → Search}
    (hf : ∀ sr, SearchOk sr → SearchOk (f sr)) : After [] d (d.modifySearch si f) := by
  refine ⟨⟨hok.inet, hok.inet6, ?_, ?_, ?_, hok.storage⟩, rfl, rfl, rfl, rfl, rfl, rfl, rfl, rfl,
    rfl, rfl⟩
  · intro sr hsr
    obtain ⟨i, hi⟩ := List.mem_iff_getElem?.mp hsr
    simp only [State.modifySearch] at hi
    rw [List.getElem?_modify] at hi
    obtain ⟨old, hold, rfl⟩ := Option.map_eq_some_iff.mp hi
    have hin := hok.searches old (List.mem_of_getElem? hold)
    split
    · exact hf old hin
    · exact hin
  · simp only [State.modifySearch, List.length_modify]
    exact hok.numsearches
  · simp only [State.modifySearch, List.length_modify]
    exact hok.numsearches_le

theorem restart_ok (now : ℤ) {sr : Search} (hok : SearchOk sr) : SearchOk (sr.restart now) := by
  have hsub : ∀ n ∈ (sr.restart now).nodes, ∃ m ∈ sr.nodes, m.ss = n.ss ∧ n.token = [] := by
    intro n hn
    obtain ⟨m, hm, rfl⟩ := List.mem_map.mp hn
    exact ⟨m, (List.mem_filter.mp hm).1, rfl, rfl⟩
  refine ⟨?_, ?_, fun n hn => ?_, fun n hn => ?_⟩
  · simp only [Search.restart, List.map_map]
    exact hok.sorted.sublist (List.filter_sublist.map _)
  · simp only [Search.restart, List.length_map]
    exact (List.length_filter_le ..).trans hok.length_le
  · obtain ⟨m, hm, hss, -⟩ := hsub n hn
    rw [← hss]
    exact hok.family m hm
  · obtain ⟨m, hm, -, htok⟩ := hsub n hn
    rw [htok]
    exact Nat.zero_lt_succ _

theorem empty_ok (sr : Search) (hnil : sr.nodes = []) : SearchOk sr := by
  refine ⟨?_, ?_, ?_, ?_⟩
  · rw [hnil]
    exact List.Pairwise.nil
  · rw [hnil]
    exact Nat.zero_le _
  · rw [hnil]
    simp
  · rw [hnil]
    simp

theorem insertSearchBucket_tends (now : ℤ) (sr : Search) (b : Bucket) :
    Tends sr (insertSearchBucket now sr b) := by
  unfold insertSearchBucket
  generalize b.nodes = ns
  induction ns generalizing sr with
  | nil => exact Tends.refl sr
  | cons n ns ih => exact insertSearchNode_tends.trans (ih _)

theorem insertBucketAt_tends (sr : Search) (i : Option ℕ) :
    Tends sr (insertBucketAt d af sr i) := by
  unfold insertBucketAt
  split
  · exact insertSearchBucket_tends ..
  · exact Tends.refl sr

theorem fillSearch_tends (d : State) (af : Af) (sr : Search) (i : ℕ) :
    Tends sr (fillSearch d sr af i) := by
  have hmore : ∀ sr : Search, Tends sr (if sr.nodes.length < searchNodes then
      insertBucketAt d af (insertBucketAt d af sr (some (i + 1))) (previousBucket i) else sr) := by
    intro sr
    split
    · exact (insertBucketAt_tends ..).trans (insertBucketAt_tends ..)
    · exact Tends.refl sr
  have hown : ∀ sr : Search, Tends sr (if sr.nodes.length < searchNodes then
      insertBucketAt d af sr (findBucket d.myid (d.table af)) else sr) := by
    intro sr
    split
    · exact insertBucketAt_tends ..
    · exact Tends.refl sr
  exact ((insertBucketAt_tends sr (some i)).trans (hmore _)).trans (hown _)

theorem foldl_olderDone (ps : List (Search × ℕ)) (oldest : Option (ℕ × Search)) :
    ps.foldl olderDone oldest = none ↔ oldest = none ∧ ∀ p ∈ ps, p.1.done = false := by
  induction ps generalizing oldest with
  | nil => simp
  | cons p ps ih =>
    rw [List.foldl_cons, ih]
    cases hdone : p.1.done with
    | false => simp [olderDone, hdone]
    | true =>
      have hsome : olderDone oldest p ≠ none := by
        unfold olderDone
        rw [if_pos hdone]
        split
        · simp
        · split
          · simp
          · simp
      refine iff_of_false (fun hand => hsome hand.1) fun hand => ?_
      have hfalse := hand.2 p (List.mem_cons_self ..)
      rw [hdone] at hfalse
      exact absurd hfalse (by simp)

/-- The oldest of the searches that are done, if there are any. -/
theorem oldestDone_none (searches : List Search) :
    oldestDone searches = none ↔ ∀ sr ∈ searches, sr.done = false := by
  unfold oldestDone
  rw [foldl_olderDone]
  constructor
  · intro hall sr hsr
    obtain ⟨i, hi⟩ := List.mem_iff_getElem?.mp hsr
    exact hall.2 (sr, i) (List.mk_mem_zipIdx_iff_getElem?.mpr hi)
  · intro hall
    exact ⟨rfl, fun p hp => hall p.1 (List.fst_mem_of_mem_zipIdx hp)⟩

/-- There is a slot if a search is done, or if there is room for another one and memory. -/
theorem newSearch_spec (hok : StateOk d) (enough : Bool) :
    (newSearch enough d = none ↔ (∀ sr ∈ d.searches, sr.done = false) ∧
      (d.searches.length = dhtMaxSearches ∨ enough = false)) ∧
      ∀ si d', newSearch enough d = some (si, d') → After [] d d' := by
  have hnum := hok.numsearches
  have hle := hok.numsearches_le
  have hroom : ¬ (d.numsearches < dhtMaxSearches ∧ enough = true) ↔
      d.searches.length = dhtMaxSearches ∨ enough = false := by
    rw [Classical.not_and_iff_not_or_not, Bool.not_eq_true]
    exact or_congr_left (by omega)
  unfold newSearch
  split
  · next i oldest hold =>
    obtain ⟨hdone, -⟩ := Option.filter_eq_some_iff.mp hold
    refine ⟨iff_of_false (by simp) fun hand => ?_, fun si d' heq => ?_⟩
    · rw [(oldestDone_none d.searches).mpr hand.1] at hdone
      exact absurd hdone (by simp)
    · obtain ⟨-, rfl⟩ := Prod.mk.inj (Option.some.inj heq)
      exact After.refl hok
  · split
    · next hfree =>
      refine ⟨iff_of_false (by simp) fun hand => hroom.mpr hand.2 hfree, fun si d' heq => ?_⟩
      obtain ⟨-, rfl⟩ := Prod.mk.inj (Option.some.inj heq)
      refine ⟨⟨hok.inet, hok.inet6, fun sr hsr => ?_, ?_, ?_, hok.storage⟩, rfl, rfl, rfl, rfl,
        rfl, rfl, rfl, rfl, rfl, rfl⟩
      · rcases List.mem_cons.mp hsr with rfl | hsr
        · exact empty_ok _ rfl
        · exact hok.searches sr hsr
      · simp only [List.length_cons]
        omega
      · simp only [List.length_cons]
        omega
    · next htaken =>
      rw [Option.map_eq_none_iff, oldestDone_none]
      refine ⟨⟨fun hall => ⟨hall, hroom.mp htaken⟩, fun hand => hand.1⟩, fun si d' heq => ?_⟩
      obtain ⟨p, -, heq⟩ := Option.map_eq_some_iff.mp heq
      obtain ⟨-, rfl⟩ := Prod.mk.inj heq
      exact After.refl hok

/-- There is no room for a search for `id`. -/
def NoSlot (d : State) (enough : Bool) (id : NodeId) (af : Af) : Prop :=
  (∀ sr ∈ d.searches, sr.af = af → sr.id ≠ id) ∧ (∀ sr ∈ d.searches, sr.done = false) ∧
    (d.searches.length = dhtMaxSearches ∨ enough = false)

theorem openSearch_spec (hok : StateOk d) (enough : Bool) (id : NodeId) (af : Af) :
    (openSearch enough d id af = none ↔ NoSlot d enough id af) ∧
      ∀ si d', openSearch enough d id af = some (si, d') → After [] d d' := by
  unfold openSearch NoSlot
  cases hfind : d.searches.findIdx? fun sr => sr.af = af ∧ idCmp sr.id id = .eq with
  | some si =>
    obtain ⟨hlt, hp, -⟩ := List.findIdx?_eq_some_iff_getElem.mp hfind
    obtain ⟨haf, hid⟩ := of_decide_eq_true hp
    refine ⟨iff_of_false (by simp) fun hand => ?_, fun si' d' heq => ?_⟩
    · exact hand.1 _ (List.getElem_mem hlt) haf (idCmp_eq.mp hid)
    · obtain ⟨-, rfl⟩ := Prod.mk.inj (Option.some.inj heq)
      exact modifySearch_after hok si fun sr hsr => restart_ok d.now hsr
  | none =>
    have hnone : ∀ sr ∈ d.searches, sr.af = af → sr.id ≠ id := by
      intro sr hsr haf hid
      have hp := List.findIdx?_eq_none_iff.mp hfind sr hsr
      exact absurd ⟨haf, idCmp_eq.mpr hid⟩ (of_decide_eq_false hp)
    obtain ⟨hslot, hafter⟩ := newSearch_spec hok enough
    cases hnew : newSearch enough d with
    | none => exact ⟨iff_of_true rfl ⟨hnone, hslot.mp hnew⟩, fun si d' heq => absurd heq (by simp)⟩
    | some p =>
      obtain ⟨si, d₁⟩ := p
      refine ⟨iff_of_false (by simp) fun hand => ?_, fun si' d' heq => ?_⟩
      · rw [hslot.mpr hand.2] at hnew
        exact absurd hnew (by simp)
      · obtain ⟨-, rfl⟩ := Prod.mk.inj (Option.some.inj heq)
        have hfirst := hafter si d₁ hnew
        have hid : After [] d₁ { d₁ with searchId := d₁.searchId + 1 } :=
          Kept.after ⟨rfl, rfl, rfl, rfl, rfl, rfl, rfl, rfl, rfl, rfl, rfl, rfl, fun _ => rfl,
            forall₂_tends_refl _⟩ hfirst.ok
        exact (hfirst.trans hid).trans (modifySearch_after hid.ok si fun sr _ => empty_ok _ rfl)

theorem beginSearch_after (hok : StateOk d) (si : ℕ) (port : UInt16) (af : Af) (i : ℕ) :
    After [] d (beginSearch d si port af i) := by
  have hfill := modifySearch_after hok si fun sr hsr =>
    (fillSearch_tends d af { sr with port := port } i).ok
      ⟨hsr.sorted, hsr.length_le, hsr.family, hsr.token⟩
  have hstep := hfill.trans ((searchStep_quiet si).after hfill.ok)
  refine hstep.trans (Kept.after ?_ hstep.ok)
  exact ⟨rfl, rfl, rfl, rfl, rfl, rfl, rfl, rfl, rfl, rfl, rfl, rfl, fun _ => rfl,
    forall₂_tends_refl _⟩

/-- A search can always be begun, but for one that finds no slot: the program ends then. -/
theorem dhtSearch_spec (hok : StateOk d) (enough : Bool) (id : NodeId) (port : UInt16) (af : Af) :
    (dhtSearch enough d id port af = none ↔
      findBucket id (d.table af) ≠ none ∧ NoSlot d enough id af) ∧
      ∀ r, dhtSearch enough d id port af = some r → After [] d r.2 := by
  unfold dhtSearch
  cases hfind : findBucket id (d.table af) with
  | none =>
    refine ⟨iff_of_false (by simp) fun hand => hand.1 rfl, fun r heq => ?_⟩
    rw [← Option.some.inj heq]
    exact After.refl hok
  | some i =>
    have hevents : After [] d (answerLocally d id) :=
      Quiet.after ⟨rfl, fun _ => rfl, forall₂_tends_refl _⟩ hok
    obtain ⟨hslot, hafter⟩ := openSearch_spec hevents.ok enough id af
    cases hopen : openSearch enough (answerLocally d id) id af with
    | none =>
      refine ⟨iff_of_true ?_ ⟨by simp, hslot.mp hopen⟩, fun r heq => ?_⟩
      · simp only [Option.bind_eq_bind, Option.bind_none]
      · exact absurd heq (by simp)
    | some p =>
      obtain ⟨si, d₁⟩ := p
      simp only [Option.bind_eq_bind, Option.bind_some, Option.pure_def]
      refine ⟨iff_of_false (by simp) fun hand => ?_, fun r heq => ?_⟩
      · rw [hslot.mpr hand.2] at hopen
        exact absurd hopen (by simp)
      · rw [← Option.some.inj heq]
        exact (hevents.trans (hafter si d₁ hopen)).trans
          (beginSearch_after (hafter si d₁ hopen).ok si port af i)

end Search

section Start

variable {d d' : State}

/-- A table of one bucket, for all ids. -/
theorem TableOk.fresh (myid : NodeId) (af : Af) (socket : Bool) :
    TableOk myid af (freshTable socket) := by
  cases socket with
  | false => exact TableOk.nil myid af
  | true =>
    have hzero : zeroes.value = 0 := by decide
    have hfirsts : firsts (freshTable true) = [0] := by
      rw [← hzero]
      rfl
    have hlocate : ∀ v, locate v [0] = some 0 := fun v => rfl
    refine ⟨fun _ => ?_, fun i b hb => ?_⟩
    · rw [hfirsts]
      have hlt := myid.value_lt
      refine ⟨rfl, List.pairwise_singleton _ _, by decide, fun m hm => ?_, fun a b => ?_⟩
      · obtain rfl : 0 = m := Option.some.inj hm
        have hdiv : myid.value / 2 ^ ownWidth [0] = 0 := Nat.div_eq_of_lt hlt
        rw [hdiv]
        refine ⟨by simp, ?_⟩
        rw [Nat.zero_add, Nat.one_mul]
        rfl
      · rw [hlocate, hlocate]
        simp
    · obtain ⟨hlt, rfl⟩ := List.getElem?_eq_some_iff.mp hb
      obtain rfl : i = 0 := Nat.lt_one_iff.mp hlt
      rw [hfirsts]
      refine ⟨by simp [freshTable], by simp [freshTable], List.nodup_nil, rfl,
        by simp [freshTable], ?_⟩
      intro id _
      simp [freshTable, roomOf]

/-- What comes out of a successful start. -/
structure Started (e : Surroundings) (id : NodeId) (d : State) : Prop where
  ok : StateOk d
  now : d.now = e.now
  myid : d.myid = id
  tokens : d.tokens = (maxTokenBucketTokens, e.now)
  storage : d.storage = []

theorem initState_started (d : State) (e : Surroundings) (socket socket6 : Bool) (id : NodeId)
    (v : Option (Vector UInt8 4)) : Started e id (initState d e socket socket6 id v) := by
  have hzero : Started e id (zeroState d e socket socket6 id v) :=
    ⟨⟨TableOk.fresh id .inet socket, TableOk.fresh id .inet6 socket6, by simp [zeroState], rfl,
      Nat.zero_le _, ⟨List.nodup_nil, by simp [zeroState], rfl, Nat.zero_le _⟩⟩, rfl, rfl, rfl, rfl⟩
  have hdraw : ∀ {d d' : State}, Started e id d → Drawn d d' → Started e id d' := by
    intro d d' hd hdraw
    obtain ⟨rs, rfl⟩ := hdraw
    exact ⟨⟨hd.ok.inet, hd.ok.inet6, hd.ok.searches, hd.ok.numsearches, hd.ok.numsearches_le,
      hd.ok.storage⟩, hd.now, hd.myid, hd.tokens, hd.storage⟩
  have htwo := hdraw (hdraw hzero random_drawn) random_drawn
  exact ⟨⟨htwo.ok.inet, htwo.ok.inet6, htwo.ok.searches, htwo.ok.numsearches,
    htwo.ok.numsearches_le, htwo.ok.storage⟩, htwo.now, htwo.myid, htwo.tokens, htwo.storage⟩

theorem dhtInit_spec {e : Surroundings} {socket socket6 : Bool} {id : NodeId}
    {v : Option (Vector UInt8 4)} (hrc : (dhtInit d e socket socket6 id v).1 = 1) :
    Started e id (dhtInit d e socket socket6 id v).2 ∧
      (dhtInit d e socket socket6 id v).2.expireStuffTime < e.now + 360 := by
  obtain ⟨hok, hnow, hmyid, htokens, hstorage⟩ := initState_started d e socket socket6 id v
  obtain ⟨hrotate, hkept, -⟩ := rotate_upheld hok e
  have hsockets : Started e id
      { (rotate (initState d e socket socket6 id v) e).2 with
        socket := socket, socket6 := socket6 } :=
    ⟨⟨hrotate.ok.inet, hrotate.ok.inet6, hrotate.ok.searches, hrotate.ok.numsearches,
      hrotate.ok.numsearches_le, hrotate.ok.storage⟩, hrotate.now.trans hnow,
      hrotate.myid.trans hmyid, hrotate.tokens.trans htokens, hkept.trans hstorage⟩
  obtain ⟨hbuckets, hsame, -⟩ := expireBuckets_upheld hsockets.ok (Or.inl rfl)
  obtain ⟨hbuckets6, hsame6, -, hdue⟩ := expireBuckets_upheld hbuckets.ok (Or.inr rfl)
  rw [hbuckets.now, hsockets.now] at hdue
  have hboth := hbuckets.trans hbuckets6
  have hall : Started e id (expireBuckets (expireBuckets
      { (rotate (initState d e socket socket6 id v) e).2 with
        socket := socket, socket6 := socket6 } .inet) .inet6) :=
    ⟨hboth.ok, hboth.now.trans hsockets.now, hboth.myid.trans hsockets.myid,
      hboth.tokens.trans hsockets.tokens, (hsame6.trans hsame).trans hsockets.storage⟩
  unfold dhtInit at hrc ⊢
  split at hrc
  · exact absurd hrc (by simp)
  · next hfree =>
    rw [if_neg hfree]
    simp only at hrc ⊢
    split at hrc
    · exact absurd hrc (by simp)
    · next hrandom =>
      rw [if_neg hrandom]
      exact ⟨hall, hdue⟩

theorem dhtInsertNode_after {id : NodeId} {sa : Sockaddr} (hok : StateOk d) (hsa : sa.IsInet) :
    After [] d (dhtInsertNode d id sa).2 := by
  have hnode := newNode_after hok hsa id 0
  unfold dhtInsertNode
  cases sa with
  | inet addr port => exact hnode
  | inet6 addr port => exact hnode
  | other f => exact hsa.elim

/-- Whatever has been called before, the state is well. -/
theorem Reachable.ok (hd : Reachable d) : StateOk d := by
  have hdrawn : ∀ {d : State} (rs : List ℕ), StateOk d → StateOk { d with randoms := rs } := by
    intro d rs hok
    exact ⟨hok.inet, hok.inet6, hok.searches, hok.numsearches, hok.numsearches_le, hok.storage⟩
  induction hd with
  | init d e socket socket6 id v hrc => exact (dhtInit_spec hrc).1.ok
  | @call d d' c _ hc hrun ih =>
    cases c with
    | periodic e p =>
      obtain ⟨r, hr, rfl⟩ := Option.map_eq_some_iff.mp hrun
      rcases dhtPeriodic_spec ih e hc with ⟨packet, -, -, heq⟩ | ⟨tosleep, d₁, d₂, heq, -, hok, -⟩
      · rw [heq] at hr
        obtain rfl := Option.some.inj hr
        exact ready_ok ih e
      · rw [heq] at hr
        obtain rfl := Option.some.inj hr
        exact hok.ok
    | search randoms enough id port af =>
      obtain ⟨r, hr, rfl⟩ := Option.map_eq_some_iff.mp hrun
      exact ((dhtSearch_spec (hdrawn randoms ih) enough id port af).2 r hr).ok
    | insertNode randoms id sa =>
      obtain rfl := Option.some.inj hrun
      exact (dhtInsertNode_after (hdrawn randoms ih) hc).ok
    | pingNode sa =>
      obtain rfl := Option.some.inj hrun
      exact ((emit_quiet ..).after ih).ok
    | nodes af =>
      obtain rfl := Option.some.inj hrun
      exact ih
    | getNodes num num6 =>
      obtain rfl := Option.some.inj hrun
      exact ih

/-- A call ends the program only if it is a search for
which there is no slot, while there is a table to search in. -/
theorem call_none_iff (hok : StateOk d) {c : Call} (hc : c.IsInet) :
    c.run d = none ↔ ∃ randoms enough id port af, c = .search randoms enough id port af ∧
      d.table af ≠ [] ∧ NoSlot d enough id af := by
  cases c with
  | periodic e p =>
    refine iff_of_false (fun hnone => ?_) (by simp)
    have hnone := Option.map_eq_none_iff.mp hnone
    rcases dhtPeriodic_spec hok e hc with ⟨packet, -, -, heq⟩ | ⟨tosleep, d₁, d₂, heq, -⟩
    · rw [heq] at hnone
      exact absurd hnone (by simp)
    · rw [heq] at hnone
      exact absurd hnone (by simp)
  | search randoms enough id port af =>
    have hdrawn : StateOk { d with randoms := randoms } :=
      ⟨hok.inet, hok.inet6, hok.searches, hok.numsearches, hok.numsearches_le, hok.storage⟩
    rw [Call.run, Option.map_eq_none_iff, (dhtSearch_spec hdrawn enough id port af).1,
      findBucket_ne_none]
    constructor
    · intro hslot
      exact ⟨randoms, enough, id, port, af, rfl, hslot⟩
    · rintro ⟨randoms', enough', id', port', af', heq, hslot⟩
      obtain ⟨rfl, rfl, rfl, rfl, rfl⟩ := Call.search.inj heq
      exact hslot
  | insertNode randoms id sa => exact iff_of_false (by simp [Call.run]) (by simp)
  | pingNode sa => exact iff_of_false (by simp [Call.run]) (by simp)
  | nodes af => exact iff_of_false (by simp [Call.run]) (by simp)
  | getNodes num num6 => exact iff_of_false (by simp [Call.run]) (by simp)

/-- The tables, the searches and the storage of a node are well whatever has been called
and whatever packets have come in, no call but a search without a slot ends it, and no
more addresses are told than there is room for. -/
theorem node_survives (hd : Reachable d) :
    StateOk d ∧ (∀ c : Call, c.IsInet → (c.run d = none ↔
      ∃ randoms enough id port af, c = .search randoms enough id port af ∧ d.table af ≠ [] ∧
        NoSlot d enough id af)) ∧
      ∀ num num6 : ℤ, Tells d .inet num (dhtGetNodes d num num6).1 ∧
        Tells d .inet6 num6 (dhtGetNodes d num num6).2 := by
  have hok := hd.ok
  exact ⟨hok, fun c hc => call_none_iff hok hc, fun num num6 =>
    ⟨goodAddresses_tells hok.inet num, goodAddresses_tells hok.inet6 num6⟩⟩

/-- A node that has just been started. -/
def freshNode : State :=
  (dhtInit .atLoad ⟨100, [4, 2], ⟨1, .fill 7⟩, .fill 0, .fill 0⟩ true true zeroes none).2

theorem freshNode_reachable : Reachable freshNode := Reachable.init _ _ _ _ _ _ (by decide)

/-- The addresses of other nodes. -/
def nodeAt (c : UInt8) : Sockaddr := .inet #v[10, 0, 0, c] #v[26, 226]

def otherNode : Sockaddr := nodeAt 1

/-- What is given to a call while the clock shows 200. -/
def laterOn : Surroundings := ⟨200, [], ⟨1, .fill 0⟩, .fill 0, .fill 0⟩

def pingPacket : Packet :=
  ⟨text "d1:ad2:id20:abcdefghij0123456789e1:q4:ping1:t2:aa1:y1:qe", 0, otherNode⟩

def pingCall : Call := .periodic laterOn (some pingPacket)

theorem pingCall_isInet : pingCall.IsInet := by
  intro packet hp
  obtain rfl := Option.some.inj hp
  exact True.intro

/-- The other node is heard of, and an id is searched for. -/
def firstCalls : List Call :=
  [pingCall, .search [] true (NodeId.ofBytes (text "zyxwvutsrq9876543210")) 0 .inet]

theorem firstCalls_isInet : ∀ c ∈ firstCalls, c.IsInet := by
  intro c hc
  rcases List.mem_cons.mp hc with rfl | hc
  · exact pingCall_isInet
  · obtain rfl := List.mem_singleton.mp hc
    exact True.intro

theorem node_survives_first : ∃ d : State,
    ((nodesOf d.buckets).length = 1 ∧ d.searches.length = 1 ∧ d.sent.length = 3) ∧
      StateOk d ∧ (∀ c : Call, c.IsInet → (c.run d = none ↔
        ∃ randoms enough id port af, c = .search randoms enough id port af ∧ d.table af ≠ [] ∧
          NoSlot d enough id af)) ∧
        ∀ num num6 : ℤ, Tells d .inet num (dhtGetNodes d num num6).1 ∧
          Tells d .inet6 num6 (dhtGetNodes d num num6).2 := by
  have hsome : (firstCalls.foldlM Call.run freshNode).map
      (fun d => ((nodesOf d.buckets).length, d.searches.length, d.sent.length)) =
        some (1, 1, 3) := by
    decide +kernel
  obtain ⟨d, heq, hsizes⟩ := Option.map_eq_some_iff.mp hsome
  simp only [Prod.mk.injEq] at hsizes
  exact ⟨d, hsizes,
    node_survives ((Run.of_foldlM firstCalls_isInet heq).reachable freshNode_reachable)⟩

end Start

end SeaStore.Dht
