import SeaStore.Dht.NodeRun
import SeaStore.Dht.Rate

/-!
What a call leaves for the ones that come after it: a token less if a request
has come in, an address on the blacklist, a peer in the storage, and the times
of the clock and of the next expiry. Runs of calls, one after another.
-/
namespace SeaStore.Dht

open Posix Controller

namespace Call

/-- What the clock shows in a call; only one looks at it. -/
def time : Call → Option ℤ
  | .periodic e _ => some e.now
  | _ => none

/-- The packet that is looked at, in the state in which it is. -/
def heard (d : State) : Call → Option (State × Surroundings × Packet)
  | .periodic e p => (heardPacket p).map fun packet => (ready d e, e, packet)
  | _ => none

def asks (d : State) (c : Call) : Bool := (c.heard d).any fun h => requests h.1 h.2.2

def isAdmitted (d : State) (c : Call) : Bool := (c.heard d).any fun h => admits h.1 h.2.2

def snubbed (d : State) (c : Call) : List Sockaddr :=
  match c.heard d with
  | some (d, _, p) => snubs d p
  | none => []

def announced (d : State) (c : Call) : Option (NodeId × Bytes × UInt16) :=
  (c.heard d).bind fun h => announces h.1 h.2.1 h.2.2

/-- The call has come to its end: it is one of `dht_periodic`, and its packet is terminated. -/
def upkept (d : State) : Call → Bool
  | .periodic e p => (dhtPeriodic d e p).any fun r => r.1 = 1
  | _ => false

/-- The clock after a call. -/
def clock (d : State) (c : Call) : ℤ := c.time.getD d.now

/-- Peers are expired in this call. -/
def expires (d : State) (c : Call) : Bool := c.upkept d && d.expireStuffTime ≤ c.clock d

end Call

/-- What is stored after a call. -/
noncomputable def stored (d : State) (c : Call) : Registry.Entries NodeId (Bytes × UInt16) :=
  let told := afterAnnounce { d with now := c.clock d } (c.announced d)
  if c.expires d then Registry.expire told (c.clock d - 32 * 60) else told

structure Step (d : State) (c : Call) (d' : State) : Prop where
  ok : StateOk d'
  now : d'.now = c.clock d
  myid : d'.myid = d.myid
  tokens : d'.tokens = if c.asks d then
    (Rate.take wrapInt maxTokenBucketTokens 100 (c.clock d) d.tokens).2 else d.tokens
  ring : d'.ring = (c.snubbed d).foldl snub d.ring
  registry : registry d'.storage = stored d c
  expired : c.expires d = true →
    d'.now + 120 ≤ d'.expireStuffTime ∧ d'.expireStuffTime < d'.now + 360
  early : c.expires d = false → d'.expireStuffTime = d.expireStuffTime

section Step

variable {d d' : State} {c : Call}

theorem tokenBucket_take (d : State) :
    ((tokenBucket d).1, (tokenBucket d).2.tokens) =
      Rate.take wrapInt maxTokenBucketTokens 100 d.now d.tokens := by
  have hzero : ∀ n : Int32, n.toInt = 0 ↔ n = 0 := fun n => Int32.toInt_inj (y := 0)
  have hone : ∀ n : Int32, (n - 1).toInt = wrapInt (n.toInt - 1) := by
    intro n
    rw [wrapInt, Int32.toInt_sub, Int32.toInt_ofInt]
    rfl
  unfold tokenBucket Rate.take Rate.fill State.tokens
  by_cases hempty : d.tokenBucketTokens = 0
  · simp only [if_pos hempty, (hzero _).mpr hempty, if_true]
    by_cases hnone : Int32.ofInt (min maxTokenBucketTokens (100 * (d.now - d.tokenBucketTime))) = 0
    · have hnothing : wrapInt (min maxTokenBucketTokens (100 * (d.now - d.tokenBucketTime))) = 0 :=
        (hzero _).mpr hnone
      rw [if_pos hnone, if_pos hnothing]
      rfl
    · have hsome : wrapInt (min maxTokenBucketTokens (100 * (d.now - d.tokenBucketTime))) ≠ 0 :=
        mt (hzero _).mp hnone
      rw [if_neg hnone, if_neg hsome, hone]
      rfl
  · simp only [if_neg hempty, if_neg (mt (hzero _).mp hempty), hone]

theorem admits_eq (d : State) (p : Packet) :
    admits d p =
      (requests d p && (Rate.take wrapInt maxTokenBucketTokens 100 d.now d.tokens).1) := by
  rw [← tokenBucket_take]
  rfl

theorem spent_tokens (d : State) (p : Packet) :
    (spent d p).tokens = if requests d p then
      (Rate.take wrapInt maxTokenBucketTokens 100 d.now d.tokens).2 else d.tokens := by
  rw [← tokenBucket_take]
  unfold spent
  split
  · rfl
  · rfl

/-- A call that only leaves what is not of interest here. -/
theorem After.step (h : After [] d d') (htime : c.time = none) (hheard : c.heard d = none)
    (hupkept : c.upkept d = false) : Step d c d' := by
  have hclock : c.clock d = d.now := by rw [Call.clock, htime, Option.getD_none]
  have hexpires : c.expires d = false := by rw [Call.expires, hupkept, Bool.false_and]
  have hasks : c.asks d = false := by rw [Call.asks, hheard, Option.any_none]
  have hannounced : c.announced d = none := by rw [Call.announced, hheard, Option.bind_none]
  refine ⟨h.ok, h.now.trans hclock.symm, h.myid, ?_, ?_, ?_, ?_, fun _ => h.expireStuffTime⟩
  · rw [hasks, if_neg Bool.false_ne_true]
    exact h.tokens
  · rw [Call.snubbed, hheard]
    exact h.ring
  · rw [stored, hexpires, hannounced, if_neg Bool.false_ne_true, h.storage]
    rfl
  · rw [hexpires]
    exact fun hfalse => absurd hfalse Bool.false_ne_true

theorem understood_behind {p : Packet} (hbehind : p.behind ≠ 0) (d : State) :
    understood d p = none := by
  unfold understood
  rw [if_pos (by simp [hbehind])]

/-- What the packet of a call has left before anything else is done. -/
structure Told (d : State) (e : Surroundings) (p : Option Packet) (d₁ : State) : Prop where
  now : d₁.now = e.now
  myid : d₁.myid = d.myid
  expireStuffTime : d₁.expireStuffTime = d.expireStuffTime
  tokens : d₁.tokens = if (Call.periodic e p).asks d then
    (Rate.take wrapInt maxTokenBucketTokens 100 e.now d.tokens).2 else d.tokens
  ring : d₁.ring = ((Call.periodic e p).snubbed d).foldl snub d.ring
  registry : registry d₁.storage =
    afterAnnounce { d with now := e.now } ((Call.periodic e p).announced d)

/-- Nothing is left of a packet that is not understood. -/
theorem told_unheard {e : Surroundings} {p : Option Packet}
    (hund : ∀ h ∈ (Call.periodic e p).heard d, understood h.1 h.2.2 = none) :
    Told d e p (ready d e) := by
  obtain ⟨hasks, hsnubbed, hannounced⟩ : (Call.periodic e p).asks d = false ∧
      (Call.periodic e p).snubbed d = [] ∧ (Call.periodic e p).announced d = none := by
    unfold Call.asks Call.snubbed Call.announced
    cases hheard : (Call.periodic e p).heard d with
    | none => exact ⟨rfl, rfl, rfl⟩
    | some h =>
      obtain ⟨d₀, e₀, packet⟩ := h
      have hnone : understood d₀ packet = none := hund _ hheard
      refine ⟨?_, ?_, ?_⟩
      · rw [Option.any_some, requests, hnone, Option.any_none]
      · simp only [snubs, hnone, Option.any_none, Bool.false_eq_true, if_false]
      · rw [Option.bind_some, announces, hnone]
  refine ⟨rfl, rfl, rfl, ?_, ?_, ?_⟩
  · rw [hasks]
    rfl
  · rw [hsnubbed]
    rfl
  · rw [hannounced]
    rfl

theorem Received.told {e : Surroundings} {p : Option Packet} {d₁ : State}
    (h : Received d e p d₁) : Told d e p d₁ := by
  cases hheard : heardPacket p with
  | none =>
    rw [h.nothing hheard]
    refine told_unheard fun h hmem => ?_
    rw [Call.heard, hheard] at hmem
    exact absurd hmem (by simp)
  | some packet =>
    have hlabels : (Call.periodic e p).heard d = some (ready d e, e, packet) := by
      rw [Call.heard, hheard]
      rfl
    have hheard := h.packet packet hheard
    obtain ⟨tokens, time, hspent⟩ := spent_eq (ready d e) packet
    have htokens := spent_tokens (ready d e) packet
    refine ⟨?_, ?_, ?_, ?_, ?_, ?_⟩
    · rw [hheard.now, hspent]
      rfl
    · rw [hheard.myid, hspent]
      rfl
    · rw [hheard.expireStuffTime, hspent]
      rfl
    · rw [hheard.tokens, htokens, Call.asks, hlabels]
      rfl
    · rw [hheard.ring, Call.snubbed, hlabels, hspent]
      rfl
    · rw [hheard.registry, Call.announced, hlabels, hspent]
      rfl

/-- An unterminated packet: the call returns at once. -/
theorem periodic_step_behind (hok : StateOk d) {packet : Packet} (hp : packet ∈ p)
    (hbehind : packet.behind ≠ 0) (heq : dhtPeriodic d e p = some (-1, none, ready d e)) :
    Step d (.periodic e p) (ready d e) := by
  have hexpires : (Call.periodic e p).expires d = false := by
    rw [Call.expires, Call.upkept, heq]
    rfl
  have htold : Told d e p (ready d e) := by
    refine told_unheard fun h hmem => ?_
    obtain ⟨packet', hpacket, rfl⟩ := Option.map_eq_some_iff.mp hmem
    have hsame := (Option.filter_eq_some_iff.mp hpacket).1
    rw [hp] at hsame
    obtain rfl := Option.some.inj hsame
    exact understood_behind hbehind _
  refine ⟨ready_ok hok e, htold.now, htold.myid, htold.tokens, htold.ring, ?_, ?_, fun _ => rfl⟩
  · rw [stored, hexpires, if_neg Bool.false_ne_true]
    exact htold.registry
  · rw [hexpires]
    exact fun hfalse => absurd hfalse Bool.false_ne_true

/-- Any other call of the kind looks after the tables once the packet has been heard. -/
theorem periodic_step_upkept {tosleep : ℤ} {d₁ : State}
    (heq : dhtPeriodic d e p = some (1, some tosleep, d')) (htold : Told d e p d₁)
    (hupheld : Upheld d₁ d') (hregistry : registry d'.storage = dueRegistry d₁)
    (hscheduled : Scheduled d₁ d') : Step d (.periodic e p) d' := by
  have hexpires : (Call.periodic e p).expires d = decide (d₁.expireStuffTime ≤ d₁.now) := by
    rw [Call.expires, Call.upkept, heq, htold.expireStuffTime, htold.now]
    rfl
  refine ⟨hupheld.ok, hupheld.now.trans htold.now, hupheld.myid.trans htold.myid,
    hupheld.tokens.trans htold.tokens, hupheld.ring.trans htold.ring, ?_, ?_, ?_⟩
  · rw [hregistry, dueRegistry, stored, hexpires, htold.registry, htold.now]
    by_cases hdue : d₁.expireStuffTime ≤ e.now
    · rw [if_pos hdue, decide_eq_true hdue, if_pos rfl]
      rfl
    · rw [if_neg hdue, decide_eq_false hdue, if_neg Bool.false_ne_true]
      rfl
  · intro hdue
    rw [hexpires, decide_eq_true_eq] at hdue
    rw [hupheld.now]
    exact hscheduled.due hdue
  · intro hearly
    rw [hexpires, decide_eq_false_iff_not] at hearly
    rw [hscheduled.early (not_le.mp hearly), htold.expireStuffTime]

/-- One call, whatever it is. -/
theorem Call.run_step (hok : StateOk d) (hc : c.IsInet) (hrun : c.run d = some d') :
    Step d c d' := by
  have hdrawn : ∀ rs : List ℕ, After [] d { d with randoms := rs } := fun rs =>
    Kept.after ⟨rfl, rfl, rfl, rfl, rfl, rfl, rfl, rfl, rfl, rfl, rfl, rfl, fun _ => rfl,
      forall₂_tends_refl _⟩ hok
  cases c with
  | periodic e p =>
    obtain ⟨r, hr, rfl⟩ := Option.map_eq_some_iff.mp hrun
    rcases dhtPeriodic_spec hok e hc with ⟨packet, hp, hbehind, heq⟩ |
      ⟨tosleep, d₁, d₂, heq, hreceived, hupheld, hregistry, hscheduled⟩
    · rw [heq] at hr
      obtain rfl := Option.some.inj hr
      exact periodic_step_behind hok hp hbehind heq
    · rw [heq] at hr
      obtain rfl := Option.some.inj hr
      exact periodic_step_upkept heq hreceived.told hupheld hregistry hscheduled
  | search randoms enough id port af =>
    obtain ⟨r, hr, rfl⟩ := Option.map_eq_some_iff.mp hrun
    exact ((hdrawn randoms).trans
      ((dhtSearch_spec (hdrawn randoms).ok enough id port af).2 r hr)).step rfl rfl rfl
  | insertNode randoms id sa =>
    obtain rfl := Option.some.inj hrun
    exact ((hdrawn randoms).trans (dhtInsertNode_after (hdrawn randoms).ok hc)).step rfl rfl rfl
  | pingNode sa =>
    obtain rfl := Option.some.inj hrun
    exact ((emit_quiet ..).after hok).step rfl rfl rfl
  | nodes af =>
    obtain rfl := Option.some.inj hrun
    exact (After.refl hok).step rfl rfl rfl
  | getNodes num num6 =>
    obtain rfl := Option.some.inj hrun
    exact (After.refl hok).step rfl rfl rfl

end Step

/-- The clock, which shows `t`, is not set back. -/
def Steady : ℤ → List Call → Prop
  | _, [] => True
  | t, c :: cs => t ≤ c.time.getD t ∧ Steady (c.time.getD t) cs

section Run

variable {d d' d'' : State} {c : Call} {cs cs' : List Call}

theorem Run.ok (hok : StateOk d) (hrun : Run d cs d') : StateOk d' := by
  induction hrun with
  | nil => exact hok
  | @cons d d' d'' c cs hc hrun _ ih => exact ih (c.run_step hok hc hrun).ok

theorem Run.append (hrun : Run d cs d') (hrun' : Run d' cs' d'') : Run d (cs ++ cs') d'' := by
  induction hrun with
  | nil => exact hrun'
  | cons hc hstep _ ih => exact Run.cons hc hstep (ih hrun')

theorem Run.now_le (hok : StateOk d) (hrun : Run d cs d') (hsteady : Steady d.now cs) :
    d.now ≤ d'.now := by
  induction hrun with
  | nil => exact le_refl _
  | @cons d d' d'' c cs hc hrun _ ih =>
    have hstep := c.run_step hok hc hrun
    obtain ⟨hle, hrest⟩ := hsteady
    have hnow : d'.now = c.time.getD d.now := hstep.now
    rw [← hnow] at hle hrest
    exact hle.trans (ih hstep.ok hrest)

end Run

end SeaStore.Dht
