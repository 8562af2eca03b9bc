import SeaStore.Dht.Traces

/-!
Limits on what others can make the node do, over all of its runs: how many of
their requests are answered, as long as the clock is not set back, and how long
a sender of broken replies is not heard.
-/
namespace SeaStore.Dht

open Posix Controller

/-- The times of the requests in a run of calls. -/
def asked : State → List Call → List ℤ
  | _, [] => []
  | d, c :: cs =>
    (if c.asks d then [c.clock d] else []) ++ ((c.run d).map fun d' => asked d' cs).getD []

/-- How many of them there are tokens for. -/
def admitted : State → List Call → ℕ
  | _, [] => 0
  | d, c :: cs =>
    (if c.isAdmitted d then 1 else 0) + ((c.run d).map fun d' => admitted d' cs).getD 0

/-- Who is blacklisted in a run of calls. -/
def snubbedIn : State → List Call → List Sockaddr
  | _, [] => []
  | d, c :: cs => c.snubbed d ++ ((c.run d).map fun d' => snubbedIn d' cs).getD []

/-- The packet of the call asks for something, and the call does what it would not do without
the packet, the tokens left aside. -/
def Call.Serves (d : State) : Call → Prop
  | .periodic e (some p) => p.behind = 0 ∧
    (∃ kind m, parseMessage p.bytes = .ok (kind, m) ∧ kind ≠ .reply) ∧
      ∀ tokens time, dhtPeriodic d e (some p) ≠
        dhtPeriodic { d with tokenBucketTokens := tokens, tokenBucketTime := time } e none
  | _ => False

open Classical in
/-- The requests that are served in a run of calls. -/
noncomputable def served : State → List Call → ℕ
  | _, [] => 0
  | d, c :: cs =>
    (if c.Serves d then 1 else 0) + ((c.run d).map fun d' => served d' cs).getD 0

/-- A message in the call is handed on, for whatever tokens there are. -/
def Call.Handles (d : State) : Call → Prop
  | .periodic e p => ∀ packet kind m, heardPacket p = some packet →
    understood (ready d e) packet = some (kind, m) → ∃ tokens time,
      receive (ready d e) e packet =
        (handle { ready d e with tokenBucketTokens := tokens, tokenBucketTime := time } e kind m
          packet.sa).map some
  | _ => True

/-- Every message of a run is. -/
def HandlesAll : State → List Call → Prop
  | _, [] => True
  | d, c :: cs => c.Handles d ∧ ∀ d', c.run d = some d' → HandlesAll d' cs

section Tokens

variable {d d' : State} {c : Call} {cs : List Call}

/-- The numbers of a bucket that is not overdrawn are numbers of the type. -/
theorem wrapInt_exact {lo hi : ℤ} (hlo : -2 ^ 31 ≤ lo) (hhi : hi < 2 ^ 31) :
    Rate.Exact wrapInt lo hi := by
  intro x hx hx'
  exact Int32.toInt_ofInt_of_le (hlo.trans hx) (lt_of_le_of_lt hx' hhi)

theorem tokens_exact : Rate.Exact wrapInt 0 maxTokenBucketTokens :=
  wrapInt_exact (by decide) (by decide)

theorem Call.isAdmitted_eq (d : State) (c : Call) : c.isAdmitted d =
    (c.asks d && (Rate.take wrapInt maxTokenBucketTokens 100 (c.clock d) d.tokens).1) := by
  unfold Call.isAdmitted Call.asks
  cases c with
  | periodic e p =>
    have hheard : (Call.periodic e p).heard d =
        (heardPacket p).map fun packet => (ready d e, e, packet) := rfl
    rw [hheard]
    cases heardPacket p with
    | none => rfl
    | some packet =>
      simp only [Option.map_some, Option.any_some, admits_eq]
      rfl
  | search randoms enough id port af => rfl
  | insertNode randoms id sa => rfl
  | pingNode sa => rfl
  | nodes af => rfl
  | getNodes num num6 => rfl

theorem understood_parse {p : Packet} {kind : Kind} {m : Message}
    (hund : understood d p = some (kind, m)) : parseMessage p.bytes = .ok (kind, m) := by
  unfold understood at hund
  split at hund
  · exact absurd hund (by simp)
  · split at hund
    · exact absurd hund (by simp)
    · next kind' m' hparse =>
      split at hund
      · exact absurd hund (by simp)
      · rw [hparse, Option.some.inj hund]

/-- A request that there is no token for is not looked at any further. -/
theorem receive_unserved (e : Surroundings) {p : Packet} (hbehind : p.behind = 0)
    (hrequest : ∀ kind m, parseMessage p.bytes = .ok (kind, m) → kind ≠ .reply)
    (hnot : admits d p = false) : ∃ tokens time,
      receive d e p =
        some (some { d with tokenBucketTokens := tokens, tokenBucketTime := time }) := by
  rw [receive_eq d e p fun _ => parse_unparseable, if_neg (not_not_intro hbehind)]
  split
  · exact ⟨d.tokenBucketTokens, d.tokenBucketTime, rfl⟩
  · cases hund : understood d p with
    | none => exact ⟨d.tokenBucketTokens, d.tokenBucketTime, rfl⟩
    | some r =>
      obtain ⟨kind, m⟩ := r
      have hkind := hrequest kind m (understood_parse hund)
      have hrequests : requests d p = true := by
        rw [requests, hund, Option.any_some]
        exact decide_eq_true hkind
      have hnone : (tokenBucket d).1 = false := by
        rw [admits, hrequests, Bool.true_and] at hnot
        exact hnot
      obtain ⟨tokens, time, hspent⟩ := spent_eq d p
      refine ⟨tokens, time, ?_⟩
      simp only [hkind, hnone, decide_false, Bool.or_false, Bool.false_eq_true, if_false, hspent]

theorem receiveAny_eq (d : State) (e : Surroundings) (p : Option Packet) :
    receiveAny d e p = (heardPacket p).elim (some (some d)) (receive d e) := by
  unfold receiveAny heardPacket
  cases p.filter fun p => p.bytes ≠ [] with
  | none => rfl
  | some packet => rfl

/-- What is received alters nothing but the tokens. -/
theorem dhtPeriodic_unserved {e : Surroundings} {p : Option Packet} (tokens : Int32) (time : ℤ)
    (hreceive : receiveAny (ready d e) e p =
      some (some { ready d e with tokenBucketTokens := tokens, tokenBucketTime := time })) :
    dhtPeriodic d e p =
      dhtPeriodic { d with tokenBucketTokens := tokens, tokenBucketTime := time } e none := by
  unfold dhtPeriodic
  rw [ready] at hreceive
  simp only [hreceive]
  rfl

/-- A request that there is no token for is as good as none. -/
theorem Call.Serves.isAdmitted (h : c.Serves d) : c.isAdmitted d = true := by
  cases c with
  | periodic e p =>
    cases p with
    | none => exact h.elim
    | some p =>
      obtain ⟨hbehind, ⟨kind, m, hparse, hkind⟩, hserves⟩ := h
      have hrequest : ∀ kind' m', parseMessage p.bytes = .ok (kind', m') → kind' ≠ .reply := by
        intro kind' m' hparse'
        rw [hparse] at hparse'
        obtain ⟨rfl, -⟩ := Prod.mk.inj (Except.ok.inj hparse')
        exact hkind
      by_contra hnot
      obtain ⟨tokens, time, hreceive⟩ : ∃ tokens time, receiveAny (ready d e) e (some p) =
          some (some { ready d e with tokenBucketTokens := tokens, tokenBucketTime := time }) := by
        rw [receiveAny_eq]
        cases hheard : heardPacket (some p) with
        | none => exact ⟨d.tokenBucketTokens, d.tokenBucketTime, rfl⟩
        | some packet =>
          obtain rfl : p = packet := Option.some.inj (Option.filter_eq_some_iff.mp hheard).1
          refine receive_unserved e hbehind hrequest (Bool.eq_false_iff.mpr fun hadmits => hnot ?_)
          rw [Call.isAdmitted, Call.heard, hheard]
          exact hadmits
      exact hserves tokens time (dhtPeriodic_unserved tokens time hreceive)
  | search randoms enough id port af => exact h.elim
  | insertNode randoms id sa => exact h.elim
  | pingNode sa => exact h.elim
  | nodes af => exact h.elim
  | getNodes num num6 => exact h.elim

open Classical in
theorem Run.served_le (hrun : Run d cs d') : served d cs ≤ admitted d cs := by
  induction hrun with
  | nil => exact le_refl _
  | @cons d d' d'' c cs hc hrun hrest ih =>
    rw [served, admitted, hrun, Option.map_some, Option.map_some, Option.getD_some,
      Option.getD_some]
    refine Nat.add_le_add ?_ ih
    split
    · next hserves => rw [if_pos hserves.isAdmitted]
    · exact Nat.zero_le _

/-- The requests are granted tokens. -/
theorem Run.admitted_eq (hok : StateOk d) (hrun : Run d cs d') :
    admitted d cs = Rate.granted wrapInt maxTokenBucketTokens 100 d.tokens (asked d cs) := by
  induction hrun with
  | nil => rfl
  | @cons d d' d'' c cs hc hrun hrest ih =>
    have hstep := c.run_step hok hc hrun
    rw [admitted, asked, hrun, Option.map_some, Option.map_some, Option.getD_some,
      Option.getD_some, ih hstep.ok, hstep.tokens, Call.isAdmitted_eq]
    cases hasks : c.asks d with
    | false => simp
    | true => simp [Rate.granted]

theorem Run.asked_within (hok : StateOk d) (hrun : Run d cs d') (hsteady : Steady d.now cs) :
    Rate.Within d.now d'.now (asked d cs) := by
  induction hrun with
  | nil => exact ⟨List.pairwise_singleton _ _, by simp [asked]⟩
  | @cons d d' d'' c cs hc hrun hrest ih =>
    have hstep := c.run_step hok hc hrun
    have hnow : d'.now = c.time.getD d.now := hstep.now
    obtain ⟨hle, hsteady⟩ := hsteady
    rw [← hnow] at hle hsteady
    have hwithin := ih hstep.ok hsteady
    have hlast := hrest.now_le hstep.ok hsteady
    have hclock : c.clock d = d'.now := hnow.symm
    rw [asked, hrun, Option.map_some, Option.getD_some]
    split
    · rw [hclock]
      refine ⟨List.pairwise_cons.mpr ⟨fun t ht => ?_, hwithin.1⟩, fun t ht => ?_⟩
      · rcases List.mem_cons.mp ht with rfl | ht
        · exact hle
        · exact hle.trans ((List.pairwise_cons.mp hwithin.1).1 t ht)
      · rcases List.mem_cons.mp ht with rfl | ht
        · exact hlast
        · exact hwithin.2 t ht
    · exact hwithin.mono hle

/-- A message is handed on if it is a reply, or if there is a token for it. -/
theorem receive_served (e : Surroundings) {p : Packet} {kind : Kind} {m : Message}
    (hund : understood d p = some (kind, m)) (hserved : kind = .reply ∨ (tokenBucket d).1 = true) :
    ∃ tokens time, receive d e p =
      (handle { d with tokenBucketTokens := tokens, tokenBucketTime := time } e kind m p.sa).map
        some := by
  have hguard : ¬ (isMartian p.sa || nodeBlacklisted d p.sa || decide (p.behind ≠ 0)) = true := by
    intro htrue
    unfold understood at hund
    rw [if_pos htrue] at hund
    exact absurd hund (by simp)
  obtain ⟨hsender, hbehind⟩ : ¬ (isMartian p.sa || nodeBlacklisted d p.sa) = true ∧
      ¬ p.behind ≠ 0 := by
    rw [Bool.or_eq_true, decide_eq_true_eq, not_or] at hguard
    exact hguard
  obtain ⟨tokens, time, hspent⟩ := spent_eq d p
  refine ⟨tokens, time, ?_⟩
  rw [receive_eq d e p fun _ => parse_unparseable, if_neg hsender, if_neg hbehind, hund, ← hspent]
  refine if_pos ?_
  rw [Bool.or_eq_true, decide_eq_true_eq]
  exact hserved

/-- There is a token for whatever comes in with the call. -/
theorem Call.handles_of_take
    (htake : (Rate.take wrapInt maxTokenBucketTokens 100 (c.clock d) d.tokens).1 = true) :
    c.Handles d := by
  cases c with
  | periodic e p =>
    intro packet kind m hheard hund
    have htoken : (tokenBucket (ready d e)).1 = true :=
      (congrArg Prod.fst (tokenBucket_take (ready d e))).trans htake
    exact receive_served e hund (Or.inr htoken)
  | search randoms enough id port af => exact True.intro
  | insertNode randoms id sa => exact True.intro
  | pingNode sa => exact True.intro
  | nodes af => exact True.intro
  | getNodes num num6 => exact True.intro

theorem Run.sound (hok : StateOk d) (hsound : Rate.Sound maxTokenBucketTokens d.now d.tokens)
    (hrun : Run d cs d') (hsteady : Steady d.now cs) :
    Rate.Sound maxTokenBucketTokens d'.now d'.tokens := by
  induction hrun with
  | nil => exact hsound
  | @cons d d' d'' c cs hc hrun hrest ih =>
    have hstep := c.run_step hok hc hrun
    have hnow : d'.now = c.time.getD d.now := hstep.now
    obtain ⟨hle, hsteady⟩ := hsteady
    rw [← hnow] at hle hsteady
    refine ih hstep.ok ?_ hsteady
    have hlater := hsound.mono hle
    rw [hstep.tokens, ← hstep.now]
    split
    · exact (Rate.take_spec tokens_exact (by decide) (by decide) hlater).1
    · exact hlater

theorem Steady.append {cs' : List Call} (h : Steady d.now (cs ++ cs')) (hok : StateOk d)
    (hrun : Run d cs d') : Steady d.now cs ∧ Steady d'.now cs' := by
  induction hrun with
  | nil => exact ⟨True.intro, h⟩
  | @cons d d' d'' c cs hc hrun hrest ih =>
    have hstep := c.run_step hok hc hrun
    have hnow : d'.now = c.time.getD d.now := hstep.now
    obtain ⟨hle, hsteady⟩ := h
    rw [← hnow] at hle hsteady
    obtain ⟨hfirst, hsecond⟩ := ih hsteady hstep.ok
    exact ⟨⟨hnow ▸ hle, hnow ▸ hfirst⟩, hsecond⟩

/-- Requests that are served: at first as many as there are tokens, and a hundred in a
second; in any later stretch of time at most as many again on top. -/
theorem served_within_rate {d₀ : State} {e : Surroundings} {socket socket6 : Bool} {myid : NodeId}
    {v : Option (Vector UInt8 4)} {before : List Call}
    (hrc : (dhtInit d₀ e socket socket6 myid v).1 = 1)
    (hbefore : Run (dhtInit d₀ e socket socket6 myid v).2 before d) (hrun : Run d cs d')
    (hsteady : Steady e.now (before ++ cs)) :
    (served (dhtInit d₀ e socket socket6 myid v).2 before : ℤ) ≤ 400 + 100 * (d.now - e.now) ∧
      (served d cs : ℤ) ≤ 800 + 100 * (d'.now - d.now) := by
  obtain ⟨hstarted, -⟩ := dhtInit_spec hrc
  have hcap : (0 : ℤ) ≤ maxTokenBucketTokens := by decide
  have hrate : (0 : ℤ) ≤ 100 := by decide
  rw [← hstarted.now] at hsteady
  obtain ⟨hfirst, hsecond⟩ := hsteady.append hstarted.ok hbefore
  have hfull : Rate.Sound maxTokenBucketTokens (dhtInit d₀ e socket socket6 myid v).2.now
      (dhtInit d₀ e socket socket6 myid v).2.tokens := by
    rw [hstarted.tokens, hstarted.now]
    exact ⟨hcap, le_refl _, le_refl _⟩
  have hok := hbefore.ok hstarted.ok
  have hsound := Run.sound hstarted.ok hfull hbefore hfirst
  constructor
  · have hserved := hbefore.served_le
    have hgranted := Rate.granted_le tokens_exact hcap hrate hfull
      (hbefore.now_le hstarted.ok hfirst) (hbefore.asked_within hstarted.ok hfirst)
    rw [← hbefore.admitted_eq hstarted.ok, hstarted.tokens] at hgranted
    exact (Int.ofNat_le.mpr hserved).trans hgranted
  · have hserved := Int.ofNat_le.mpr hrun.served_le
    have hgranted := Rate.granted_le_window tokens_exact hcap hrate hsound
      (hrun.now_le hok hsecond) (hrun.asked_within hok hsecond)
    rw [← hrun.admitted_eq hok] at hgranted
    have hle := hsound.le
    have heq : maxTokenBucketTokens = 400 := rfl
    omega

/-- The ping is answered, whatever tokens there are without it. -/
theorem pingCall_serves : pingCall.Serves freshNode := by
  refine ⟨rfl, ?_, fun tokens time hsame => ?_⟩
  · have hkind : (parseMessage pingPacket.bytes).toOption.map Prod.fst = some .ping := by
      decide +kernel
    cases hparse : parseMessage pingPacket.bytes with
    | error fault =>
      rw [hparse] at hkind
      exact absurd hkind (by simp [Except.toOption])
    | ok r =>
      rw [hparse] at hkind
      refine ⟨r.1, r.2, rfl, ?_⟩
      rw [Option.some.inj hkind]
      decide
  · have hanswered : (dhtPeriodic freshNode laterOn (some pingPacket)).map
        (fun r => r.2.2.sent.length) = some 2 := by
      decide +kernel
    have hsilent : (dhtPeriodic
        { freshNode with tokenBucketTokens := tokens, tokenBucketTime := time } laterOn none).map
          (fun r => r.2.2.sent.length) = some 0 := by
      with_unfolding_all rfl
    rw [hsame, hsilent] at hanswered
    exact absurd hanswered (by decide)

def twoPings : List Call := [pingCall, pingCall]

theorem twoPings_isInet : ∀ c ∈ twoPings, c.IsInet := by
  intro c hc
  obtain rfl : c = pingCall := by simpa [twoPings] using hc
  exact pingCall_isInet

theorem served_within_rate_pings : ∃ d d', (Run freshNode [pingCall] d ∧ Run d twoPings d') ∧
    (0 < served freshNode [pingCall] ∧ (asked d twoPings).length = 2) ∧
      (served freshNode [pingCall] : ℤ) ≤ 400 + 100 * (d.now - 100) ∧
        (served d twoPings : ℤ) ≤ 800 + 100 * (d'.now - d.now) := by
  have hrun : (pingCall.run freshNode).map
      (fun d => ((asked d twoPings).length,
        (twoPings.foldlM Call.run d).isSome)) = some (2, true) := by
    decide +kernel
  obtain ⟨d, hfirst, heq⟩ := Option.map_eq_some_iff.mp hrun
  obtain ⟨hasked, hsome⟩ := Prod.mk.inj heq
  obtain ⟨d', hsecond⟩ := Option.isSome_iff_exists.mp hsome
  have hbefore : Run freshNode [pingCall] d := Run.cons pingCall_isInet hfirst (Run.nil d)
  have hpings := Run.of_foldlM twoPings_isInet hsecond
  refine ⟨d, d', ⟨hbefore, hpings⟩, ⟨?_, hasked⟩, served_within_rate (by decide) hbefore hpings
    (show Steady 100 [pingCall, pingCall, pingCall] from
      ⟨by decide, by decide, by decide, True.intro⟩)⟩
  rw [served, if_pos pingCall_serves]
  omega

/-- As long as the tokens are negative and are numbers of the type, all messages are handled. -/
theorem Run.overdrawn (hok : StateOk d) (hneg : d.tokens.1 < 0)
    (hfit : -2 ^ 31 ≤ d.tokens.1 - (asked d cs).length) (hrun : Run d cs d') :
    HandlesAll d cs ∧ d'.tokens = (d.tokens.1 - (asked d cs).length, d.tokens.2) := by
  induction hrun with
  | nil => exact ⟨True.intro, by simp [asked]⟩
  | @cons d d' d'' c cs hc hrun hrest ih =>
    have hstep := c.run_step hok hc hrun
    have hasked : asked d (c :: cs) = (if c.asks d then [c.clock d] else []) ++ asked d' cs := by
      rw [asked, hrun, Option.map_some, Option.getD_some]
    rw [hasked, List.length_append] at hfit
    have hnext : d'.tokens =
        (d.tokens.1 - (if c.asks d then [c.clock d] else []).length, d.tokens.2) := by
      rw [hstep.tokens]
      split
      · next hasks =>
        have hone : wrapInt (d.tokens.1 - 1) = d.tokens.1 - 1 := by
          rw [if_pos hasks, List.length_singleton] at hfit
          push_cast at hfit
          exact wrapInt_exact (le_refl _) (show (0 : ℤ) < 2 ^ 31 by decide) _ (by omega) (by omega)
        rw [Rate.take_of_neg _ _ _ hneg, hone]
        rfl
      · simp
    push_cast at hfit
    obtain ⟨hall, hlast⟩ := ih hstep.ok (by rw [hnext]; simp only; omega)
      (by rw [hnext]; simp only; omega)
    refine ⟨⟨?_, fun d₁ hrun' => ?_⟩, ?_⟩
    · exact Call.handles_of_take (congrArg Prod.fst (Rate.take_of_neg _ _ _ hneg))
    · rw [hrun] at hrun'
      rw [← Option.some.inj hrun']
      exact hall
    · rw [hlast, hnext, hasked, List.length_append]
      push_cast
      simp only [Prod.mk.injEq, and_true]
      omega

/-- If the clock is set back while there are no tokens, the next request makes their number
negative: from then on all messages are handled, whatever happens, until the number is no
longer one of an `int`. -/
theorem unlimited_after_setback (hok : StateOk d) (hempty : d.tokenBucketTokens = 0)
    (hasks : c.asks d = true) (hback : c.clock d < d.tokenBucketTime)
    (hfit : 100 * (d.tokenBucketTime - c.clock d) + (asked d (c :: cs)).length ≤ 2 ^ 31)
    (hrun : Run d (c :: cs) d') :
    HandlesAll d (c :: cs) ∧
      d'.tokenBucketTokens.toInt =
        100 * (c.clock d - d.tokenBucketTime) - (asked d (c :: cs)).length := by
  cases hrun with
  | @cons _ d₁ _ _ _ hc hstep hrest =>
    have hfirst := c.run_step hok hc hstep
    have hasked : asked d (c :: cs) = c.clock d :: asked d₁ cs := by
      rw [asked, if_pos hasks, hstep]
      rfl
    rw [hasked, List.length_cons] at hfit ⊢
    push_cast at hfit ⊢
    have hearned : min maxTokenBucketTokens (100 * (c.clock d - d.tokenBucketTime)) =
        100 * (c.clock d - d.tokenBucketTime) :=
      min_eq_right (le_trans (by omega) (show (0 : ℤ) ≤ maxTokenBucketTokens by decide))
    have hexact : ∀ x : ℤ, -2 ^ 31 ≤ x → x ≤ 0 → wrapInt x = x :=
      wrapInt_exact (le_refl _) (by decide)
    have hfill : Rate.fill wrapInt maxTokenBucketTokens 100 (c.clock d) d.tokens =
        (100 * (c.clock d - d.tokenBucketTime), c.clock d) := by
      have hzero : d.tokens.1 = 0 := by
        rw [State.tokens, hempty]
        rfl
      have htime : d.tokens.2 = d.tokenBucketTime := rfl
      rw [Rate.fill, if_pos hzero, htime, hearned, hexact _ (by omega) (by omega)]
    have htake : Rate.take wrapInt maxTokenBucketTokens 100 (c.clock d) d.tokens =
        (true, (100 * (c.clock d - d.tokenBucketTime) - 1, c.clock d)) := by
      have hne : 100 * (c.clock d - d.tokenBucketTime) ≠ 0 := by omega
      rw [Rate.take, hfill]
      simp only [if_neg hne, hexact _ (show -2 ^ 31 ≤ 100 * (c.clock d - d.tokenBucketTime) - 1 by
        omega) (by omega)]
    have htokens : d₁.tokens = (100 * (c.clock d - d.tokenBucketTime) - 1, c.clock d) := by
      rw [hfirst.tokens, if_pos hasks, htake]
    obtain ⟨hall, hlast⟩ := Run.overdrawn hfirst.ok (by rw [htokens]; simp only; omega)
      (by rw [htokens]; simp only; omega) hrest
    refine ⟨⟨Call.handles_of_take (congrArg Prod.fst htake), fun d₂ hstep' => ?_⟩, ?_⟩
    · rw [hstep] at hstep'
      rw [← Option.some.inj hstep']
      exact hall
    · have hleft := congrArg Prod.fst hlast
      rw [htokens] at hleft
      exact hleft.trans (by simp only; omega)

/-- No tokens are left, and the clock has shown 300 before. -/
def drainedNode : State := { freshNode with tokenBucketTokens := 0, tokenBucketTime := 300 }

theorem drainedNode_ok : StateOk drainedNode := by
  have hok := freshNode_reachable.ok
  exact ⟨hok.inet, hok.inet6, hok.searches, hok.numsearches, hok.numsearches_le, hok.storage⟩

theorem unlimited_after_setback_pings : ∃ d', Run drainedNode twoPings d' ∧
    HandlesAll drainedNode twoPings ∧
      d'.tokenBucketTokens.toInt =
        100 * (200 - 300) - (asked drainedNode twoPings).length := by
  have hsome : (twoPings.foldlM Call.run drainedNode).isSome = true := by
    decide +kernel
  obtain ⟨d', hrun⟩ := Option.isSome_iff_exists.mp hsome
  have hfit : 100 * (drainedNode.tokenBucketTime - pingCall.clock drainedNode) +
      (asked drainedNode twoPings).length ≤ 2 ^ 31 := by
    decide +kernel
  have hpings := Run.of_foldlM twoPings_isInet hrun
  exact ⟨d', hpings, unlimited_after_setback drainedNode_ok rfl (by decide +kernel) (by decide) hfit
    hpings⟩

end Tokens

section Ring

variable {d d' : State} {c : Call} {cs : List Call} {sa : Sockaddr}

/-- An entry is not written over before the others have been, from the next one on. -/
theorem foldl_snub_get (l : List Sockaddr)
    (ring : Vector (Option Sockaddr) maxBlacklisted × Fin maxBlacklisted) (i : Fin maxBlacklisted)
    (hlen : l.length ≤ (i - ring.2).val) : (l.foldl snub ring).1[i] = ring.1[i] := by
  induction l generalizing ring with
  | nil => rfl
  | cons other l ih =>
    have hnext : ∀ i j : Fin maxBlacklisted, (i - j).val ≠ 0 →
        i ≠ j ∧ (i - (j + 1)).val + 1 = (i - j).val := by
      decide
    rw [List.length_cons] at hlen
    obtain ⟨hne, hstep⟩ := hnext i ring.2 (by omega)
    have hval : ring.2.val ≠ i.val := fun heq => hne (Fin.ext heq.symm)
    have hroom : l.length ≤ (i - (snub ring other).2).val := by
      simp only [snub]
      omega
    rw [List.foldl_cons, ih (snub ring other) hroom]
    exact Vector.getElem_set_ne ring.2.isLt i.isLt hval

theorem snub_listed (ring : Vector (Option Sockaddr) maxBlacklisted × Fin maxBlacklisted)
    (sa : Sockaddr) {l : List Sockaddr} (hlen : l.length < maxBlacklisted) :
    some sa ∈ (l.foldl snub (snub ring sa)).1.toList := by
  have hlast : ∀ j : Fin maxBlacklisted, (j - (j + 1)).val + 1 = maxBlacklisted := by decide
  have hroom : l.length ≤ (ring.2 - (snub ring sa).2).val := by
    have hj := hlast ring.2
    simp only [snub]
    omega
  have hget : (l.foldl snub (snub ring sa)).1[ring.2] = some sa :=
    (foldl_snub_get l (snub ring sa) ring.2 hroom).trans (Vector.getElem_set_self ring.2.isLt)
  rw [← hget]
  exact Vector.mem_toList_iff.mpr (Vector.getElem_mem ring.2.isLt)

theorem Run.ring (hok : StateOk d) (hrun : Run d cs d') :
    d'.ring = (snubbedIn d cs).foldl snub d.ring := by
  induction hrun with
  | nil => rfl
  | @cons d d' d'' c cs hc hrun hrest ih =>
    have hstep := c.run_step hok hc hrun
    rw [ih hstep.ok, hstep.ring, snubbedIn, hrun, Option.map_some, Option.getD_some,
      List.foldl_append]

/-- A call with a packet of a sender on the blacklist is as one without. -/
theorem dhtPeriodic_blacklisted (e : Surroundings) {p : Packet}
    (hblack : nodeBlacklisted d p.sa = true) :
    dhtPeriodic d e (some p) = dhtPeriodic d e none := by
  refine dhtPeriodic_unserved d.tokenBucketTokens d.tokenBucketTime ?_
  rw [receiveAny_eq]
  cases hheard : heardPacket (some p) with
  | none => rfl
  | some packet =>
    obtain rfl : p = packet := Option.some.inj (Option.filter_eq_some_iff.mp hheard).1
    have hblack' : nodeBlacklisted (ready d e) p.sa = true := hblack
    rw [Option.elim_some, receive, hblack', Bool.or_true, if_pos rfl]
    rfl

/-- Who has sent a broken reply is on the blacklist until ten others have: whatever it sends
in the meantime, a call does what it does when nothing has come in. -/
theorem snubbed_unheard (hok : StateOk d) (hsnub : c.snubbed d = [sa])
    (hrun : Run d (c :: cs) d')
    (hcount : (snubbedIn d (c :: cs)).length ≤ maxBlacklisted) :
    nodeBlacklisted d' sa = true ∧
      ∀ e (p : Packet), p.sa = sa → dhtPeriodic d' e (some p) = dhtPeriodic d' e none := by
  have hring := hrun.ring hok
  obtain ⟨l, hl⟩ : ∃ l, snubbedIn d (c :: cs) = sa :: l := ⟨_, by rw [snubbedIn, hsnub]; rfl⟩
  rw [hl, List.length_cons] at hcount
  rw [hl, List.foldl_cons] at hring
  have hlisted : some sa ∈ d'.blacklist.toList := by
    have hmem := snub_listed d.ring sa (l := l) (by omega)
    rw [← hring] at hmem
    exact hmem
  have hblack : nodeBlacklisted d' sa = true :=
    List.any_eq_true.mpr ⟨some sa, hlisted, decide_eq_true rfl⟩
  exact ⟨hblack, fun e p hp => dhtPeriodic_blacklisted e (hp ▸ hblack)⟩

/-- A reply whose transaction id is not one of ours. -/
def brokenCall : Call :=
  .periodic laterOn
    (some ⟨text "d1:rd2:id20:abcdefghij0123456789e1:t2:aa1:y1:re", 0, otherNode⟩)

theorem brokenCall_isInet : brokenCall.IsInet := by
  intro packet hp
  obtain rfl := Option.some.inj hp
  exact True.intro

theorem snubbed_unheard_broken : ∃ d', Run freshNode [brokenCall] d' ∧
    nodeBlacklisted d' otherNode = true ∧ ∀ e (p : Packet), p.sa = otherNode →
      dhtPeriodic d' e (some p) = dhtPeriodic d' e none := by
  have hsnub : brokenCall.snubbed freshNode = [otherNode] := by
    decide +kernel
  have hsome : (brokenCall.run freshNode).isSome = true := by
    decide +kernel
  obtain ⟨d', hrun⟩ := Option.isSome_iff_exists.mp hsome
  have hcount : (snubbedIn freshNode [brokenCall]).length ≤ maxBlacklisted := by
    rw [snubbedIn, hsnub, hrun]
    exact show 1 ≤ maxBlacklisted by decide
  have hbroken : Run freshNode [brokenCall] d' := Run.cons brokenCall_isInet hrun (Run.nil d')
  exact ⟨d', hbroken, snubbed_unheard freshNode_reachable.ok hsnub hbroken hcount⟩

end Ring

end SeaStore.Dht
