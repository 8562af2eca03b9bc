import SeaStore.Dht.MessageBounds
import SeaStore.Dht.Nearby
import SeaStore.Dht.Upkeep

/-!
A message is taken in. Whatever its bytes are, the node survives it: nothing is
read or written that must not be, and the invariant holds afterwards. Three
things are left of it that are not in the tables: a token less, an address more
on the blacklist, or a peer in the storage.
-/
namespace SeaStore.Dht

open Posix Controller Ranges

/-- The message in a packet, if it is one that something is done about. -/
def understood (d : State) (p : Packet) : Option (Kind × Message) :=
  if isMartian p.sa || nodeBlacklisted d p.sa || p.behind ≠ 0 then none
  else
    match parseMessage p.bytes with
    | .error _ => none
    | .ok (kind, m) =>
      if kind = .error ∨ idCmp m.id zeroes = .eq ∨ idCmp m.id d.myid = .eq then none
      else some (kind, m)

/-- A packet that asks for something, and so costs a token. -/
def requests (d : State) (p : Packet) : Bool :=
  (understood d p).any fun r => r.1 ≠ .reply

/-- A request for which there is a token. -/
def admits (d : State) (p : Packet) : Bool := requests d p && (tokenBucket d).1

/-- Whom a packet gets on the blacklist. -/
def snubs (d : State) (p : Packet) : List Sockaddr :=
  if (understood d p).any fun r => r.1 = .reply && r.2.broken then [p.sa] else []

/-- What an announcement is taken for, if it is taken at all: the hash, the address and
the port. -/
def acceptedPeer (d : State) (e : Surroundings) (m : Message) (sa : Sockaddr) :
    Option (NodeId × Bytes × UInt16) :=
  if idCmp m.infoHash zeroes = .eq ∨ tokenMatch d.secrets e.checked m.token sa ≠ some true ∨
      announcedPort m sa = 0 then none
  else (ipOf sa).map fun ip => (m.infoHash, ip, announcedPort m sa)

/-- What a packet announces. -/
def announces (d : State) (e : Surroundings) (p : Packet) : Option (NodeId × Bytes × UInt16) :=
  match understood d p with
  | some (.announcePeer, m) => if (tokenBucket d).1 then acceptedPeer d e m p.sa else none
  | _ => none

/-- What is stored after an announcement. -/
noncomputable def afterAnnounce (d : State) (announced : Option (NodeId × Bytes × UInt16)) :
    Registry.Entries NodeId (Bytes × UInt16) :=
  match announced with
  | none => registry d.storage
  | some (id, key) =>
    (Registry.announce dhtMaxPeers dhtMaxHashes (registry d.storage) d.now id key).2

/-- What a message leaves. -/
structure Heard (snubbed : List Sockaddr) (announced : Option (NodeId × Bytes × UInt16))
    (d d' : State) : Prop where
  ok : StateOk d'
  now : d'.now = d.now
  myid : d'.myid = d.myid
  myV : d'.myV = d.myV
  socket : d'.socket = d.socket
  socket6 : d'.socket6 = d.socket6
  expireStuffTime : d'.expireStuffTime = d.expireStuffTime
  tokens : d'.tokens = d.tokens
  ring : d'.ring = snubbed.foldl snub d.ring
  registry : registry d'.storage = afterAnnounce d announced

section Answers

variable {d : State} {sa : Sockaddr}

theorem After.heard {d' : State} {snubbed : List Sockaddr} (h : After snubbed d d') :
    Heard snubbed none d d' :=
  ⟨h.ok, h.now, h.myid, h.myV, h.socket, h.socket6, h.expireStuffTime, h.tokens, h.ring,
    by rw [h.storage]; rfl⟩

theorem After.trans_heard {d' d'' : State} {snubbed snubbed' : List Sockaddr}
    {announced : Option (NodeId × Bytes × UInt16)} (h : After snubbed d d')
    (h' : Heard snubbed' announced d' d'') : Heard (snubbed ++ snubbed') announced d d'' := by
  refine ⟨h'.ok, h'.now.trans h.now, h'.myid.trans h.myid, h'.myV.trans h.myV,
    h'.socket.trans h.socket, h'.socket6.trans h.socket6,
    h'.expireStuffTime.trans h.expireStuffTime, h'.tokens.trans h.tokens, ?_, ?_⟩
  · rw [h'.ring, h.ring, List.foldl_append]
  · rw [h'.registry]
    unfold afterAnnounce
    rw [h.storage, h.now]

theorem Heard.trans_after {d' d'' : State} {snubbed : List Sockaddr}
    {announced : Option (NodeId × Bytes × UInt16)} (h : Heard snubbed announced d d')
    (h' : After [] d' d'') : Heard snubbed announced d d'' :=
  ⟨h'.ok, h'.now.trans h.now, h'.myid.trans h.myid, h'.myV.trans h.myV,
    h'.socket.trans h.socket, h'.socket6.trans h.socket6,
    h'.expireStuffTime.trans h.expireStuffTime, h'.tokens.trans h.tokens, h'.ring.trans h.ring,
    by rw [h'.storage]; exact h.registry⟩

theorem sendNodesPeers_quiet (sa : Sockaddr) (tid nodes nodes6 : Bytes) (af : Af)
    (st : Option Storage) (token : Bytes) :
    Quiet d (sendNodesPeers d sa tid nodes nodes6 af st token) := by
  cases st with
  | none => exact emit_quiet ..
  | some st =>
    unfold sendNodesPeers
    simp only
    split
    · exact emit_quiet ..
    · exact random_quiet.trans (emit_quiet ..)

/-- The size of a node as it is sent. -/
def compactSize (af : Af) : ℕ := if af = .inet then 26 else 38

theorem compact_spec {n : Node} {af : Af} (haf : af = .inet ∨ af = .inet6)
    (hfam : family n.ss = af) :
    ∃ bytes, compact n = some bytes ∧ bytes.length = compactSize af := by
  have hid := n.id.size
  unfold compact
  cases hss : n.ss with
  | inet addr port =>
    rw [hss] at hfam
    obtain rfl : Af.inet = af := hfam
    exact ⟨_, rfl, by simp [hid, compactSize]⟩
  | inet6 addr port =>
    rw [hss] at hfam
    obtain rfl : Af.inet6 = af := hfam
    exact ⟨_, rfl, by simp [hid, compactSize]⟩
  | other f =>
    rw [hss] at hfam
    rcases haf with rfl | rfl
    · exact absurd hfam (by simp [family])
    · exact absurd hfam (by simp [family])

theorem mapM_compact_spec {af : Af} (haf : af = .inet ∨ af = .inet6) {nodes : List Node}
    (hfam : ∀ n ∈ nodes, family n.ss = af) :
    ∃ bytes, nodes.mapM compact = some bytes ∧
      bytes.flatten.length = compactSize af * nodes.length := by
  induction nodes with
  | nil => exact ⟨[], rfl, rfl⟩
  | cons n nodes ih =>
    obtain ⟨b, hb, hlen⟩ := compact_spec haf (hfam n (List.mem_cons_self ..))
    obtain ⟨bs, hbs, hlens⟩ := ih fun n hn => hfam n (List.mem_cons_of_mem _ hn)
    refine ⟨b :: bs, by rw [List.mapM_cons, hb, hbs]; rfl, ?_⟩
    rw [List.flatten_cons, List.length_append, hlen, hlens, List.length_cons]
    ring

/-- The nodes of a family, as they are sent. -/
theorem wantedNodes_spec {af : Af} (hok : StateOk d) (haf : af = .inet ∨ af = .inet6)
    (id : NodeId) (flag : ℕ) :
    ∃ nodes bytes, wantedNodes d af id flag = some nodes ∧ nodes.mapM compact = some bytes ∧
      bytes.flatten.length ≤ compactSize af * 8 := by
  unfold wantedNodes
  split
  · obtain ⟨nodes, heq, hnil, hbuf⟩ := closestNodes_spec (hok.table haf) haf id
    have hnodes : (∀ n ∈ nodes, family n.ss = af) ∧ nodes.length ≤ 8 := by
      cases hfind : findBucket id (d.table af) with
      | none =>
        rw [hnil hfind]
        exact ⟨by simp, Nat.zero_le 8⟩
      | some i =>
        have hclosest := (hbuf i hfind).closest.length_le
        rw [List.length_map] at hclosest
        refine ⟨fun n hn => ?_, hclosest⟩
        obtain ⟨j, b, hb, hin⟩ := mem_nodesOf.mp (mem_around ((hbuf i hfind).mem n hn)).1
        exact (((hok.table haf).bucket j b hb).nodes n hin).family
    obtain ⟨bytes, hbytes, hlen⟩ := mapM_compact_spec haf hnodes.1
    refine ⟨nodes, bytes, heq, hbytes, ?_⟩
    rw [hlen]
    exact Nat.mul_le_mul_left _ hnodes.2
  · exact ⟨[], [], rfl, rfl, Nat.zero_le _⟩

theorem sendClosestNodes_spec (hok : StateOk d) (sa : Sockaddr) (tid : Bytes) (id : NodeId)
    (want : ℤ) (af : Af) (st : Option Storage) (token : Bytes) :
    ∃ bytes bytes6, bytes.length ≤ 26 * 8 ∧ bytes6.length ≤ 38 * 8 ∧
      sendClosestNodes d sa tid id want af st token =
        some (sendNodesPeers d sa tid bytes bytes6 af st token) := by
  obtain ⟨nodes, bytes, heq, hbytes, hlen⟩ :=
    wantedNodes_spec hok (Or.inl rfl) id (wanted want sa &&& want4)
  obtain ⟨nodes6, bytes6, heq6, hbytes6, hlen6⟩ :=
    wantedNodes_spec hok (Or.inr rfl) id (wanted want sa &&& want6)
  refine ⟨bytes.flatten, bytes6.flatten, hlen, hlen6, ?_⟩
  unfold sendClosestNodes
  simp only [heq, heq6, hbytes, hbytes6, Option.bind_eq_bind, Option.bind_some, Option.pure_def]

end Answers

section Requests

variable {d : State} {sa : Sockaddr} {m : Message} {e : Surroundings}

theorem newNode_sender (hok : StateOk d) (hsa : sa.IsInet) (m : Message) :
    After [] d (newNode d m.id sa 1).2 := newNode_after hok hsa m.id 1

theorem handleGetPeers_spec (hok : StateOk d) (hsa : sa.IsInet) (e : Surroundings) (m : Message) :
    ∃ d', handleGetPeers d e m sa = some d' ∧ After [] d d' := by
  have hnode := newNode_sender hok hsa m
  unfold handleGetPeers
  simp only
  split
  · exact ⟨_, rfl, hnode.trans ((emit_quiet ..).after hnode.ok)⟩
  · rw [makeToken_eq hsa, Option.bind_eq_bind, Option.bind_some]
    split
    · next st _ =>
      obtain ⟨bytes, bytes6, -, -, heq⟩ := sendClosestNodes_spec hnode.ok sa m.tid m.infoHash m.want
        (family sa) (some st) e.issued.toList
      exact ⟨_, heq, hnode.trans ((sendNodesPeers_quiet ..).after hnode.ok)⟩
    · obtain ⟨bytes, bytes6, -, -, heq⟩ := sendClosestNodes_spec hnode.ok sa m.tid m.infoHash m.want
        (.other 0) none e.issued.toList
      exact ⟨_, heq, hnode.trans ((sendNodesPeers_quiet ..).after hnode.ok)⟩

theorem ipOf_some (hsa : sa.IsInet) : ∃ ip, ipOf sa = some ip := by
  cases sa with
  | inet addr port => exact ⟨_, rfl⟩
  | inet6 addr port => exact ⟨_, rfl⟩
  | other f => exact hsa.elim

theorem tokenMatch_some (hsa : sa.IsInet) (s : Secrets) (t : Token) (token : Bytes) :
    ∃ valid, tokenMatch s t token sa = some valid := by
  unfold tokenMatch
  by_cases hlen : token.length = tokenSize
  · by_cases heq : t.toList = token
    · simp [hlen, makeToken_eq hsa, heq]
    · simp [hlen, makeToken_eq hsa, heq]
  · simp [hlen]

/-- Where something is stored, and nothing else is changed. -/
theorem storageStore_heard (hok : StateOk d) {ip : Bytes} (hip : ipOf sa = some ip) (id : NodeId)
    (port : UInt16) : Heard [] (some (id, ip, port)) d (storageStore d id sa port).2 := by
  obtain ⟨hstorage, hregistry⟩ := storageStore_spec id port hok.storage hip
  have hrest : ∃ storage numstorage, (storageStore d id sa port).2 =
      { d with storage := storage, numstorage := numstorage } := by
    unfold storageStore
    rw [hip]
    simp only
    split
    · split
      · exact ⟨_, d.numstorage, rfl⟩
      · exact ⟨d.storage, d.numstorage, rfl⟩
    · split
      · exact ⟨d.storage, d.numstorage, rfl⟩
      · exact ⟨_, _, rfl⟩
  have hreg := congrArg Prod.snd hregistry
  obtain ⟨storage, numstorage, heq⟩ := hrest
  rw [heq] at hstorage hreg ⊢
  exact ⟨⟨hok.inet, hok.inet6, hok.searches, hok.numsearches, hok.numsearches_le, hstorage⟩,
    rfl, rfl, rfl, rfl, rfl, rfl, rfl, rfl, hreg⟩

theorem handleAnnouncePeer_spec (hok : StateOk d) (hsa : sa.IsInet) (e : Surroundings)
    (m : Message) :
    ∃ d', handleAnnouncePeer d e m sa = some d' ∧ Heard [] (acceptedPeer d e m sa) d d' := by
  have hnode := newNode_sender hok hsa m
  have herror : ∀ text, acceptedPeer d e m sa = none →
      Heard [] (acceptedPeer d e m sa) d (sendError (newNode d m.id sa 1).2 sa m.tid 203 text) := by
    intro text hnone
    rw [hnone]
    exact (hnode.trans ((emit_quiet ..).after hnode.ok)).heard
  obtain ⟨valid, hvalid⟩ := tokenMatch_some hsa d.secrets e.checked m.token
  unfold handleAnnouncePeer
  simp only [hnode.secrets, hvalid, Option.bind_eq_bind, Option.bind_some, Option.pure_def]
  by_cases hzero : idCmp m.infoHash zeroes = .eq
  · rw [if_pos hzero]
    exact ⟨_, rfl, herror _ (if_pos (Or.inl hzero))⟩
  rw [if_neg hzero]
  cases valid with
  | false =>
    refine ⟨_, rfl, herror _ (if_pos (Or.inr (Or.inl ?_)))⟩
    rw [hvalid]
    simp
  | true =>
    by_cases hport : announcedPort m sa = 0
    · rw [if_neg (by simp), if_pos hport]
      exact ⟨_, rfl, herror _ (if_pos (Or.inr (Or.inr hport)))⟩
    · obtain ⟨ip, hip⟩ := ipOf_some hsa
      have hpeer : acceptedPeer d e m sa = some (m.infoHash, ip, announcedPort m sa) := by
        unfold acceptedPeer
        rw [if_neg (by simp [hzero, hvalid, hport]), hip]
        rfl
      rw [if_neg (by simp), if_neg hport, hpeer]
      have hstore := storageStore_heard hnode.ok hip m.infoHash (announcedPort m sa)
      exact ⟨_, rfl, hnode.trans_heard (hstore.trans_after ((emit_quiet ..).after hstore.ok))⟩

/-- What is done with a message, by its kind. -/
theorem handle_spec (hok : StateOk d) (hsa : sa.IsInet) (e : Surroundings) (kind : Kind)
    (m : Message) :
    ∃ d', handle d e kind m sa = some d' ∧
      Heard (if kind = .reply && m.broken then [sa] else [])
        (if kind = .announcePeer then acceptedPeer d e m sa else none) d d' := by
  have hnode := newNode_sender hok hsa m
  cases kind with
  | error => exact ⟨d, rfl, (After.refl hok).heard⟩
  | reply => exact ⟨_, rfl, (handleReply_after hok hsa m).heard⟩
  | ping => exact ⟨_, rfl, (hnode.trans ((emit_quiet ..).after hnode.ok)).heard⟩
  | findNode =>
    obtain ⟨bytes, bytes6, -, -, heq⟩ := sendClosestNodes_spec hnode.ok sa m.tid m.target m.want
      (.other 0) none []
    exact ⟨_, heq, (hnode.trans ((sendNodesPeers_quiet ..).after hnode.ok)).heard⟩
  | getPeers =>
    obtain ⟨d', heq, hafter⟩ := handleGetPeers_spec hok hsa e m
    exact ⟨d', heq, hafter.heard⟩
  | announcePeer => exact handleAnnouncePeer_spec hok hsa e m

end Requests

section Receive

variable {d : State} {p : Packet}

theorem tokenBucket_eq (d : State) : ∃ tokens time,
    (tokenBucket d).2 = { d with tokenBucketTokens := tokens, tokenBucketTime := time } := by
  unfold tokenBucket
  by_cases hempty : d.tokenBucketTokens = 0
  · rw [if_pos hempty]
    simp only
    split
    · exact ⟨_, _, rfl⟩
    · exact ⟨_, _, rfl⟩
  · rw [if_neg hempty]
    simp only [if_neg hempty]
    exact ⟨_, d.tokenBucketTime, rfl⟩

/-- The state when a packet has paid for itself. -/
def spent (d : State) (p : Packet) : State := if requests d p then (tokenBucket d).2 else d

theorem spent_eq (d : State) (p : Packet) : ∃ tokens time,
    spent d p = { d with tokenBucketTokens := tokens, tokenBucketTime := time } := by
  unfold spent
  split
  · exact tokenBucket_eq d
  · exact ⟨d.tokenBucketTokens, d.tokenBucketTime, rfl⟩

theorem spent_ok (hok : StateOk d) (p : Packet) : StateOk (spent d p) := by
  obtain ⟨tokens, time, heq⟩ := spent_eq d p
  rw [heq]
  exact ⟨hok.inet, hok.inet6, hok.searches, hok.numsearches, hok.numsearches_le, hok.storage⟩

/-- A packet of which nothing is understood changes nothing; any other is handled, if it
is a reply or there is a token for it. -/
theorem receive_eq (d : State) (e : Surroundings) (p : Packet) (hmem : ∀ fault,
    parseMessage p.bytes = .error fault → fault = .unparseable) :
    receive d e p =
      if isMartian p.sa || nodeBlacklisted d p.sa then some (some d)
      else if p.behind ≠ 0 then some none
      else match understood d p with
        | none => some (some d)
        | some (kind, m) =>
          if kind = .reply || (tokenBucket d).1 then (handle (spent d p) e kind m p.sa).map some
          else some (some (spent d p)) := by
  unfold receive
  by_cases hsender : (isMartian p.sa || nodeBlacklisted d p.sa) = true
  · rw [if_pos hsender, if_pos hsender]
  rw [if_neg hsender, if_neg hsender]
  by_cases hbehind : p.behind ≠ 0
  · rw [if_pos hbehind, if_pos hbehind]
  rw [if_neg hbehind, if_neg hbehind]
  have hguard : ¬ (isMartian p.sa || nodeBlacklisted d p.sa || decide (p.behind ≠ 0)) = true := by
    rw [Bool.or_eq_true, decide_eq_true_eq]
    exact fun hor => hor.elim hsender hbehind
  have hund : understood d p = match parseMessage p.bytes with
      | .error _ => none
      | .ok (kind, m) =>
        if kind = .error ∨ idCmp m.id zeroes = .eq ∨ idCmp m.id d.myid = .eq then none
        else some (kind, m) := by
    unfold understood
    rw [if_neg hguard]
  cases hparse : parseMessage p.bytes with
  | error fault =>
    rw [hparse] at hund
    rw [hund, hmem fault hparse]
  | ok r =>
    obtain ⟨kind, m⟩ := r
    rw [hparse] at hund
    simp only at hund ⊢
    by_cases hdrop : kind = .error ∨ idCmp m.id zeroes = .eq ∨ idCmp m.id d.myid = .eq
    · rw [if_pos hdrop] at hund
      rw [hund, if_pos hdrop]
    · rw [if_neg hdrop] at hund
      rw [hund, if_neg hdrop]
      by_cases hreply : kind = .reply
      · have hspent : spent d p = d := by
          unfold spent requests
          rw [hund, hreply]
          rfl
        simp only [hspent, hreply, decide_true, Bool.true_or, if_true]
      · have hspent : spent d p = (tokenBucket d).2 := by
          unfold spent requests
          rw [hund]
          simp [hreply]
        simp only [hspent, hreply, decide_false, Bool.false_or, if_false]

theorem parse_unparseable {buf : Bytes} {fault : Fault} (hparse : parseMessage buf = .error fault) :
    fault = .unparseable := by
  have hspec := parseMessage_spec buf
  rw [hparse] at hspec
  exact hspec

theorem acceptedPeer_spent (d : State) (e : Surroundings) (p : Packet) (m : Message)
    (sa : Sockaddr) : acceptedPeer (spent d p) e m sa = acceptedPeer d e m sa := by
  obtain ⟨tokens, time, heq⟩ := spent_eq d p
  rw [heq]
  rfl

theorem heard_of_not_understood (hok : StateOk d) (e : Surroundings)
    (hund : understood d p = none) :
    Heard (snubs d p) (announces d e p) (spent d p) d := by
  have hspent : spent d p = d := by
    unfold spent requests
    rw [hund]
    rfl
  unfold snubs announces
  rw [hspent, hund]
  exact (After.refl hok).heard

theorem snubs_of_understood (hund : understood d p = some (kind, m)) :
    snubs d p = if kind = .reply && m.broken then [p.sa] else [] := by
  unfold snubs
  rw [hund]
  rfl

theorem announces_of_understood (e : Surroundings) (hund : understood d p = some (kind, m)) :
    announces d e p = if kind = .announcePeer && (tokenBucket d).1 then
      acceptedPeer d e m p.sa else none := by
  unfold announces
  rw [hund]
  cases kind with
  | announcePeer => simp
  | _ => rfl

theorem receive_spec (hok : StateOk d) (hsa : p.sa.IsInet) (e : Surroundings) :
    ∃ r, receive d e p = some r ∧ (r = none → p.behind ≠ 0) ∧
      ∀ d', r = some d' → Heard (snubs d p) (announces d e p) (spent d p) d' := by
  rw [receive_eq d e p fun _ => parse_unparseable]
  by_cases hsender : (isMartian p.sa || nodeBlacklisted d p.sa) = true
  · rw [if_pos hsender]
    refine ⟨some d, rfl, fun hnone => absurd hnone (by simp), fun d' hd' => ?_⟩
    rw [← Option.some.inj hd']
    refine heard_of_not_understood hok e ?_
    unfold understood
    rw [hsender, Bool.true_or, if_pos rfl]
  rw [if_neg hsender]
  by_cases hbehind : p.behind ≠ 0
  · rw [if_pos hbehind]
    exact ⟨none, rfl, fun _ => hbehind, fun d' hd' => absurd hd' (by simp)⟩
  rw [if_neg hbehind]
  cases hund : understood d p with
  | none =>
    refine ⟨some d, rfl, fun hnone => absurd hnone (by simp), fun d' hd' => ?_⟩
    rw [← Option.some.inj hd']
    exact heard_of_not_understood hok e hund
  | some r =>
    obtain ⟨kind, m⟩ := r
    rw [snubs_of_understood hund, announces_of_understood e hund]
    simp only
    by_cases hadmit : (decide (kind = .reply) || (tokenBucket d).1) = true
    · rw [if_pos hadmit]
      obtain ⟨d', heq, hheard⟩ := handle_spec (spent_ok hok p) hsa e kind m
      refine ⟨some d', by rw [heq]; rfl, fun hnone => absurd hnone (by simp), fun d'' hd'' => ?_⟩
      rw [← Option.some.inj hd'']
      rw [acceptedPeer_spent] at hheard
      by_cases hkind : kind = .announcePeer
      · have htoken : (tokenBucket d).1 = true := by
          rw [hkind] at hadmit
          simpa using hadmit
        simp only [hkind, htoken, decide_true, Bool.and_true, if_true] at hheard ⊢
        exact hheard
      · simp only [hkind, decide_false, Bool.false_and, Bool.false_eq_true, if_false] at hheard ⊢
        exact hheard
    · rw [if_neg hadmit]
      refine ⟨some (spent d p), rfl, fun hnone => absurd hnone (by simp), fun d' hd' => ?_⟩
      rw [← Option.some.inj hd']
      obtain ⟨hreply, htoken⟩ : kind ≠ .reply ∧ (tokenBucket d).1 = false := by
        simpa using hadmit
      rw [htoken, Bool.and_false, if_neg Bool.false_ne_true, decide_eq_false hreply,
        Bool.false_and, if_neg Bool.false_ne_true]
      exact (After.refl (spent_ok hok p)).heard

end Receive

end SeaStore.Dht
