import Mathlib.Data.Nat.Notation

/-!
The seeds of the DHT. The list of nodes that a start is given alternates
addresses and ports, and each pair of them is resolved to the addresses that
go into an array of fixed size. The loop that takes the pairs moves on by
three strings, once more than a pair has.
-/
namespace SeaStore.Controller

def maxBootstrapNodes : ℕ := 20

/-- The pairs that `getaddrinfo` has been called with, and the addresses in
`bootstrap_nodes`, of which there are `num_bootstrap_nodes`. -/
structure Seeds (Str Addr : Type) where
  resolved : List (Str × Str)
  nodes : List Addr
  deriving DecidableEq

/-- The program has read its seeds, or it has ended. -/
inductive Started (S : Type)
  | listed (seeds : S)
  | exited
  deriving DecidableEq

variable {Str Addr : Type}

/-- One round of the loop over the addresses: there is no place beyond the array. -/
def storeNode (seeds : Seeds Str Addr) (addr : Addr) : Option (Seeds Str Addr) :=
  if seeds.nodes.length < maxBootstrapNodes then
    some { seeds with nodes := seeds.nodes ++ [addr] }
  else none

/-- The loop over the node list from `i` on. Each round raises `i` behind the
lookup, behind the addresses, and at its end. -/
def bootstrapLoop (getaddrinfo : Str → Str → Option (List Addr)) (nodeList : List Str) (i : ℕ)
    (seeds : Seeds Str Addr) : Option (Started (Seeds Str Addr)) :=
  if i < nodeList.length then do
    let host ← nodeList[i]?
    let service ← nodeList[i + 1]?
    match getaddrinfo host service with
    | none => return .exited
    | some info =>
      let seeds := { seeds with resolved := seeds.resolved ++ [(host, service)] }
      let seeds ← info.foldlM storeNode seeds
      bootstrapLoop getaddrinfo nodeList (i + 1 + 1 + 1) seeds
  else return .listed seeds
termination_by nodeList.length - i

/-- What `__dht_list_init` does with its arguments before it opens a socket. -/
def dhtListInit (getaddrinfo : Str → Str → Option (List Addr)) (port : Int32)
    (nodeList : List Str) : Option (Started (Seeds Str Addr)) :=
  if port ≤ 0 ∨ 0x10000 ≤ port then some .exited
  else bootstrapLoop getaddrinfo nodeList 0 ⟨[], []⟩

def nodeListOf (pairs : List (Str × Str)) : List Str := pairs.flatMap fun pair => [pair.1, pair.2]

/-- As it should be: the pairs are resolved in order, and no store is outside the array. -/
def VisitsSeeds (info : Str → Str → List Addr) (port : Int32) (pairs : List (Str × Str)) : Prop :=
  ∃ seeds, dhtListInit (fun host service => some (info host service)) port (nodeListOf pairs) =
      some (.listed seeds) ∧
    seeds.resolved = pairs ∧ seeds.nodes.length ≤ maxBootstrapNodes

section Loop

variable {info : Str → Str → List Addr} {nodeList : List Str} {i : ℕ} {seeds : Seeds Str Addr}

/-- The addresses of one pair are stored when there is room for all of them. -/
theorem foldlM_storeNode (addrs : List Addr)
    (hroom : seeds.nodes.length ≤ maxBootstrapNodes) :
    addrs.foldlM storeNode seeds =
      if seeds.nodes.length + addrs.length ≤ maxBootstrapNodes then
        some { seeds with nodes := seeds.nodes ++ addrs }
      else none := by
  induction addrs generalizing seeds with
  | nil => simp [hroom]
  | cons addr addrs ih =>
    rw [List.foldlM_cons, storeNode, List.length_cons]
    by_cases hlt : seeds.nodes.length < maxBootstrapNodes
    · rw [if_pos hlt, Option.bind_eq_bind, Option.bind_some, ih (by
        rw [List.length_append, List.length_singleton]
        omega)]
      simp only [List.length_append, List.length_singleton, List.append_assoc,
        List.singleton_append, Nat.add_assoc, Nat.add_comm 1]
    · rw [if_neg hlt, if_neg (by omega)]
      rfl

theorem bootstrapLoop_end (getaddrinfo : Str → Str → Option (List Addr))
    (hend : nodeList.length ≤ i) :
    bootstrapLoop getaddrinfo nodeList i seeds = some (.listed seeds) := by
  rw [bootstrapLoop, if_neg (by omega)]
  rfl

theorem bootstrapLoop_last (getaddrinfo : Str → Str → Option (List Addr))
    (hlast : i + 1 = nodeList.length) :
    bootstrapLoop getaddrinfo nodeList i seeds = none := by
  have hnone : nodeList[i + 1]? = none := List.getElem?_eq_none (by omega)
  rw [bootstrapLoop, if_pos (by omega), hnone]
  cases nodeList[i]? with
  | none => rfl
  | some host => rfl

theorem bootstrapLoop_round {host service : Str} (hhost : nodeList[i]? = some host)
    (hservice : nodeList[i + 1]? = some service) :
    bootstrapLoop (fun host service => some (info host service)) nodeList i seeds =
      ((info host service).foldlM storeNode
        { seeds with resolved := seeds.resolved ++ [(host, service)] }).bind
          (bootstrapLoop (fun host service => some (info host service)) nodeList (i + 3)) := by
  obtain ⟨hi, -⟩ := List.getElem?_eq_some_iff.mp hhost
  rw [bootstrapLoop, if_pos hi, hhost, hservice]
  rfl

theorem foldlM_storeNode_resolved {addrs : List Addr} {seeds' : Seeds Str Addr}
    (hstore : addrs.foldlM storeNode seeds = some seeds') : seeds'.resolved = seeds.resolved := by
  induction addrs generalizing seeds with
  | nil => rw [Option.some.inj hstore]
  | cons addr addrs ih =>
    obtain ⟨seeds₁, hfirst, hrest⟩ := Option.bind_eq_some_iff.mp hstore
    unfold storeNode at hfirst
    split at hfirst
    · rw [ih hrest, ← Option.some.inj hfirst]
    · exact absurd hfirst (by simp)

/-- One pair is resolved for every three strings that are left, the last ones too. -/
theorem bootstrapLoop_resolved {seeds' : Seeds Str Addr}
    (hloop : bootstrapLoop (fun host service => some (info host service)) nodeList i seeds =
      some (.listed seeds')) :
    seeds'.resolved.length = seeds.resolved.length + (nodeList.length - i + 2) / 3 := by
  induction hleft : nodeList.length - i using Nat.strongRecOn generalizing i seeds with
  | ind left ih =>
    by_cases hend : nodeList.length ≤ i
    · rw [bootstrapLoop_end _ hend] at hloop
      injection hloop with hlisted
      injection hlisted with hsame
      rw [← hsame]
      omega
    · by_cases hlast : i + 1 = nodeList.length
      · rw [bootstrapLoop_last _ hlast] at hloop
        exact absurd hloop (by simp)
      · rw [bootstrapLoop_round (List.getElem?_eq_getElem (by omega))
          (List.getElem?_eq_getElem (by omega))] at hloop
        obtain ⟨seeds₁, hstore, hrest⟩ := Option.bind_eq_some_iff.mp hloop
        have hcount := ih (nodeList.length - (i + 3)) (by omega) hrest rfl
        rw [hcount, foldlM_storeNode_resolved hstore, List.length_append, List.length_singleton]
        omega

end Loop

theorem nodeListOf_length (pairs : List (Str × Str)) :
    (nodeListOf pairs).length = 2 * pairs.length := by
  induction pairs with
  | nil => rfl
  | cons pair pairs ih =>
    rw [nodeListOf, List.flatMap_cons, List.length_append]
    rw [nodeListOf] at ih
    rw [ih]
    simp only [List.length_cons, List.length_nil]
    omega

/-- With a port that is one, the start comes to the loop. -/
theorem dhtListInit_of_port {port : Int32} (hport : 0 < port ∧ port < 0x10000)
    (getaddrinfo : Str → Str → Option (List Addr)) (nodeList : List Str) :
    dhtListInit getaddrinfo port nodeList = bootstrapLoop getaddrinfo nodeList 0 ⟨[], []⟩ := by
  rw [dhtListInit, if_neg]
  intro hout
  rcases hout with hlow | hhigh
  · exact absurd hport.1 (Int32.not_lt.mpr hlow)
  · exact absurd hport.2 (Int32.not_lt.mpr hhigh)

theorem bootstrapLoop_first (info : Str → Str → List Addr) (pair : Str × Str)
    (rest : List (Str × Str)) :
    bootstrapLoop (fun host service => some (info host service)) (nodeListOf (pair :: rest)) 0
        ⟨[], []⟩ =
      if (info pair.1 pair.2).length ≤ maxBootstrapNodes then
        bootstrapLoop (fun host service => some (info host service)) (nodeListOf (pair :: rest))
          3 ⟨[pair], info pair.1 pair.2⟩
      else none := by
  rw [bootstrapLoop_round rfl rfl, foldlM_storeNode _ (Nat.zero_le _)]
  simp only [List.length_nil, Nat.zero_add, List.nil_append]
  split
  · rfl
  · rfl

/-- The seeds are visited when there is one pair at most, and room for what it is
resolved to. -/
theorem visitsSeeds_iff {port : Int32} (hport : 0 < port ∧ port < 0x10000)
    (info : Str → Str → List Addr) (pairs : List (Str × Str)) :
    VisitsSeeds info port pairs ↔
      pairs.length ≤ 1 ∧ ∀ pair ∈ pairs, (info pair.1 pair.2).length ≤ maxBootstrapNodes := by
  unfold VisitsSeeds
  rw [dhtListInit_of_port hport]
  match pairs with
  | [] =>
    refine iff_of_true ⟨⟨[], []⟩, bootstrapLoop_end _ (Nat.le_refl _), rfl, Nat.zero_le _⟩ ?_
    simp
  | [pair] =>
    rw [bootstrapLoop_first, bootstrapLoop_end _ (by rw [nodeListOf_length]; simp)]
    constructor
    · intro hvisits
      obtain ⟨seeds, hlisted, -, -⟩ := hvisits
      split at hlisted
      · rename_i hroom
        simpa using hroom
      · exact absurd hlisted (by simp)
    · intro hfit
      have hpair := hfit.2 pair (List.mem_singleton_self pair)
      exact ⟨⟨[pair], info pair.1 pair.2⟩, if_pos hpair, rfl, hpair⟩
  | [first, second] =>
    -- the second round takes the last string for an address
    refine iff_of_false ?_ (by simp)
    intro hvisits
    obtain ⟨seeds, hlisted, -, -⟩ := hvisits
    rw [bootstrapLoop_first, bootstrapLoop_last _ rfl] at hlisted
    split at hlisted
    · exact absurd hlisted (by simp)
    · exact absurd hlisted (by simp)
  | first :: second :: third :: rest =>
    -- there are fewer rounds than pairs
    refine iff_of_false ?_ (by simp)
    intro hvisits
    obtain ⟨seeds, hlisted, hresolved, -⟩ := hvisits
    have hcount := bootstrapLoop_resolved hlisted
    rw [hresolved, nodeListOf_length] at hcount
    simp only [List.length_cons, List.length_nil] at hcount
    omega

/-- One seed with two addresses. -/
theorem visitsSeeds_one :
    VisitsSeeds (fun host service => [(host, service), (service, host)]) 8888
      [("192.168.0.11", "8888")] :=
  (visitsSeeds_iff (by decide) (fun host service => [(host, service), (service, host)])
    [("192.168.0.11", "8888")]).mpr ⟨by decide, by decide⟩

/-- With two seeds the loop reads the string behind the last one. -/
theorem visitsSeeds_fails_two :
    dhtListInit (fun host service => some [(host, service)]) 8888
        (nodeListOf [("192.168.0.11", "8888"), ("192.168.0.12", "8889")]) = none ∧
      ¬ VisitsSeeds (fun host service => [(host, service)]) 8888
        [("192.168.0.11", "8888"), ("192.168.0.12", "8889")] := by
  have hrun : dhtListInit (fun host service => some [(host, service)]) 8888
      (nodeListOf [("192.168.0.11", "8888"), ("192.168.0.12", "8889")]) = none := by
    simp [dhtListInit, nodeListOf, bootstrapLoop, storeNode, maxBootstrapNodes]
  refine ⟨hrun, ?_⟩
  intro hvisits
  obtain ⟨seeds, hlisted, -, -⟩ := hvisits
  rw [hrun] at hlisted
  exact absurd hlisted (by simp)

end SeaStore.Controller
