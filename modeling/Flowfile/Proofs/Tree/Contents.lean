import Mathlib.Data.List.Chain
import Flowfile.Tree.Basic

/-! What a node of a tree holds: the nodes directly in it, all nodes in it, and how deep they are
nested. What an alias refers to is not in it. -/

namespace Flowfile

def parts {α : Type} (pairs : List (α × α)) : List α := pairs.flatMap fun pair => [pair.1, pair.2]

theorem parts_cons {α : Type} (first second : α) (pairs : List (α × α)) :
    parts ((first, second) :: pairs) = first :: second :: parts pairs := rfl

theorem mem_parts {α : Type} {first second : α} {pairs : List (α × α)}
    (member : (first, second) ∈ pairs) : first ∈ parts pairs ∧ second ∈ parts pairs := by
  have both : ∀ each ∈ [first, second], each ∈ parts pairs := fun each inside =>
    List.mem_flatMap.mpr ⟨_, member, inside⟩
  exact ⟨both first (by simp), both second (by simp)⟩

namespace Node

def contents : Node → List Node
  | .map _ _ _ pairs => parts pairs
  | .sequence _ _ _ items => items
  | _ => []

mutual

def nodes : Node → List Node
  | .scalar info anchor raw value style => [.scalar info anchor raw value style]
  | .map info anchor flow pairs => .map info anchor flow pairs :: pairNodes pairs
  | .sequence info anchor flow items => .sequence info anchor flow items :: itemNodes items
  | .alias info name target => [.alias info name target]

def pairNodes : List (Node × Node) → List Node
  | [] => []
  | (key, value) :: rest => key.nodes ++ (value.nodes ++ pairNodes rest)

def itemNodes : List Node → List Node
  | [] => []
  | item :: rest => item.nodes ++ itemNodes rest

end

theorem pairNodes_eq (pairs : List (Node × Node)) :
    pairNodes pairs = (parts pairs).flatMap nodes := by
  induction pairs with
  | nil => rfl
  | cons pair rest ih => rw [pairNodes, ih, parts_cons, List.flatMap_cons, List.flatMap_cons]

theorem itemNodes_eq (items : List Node) : itemNodes items = items.flatMap nodes := by
  induction items with
  | nil => rfl
  | cons item rest ih => rw [itemNodes, ih, List.flatMap_cons]

theorem nodes_eq (node : Node) : node.nodes = node :: node.contents.flatMap nodes := by
  cases node with
  | scalar => rfl
  | map info anchor flow pairs => rw [nodes, pairNodes_eq, contents]
  | sequence info anchor flow items => rw [nodes, itemNodes_eq, contents]
  | «alias» => rfl

theorem self_mem_nodes (node : Node) : node ∈ node.nodes := by
  rw [nodes_eq]
  exact List.mem_cons_self

theorem nodes_of_contents {node inner each : Node} (member : inner ∈ node.contents)
    (below : each ∈ inner.nodes) : each ∈ node.nodes := by
  rw [nodes_eq]
  exact List.mem_cons_of_mem _ (List.mem_flatMap.mpr ⟨inner, member, below⟩)

mutual

theorem count_eq (node : Node) : node.count = node.nodes.length := by
  cases node with
  | scalar => rfl
  | map info anchor flow pairs =>
      rw [count, nodes, List.length_cons, countPairs_eq pairs, Nat.add_comm]
  | sequence info anchor flow items =>
      rw [count, nodes, List.length_cons, countItems_eq items, Nat.add_comm]
  | «alias» => rfl

theorem countPairs_eq (pairs : List (Node × Node)) : countPairs pairs = (pairNodes pairs).length := by
  match pairs with
  | [] => rfl
  | (key, value) :: rest =>
      rw [countPairs, pairNodes, List.length_append, List.length_append, count_eq key,
        count_eq value, countPairs_eq rest, Nat.add_assoc]

theorem countItems_eq (items : List Node) : countItems items = (itemNodes items).length := by
  match items with
  | [] => rfl
  | item :: rest =>
      rw [countItems, itemNodes, List.length_append, count_eq item, countItems_eq rest]

end

/-- No way down from the node leads through more collections that are not empty. -/
def Nests (node : Node) (limit : Nat) : Prop :=
  ∀ path, (node :: path).IsChain (fun outer inner => inner ∈ outer.contents) →
    (node :: path).countP (fun each => each.contents ≠ []) ≤ limit

theorem nests_leaf {node : Node} (leaf : node.contents = []) (limit : Nat) : node.Nests limit := by
  intro path chain
  cases path with
  | nil => simp [leaf]
  | cons inner rest =>
      have member := (List.isChain_cons_cons.mp chain).1
      rw [leaf] at member
      cases member

theorem nests_collection {node : Node} {limit : Nat}
    (inner : ∀ each ∈ node.contents, each.Nests limit) : node.Nests (limit + 1) := by
  intro path chain
  have self : [node].countP (fun each => each.contents ≠ []) ≤ 1 := List.countP_le_length
  cases path with
  | nil => omega
  | cons first rest =>
      obtain ⟨member, chain⟩ := List.isChain_cons_cons.mp chain
      have deeper := inner first member rest chain
      rw [← List.singleton_append, List.countP_append]
      omega

end Node

end Flowfile
