import Flowfile.Document
import Flowfile.Proofs.Recovery.Run
import Flowfile.Proofs.Tree.Faithful

/-! In a tree that has been built no mapping has two keys of one text, and no number stands for two
nodes: the numbers rise in document order. -/

namespace Flowfile

namespace Node

theorem pairIds_eq (pairs : List (Node × Node)) : pairIds pairs = (parts pairs).flatMap ids := by
  induction pairs with
  | nil => rfl
  | cons pair rest ih => rw [pairIds, ih, parts_cons, List.flatMap_cons, List.flatMap_cons]

theorem itemIds_eq (items : List Node) : itemIds items = items.flatMap ids := by
  induction items with
  | nil => rfl
  | cons item rest ih => rw [itemIds, ih, List.flatMap_cons]

theorem ids_eq (node : Node) : node.ids = node.id :: node.contents.flatMap ids := by
  cases node with
  | scalar => rfl
  | map info anchor flow pairs =>
      rw [ids, pairIds_eq, contents]
      rfl
  | sequence info anchor flow items =>
      rw [ids, itemIds_eq, contents]
      rfl
  | «alias» => rfl

theorem distinctKeys_of_contents {node : Node} (keys : node.keys.Nodup)
    (inner : ∀ each ∈ node.contents, each.DistinctKeys) : node.DistinctKeys := by
  intro path found leads
  cases leads with
  | here => exact keys
  | pair member leads => exact inner _ (mem_parts member).2 _ found leads
  | item member leads => exact inner _ (List.mem_of_getElem? member) _ found leads

end Node

namespace Build

/-- What comes of the visits from one count to another: numbers that rise, twice those of the
visits, and keys that are told apart by their texts. -/
structure Unique (low high : Nat) (results : List Node) : Prop where
  grows : low ≤ high
  rising : (results.flatMap Node.ids).Pairwise (· < ·)
  range : ∀ id ∈ results.flatMap Node.ids, 2 * low < id ∧ id ≤ 2 * high
  distinct : ∀ each ∈ results, each.DistinctKeys

theorem unique_nil (count : Nat) : Unique count count [] where
  grows := Nat.le_refl count
  rising := .nil
  range id member := by cases member
  distinct each member := by cases member

theorem unique_cons {low middle high : Nat} {result : Node} {results : List Node}
    (first : Unique low middle [result]) (rest : Unique middle high results) :
    Unique low high (result :: results) := by
  have whole : (result :: results).flatMap Node.ids =
      [result].flatMap Node.ids ++ results.flatMap Node.ids := by
    rw [List.flatMap_cons, List.flatMap_singleton]
  have before := first.grows
  have after := rest.grows
  refine ⟨Nat.le_trans before after, ?_, ?_, ?_⟩
  · rw [whole, List.pairwise_append]
    refine ⟨first.rising, rest.rising, fun id member id' member' => ?_⟩
    have := first.range id member
    have := rest.range id' member'
    omega
  · intro id member
    rw [whole] at member
    rcases List.mem_append.mp member with member | member
    · have := first.range id member
      omega
    · have := rest.range id member
      omega
  · intro each member
    rcases List.mem_cons.mp member with rfl | member
    · exact first.distinct _ List.mem_cons_self
    · exact rest.distinct each member

theorem unique_node {low high : Nat} {node : Node} {visited : List Node}
    (number : node.id = 2 * (low + 1)) (keys : node.keys.Nodup)
    (kept : node.contents.Sublist visited) (inner : Unique (low + 1) high visited) :
    Unique low high [node] := by
  have numbers : [node].flatMap Node.ids = node.id :: node.contents.flatMap Node.ids := by
    rw [List.flatMap_singleton, Node.ids_eq]
  have sub := kept.flatMap Node.ids
  have grows := inner.grows
  refine ⟨by omega, ?_, ?_, ?_⟩
  · rw [numbers, List.pairwise_cons]
    refine ⟨fun id member => ?_, inner.rising.sublist sub⟩
    have := inner.range id (sub.subset member)
    omega
  · intro id member
    rw [numbers] at member
    rcases List.mem_cons.mp member with rfl | member
    · omega
    · have := inner.range id (sub.subset member)
      omega
  · intro each member
    cases List.mem_singleton.mp member
    exact Node.distinctKeys_of_contents keys fun each member =>
      inner.distinct each (kept.subset member)

theorem threads_unique {convert : Convert}
    (each : ∀ {number searchFrom indicator s result s'},
      convert number searchFrom indicator s = some (result, s') → Unique s.count s'.count [result])
    {numbers : List Nat} {s s' : State} {results : List Node}
    (run : Threads convert numbers s results s') : Unique s.count s'.count results := by
  induction run with
  | nil => exact unique_nil _
  | cons first _ ih => exact unique_cons (each first) ih

theorem scalar_id (source : Text) (found : Yaml.Node) (id : Nat) (value : Text)
    (style : Option Yaml.Style) (searchFrom : Nat) (indicator : Option Char) :
    (scalar source found id value style searchFrom indicator).id = id := by
  rw [scalar]
  split <;> rfl

theorem node_unique {env : Env} {fuel : Nat} {above : List Nat} {number searchFrom : Nat}
    {indicator : Option Char} {s s' : State} {result : Node}
    (done : node env fuel above number searchFrom indicator s = some (result, s')) :
    Unique s.count s'.count [result] := by
  induction fuel generalizing above number searchFrom indicator s s' result with
  | zero => cases done
  | succ fuel ih =>
      obtain ⟨-, step⟩ := (node_eq_some_iff ..).mp done
      have fresh := unique_nil (s.count + 1)
      cases step with
      | missing | again => exact unique_node rfl .nil (.refl _) fresh
      | scalar here new content same =>
          rw [same]
          exact unique_node (scalar_id ..) .nil (.refl _) fresh
      | cutMapping here new content deep same | cutSequence here new content deep same =>
          rw [same]
          exact unique_node rfl .nil (.refl _) fresh
      | @mapping found flow children pairs info _ s₁ here new content shallow run place same =>
          have inner := threads_unique ih (mapPairs_threads run)
          have keys := (keepsLast_lastPairs pairs).distinct
          have kept := (lastPairs_sublist pairs).flatMap fun pair => [pair.1, pair.2]
          rw [same, place]
          exact unique_node rfl keys kept inner
      | sequence here new content shallow run place same =>
          have inner := threads_unique ih (seqItems_threads run)
          rw [same, place]
          exact unique_node rfl .nil (.refl _) inner

theorem tree_unique {limits : Limits} {source : Text} {graph : Yaml.Graph} {root : Node}
    {s : State} (done : tree limits source graph = some (root, s)) :
    root.DistinctKeys ∧ root.ids.Nodup := by
  have unique := node_unique done
  have rising := unique.rising
  rw [List.flatMap_singleton] at rising
  exact ⟨unique.distinct root List.mem_cons_self, rising.imp Nat.ne_of_lt⟩

end Build

namespace Recovery

theorem loadWith_unique {σ : Type} {compose : Composer σ} {start : σ} {settings : Settings}
    {content : Text} {root : Node} {diagnostics : List Diagnostic}
    (loaded : loadWith compose start settings content = .ok (some root, diagnostics)) :
    root.DistinctKeys ∧ root.ids.Nodup := by
  obtain ⟨_, _, graph, s, _, done⟩ := tree_of_loadWith loaded
  exact Build.tree_unique done

end Recovery

/-- Each document that is read has a tree in which keys and nodes can be told apart. -/
theorem Document.read_unique {settings : Settings} {schema : Schema} {contexts : ContextSource}
    {text : Text} {document : Document} (done : read settings schema contexts text = .ok document)
    {root : Node} (held : document.root = some root) : root.DistinctKeys ∧ root.ids.Nodup := by
  obtain ⟨⟨tree, errors⟩, loaded, checked⟩ := (bind_eq_ok ..).mp done
  rw [mapError_eq_ok_iff] at loaded checked
  obtain ⟨findings, -, whole⟩ := (bind_eq_ok ..).mp checked
  cases whole
  rw [Recovery.load, show tree = some root from held] at loaded
  exact Recovery.loadWith_unique loaded

end Flowfile
