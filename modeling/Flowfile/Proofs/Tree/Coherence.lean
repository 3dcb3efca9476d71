import Flowfile.Proofs.Tree.Contents
import Flowfile.Proofs.Tree.Locate

/-! The path, the node and the parent of a location fit together.

Each of the two ways down builds all three step by step. Here the path is walked once more from the
root, key by key and item by item, and has to end at the node or at the parent. -/

namespace Flowfile

namespace Node

/-- The node that a segment leads to. No segment leads anywhere from a scalar or an alias. -/
def child? (node : Node) : Segment → Option Node
  | .key key => node.get? key
  | .index position => node.item? position

def walk? (root : Option Node) (path : Path) : Option Node :=
  path.foldl (fun reached segment => reached.bind fun node => node.child? segment) root

theorem walk?_concat (root : Option Node) (path : Path) (segment : Segment) :
    walk? root (path ++ [segment]) = (walk? root path).bind fun node => node.child? segment :=
  List.foldl_concat ..

end Node

namespace Location

open Node

/-- The path leads to the node, and without its last segment to the parent around the node. Only
the root has no parent. -/
def Stands (root : Option Node) (path : Path) (parent : Option Node) (node : Node) : Prop :=
  walk? root path = some node ∧
    (path = [] ∧ parent = none ∨
      path ≠ [] ∧ ∃ around, parent = some around ∧ node ∈ around.contents ∧
        walk? root path.dropLast = some around)

/-- There is no node: the document is empty, or an item is to be added, behind the last one of a
sequence or as the first one in place of an empty value. -/
def Vacant (root : Option Node) (path : Path) (parent : Option Node) : Prop :=
  root = none ∧ path = [] ∧ parent = none ∨
  (∃ info anchor flow items, parent = some (.sequence info anchor flow items) ∧
    walk? root path.dropLast = parent ∧ path.getLast? = some (.index (items.length : Nat))) ∨
  ∃ place value, path = place ++ [.index 0] ∧ place ≠ [] ∧ value.isEmpty = true ∧
    Stands root place parent value

structure Coherent (root : Option Node) (location : Location) : Prop where
  atKey : location.region = .key → ∃ key value parent,
    location.node = some key ∧ location.parent = some parent ∧ (key, value) ∈ parent.pairs ∧
      walk? root location.path.dropLast = some parent ∧
      location.path.getLast? = some (.key key.keyText)
  atNode : location.region ≠ .key → ∀ node, location.node = some node →
    Stands root location.path location.parent node
  atNothing : location.node = none →
    location.region = .empty ∧ Vacant root location.path location.parent
  atValue : location.region = .value → ∃ node, location.node = some node ∧ IsValue node

section

variable {root : Option Node} {path : Path} {parent : Option Node}

theorem stands_child {node inner : Node} {segment : Segment} (stands : walk? root path = some node)
    (member : inner ∈ node.contents) (leads : node.child? segment = some inner) :
    Stands root (path ++ [segment]) (some node) inner := by
  constructor
  · rw [walk?_concat, stands, Option.bind_some, leads]
  · refine .inr ⟨by simp, node, rfl, member, ?_⟩
    rw [List.dropLast_concat, stands]

theorem stands_value {info : NodeInfo} {anchor : Option Text} {flow : Bool}
    {pairs : List (Node × Node)} {key value : Node}
    (stands : walk? root path = some (.map info anchor flow pairs))
    (distinct : (Node.map info anchor flow pairs).DistinctKeys) (member : (key, value) ∈ pairs) :
    Stands root (path ++ [.key key.keyText]) (some (.map info anchor flow pairs)) value :=
  stands_child stands (mem_parts member).2 (get?_of_mem distinct member)

theorem coherent_key {key value node : Node} (stands : walk? root path = some node)
    (member : (key, value) ∈ node.pairs) :
    Coherent root ⟨some key, path ++ [.key key.keyText], .key, some node⟩ where
  atKey _ := by
    refine ⟨key, value, node, rfl, rfl, member, ?_, List.getLast?_concat⟩
    rw [List.dropLast_concat, stands]
  atNode other := absurd rfl other
  atNothing absent := by cases absent
  atValue region := by cases region

theorem coherent_node {node : Node} {region : Region} (stands : Stands root path parent node)
    (kind : region = .empty ∨ region = .value ∧ IsValue node) :
    Coherent root ⟨some node, path, region, parent⟩ where
  atKey atKey := by
    rcases kind with empty | ⟨value, -⟩
    · cases atKey.symm.trans empty
    · cases atKey.symm.trans value
  atNode _ other same := by
    cases same
    exact stands
  atNothing absent := by cases absent
  atValue value := by
    rcases kind with empty | ⟨-, plain⟩
    · cases value.symm.trans empty
    · exact ⟨node, rfl, plain⟩

theorem coherent_nothing (vacant : Vacant root path parent) :
    Coherent root ⟨none, path, .empty, parent⟩ where
  atKey region := by cases region
  atNode _ _ absent := by cases absent
  atNothing _ := ⟨rfl, vacant⟩
  atValue region := by cases region

end

theorem coherent_of_lands {root : Option Node} {path : Path} {parent : Option Node} {node : Node}
    {location : Location} (lands : Lands path parent node location)
    (stands : Stands root path parent node) (distinct : node.DistinctKeys) :
    Coherent root location := by
  induction lands with
  | self kind => exact coherent_node stands kind
  | key member => exact coherent_key stands.1 member
  | @nextItem path parent info anchor flow items =>
      refine coherent_nothing (.inr (.inl ⟨info, anchor, flow, items, rfl, ?_, ?_⟩))
      · rw [List.dropLast_concat]
        exact stands.1
      · exact List.getLast?_concat
  | @firstItem path parent info anchor flow pairs key value member empty =>
      have inside := stands_value stands.1 distinct member
      exact coherent_nothing (.inr (.inr ⟨_, value, rfl, by simp, empty, inside⟩))
  | @pair path parent info anchor flow pairs key value location member inner ih =>
      apply ih
      · exact stands_value stands.1 distinct member
      · exact ((distinctKeys_map_iff ..).mp distinct).2 key value member
  | @item path parent info anchor flow items position item location member inner ih =>
      have inside := List.mem_of_getElem? member
      apply ih
      · exact stands_child stands.1 inside member
      · exact (distinctKeys_sequence_iff ..).mp distinct item inside

/-- Wherever no mapping has two keys of one text, a location is coherent at every offset. -/
theorem locate_coherent (root : Option Node) (text : Text) (offset : Int)
    (distinct : ∀ node, root = some node → node.DistinctKeys) :
    Coherent root (locate root text offset) := by
  cases root with
  | none => exact coherent_nothing (.inl ⟨rfl, rfl, rfl⟩)
  | some root =>
      apply coherent_of_lands (locate_lands root text offset)
      · exact ⟨rfl, .inl ⟨rfl, rfl⟩⟩
      · exact distinct root rfl

/-- After a dash in the place of the value of `on`, where the first item of a list would start. -/
theorem locate_coherent_dash :
    let key : Node := .scalar ⟨4, 0, 2⟩ none (Text.of "on") (.str (Text.of "on")) none
    let value : Node := .scalar ⟨6, 3, 3⟩ none [] .null none
    let root : Node := .map ⟨2, 0, 3⟩ none false [(key, value)]
    let text := Text.of "on:\n  - "
    root.DistinctKeys ∧
      (locate (some root) text 8).path = [.key (Text.of "on"), .index 0] ∧
      (locate (some root) text 8).node = none ∧
      Coherent (some root) (locate (some root) text 8) := by
  intro key value root text
  have distinct : root.DistinctKeys := by
    refine (distinctKeys_map_iff ..).mpr ⟨by decide, fun other inner member => ?_⟩
    cases List.mem_singleton.mp member
    exact distinctKeys_scalar _ _ _ _ _
  refine ⟨distinct, ?_, ?_, locate_coherent (some root) text 8 fun node same => ?_⟩
  · rfl
  · rfl
  · cases same
    exact distinct

end Location

end Flowfile
