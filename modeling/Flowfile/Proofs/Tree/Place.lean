import Flowfile.Path
import Flowfile.Tree.Basic

/-! Places in a tree: which paths lead to which of its nodes. No path leads through an alias.

Where every node occurs once, a node stands at one place only. -/

namespace Flowfile.Node

def isAlias : Node → Bool
  | .alias .. => true
  | _ => false

mutual

/-- The numbers of a node and of all nodes below it, keys included. What an alias refers to is not
below it. -/
def ids : Node → List Nat
  | .scalar info _ _ _ _ => [info.id]
  | .map info _ _ pairs => info.id :: pairIds pairs
  | .sequence info _ _ items => info.id :: itemIds items
  | .alias info _ _ => [info.id]

def pairIds : List (Node × Node) → List Nat
  | [] => []
  | (key, value) :: rest => key.ids ++ (value.ids ++ pairIds rest)

def itemIds : List Node → List Nat
  | [] => []
  | item :: rest => item.ids ++ itemIds rest

end

inductive Leads : Node → Path → Node → Prop
  | here {node} : Leads node [] node
  | pair {info anchor flow pairs key value path node} (member : (key, value) ∈ pairs)
      (inner : Leads value path node) :
      Leads (.map info anchor flow pairs) (.key key.keyText :: path) node
  | item {info anchor flow items position item path node}
      (member : items[position]? = some item) (inner : Leads item path node) :
      Leads (.sequence info anchor flow items) (.index (position : Nat) :: path) node

/-- No mapping that a path leads to has two keys of one text. -/
def DistinctKeys (root : Node) : Prop := ∀ path node, root.Leads path node → node.keys.Nodup

theorem value_smaller {info : NodeInfo} {anchor : Option Text} {flow : Bool}
    {pairs : List (Node × Node)} {key value : Node} (member : (key, value) ∈ pairs) :
    sizeOf value < sizeOf (Node.map info anchor flow pairs) := by
  have small := List.sizeOf_lt_of_mem member
  simp only [Prod.mk.sizeOf_spec] at small
  simp only [Node.map.sizeOf_spec]
  omega

theorem item_smaller {info : NodeInfo} {anchor : Option Text} {flow : Bool} {items : List Node}
    {position : Nat} {item : Node} (member : items[position]? = some item) :
    sizeOf item < sizeOf (Node.sequence info anchor flow items) := by
  have small := List.sizeOf_lt_of_mem (List.mem_of_getElem? member)
  simp only [Node.sequence.sizeOf_spec]
  omega

theorem id_mem_ids (node : Node) : node.id ∈ node.ids := by
  cases node <;> exact List.mem_cons_self

theorem mem_pairIds (pairs : List (Node × Node)) (key value : Node) (id : Nat)
    (member : (key, value) ∈ pairs) (inside : id ∈ value.ids) : id ∈ pairIds pairs := by
  induction pairs with
  | nil => cases member
  | cons first rest ih =>
      rw [pairIds, List.mem_append, List.mem_append]
      rcases List.mem_cons.mp member with rfl | member
      · exact .inr (.inl inside)
      · exact .inr (.inr (ih member))

theorem mem_itemIds (items : List Node) (position : Nat) (item : Node) (id : Nat)
    (member : items[position]? = some item) (inside : id ∈ item.ids) : id ∈ itemIds items := by
  induction items generalizing position with
  | nil => cases member
  | cons first rest ih =>
      rw [itemIds, List.mem_append]
      cases position with
      | zero =>
          cases member
          exact .inl inside
      | succ position => exact .inr (ih position member)

theorem leads_id_mem {root node : Node} {path : Path} (leads : root.Leads path node) :
    node.id ∈ root.ids := by
  induction leads with
  | @here node => exact id_mem_ids node
  | @pair info anchor flow pairs key value path node member inner ih =>
      exact List.mem_cons_of_mem _ (mem_pairIds pairs key value _ member ih)
  | @item info anchor flow items position item path node member inner ih =>
      exact List.mem_cons_of_mem _ (mem_itemIds items position item _ member ih)

theorem leads_index_nonneg {root node : Node} {path : Path} (leads : root.Leads path node)
    (position : Int) (member : .index position ∈ path) : 0 ≤ position := by
  induction leads with
  | here => cases member
  | pair found inner ih =>
      rcases List.mem_cons.mp member with same | member
      · cases same
      · exact ih member
  | item found inner ih =>
      rcases List.mem_cons.mp member with same | member
      · cases same
        exact Int.natCast_nonneg _
      · exact ih member

theorem value_ids_nodup (pairs : List (Node × Node)) (key value : Node)
    (once : (pairIds pairs).Nodup) (member : (key, value) ∈ pairs) : value.ids.Nodup := by
  induction pairs with
  | nil => cases member
  | cons first rest ih =>
      obtain ⟨-, tail, -⟩ := List.nodup_append.mp once
      obtain ⟨inner, others, -⟩ := List.nodup_append.mp tail
      rcases List.mem_cons.mp member with rfl | member
      · exact inner
      · exact ih others member

theorem item_ids_nodup (items : List Node) (position : Nat) (item : Node)
    (once : (itemIds items).Nodup) (member : items[position]? = some item) : item.ids.Nodup := by
  induction items generalizing position with
  | nil => cases member
  | cons first rest ih =>
      obtain ⟨inner, others, -⟩ := List.nodup_append.mp once
      cases position with
      | zero =>
          cases member
          exact inner
      | succ position => exact ih position others member

theorem pair_unique (pairs : List (Node × Node)) (key value key' value' : Node) (id : Nat)
    (once : (pairIds pairs).Nodup) (member : (key, value) ∈ pairs)
    (member' : (key', value') ∈ pairs) (inside : id ∈ value.ids) (inside' : id ∈ value'.ids) :
    key = key' ∧ value = value' := by
  induction pairs with
  | nil => cases member
  | cons first rest ih =>
      obtain ⟨-, tail, -⟩ := List.nodup_append.mp once
      obtain ⟨-, others, apart⟩ := List.nodup_append.mp tail
      rcases List.mem_cons.mp member with rfl | later
      · rcases List.mem_cons.mp member' with same | later'
        · cases same
          exact ⟨rfl, rfl⟩
        · exact absurd rfl (apart id inside id (mem_pairIds rest key' value' id later' inside'))
      · rcases List.mem_cons.mp member' with rfl | later'
        · exact absurd rfl (apart id inside' id (mem_pairIds rest key value id later inside))
        · exact ih others later later'

theorem item_unique (items : List Node) (position position' : Nat) (item item' : Node) (id : Nat)
    (once : (itemIds items).Nodup) (member : items[position]? = some item)
    (member' : items[position']? = some item') (inside : id ∈ item.ids)
    (inside' : id ∈ item'.ids) : position = position' := by
  induction items generalizing position position' with
  | nil => cases member
  | cons first rest ih =>
      obtain ⟨-, others, apart⟩ := List.nodup_append.mp once
      cases position with
      | zero =>
          cases member
          cases position' with
          | zero => rfl
          | succ position' =>
              exact absurd rfl
                (apart id inside id (mem_itemIds rest position' item' id member' inside'))
      | succ position =>
          cases position' with
          | zero =>
              cases member'
              exact absurd rfl
                (apart id inside' id (mem_itemIds rest position item id member inside))
          | succ position' => rw [ih position position' others member member']

theorem leads_unique {root node node' : Node} {path path' : Path} (once : root.ids.Nodup)
    (leads : root.Leads path node) (leads' : root.Leads path' node') (same : node.id = node'.id) :
    path = path' ∧ node = node' := by
  induction leads generalizing path' node' with
  | @here node =>
      cases leads' with
      | here => exact ⟨rfl, rfl⟩
      | pair member' inner' =>
          have inside := mem_pairIds _ _ _ _ member' (leads_id_mem inner')
          rw [← same] at inside
          exact absurd inside (List.nodup_cons.mp once).1
      | item member' inner' =>
          have inside := mem_itemIds _ _ _ _ member' (leads_id_mem inner')
          rw [← same] at inside
          exact absurd inside (List.nodup_cons.mp once).1
  | @pair info anchor flow pairs key value path node member inner ih =>
      obtain ⟨apart, below⟩ := List.nodup_cons.mp once
      have inside := leads_id_mem inner
      cases leads' with
      | here =>
          rw [same] at inside
          exact absurd (mem_pairIds _ _ _ _ member inside) apart
      | @pair _ _ _ _ key' value' path' _ member' inner' =>
          have inside' := leads_id_mem inner'
          rw [← same] at inside'
          obtain ⟨rfl, rfl⟩ := pair_unique pairs key value key' value' _ below member member'
            inside inside'
          obtain ⟨rfl, rfl⟩ := ih (value_ids_nodup pairs key value below member) inner' same
          exact ⟨rfl, rfl⟩
  | @item info anchor flow items position item path node member inner ih =>
      obtain ⟨apart, below⟩ := List.nodup_cons.mp once
      have inside := leads_id_mem inner
      cases leads' with
      | here =>
          rw [same] at inside
          exact absurd (mem_itemIds _ _ _ _ member inside) apart
      | @item _ _ _ _ position' item' path' _ member' inner' =>
          have inside' := leads_id_mem inner'
          rw [← same] at inside'
          cases item_unique items position position' item item' _ below member member' inside
            inside'
          cases Option.some.inj (member.symm.trans member')
          obtain ⟨rfl, rfl⟩ := ih (item_ids_nodup items position item below member) inner' same
          exact ⟨rfl, rfl⟩

theorem distinctKeys_scalar (info : NodeInfo) (anchor : Option Text) (raw : Text) (value : Value)
    (style : Option Yaml.Style) : (Node.scalar info anchor raw value style).DistinctKeys := by
  intro path node leads
  cases leads
  exact List.nodup_nil

theorem distinctKeys_map_iff (info : NodeInfo) (anchor : Option Text) (flow : Bool)
    (pairs : List (Node × Node)) :
    (Node.map info anchor flow pairs).DistinctKeys ↔
      (Node.map info anchor flow pairs).keys.Nodup ∧
        ∀ key value, (key, value) ∈ pairs → value.DistinctKeys := by
  constructor
  · intro distinct
    exact ⟨distinct [] _ .here, fun key value member path node inner =>
      distinct _ node (.pair member inner)⟩
  · rintro ⟨keys, values⟩ path node leads
    cases leads with
    | here => exact keys
    | pair member inner => exact values _ _ member _ node inner

theorem distinctKeys_sequence_iff (info : NodeInfo) (anchor : Option Text) (flow : Bool)
    (items : List Node) :
    (Node.sequence info anchor flow items).DistinctKeys ↔ ∀ item ∈ items, item.DistinctKeys := by
  constructor
  · intro distinct item member path node inner
    obtain ⟨position, found⟩ := List.mem_iff_getElem?.mp member
    exact distinct _ node (.item found inner)
  · intro distinct path node leads
    cases leads with
    | here => exact List.nodup_nil
    | item member inner => exact distinct _ (List.mem_of_getElem? member) _ node inner

theorem get?_of_mem {info : NodeInfo} {anchor : Option Text} {flow : Bool}
    {pairs : List (Node × Node)} {key value : Node}
    (distinct : (Node.map info anchor flow pairs).DistinctKeys) (member : (key, value) ∈ pairs) :
    (Node.map info anchor flow pairs).get? key.keyText = some value := by
  have keys : (pairs.map fun pair => pair.1.keyText).Nodup := distinct [] _ .here
  change (pairs.find? fun pair => decide (pair.1.keyText = key.keyText)).map (·.2) = some value
  clear distinct
  induction pairs with
  | nil => cases member
  | cons first rest ih =>
      obtain ⟨apart, others⟩ := List.nodup_cons.mp keys
      rcases List.mem_cons.mp member with rfl | member
      · simp
      · have different : first.1.keyText ≠ key.keyText := by
          intro same
          exact apart (List.mem_map.mpr ⟨_, member, same.symm⟩)
        rw [List.find?_cons_of_neg (by simpa using different)]
        exact ih member others

end Flowfile.Node
