import Flowfile.Proofs.Tree.Locate

/-! Where every node occurs once, a node and a region belong to one location only. -/

namespace Flowfile

namespace Node

section

variable {pairs : List (Node × Node)} {key value : Node} {id : Nat}

theorem key_mem_pairIds (member : (key, value) ∈ pairs) (inside : id ∈ key.ids) :
    id ∈ pairIds pairs := by
  induction pairs with
  | nil => cases member
  | cons first rest ih =>
      rw [pairIds, List.mem_append, List.mem_append]
      rcases List.mem_cons.mp member with rfl | member
      · exact .inl inside
      · exact .inr (.inr (ih member))

theorem key_value_apart {key' value' : Node} (once : (pairIds pairs).Nodup)
    (member : (key, value) ∈ pairs) (member' : (key', value') ∈ pairs) (inside : id ∈ key.ids) :
    id ∉ value'.ids := by
  intro inside'
  induction pairs with
  | nil => cases member
  | cons first rest ih =>
      obtain ⟨-, tail, front⟩ := List.nodup_append.mp once
      obtain ⟨-, others, back⟩ := List.nodup_append.mp tail
      rcases List.mem_cons.mp member with rfl | later
      · refine front id inside id ?_ rfl
        rcases List.mem_cons.mp member' with same | later'
        · cases same
          exact List.mem_append_left _ inside'
        · exact List.mem_append_right _ (mem_pairIds rest key' value' id later' inside')
      · rcases List.mem_cons.mp member' with rfl | later'
        · exact back id inside' id (key_mem_pairIds later inside) rfl
        · exact ih others later later'

theorem key_unique {key' value' : Node} (once : (pairIds pairs).Nodup)
    (member : (key, value) ∈ pairs) (member' : (key', value') ∈ pairs) (inside : id ∈ key.ids)
    (inside' : id ∈ key'.ids) : key = key' := by
  induction pairs with
  | nil => cases member
  | cons first rest ih =>
      obtain ⟨-, tail, front⟩ := List.nodup_append.mp once
      obtain ⟨-, others, -⟩ := List.nodup_append.mp tail
      rcases List.mem_cons.mp member with rfl | later
      · rcases List.mem_cons.mp member' with same | later'
        · cases same
          rfl
        · have behind := List.mem_append_right value.ids (key_mem_pairIds later' inside')
          exact absurd rfl (front id inside id behind)
      · rcases List.mem_cons.mp member' with rfl | later'
        · have behind := List.mem_append_right value'.ids (key_mem_pairIds later inside)
          exact absurd rfl (front id inside' id behind)
        · exact ih others later later'

end

end Node

namespace Location

open Node

theorem lands_id_mem {path : Path} {parent : Option Node} {root node : Node} {location : Location}
    (lands : Lands path parent root location) (here : location.node = some node) :
    node.id ∈ root.ids := by
  induction lands with
  | self =>
      cases here
      exact id_mem_ids _
  | key member =>
      cases here
      exact List.mem_cons_of_mem _ (key_mem_pairIds member (id_mem_ids _))
  | nextItem | firstItem => cases here
  | pair member _ ih => exact List.mem_cons_of_mem _ (mem_pairIds _ _ _ _ member (ih here))
  | item member _ ih => exact List.mem_cons_of_mem _ (mem_itemIds _ _ _ _ member (ih here))

section

variable {path : Path} {parent : Option Node} {info : NodeInfo} {anchor : Option Text}
  {flow : Bool} {node : Node} {location : Location}

theorem lands_value_apart {pairs : List (Node × Node)} {key value : Node}
    (once : (Node.map info anchor flow pairs).ids.Nodup) (member : (key, value) ∈ pairs)
    (lands : Lands path parent value location) (here : location.node = some node) :
    node.id ≠ info.id ∧ ∀ key' value', (key', value') ∈ pairs → node.id ≠ key'.id := by
  obtain ⟨apart, below⟩ := List.nodup_cons.mp once
  have inside := lands_id_mem lands here
  constructor
  · intro same
    rw [same] at inside
    exact apart (mem_pairIds _ _ _ _ member inside)
  · intro key' value' member' same
    rw [same] at inside
    exact key_value_apart below member' member (id_mem_ids key') inside

theorem lands_item_apart {items : List Node} {position : Nat} {item : Node}
    (once : (Node.sequence info anchor flow items).ids.Nodup)
    (member : items[position]? = some item) (lands : Lands path parent item location)
    (here : location.node = some node) : node.id ≠ info.id := by
  intro same
  have inside := lands_id_mem lands here
  rw [same] at inside
  exact (List.nodup_cons.mp once).1 (mem_itemIds _ _ _ _ member inside)

end

theorem lands_unique {path : Path} {parent : Option Node} {root node node' : Node}
    {location location' : Location} (once : root.ids.Nodup)
    (lands : Lands path parent root location) (lands' : Lands path parent root location')
    (here : location.node = some node) (here' : location'.node = some node')
    (same : node.id = node'.id) (region : location.region = location'.region) :
    location = location' := by
  induction lands with
  | @self path parent root region' kind =>
      cases here
      cases lands' with
      | self =>
          cases region
          rfl
      | key =>
          cases region
          rcases kind with wrong | ⟨wrong, -⟩ <;> cases wrong
      | nextItem | firstItem => cases here'
      | pair member inner => exact absurd same.symm (lands_value_apart once member inner here').1
      | item member inner => exact absurd same.symm (lands_item_apart once member inner here')
  | @key path parent info anchor flow pairs key value member =>
      cases here
      cases lands' with
      | self kind =>
          cases region
          rcases kind with wrong | ⟨wrong, -⟩ <;> cases wrong
      | key member' =>
          cases here'
          have inside' := id_mem_ids node'
          rw [← same] at inside'
          cases key_unique (List.nodup_cons.mp once).2 member member' (id_mem_ids node) inside'
          rfl
      | firstItem => cases here'
      | pair member' inner' =>
          have apart := (lands_value_apart once member' inner' here').2 _ _ member
          exact absurd same.symm apart
  | nextItem | firstItem => cases here
  | @pair path parent info anchor flow pairs key value location member inner ih =>
      obtain ⟨apart, others⟩ := lands_value_apart once member inner here
      have below := (List.nodup_cons.mp once).2
      have inside := lands_id_mem inner here
      cases lands' with
      | self =>
          cases here'
          exact absurd same apart
      | key member' =>
          cases here'
          exact absurd same (others _ _ member')
      | firstItem => cases here'
      | pair member' inner' =>
          rw [same] at inside
          obtain ⟨rfl, rfl⟩ := pair_unique pairs _ _ _ _ _ below member member' inside
            (lands_id_mem inner' here')
          exact ih (value_ids_nodup pairs _ _ below member) inner' here region
  | @item path parent info anchor flow items position item location member inner ih =>
      have apart := lands_item_apart once member inner here
      have below := (List.nodup_cons.mp once).2
      have inside := lands_id_mem inner here
      cases lands' with
      | self =>
          cases here'
          exact absurd same apart
      | nextItem => cases here'
      | item member' inner' =>
          rw [same] at inside
          cases item_unique items _ _ _ _ _ below member member' inside (lands_id_mem inner' here')
          cases member.symm.trans member'
          exact ih (item_ids_nodup items _ _ below member) inner' here region

theorem locate_unique {root : Node} (once : root.ids.Nodup) {text : Text} {offset offset' : Int}
    {id : Nat} (here : (locate (some root) text offset).node.map Node.id = some id)
    (here' : (locate (some root) text offset').node.map Node.id = some id)
    (region : (locate (some root) text offset).region = (locate (some root) text offset').region) :
    locate (some root) text offset = locate (some root) text offset' := by
  obtain ⟨node, found, number⟩ := Option.map_eq_some_iff.mp here
  obtain ⟨node', found', number'⟩ := Option.map_eq_some_iff.mp here'
  exact lands_unique once (locate_lands root text offset) (locate_lands root text offset') found
    found' (number.trans number'.symm) region

end Location

end Flowfile
