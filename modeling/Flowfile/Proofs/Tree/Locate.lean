import Flowfile.Location
import Flowfile.Proofs.Tree.Place

/-! Where a location lies in its tree. Both ways down end at a node, at one of its keys, or where a
new item would start, and the path has a segment for each step. -/

namespace Flowfile.Location

open Cursor

def IsValue : Node → Prop
  | .alias .. => True
  | .scalar info anchor raw value style => (Node.scalar info anchor raw value style).isEmpty = false
  | _ => False

inductive Lands : Path → Option Node → Node → Location → Prop
  | self {path parent node region} (kind : region = .empty ∨ region = .value ∧ IsValue node) :
      Lands path parent node ⟨some node, path, region, parent⟩
  | key {path parent info anchor flow pairs key value} (member : (key, value) ∈ pairs) :
      Lands path parent (.map info anchor flow pairs)
        ⟨some key, path ++ [.key key.keyText], .key, some (.map info anchor flow pairs)⟩
  | nextItem {path parent info anchor flow items} :
      Lands path parent (.sequence info anchor flow items)
        ⟨none, path ++ [.index (items.length : Nat)], .empty,
          some (.sequence info anchor flow items)⟩
  | firstItem {path parent info anchor flow pairs key value} (member : (key, value) ∈ pairs)
      (empty : value.isEmpty = true) :
      Lands path parent (.map info anchor flow pairs)
        ⟨none, path ++ [.key key.keyText] ++ [.index 0], .empty,
          some (.map info anchor flow pairs)⟩
  | pair {path parent info anchor flow pairs key value location} (member : (key, value) ∈ pairs)
      (inner : Lands (path ++ [.key key.keyText]) (some (.map info anchor flow pairs)) value
        location) :
      Lands path parent (.map info anchor flow pairs) location
  | item {path parent info anchor flow items position item location}
      (member : items[position]? = some item)
      (inner : Lands (path ++ [.index (position : Nat)]) (some (.sequence info anchor flow items))
        item location) :
      Lands path parent (.sequence info anchor flow items) location

theorem lands_empty (path : Path) (parent : Option Node) (node : Node) :
    Lands path parent node ⟨some node, path, .empty, parent⟩ := .self (.inl rfl)

theorem isValue_of_not {node : Node} (filled : ¬node.isEmpty = true)
    (plain : ¬isCollection node = true) : IsValue node := by
  cases node with
  | scalar => exact Bool.eq_false_iff.mpr filled
  | map | sequence => exact absurd rfl plain
  | «alias» => exact trivial

section

variable {c : Cursor} {path : Path} {parent : Option Node} {info : NodeInfo} {anchor : Option Text}
  {flow : Bool}

section

variable {all pairs : List (Node × Node)} {location : Location}

theorem spanPairs_lands
    (inner : ∀ key value, (key, value) ∈ all → ∀ path parent,
      Lands path parent value (bySpan c path parent value))
    (within : pairs ⊆ all)
    (found : spanPairs c path (.map info anchor flow all) pairs = some location) :
    Lands path parent (.map info anchor flow all) location := by
  induction pairs with
  | nil => cases found
  | cons first rest ih =>
      obtain ⟨key, value⟩ := first
      have member : (key, value) ∈ all := within List.mem_cons_self
      have later := ih fun pair rested => within (List.mem_cons_of_mem _ rested)
      rw [spanPairs.eq_def] at found
      dsimp only at found
      split at found
      · cases found
        exact .key member
      · split at found
        · split at found
          · cases found
            exact .pair member (inner key value member _ _)
          · exact later found
        · split at found
          all_goals
            split at found
            · cases found
              exact .pair member (lands_empty _ _ value)
            · exact later found

theorem indentPairs_lands {indent : Indent}
    (inner : ∀ key value, (key, value) ∈ all → ∀ path parent,
      Lands path parent value (byIndent c indent path parent value))
    (within : pairs ⊆ all)
    (found : indentPairs c indent path (.map info anchor flow all) pairs = some location) :
    Lands path parent (.map info anchor flow all) location := by
  induction pairs with
  | nil => cases found
  | cons first rest ih =>
      obtain ⟨key, value⟩ := first
      have member : (key, value) ∈ all := within List.mem_cons_self
      rw [indentPairs.eq_def] at found
      dsimp only at found
      split at found
      · exact ih (fun pair rested => within (List.mem_cons_of_mem _ rested)) found
      · split at found
        · cases found
        · split at found
          · rename_i empty
            split at found
            · cases found
              exact .firstItem member empty
            · cases found
              exact .pair member (lands_empty _ _ value)
          · rename_i filled
            split at found
            · cases found
              exact .pair member (inner key value member _ _)
            · rename_i plain
              cases found
              exact .pair member (.self (.inr ⟨rfl, isValue_of_not filled plain⟩))

theorem indentlessPairs_lands {indent : Indent}
    (inner : ∀ key value, (key, value) ∈ all → ∀ path parent,
      Lands path parent value (byIndent c indent path parent value))
    (within : pairs ⊆ all)
    (found : indentlessPairs c indent path (.map info anchor flow all) pairs = some location) :
    Lands path parent (.map info anchor flow all) location := by
  induction pairs with
  | nil => cases found
  | cons first rest ih =>
      obtain ⟨key, value⟩ := first
      have member : (key, value) ∈ all := within List.mem_cons_self
      rw [indentlessPairs.eq_def] at found
      dsimp only at found
      split at found
      · exact ih (fun pair rested => within (List.mem_cons_of_mem _ rested)) found
      · split at found
        · cases found
          exact .pair member (inner key value member _ _)
        · cases found

end

section

variable {all items : List Node} {position : Nat} {location : Location}

theorem spanItems_lands
    (inner : ∀ item ∈ all, ∀ path parent, Lands path parent item (bySpan c path parent item))
    (within : all.drop position = items)
    (found : spanItems c path (.sequence info anchor flow all) position items = some location) :
    Lands path parent (.sequence info anchor flow all) location := by
  induction items generalizing position with
  | nil => cases found
  | cons first rest ih =>
      have member : all[position]? = some first := by
        rw [← List.head?_drop, within, List.head?_cons]
      have behind : all.drop (position + 1) = rest := by
        rw [← List.tail_drop, within, List.tail_cons]
      have later := ih behind
      rw [spanItems.eq_def] at found
      dsimp only at found
      split at found
      · split at found
        all_goals
          split at found
          · cases found
            exact .item member (lands_empty _ _ first)
          · exact later found
      · split at found
        · cases found
          exact .item member (inner first (List.mem_of_getElem? member) _ _)
        · exact later found

theorem dashItem_lands (within : all.drop position = items)
    (found : dashItem c path (.sequence info anchor flow all) position items = some location) :
    Lands path parent (.sequence info anchor flow all) location := by
  induction items generalizing position with
  | nil => cases found
  | cons first rest ih =>
      have member : all[position]? = some first := by
        rw [← List.head?_drop, within, List.head?_cons]
      rw [dashItem] at found
      split at found
      · exact ih (by rw [← List.tail_drop, within, List.tail_cons]) found
      · split at found
        · cases found
          exact .item member (lands_empty _ _ first)
        · cases found

theorem indentItems_lands {indent : Indent}
    (inner : ∀ item ∈ all, ∀ path parent,
      Lands path parent item (byIndent c indent path parent item))
    (within : all.drop position = items)
    (found : indentItems c indent path (.sequence info anchor flow all) position items =
      some location) :
    Lands path parent (.sequence info anchor flow all) location := by
  induction items generalizing position with
  | nil => cases found
  | cons first rest ih =>
      have member : all[position]? = some first := by
        rw [← List.head?_drop, within, List.head?_cons]
      rw [indentItems.eq_def] at found
      dsimp only at found
      split at found
      · exact ih (by rw [← List.tail_drop, within, List.tail_cons]) found
      · split at found
        · cases found
        · split at found
          · cases found
            exact .item member (lands_empty _ _ first)
          · rename_i filled
            split at found
            · cases found
              exact .item member (inner first (List.mem_of_getElem? member) _ _)
            · rename_i plain
              cases found
              exact .item member (.self (.inr ⟨rfl, isValue_of_not filled plain⟩))

end

end

theorem lands_getD {path : Path} {parent : Option Node} {node : Node} {found : Option Location}
    {here : Location} (stays : Lands path parent node here)
    (enters : ∀ location, found = some location → Lands path parent node location) :
    Lands path parent node (found.getD here) := by
  cases found with
  | none => exact stays
  | some location => exact enters location rfl

theorem lands_bySpan (c : Cursor) (path : Path) (parent : Option Node) (node : Node) :
    Lands path parent node (bySpan c path parent node) := by
  induction size : sizeOf node using Nat.strongRecOn generalizing path parent node with
  | ind total ih =>
      cases node with
      | «alias» info name target =>
          rw [bySpan]
          exact .self (.inr ⟨rfl, trivial⟩)
      | scalar info anchor raw value style =>
          rw [bySpan]
          split
          · exact .self (.inl rfl)
          · rename_i filled
            exact .self (.inr ⟨rfl, Bool.eq_false_iff.mpr filled⟩)
      | map info anchor flow pairs =>
          have inner (key value : Node) (member : (key, value) ∈ pairs) (path : Path)
              (parent : Option Node) : Lands path parent value (bySpan c path parent value) :=
            ih (sizeOf value) (size ▸ Node.value_smaller member) path parent value rfl
          rw [bySpan]
          exact lands_getD (lands_empty path parent _) fun _ => spanPairs_lands inner fun _ => id
      | sequence info anchor flow items =>
          have inner (item : Node) (member : item ∈ items) (path : Path)
              (parent : Option Node) : Lands path parent item (bySpan c path parent item) := by
            obtain ⟨position, member⟩ := List.mem_iff_getElem?.mp member
            exact ih (sizeOf item) (size ▸ Node.item_smaller member) path parent item rfl
          rw [bySpan]
          exact lands_getD (lands_empty path parent _) fun _ => spanItems_lands inner rfl

theorem lands_byIndent (c : Cursor) (indent : Indent) (path : Path) (parent : Option Node)
    (node : Node) : Lands path parent node (byIndent c indent path parent node) := by
  induction size : sizeOf node using Nat.strongRecOn generalizing path parent node with
  | ind total ih =>
      have stays := lands_empty path parent node
      cases node with
      | «alias» info name target =>
          rw [byIndent]
          exact .self (.inr ⟨rfl, trivial⟩)
      | scalar info anchor raw value style =>
          rw [byIndent]
          exact stays
      | map info anchor flow pairs =>
          have inner (key value : Node) (member : (key, value) ∈ pairs) (path : Path)
              (parent : Option Node) :
              Lands path parent value (byIndent c indent path parent value) :=
            ih (sizeOf value) (size ▸ Node.value_smaller member) path parent value rfl
          rw [byIndent.eq_def]
          dsimp only
          split
          · exact stays
          · exact stays
          · split
            · exact lands_getD stays fun _ => indentPairs_lands inner fun _ => id
            · split
              · exact lands_getD stays fun _ => indentlessPairs_lands inner fun _ => id
              · exact stays
      | sequence info anchor flow items =>
          have inner (item : Node) (member : item ∈ items) (path : Path)
              (parent : Option Node) :
              Lands path parent item (byIndent c indent path parent item) := by
            obtain ⟨position, member⟩ := List.mem_iff_getElem?.mp member
            exact ih (sizeOf item) (size ▸ Node.item_smaller member) path parent item rfl
          rw [byIndent]
          split
          · exact stays
          · split
            · split
              · exact lands_getD .nextItem fun _ => dashItem_lands rfl
              · exact stays
            · exact lands_getD stays fun _ => indentItems_lands inner rfl

theorem locate_lands (root : Node) (text : Text) (offset : Int) :
    Lands [] none root (locate (some root) text offset) := by
  change Lands [] none root (ofCursor root ⟨text, min offset.toNat text.length⟩)
  generalize (⟨text, min offset.toNat text.length⟩ : Cursor) = c
  rw [ofCursor]
  have spanned : Lands [] none root
      (if isCollection root || root.contains c.offset then c.bySpan [] none root
        else ⟨some root, [], .empty, none⟩) := by
    split
    · exact lands_bySpan c [] none root
    · exact lands_empty [] none root
  generalize (if isCollection root || root.contains c.offset then c.bySpan [] none root
    else (⟨some root, [], .empty, none⟩ : Location)) = found at spanned ⊢
  split
  · split
    · exact lands_byIndent c _ [] none root
    · exact spanned
  · exact spanned

def Placed (path : Path) (node : Node) (location : Location) : Prop :=
  (location.region = .value → ∃ suffix found, location.path = path ++ suffix ∧
    location.node = some found ∧ node.Leads suffix found) ∧
  (location.region = .key → ∃ suffix segment parent,
    location.path = path ++ (suffix ++ [segment]) ∧ location.parent = some parent ∧
      parent.isAlias = false ∧ node.Leads suffix parent)

theorem placed_of_empty {path : Path} {node : Node} {location : Location}
    (nowhere : location.region = .empty) : Placed path node location := by
  constructor
  · intro region
    rw [nowhere] at region
    cases region
  · intro region
    rw [nowhere] at region
    cases region

theorem placed_of_value (path : Path) (node : Node) (parent : Option Node) :
    Placed path node ⟨some node, path, .value, parent⟩ := by
  refine ⟨fun _ => ⟨[], node, (List.append_nil path).symm, rfl, .here⟩, ?_⟩
  intro region
  cases region

theorem placed_of_key (path : Path) (key node : Node) (segment : Segment)
    (solid : node.isAlias = false) :
    Placed path node ⟨some key, path ++ [segment], .key, some node⟩ := by
  refine ⟨?_, fun _ => ⟨[], segment, node, rfl, rfl, solid, .here⟩⟩
  intro region
  cases region

theorem placed_below {path : Path} {node inner : Node} {segment : Segment} {location : Location}
    (leads : ∀ suffix found, inner.Leads suffix found → node.Leads (segment :: suffix) found)
    (placed : Placed (path ++ [segment]) inner location) : Placed path node location := by
  constructor
  · intro region
    obtain ⟨suffix, found, whole, same, below⟩ := placed.1 region
    refine ⟨segment :: suffix, found, ?_, same, leads suffix found below⟩
    rw [whole, List.append_assoc, List.singleton_append]
  · intro region
    obtain ⟨suffix, last, parent, whole, same, solid, below⟩ := placed.2 region
    refine ⟨segment :: suffix, last, parent, ?_, same, solid, leads suffix parent below⟩
    rw [whole, List.append_assoc, List.singleton_append, List.cons_append]

theorem placed_of_lands {path : Path} {parent : Option Node} {node : Node} {location : Location}
    (lands : Lands path parent node location) : Placed path node location := by
  induction lands with
  | self kind =>
      rcases kind with rfl | ⟨rfl, -⟩
      · exact placed_of_empty rfl
      · exact placed_of_value _ _ _
  | key => exact placed_of_key _ _ _ _ rfl
  | nextItem | firstItem => exact placed_of_empty rfl
  | pair member _ ih => exact placed_below (fun _ _ => .pair member) ih
  | item member _ ih => exact placed_below (fun _ _ => .item member) ih

theorem locate_placed (root : Node) (text : Text) (offset : Int) :
    Placed [] root (locate (some root) text offset) :=
  placed_of_lands (locate_lands root text offset)

end Flowfile.Location
