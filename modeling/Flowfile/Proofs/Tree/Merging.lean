import Mathlib.Data.List.Chain
import Mathlib.Data.List.Nodup
import Flowfile.Proofs.Tree.Expansion
import Flowfile.Proofs.Tree.Place

/-! Mappings that merge others.

Where the merge key stands among the keys of a mapping does not matter: an entry that is merged
first is assigned anew by a later key of the mapping itself, and one that is merged last does not
replace what is there. So a key has the value of the nearest mapping that has it for itself. -/

namespace Flowfile

namespace Value

variable (key : Text) (item : Value) (entries : List (Text × Value))

theorem get?_eq_lookup (value : Value) : value.get? key = value.entries.lookup key := by
  cases value <;> rfl

theorem lookup_entry (other : Text) :
    ((key, item) :: entries).lookup other =
      if other = key then some item else entries.lookup other := by
  by_cases same : other = key
  · rw [same, List.lookup_cons_self, if_pos rfl]
  · rw [if_neg same, List.lookup_cons, beq_false_of_ne same]

theorem lookup_assign (other : Text) :
    (assign key item entries).lookup other =
      if other = key then some item else entries.lookup other := by
  induction entries with
  | nil => exact lookup_entry key item [] other
  | cons first rest ih =>
      obtain ⟨k, v⟩ := first
      by_cases replaced : k = key
      · simp only [assign, replaced, if_true, lookup_entry]
        split <;> rfl
      · simp only [assign, replaced, if_false, lookup_entry, ih]
        split
        · rename_i here
          rw [if_neg (here ▸ replaced)]
        · rfl

theorem keys_assign :
    (assign key item entries).map Prod.fst =
      if key ∈ entries.map Prod.fst then entries.map Prod.fst
      else entries.map Prod.fst ++ [key] := by
  induction entries with
  | nil => rfl
  | cons first rest ih =>
      obtain ⟨k, v⟩ := first
      by_cases replaced : k = key
      · simp [assign, replaced]
      · by_cases present : key ∈ rest.map Prod.fst <;>
          simp_all [assign, Ne.symm replaced]

end Value

namespace Projection

theorem lookup_merge (entries : List (Text × Value)) (merged : Value) (key : Text) :
    (merge entries merged).lookup key = (entries.lookup key).or (merged.get? key) := by
  rw [merge, Value.get?_eq_lookup]
  induction merged.entries generalizing entries with
  | nil => simp
  | cons first rest ih =>
      obtain ⟨k, v⟩ := first
      rw [List.foldl_cons, ih, Value.lookup_entry]
      by_cases same : key = k
      · subst same
        cases present : entries.lookup key <;> simp [present, List.lookup_append]
      · rw [if_neg same]
        split
        · rfl
        · rw [List.lookup_append, Value.lookup_entry, if_neg same, List.lookup_nil, Option.or_none]

theorem nodup_merge {entries : List (Text × Value)} (distinct : (entries.map Prod.fst).Nodup)
    (merged : Value) : ((merge entries merged).map Prod.fst).Nodup := by
  rw [merge]
  induction merged.entries generalizing entries with
  | nil => exact distinct
  | cons first rest ih =>
      obtain ⟨k, v⟩ := first
      rw [List.foldl_cons]
      apply ih
      split
      · exact distinct
      · rename_i absent
        have new : ∀ entry ∈ entries, entry.1 ≠ k := by
          intro entry member same
          rw [Bool.not_eq_true, Option.isSome_eq_false_iff, Option.isNone_iff_eq_none,
            List.lookup_eq_none_iff] at absent
          simpa [same] using absent entry member
        rw [List.map_append, List.map_singleton, ← List.concat_eq_append]
        refine distinct.concat ?_
        intro present
        obtain ⟨entry, member, same⟩ := List.mem_map.mp present
        exact new entry member same

theorem nodup_addEntry {entries : List (Text × Value)} (distinct : (entries.map Prod.fst).Nodup)
    (key : Text) (value : Value) : ((addEntry entries key value).map Prod.fst).Nodup := by
  rw [addEntry]
  split
  · exact nodup_merge distinct value
  · rw [Value.keys_assign]
    split
    · exact distinct
    · rename_i new
      rw [← List.concat_eq_append]
      exact distinct.concat new

theorem nodup_fullPairs {entries : List (Text × Value)} (distinct : (entries.map Prod.fst).Nodup)
    (pairs : List (Node × Node)) : ((fullPairs entries pairs).map Prod.fst).Nodup := by
  induction pairs generalizing entries with
  | nil => exact distinct
  | cons first rest ih =>
      obtain ⟨key, value⟩ := first
      exact ih (nodup_addEntry distinct key.keyText (full value))

end Projection

namespace Node

def own? (node : Node) (key : Text) : Option Node :=
  if key = Projection.mergeKey then none else node.get? key

def merged? (node : Node) : Option Node := node.get? Projection.mergeKey

section

variable {info : NodeInfo} {anchor : Option Text} {flow : Bool}

theorem get?_cons (key value : Node) (rest : List (Node × Node)) (other : Text) :
    (Node.map info anchor flow ((key, value) :: rest)).get? other =
      if key.keyText = other then some value else (Node.map info anchor flow rest).get? other := by
  by_cases same : key.keyText = other <;> simp [get?, pair?, pairs, same]

theorem get?_eq_none {pairs : List (Node × Node)} {key : Text}
    (absent : key ∉ pairs.map fun pair => pair.1.keyText) :
    (Node.map info anchor flow pairs).get? key = none := by
  rw [get?, pair?, Option.map_eq_none_iff, List.find?_eq_none]
  intro pair member same
  exact absent (List.mem_map.mpr ⟨pair, member, of_decide_eq_true same⟩)

end

end Node

namespace Projection

/-- Entries that are there already go before those that are merged, and keys of the mapping itself
before both. -/
theorem lookup_fullPairs {info : NodeInfo} {anchor : Option Text} {flow : Bool}
    {pairs : List (Node × Node)} (distinct : (Node.map info anchor flow pairs).keys.Nodup)
    (entries : List (Text × Value)) (key : Text) :
    (fullPairs entries pairs).lookup key =
      (((Node.map info anchor flow pairs).own? key).map full).or
        ((entries.lookup key).or
          ((Node.map info anchor flow pairs).merged?.bind fun node => (full node).get? key)) := by
  induction pairs generalizing entries with
  | nil => simp [fullPairs, Node.own?, Node.merged?, Node.get?, Node.pair?, Node.pairs]
  | cons first rest ih =>
      obtain ⟨k, value⟩ := first
      obtain ⟨apart, others⟩ := List.nodup_cons.mp distinct
      have absent : (Node.map info anchor flow rest).get? k.keyText = none :=
        Node.get?_eq_none apart
      rw [fullPairs, ih others, addEntry]
      simp only [Node.own?, Node.merged?, Node.get?_cons]
      by_cases merges : k.keyText = mergeKey
      · rw [merges] at absent
        simp only [merges, if_true, lookup_merge, absent, Option.bind_none, Option.bind_some,
          Option.or_none]
        split
        · rfl
        · rename_i other
          rw [if_neg (Ne.symm other)]
      · simp only [merges, if_false, Value.lookup_assign]
        by_cases same : key = k.keyText
        · subst same
          simp [merges, absent]
        · simp [same, Ne.symm same]

theorem get?_full {info : NodeInfo} {anchor : Option Text} {flow : Bool}
    {pairs : List (Node × Node)} (distinct : (Node.map info anchor flow pairs).keys.Nodup)
    (key : Text) :
    (full (.map info anchor flow pairs)).get? key =
      (((Node.map info anchor flow pairs).own? key).map full).or
        ((Node.map info anchor flow pairs).merged?.bind fun node => (full node).get? key) :=
  lookup_fullPairs distinct [] key

theorem full_unalias (node : Node) : full node.unalias = full node := by
  induction node using Node.unalias.induct with
  | case1 info name target ih => rw [Node.unalias, ih, full]
  | case2 node other => rw [Node.unalias.eq_2 node other]

mutual

theorem expansions_add (level more : Nat) (node : Node) :
    expansions (level + more) node = (expansions level node).map (· + more) := by
  match node with
  | .scalar .. => rfl
  | .map _ _ _ pairs => exact expansionsOfPairs_add level more pairs
  | .sequence _ _ _ items => exact expansionsOfItems_add level more items
  | .alias _ _ target =>
      have inner := expansions_add (level + 1) more target
      rw [expansions, expansions, List.map_cons, ← inner, Nat.add_right_comm]

theorem expansionsOfPairs_add (level more : Nat) (pairs : List (Node × Node)) :
    expansionsOfPairs (level + more) pairs = (expansionsOfPairs level pairs).map (· + more) := by
  match pairs with
  | [] => rfl
  | (key, value) :: rest =>
      rw [expansionsOfPairs, expansionsOfPairs, List.map_append, expansions_add level more value,
        expansionsOfPairs_add level more rest]

theorem expansionsOfItems_add (level more : Nat) (items : List Node) :
    expansionsOfItems (level + more) items = (expansionsOfItems level items).map (· + more) := by
  match items with
  | [] => rfl
  | item :: rest =>
      rw [expansionsOfItems, expansionsOfItems, List.map_append, expansions_add level more item,
        expansionsOfItems_add level more rest]

end

theorem expansions_sublist {pairs : List (Node × Node)} {key value : Node}
    (member : (key, value) ∈ pairs) (level : Nat) :
    (expansions level value).Sublist (expansionsOfPairs level pairs) := by
  induction pairs with
  | nil => cases member
  | cons first rest ih =>
      rw [expansionsOfPairs]
      rcases List.mem_cons.mp member with rfl | later
      · exact List.sublist_append_left _ _
      · exact (ih later).trans (List.sublist_append_right _ _)

end Projection

namespace Node

open Projection

/-- The default limits allow all expansions in a node: none of its aliases is cut off. -/
def WithinLimits (node : Node) : Prop :=
  Fits defaultDepth (.fresh defaultExpansions) (expansions 0 node)

theorem toValue_eq_full {node : Node} (within : node.WithinLimits) : node.toValue = full node := by
  have projected := congrArg Prod.fst (visit_eq_project defaultDepth node (.fresh defaultExpansions))
  exact projected.symm.trans (visit_full defaultDepth node (.fresh defaultExpansions) within)

theorem withinLimits_value {info : NodeInfo} {anchor : Option Text} {flow : Bool}
    {pairs : List (Node × Node)} (within : (Node.map info anchor flow pairs).WithinLimits)
    {key value : Node} (member : (key, value) ∈ pairs) : value.WithinLimits := by
  have inside := expansions_sublist member 0
  exact ⟨inside.length_le.trans within.1, fun level among => within.2 level (inside.subset among)⟩

theorem withinLimits_target {info : NodeInfo} {name : Text} {target : Node}
    (within : (Node.alias info name target).WithinLimits) : target.WithinLimits := by
  have deeper : expansions 1 target = (expansions 0 target).map (· + 1) :=
    expansions_add 0 1 target
  obtain ⟨few, shallow⟩ := within
  rw [expansions, deeper] at few shallow
  rw [List.length_cons, List.length_map] at few
  refine ⟨by omega, fun level among => ?_⟩
  have bound := shallow (level + 1) (List.mem_cons_of_mem _ (List.mem_map_of_mem among))
  omega

theorem withinLimits_unalias {node : Node} (within : node.WithinLimits) :
    node.unalias.WithinLimits := by
  induction node using Node.unalias.induct with
  | case1 info name target ih => exact ih (withinLimits_target within)
  | case2 node other => rwa [Node.unalias.eq_2 node other]

/-- The first node merges the second one, a mapping that may stand behind aliases. -/
inductive Merges : Node → Node → Prop
  | of {node value info anchor flow pairs} (merged : node.merged? = some value)
      (behind : value.unalias = .map info anchor flow pairs) :
      Merges node (.map info anchor flow pairs)

section

variable {info : NodeInfo} {anchor : Option Text} {flow : Bool} {pairs : List (Node × Node)}

theorem mem_of_get? {key : Text} {value : Node}
    (found : (Node.map info anchor flow pairs).get? key = some value) :
    ∃ node, (node, value) ∈ pairs := by
  obtain ⟨⟨node, other⟩, pair, rfl⟩ := Option.map_eq_some_iff.mp found
  exact ⟨node, List.mem_of_find?_eq_some pair⟩

theorem get?_toValue (distinct : (Node.map info anchor flow pairs).keys.Nodup)
    (within : (Node.map info anchor flow pairs).WithinLimits) (key : Text) :
    (Node.map info anchor flow pairs).toValue.get? key =
      (((Node.map info anchor flow pairs).own? key).map toValue).or
        ((Node.map info anchor flow pairs).merged?.bind fun node => node.toValue.get? key) := by
  have same {other : Text} {value : Node}
      (found : (Node.map info anchor flow pairs).get? other = some value) :
      full value = value.toValue := by
    obtain ⟨node, member⟩ := mem_of_get? found
    exact (toValue_eq_full (withinLimits_value within member)).symm
  have owned : ((Node.map info anchor flow pairs).own? key).map full =
      ((Node.map info anchor flow pairs).own? key).map toValue := by
    rw [own?]
    split
    · rfl
    · exact Option.map_congr fun value found => same found
  have merged : ((Node.map info anchor flow pairs).merged?.bind fun node => (full node).get? key) =
      (Node.map info anchor flow pairs).merged?.bind fun node => node.toValue.get? key := by
    apply Option.bind_congr
    intro value found
    rw [same found]
  rw [toValue_eq_full within, get?_full distinct, owned, merged]

theorem toValue_of_merges {next value : Node}
    (within : (Node.map info anchor flow pairs).WithinLimits)
    (merged : (Node.map info anchor flow pairs).merged? = some value)
    (behind : value.unalias = next) : next.WithinLimits ∧ value.toValue = next.toValue := by
  obtain ⟨node, member⟩ := mem_of_get? merged
  have inner := withinLimits_value within member
  have further := withinLimits_unalias inner
  rw [behind] at further
  refine ⟨further, ?_⟩
  rw [toValue_eq_full inner, toValue_eq_full further, ← behind, full_unalias]

end

theorem get?_chain {node : Node} {others : List Node}
    (mapping : ∃ info anchor flow pairs, node = .map info anchor flow pairs)
    (within : node.WithinLimits) (chain : (node :: others).IsChain Merges)
    (distinct : ∀ each ∈ node :: others, each.keys.Nodup) (key : Text) :
    node.toValue.get? key =
      (((node :: others).findSome? fun each => each.own? key).map toValue).or
        (((node :: others).getLast (List.cons_ne_nil _ _)).merged?.bind
          fun next => next.toValue.get? key) := by
  obtain ⟨info, anchor, flow, pairs, rfl⟩ := mapping
  induction others generalizing info anchor flow pairs with
  | nil =>
      rw [get?_toValue (distinct _ List.mem_cons_self) within]
      simp
  | cons next others ih =>
      obtain ⟨merges, later⟩ := List.isChain_cons_cons.mp chain
      cases merges with
      | of merged behind =>
          obtain ⟨further, same⟩ := toValue_of_merges within merged behind
          rw [get?_toValue (distinct _ List.mem_cons_self) within, merged, Option.bind_some, same,
            ih _ _ _ _ further later fun each member =>
              distinct each (List.mem_cons_of_mem _ member)]
          rw [List.getLast_cons (List.cons_ne_nil _ _)]
          cases here : (Node.map info anchor flow pairs).own? key <;>
            simp [List.findSome?_cons, here]

/-- A mapping is projected to its own keys with their own values, and to the entries that it merges
under other keys, wherever the merge key stands. So where mappings merge each other in a row, a key
has the value of the nearest one that has it for itself. -/
theorem toValue_merges {info : NodeInfo} {anchor : Option Text} {flow : Bool}
    {pairs : List (Node × Node)} (distinct : (Node.map info anchor flow pairs).keys.Nodup)
    (within : (Node.map info anchor flow pairs).WithinLimits) :
    let node := Node.map info anchor flow pairs
    (∃ entries, node.toValue = .map none entries ∧ (entries.map Prod.fst).Nodup) ∧
      (∀ key, node.toValue.get? key =
        ((node.own? key).map toValue).or
          (node.merged?.bind fun next => next.toValue.get? key)) ∧
      ∀ others, (node :: others).IsChain Merges → (∀ other ∈ others, other.keys.Nodup) → ∀ key,
        node.toValue.get? key =
          (((node :: others).findSome? fun each => each.own? key).map toValue).or
            (((node :: others).getLast (List.cons_ne_nil _ _)).merged?.bind
              fun next => next.toValue.get? key) := by
  intro node
  refine ⟨⟨fullPairs [] pairs, toValue_eq_full within, ?_⟩, get?_toValue distinct within,
    fun others chain keys key => ?_⟩
  · apply nodup_fullPairs
    exact List.nodup_nil
  · exact get?_chain ⟨info, anchor, flow, pairs, rfl⟩ within chain
      (List.forall_mem_cons.mpr ⟨distinct, keys⟩) key

/-- The first mapping merges before its own key, the second one after, each through an alias. -/
theorem toValue_merges_row :
    let word (text : Text) : Node := .scalar ⟨1, 0, 1⟩ none text (.str text) none
    let base : Node := .map ⟨2, 0, 9⟩ (some ['b']) false
      [(word ['r'], word ['x']), (word ['k'], word ['y'])]
    let middle : Node := .map ⟨3, 10, 19⟩ (some ['m']) false
      [(word ['k'], word ['z']), (word mergeKey, .alias ⟨4, 17, 19⟩ ['b'] base)]
    let pairs : List (Node × Node) :=
      [(word mergeKey, .alias ⟨5, 24, 26⟩ ['m'] middle), (word ['t'], word ['k'])]
    let root : Node := .map ⟨6, 20, 39⟩ none false pairs
    root.keys.Nodup ∧ root.WithinLimits ∧ [root, middle, base].IsChain Merges ∧
      (∀ other ∈ [middle, base], other.keys.Nodup) ∧
      root.toValue.get? ['k'] = some (.str ['z']) ∧ root.toValue.get? ['r'] = some (.str ['x']) := by
  intro word base middle pairs root
  have distinct : root.keys.Nodup := by decide
  have within : root.WithinLimits := ⟨by decide, by decide⟩
  have chain : [root, middle, base].IsChain Merges :=
    .cons_cons (.of rfl rfl) (.cons_cons (.of rfl rfl) (.singleton base))
  have keys : ∀ other ∈ [middle, base], other.keys.Nodup := by decide
  have nearest := (toValue_merges distinct within).2.2 [middle, base] chain keys
  exact ⟨distinct, within, chain, keys, nearest ['k'], nearest ['r']⟩

end Node

end Flowfile
