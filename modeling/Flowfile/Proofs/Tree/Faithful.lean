import Mathlib.Data.List.Flatten
import Flowfile.Proofs.Tree.Limit
import Flowfile.Proofs.Tree.Place

/-! The tree of a graph has each graph node once, where the node is first visited, and an alias for
every further visit. Of the pairs of a mapping it has the last one of each key. -/

namespace Flowfile.Build

/-- A visit of a graph node: what the node became, and the visits of its children. -/
inductive Visit
  | mk (number : Nat) (result : Node) (inner : List Visit)

namespace Visit

def number : Visit → Nat
  | .mk number _ _ => number

def result : Visit → Node
  | .mk _ result _ => result

def inner : Visit → List Visit
  | .mk _ _ inner => inner

end Visit

structure Occurrence where
  above : List Nat
  visit : Visit

mutual

def walk (above : List Nat) : Visit → List Occurrence
  | .mk number result inner => ⟨above, .mk number result inner⟩ :: walkAll (number :: above) inner

def walkAll (above : List Nat) : List Visit → List Occurrence
  | [] => []
  | visit :: rest => walk above visit ++ walkAll above rest

end

/-- The pairs kept are the last ones of their keys, in order. -/
structure KeepsLast (visited kept : List (Node × Node)) : Prop where
  ordered : kept.Sublist visited
  distinct : (kept.map fun pair => pair.1.keyText).Nodup
  last : ∀ before pair after, visited = before ++ pair :: after →
    (∀ later ∈ after, later.1.keyText ≠ pair.1.keyText) → pair ∈ kept

inductive Explained (maxDepth : Nat) (graph : Array Yaml.Node) (before : List Occurrence) :
    Occurrence → Prop
  | shared {above number found info first} (here : graph[number]? = some found)
      (seen : before.find? (fun earlier => earlier.visit.number = number) = some first)
      (outside : number ∉ above) :
      Explained maxDepth graph before
        ⟨above, .mk number (.alias info (found.anchor.getD []) first.visit.result) []⟩
  | enclosed {above number found info id} (here : graph[number]? = some found)
      (inside : number ∈ above) :
      Explained maxDepth graph before ⟨above, .mk number (.alias info (found.anchor.getD [])
        (.scalar ⟨id, info.start, info.stop⟩ none [] .null none)) []⟩
  | scalar {above number found info value style} (here : graph[number]? = some found)
      (new : ∀ earlier ∈ before, earlier.visit.number ≠ number)
      (content : found.content = .scalar value style) :
      Explained maxDepth graph before ⟨above, .mk number
        (.scalar info found.anchor value (Scalar.resolve value style) style) []⟩
  | mapping {above number found info flow pairs visited kept inner}
      (here : graph[number]? = some found)
      (new : ∀ earlier ∈ before, earlier.visit.number ≠ number)
      (content : found.content = .mapping flow pairs) (shallow : above.length < maxDepth)
      (numbers : inner.map Visit.number = parts pairs)
      (results : inner.map Visit.result = parts visited) (keeps : KeepsLast visited kept) :
      Explained maxDepth graph before
        ⟨above, .mk number (.map info found.anchor flow kept) inner⟩
  | cutMapping {above number found info flow pairs} (here : graph[number]? = some found)
      (new : ∀ earlier ∈ before, earlier.visit.number ≠ number)
      (content : found.content = .mapping flow pairs) (deep : maxDepth ≤ above.length) :
      Explained maxDepth graph before ⟨above, .mk number (.map info found.anchor flow []) []⟩
  | sequence {above number found info flow items inner} (here : graph[number]? = some found)
      (new : ∀ earlier ∈ before, earlier.visit.number ≠ number)
      (content : found.content = .sequence flow items) (shallow : above.length < maxDepth)
      (numbers : inner.map Visit.number = items) :
      Explained maxDepth graph before
        ⟨above, .mk number (.sequence info found.anchor flow (inner.map Visit.result)) inner⟩
  | cutSequence {above number found info flow items} (here : graph[number]? = some found)
      (new : ∀ earlier ∈ before, earlier.visit.number ≠ number)
      (content : found.content = .sequence flow items) (deep : maxDepth ≤ above.length) :
      Explained maxDepth graph before ⟨above, .mk number (.sequence info found.anchor flow []) []⟩

/-- Every occurrence is what those before it, and the occurrences that were there already, make of
it. -/
def Lawful (maxDepth : Nat) (graph : Array Yaml.Node) (before run : List Occurrence) : Prop :=
  ∀ front each back, run = front ++ each :: back → Explained maxDepth graph (before ++ front) each

theorem lawful_cons {maxDepth : Nat} {graph : Array Yaml.Node} {before rest : List Occurrence}
    {each : Occurrence} (first : Explained maxDepth graph before each)
    (later : Lawful maxDepth graph (before ++ [each]) rest) :
    Lawful maxDepth graph before (each :: rest) := by
  intro front other back whole
  cases front with
  | nil =>
      cases whole
      rwa [List.append_nil]
  | cons head front =>
      cases whole
      have := later front other back rfl
      rwa [List.append_assoc, List.singleton_append] at this

theorem lawful_append {maxDepth : Nat} {graph : Array Yaml.Node}
    {before first second : List Occurrence} (begins : Lawful maxDepth graph before first)
    (ends : Lawful maxDepth graph (before ++ first) second) :
    Lawful maxDepth graph before (first ++ second) := by
  induction first generalizing before with
  | nil => simpa using ends
  | cons each rest ih =>
      refine lawful_cons (by simpa using begins [] each rest rfl) (ih ?_ (by simpa using ends))
      intro front other back whole
      have := begins (each :: front) other back (by rw [whole, List.cons_append])
      rwa [List.append_assoc, List.singleton_append]

theorem lastPairs_sublist (visited : List (Node × Node)) : (lastPairs visited).Sublist visited := by
  induction visited with
  | nil => exact .slnil
  | cons pair rest ih =>
      rw [lastPairs]
      split
      · exact ih.cons pair
      · exact ih.cons_cons pair

theorem keepsLast_lastPairs (visited : List (Node × Node)) :
    KeepsLast visited (lastPairs visited) := by
  refine ⟨lastPairs_sublist visited, ?_, ?_⟩
  · induction visited with
    | nil => exact List.nodup_nil
    | cons pair rest ih =>
        rw [lastPairs]
        split
        · exact ih
        · rename_i last
          refine List.nodup_cons.mpr ⟨fun member => last ?_, ih⟩
          obtain ⟨other, found, same⟩ := List.mem_map.mp member
          exact List.any_eq_true.mpr
            ⟨other, (lastPairs_sublist rest).subset found, decide_eq_true same⟩
  · intro before pair after whole last
    induction before generalizing visited with
    | nil =>
        rw [whole, List.nil_append, lastPairs, if_neg]
        · exact List.mem_cons_self
        · intro again
          obtain ⟨later, member, same⟩ := List.any_eq_true.mp again
          exact last later member (of_decide_eq_true same)
    | cons first before ih =>
        have kept := ih _ rfl
        rw [whole, List.cons_append, lastPairs]
        split
        · exact kept
        · exact List.mem_cons_of_mem _ kept

/-- The children of a node were left out where it was converted. -/
def Occurrence.Cut (graph : Array Yaml.Node) (each : Occurrence) : Prop :=
  each.visit.result.isAlias = false ∧ each.visit.inner = [] ∧
    ∃ found, graph[each.visit.number]? = some found ∧ children found.content ≠ []

structure Agrees (graph : Array Yaml.Node) (above : List Nat) (before : List Occurrence)
    (s : State) : Prop where
  count : s.count = before.length
  size : s.built.size = graph.size
  begun : ∀ number ∈ above, s.built? number = none
  seen : ∀ number, (∃ each ∈ before, each.visit.number = number) ↔ s.Knows above number
  built : ∀ number result, s.built? number = some result →
    ∃ first, before.find? (fun each => each.visit.number = number) = some first ∧
      first.visit.result = result

section

variable {graph : Array Yaml.Node} {above : List Nat} {before inner : List Occurrence} {s : State}
  {each : Occurrence}

theorem find?_append_left {first : Occurrence} {number : Nat} (after : List Occurrence)
    (found : before.find? (fun each => each.visit.number = number) = some first) :
    (before ++ after).find? (fun each => each.visit.number = number) = some first := by
  rw [List.find?_append, found]
  rfl

theorem agrees_again (agrees : Agrees graph above before s)
    (known : s.Knows above each.visit.number) : Agrees graph above (before ++ [each]) s.visit := by
  refine ⟨?_, agrees.size, agrees.begun, fun number => ?_, fun number result built => ?_⟩
  · rw [visit_count, agrees.count, List.length_append, List.length_singleton]
  · rw [State.Knows, visit_built?, ← State.Knows, ← agrees.seen number]
    constructor
    · rintro ⟨other, member, same⟩
      rcases List.mem_append.mp member with member | member
      · exact ⟨other, member, same⟩
      · cases List.mem_singleton.mp member
        exact (agrees.seen number).mpr (same ▸ known)
    · rintro ⟨other, member, same⟩
      exact ⟨other, List.mem_append_left _ member, same⟩
  · obtain ⟨first, found, same⟩ := agrees.built number result built
    exact ⟨first, find?_append_left _ found, same⟩

theorem agrees_enter (each : Occurrence) (agrees : Agrees graph above before s)
    (new : ¬s.Knows above each.visit.number) :
    Agrees graph (each.visit.number :: above) (before ++ [each]) s.visit := by
  refine ⟨?_, agrees.size, fun number member => ?_, fun number => ?_, fun number result built => ?_⟩
  · rw [visit_count, agrees.count, List.length_append, List.length_singleton]
  · rw [visit_built?]
    rcases List.mem_cons.mp member with rfl | member
    · exact Option.not_isSome_iff_eq_none.mp fun built => new (.inl built)
    · exact agrees.begun number member
  · have seen := agrees.seen number
    simp only [State.Knows, visit_built?, List.mem_cons, List.mem_append, List.not_mem_nil,
      or_false] at seen ⊢
    constructor
    · rintro ⟨other, member | rfl, same⟩
      · exact (seen.mp ⟨other, member, same⟩).imp_right .inr
      · exact .inr (.inl same.symm)
    · rintro (built | same | member)
      · obtain ⟨other, member, same⟩ := seen.mpr (.inl built)
        exact ⟨other, .inl member, same⟩
      · exact ⟨each, .inr rfl, same.symm⟩
      · obtain ⟨other, member, same⟩ := seen.mpr (.inr member)
        exact ⟨other, .inl member, same⟩
  · obtain ⟨first, found, same⟩ := agrees.built number result built
    exact ⟨first, find?_append_left _ found, same⟩

theorem agrees_leave (new : ∀ earlier ∈ before, earlier.visit.number ≠ each.visit.number)
    (inside : each.visit.number < graph.size) (outside : each.visit.number ∉ above)
    (agrees : Agrees graph (each.visit.number :: above) (before ++ each :: inner) s) :
    Agrees graph above (before ++ each :: inner) (s.keep each.visit.number each.visit.result) := by
  have sized : each.visit.number < s.built.size := agrees.size ▸ inside
  have kept (number : Nat) : (s.keep each.visit.number each.visit.result).built? number =
      if each.visit.number = number then some each.visit.result else s.built? number := by
    rw [keep_built?]
    simp only [sized, and_true]
  refine ⟨agrees.count, Array.size_setIfInBounds.trans agrees.size, fun number member => ?_,
    fun number => ?_, fun number result built => ?_⟩
  · have different : each.visit.number ≠ number := fun same => outside (same ▸ member)
    rw [kept, if_neg different]
    exact agrees.begun number (List.mem_cons_of_mem _ member)
  · rw [agrees.seen number, State.Knows, State.Knows, kept, List.mem_cons]
    by_cases same : each.visit.number = number
    · simp [same]
    · simp [same, Ne.symm same]
  · rw [kept] at built
    split at built
    · rename_i same
      cases built
      refine ⟨each, ?_, rfl⟩
      rw [List.find?_append, List.find?_eq_none.mpr, Option.none_or, List.find?_cons_of_pos]
      · exact decide_eq_true same
      · intro earlier member
        simpa [same] using new earlier member
    · exact agrees.built number result built

end

structure Accounts (env : Env) (above : List Nat) (s : State) (visits : List Visit) (s' : State) :
    Prop where
  grows : Extends s s'
  lawful : ∀ before, Agrees env.graph above before s →
    Lawful env.limits.maxDepth env.graph before (walkAll above visits) ∧
      Agrees env.graph above (before ++ walkAll above visits) s'
  nodes : ((visits.map Visit.result).flatMap Node.nodes).Sublist
    ((walkAll above visits).map fun each => each.visit.result)
  nests : ∀ visit ∈ visits, visit.result.Nests (env.limits.maxDepth - above.length)
  cuts : ∀ each ∈ walkAll above visits, each.Cut env.graph → s'.depthExceededAt.isSome

section

variable {env : Env} {above : List Nat} {s s' s₁ : State} {visit : Visit} {visits : List Visit}

theorem lawful_nil {maxDepth : Nat} {graph : Array Yaml.Node} {before : List Occurrence} :
    Lawful maxDepth graph before [] := by
  intro front each back whole
  simp at whole

theorem accounts_nil (above : List Nat) (s : State) : Accounts env above s [] s where
  grows := extends_refl s
  lawful before agrees := ⟨lawful_nil, by rwa [walkAll, List.append_nil]⟩
  nodes := .slnil
  nests visit member := by cases member
  cuts each member := by cases member

theorem accounts_cons (first : Accounts env above s [visit] s₁)
    (rest : Accounts env above s₁ visits s') : Accounts env above s (visit :: visits) s' := by
  have single : walkAll above [visit] = walk above visit := List.append_nil _
  have whole : walkAll above (visit :: visits) = walkAll above [visit] ++ walkAll above visits := by
    rw [single]
    rfl
  refine ⟨extends_trans first.grows rest.grows, fun before agrees => ?_, ?_, ?_, ?_⟩
  · obtain ⟨begins, between⟩ := first.lawful before agrees
    obtain ⟨ends, after⟩ := rest.lawful _ between
    rw [whole, ← List.append_assoc]
    exact ⟨lawful_append begins ends, after⟩
  · rw [whole, List.map_append, ← List.singleton_append, List.map_append, List.flatMap_append]
    exact first.nodes.append rest.nodes
  · intro each member
    rcases List.mem_cons.mp member with rfl | member
    · exact first.nests _ List.mem_cons_self
    · exact rest.nests each member
  · intro each member cut
    rw [whole] at member
    rcases List.mem_append.mp member with member | member
    · exact rest.grows.depth (first.cuts each member cut)
    · exact rest.cuts each member cut

theorem accounts_exceeded (inner : Accounts env above s visits s') (offset : Nat) :
    Accounts env above s visits (s'.exceeded offset) where
  grows := extends_trans inner.grows (extends_exceeded _ _)
  lawful before agrees := by
    obtain ⟨lawful, count, size, begun, seen, built⟩ := inner.lawful before agrees
    exact ⟨lawful, count, size, begun, seen, built⟩
  nodes := inner.nodes
  nests := inner.nests
  cuts _ _ _ := exceeded_isSome _ _

theorem aliasTo_eq (source : Text) (found : Yaml.Node) (target : Option Node)
    (id searchFrom : Nat) :
    ∃ info, aliasTo source found target id searchFrom = .alias info (found.anchor.getD [])
      (target.getD (.scalar ⟨id + 1, info.start, info.stop⟩ none [] .null none)) :=
  ⟨⟨id, _, _⟩, rfl⟩

theorem explained_again {number : Nat} {found : Yaml.Node} {before : List Occurrence}
    (id searchFrom : Nat) (here : env.graph[number]? = some found) (known : s.Knows above number)
    (agrees : Agrees env.graph above before s) :
    Explained env.limits.maxDepth env.graph before
      ⟨above, .mk number (aliasTo env.source found (s.built? number) id searchFrom) []⟩ := by
  obtain ⟨info, same⟩ := aliasTo_eq env.source found (s.built? number) id searchFrom
  rw [same]
  by_cases inside : number ∈ above
  · rw [agrees.begun number inside]
    exact .enclosed here inside
  · obtain ⟨result, built⟩ := Option.isSome_iff_exists.mp (known.resolve_right inside)
    obtain ⟨first, seen, rfl⟩ := agrees.built number result built
    rw [built]
    exact .shared here seen inside

theorem accounts_again {number : Nat} {found : Yaml.Node} (id searchFrom : Nat)
    (here : env.graph[number]? = some found) (known : s.Knows above number) :
    Accounts env above s
      [.mk number (aliasTo env.source found (s.built? number) id searchFrom) []] s.visit := by
  refine ⟨extends_visit s, fun before agrees => ⟨?_, agrees_again agrees known⟩, ?_, ?_, ?_⟩
  · exact lawful_cons (explained_again id searchFrom here known agrees) lawful_nil
  · exact .refl _
  · intro visit member
    cases List.mem_singleton.mp member
    exact Node.nests_leaf rfl _
  · intro each member cut
    cases List.mem_singleton.mp member
    cases cut.1

theorem accounts_fresh {number : Nat} {result : Node}
    (inside : number < env.graph.size) (new : ¬s.Knows above number)
    (explained : ∀ before, (∀ earlier ∈ before, earlier.visit.number ≠ number) →
      Explained env.limits.maxDepth env.graph before ⟨above, .mk number result visits⟩)
    (contents : result.contents.Sublist (visits.map Visit.result))
    (nests : result.Nests (env.limits.maxDepth - above.length))
    (cut : Occurrence.Cut env.graph ⟨above, .mk number result visits⟩ →
      s'.depthExceededAt.isSome)
    (inner : Accounts env (number :: above) s.visit visits s') :
    Accounts env above s [.mk number result visits] (s'.keep number result) := by
  have whole : walkAll above [.mk number result visits] =
      ⟨above, .mk number result visits⟩ :: walkAll (number :: above) visits := List.append_nil _
  refine ⟨extends_trans (extends_visit s) (extends_trans inner.grows (extends_keep _ _ _)),
    fun before agrees => ?_, ?_, ?_, ?_⟩
  · have unseen : ∀ earlier ∈ before, earlier.visit.number ≠ number := fun earlier member same =>
      new ((agrees.seen number).mp ⟨earlier, member, same⟩)
    have enters := agrees_enter ⟨above, .mk number result visits⟩ agrees new
    obtain ⟨lawful, after⟩ := inner.lawful _ enters
    rw [whole]
    refine ⟨lawful_cons (explained before unseen) lawful, ?_⟩
    rw [List.append_assoc, List.singleton_append] at after
    exact agrees_leave unseen inside (fun member => new (.inr member)) after
  · rw [whole, List.map_cons, List.map_cons, List.map_nil, List.flatMap_cons, List.flatMap_nil,
      List.append_nil]
    change result.nodes.Sublist (result :: _)
    rw [Node.nodes_eq]
    exact ((contents.flatMap _).trans inner.nodes).cons_cons _
  · intro visit member
    cases List.mem_singleton.mp member
    exact nests
  · intro each member
    rw [whole] at member
    rcases List.mem_cons.mp member with rfl | member
    · exact cut
    · exact inner.cuts each member

end

section

variable {env : Env} {above : List Nat} {s s' : State} {number : Nat} {result : Node}

theorem accounts_leaf (inside : number < env.graph.size) (new : ¬s.Knows above number)
    (explained : ∀ before, (∀ earlier ∈ before, earlier.visit.number ≠ number) →
      Explained env.limits.maxDepth env.graph before ⟨above, .mk number result []⟩)
    (leaf : result.contents = [])
    (cut : Occurrence.Cut env.graph ⟨above, .mk number result []⟩ → s'.depthExceededAt.isSome)
    (inner : Accounts env (number :: above) s.visit [] s') :
    Accounts env above s [.mk number result []] (s'.keep number result) :=
  accounts_fresh inside new explained (leaf ▸ .slnil) (Node.nests_leaf leaf _) cut inner

end

def Closed (graph : Array Yaml.Node) : Prop :=
  ∀ (number : Nat) (found : Yaml.Node), graph[number]? = some found →
    ∀ child ∈ children found.content, child < graph.size

def Accounted (env : Env) (above : List Nat) (convert : Convert) : Prop :=
  ∀ number searchFrom indicator s result s', number < env.graph.size →
    convert number searchFrom indicator s = some (result, s') →
      ∃ visit : Visit, visit.number = number ∧ visit.result = result ∧
        Accounts env above s [visit] s'

theorem threads_accounts {env : Env} {above : List Nat} {convert : Convert}
    (accounted : Accounted env above convert) {numbers : List Nat} {s s' : State}
    {results : List Node} (inside : ∀ number ∈ numbers, number < env.graph.size)
    (run : Threads convert numbers s results s') :
    ∃ visits, visits.map Visit.number = numbers ∧ visits.map Visit.result = results ∧
      Accounts env above s visits s' := by
  induction run with
  | nil => exact ⟨[], rfl, rfl, accounts_nil above _⟩
  | cons first rest ih =>
      obtain ⟨visit, rfl, rfl, begins⟩ :=
        accounted _ _ _ _ _ _ (inside _ List.mem_cons_self) first
      obtain ⟨visits, rfl, rfl, ends⟩ :=
        ih fun number member => inside number (List.mem_cons_of_mem _ member)
      exact ⟨visit :: visits, rfl, rfl, accounts_cons begins ends⟩

theorem not_cut {graph : Array Yaml.Node} {above : List Nat} {number : Nat} {result : Node}
    {visits : List Visit} {found : Yaml.Node} (here : graph[number]? = some found)
    (numbers : visits.map Visit.number = children found.content) :
    ¬Occurrence.Cut graph ⟨above, .mk number result visits⟩ := by
  rintro ⟨-, childless, other, there, more⟩
  cases here.symm.trans there
  change visits = [] at childless
  rw [childless] at numbers
  exact more numbers.symm

theorem nests_of_visits {above : List Nat} {number maxDepth : Nat} {result : Node}
    {visits : List Visit} (shallow : above.length < maxDepth)
    (contents : result.contents.Sublist (visits.map Visit.result))
    (inner : ∀ visit ∈ visits, visit.result.Nests (maxDepth - (number :: above).length)) :
    result.Nests (maxDepth - above.length) := by
  have deeper : maxDepth - above.length = maxDepth - (number :: above).length + 1 := by
    rw [List.length_cons]
    omega
  rw [deeper]
  refine Node.nests_collection fun each member => ?_
  obtain ⟨visit, visited, rfl⟩ := List.mem_map.mp (contents.subset member)
  exact inner visit visited

theorem node_accounted (env : Env) (closed : Closed env.graph) (fuel : Nat) (above : List Nat) :
    Accounted env above (node env fuel above) := by
  induction fuel generalizing above with
  | zero =>
      intro number searchFrom indicator s result s' inside done
      cases done
  | succ fuel ih =>
      intro number searchFrom indicator s result s' inside done
      have within := ih (number :: above)
      obtain ⟨-, step⟩ := (node_eq_some_iff ..).mp done
      cases step with
      | missing absent => exact absurd inside (Nat.not_lt.mpr (Array.getElem?_eq_none_iff.mp absent))
      | again here known => exact ⟨_, rfl, rfl, accounts_again _ _ here known⟩
      | scalar here new content same =>
          refine ⟨_, rfl, rfl, accounts_leaf inside new (fun before unseen => ?_) ?_
            (fun cut => absurd cut (not_cut here (by rw [content]; rfl))) (accounts_nil _ _)⟩
          · rw [same]
            exact .scalar here unseen content
          · rw [same]
            rfl
      | cutMapping here new content deep same =>
          refine ⟨_, rfl, rfl, accounts_leaf inside new (fun before unseen => ?_) ?_
            (fun _ => exceeded_isSome _ _) (accounts_exceeded (accounts_nil _ _) _)⟩
          · rw [same]
            exact .cutMapping here unseen content deep
          · rw [same]
            rfl
      | cutSequence here new content deep same =>
          refine ⟨_, rfl, rfl, accounts_leaf inside new (fun before unseen => ?_) ?_
            (fun _ => exceeded_isSome _ _) (accounts_exceeded (accounts_nil _ _) _)⟩
          · rw [same]
            exact .cutSequence here unseen content deep
          · rw [same]
            rfl
      | @mapping found flow pairs visited info _ s₁ here new content shallow run place same =>
          have numbers : children found.content = parts pairs := by
            rw [content]
            rfl
          obtain ⟨visits, known, results, inner⟩ := threads_accounts within
            (fun child member => closed number found here child (numbers ▸ member))
            (mapPairs_threads run)
          have contents : result.contents.Sublist (visits.map Visit.result) := by
            rw [same, results]
            exact (lastPairs_sublist visited).flatMap _
          refine ⟨_, rfl, rfl, accounts_fresh inside new (fun before unseen => ?_) contents ?_
            (fun cut => absurd cut (not_cut here (numbers ▸ known))) inner⟩
          · rw [same]
            exact .mapping here unseen content shallow known results (keepsLast_lastPairs visited)
          · exact nests_of_visits shallow contents inner.nests
      | @sequence found flow items results info _ s₁ here new content shallow run place same =>
          have numbers : children found.content = items := by
            rw [content]
            rfl
          obtain ⟨visits, known, rfl, inner⟩ := threads_accounts within
            (fun child member => closed number found here child (numbers ▸ member))
            (seqItems_threads run)
          have contents : result.contents.Sublist (visits.map Visit.result) := by
            rw [same]
            exact .refl _
          refine ⟨_, rfl, rfl, accounts_fresh inside new (fun before unseen => ?_) contents ?_
            (fun cut => absurd cut (not_cut here (numbers ▸ known))) inner⟩
          · rw [same]
            exact .sequence here unseen content shallow known
          · exact nests_of_visits shallow contents inner.nests

theorem explained_new {maxDepth : Nat} {graph : Array Yaml.Node} {before : List Occurrence}
    {each : Occurrence} (explained : Explained maxDepth graph before each)
    (solid : each.visit.result.isAlias = false) :
    ∀ earlier ∈ before, earlier.visit.number ≠ each.visit.number := by
  cases explained with
  | shared | enclosed => cases solid
  | scalar here new | mapping here new | cutMapping here new | sequence here new
  | cutSequence here new => exact new

theorem lawful_nodup {maxDepth : Nat} {graph : Array Yaml.Node} {run : List Occurrence}
    (lawful : Lawful maxDepth graph [] run) :
    ((run.filter fun each => !each.visit.result.isAlias).map fun each =>
      each.visit.number).Nodup := by
  induction run using List.reverseRecOn with
  | nil => exact List.nodup_nil
  | append_singleton front each ih =>
      have earlier : Lawful maxDepth graph [] front := fun first other last whole =>
        lawful first other (last ++ [each]) (by rw [whole, List.append_assoc, List.cons_append])
      rw [List.filter_append, List.map_append]
      by_cases solid : each.visit.result.isAlias = false
      · have new := explained_new (lawful front each [] rfl) solid
        rw [List.filter_cons_of_pos (by rw [solid]; rfl), List.filter_nil, List.map_singleton]
        refine (ih earlier).append (List.nodup_singleton _) (List.disjoint_singleton.mpr ?_)
        intro member
        obtain ⟨other, found, same⟩ := List.mem_map.mp member
        exact new other (List.mem_filter.mp found).1 same
      · rw [List.filter_cons_of_neg (by simpa using solid), List.filter_nil, List.map_nil,
          List.append_nil]
        exact ih earlier

theorem start_built? (size number : Nat) :
    ({ built := Array.replicate size none } : State).built? number = none := by
  rw [State.built?, Array.getElem?_replicate]
  split <;> rfl

theorem agrees_start (graph : Array Yaml.Node) :
    Agrees graph [] [] { built := Array.replicate graph.size none } := by
  refine ⟨rfl, Array.size_replicate, fun number member => ?_, fun number => ?_,
    fun number result built => ?_⟩
  · cases member
  · rw [State.Knows, start_built?]
    simp
  · rw [start_built?] at built
    cases built

/-- The conversion of a graph comes from visits in document order, as many as the state counts, and
needs no more of the limit on nodes. The first occurrence of a node is converted; each further one
is an alias to what came of the first, or to an empty scalar inside the node itself. The tree has
the results of different occurrences, no more nodes than visits, and no collections with contents
nested deeper than allowed; if contents were left out the state says so. -/
theorem tree_faithful (maxDepth : Nat) (source : Text) (graph : Yaml.Graph)
    (rooted : graph.root < graph.nodes.size) (closed : Closed graph.nodes) :
    ∃ root s visit,
      (∀ maxNodes, tree ⟨maxDepth, maxNodes⟩ source graph =
        if s.count ≤ maxNodes then some (root, s) else none) ∧
      s.count ≤ 1 + ∑ number ∈ Finset.range graph.nodes.size, demand graph.nodes number ∧
      visit.number = graph.root ∧ visit.result = root ∧
      (walk [] visit).length = s.count ∧
      Lawful maxDepth graph.nodes [] (walk [] visit) ∧
      (((walk [] visit).filter fun each => !each.visit.result.isAlias).map fun each =>
        each.visit.number).Nodup ∧
      root.nodes.Sublist ((walk [] visit).map fun each => each.visit.result) ∧
      root.count ≤ s.count ∧ root.Nests maxDepth ∧
      ∀ each ∈ walk [] visit, each.Cut graph.nodes → s.depthExceededAt.isSome := by
  obtain ⟨root, s, bounded, outcome⟩ := tree_eq maxDepth source graph
  have done : tree ⟨maxDepth, s.count⟩ source graph = some (root, s) := by
    rw [outcome, if_pos (Nat.le_refl _)]
  obtain ⟨visit, number, result, accounts⟩ :=
    node_accounted ⟨graph.nodes, source, ⟨maxDepth, s.count⟩⟩ closed _ [] _ _ _ _ _ _ rooted done
  have whole : walkAll [] [visit] = walk [] visit := List.append_nil _
  obtain ⟨lawful, agrees⟩ := accounts.lawful [] (agrees_start graph.nodes)
  have nodes := accounts.nodes
  rw [List.map_singleton, List.flatMap_singleton, result, whole] at nodes
  have visited := agrees.count
  rw [whole, List.nil_append] at visited
  rw [whole] at lawful
  refine ⟨root, s, visit, outcome, bounded, number, result, visited.symm, lawful,
    lawful_nodup lawful, nodes, ?_, ?_, ?_⟩
  · rw [Node.count_eq, visited]
    exact nodes.length_le.trans_eq (List.length_map _)
  · exact result ▸ accounts.nests visit List.mem_cons_self
  · rw [← whole]
    exact accounts.cuts

/-- A mapping that holds itself under one key, has another key twice, and shares a scalar. -/
theorem tree_faithful_cycle :
    let node (content : Yaml.Content) (anchor : Option Text) : Yaml.Node := ⟨content, anchor, 0, 0⟩
    let graph : Yaml.Graph :=
      ⟨#[node (.mapping false [(1, 2), (3, 0), (1, 2)]) (some ['a']), node (.scalar ['k'] none) none,
        node (.scalar ['v'] none) (some ['b']), node (.scalar ['l'] none) none], 0⟩
    let source := Text.of "&a {k: &b v, l: *a, k: *b}"
    graph.root < graph.nodes.size ∧ Closed graph.nodes ∧
      ∃ root s, tree ⟨1, 11⟩ source graph = some (root, s) ∧ root.count ≤ 11 ∧ root.Nests 1 := by
  intro node graph source
  have rooted : graph.root < graph.nodes.size := by decide
  have closed : Closed graph.nodes := by
    have all : ∀ number < 4, ∀ child ∈ (graph.nodes[number]?).elim [] (children ·.content),
        child < 4 := by decide
    intro number found here child member
    obtain ⟨inside, -⟩ := Array.getElem?_eq_some_iff.mp here
    refine all number inside child ?_
    rw [here]
    exact member
  obtain ⟨root, s, visit, outcome, bounded, -, -, -, -, -, -, count, nests, -⟩ :=
    tree_faithful 1 source graph rooted closed
  have enough : s.count ≤ 11 := Nat.le_trans bounded (by decide)
  exact ⟨rooted, closed, root, s, by rw [outcome, if_pos enough], Nat.le_trans count enough, nests⟩

end Flowfile.Build
