import Mathlib.Algebra.BigOperators.Group.Finset.Basic
import Mathlib.Algebra.Order.BigOperators.Group.Finset
import Flowfile.Proofs.Tree.Convert

/-! When the limits stop a conversion. Every graph is converted after so many visits, whatever its
nodes share and however they contain each other; with a budget of that many nodes or more the tree
is always the same, and with less there is none. -/

namespace Flowfile.Build

def Fits (limits other : Limits) (s : State) : Prop :=
  s.count ≤ other.maxNodes ∧ (limits.maxDepth = other.maxDepth ∨
    limits.maxDepth ≤ other.maxDepth ∧ s.depthExceededAt = none)

theorem fits_of_extends {limits other : Limits} {s s' : State} (grows : Extends s s')
    (fits : Fits limits other s') : Fits limits other s := by
  refine ⟨Nat.le_trans grows.count fits.1, fits.2.imp_right fun more => ⟨more.1, ?_⟩⟩
  have known := mt grows.depth
  rw [more.2] at known
  simpa using known

/-- The conversions of `other` are those of `convert` as far as the states fit and the steps are
enough. -/
def Follows (fits : State → Prop) (steps : Nat) (convert other : Convert) : Prop :=
  ∀ number searchFrom indicator s result s',
    convert number searchFrom indicator s = some (result, s') → fits s' →
      s'.count ≤ s.count + steps → other number searchFrom indicator s = some (result, s')

section

variable {env : Env} {fuel : Nat} {above : List Nat} {fits : State → Prop} {steps : Nat}
  {other : Convert} (closed : ∀ s s', Extends s s' → fits s' → fits s)
  (follows : Follows fits steps (node env fuel above) other)

include closed follows

theorem mapPairs_follows {cursor : Nat} {children : List (Nat × Nat)} {s s' : State}
    {pairs : List (Node × Node)}
    (run : mapPairs (node env fuel above) cursor children s = some (pairs, s')) (fit : fits s')
    (enough : s'.count ≤ s.count + steps) :
    mapPairs other cursor children s = some (pairs, s') := by
  induction children generalizing cursor s pairs with
  | nil =>
      cases run
      rfl
  | cons child rest ih =>
      obtain ⟨key, s₁, value, s₂, others, first, second, third, rfl⟩ :=
        (mapPairs_cons_eq_some ..).mp run
      have begins := node_extends first
      have goes := node_extends second
      have ends := threads_extends (mapPairs_threads third)
      have inside := closed _ _ ends fit
      have := begins.count
      have := goes.count
      have := ends.count
      refine (mapPairs_cons_eq_some ..).mpr ⟨key, s₁, value, s₂, others, ?_, ?_, ?_, rfl⟩
      · exact follows _ _ _ _ _ _ first (closed _ _ goes inside) (by omega)
      · exact follows _ _ _ _ _ _ second inside (by omega)
      · exact ih third (by omega)

theorem seqItems_follows {flow : Bool} {cursor : Nat} {children : List Nat} {s s' : State}
    {items : List Node}
    (run : seqItems (node env fuel above) flow cursor children s = some (items, s'))
    (fit : fits s') (enough : s'.count ≤ s.count + steps) :
    seqItems other flow cursor children s = some (items, s') := by
  induction children generalizing cursor s items with
  | nil =>
      cases run
      rfl
  | cons number rest ih =>
      obtain ⟨item, s₁, others, first, second, rfl⟩ := (seqItems_cons_eq_some ..).mp run
      have begins := node_extends first
      have ends := threads_extends (seqItems_threads second)
      have := begins.count
      have := ends.count
      refine (seqItems_cons_eq_some ..).mpr ⟨item, s₁, others, ?_, ?_, rfl⟩
      · exact follows _ _ _ _ _ _ first (closed _ _ ends fit) (by omega)
      · exact ih second (by omega)

end

theorem node_follows (env : Env) (limits : Limits) (fuel steps : Nat) (above : List Nat) :
    Follows (Fits env.limits limits) steps (node env fuel above)
      (node { env with limits := limits } steps above) := by
  induction fuel generalizing steps above with
  | zero =>
      intro number searchFrom indicator s result s' done
      cases done
  | succ fuel ih =>
      intro number searchFrom indicator s result s' done fit enough
      have visited : s.count + 1 ≤ s'.count := node_visits done
      obtain ⟨steps, rfl⟩ : ∃ left, steps = left + 1 := ⟨steps - 1, by omega⟩
      obtain ⟨-, step⟩ := (node_eq_some_iff ..).mp done
      have follows := ih steps (number :: above)
      have closed (s s' : State) := @fits_of_extends env.limits limits s s'
      have wider : env.limits.maxDepth ≤ limits.maxDepth :=
        fit.2.elim Nat.le_of_eq And.left
      have equal (cut : s'.depthExceededAt.isSome) : env.limits.maxDepth = limits.maxDepth :=
        fit.2.elim id fun never => absurd never.2 (Option.isSome_iff_ne_none.mp cut)
      refine (node_eq_some_iff ..).mpr ⟨Nat.lt_of_lt_of_le visited fit.1, ?_⟩
      cases step with
      | missing absent => exact .missing absent
      | again here known => exact .again here known
      | scalar here new content same => exact .scalar here new content same
      | cutMapping here new content deep same =>
          exact .cutMapping here new content (equal (exceeded_isSome _ _) ▸ deep) same
      | cutSequence here new content deep same =>
          exact .cutSequence here new content (equal (exceeded_isSome _ _) ▸ deep) same
      | mapping here new content shallow run place same =>
          have inside := closed _ _ (extends_keep _ _ _) fit
          have other := mapPairs_follows closed follows run inside
            (by rw [visit_count]; rw [keep_count] at enough; omega)
          exact .mapping here new content (Nat.lt_of_lt_of_le shallow wider) other place same
      | sequence here new content shallow run place same =>
          have inside := closed _ _ (extends_keep _ _ _) fit
          have other := seqItems_follows closed follows run inside
            (by rw [visit_count]; rw [keep_count] at enough; omega)
          exact .sequence here new content (Nat.lt_of_lt_of_le shallow wider) other place same

def demand (graph : Array Yaml.Node) (number : Nat) : Nat :=
  (graph[number]?).elim 0 fun found => (children found.content).length + 1

def fresh (graph : Array Yaml.Node) (s : State) (above : List Nat) : Finset Nat :=
  (Finset.range graph.size).filter fun number => ¬(s.built? number).isSome ∧ number ∉ above

/-- What the nodes that have not been visited can still ask for. -/
def pending (graph : Array Yaml.Node) (s : State) (above : List Nat) : Nat :=
  ∑ number ∈ fresh graph s above, demand graph number

section

variable (graph : Array Yaml.Node) {s s' : State} (above : List Nat) {number : Nat}

theorem mem_fresh {graph : Array Yaml.Node} {above : List Nat} : number ∈ fresh graph s above ↔
    number < graph.size ∧ ¬s.Knows above number := by
  rw [fresh, Finset.mem_filter, Finset.mem_range, State.Knows, not_or]

theorem pending_le_of_subset {graph : Array Yaml.Node} {above above' : List Nat}
    (fewer : fresh graph s' above' ⊆ fresh graph s above) :
    pending graph s' above' ≤ pending graph s above :=
  Finset.sum_le_sum_of_subset fewer

theorem pending_extends (grows : Extends s s') : pending graph s' above ≤ pending graph s above := by
  refine pending_le_of_subset fun number member => ?_
  obtain ⟨inside, new⟩ := mem_fresh.mp member
  exact mem_fresh.mpr ⟨inside, fun known => new (known.imp_left (grows.built number))⟩

theorem visit_pending : pending graph s.visit above = pending graph s above := rfl

theorem pending_enter {graph : Array Yaml.Node} {above : List Nat} {found : Yaml.Node}
    (here : graph[number]? = some found) (new : ¬s.Knows above number) :
    pending graph s (number :: above) + ((children found.content).length + 1) =
      pending graph s above := by
  obtain ⟨inside, -⟩ := Array.getElem?_eq_some_iff.mp here
  have entered : fresh graph s (number :: above) = (fresh graph s above).erase number := by
    ext other
    simp only [Finset.mem_erase, mem_fresh, State.Knows, List.mem_cons]
    tauto
  have asked : (children found.content).length + 1 = demand graph number := by
    rw [demand, here]
    rfl
  rw [pending, entered, asked]
  exact Finset.sum_erase_add _ _ (mem_fresh.mpr ⟨inside, new⟩)

theorem pending_keep {graph : Array Yaml.Node} (node : Node) (sized : s.built.size = graph.size) :
    pending graph (s.keep number node) above ≤ pending graph s (number :: above) := by
  refine pending_le_of_subset fun other member => ?_
  obtain ⟨inside, new⟩ := mem_fresh.mp member
  rw [State.Knows, keep_built?, sized] at new
  by_cases same : number = other
  · rw [if_pos ⟨same, same ▸ inside⟩] at new
    exact absurd (.inl rfl) new
  · rw [if_neg fun both => same both.1] at new
    refine mem_fresh.mpr ⟨inside, fun known => new (known.imp_right fun member => ?_)⟩
    exact (List.mem_cons.mp member).resolve_left fun equal => same equal.symm

/-- A node uses up what it asks for itself and what is used up below it. -/
theorem pending_leave {graph : Array Yaml.Node} {above : List Nat} {found : Yaml.Node}
    (here : graph[number]? = some found) (new : ¬s.Knows above number) (node : Node)
    (sized : s'.built.size = graph.size)
    (spent : s'.count + pending graph s' (number :: above) ≤
      s.visit.count + pending graph s.visit (number :: above) + (children found.content).length) :
    (s'.keep number node).count + pending graph (s'.keep number node) above ≤
      s.count + pending graph s above + 1 := by
  have entered := pending_enter here new
  have left : pending graph (s'.keep number node) above ≤ pending graph s' (number :: above) :=
    pending_keep above node sized
  rw [visit_count, visit_pending] at spent
  rw [keep_count]
  omega

end

def Succeeds (env : Env) (above : List Nat) (fuel : Nat) (convert : Convert) : Prop :=
  ∀ number searchFrom indicator s, s.built.size = env.graph.size →
    s.count + pending env.graph s above < env.limits.maxNodes →
    pending env.graph s above < fuel →
      ∃ result s', convert number searchFrom indicator s = some (result, s') ∧
        s'.count + pending env.graph s' above ≤ s.count + pending env.graph s above + 1

section

variable {env : Env} {above : List Nat} {fuel : Nat}
  (succeeds : Succeeds env above fuel (node env fuel above))

include succeeds

theorem mapPairs_succeeds (cursor : Nat) (numbers : List (Nat × Nat)) (s : State)
    (sized : s.built.size = env.graph.size)
    (room : s.count + pending env.graph s above + (parts numbers).length ≤ env.limits.maxNodes)
    (enough : pending env.graph s above < fuel) :
    ∃ pairs s', mapPairs (node env fuel above) cursor numbers s = some (pairs, s') ∧
      s'.count + pending env.graph s' above ≤
        s.count + pending env.graph s above + (parts numbers).length := by
  induction numbers generalizing cursor s with
  | nil => exact ⟨[], s, rfl, Nat.le_refl _⟩
  | cons pair rest ih =>
      rw [parts_cons, List.length_cons, List.length_cons] at room ⊢
      obtain ⟨key, s₁, first, spent⟩ := succeeds pair.1 cursor none s sized (by omega) enough
      have begins := node_extends first
      have fewer := pending_extends env.graph above begins
      obtain ⟨value, s₂, second, spent'⟩ := succeeds pair.2 key.stop (some ':') s₁
        (begins.size.trans sized) (by omega) (by omega)
      have goes := node_extends second
      have fewer' := pending_extends env.graph above goes
      obtain ⟨others, s₃, third, spent''⟩ := ih (max key.stop value.stop) s₂
        (goes.size.trans (begins.size.trans sized)) (by omega) (by omega)
      exact ⟨_, s₃, (mapPairs_cons_eq_some ..).mpr
        ⟨key, s₁, value, s₂, others, first, second, third, rfl⟩, by omega⟩

theorem seqItems_succeeds (flow : Bool) (cursor : Nat) (numbers : List Nat) (s : State)
    (sized : s.built.size = env.graph.size)
    (room : s.count + pending env.graph s above + numbers.length ≤ env.limits.maxNodes)
    (enough : pending env.graph s above < fuel) :
    ∃ items s', seqItems (node env fuel above) flow cursor numbers s = some (items, s') ∧
      s'.count + pending env.graph s' above ≤
        s.count + pending env.graph s above + numbers.length := by
  induction numbers generalizing cursor s with
  | nil => exact ⟨[], s, rfl, Nat.le_refl _⟩
  | cons number rest ih =>
      rw [List.length_cons] at room ⊢
      obtain ⟨item, s₁, first, spent⟩ :=
        succeeds number cursor (if flow then none else some '-') s sized (by omega) enough
      have begins := node_extends first
      have fewer := pending_extends env.graph above begins
      obtain ⟨others, s₂, second, spent'⟩ := ih item.stop s₁
        (begins.size.trans sized) (by omega) (by omega)
      exact ⟨_, s₂, (seqItems_cons_eq_some ..).mpr ⟨item, s₁, others, first, second, rfl⟩, by omega⟩

end

theorem node_succeeds (env : Env) (fuel : Nat) (above : List Nat) :
    Succeeds env above fuel (node env fuel above) := by
  induction fuel generalizing above with
  | zero =>
      intro number searchFrom indicator s sized room enough
      exact absurd enough (Nat.not_lt_zero _)
  | succ fuel ih =>
      intro number searchFrom indicator s sized room enough
      have allowed : s.count < env.limits.maxNodes := by omega
      have ends {result : Node} {s' : State}
          (step : Step env (node env fuel (number :: above)) above number searchFrom indicator s
            result s')
          (spent : s'.count + pending env.graph s' above ≤
            s.count + pending env.graph s above + 1) :
          ∃ result s', node env (fuel + 1) above number searchFrom indicator s = some (result, s') ∧
            s'.count + pending env.graph s' above ≤ s.count + pending env.graph s above + 1 :=
        ⟨result, s', (node_eq_some_iff ..).mpr ⟨allowed, step⟩, spent⟩
      -- A visit without visits of children leaves at most as much pending as before.
      have leaf {s' : State} (grows : Extends s s') (count : s'.count = s.count + 1) :
          s'.count + pending env.graph s' above ≤ s.count + pending env.graph s above + 1 := by
        have fewer := pending_extends env.graph above grows
        omega
      rcases here : env.graph[number]? with _ | found
      · exact ends (.missing here) (leaf (extends_visit s) rfl)
      · by_cases known : s.Knows above number
        · exact ends (.again here known) (leaf (extends_visit s) rfl)
        · have entered := pending_enter here known
          rw [← visit_pending env.graph] at entered
          have cut (offset : Nat) (node : Node) :
              Extends s ((s.visit.exceeded offset).keep number node) :=
            extends_trans (extends_visit s)
              (extends_trans (extends_exceeded _ _) (extends_keep _ _ _))
          rcases content : found.content with ⟨value, style⟩ | ⟨flow, items⟩ | ⟨flow, pairs⟩
          · exact ends (.scalar here known content rfl)
              (leaf (extends_trans (extends_visit s) (extends_keep _ _ _)) rfl)
          · by_cases deep : env.limits.maxDepth ≤ above.length
            · exact ends (.cutSequence here known content deep rfl) (leaf (cut found.start _) rfl)
            · rw [content, children] at entered
              obtain ⟨results, s', run, spent⟩ := seqItems_succeeds (ih (number :: above)) flow
                found.start items s.visit sized (by rw [visit_count]; omega) (by omega)
              have grows := threads_extends (seqItems_threads run)
              refine ends (.sequence here known content (Nat.lt_of_not_le deep) run rfl rfl) ?_
              refine pending_leave here known _ (grows.size.trans sized) ?_
              rwa [content, children]
          · by_cases deep : env.limits.maxDepth ≤ above.length
            · exact ends (.cutMapping here known content deep rfl) (leaf (cut found.start _) rfl)
            · rw [content, children] at entered
              obtain ⟨results, s', run, spent⟩ := mapPairs_succeeds (ih (number :: above))
                found.start pairs s.visit sized (by rw [visit_count]; omega) (by omega)
              have grows := threads_extends (mapPairs_threads run)
              refine ends (.mapping here known content (Nat.lt_of_not_le deep) run rfl rfl) ?_
              refine pending_leave here known _ (grows.size.trans sized) ?_
              rwa [content, children]

/-- The conversion of a graph ends after a number of visits that the limit on nodes does not change.
It has a tree, always the same one, just where the limit allows so many. -/
theorem tree_eq (maxDepth : Nat) (source : Text) (graph : Yaml.Graph) :
    ∃ root s, s.count ≤ 1 + ∑ number ∈ Finset.range graph.nodes.size, demand graph.nodes number ∧
      ∀ maxNodes, tree ⟨maxDepth, maxNodes⟩ source graph =
        if s.count ≤ maxNodes then some (root, s) else none := by
  let start : State := { built := Array.replicate graph.nodes.size none }
  let most := 1 + pending graph.nodes start []
  obtain ⟨root, s, done, spent⟩ := node_succeeds ⟨graph.nodes, source, ⟨maxDepth, most⟩⟩ (most + 1)
    [] graph.root 0 none start Array.size_replicate (by simp only [most, start]; omega)
    (by simp only [most]; omega)
  have whole : pending graph.nodes start [] ≤
      ∑ number ∈ Finset.range graph.nodes.size, demand graph.nodes number :=
    Finset.sum_le_sum_of_subset (Finset.filter_subset _ _)
  change s.count + pending graph.nodes s [] ≤ 0 + pending graph.nodes start [] + 1 at spent
  refine ⟨root, s, by omega, fun maxNodes => ?_⟩
  split
  · rename_i enough
    exact node_follows _ ⟨maxDepth, maxNodes⟩ _ (maxNodes + 1) [] _ _ _ _ _ _ done
      ⟨enough, .inl rfl⟩ (Nat.le_trans enough (by omega))
  · rename_i short
    rcases outcome : tree ⟨maxDepth, maxNodes⟩ source graph with _ | ⟨root', s'⟩
    · rfl
    · have within : s'.count ≤ maxNodes := node_count_le outcome (Nat.zero_le _)
      have whole' : s.count ≤ most := node_count_le done (Nat.zero_le _)
      have room : s'.count ≤ most := by omega
      have larger := node_follows _ ⟨maxDepth, most⟩ _ (most + 1) [] _ _ _ _ _ _ outcome
        ⟨room, .inl rfl⟩ (Nat.le_trans room (by omega))
      cases done.symm.trans larger
      exact absurd within short

theorem tree_of_uncut {limits other : Limits} {source : Text} {graph : Yaml.Graph} {root : Node}
    {s : State} (done : tree limits source graph = some (root, s))
    (uncut : s.depthExceededAt = none) (deeper : limits.maxDepth ≤ other.maxDepth)
    (more : limits.maxNodes ≤ other.maxNodes) : tree other source graph = some (root, s) := by
  have within : s.count ≤ limits.maxNodes := node_count_le done (Nat.zero_le _)
  have room : s.count ≤ other.maxNodes := Nat.le_trans within more
  exact node_follows _ other _ (other.maxNodes + 1) [] _ _ _ _ _ _ done
    ⟨room, .inr ⟨deeper, uncut⟩⟩ (Nat.le_trans room (by omega))

end Flowfile.Build
