import Flowfile.Proofs.Recovery.Run
import Flowfile.Proofs.Tree.Faithful

/-! Composed graphs are closed: the root and all children are nodes of the graph. So the tree of
every document that is loaded comes from visits of a graph. -/

namespace Flowfile.Yaml

namespace Compose

variable {α β : Type}

theorem run_bind (first : Action α) (next : α → Action β) (s : State) :
    (first >>= next).run.run s =
      match first.run.run s with
      | (.ok a, s₁) => (next a).run.run s₁
      | (.error e, s₁) => (.error e, s₁) := by
  change (match first.run.run s with | (a, s₁) => (ExceptT.bindCont next a).run s₁) = _
  rcases first.run.run s with ⟨e | a, s₁⟩ <;> rfl

theorem run_get (s : State) : (get : Action State).run.run s = (.ok s, s) := rfl

structure Sound (s : State) : Prop where
  anchors : ∀ entry ∈ s.anchors, entry.2 < s.nodes.size
  nodes : ∀ found ∈ s.nodes, ∀ child ∈ Build.children found.content, child < s.nodes.size

/-- From a sound state in which the known numbers are taken the action leads to a sound state, in
which the numbers of its result are taken too. -/
def Gives (known : List Nat) (action : Action α) (numbers : α → List Nat) : Prop :=
  ∀ s, Sound s → (∀ number ∈ known, number < s.nodes.size) →
    ∀ a s', action.run.run s = (.ok a, s') →
      Sound s' ∧ s.nodes.size ≤ s'.nodes.size ∧ ∀ number ∈ numbers a, number < s'.nodes.size

section

variable {known : List Nat}

theorem gives_pure {a : α} {numbers : α → List Nat} (taken : numbers a ⊆ known) :
    Gives known (pure a) numbers := by
  intro s sound inUse b s' done
  cases done
  exact ⟨sound, Nat.le_refl _, fun number member => inUse number (taken member)⟩

theorem gives_throw (failure : Failure) (numbers : α → List Nat) :
    Gives known (throw failure) numbers := by
  intro s sound inUse b s' done
  cases done

theorem gives_bind {first : Action α} {next : α → Action β} {middle : α → List Nat}
    {numbers : β → List Nat} (begins : Gives known first middle)
    (ends : ∀ a, Gives (middle a ++ known) (next a) numbers) :
    Gives known (first >>= next) numbers := by
  intro s sound inUse b s' done
  rw [run_bind] at done
  split at done
  · rename_i a s₁ half
    obtain ⟨sound', grows, taken⟩ := begins s sound inUse a s₁ half
    have both : ∀ number ∈ middle a ++ known, number < s₁.nodes.size := by
      intro number member
      rcases List.mem_append.mp member with member | member
      · exact taken number member
      · exact Nat.lt_of_lt_of_le (inUse number member) grows
    obtain ⟨sound'', more, result⟩ := ends a s₁ sound' both b s' done
    exact ⟨sound'', Nat.le_trans grows more, result⟩
  · cases done

theorem gives_of_same {action : Action α}
    (same : ∀ s, (action.run.run s).2.nodes = s.nodes ∧ (action.run.run s).2.anchors = s.anchors) :
    Gives known action (fun _ => []) := by
  intro s sound inUse a s' done
  obtain ⟨nodes, anchors⟩ := same s
  rw [done] at nodes anchors
  dsimp only at nodes anchors
  refine ⟨⟨?_, ?_⟩, ?_, by simp⟩
  · rw [nodes, anchors]
    exact sound.anchors
  · rw [nodes]
    exact sound.nodes
  · rw [nodes]

theorem gives_skip : Gives known skip (fun _ => []) := gives_of_same fun _ => ⟨rfl, rfl⟩

theorem gives_get : Gives known (get : Action State) (fun _ => []) :=
  gives_of_same fun _ => ⟨rfl, rfl⟩

theorem gives_peek : Gives known peek (fun _ => []) := by
  apply gives_of_same
  intro s
  rw [peek, run_bind, run_get]
  dsimp only
  rcases noteVersions s.version s.events with ⟨version, events⟩
  cases events with
  | nil => exact ⟨rfl, rfl⟩
  | cons => exact ⟨rfl, rfl⟩

theorem gives_add {node : Node} (fresh : Build.children node.content = []) :
    Gives known (add node) (fun number => [number]) := by
  intro s sound inUse number s' done
  cases done
  have grows : s.nodes.size < (s.nodes.push node).size := by
    rw [Array.size_push]
    exact Nat.lt_succ_self _
  refine ⟨⟨fun entry member => ?_, fun found member child inside => ?_⟩, Nat.le_of_lt grows, ?_⟩
  · dsimp only at member
    split at member
    · rcases List.mem_cons.mp member with rfl | member
      · exact grows
      · exact Nat.lt_trans (sound.anchors entry member) grows
    · exact Nat.lt_trans (sound.anchors entry member) grows
  · rcases Array.mem_push.mp member with member | rfl
    · exact Nat.lt_trans (sound.nodes found member child inside) grows
    · rw [fresh] at inside
      cases inside
  · intro number member
    cases List.mem_singleton.mp member
    exact grows

theorem gives_finish {node : Node} (number : Nat) (within : Build.children node.content ⊆ known) :
    Gives known (finish number node) (fun _ => []) := by
  intro s sound inUse done s' run
  cases run
  have size : (s.nodes.setIfInBounds number node).size = s.nodes.size := Array.size_setIfInBounds
  refine ⟨⟨fun entry member => ?_, fun found member child inside => ?_⟩, Nat.le_of_eq size.symm, ?_⟩
  · rw [size]
    exact sound.anchors entry member
  · rw [size]
    rcases Array.mem_or_eq_of_mem_setIfInBounds member with member | rfl
    · exact sound.nodes found member child inside
    · exact inUse child (within inside)
  · simp

theorem gives_anchor (name : Text) (start : Mark) :
    Gives known (do
      match (← get).anchors.lookup name with
      | some number => return number
      | none => throw (.grammar (.undefinedAlias name) none start)) (fun number => [number]) := by
  intro s sound inUse number s' done
  rw [run_bind, run_get] at done
  dsimp only at done
  split at done
  · rename_i found
    cases done
    refine ⟨sound, Nat.le_refl _, fun number' member => ?_⟩
    cases List.mem_singleton.mp member
    obtain ⟨before, after, whole, -⟩ := List.lookup_eq_some_iff.mp found
    exact sound.anchors (name, number) (by rw [whole]; simp)
  · cases done

end

theorem composed (fuel : Nat) :
    (∀ known, Gives known (node fuel) fun number => [number]) ∧
    (∀ known, Gives known (items fuel) fun result => result.1) ∧
    (∀ known, Gives known (pairs fuel) fun result => parts result.1) := by
  induction fuel with
  | zero =>
      exact ⟨fun _ => gives_throw _ _, fun _ => gives_throw _ _, fun _ => gives_throw _ _⟩
  | succ fuel ih =>
      obtain ⟨node, items, pairs⟩ := ih
      refine ⟨fun known => ?_, fun known => ?_, fun known => ?_⟩
      · rw [Compose.node]
        refine gives_bind gives_peek fun event => gives_bind gives_skip fun _ => ?_
        cases event with
        | «alias» name start => exact gives_anchor name start
        | scalar anchor value style plain start stop => exact gives_add rfl
        | sequenceStart anchor flow start =>
            refine gives_bind (gives_add rfl) fun number => gives_bind (items _) fun result => ?_
            obtain ⟨items, stop⟩ := result
            refine gives_bind (gives_finish number ?_) fun _ => gives_pure ?_
            · simp [Build.children]
            · simp
        | mappingStart anchor flow start =>
            refine gives_bind (gives_add rfl) fun number => gives_bind (pairs _) fun result => ?_
            obtain ⟨pairs, stop⟩ := result
            refine gives_bind (gives_finish number ?_) fun _ => gives_pure ?_
            · simp [Build.children]
            · simp
        | _ => exact gives_throw _ _
      · rw [Compose.items]
        refine gives_bind gives_peek fun event => ?_
        split
        · exact gives_bind gives_skip fun _ => gives_pure (by simp)
        · refine gives_bind (node _) fun item => gives_bind (items _) fun others => ?_
          exact gives_pure (by simp)
      · rw [Compose.pairs]
        refine gives_bind gives_peek fun event => ?_
        split
        · exact gives_bind gives_skip fun _ => gives_pure (by simp [parts])
        · refine gives_bind (node _) fun key => gives_bind (node _) fun value => ?_
          refine gives_bind (pairs _) fun others => gives_pure ?_
          rw [parts_cons]
          simp

theorem document_gives : Gives [] document (fun root => root.toList) := by
  rw [document]
  refine gives_bind gives_peek fun _ => gives_bind gives_skip fun _ => ?_
  refine gives_bind gives_peek fun event => ?_
  split
  · exact gives_pure (by simp)
  · refine gives_bind gives_skip fun _ => gives_bind gives_get fun s => ?_
    refine gives_bind ((composed _).1 _) fun root => gives_bind gives_peek fun _ => ?_
    refine gives_bind gives_skip fun _ => gives_bind gives_peek fun event => ?_
    split
    · exact gives_bind gives_get fun _ => gives_throw _ _
    · exact gives_pure (by simp)

end Compose

theorem compose_closed {version named : Version} {text : Text} {graph : Graph}
    (done : compose version text = (.ok (some graph), named)) :
    graph.root < graph.nodes.size ∧ Build.Closed graph.nodes := by
  let start : Compose.State :=
    { events := (events version text).1, fault := (events version text).2, version }
  have begun : Compose.Sound start := ⟨by simp [start], by simp [start]⟩
  change (Except.map (Option.map fun root => Graph.mk (Compose.document.run.run start).2.nodes root)
    (Compose.document.run.run start).1, (Compose.document.run.run start).2.version) = _ at done
  rcases run : Compose.document.run.run start with ⟨⟨failure⟩ | ⟨_ | root⟩, s⟩
  all_goals
    rw [run] at done
    cases done
  obtain ⟨sound, -, taken⟩ := Compose.document_gives start begun (by simp) (some root) s run
  refine ⟨taken root (by simp), fun number found here => ?_⟩
  exact sound.nodes found (Array.mem_of_getElem? here)

end Flowfile.Yaml

namespace Flowfile.Recovery

/-- A loaded tree is what one visit of the root of a composed graph came to. -/
theorem load_accounted {settings : Settings} {content : Text} {root : Node}
    {diagnostics : List Diagnostic}
    (loaded : load settings content = .ok (some root, diagnostics)) :
    ∃ (graph : Yaml.Graph) (s : Build.State) (visit : Build.Visit),
      visit.number = graph.root ∧ visit.result = root ∧
        Build.Accounts
          ⟨graph.nodes, content, ⟨settings.maxDepth.toNat, settings.maxNodeCount.toNat⟩⟩ []
          { built := Array.replicate graph.nodes.size none } [visit] s := by
  obtain ⟨entry, -, graph, s, composed, done⟩ := tree_of_loadWith loaded
  obtain ⟨rooted, closed⟩ := Yaml.compose_closed (Prod.ext composed rfl)
  obtain ⟨visit, number, result, accounts⟩ :=
    Build.node_accounted _ closed _ [] _ _ _ _ _ _ rooted done
  exact ⟨graph, s, visit, number, result, accounts⟩

end Flowfile.Recovery
