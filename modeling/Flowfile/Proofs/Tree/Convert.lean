import Flowfile.Proofs.Tree.Contents
import Flowfile.Tree.Build

/-! How a graph node is converted, and that the limits decide nothing but when the conversion stops:
within the number of nodes that it takes each budget gives the same tree. -/

namespace Flowfile.Build

def children : Yaml.Content → List Nat
  | .scalar .. => []
  | .sequence _ items => items
  | .mapping _ pairs => parts pairs

def State.visit (s : State) : State := { s with count := s.count + 1 }

@[simp] theorem visit_count (s : State) : s.visit.count = s.count + 1 := rfl

@[simp] theorem visit_built? (s : State) (number : Nat) :
    s.visit.built? number = s.built? number := rfl

theorem exceeded_isSome (s : State) (offset : Nat) :
    (s.exceeded offset).depthExceededAt.isSome = true := by
  rw [State.exceeded]
  cases s.depthExceededAt <;> rfl

@[simp] theorem keep_count (s : State) (number : Nat) (node : Node) :
    (s.keep number node).count = s.count := rfl

theorem keep_built? (s : State) (number other : Nat) (node : Node) :
    (s.keep number node).built? other =
      if number = other ∧ number < s.built.size then some node else s.built? other := by
  rw [State.built?, State.keep, Array.getElem?_setIfInBounds]
  by_cases same : number = other
  · subst same
    by_cases inside : number < s.built.size
    · simp [inside]
    · simp [inside, State.built?]
  · simp [same, State.built?]

def State.nextId (s : State) : Nat := 2 * (s.count + 1)

/-- The node has been converted, or its conversion has begun. -/
def State.Knows (s : State) (above : List Nat) (number : Nat) : Prop :=
  (s.built? number).isSome ∨ number ∈ above

inductive Step (env : Env) (inner : Convert) (above : List Nat) (number searchFrom : Nat)
    (indicator : Option Char) (s : State) : Node → State → Prop
  | missing (absent : env.graph[number]? = none) :
      Step env inner above number searchFrom indicator s
        (.scalar ⟨s.nextId, searchFrom, searchFrom⟩ none [] .null none) s.visit
  | again {found} (here : env.graph[number]? = some found) (known : s.Knows above number) :
      Step env inner above number searchFrom indicator s
        (aliasTo env.source found (s.built? number) s.nextId searchFrom) s.visit
  | scalar {found value style result} (here : env.graph[number]? = some found)
      (new : ¬s.Knows above number) (content : found.content = .scalar value style)
      (same : result = scalar env.source found s.nextId value style searchFrom indicator) :
      Step env inner above number searchFrom indicator s result (s.visit.keep number result)
  | cutMapping {found flow children result} (here : env.graph[number]? = some found)
      (new : ¬s.Knows above number) (content : found.content = .mapping flow children)
      (deep : env.limits.maxDepth ≤ above.length)
      (same : result = .map ⟨s.nextId, found.start, found.stop⟩ found.anchor flow []) :
      Step env inner above number searchFrom indicator s result
        ((s.visit.exceeded found.start).keep number result)
  | mapping {found flow children pairs info result s'} (here : env.graph[number]? = some found)
      (new : ¬s.Knows above number) (content : found.content = .mapping flow children)
      (shallow : above.length < env.limits.maxDepth)
      (run : mapPairs inner found.start children s.visit = some (pairs, s'))
      (place : info = ⟨s.nextId, found.start,
        if flow then found.stop else blockMapEnd found.start (lastPairs pairs)⟩)
      (same : result = .map info found.anchor flow (lastPairs pairs)) :
      Step env inner above number searchFrom indicator s result (s'.keep number result)
  | cutSequence {found flow children result} (here : env.graph[number]? = some found)
      (new : ¬s.Knows above number) (content : found.content = .sequence flow children)
      (deep : env.limits.maxDepth ≤ above.length)
      (same : result = .sequence ⟨s.nextId, found.start, found.stop⟩ found.anchor flow []) :
      Step env inner above number searchFrom indicator s result
        ((s.visit.exceeded found.start).keep number result)
  | sequence {found flow children items info result s'} (here : env.graph[number]? = some found)
      (new : ¬s.Knows above number) (content : found.content = .sequence flow children)
      (shallow : above.length < env.limits.maxDepth)
      (run : seqItems inner flow found.start children s.visit = some (items, s'))
      (place : info = ⟨s.nextId, found.start,
        if flow then found.stop else blockSequenceEnd found.start items⟩)
      (same : result = .sequence info found.anchor flow items) :
      Step env inner above number searchFrom indicator s result (s'.keep number result)

theorem knows_iff (s : State) (above : List Nat) (number : Nat) :
    ((s.visit.built? number).isSome || above.contains number) = true ↔ s.Knows above number := by
  rw [Bool.or_eq_true, List.contains_iff_mem]
  rfl

theorem step_of_node {env : Env} {fuel : Nat} {above : List Nat} {number searchFrom : Nat}
    {indicator : Option Char} {s s' : State} {result : Node}
    (done : node env (fuel + 1) above number searchFrom indicator s = some (result, s')) :
    s.count < env.limits.maxNodes ∧
      Step env (node env fuel (number :: above)) above number searchFrom indicator s result s' := by
  rw [node] at done
  dsimp only at done
  change (if env.limits.maxNodes < s.visit.count then none else _) = _ at done
  split at done
  · cases done
  · rename_i allowed
    refine ⟨Nat.lt_of_not_le fun full => allowed (Nat.lt_succ_of_le full), ?_⟩
    split at done
    · rename_i absent
      cases done
      exact .missing absent
    · rename_i found here
      split at done
      · rename_i known
        cases done
        exact .again here ((knows_iff s above number).mp known)
      · rename_i unknown
        have new : ¬s.Knows above number := fun known =>
          unknown ((knows_iff s above number).mpr known)
        split at done
        · rename_i value style content
          cases done
          exact .scalar here new content rfl
        · rename_i flow children content
          split at done
          · rename_i deep
            cases done
            exact .cutMapping here new content (of_decide_eq_true deep) rfl
          · rename_i shallow
            obtain ⟨⟨pairs, s''⟩, run, rest⟩ := Option.bind_eq_some_iff.mp done
            cases rest
            exact .mapping here new content
              (Nat.lt_of_not_le fun deep => shallow (decide_eq_true deep)) run rfl rfl
        · rename_i flow children content
          split at done
          · rename_i deep
            cases done
            exact .cutSequence here new content (of_decide_eq_true deep) rfl
          · rename_i shallow
            obtain ⟨⟨items, s''⟩, run, rest⟩ := Option.bind_eq_some_iff.mp done
            cases rest
            exact .sequence here new content
              (Nat.lt_of_not_le fun deep => shallow (decide_eq_true deep)) run rfl rfl

theorem node_of_step {env : Env} {fuel : Nat} {above : List Nat} {number searchFrom : Nat}
    {indicator : Option Char} {s s' : State} {result : Node}
    (allowed : s.count < env.limits.maxNodes)
    (step : Step env (node env fuel (number :: above)) above number searchFrom indicator s
      result s') :
    node env (fuel + 1) above number searchFrom indicator s = some (result, s') := by
  rw [node]
  dsimp only
  change (if env.limits.maxNodes < s.visit.count then none else _) = _
  have within : ¬env.limits.maxNodes < s.visit.count := Nat.not_lt.mpr allowed
  rw [if_neg within]
  have unknown (new : ¬s.Knows above number) :
      ¬((s.visit.built? number).isSome || above.contains number) = true :=
    fun known => new ((knows_iff s above number).mp known)
  cases step with
  | missing absent =>
      rw [absent]
      rfl
  | again here known =>
      rw [here]
      exact if_pos ((knows_iff s above number).mpr known)
  | scalar here new content same =>
      rw [here]
      refine (if_neg (unknown new)).trans ?_
      rw [content, same]
      rfl
  | cutMapping here new content deep same | cutSequence here new content deep same =>
      rw [here]
      refine (if_neg (unknown new)).trans ?_
      rw [content, same]
      exact if_pos (decide_eq_true deep)
  | mapping here new content shallow run place same
  | sequence here new content shallow run place same =>
      rw [here]
      refine (if_neg (unknown new)).trans ?_
      rw [content, same, place]
      refine (if_neg fun deep => ?_).trans ?_
      · exact Nat.not_le_of_lt shallow (of_decide_eq_true deep)
      · exact Option.bind_eq_some_iff.mpr ⟨_, run, rfl⟩

theorem node_eq_some_iff (env : Env) (fuel : Nat) (above : List Nat) (number searchFrom : Nat)
    (indicator : Option Char) (s s' : State) (result : Node) :
    node env (fuel + 1) above number searchFrom indicator s = some (result, s') ↔
      s.count < env.limits.maxNodes ∧
        Step env (node env fuel (number :: above)) above number searchFrom indicator s result s' :=
  ⟨step_of_node, fun ⟨allowed, step⟩ => node_of_step allowed step⟩

theorem mapPairs_cons_eq_some (convert : Convert) (cursor keyNumber valueNumber : Nat)
    (rest : List (Nat × Nat)) (s s' : State) (pairs : List (Node × Node)) :
    mapPairs convert cursor ((keyNumber, valueNumber) :: rest) s = some (pairs, s') ↔
      ∃ key s₁ value s₂ others, convert keyNumber cursor none s = some (key, s₁) ∧
        convert valueNumber key.stop (some ':') s₁ = some (value, s₂) ∧
        mapPairs convert (max key.stop value.stop) rest s₂ = some (others, s') ∧
        pairs = (key, value) :: others := by
  rw [mapPairs]
  constructor
  · intro done
    obtain ⟨⟨key, s₁⟩, first, done⟩ := Option.bind_eq_some_iff.mp done
    obtain ⟨⟨value, s₂⟩, second, done⟩ := Option.bind_eq_some_iff.mp done
    obtain ⟨⟨others, s₃⟩, third, done⟩ := Option.bind_eq_some_iff.mp done
    cases done
    exact ⟨key, s₁, value, s₂, others, first, second, third, rfl⟩
  · rintro ⟨key, s₁, value, s₂, others, first, second, third, rfl⟩
    exact Option.bind_eq_some_iff.mpr ⟨_, first, Option.bind_eq_some_iff.mpr
      ⟨_, second, Option.bind_eq_some_iff.mpr ⟨_, third, rfl⟩⟩⟩

theorem seqItems_cons_eq_some (convert : Convert) (flow : Bool) (cursor number : Nat)
    (rest : List Nat) (s s' : State) (items : List Node) :
    seqItems convert flow cursor (number :: rest) s = some (items, s') ↔
      ∃ item s₁ others,
        convert number cursor (if flow then none else some '-') s = some (item, s₁) ∧
        seqItems convert flow item.stop rest s₁ = some (others, s') ∧ items = item :: others := by
  rw [seqItems]
  constructor
  · intro done
    obtain ⟨⟨item, s₁⟩, first, done⟩ := Option.bind_eq_some_iff.mp done
    obtain ⟨⟨others, s₂⟩, second, done⟩ := Option.bind_eq_some_iff.mp done
    cases done
    exact ⟨item, s₁, others, first, second, rfl⟩
  · rintro ⟨item, s₁, others, first, second, rfl⟩
    exact Option.bind_eq_some_iff.mpr ⟨_, first, Option.bind_eq_some_iff.mpr ⟨_, second, rfl⟩⟩

inductive Threads (convert : Convert) : List Nat → State → List Node → State → Prop
  | nil {s} : Threads convert [] s [] s
  | cons {number searchFrom indicator numbers s s₁ s₂ result results}
      (first : convert number searchFrom indicator s = some (result, s₁))
      (rest : Threads convert numbers s₁ results s₂) :
      Threads convert (number :: numbers) s (result :: results) s₂

theorem mapPairs_threads {convert : Convert} {cursor : Nat} {children : List (Nat × Nat)}
    {s s' : State} {pairs : List (Node × Node)}
    (run : mapPairs convert cursor children s = some (pairs, s')) :
    Threads convert (parts children) s (parts pairs) s' := by
  induction children generalizing cursor s pairs with
  | nil =>
      cases run
      exact .nil
  | cons child rest ih =>
      obtain ⟨key, s₁, value, s₂, others, first, second, third, rfl⟩ :=
        (mapPairs_cons_eq_some ..).mp run
      exact .cons first (.cons second (ih third))

theorem seqItems_threads {convert : Convert} {flow : Bool} {cursor : Nat} {children : List Nat}
    {s s' : State} {items : List Node}
    (run : seqItems convert flow cursor children s = some (items, s')) :
    Threads convert children s items s' := by
  induction children generalizing cursor s items with
  | nil =>
      cases run
      exact .nil
  | cons number rest ih =>
      obtain ⟨item, s₁, others, first, second, rfl⟩ := (seqItems_cons_eq_some ..).mp run
      exact .cons first (ih second)

structure Extends (s s' : State) : Prop where
  count : s.count ≤ s'.count
  size : s'.built.size = s.built.size
  built : ∀ number, (s.built? number).isSome → (s'.built? number).isSome
  depth : s.depthExceededAt.isSome → s'.depthExceededAt.isSome

theorem extends_refl (s : State) : Extends s s := ⟨Nat.le_refl _, rfl, fun _ => id, id⟩

theorem extends_trans {s s₁ s₂ : State} (first : Extends s s₁) (second : Extends s₁ s₂) :
    Extends s s₂ :=
  ⟨Nat.le_trans first.count second.count, second.size.trans first.size,
    fun number known => second.built number (first.built number known),
    fun deep => second.depth (first.depth deep)⟩

theorem extends_visit (s : State) : Extends s s.visit :=
  ⟨Nat.le_succ _, rfl, fun _ => id, id⟩

theorem extends_exceeded (s : State) (offset : Nat) : Extends s (s.exceeded offset) :=
  ⟨Nat.le_refl _, rfl, fun _ => id, fun _ => exceeded_isSome s offset⟩

theorem extends_keep (s : State) (number : Nat) (node : Node) : Extends s (s.keep number node) := by
  refine ⟨Nat.le_refl _, Array.size_setIfInBounds, fun other known => ?_, id⟩
  rw [keep_built?]
  split
  · rfl
  · exact known

theorem threads_invariant {convert : Convert} {holds : State → Prop}
    (keeps : ∀ number searchFrom indicator s result s',
      convert number searchFrom indicator s = some (result, s') → holds s → holds s')
    {numbers : List Nat} {s s' : State} {results : List Node}
    (run : Threads convert numbers s results s') (start : holds s) : holds s' := by
  induction run with
  | nil => exact start
  | cons first rest ih => exact ih (keeps _ _ _ _ _ _ first start)

section

variable {env : Env} {holds : State → Prop}
  (exceeded : ∀ s offset, holds s → holds (s.exceeded offset))
  (keep : ∀ s number node, holds s → holds (s.keep number node))

include exceeded keep

theorem step_invariant {inner : Convert} {above : List Nat} {number searchFrom : Nat}
    {indicator : Option Char} {s s' : State} {result : Node}
    (threads : ∀ numbers results s₁, Threads inner numbers s.visit results s₁ → holds s₁)
    (start : holds s.visit) (step : Step env inner above number searchFrom indicator s result s') :
    holds s' := by
  cases step with
  | missing | again => exact start
  | scalar => exact keep _ _ _ start
  | cutMapping | cutSequence => exact keep _ _ _ (exceeded _ _ start)
  | mapping here new content shallow run => exact keep _ _ _ (threads _ _ _ (mapPairs_threads run))
  | sequence here new content shallow run => exact keep _ _ _ (threads _ _ _ (seqItems_threads run))

/-- What visits within the budget keep, and the records of what is met, is kept by a conversion. -/
theorem node_invariant (visit : ∀ s, s.count < env.limits.maxNodes → holds s → holds s.visit)
    {fuel : Nat} {above : List Nat} {number searchFrom : Nat} {indicator : Option Char}
    {s s' : State} {result : Node}
    (done : node env fuel above number searchFrom indicator s = some (result, s'))
    (start : holds s) : holds s' := by
  induction fuel generalizing above number searchFrom indicator s s' result with
  | zero => cases done
  | succ fuel ih =>
      obtain ⟨allowed, step⟩ := (node_eq_some_iff ..).mp done
      have begins := visit s allowed start
      refine step_invariant exceeded keep (fun numbers results s₁ run => ?_) begins step
      exact threads_invariant (fun _ _ _ _ _ _ => ih) run begins

end

section

variable {env : Env} {fuel : Nat} {above : List Nat} {number searchFrom : Nat}
  {indicator : Option Char} {s s' : State} {result : Node}

theorem node_extends (done : node env fuel above number searchFrom indicator s = some (result, s')) :
    Extends s s' :=
  node_invariant (fun _ _ grows => extends_trans grows (extends_exceeded _ _))
    (fun _ _ _ grows => extends_trans grows (extends_keep _ _ _))
    (fun _ _ grows => extends_trans grows (extends_visit _)) done (extends_refl s)

theorem threads_extends {numbers : List Nat} {results : List Node}
    (run : Threads (node env fuel above) numbers s results s') : Extends s s' :=
  threads_invariant (fun _ _ _ _ _ _ done grows => extends_trans grows (node_extends done)) run
    (extends_refl s)

theorem node_visits (done : node env fuel above number searchFrom indicator s = some (result, s')) :
    s.count < s'.count := by
  cases fuel with
  | zero => cases done
  | succ fuel =>
      obtain ⟨-, step⟩ := (node_eq_some_iff ..).mp done
      have grows : Extends s.visit s' :=
        step_invariant (fun _ _ grows => extends_trans grows (extends_exceeded _ _))
          (fun _ _ _ grows => extends_trans grows (extends_keep _ _ _))
          (fun _ _ _ run => threads_extends run) (extends_refl _) step
      exact grows.count

theorem node_count_le
    (done : node env fuel above number searchFrom indicator s = some (result, s'))
    (start : s.count ≤ env.limits.maxNodes) : s'.count ≤ env.limits.maxNodes := by
  let holds (s : State) : Prop := s.count ≤ env.limits.maxNodes
  have visit (s : State) (allowed : s.count < env.limits.maxNodes) (_ : holds s) : holds s.visit :=
    allowed
  have keep (s : State) (number : Nat) (node : Node) (kept : holds s) :
      holds (s.keep number node) := kept
  exact node_invariant (fun _ _ => id) keep visit done start

end

end Flowfile.Build
