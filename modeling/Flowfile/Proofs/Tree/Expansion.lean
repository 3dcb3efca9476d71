import Flowfile.Tree.Projection

/-! The projection within limits, against the one that expands every alias.

A projector works with two counters that its visits change: how many expansions it is inside of,
and how many it may still perform. Every visit puts the first one back, and spends on the second
one as much as there is to expand, as far as the limits go. -/

namespace Flowfile.Projection

/-- What a projector keeps between visits. The log has the level of nesting of every expansion. -/
structure Counters where
  depth : Nat
  left : Nat
  log : List Nat

namespace Counters

def fresh (left : Nat) : Counters := ⟨0, left, []⟩

def Closed (maxDepth : Nat) (s : Counters) : Prop := maxDepth ≤ s.depth ∨ s.left = 0

instance (maxDepth : Nat) (s : Counters) : Decidable (s.Closed maxDepth) :=
  inferInstanceAs (Decidable (_ ∨ _))

def enter (s : Counters) : Counters := ⟨s.depth + 1, s.left - 1, s.log ++ [s.depth + 1]⟩

def leave (s : Counters) : Counters := { s with depth := s.depth - 1 }

end Counters

mutual

def visit (maxDepth : Nat) : Node → Counters → Value × Counters
  | .scalar _ _ _ value _, s => (value, s)
  | .map _ _ _ pairs, s =>
    let (entries, s) := visitPairs maxDepth [] pairs s
    (.map none entries, s)
  | .sequence _ _ _ items, s =>
    let (values, s) := visitItems maxDepth items s
    (.list none values, s)
  | .alias _ _ target, s =>
    if s.Closed maxDepth then (.null, s)
    else
      let (value, s) := visit maxDepth target s.enter
      (value, s.leave)

def visitPairs (maxDepth : Nat) (entries : List (Text × Value)) :
    List (Node × Node) → Counters → List (Text × Value) × Counters
  | [], s => (entries, s)
  | (key, value) :: pairs, s =>
    let (projected, s) := visit maxDepth value s
    visitPairs maxDepth (addEntry entries key.keyText projected) pairs s

def visitItems (maxDepth : Nat) : List Node → Counters → List Value × Counters
  | [], s => ([], s)
  | item :: items, s =>
    let (value, s) := visit maxDepth item s
    let (values, s) := visitItems maxDepth items s
    (value :: values, s)

end

mutual

def full : Node → Value
  | .scalar _ _ _ value _ => value
  | .map _ _ _ pairs => .map none (fullPairs [] pairs)
  | .sequence _ _ _ items => .list none (fullItems items)
  | .alias _ _ target => full target

def fullPairs (entries : List (Text × Value)) : List (Node × Node) → List (Text × Value)
  | [] => entries
  | (key, value) :: pairs => fullPairs (addEntry entries key.keyText (full value)) pairs

def fullItems : List Node → List Value
  | [] => []
  | item :: items => full item :: fullItems items

end

mutual

/-- The levels of nesting of the expansions that it performs, in their order, where it starts
inside of `level` of them. -/
def expansions (level : Nat) : Node → List Nat
  | .scalar .. => []
  | .map _ _ _ pairs => expansionsOfPairs level pairs
  | .sequence _ _ _ items => expansionsOfItems level items
  | .alias _ _ target => (level + 1) :: expansions (level + 1) target

def expansionsOfPairs (level : Nat) : List (Node × Node) → List Nat
  | [] => []
  | (_, value) :: pairs => expansions level value ++ expansionsOfPairs level pairs

def expansionsOfItems (level : Nat) : List Node → List Nat
  | [] => []
  | item :: items => expansions level item ++ expansionsOfItems level items

end

def Fits (maxDepth : Nat) (s : Counters) (levels : List Nat) : Prop :=
  levels.length ≤ s.left ∧ ∀ level ∈ levels, level ≤ maxDepth

/-- What visits do to the counters where there are expansions at these levels: they perform some of
them, and all of them if they fit. -/
structure Spends (maxDepth : Nat) (levels : List Nat) (s s' : Counters) : Prop where
  depth : s'.depth = s.depth
  performed : ∃ done, done.Sublist levels ∧ s'.log = s.log ++ done ∧
    done.length + s'.left = s.left ∧ (∀ level ∈ done, level ≤ maxDepth) ∧
    (Fits maxDepth s levels → done = levels)

section

variable {maxDepth : Nat} {first second levels : List Nat} {s s₁ s₂ : Counters}

theorem spends_refl (maxDepth : Nat) (s : Counters) : Spends maxDepth [] s s where
  depth := rfl
  performed := ⟨[], by simp⟩

theorem fits_left (fits : Fits maxDepth s (first ++ second)) : Fits maxDepth s first := by
  refine ⟨?_, fun level member => fits.2 level (List.mem_append_left _ member)⟩
  have length := fits.1
  rw [List.length_append] at length
  omega

theorem fits_right (fits : Fits maxDepth s (first ++ second)) (spends : Spends maxDepth first s s₁) :
    Fits maxDepth s₁ second := by
  refine ⟨?_, fun level member => fits.2 level (List.mem_append_right _ member)⟩
  obtain ⟨done, -, -, spent, -, whole⟩ := spends.performed
  obtain rfl := whole (fits_left fits)
  have length := fits.1
  rw [List.length_append] at length
  omega

theorem spends_append (one : Spends maxDepth first s s₁) (two : Spends maxDepth second s₁ s₂) :
    Spends maxDepth (first ++ second) s s₂ where
  depth := two.depth.trans one.depth
  performed := by
    obtain ⟨done, among₁, log₁, spent₁, low₁, whole₁⟩ := one.performed
    obtain ⟨done', among₂, log₂, spent₂, low₂, whole₂⟩ := two.performed
    refine ⟨done ++ done', among₁.append among₂, ?_, ?_, fun level member => ?_, fun fits => ?_⟩
    · rw [log₂, log₁, List.append_assoc]
    · rw [List.length_append]
      omega
    · rcases List.mem_append.mp member with member | member
      · exact low₁ level member
      · exact low₂ level member
    · rw [whole₁ (fits_left fits), whole₂ (fits_right fits one)]

theorem spends_closed (levels : List Nat) (closed : s.Closed maxDepth) :
    Spends maxDepth ((s.depth + 1) :: levels) s s where
  depth := rfl
  performed := by
    refine ⟨[], List.nil_sublist _, by simp, by simp, by simp, fun fits => ?_⟩
    have shallow := fits.2 _ List.mem_cons_self
    have length := fits.1
    rw [List.length_cons] at length
    rcases closed with deep | spent <;> omega

theorem fits_enter (fits : Fits maxDepth s ((s.depth + 1) :: levels)) :
    Fits maxDepth s.enter levels := by
  refine ⟨Nat.le_sub_one_of_lt ?_, fun level member => fits.2 level (List.mem_cons_of_mem _ member)⟩
  exact fits.1

theorem spends_expansion (allowed : ¬s.Closed maxDepth)
    (inner : Spends maxDepth levels s.enter s₁) :
    Spends maxDepth ((s.depth + 1) :: levels) s s₁.leave where
  depth := by
    change s₁.depth - 1 = s.depth
    rw [inner.depth]
    rfl
  performed := by
    obtain ⟨shallow, positive⟩ : s.depth < maxDepth ∧ s.left ≠ 0 := by
      rw [Counters.Closed] at allowed
      omega
    obtain ⟨done, among, log, spent, low, whole⟩ := inner.performed
    refine ⟨(s.depth + 1) :: done, among.cons_cons _, ?_, ?_, ?_, fun fits => ?_⟩
    · exact log.trans (by simp [Counters.enter])
    · change done.length + 1 + s₁.left = s.left
      change done.length + s₁.left = s.left - 1 at spent
      omega
    · exact List.forall_mem_cons.mpr ⟨shallow, low⟩
    · rw [whole (fits_enter fits)]

end

mutual

theorem visit_spends (maxDepth : Nat) (node : Node) (s : Counters) :
    Spends maxDepth (expansions s.depth node) s (visit maxDepth node s).2 := by
  match node with
  | .scalar .. => exact spends_refl maxDepth s
  | .map _ _ _ pairs => exact visitPairs_spends maxDepth [] pairs s
  | .sequence _ _ _ items => exact visitItems_spends maxDepth items s
  | .alias _ _ target =>
      rw [expansions, visit]
      split
      · rename_i closed
        exact spends_closed _ closed
      · rename_i allowed
        exact spends_expansion allowed (visit_spends maxDepth target s.enter)

theorem visitPairs_spends (maxDepth : Nat) (entries : List (Text × Value))
    (pairs : List (Node × Node)) (s : Counters) :
    Spends maxDepth (expansionsOfPairs s.depth pairs) s (visitPairs maxDepth entries pairs s).2 := by
  match pairs with
  | [] => exact spends_refl maxDepth s
  | (key, value) :: pairs =>
      have one := visit_spends maxDepth value s
      have two := visitPairs_spends maxDepth
        (addEntry entries key.keyText (visit maxDepth value s).1) pairs (visit maxDepth value s).2
      rw [one.depth] at two
      exact spends_append one two

theorem visitItems_spends (maxDepth : Nat) (items : List Node) (s : Counters) :
    Spends maxDepth (expansionsOfItems s.depth items) s (visitItems maxDepth items s).2 := by
  match items with
  | [] => exact spends_refl maxDepth s
  | item :: items =>
      have one := visit_spends maxDepth item s
      have two := visitItems_spends maxDepth items (visit maxDepth item s).2
      rw [one.depth] at two
      exact spends_append one two

end

mutual

theorem visit_full (maxDepth : Nat) (node : Node) (s : Counters)
    (fits : Fits maxDepth s (expansions s.depth node)) : (visit maxDepth node s).1 = full node := by
  match node with
  | .scalar .. => rfl
  | .map _ _ _ pairs =>
      rw [visit, full]
      exact congrArg (Value.map none) (visitPairs_full maxDepth [] pairs s fits)
  | .sequence _ _ _ items =>
      rw [visit, full]
      exact congrArg (Value.list none) (visitItems_full maxDepth items s fits)
  | .alias _ _ target =>
      rw [expansions] at fits
      have shallow := fits.2 _ List.mem_cons_self
      have length := fits.1
      rw [List.length_cons] at length
      have allowed : ¬s.Closed maxDepth := by
        rw [Counters.Closed]
        omega
      rw [visit, if_neg allowed, full]
      exact visit_full maxDepth target s.enter (fits_enter fits)

theorem visitPairs_full (maxDepth : Nat) (entries : List (Text × Value))
    (pairs : List (Node × Node)) (s : Counters)
    (fits : Fits maxDepth s (expansionsOfPairs s.depth pairs)) :
    (visitPairs maxDepth entries pairs s).1 = fullPairs entries pairs := by
  match pairs with
  | [] => rfl
  | (key, value) :: pairs =>
      have one := visit_spends maxDepth value s
      have rest := fits_right fits one
      rw [← one.depth] at rest
      rw [visitPairs, fullPairs, ← visit_full maxDepth value s (fits_left fits)]
      exact visitPairs_full maxDepth _ pairs _ rest

theorem visitItems_full (maxDepth : Nat) (items : List Node) (s : Counters)
    (fits : Fits maxDepth s (expansionsOfItems s.depth items)) :
    (visitItems maxDepth items s).1 = fullItems items := by
  match items with
  | [] => rfl
  | item :: items =>
      have one := visit_spends maxDepth item s
      have rest := fits_right fits one
      rw [← one.depth] at rest
      rw [visitItems, fullItems, ← visit_full maxDepth item s (fits_left fits),
        ← visitItems_full maxDepth items _ rest]

end

theorem project_alias_closed {maxDepth : Nat} {s : Counters} (info : NodeInfo) (name : Text)
    (target : Node) (closed : s.Closed maxDepth) :
    project (maxDepth - s.depth) s.left (.alias info name target) = (.null, s.left) := by
  rcases closed with deep | spent
  · rw [Nat.sub_eq_zero_of_le deep, project]
  · rw [spent]
    cases maxDepth - s.depth <;> rfl

theorem project_alias_open {maxDepth : Nat} {s : Counters} (info : NodeInfo) (name : Text)
    (target : Node) (allowed : ¬s.Closed maxDepth) :
    project (maxDepth - s.depth) s.left (.alias info name target) =
      project (maxDepth - s.enter.depth) s.enter.left target := by
  rw [Counters.Closed, not_or] at allowed
  obtain ⟨depth, deeper⟩ : ∃ depth, maxDepth - s.depth = depth + 1 :=
    Nat.exists_eq_succ_of_ne_zero (by omega)
  obtain ⟨left, more⟩ := Nat.exists_eq_succ_of_ne_zero allowed.2
  have inside : maxDepth - s.enter.depth = depth := by
    change maxDepth - (s.depth + 1) = depth
    omega
  have after : s.enter.left = left := by
    change s.left - 1 = left
    omega
  rw [inside, after, deeper, more]
  rfl

mutual

/-- What is left of the depth is all that a visit needs to know of the counter. -/
theorem visit_eq_project (maxDepth : Nat) (node : Node) (s : Counters) :
    ((visit maxDepth node s).1, (visit maxDepth node s).2.left) =
      project (maxDepth - s.depth) s.left node := by
  match node with
  | .scalar .. => rw [visit, project]
  | .map _ _ _ pairs => rw [visit, project, ← visitPairs_eq_projectPairs maxDepth [] pairs s]
  | .sequence _ _ _ items => rw [visit, project, ← visitItems_eq_projectItems maxDepth items s]
  | .alias info name target =>
      rw [visit]
      split
      · rename_i closed
        exact (project_alias_closed info name target closed).symm
      · rename_i allowed
        rw [project_alias_open info name target allowed, ← visit_eq_project maxDepth target s.enter]
        rfl

theorem visitPairs_eq_projectPairs (maxDepth : Nat) (entries : List (Text × Value))
    (pairs : List (Node × Node)) (s : Counters) :
    ((visitPairs maxDepth entries pairs s).1, (visitPairs maxDepth entries pairs s).2.left) =
      projectPairs (maxDepth - s.depth) s.left entries pairs := by
  match pairs with
  | [] => rw [visitPairs, projectPairs]
  | (key, value) :: pairs =>
      have back := (visit_spends maxDepth value s).depth
      rw [visitPairs, projectPairs, ← visit_eq_project maxDepth value s, ← back]
      exact visitPairs_eq_projectPairs maxDepth _ pairs _

theorem visitItems_eq_projectItems (maxDepth : Nat) (items : List Node) (s : Counters) :
    ((visitItems maxDepth items s).1, (visitItems maxDepth items s).2.left) =
      projectItems (maxDepth - s.depth) s.left items := by
  match items with
  | [] => rw [visitItems, projectItems]
  | item :: items =>
      have back := (visit_spends maxDepth item s).depth
      have rest := visitItems_eq_projectItems maxDepth items (visit maxDepth item s).2
      rw [back] at rest
      rw [visitItems, projectItems, ← visit_eq_project maxDepth item s]
      dsimp only
      rw [← rest]

end

/-- A visit leaves the depth as it was. The projection keeps within its limits, and where those
allow all that there is to expand, it is the projection that expands every alias. -/
theorem visit_refines (node : Node) (maxDepth maxExpansions : Nat) :
    (∀ s, (visit maxDepth node s).2.depth = s.depth) ∧
      let run := visit maxDepth node (.fresh maxExpansions)
      run.1 = (project maxDepth maxExpansions node).1 ∧
        run.2.log.length ≤ maxExpansions ∧ (∀ level ∈ run.2.log, level ≤ maxDepth) ∧
        run.2.log.Sublist (expansions 0 node) ∧
        ((expansions 0 node).length ≤ maxExpansions →
          (∀ level ∈ expansions 0 node, level ≤ maxDepth) →
          run.1 = full node ∧ run.2.log = expansions 0 node) := by
  refine ⟨fun s => (visit_spends maxDepth node s).depth, ?_⟩
  have same := visit_eq_project maxDepth node (.fresh maxExpansions)
  obtain ⟨done, among, log, spent, low, whole⟩ :=
    (visit_spends maxDepth node (.fresh maxExpansions)).performed
  change _ = [] ++ done at log
  rw [List.nil_append] at log
  refine ⟨congrArg Prod.fst same, ?_, ?_, ?_, fun few shallow => ⟨?_, ?_⟩⟩
  · rw [log]
    exact Nat.le.intro spent
  · rw [log]
    exact low
  · rw [log]
    exact among
  · exact visit_full maxDepth node (.fresh maxExpansions) ⟨few, shallow⟩
  · rw [log]
    exact whole ⟨few, shallow⟩

/-- Two aliases, the second one in what the first one merges. -/
theorem visit_refines_nested :
    let word (text : Text) : Node := .scalar ⟨2, 0, 2⟩ none text (.str text) none
    let shell : Node := .alias ⟨4, 3, 5⟩ ['s'] (word ['s', 'h'])
    let base : Node := .map ⟨6, 0, 9⟩ (some ['b']) false [(word ['r'], shell)]
    let root : Node := .map ⟨8, 0, 9⟩ none false
      [(word mergeKey, .alias ⟨10, 3, 5⟩ ['b'] base), (word ['k'], word ['v'])]
    (expansions 0 root).length ≤ 2 ∧ (∀ level ∈ expansions 0 root, level ≤ 2) ∧
      (visit 2 root (.fresh 2)).1 = full root ∧
      full root = .map none [(['r'], .str ['s', 'h']), (['k'], .str ['v'])] := by
  intro word shell base root
  have few : (expansions 0 root).length ≤ 2 := by decide
  have shallow : ∀ level ∈ expansions 0 root, level ≤ 2 := by decide
  refine ⟨few, shallow, ?_, rfl⟩
  exact ((visit_refines root 2 2).2.2.2.2.2 few shallow).1

end Flowfile.Projection
