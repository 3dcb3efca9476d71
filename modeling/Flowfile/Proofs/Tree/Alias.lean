import Flowfile.Proofs.Text.Search
import Flowfile.Proofs.Tree.Faithful

/-! Where the tree has its aliases.

A graph does not say where its aliases were read: an alias is put where its name is next found in
the text, from the end of what stands before it. So what was read has to be told beside the graph.
The search never begins behind the token of an alias, as nothing that is converted ends behind a
star that follows it. But it finds the token only where the same text does not stand before it. -/

namespace Flowfile

namespace Yaml

/-- What was read at a place of a text: an alias, whose token starts there, or a node with all that
was read in it. -/
inductive Reading
  | alias (number start : Nat)
  | node (number : Nat) (inner : List Reading)

namespace Reading

def number : Reading → Nat
  | .alias number _ => number
  | .node number _ => number

mutual

def begun : Reading → List Nat
  | .alias .. => []
  | .node number inner => number :: begunAll inner

def begunAll : List Reading → List Nat
  | [] => []
  | reading :: rest => reading.begun ++ begunAll rest

end

mutual

/-- Aliases lead to nodes that began before them, and no node begins twice. -/
def Linked (before : List Nat) : Reading → Prop
  | .alias number _ => number ∈ before
  | .node number inner => number ∉ before ∧ LinkedAll (number :: before) inner

def LinkedAll (before : List Nat) : List Reading → Prop
  | [] => True
  | reading :: rest => reading.Linked before ∧ LinkedAll (before ++ reading.begun) rest

end

mutual

/-- What is left of a reading inside of at most so many collections. -/
def prune : Nat → Reading → Reading
  | _, .alias number start => .alias number start
  | 0, .node number _ => .node number []
  | depth + 1, .node number inner => .node number (pruneAll depth inner)

def pruneAll (depth : Nat) : List Reading → List Reading
  | [] => []
  | reading :: rest => reading.prune depth :: pruneAll depth rest

end

mutual

def height : Reading → Nat
  | .alias .. => 0
  | .node _ inner => heightAll inner

def heightAll : List Reading → Nat
  | [] => 0
  | reading :: rest => max (reading.height + 1) (heightAll rest)

end

mutual

/-- The marks of a reading between two positions of a text: what was read in a node lies inside of
it, in order, and the token of an alias is a star with the name of its anchor. -/
def Marks (text : Text) (graph : Array Node) (lower upper : Nat) : Reading → Prop
  | .alias number start =>
    ∃ found name, graph[number]? = some found ∧ found.anchor = some name ∧ name ≠ [] ∧
      ' ' ∉ name ∧ lower ≤ start ∧ start + ('*' :: name).length ≤ upper ∧
      '*' :: name <+: text.drop start
  | .node number inner =>
    ∃ found, graph[number]? = some found ∧ inner.map Reading.number = Build.children found.content ∧
      lower ≤ found.start ∧ found.stop ≤ upper ∧
      ((∃ value style, found.content = .scalar value style) ∨ found.start < found.stop) ∧
      MarksAll text graph found.start found.stop inner

def MarksAll (text : Text) (graph : Array Node) (lower upper : Nat) : List Reading → Prop
  | [] => lower ≤ upper
  | reading :: rest =>
    ∃ middle, reading.Marks text graph lower middle ∧ MarksAll text graph middle upper rest

end

section

variable {text : Text} {graph : Array Node}

mutual

theorem marks_le {lower upper : Nat} {reading : Reading}
    (marks : reading.Marks text graph lower upper) : lower ≤ upper := by
  match reading with
  | .alias number start =>
      obtain ⟨found, name, -, -, -, -, after, before, -⟩ := marks
      omega
  | .node number inner =>
      obtain ⟨found, -, -, after, before, -, inside⟩ := marks
      have ordered := marksAll_le inside
      omega

theorem marksAll_le {lower upper : Nat} {readings : List Reading}
    (marks : MarksAll text graph lower upper readings) : lower ≤ upper := by
  match readings with
  | [] => exact marks
  | reading :: rest =>
      obtain ⟨middle, first, others⟩ := marks
      exact Nat.le_trans (marks_le first) (marksAll_le others)

end

end

mutual

theorem prune_of_height {depth : Nat} {reading : Reading} (shallow : reading.height ≤ depth) :
    reading.prune depth = reading := by
  match depth, reading with
  | _, .alias .. => rw [prune]
  | 0, .node _ [] => rfl
  | 0, .node _ (first :: rest) =>
      rw [height, heightAll] at shallow
      omega
  | depth + 1, .node number inner => rw [prune, pruneAll_of_height shallow]

theorem pruneAll_of_height {depth : Nat} {readings : List Reading}
    (shallow : heightAll readings ≤ depth + 1) : pruneAll depth readings = readings := by
  match readings with
  | [] => rfl
  | reading :: rest =>
      rw [heightAll] at shallow
      rw [pruneAll, prune_of_height (by omega), pruneAll_of_height (by omega)]

end

theorem begun_leaf (number : Nat) : (Reading.node number []).begun = [number] := rfl

theorem prune_leaf (depth number : Nat) :
    (Reading.node number []).prune depth = .node number [] := by
  cases depth <;> rfl

theorem prune_collection {depth maxDepth : Nat} (number : Nat) (inner : List Reading)
    (shallow : depth < maxDepth) : (Reading.node number inner).prune (maxDepth - depth) =
      .node number (pruneAll (maxDepth - (depth + 1)) inner) := by
  have deeper : maxDepth - depth = maxDepth - (depth + 1) + 1 := by omega
  rw [deeper, prune]

theorem not_mem_of_linked {depth number : Nat} {before : List Nat} {inner : List Reading}
    (linked : ((Reading.node number inner).prune depth).Linked before) : number ∉ before := by
  cases depth <;> exact linked.1

end Reading

end Yaml

namespace Build

open Yaml (Reading)

/-- The span of an alias is where its word first stands from the cursor on. The token that was read
starts there or further on, and there just where nothing before it looks the same. -/
structure Placed (content word : Text) (cursor start : Nat) (info : NodeInfo) : Prop where
  token : word <+: content.drop start
  after : cursor ≤ info.start
  reads : word <+: content.drop info.start
  stop : info.stop = info.start + word.length
  before : info.start ≤ start
  first : ∀ position, cursor ≤ position → position < info.start → ¬word <+: content.drop position
  exact : info.start = start ↔
    ∀ position, cursor ≤ position → position < start → ¬word <+: content.drop position

mutual

/-- The tree of what was read. The place of an alias is looked for from the cursor on: behind what
stands before it, or from the start of what it stands in. -/
inductive Aligned (content : Text) : Nat → Reading → Node → Prop
  | alias {cursor number start info name target}
      (placed : Placed content ('*' :: name) cursor start info) :
      Aligned content cursor (.alias number start) (.alias info name target)
  | scalar {cursor number info anchor raw value style} :
      Aligned content cursor (.node number []) (.scalar info anchor raw value style)
  | map {cursor number inner info anchor flow visited kept}
      (pairs : AlignedPairs content info.start inner visited) (keeps : KeepsLast visited kept) :
      Aligned content cursor (.node number inner) (.map info anchor flow kept)
  | sequence {cursor number inner info anchor flow items}
      (inside : AlignedItems content info.start inner items) :
      Aligned content cursor (.node number inner) (.sequence info anchor flow items)

inductive AlignedPairs (content : Text) : Nat → List Reading → List (Node × Node) → Prop
  | nil {cursor} : AlignedPairs content cursor [] []
  | cons {cursor first second readings key value pairs}
      (atKey : Aligned content cursor first key) (atValue : Aligned content key.stop second value)
      (rest : AlignedPairs content (max key.stop value.stop) readings pairs) :
      AlignedPairs content cursor (first :: second :: readings) ((key, value) :: pairs)

inductive AlignedItems (content : Text) : Nat → List Reading → List Node → Prop
  | nil {cursor} : AlignedItems content cursor [] []
  | cons {cursor reading readings item items} (here : Aligned content cursor reading item)
      (rest : AlignedItems content item.stop readings items) :
      AlignedItems content cursor (reading :: readings) (item :: items)

end

def BeforeStars (content : Text) (lower offset : Nat) : Prop :=
  ∀ star, lower ≤ star → content[star]? = some '*' → offset ≤ star

section

variable {content : Text} {lower upper : Nat}

theorem beforeStars_of_le {offset : Nat} (before : offset ≤ lower) :
    BeforeStars content lower offset :=
  fun _ after _ => Nat.le_trans before after

theorem beforeStars_mono {offset : Nat} (further : lower ≤ upper)
    (before : BeforeStars content lower offset) : BeforeStars content upper offset :=
  fun star after stands => before star (Nat.le_trans further after) stands

theorem beforeStars_max {first second : Nat} (one : BeforeStars content lower first)
    (two : BeforeStars content lower second) : BeforeStars content lower (max first second) :=
  fun star after stands => Nat.max_le.mpr ⟨one star after stands, two star after stands⟩

theorem beforeStars_blockMapEnd {start : Nat} {pairs : List (Node × Node)}
    (first : BeforeStars content lower start)
    (each : ∀ part ∈ parts pairs, BeforeStars content lower part.stop) :
    BeforeStars content lower (blockMapEnd start pairs) := by
  induction pairs generalizing start with
  | nil => exact first
  | cons pair rest ih =>
      obtain ⟨key, each⟩ := List.forall_mem_cons.mp each
      obtain ⟨value, others⟩ := List.forall_mem_cons.mp each
      exact ih (beforeStars_max (beforeStars_max first key) value) others

theorem beforeStars_items {start : Nat} {items : List Node}
    (first : BeforeStars content lower start)
    (each : ∀ item ∈ items, BeforeStars content lower item.stop) :
    BeforeStars content lower (items.foldl (fun stop item => max stop item.stop) start) := by
  induction items generalizing start with
  | nil => exact first
  | cons item rest ih =>
      obtain ⟨here, others⟩ := List.forall_mem_cons.mp each
      exact ih (beforeStars_max first here) others

/-- An indicator is found behind blanks only, so no star is passed by. -/
theorem beforeStars_afterIndicator {searchFrom offset : Nat} {indicator : Option Char}
    (near : BeforeStars content lower searchFrom) (plain : indicator ≠ some '*')
    (found : afterIndicator? content searchFrom indicator = some offset) :
    BeforeStars content lower offset := by
  intro star after stands
  cases indicator with
  | none => cases found
  | some c =>
      rw [afterIndicator?] at found
      split at found
      · rename_i here
        cases found
        have reached := near star after stands
        obtain ⟨distance, rfl⟩ := Nat.exists_eq_add_of_le reached
        rw [← List.getElem?_drop] at stands
        by_contra passed
        rcases Nat.lt_or_eq_of_le (Nat.le_of_lt_succ (show distance <
            ((content.drop searchFrom).takeWhile isLayout).length + 1 by omega)) with blank | last
        · rw [← List.takeWhile_append_dropWhile (p := isLayout) (l := content.drop searchFrom),
            List.getElem?_append_left blank] at stands
          have layout := List.all_eq_true.mp List.all_takeWhile _ (List.mem_of_getElem? stands)
          exact absurd layout (by decide)
        · rw [last, here] at stands
          exact plain stands
      · cases found

theorem beforeStars_scalar {found : Yaml.Node} {searchFrom : Nat} {indicator : Option Char}
    (id : Nat) (value : Text) (style : Option Yaml.Style)
    (near : BeforeStars content lower searchFrom) (plain : indicator ≠ some '*')
    (inside : found.stop ≤ lower) :
    BeforeStars content lower (scalar content found id value style searchFrom indicator).stop := by
  rw [scalar, Node.stop, Node.info]
  split
  · rename_i offset spot
    split at spot
    · exact beforeStars_afterIndicator near plain spot
    · cases spot
  · exact beforeStars_of_le inside

theorem placed_aliasTo {graph : Array Yaml.Node} {number start searchFrom : Nat}
    {found : Yaml.Node} (marks : (Reading.alias number start).Marks content graph lower upper)
    (here : graph[number]? = some found) (near : BeforeStars content lower searchFrom)
    (target : Option Node) (id : Nat) :
    Aligned content searchFrom (.alias number start)
        (aliasTo content found target id searchFrom) ∧
      (aliasTo content found target id searchFrom).stop ≤ upper := by
  obtain ⟨other, name, there, anchor, named, -, after, before, token⟩ := marks
  cases here.symm.trans there
  have star : content[start]? = some '*' := by
    obtain ⟨rest, whole⟩ := token
    have head := congrArg (·[0]?) whole
    simpa using head.symm
  have reached : searchFrom ≤ start := near start after star
  have ahead : '*' :: name <+: (content.drop searchFrom).drop (start - searchFrom) := by
    rw [List.drop_drop, Nat.add_sub_cancel' reached]
    exact token
  obtain ⟨first, early, spot, reads, least⟩ := Text.search?_of_prefix ahead
  have placed : ∃ info target', aliasTo content found target id searchFrom =
      .alias info name target' ∧ info.start = searchFrom + first ∧
        info.stop = info.start + ('*' :: name).length := by
    have full : name.isEmpty = false := by
      cases name with
      | nil => exact absurd rfl named
      | cons => rfl
    rw [aliasTo, anchor]
    simp only [Option.getD_some, full, Bool.false_eq_true, if_false, spot, Option.map_some]
    refine ⟨_, _, rfl, Nat.add_comm _ _, ?_⟩
    exact Nat.add_right_comm _ 1 _
  obtain ⟨info, target', same, place, stop⟩ := placed
  have nowhere : ∀ position, searchFrom ≤ position → position < info.start →
      ¬ '*' :: name <+: content.drop position := by
    intro position behind less
    have missing := least (position - searchFrom) (by omega)
    rwa [List.drop_drop, Nat.add_sub_cancel' behind] at missing
  rw [List.drop_drop, ← place] at reads
  rw [same]
  refine ⟨.alias ⟨token, by omega, reads, stop, by omega, nowhere, ?_⟩, ?_⟩
  · constructor
    · intro exact position behind less
      exact nowhere position behind (exact ▸ less)
    · intro free
      by_contra different
      exact free info.start (by omega) (by omega) reads
  · change info.stop ≤ upper
    omega

end

structure Holds (graph : Array Yaml.Node) (above before : List Nat) (s : State) : Prop where
  size : s.built.size = graph.size
  knows : ∀ number, s.Knows above number ↔ number ∈ before

section

variable {graph : Array Yaml.Node} {above before : List Nat} {s : State} {number : Nat}

theorem holds_start (graph : Array Yaml.Node) :
    Holds graph [] [] { built := Array.replicate graph.size none } where
  size := Array.size_replicate
  knows number := by simp [State.Knows, start_built?]

theorem holds_visit (holds : Holds graph above before s) : Holds graph above before s.visit :=
  ⟨holds.size, holds.knows⟩

theorem holds_exceeded (holds : Holds graph above before s) (offset : Nat) :
    Holds graph above before (s.exceeded offset) :=
  ⟨holds.size, holds.knows⟩

theorem holds_enter (number : Nat) (holds : Holds graph above before s) :
    Holds graph (number :: above) (number :: before) s.visit where
  size := holds.size
  knows other := by
    rw [List.mem_cons, ← holds.knows other, State.Knows, State.Knows, List.mem_cons, or_left_comm]
    rfl

theorem holds_leave {begun : List Nat} (inside : number < graph.size) (result : Node)
    (holds : Holds graph (number :: above) (number :: before ++ begun) s) :
    Holds graph above (before ++ number :: begun) (s.keep number result) where
  size := Array.size_setIfInBounds.trans holds.size
  knows other := by
    have sized : number < s.built.size := holds.size ▸ inside
    have same : other ∈ before ++ number :: begun ↔ other ∈ number :: before ++ begun := by
      simp [or_left_comm]
    rw [same, ← holds.knows other, State.Knows, State.Knows, keep_built?, List.mem_cons]
    by_cases here : number = other
    · simp [here, here ▸ sized]
    · simp [here, Ne.symm here]

end

def Aligns (content : Text) (graph : Array Yaml.Node) (above : List Nat) (depth : Nat)
    (convert : Convert) : Prop :=
  ∀ (reading : Reading) lower upper before searchFrom indicator s result s',
    reading.Marks content graph lower upper → (reading.prune depth).Linked before →
    Holds graph above before s → BeforeStars content lower searchFrom → indicator ≠ some '*' →
    convert reading.number searchFrom indicator s = some (result, s') →
      Aligned content searchFrom (reading.prune depth) result ∧
        BeforeStars content upper result.stop ∧
        Holds graph above (before ++ (reading.prune depth).begun) s'

section

open Yaml.Reading

variable {content : Text} {graph : Array Yaml.Node} {above before : List Nat} {depth : Nat}
  {convert : Convert} {s s' : State} {readings : List Reading}

theorem mapPairs_aligned (aligns : Aligns content graph above depth convert) {lower upper : Nat}
    {cursor : Nat} {children : List (Nat × Nat)} {pairs : List (Node × Node)}
    (numbers : readings.map Reading.number = parts children)
    (marks : MarksAll content graph lower upper readings)
    (linked : LinkedAll before (pruneAll depth readings)) (holds : Holds graph above before s)
    (near : BeforeStars content lower cursor)
    (run : mapPairs convert cursor children s = some (pairs, s')) :
    AlignedPairs content cursor (pruneAll depth readings) pairs ∧
      (∀ part ∈ parts pairs, BeforeStars content upper part.stop) ∧
      Holds graph above (before ++ begunAll (pruneAll depth readings)) s' := by
  induction children generalizing readings lower cursor before s pairs with
  | nil =>
      cases List.map_eq_nil_iff.mp numbers
      cases run
      refine ⟨.nil, by simp [parts], ?_⟩
      rwa [pruneAll, begunAll, List.append_nil]
  | cons child children ih =>
      rw [parts_cons] at numbers
      obtain ⟨first, readings, rfl, atKey, numbers⟩ := List.map_eq_cons_iff.mp numbers
      obtain ⟨second, readings, rfl, atValue, numbers⟩ := List.map_eq_cons_iff.mp numbers
      obtain ⟨between, firstMarks, behind, secondMarks, marks⟩ := marks
      simp only [pruneAll, LinkedAll] at linked
      obtain ⟨firstLinked, secondLinked, linked⟩ := linked
      obtain ⟨key, s₁, value, s₂, others, convertKey, convertValue, rest, rfl⟩ :=
        (mapPairs_cons_eq_some ..).mp run
      rw [← atKey] at convertKey
      rw [← atValue] at convertValue
      obtain ⟨keyAligned, keyStop, afterKey⟩ := aligns _ _ _ _ _ _ _ _ _ firstMarks firstLinked
        holds near (by simp) convertKey
      obtain ⟨valueAligned, valueStop, afterValue⟩ := aligns _ _ _ _ _ _ _ _ _ secondMarks
        secondLinked afterKey keyStop (by decide) convertValue
      have further := beforeStars_mono (marks_le secondMarks) keyStop
      obtain ⟨restAligned, stops, known⟩ :=
        ih numbers marks linked afterValue (beforeStars_max further valueStop) rest
      refine ⟨.cons keyAligned valueAligned restAligned, ?_, ?_⟩
      · have last := marksAll_le marks
        rw [parts_cons]
        exact List.forall_mem_cons.mpr ⟨beforeStars_mono last further,
          List.forall_mem_cons.mpr ⟨beforeStars_mono last valueStop, stops⟩⟩
      · simpa only [pruneAll, begunAll, List.append_assoc] using known

theorem seqItems_aligned (aligns : Aligns content graph above depth convert) {lower upper : Nat}
    {flow : Bool} {cursor : Nat} {children : List Nat} {items : List Node}
    (numbers : readings.map Reading.number = children)
    (marks : MarksAll content graph lower upper readings)
    (linked : LinkedAll before (pruneAll depth readings)) (holds : Holds graph above before s)
    (near : BeforeStars content lower cursor)
    (run : seqItems convert flow cursor children s = some (items, s')) :
    AlignedItems content cursor (pruneAll depth readings) items ∧
      (∀ item ∈ items, BeforeStars content upper item.stop) ∧
      Holds graph above (before ++ begunAll (pruneAll depth readings)) s' := by
  induction children generalizing readings lower cursor before s items with
  | nil =>
      cases List.map_eq_nil_iff.mp numbers
      cases run
      refine ⟨.nil, by simp, ?_⟩
      rwa [pruneAll, begunAll, List.append_nil]
  | cons child children ih =>
      obtain ⟨reading, readings, rfl, atItem, numbers⟩ := List.map_eq_cons_iff.mp numbers
      obtain ⟨behind, firstMarks, marks⟩ := marks
      simp only [pruneAll, LinkedAll] at linked
      obtain ⟨firstLinked, linked⟩ := linked
      obtain ⟨item, s₁, others, convertItem, rest, rfl⟩ := (seqItems_cons_eq_some ..).mp run
      rw [← atItem] at convertItem
      have plain : (if flow then none else some '-') ≠ some '*' := by cases flow <;> decide
      obtain ⟨itemAligned, itemStop, afterItem⟩ := aligns _ _ _ _ _ _ _ _ _ firstMarks
        firstLinked holds near plain convertItem
      obtain ⟨restAligned, stops, known⟩ := ih numbers marks linked afterItem itemStop rest
      refine ⟨.cons itemAligned restAligned, ?_, ?_⟩
      · exact List.forall_mem_cons.mpr ⟨beforeStars_mono (marksAll_le marks) itemStop, stops⟩
      · simpa only [pruneAll, begunAll, List.append_assoc] using known

end

section

open Yaml.Reading

variable {env : Env} {inner : Convert} {above before : List Nat} {number searchFrom : Nat}
  {indicator : Option Char} {s s' : State} {result : Node} {lower upper : Nat}

theorem step_aligned_alias {start : Nat}
    (marks : (Reading.alias number start).Marks env.source env.graph lower upper)
    (known : number ∈ before) (holds : Holds env.graph above before s)
    (near : BeforeStars env.source lower searchFrom)
    (step : Step env inner above number searchFrom indicator s result s') :
    Aligned env.source searchFrom (.alias number start) result ∧
      BeforeStars env.source upper result.stop ∧ Holds env.graph above before s' := by
  have seen : s.Knows above number := (holds.knows number).mpr known
  cases step with
  | missing absent =>
      obtain ⟨found, -, here, -⟩ := marks
      cases here.symm.trans absent
  | again here =>
      obtain ⟨aligned, stop⟩ := placed_aliasTo marks here near (s.built? number) s.nextId
      exact ⟨aligned, beforeStars_of_le stop, holds_visit holds⟩
  | scalar here new | cutMapping here new | mapping here new | cutSequence here new
  | sequence here new => exact absurd seen new

theorem step_aligned_node {readings : List Reading} {left : Reading}
    (cut : (Reading.node number readings).prune (env.limits.maxDepth - above.length) = left)
    (aligns : Aligns env.source env.graph (number :: above)
      (env.limits.maxDepth - (above.length + 1)) inner)
    (marks : (Reading.node number readings).Marks env.source env.graph lower upper)
    (linked : left.Linked before) (holds : Holds env.graph above before s)
    (near : BeforeStars env.source lower searchFrom)
    (plain : indicator ≠ some '*')
    (step : Step env inner above number searchFrom indicator s result s') :
    Aligned env.source searchFrom left result ∧ BeforeStars env.source upper result.stop ∧
      Holds env.graph above (before ++ left.begun) s' := by
  have ordered := marks_le marks
  have new := not_mem_of_linked (cut ▸ linked)
  obtain ⟨found, there, numbers, after, stop, wide, marks⟩ := marks
  have sized : number < env.graph.size := (Array.getElem?_eq_some_iff.mp there).1
  have fits := marksAll_le marks
  have enters := holds_enter number holds
  have leaf : Holds env.graph (number :: above) (number :: before ++ []) s.visit := by
    rwa [List.append_nil]
  cases step with
  | missing absent => cases there.symm.trans absent
  | again here known => exact absurd ((holds.knows number).mp known) new
  | scalar here _ content same =>
      cases here.symm.trans there
      rw [content] at numbers
      cases List.map_eq_nil_iff.mp numbers
      rw [← cut, prune_leaf, begun_leaf, same]
      have further := beforeStars_mono ordered near
      exact ⟨.scalar, beforeStars_scalar _ _ _ further plain stop, holds_leave sized _ leaf⟩
  | cutMapping here _ content deep same =>
      cases here.symm.trans there
      rw [← cut, Nat.sub_eq_zero_of_le deep, prune, begun_leaf, same]
      exact ⟨.map .nil (keepsLast_lastPairs []), beforeStars_of_le stop,
        holds_leave sized _ (holds_exceeded leaf _)⟩
  | cutSequence here _ content deep same =>
      cases here.symm.trans there
      rw [← cut, Nat.sub_eq_zero_of_le deep, prune, begun_leaf, same]
      exact ⟨.sequence .nil, beforeStars_of_le stop, holds_leave sized _ (holds_exceeded leaf _)⟩
  | @mapping _ flow children pairs info _ s₁ here _ content shallow run place same =>
      cases here.symm.trans there
      rw [content] at numbers
      rw [prune_collection number readings shallow] at cut
      rw [← cut] at linked ⊢
      obtain ⟨aligned, stops, known⟩ := mapPairs_aligned aligns numbers marks linked.2 enters
        (beforeStars_of_le (Nat.le_refl _)) run
      rw [same, place]
      refine ⟨.map aligned (keepsLast_lastPairs pairs), ?_, holds_leave sized _ known⟩
      change BeforeStars env.source upper (if flow then _ else _)
      split
      · exact beforeStars_of_le stop
      · refine beforeStars_blockMapEnd (beforeStars_of_le (by omega)) fun part member => ?_
        have visited := ((lastPairs_sublist pairs).flatMap _).subset member
        exact beforeStars_mono stop (stops part visited)
  | @sequence _ flow children items info _ s₁ here _ content shallow run place same =>
      cases here.symm.trans there
      rw [content] at numbers
      rw [prune_collection number readings shallow] at cut
      rw [← cut] at linked ⊢
      obtain ⟨aligned, stops, known⟩ := seqItems_aligned aligns numbers marks linked.2 enters
        (beforeStars_of_le (Nat.le_refl _)) run
      rw [same, place]
      refine ⟨.sequence aligned, ?_, holds_leave sized _ known⟩
      change BeforeStars env.source upper (if flow then _ else _)
      split
      · exact beforeStars_of_le stop
      · have dash : found.start + 1 ≤ found.stop := by
          rcases wide with ⟨value, style, other⟩ | wide
          · cases content.symm.trans other
          · exact wide
        refine beforeStars_items (beforeStars_of_le (by omega)) fun item member => ?_
        exact beforeStars_mono stop (stops item member)

end

theorem node_aligned (env : Env) (fuel : Nat) (above : List Nat) :
    Aligns env.source env.graph above (env.limits.maxDepth - above.length)
      (node env fuel above) := by
  induction fuel generalizing above with
  | zero =>
      intro reading lower upper before searchFrom indicator s result s' _ _ _ _ _ done
      cases done
  | succ fuel ih =>
      intro reading lower upper before searchFrom indicator s result s' marks linked holds near plain
        done
      obtain ⟨-, step⟩ := (node_eq_some_iff ..).mp done
      cases reading with
      | «alias» number start =>
          rw [Yaml.Reading.prune] at linked ⊢
          rw [Yaml.Reading.begun, List.append_nil]
          exact step_aligned_alias marks linked holds near step
      | node number readings =>
          exact step_aligned_node rfl (ih (number :: above)) marks linked holds near plain step

theorem tree_aligned {limits : Limits} {content : Text} {graph : Yaml.Graph} {root : Node}
    {s : State} {reading : Reading} {upper : Nat} (rooted : reading.number = graph.root)
    (marks : reading.Marks content graph.nodes 0 upper)
    (linked : (reading.prune limits.maxDepth).Linked [])
    (done : tree limits content graph = some (root, s)) :
    Aligned content 0 (reading.prune limits.maxDepth) root := by
  rw [tree, ← rooted] at done
  exact (node_aligned ⟨graph.nodes, content, limits⟩ _ [] _ _ _ _ _ _ _ _ _ marks linked
    (holds_start graph.nodes) (beforeStars_of_le (Nat.le_refl _)) (by simp) done).1

end Build

end Flowfile
