import Flowfile.Proofs.Text.Line
import Flowfile.Proofs.Tree.Contents
import Flowfile.Proofs.Tree.Locate

/-! Which collection a cursor on a blank line belongs to.

A step leads from a block collection that is indented less than the cursor into the last of its
members before the cursor. The way down takes such steps as long as there are any. On a line on
which no node starts, a cursor further to the right has the same steps and perhaps more of them, so
that it comes at least as far down. -/

namespace Flowfile.Location

open Cursor Node

def cursorAt (text : Text) (offset : Int) : Cursor := ⟨text, min offset.toNat text.length⟩

def Cursor.column (c : Cursor) : Nat := Text.column c.text c.offset

def lastBefore? {α : Type} (c : Cursor) (start : α → Nat) (list : List α) : Option α :=
  list.reverse.find? fun each => start each < c.offset

/-- A step from a block collection to its last value or item that starts before the cursor. The
first key of the mapping, or the dash of the sequence, is at a column before that of the cursor. -/
inductive Inward (c : Cursor) : Node → Segment → Node → Prop
  | pair {info anchor first rest key value}
      (inside : Text.column c.text first.1.start < c.column)
      (last : lastBefore? c (fun pair => pair.1.start) (first :: rest) = some (key, value)) :
      Inward c (.map info anchor false (first :: rest)) (.key key.keyText) value
  | item {info anchor items item position}
      (inside : Text.column c.text info.start < c.column)
      (last : lastBefore? c (fun item => item.1.start) items.zipIdx = some (item, position)) :
      Inward c (.sequence info anchor false items) (.index (position : Nat)) item

inductive Descends (c : Cursor) : Node → Path → Node → Prop
  | here {node} : Descends c node [] node
  | step {node segment next path found} (inward : Inward c node segment next)
      (inner : Descends c next path found) : Descends c node (segment :: path) found

def Innermost (c : Cursor) (node : Node) : Prop := ∀ segment next, ¬Inward c node segment next

/-- The location is that of the node to which all steps lead that there are, from a node that
stands at the path. -/
def Settles (c : Cursor) (path : Path) (node : Node) (location : Location) : Prop :=
  ∃ suffix found, location.path = path ++ suffix ∧ location.node = some found ∧
    Descends c node suffix found ∧ Innermost c found

def spanned (root : Node) (c : Cursor) : Location :=
  if isCollection root || root.contains c.offset then c.bySpan [] none root
  else ⟨some root, [], .empty, none⟩

/-- The line of the offset has white space only, and no node starts on it. -/
structure BlankLine (root : Node) (text : Text) (offset : Nat) : Prop where
  spaces : Text.allBlank
    (text.slice (Text.lineStart text offset) (Text.lineStop text offset)) = true
  bare : ∀ node ∈ root.nodes,
    node.start < Text.lineStart text offset ∨ Text.lineStop text offset < node.start

/-- A cursor further to the right in one text, with no start of a node in between. -/
structure Further (c c' : Cursor) (node : Node) : Prop where
  text : c'.text = c.text
  column : c.column ≤ c'.column
  starts : ∀ each ∈ node.nodes, (each.start < c.offset ↔ each.start < c'.offset)

section

variable {α : Type} {c c' : Cursor} {start : α → Nat} {list : List α}

theorem lastBefore?_cons (c : Cursor) (start : α → Nat) (first : α) (rest : List α) :
    lastBefore? c start (first :: rest) =
      (lastBefore? c start rest).or (if start first < c.offset then some first else none) := by
  rw [lastBefore?, List.reverse_cons, List.find?_append, lastBefore?]
  simp [List.find?_singleton]

theorem mem_of_lastBefore? {found : α} (last : lastBefore? c start list = some found) :
    found ∈ list :=
  List.mem_reverse.mp (List.mem_of_find?_eq_some last)

theorem any_eq_isSome (c : Cursor) (start : α → Nat) (list : List α) :
    (list.any fun each => start each < c.offset) = (lastBefore? c start list).isSome := by
  apply Bool.eq_iff_iff.mpr
  simp [lastBefore?]

theorem lastBefore?_congr
    (same : ∀ each ∈ list, (start each < c.offset ↔ start each < c'.offset)) :
    lastBefore? c start list = lastBefore? c' start list := by
  induction list with
  | nil => rfl
  | cons first rest ih =>
      obtain ⟨here, others⟩ := List.forall_mem_cons.mp same
      rw [lastBefore?_cons, lastBefore?_cons, ih others]
      simp only [here]

end

theorem inward_unique {c : Cursor} {node next next' : Node} {segment segment' : Segment}
    (one : Inward c node segment next) (two : Inward c node segment' next') :
    segment = segment' ∧ next = next' := by
  cases one with
  | pair inside last =>
      cases two with
      | pair inside' last' =>
          cases last.symm.trans last'
          exact ⟨rfl, rfl⟩
  | item inside last =>
      cases two with
      | item inside' last' =>
          cases last.symm.trans last'
          exact ⟨rfl, rfl⟩

/-- Of two ways down from a node, one that cannot go on is the longer one. -/
theorem descends_prefix {c : Cursor} {node found found' : Node} {path path' : Path}
    (one : Descends c node path found) (two : Descends c node path' found')
    (innermost : Innermost c found') : path <+: path' := by
  induction one generalizing path' with
  | here => exact List.nil_prefix
  | step inward inner ih =>
      cases two with
      | here => exact absurd inward (innermost _ _)
      | step inward' inner' =>
          obtain ⟨rfl, rfl⟩ := inward_unique inward inward'
          exact (List.prefix_cons_inj _).mpr (ih inner')

theorem mem_contents_of_inward {c : Cursor} {node next : Node} {segment : Segment}
    (inward : Inward c node segment next) : next ∈ node.contents := by
  cases inward with
  | pair inside last => exact (mem_parts (mem_of_lastBefore? last)).2
  | item inside last => exact List.fst_mem_of_mem_zipIdx (mem_of_lastBefore? last)

section

variable {c c' : Cursor}

theorem further_contents {node inner : Node} (further : Further c c' node)
    (member : inner ∈ node.contents) : Further c c' inner :=
  ⟨further.text, further.column, fun each below =>
    further.starts each (nodes_of_contents member below)⟩

theorem inward_further {node next : Node} {segment : Segment} (further : Further c c' node)
    (inward : Inward c node segment next) : Inward c' node segment next := by
  have starts (each : Node) (member : each ∈ node.contents) :
      each.start < c.offset ↔ each.start < c'.offset :=
    further.starts each (nodes_of_contents member (self_mem_nodes each))
  cases inward with
  | pair inside last =>
      refine .pair ?_ ?_
      · rw [further.text]
        exact Nat.lt_of_lt_of_le inside further.column
      · rw [← last]
        exact (lastBefore?_congr fun pair member => starts pair.1 (mem_parts member).1).symm
  | item inside last =>
      refine .item ?_ ?_
      · rw [further.text]
        exact Nat.lt_of_lt_of_le inside further.column
      · rw [← last]
        exact (lastBefore?_congr fun item member =>
          starts item.1 (List.fst_mem_of_mem_zipIdx member)).symm

theorem descends_further {node found : Node} {path : Path} (further : Further c c' node)
    (descends : Descends c node path found) : Descends c' node path found := by
  induction descends with
  | here => exact .here
  | step inward inner ih =>
      exact .step (inward_further further inward)
        (ih (further_contents further (mem_contents_of_inward inward)))

end

def entered (c : Cursor) (column : Nat) (inner : Path) (self value : Node) : Location :=
  if value.isEmpty then ⟨some value, inner, .empty, some self⟩
  else if isCollection value then byIndent c ⟨column, false⟩ inner (some self) value
  else ⟨some value, inner, .value, some self⟩

theorem indentPairs_eq (c : Cursor) (column : Nat) (path : Path) (self : Node)
    (pairs : List (Node × Node)) :
    indentPairs c ⟨column, false⟩ path self pairs =
      (lastBefore? c (fun pair => pair.1.start) pairs).map fun pair =>
        entered c column (path ++ [.key pair.1.keyText]) self pair.2 := by
  induction pairs with
  | nil => rfl
  | cons first rest ih =>
      obtain ⟨key, value⟩ := first
      rw [indentPairs, any_eq_isSome c (fun pair => pair.1.start) rest, lastBefore?_cons, ih]
      cases lastBefore? c (fun pair => pair.1.start) rest with
      | some found => rfl
      | none =>
          by_cases before : key.start < c.offset
          · rw [if_neg (Nat.not_le_of_lt before), if_pos before, Option.none_or, Option.map_some,
              entered]
            simp only [Option.isSome_none, Bool.false_eq_true, if_false, apply_ite some]
          · rw [if_pos (Nat.le_of_not_lt before), if_neg before]
            rfl

/-- An item at the cursor itself would be entered too, unlike a pair. -/
theorem indentItems_eq (c : Cursor) (column : Nat) (path : Path) (self : Node) (position : Nat)
    (items : List Node) (apart : ∀ item ∈ items, item.start ≠ c.offset) :
    indentItems c ⟨column, false⟩ path self position items =
      (lastBefore? c (fun item => item.1.start) (items.zipIdx position)).map fun item =>
        entered c column (path ++ [.index (item.2 : Nat)]) self item.1 := by
  induction items generalizing position with
  | nil => rfl
  | cons first rest ih =>
      obtain ⟨here, others⟩ := List.forall_mem_cons.mp apart
      have any : rest.any (fun next => next.start ≤ c.offset) =
          (lastBefore? c (fun item => item.1.start) (rest.zipIdx (position + 1))).isSome := by
        rw [← any_eq_isSome, ← List.zipIdx_map_fst (position + 1) rest, List.any_map,
          List.zipIdx_map_fst]
        apply Bool.eq_iff_iff.mpr
        simp only [List.any_eq_true, Function.comp_apply, decide_eq_true_eq]
        refine exists_congr fun item => and_congr_right fun member => ?_
        have differs := others item.1 (List.fst_mem_of_mem_zipIdx member)
        omega
      rw [indentItems, any, List.zipIdx_cons, lastBefore?_cons, ih _ others]
      cases lastBefore? c (fun item => item.1.start) (rest.zipIdx (position + 1)) with
      | some found => rfl
      | none =>
          by_cases before : first.start < c.offset
          · rw [if_neg (Nat.not_lt_of_lt before), if_pos before, Option.none_or, Option.map_some,
              entered]
            simp only [Option.isSome_none, Bool.false_eq_true, if_false, apply_ite some]
          · have after : c.offset < first.start := by omega
            rw [if_pos after, if_neg before]
            rfl

theorem innermost_plain {c : Cursor} {node : Node} (plain : isCollection node = false) :
    Innermost c node := by
  intro segment next inward
  cases inward with
  | pair | item => cases plain

theorem plain_of_isEmpty {node : Node} (empty : node.isEmpty = true) :
    isCollection node = false := by
  cases node with
  | scalar | «alias» => rfl
  | map | sequence => cases empty

section

variable {c : Cursor} {path : Path} {parent : Option Node} {node : Node}

theorem settles_here {region : Region} (innermost : Innermost c node) :
    Settles c path node ⟨some node, path, region, parent⟩ :=
  ⟨[], node, (List.append_nil path).symm, rfl, .here, innermost⟩

theorem settles_inward {next : Node} {segment : Segment} {location : Location}
    (inward : Inward c node segment next)
    (inner : Settles c (path ++ [segment]) next location) : Settles c path node location := by
  obtain ⟨suffix, found, path_eq, node_eq, descends, innermost⟩ := inner
  refine ⟨segment :: suffix, found, ?_, node_eq, .step inward descends, innermost⟩
  rw [path_eq, List.append_assoc, List.singleton_append]

theorem settles_entered {self : Node}
    (inner : ∀ parent, Settles c path node (byIndent c ⟨c.column, false⟩ path parent node)) :
    Settles c path node (entered c c.column path self node) := by
  rw [entered]
  split
  · rename_i empty
    exact settles_here (innermost_plain (plain_of_isEmpty empty))
  · split
    · exact inner (some self)
    · rename_i plain
      exact settles_here (innermost_plain (Bool.eq_false_iff.mpr plain))

end

section

variable {c : Cursor} {info : NodeInfo} {anchor : Option Text} {flow : Bool}

theorem settles_map {pairs : List (Node × Node)}
    (inner : ∀ key value, (key, value) ∈ pairs → ∀ path parent,
      Settles c path value (byIndent c ⟨c.column, false⟩ path parent value))
    (path : Path) (parent : Option Node) :
    Settles c path (.map info anchor flow pairs)
      (byIndent c ⟨c.column, false⟩ path parent (.map info anchor flow pairs)) := by
  rw [byIndent.eq_def]
  dsimp only
  split
  · refine settles_here fun segment next inward => ?_
    cases inward
  · rename_i empty
    refine settles_here fun segment next inward => ?_
    cases inward
    cases empty
  · rename_i first value head
    obtain ⟨rest, rfl⟩ : ∃ rest, pairs = (first, value) :: rest := List.head?_eq_some_iff.mp head
    split
    · rename_i inside
      rw [indentPairs_eq]
      cases last : lastBefore? c (fun pair => pair.1.start) ((first, value) :: rest) with
      | none =>
          refine settles_here fun segment next inward => ?_
          cases inward with
          | pair _ last' => cases last.symm.trans last'
      | some pair =>
          exact settles_inward (.pair inside last)
            (settles_entered (inner pair.1 pair.2 (mem_of_lastBefore? last) _))
    · rename_i outside
      refine settles_here fun segment next inward => ?_
      cases inward with
      | pair inside _ => exact outside inside

theorem settles_sequence {items : List Node} (apart : ∀ item ∈ items, item.start ≠ c.offset)
    (inner : ∀ item ∈ items, ∀ path parent,
      Settles c path item (byIndent c ⟨c.column, false⟩ path parent item))
    (path : Path) (parent : Option Node) :
    Settles c path (.sequence info anchor flow items)
      (byIndent c ⟨c.column, false⟩ path parent (.sequence info anchor flow items)) := by
  rw [byIndent]
  split
  · rename_i outside
    refine settles_here fun segment next inward => ?_
    cases inward with
    | item inside _ =>
        simp only [Bool.false_or, decide_eq_true_eq] at outside
        omega
  · rename_i block
    obtain rfl : flow = false := by
      cases flow with
      | false => rfl
      | true => exact absurd rfl block
    split
    · rename_i level
      refine settles_here fun segment next inward => ?_
      cases inward with
      | item inside _ =>
          dsimp only at level
          omega
    · rename_i level
      have inside : Text.column c.text info.start < c.column := by
        simp only [Bool.false_or, decide_eq_true_eq] at block
        dsimp only at level
        omega
      rw [indentItems_eq _ _ _ _ _ _ apart]
      cases last : lastBefore? c (fun item => item.1.start) items.zipIdx with
      | none =>
          refine settles_here fun segment next inward => ?_
          cases inward with
          | item _ last' => cases last.symm.trans last'
      | some item =>
          have member := List.fst_mem_of_mem_zipIdx (mem_of_lastBefore? last)
          exact settles_inward (.item inside last) (settles_entered (inner item.1 member _))

end

theorem settles_byIndent (c : Cursor) (path : Path) (parent : Option Node) (node : Node)
    (apart : ∀ each ∈ node.nodes, each.start ≠ c.offset) :
    Settles c path node (byIndent c ⟨c.column, false⟩ path parent node) := by
  induction size : sizeOf node using Nat.strongRecOn generalizing path parent node with
  | ind total ih =>
      have below {inner : Node} (member : inner ∈ node.contents) :
          ∀ each ∈ inner.nodes, each.start ≠ c.offset :=
        fun each deeper => apart each (nodes_of_contents member deeper)
      cases node with
      | «alias» | scalar =>
          rw [byIndent]
          exact settles_here (innermost_plain rfl)
      | map info anchor flow pairs =>
          refine settles_map (fun key value member path parent => ?_) path parent
          exact ih _ (size ▸ value_smaller member) path parent value (below (mem_parts member).2) rfl
      | sequence info anchor flow items =>
          refine settles_sequence ?_ (fun item member path parent => ?_) path parent
          · exact fun item member => below member item (self_mem_nodes item)
          · obtain ⟨position, placed⟩ := List.mem_iff_getElem?.mp member
            exact ih _ (size ▸ item_smaller placed) path parent item (below member) rfl

section

variable {root : Node} {text : Text} {offset other : Nat}

theorem blankLine_sameLine (line : Text.sameLine text offset other = true)
    (blank : BlankLine root text offset) : BlankLine root text other := by
  obtain ⟨starts, stops⟩ := Text.line_of_sameLine line
  constructor
  · rw [← starts, ← stops]
    exact blank.spaces
  · rw [← starts, ← stops]
    exact blank.bare

theorem indent?_blankLine (inside : offset ≤ text.length) (blank : BlankLine root text offset) :
    indent? ⟨text, offset⟩ = some ⟨Cursor.column ⟨text, offset⟩, false⟩ := by
  have begins : text.slice (Text.lineStart text offset) offset <+:
      text.slice (Text.lineStart text offset) (Text.lineStop text offset) :=
    Text.slice_prefix _ _ (Text.le_lineStop inside)
  have spaces : Text.allBlank (text.slice (Text.lineStart text offset) offset) = true :=
    List.all_eq_true.mpr fun d member =>
      List.all_eq_true.mp blank.spaces d (begins.subset member)
  have size : (text.slice (Text.lineStart text offset) offset).length =
      Text.column text offset := by
    rw [Text.slice, List.length_take, List.length_drop, Text.column]
    omega
  rw [indent?]
  dsimp only
  rw [if_pos spaces, size, Cursor.column]

theorem further_blankLine (order : offset ≤ other) (inside : other ≤ text.length)
    (line : Text.sameLine text offset other = true) (blank : BlankLine root text offset) :
    Further ⟨text, offset⟩ ⟨text, other⟩ root := by
  obtain ⟨starts, stops⟩ := Text.line_of_sameLine line
  have lower := Text.lineStart_le text offset
  have upper := Text.le_lineStop inside
  refine ⟨rfl, ?_, fun each member => ?_⟩
  · change offset - Text.lineStart text offset ≤ other - Text.lineStart text other
    omega
  · have bare := blank.bare each member
    dsimp only
    omega

end

theorem ofCursor_eq (root : Node) (c : Cursor) :
    ofCursor root c =
      if (spanned root c).region = .empty then
        (c.indent?.map fun indent => c.byIndent indent [] none root).getD (spanned root c)
      else spanned root c := by
  rw [ofCursor]
  cases c.indent? <;> rfl

theorem settles_locate {root : Node} {text : Text} {offset : Int}
    (blank : BlankLine root text (cursorAt text offset).offset)
    (outside : (spanned root (cursorAt text offset)).region = .empty) :
    Settles (cursorAt text offset) [] root (locate (some root) text offset) := by
  have inside : (cursorAt text offset).offset ≤ text.length := Nat.min_le_right _ _
  have indent : (cursorAt text offset).indent? = some ⟨(cursorAt text offset).column, false⟩ :=
    indent?_blankLine inside blank
  have indented : locate (some root) text offset =
      byIndent (cursorAt text offset) ⟨(cursorAt text offset).column, false⟩ [] none root := by
    calc
      locate (some root) text offset = ofCursor root (cursorAt text offset) := rfl
      _ = _ := by rw [ofCursor_eq, if_pos outside, indent, Option.map_some, Option.getD_some]
  rw [indented]
  refine settles_byIndent _ _ _ _ fun each member same => ?_
  have bare := blank.bare each member
  have lower := Text.lineStart_le text (cursorAt text offset).offset
  have upper := Text.le_lineStop inside
  omega

/-- On a line with white space only, on which no node starts, a cursor is located where the steps
inward end, and one further to the right at the same place or at one below it. -/
theorem locate_indented {root : Node} {text : Text} {first last : Int} (ordered : first ≤ last)
    (line : Text.sameLine text (cursorAt text first).offset (cursorAt text last).offset = true)
    (blank : BlankLine root text (cursorAt text first).offset)
    (outside : (spanned root (cursorAt text first)).region = .empty)
    (outside' : (spanned root (cursorAt text last)).region = .empty) :
    (locate (some root) text first).path <+: (locate (some root) text last).path ∧
      Settles (cursorAt text first) [] root (locate (some root) text first) ∧
      Settles (cursorAt text last) [] root (locate (some root) text last) := by
  have settles := settles_locate blank outside
  have settles' := settles_locate (blankLine_sameLine line blank) outside'
  have order : (cursorAt text first).offset ≤ (cursorAt text last).offset := by
    change min first.toNat text.length ≤ min last.toNat text.length
    omega
  have further := further_blankLine order (Nat.min_le_right _ _) line blank
  refine ⟨?_, settles, settles'⟩
  obtain ⟨path, found, path_eq, -, descends, -⟩ := settles
  obtain ⟨path', found', path_eq', -, descends', innermost⟩ := settles'
  rw [path_eq, path_eq', List.nil_append, List.nil_append]
  exact descends_prefix (descends_further further descends) descends' innermost

/-- On a line below a sequence in a mapping, a cursor at the column of the dash belongs to the
sequence, and one further to the right to the last item. -/
theorem locate_indented_sequence :
    let word (start : Nat) (text : Text) : Node :=
      .scalar ⟨start, start, start + 1⟩ none text (.str text) none
    let list : Node := .sequence ⟨5, 5, 14⟩ none false [word 7 ['b']]
    let root : Node := .map ⟨9, 0, 14⟩ none false [(word 0 ['a'], list)]
    let text := Text.of "a:\n  - b\n    \n"
    Text.sameLine text 11 13 = true ∧ BlankLine root text 11 ∧
      (spanned root ⟨text, 11⟩).region = .empty ∧ (spanned root ⟨text, 13⟩).region = .empty ∧
      (locate (some root) text 11).path = [.key ['a']] ∧
      (locate (some root) text 13).path = [.key ['a'], .index 0] ∧
      Settles ⟨text, 11⟩ [] root (locate (some root) text 11) ∧
      Settles ⟨text, 13⟩ [] root (locate (some root) text 13) := by
  intro word list root text
  have line : Text.sameLine text 11 13 = true := by decide
  have blank : BlankLine root text 11 := ⟨by decide, by decide⟩
  have outside : (spanned root ⟨text, 11⟩).region = .empty := by decide
  have outside' : (spanned root ⟨text, 13⟩).region = .empty := by decide
  have ordered : (11 : Int) ≤ 13 := by decide
  refine ⟨line, blank, outside, outside', by decide, by decide, ?_⟩
  exact (locate_indented ordered line blank outside outside').2

end Flowfile.Location
