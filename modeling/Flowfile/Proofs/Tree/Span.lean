import Flowfile.Location
import Flowfile.Proofs.Tree.Contents
import Flowfile.Proofs.Tree.Place

/-! Spans that lie in each other and one after the other, and the scalars that are found by them.

Earlier siblings are looked at first. None of them holds an offset behind the start of a later
token: behind its span a sibling takes up nothing but blanks, and no token starts with a blank. -/

namespace Flowfile.Location

open Cursor Node

def IsToken : Node → Prop
  | .scalar info anchor raw value style => (Node.scalar info anchor raw value style).isEmpty = false
  | _ => False

/-- Whether there is a character at the position, and one that no collection is extended over. -/
def Inked (text : Text) (position : Nat) : Prop :=
  text[position]?.any (fun c => c ≠ ' ' && c ≠ '\t') = true

instance (text : Text) (position : Nat) : Decidable (Inked text position) :=
  inferInstanceAs (Decidable (_ = _))

/-- The pairs lie one after the other between the two offsets. A key ends before its value, and so
does the colon that directly follows it. -/
def PairsBetween (text : Text) (stop : Nat) : Nat → List (Node × Node) → Prop
  | start, [] => start ≤ stop
  | start, (key, value) :: rest =>
    start ≤ key.start ∧ key.start ≤ key.stop ∧ keyStop ⟨text, 0⟩ key ≤ value.start ∧
      value.start ≤ value.stop ∧ PairsBetween text stop value.stop rest

instance decidablePairsBetween (text : Text) (stop : Nat) :
    (start : Nat) → (pairs : List (Node × Node)) → Decidable (PairsBetween text stop start pairs)
  | start, [] => inferInstanceAs (Decidable (start ≤ stop))
  | _, (_, value) :: rest =>
    have := decidablePairsBetween text stop value.stop rest
    inferInstanceAs (Decidable (_ ∧ _))

def ItemsBetween (stop : Nat) : Nat → List Node → Prop
  | start, [] => start ≤ stop
  | start, item :: rest =>
    start ≤ item.start ∧ item.start ≤ item.stop ∧ ItemsBetween stop item.stop rest

instance decidableItemsBetween (stop : Nat) :
    (start : Nat) → (items : List Node) → Decidable (ItemsBetween stop start items)
  | start, [] => inferInstanceAs (Decidable (start ≤ stop))
  | _, item :: rest =>
    have := decidableItemsBetween stop item.stop rest
    inferInstanceAs (Decidable (_ ∧ _))

def Spaced (text : Text) : Node → Prop
  | .scalar info anchor raw value style =>
    (Node.scalar info anchor raw value style).isEmpty = false → Inked text info.start
  | .map info _ _ pairs => PairsBetween text info.stop info.start pairs
  | .sequence info _ _ items => ItemsBetween info.stop info.start items
  | .alias .. => True

instance (text : Text) : (node : Node) → Decidable (Spaced text node)
  | .scalar info .. => inferInstanceAs (Decidable (_ → Inked text info.start))
  | .map info _ _ pairs =>
    inferInstanceAs (Decidable (PairsBetween text info.stop info.start pairs))
  | .sequence info _ _ items =>
    inferInstanceAs (Decidable (ItemsBetween info.stop info.start items))
  | .alias .. => inferInstanceAs (Decidable True)

structure Spans (text : Text) (root : Node) : Prop where
  inText : root.stop ≤ text.length
  spaced : ∀ node ∈ root.nodes, Spaced text node

section

variable {text : Text} {stop start : Nat}

theorem keyStop_le (c : Cursor) (key : Node) : key.stop ≤ c.keyStop key := by
  rw [keyStop]
  split <;> omega

theorem pairsBetween_le {pairs : List (Node × Node)}
    (between : PairsBetween text stop start pairs) : start ≤ stop := by
  induction pairs generalizing start with
  | nil => exact between
  | cons first rest ih =>
      obtain ⟨key, value⟩ := first
      obtain ⟨before, upward, colon, upward', others⟩ := between
      have colonAfter := keyStop_le ⟨text, 0⟩ key
      have tail := ih others
      omega

theorem itemsBetween_le {items : List Node} (between : ItemsBetween stop start items) :
    start ≤ stop := by
  induction items generalizing start with
  | nil => exact between
  | cons item rest ih =>
      obtain ⟨before, upward, others⟩ := between
      have tail := ih others
      omega

theorem pair_between {pairs : List (Node × Node)} {key value : Node}
    (between : PairsBetween text stop start pairs) (member : (key, value) ∈ pairs) :
    start ≤ key.start ∧ key.start ≤ key.stop ∧ keyStop ⟨text, 0⟩ key ≤ value.start ∧
      value.start ≤ value.stop ∧ value.stop ≤ stop := by
  induction pairs generalizing start with
  | nil => cases member
  | cons first rest ih =>
      obtain ⟨before, upward, colon, upward', others⟩ := between
      rcases List.mem_cons.mp member with rfl | later
      · exact ⟨before, upward, colon, upward', pairsBetween_le others⟩
      · have colonAfter := keyStop_le ⟨text, 0⟩ first.1
        have inner := ih others later
        omega

theorem item_between {items : List Node} {item : Node} (between : ItemsBetween stop start items)
    (member : item ∈ items) : start ≤ item.start ∧ item.start ≤ item.stop ∧ item.stop ≤ stop := by
  induction items generalizing start with
  | nil => cases member
  | cons first rest ih =>
      obtain ⟨before, upward, others⟩ := between
      rcases List.mem_cons.mp member with rfl | later
      · exact ⟨before, upward, itemsBetween_le others⟩
      · have inner := ih others later
        omega

end

theorem isEmpty_eq_false_of_lt {node : Node} (wide : node.start < node.stop) :
    node.isEmpty = false := by
  cases node with
  | scalar info anchor raw value style =>
      have apart : info.start ≠ info.stop := Nat.ne_of_lt wide
      simp [Node.isEmpty, apart]
  | map | sequence => rfl
  | «alias» => rfl

theorem contains_eq_true {node : Node} {offset : Nat} (first : node.start ≤ offset)
    (last : offset ≤ node.stop) : node.contains offset = true := by
  simp [Node.contains, first, last]

section

variable {c : Cursor} {position : Nat}

theorem reaches_eq_false {node : Node} (inked : Inked c.text position)
    (behind : position < c.offset) (before : node.stop ≤ position) : c.reaches node = false := by
  have outside : node.contains c.offset = false := by
    simp only [Node.contains, Bool.and_eq_false_iff, decide_eq_false_iff_not]
    omega
  have solid : (c.text.slice node.stop c.offset).all (fun d => d = ' ' || d = '\t') = false := by
    obtain ⟨d, found, visible⟩ := (Option.any_eq_true _ _).mp inked
    have inside : (c.text.slice node.stop c.offset)[position - node.stop]? = some d := by
      rw [Text.slice, List.getElem?_take_of_lt (by omega), List.getElem?_drop,
        Nat.add_sub_cancel' before]
      exact found
    rw [List.all_eq_false]
    refine ⟨d, List.mem_of_getElem? inside, ?_⟩
    simpa using visible
  simp [reaches, outside, solid]

/-- A pair is passed over if a later one starts before the token or with it. -/
theorem spanPairs_skip (path : Path) (self : Node) {key value : Node} {rest : List (Node × Node)}
    {stop start : Nat} (inked : Inked c.text position) (behind : position < c.offset)
    (between : PairsBetween c.text stop start ((key, value) :: rest))
    (later : ∃ pair ∈ rest, pair.1.start ≤ position) :
    c.spanPairs path self ((key, value) :: rest) = c.spanPairs path self rest := by
  obtain ⟨before, upward, colon, upward', others⟩ := between
  obtain ⟨pair, member, started⟩ := later
  have follows : value.stop ≤ pair.1.start := (pair_between others member).1
  have keyPassed : ¬c.offset ≤ c.keyStop key := by
    have ends : c.keyStop key ≤ value.start := colon
    omega
  have valuePassed : c.reaches value = false := reaches_eq_false inked behind (by omega)
  cases rest with
  | nil => cases member
  | cons next rest =>
      have nextPassed : ¬c.offset ≤ next.1.start := by
        rcases List.mem_cons.mp member with rfl | beyond
        · omega
        · obtain ⟨-, upward, colon, upward', others⟩ := others
          have colonAfter := keyStop_le ⟨c.text, 0⟩ next.1
          have ordered := (pair_between others beyond).1
          omega
      rw [spanPairs.eq_def]
      simp [keyPassed, valuePassed, inEmpty, nextPassed]

theorem spanItems_skip (path : Path) (self : Node) (index : Nat) {item : Node} {rest : List Node}
    {stop start : Nat}
    (inked : Inked c.text position) (behind : position < c.offset)
    (between : ItemsBetween stop start (item :: rest))
    (later : ∃ other ∈ rest, other.start ≤ position) :
    c.spanItems path self index (item :: rest) = c.spanItems path self (index + 1) rest := by
  obtain ⟨before, upward, others⟩ := between
  obtain ⟨other, member, started⟩ := later
  have follows : item.stop ≤ other.start := (item_between others member).1
  have passed : c.reaches item = false := reaches_eq_false inked behind (by omega)
  cases rest with
  | nil => cases member
  | cons next rest =>
      have nextPassed : ¬c.offset < next.start := by
        rcases List.mem_cons.mp member with rfl | beyond
        · omega
        · obtain ⟨-, upward, others⟩ := others
          have ordered := (item_between others beyond).1
          omega
      rw [spanItems.eq_def]
      simp [passed, inEmpty, nextPassed]

theorem spanPairs_value (path : Path) (self : Node) {key value : Node} {pairs : List (Node × Node)}
    {stop start : Nat} (inked : Inked c.text position) (behind : position < c.offset)
    (between : PairsBetween c.text stop start pairs) (member : (key, value) ∈ pairs)
    (first : value.start ≤ position) (last : c.offset ≤ value.stop) :
    c.spanPairs path self pairs =
      some (c.bySpan (path ++ [.key key.keyText]) (some self) value) := by
  induction pairs generalizing start with
  | nil => cases member
  | cons pair rest ih =>
      obtain ⟨-, upward, colon, -, others⟩ := pair_between between member
      have colonAfter := keyStop_le ⟨c.text, 0⟩ key
      rcases List.mem_cons.mp member with rfl | later
      · have keyPassed : ¬c.offset ≤ c.keyStop key := by
          have ends : c.keyStop key ≤ value.start := colon
          omega
        have nonempty : value.isEmpty = false := isEmpty_eq_false_of_lt (by omega)
        have reached : c.reaches value = true := by
          simp [reaches, contains_eq_true (show value.start ≤ c.offset by omega) last]
        rw [spanPairs.eq_def]
        simp [keyPassed, nonempty, reached]
      · calc
          c.spanPairs path self (pair :: rest) = c.spanPairs path self rest :=
            spanPairs_skip _ _ inked behind between
              ⟨_, later, show key.start ≤ position by omega⟩
          _ = _ := ih between.2.2.2.2 later

theorem spanPairs_key (path : Path) (self : Node) {key value : Node} {pairs : List (Node × Node)}
    {stop start : Nat} (inked : Inked c.text key.start) (behind : key.start < c.offset)
    (between : PairsBetween c.text stop start pairs) (member : (key, value) ∈ pairs)
    (last : c.offset ≤ c.keyStop key) :
    c.spanPairs path self pairs =
      some ⟨some key, path ++ [.key key.keyText], .key, some self⟩ := by
  induction pairs generalizing start with
  | nil => cases member
  | cons pair rest ih =>
      rcases List.mem_cons.mp member with rfl | later
      · have first : key.start ≤ c.offset := Nat.le_of_lt behind
        rw [spanPairs.eq_def]
        simp [first, last]
      · calc
          c.spanPairs path self (pair :: rest) = c.spanPairs path self rest :=
            spanPairs_skip _ _ inked behind between ⟨_, later, Nat.le_refl _⟩
          _ = _ := ih between.2.2.2.2 later

theorem spanItems_item (path : Path) (self : Node) (before : Nat) {item : Node}
    {items : List Node} {index stop start : Nat} (inked : Inked c.text position)
    (behind : position < c.offset)
    (between : ItemsBetween stop start items) (member : items[index]? = some item)
    (first : item.start ≤ position) (last : c.offset ≤ item.stop) :
    c.spanItems path self before items =
      some (c.bySpan (path ++ [.index (before + index : Nat)]) (some self) item) := by
  induction items generalizing start before index with
  | nil => cases member
  | cons head rest ih =>
      cases index with
      | zero =>
          cases member
          have nonempty : item.isEmpty = false := isEmpty_eq_false_of_lt (by omega)
          have reached : c.reaches item = true := by
            simp [reaches, contains_eq_true (show item.start ≤ c.offset by omega) last]
          rw [spanItems.eq_def]
          simp [nonempty, reached]
      | succ index =>
          have later : rest[index]? = some item := member
          calc
            c.spanItems path self before (head :: rest) = c.spanItems path self (before + 1) rest :=
              spanItems_skip _ _ _ inked behind between ⟨_, List.mem_of_getElem? later, first⟩
            _ = _ := by
              rw [ih (before + 1) between.2.2 later, Nat.add_assoc, Nat.add_comm 1]

end

section

variable {text : Text} {root node : Node} {path : Path}

theorem leads_nodes (leads : root.Leads path node) : ∀ inner ∈ node.nodes, inner ∈ root.nodes := by
  induction leads with
  | here => exact fun inner member => member
  | pair member below ih =>
      exact fun inner inside => nodes_of_contents (mem_parts member).2 (ih inner inside)
  | item member below ih =>
      exact fun inner inside =>
        nodes_of_contents (List.mem_of_getElem? member) (ih inner inside)

theorem leads_within (spaced : ∀ inner ∈ root.nodes, Spaced text inner)
    (leads : root.Leads path node) : root.start ≤ node.start ∧ node.stop ≤ root.stop := by
  induction leads with
  | here => exact ⟨Nat.le_refl _, Nat.le_refl _⟩
  | @pair info anchor flow pairs key value path node member below ih =>
      have between : PairsBetween text info.stop info.start pairs := spaced _ (self_mem_nodes _)
      have inner := ih fun each inside => spaced each (leads_nodes (.pair member .here) each inside)
      have outer := pair_between between member
      have colonAfter := keyStop_le ⟨text, 0⟩ key
      change info.start ≤ node.start ∧ node.stop ≤ info.stop
      omega
  | @item info anchor flow items position item path node member below ih =>
      have between : ItemsBetween info.stop info.start items := spaced _ (self_mem_nodes _)
      have inner := ih fun each inside => spaced each (leads_nodes (.item member .here) each inside)
      have outer := item_between between (List.mem_of_getElem? member)
      change info.start ≤ node.start ∧ node.stop ≤ info.stop
      omega

/-- The way down by spans comes to a node in whose span the token and the offset are. -/
theorem bySpan_leads {c : Cursor} {position : Nat}
    (spaced : ∀ inner ∈ root.nodes, Spaced c.text inner) (leads : root.Leads path node)
    (inked : Inked c.text position) (behind : position < c.offset)
    (first : node.start ≤ position) (last : c.offset ≤ node.stop) (above : Path)
    (parent : Option Node) :
    ∃ parent', c.bySpan above parent root = c.bySpan (above ++ path) parent' node := by
  induction leads generalizing above parent with
  | here => exact ⟨parent, by rw [List.append_nil]⟩
  | @pair info anchor flow pairs key value path node member below ih =>
      have within : ∀ inner ∈ value.nodes, Spaced c.text inner := fun each inside =>
        spaced each (leads_nodes (.pair member .here) each inside)
      have between : PairsBetween c.text info.stop info.start pairs := spaced _ (self_mem_nodes _)
      have inside := leads_within within below
      have found := spanPairs_value above (.map info anchor flow pairs) inked behind between member
        (by omega) (by omega)
      obtain ⟨parent', same⟩ :=
        ih within first last (above ++ [.key key.keyText]) (some (.map info anchor flow pairs))
      refine ⟨parent', ?_⟩
      rw [bySpan, found, Option.getD_some, same, List.append_assoc, List.singleton_append]
  | @item info anchor flow items index item path node member below ih =>
      have within : ∀ inner ∈ item.nodes, Spaced c.text inner := fun each inside =>
        spaced each (leads_nodes (.item member .here) each inside)
      have between : ItemsBetween info.stop info.start items := spaced _ (self_mem_nodes _)
      have inside := leads_within within below
      have found := spanItems_item above (.sequence info anchor flow items) 0 inked behind between
        member (by omega) (by omega)
      obtain ⟨parent', same⟩ := ih within first last (above ++ [.index (index : Nat)])
        (some (.sequence info anchor flow items))
      refine ⟨parent', ?_⟩
      rw [bySpan, found, Option.getD_some, Nat.zero_add, same, List.append_assoc,
        List.singleton_append]

theorem locate_eq_bySpan {offset : Nat} (inText : offset ≤ text.length)
    (first : root.start ≤ offset) (last : offset ≤ root.stop)
    (somewhere : (bySpan ⟨text, offset⟩ [] none root).region ≠ .empty) :
    locate (some root) text offset = bySpan ⟨text, offset⟩ [] none root := by
  have clamped : min (offset : Int).toNat text.length = offset := Nat.min_eq_left inText
  have held : root.contains offset = true := contains_eq_true first last
  rw [locate, clamped, ofCursor]
  simp [held, somewhere]

theorem inked_of_token (own : Spaced text node) (token : IsToken node) : Inked text node.start := by
  cases node with
  | scalar info anchor raw value style => exact own token
  | map | sequence => cases token
  | «alias» => cases token

theorem bySpan_token (c : Cursor) (token : IsToken node) (parent : Option Node) :
    c.bySpan path parent node = ⟨some node, path, .value, parent⟩ := by
  cases node with
  | scalar info anchor raw value style =>
      have nonempty : (Node.scalar info anchor raw value style).isEmpty = false := token
      simp [bySpan, nonempty]
  | map | sequence => cases token
  | «alias» => cases token

theorem locate_scalar (spans : Spans text root) (leads : root.Leads path node)
    (token : IsToken node) {offset : Nat} (behind : node.start < offset)
    (last : offset ≤ node.stop) :
    ∃ parent, locate (some root) text offset = ⟨some node, path, .value, parent⟩ := by
  obtain ⟨inText, spaced⟩ := spans
  have outer := leads_within spaced leads
  have inked := inked_of_token (spaced node (leads_nodes leads node (self_mem_nodes node))) token
  obtain ⟨parent, found⟩ := bySpan_leads (c := ⟨text, offset⟩) spaced leads inked behind
    (Nat.le_refl _) last [] none
  rw [List.nil_append, bySpan_token _ token] at found
  refine ⟨parent, ?_⟩
  rw [locate_eq_bySpan (by omega) (by omega) (by omega) (by simp [found]), found]

theorem locate_key {info : NodeInfo} {anchor : Option Text} {flow : Bool}
    {pairs : List (Node × Node)} {key value : Node} (spans : Spans text root)
    (leads : root.Leads path (.map info anchor flow pairs)) (member : (key, value) ∈ pairs)
    (token : IsToken key) {offset : Nat} (behind : key.start < offset)
    (last : offset ≤ keyStop ⟨text, offset⟩ key) :
    locate (some root) text offset =
      ⟨some key, path ++ [.key key.keyText], .key, some (.map info anchor flow pairs)⟩ := by
  obtain ⟨inText, spaced⟩ := spans
  have outer : root.start ≤ info.start ∧ info.stop ≤ root.stop := leads_within spaced leads
  have between : PairsBetween text info.stop info.start pairs :=
    spaced _ (leads_nodes leads _ (self_mem_nodes _))
  obtain ⟨start, -, colon, upward, stop⟩ := pair_between between member
  have ends : keyStop ⟨text, offset⟩ key ≤ value.start := colon
  have held : key ∈ (Node.map info anchor flow pairs).nodes :=
    nodes_of_contents (mem_parts member).1 (self_mem_nodes key)
  have inked := inked_of_token (spaced key (leads_nodes leads key held)) token
  obtain ⟨parent, found⟩ := bySpan_leads (c := ⟨text, offset⟩) spaced leads inked behind start
    (show offset ≤ info.stop by omega) [] none
  have keyFound := spanPairs_key (c := ⟨text, offset⟩) path (.map info anchor flow pairs) inked
    behind between member last
  rw [List.nil_append, bySpan, keyFound, Option.getD_some] at found
  rw [locate_eq_bySpan (by omega) (by omega) (by omega) (by simp [found]), found]

end

/-- A scalar other than an implicit empty value is found from every offset behind its start up to
its end, and one that is a key also from the end of the colon that directly follows it. -/
theorem locate_token (text : Text) (root : Node) (spans : Spans text root) (path : Path)
    (node : Node) (leads : root.Leads path node) :
    (IsToken node → ∀ offset : Int, node.start < offset → offset ≤ node.stop →
      ∃ parent, locate (some root) text offset = ⟨some node, path, .value, parent⟩) ∧
    (∀ key value, (key, value) ∈ node.pairs → IsToken key → ∀ offset : Int, key.start < offset →
      (offset ≤ key.stop ∨ text[key.stop]? = some ':' ∧ offset = key.stop + 1) →
        locate (some root) text offset =
          ⟨some key, path ++ [.key key.keyText], .key, some node⟩) := by
  constructor
  · intro token offset behind last
    obtain ⟨offset, rfl⟩ := Int.eq_ofNat_of_zero_le (show 0 ≤ offset by omega)
    exact locate_scalar spans leads token (by omega) (by omega)
  · intro key value member token offset behind last
    obtain ⟨offset, rfl⟩ := Int.eq_ofNat_of_zero_le (show 0 ≤ offset by omega)
    have reached : offset ≤ keyStop ⟨text, offset⟩ key := by
      rw [keyStop]
      rcases last with within | ⟨found, only⟩
      · split <;> omega
      · simp only [found, if_true]
        omega
    cases node with
    | map info anchor flow pairs => exact locate_key spans leads member token (by omega) reached
    | scalar | sequence => cases member
    | «alias» => cases member

/-- The last item of a list, and its key at the colon, behind a key without a value. -/
theorem locate_token_behind_empty :
    let key : Node := .scalar ⟨1, 0, 1⟩ none (Text.of "a") (.str (Text.of "a")) none
    let value : Node := .scalar ⟨2, 2, 2⟩ none [] .null none
    let key' : Node := .scalar ⟨3, 3, 4⟩ none (Text.of "b") (.str (Text.of "b")) none
    let item : Node := .scalar ⟨5, 7, 8⟩ none (Text.of "x") (.str (Text.of "x")) none
    let item' : Node := .scalar ⟨6, 10, 11⟩ none (Text.of "y") (.str (Text.of "y")) none
    let items : Node := .sequence ⟨4, 6, 12⟩ none true [item, item']
    let root : Node := .map ⟨0, 0, 12⟩ none false [(key, value), (key', items)]
    let text := Text.of "a:\nb: [x, y]"
    Spans text root ∧ root.Leads [.key (Text.of "b"), .index 1] item' ∧
      (∃ parent, locate (some root) text 11 =
        ⟨some item', [.key (Text.of "b"), .index 1], .value, parent⟩) ∧
      locate (some root) text 5 = ⟨some key', [.key (Text.of "b")], .key, some root⟩ := by
  intro key value key' item item' items root text
  have spans : Spans text root := ⟨by decide, by decide⟩
  have leads : root.Leads [.key (Text.of "b"), .index 1] item' :=
    .pair (List.mem_cons_of_mem _ List.mem_cons_self)
      (.item (show [item, item'][1]? = some item' from rfl) .here)
  refine ⟨spans, leads, ?_, ?_⟩
  · exact (locate_token text root spans _ item' leads).1 rfl 11 (by decide) (by decide)
  · exact (locate_token text root spans [] root .here).2 key' items
      (List.mem_cons_of_mem _ List.mem_cons_self) rfl 5 (by decide)
      (.inr ⟨rfl, rfl⟩)

end Flowfile.Location
