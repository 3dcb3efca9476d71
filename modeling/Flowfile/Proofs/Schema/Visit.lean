import Flowfile.Proofs.Schema.Ending
import Flowfile.Proofs.Tree.Place
import Flowfile.Validation

/-! The walk of a validation, and the walk of a path through the schema.

A validation chooses among alternatives by the node that it checks, a path by the segment that comes
next. One step of the validation is one segment of the path, so where a validation comes to a node,
the path to that node comes to the same description. -/

namespace Flowfile

namespace Validation

/-- A node with the path and the description that a validation checks it against. -/
structure Visit where
  path : Path
  desc : Desc
  node : Node

inductive Step (r : Resolution) : Visit → Visit → Prop
  | pair {path desc info anchor flow pairs about fields problems key value inner}
      (settled : settle r path desc (.map info anchor flow pairs) =
        .ok (some (.mapping about fields), problems))
      (member : (key, value) ∈ pairs) (known : fields.desc? key.keyText = some inner) :
      Step r ⟨path, desc, .map info anchor flow pairs⟩
        ⟨path ++ [.key key.keyText], inner, value⟩
  | item {path desc info anchor flow items about inner problems position item}
      (settled : settle r path desc (.sequence info anchor flow items) =
        .ok (some (.sequence about inner), problems))
      (member : items[position]? = some item) :
      Step r ⟨path, desc, .sequence info anchor flow items⟩
        ⟨path ++ [.index (position : Nat)], inner, item⟩

inductive Walks (r : Resolution) : Visit → Visit → Prop
  | here {visit} : Walks r visit visit
  | step {first next last} (step : Step r first next) (rest : Walks r next last) :
      Walks r first last

def Settles (r : Resolution) (visit : Visit) (terminal : Terminal) : Prop :=
  ∃ problems, settle r visit.path visit.desc visit.node = .ok (some terminal, problems)

def Enters (r : Resolution) (visit : Visit) (terminal : Terminal) : Prop :=
  Settles r visit terminal ∧
    (terminal.fits visit.node.shape = true ∨ visit.node.isAlias = true)

theorem settle_eq_ok {r : Resolution} {path : Path} {desc : Desc} {node : Node}
    {chosen : Option Terminal} {problems : List Diagnostic}
    (settled : settle r path desc node = .ok (chosen, problems)) :
    (r.options path desc = .ok [] ∧ chosen = none ∧ problems = []) ∨
    (∃ terminal, r.options path desc = .ok [terminal] ∧ chosen = some terminal ∧ problems = []) ∨
    ∃ options, r.options path desc = .ok options ∧
      chosen = options.find? (fun terminal => terminal.fits node.shape) ∧
      (chosen = none → problems = noMatchingShape options node path) := by
  rw [settle.eq_def] at settled
  split at settled
  · rename_i head
    cases settled
    exact .inl ⟨Resolution.options_nothing head, rfl, rfl⟩
  · rename_i terminal head
    cases settled
    exact .inr (.inl ⟨terminal, Resolution.options_single head, rfl, rfl⟩)
  · rename_i about alternatives head
    obtain ⟨options, flattened, settled⟩ := (bind_eq_ok _ _ _).mp settled
    rw [← Resolution.options_oneOf head] at flattened
    refine .inr (.inr ⟨options, flattened, ?_⟩)
    split at settled
    · rename_i first found
      cases settled
      exact ⟨found.symm, fun missing => by cases missing⟩
    · rename_i missing
      cases settled
      exact ⟨missing.symm, fun _ => rfl⟩

theorem settle_select {r : Resolution} {path : Path} {desc : Desc} {node : Node}
    {terminal : Terminal} {problems : List Diagnostic}
    (settled : settle r path desc node = .ok (some terminal, problems))
    (fits : terminal.fits node.shape = true) :
    r.selectShape path desc node.shape = .ok (some terminal) := by
  rw [Resolution.selectShape]
  rcases settle_eq_ok settled with
    ⟨-, missing, -⟩ | ⟨single, flattened, same, -⟩ | ⟨options, flattened, found, -⟩
  · cases missing
  · cases same
    rw [flattened, Except.map]
    exact congrArg Except.ok (List.find?_cons_of_pos fits)
  · rw [flattened, Except.map, found]

theorem settle_of_selectShape {r : Resolution} {path : Path} {desc : Desc} {node : Node}
    {terminal : Terminal} (chosen : r.selectShape path desc node.shape = .ok (some terminal)) :
    ∃ problems, settle r path desc node = .ok (some terminal, problems) := by
  obtain ⟨options, flattened, found⟩ := (map_eq_ok_iff _ _ _).mp chosen
  rw [settle.eq_def]
  rcases head : r.concrete path desc with _ | ⟨single⟩ | ⟨about, alternatives⟩
  · cases flattened.symm.trans (Resolution.options_nothing head)
    cases found
  · cases flattened.symm.trans (Resolution.options_single head)
    cases List.mem_singleton.mp (List.mem_of_find?_eq_some found)
    exact ⟨[], rfl⟩
  · rw [Resolution.options_oneOf head] at flattened
    simp only [flattened, ok_bind, found]
    exact ⟨[], rfl⟩

theorem settle_eq_error_iff {r : Resolution} {path : Path} {desc : Desc} {node : Node}
    {endless : Endless} :
    settle r path desc node = .error endless ↔ Circular (r.Offers path) desc := by
  rw [settle.eq_def]
  rcases head : r.concrete path desc with _ | ⟨terminal⟩ | ⟨about, alternatives⟩
  · have straight := Resolution.straight_of_options (Resolution.options_nothing head)
    exact iff_of_false (fun failed => by cases failed) straight
  · have straight := Resolution.straight_of_options (Resolution.options_single head)
    exact iff_of_false (fun failed => by cases failed) straight
  · dsimp only
    rw [← Resolution.options_oneOf head, bind_eq_error, Resolution.options_eq_error_iff]
    refine ⟨?_, .inl⟩
    rintro (circular | ⟨options, -, failed⟩)
    · exact circular
    · split at failed <;> cases failed

theorem straight_of_settle {r : Resolution} {path : Path} {desc : Desc} {node : Node}
    {outcome : Option Terminal × List Diagnostic}
    (settled : settle r path desc node = .ok outcome) : ¬ Circular (r.Offers path) desc := by
  intro circular
  have failed : settle r path desc node = .error .alternatives :=
    settle_eq_error_iff.mpr circular
  cases settled.symm.trans failed

theorem step_descend {r : Resolution} {first next : Visit} (step : Step r first next) :
    ∃ segment, next.path = first.path ++ [segment] ∧
      (∀ suffix node, next.node.Leads suffix node → first.node.Leads (segment :: suffix) node) ∧
      (first.node.DistinctKeys → next.node.DistinctKeys ∧
        ∀ suffix, r.descend first.path first.desc (some first.node) (segment :: suffix) =
          r.descend next.path next.desc (some next.node) suffix) := by
  cases step with
  | @pair path desc info anchor flow pairs about fields problems key value inner settled member
      known =>
      refine ⟨.key key.keyText, rfl, fun suffix node => Node.Leads.pair member, ?_⟩
      intro distinct
      refine ⟨((Node.distinctKeys_map_iff ..).mp distinct).2 key value member, ?_⟩
      intro suffix
      have chosen := settle_select settled rfl
      have found := Node.get?_of_mem distinct member
      change r.selectShape path desc .mapping = _ at chosen
      rw [Resolution.descend, Resolution.segmentShape, chosen, ok_bind]
      simp only [Resolution.enter, known, Option.map_some, Node.unalias, Option.bind_some, found]
  | @item path desc info anchor flow items about inner problems position item settled member =>
      refine ⟨.index position, rfl, fun suffix node => Node.Leads.item member, ?_⟩
      intro distinct
      refine ⟨(Node.distinctKeys_sequence_iff ..).mp distinct item (List.mem_of_getElem? member), ?_⟩
      intro suffix
      have chosen := settle_select settled rfl
      have found : (Node.sequence info anchor flow items).item? position = some item := by
        simpa [Node.item?, Node.items] using member
      change r.selectShape path desc .sequence = _ at chosen
      rw [Resolution.descend, Resolution.segmentShape, chosen, ok_bind]
      simp only [Resolution.enter, Option.map_some, Node.unalias, Option.bind_some, found]

theorem walks_descend {r : Resolution} {first last : Visit} (walks : Walks r first last) :
    ∃ suffix, last.path = first.path ++ suffix ∧ first.node.Leads suffix last.node ∧
      (first.node.DistinctKeys →
        r.descend first.path first.desc (some first.node) suffix =
          .ok (some (last.desc, some last.node))) := by
  induction walks with
  | here => exact ⟨[], (List.append_nil _).symm, .here, fun _ => rfl⟩
  | step step rest ih =>
      obtain ⟨segment, longer, leads, descends⟩ := step_descend step
      obtain ⟨suffix, whole, inner, found⟩ := ih
      refine ⟨segment :: suffix, ?_, leads suffix _ inner, ?_⟩
      · rw [whole, longer, List.append_assoc, List.singleton_append]
      · intro distinct
        obtain ⟨below, same⟩ := descends distinct
        rw [same, found below]

theorem entries_append (first second : Findings) :
    (first ++ second).entries = first.entries ++ second.entries := by
  rfl

theorem entries_report (diagnostics : List Diagnostic) :
    (Findings.report diagnostics).entries = [] := by
  rfl

theorem entries_enter (node : Node) (terminal : Terminal) :
    (Findings.enter node terminal).entries = [(node, terminal)] := by
  rfl

/-- The key only tells where to report what an empty mapping lacks. -/
theorem visit_entries_key (r : Resolution) (path : Path) (key : Option Node) (desc : Desc)
    (node : Node) :
    (visit r path key desc node).map Findings.entries =
      (visit r path none desc node).map Findings.entries := by
  cases node with
  | «alias» info name target => rw [visit, visit]
  | map info anchor flow pairs => rw [visit, visit]
  | sequence info anchor flow items => rw [visit, visit]
  | scalar info anchor raw value style =>
      rw [visit, visit]
      rcases settle r path desc (.scalar info anchor raw value style) with
        endless | ⟨_ | terminal, problems⟩
      · rfl
      · rfl
      · cases terminal with
        | scalar about choices => rfl
        | mapping about fields =>
            rw [ok_bind, ok_bind]
            simp only [checkScalar]
            split <;> rfl
        | sequence about items => rfl

theorem mem_checkScalar (r : Resolution) (path : Path) (terminal : Terminal) (info : NodeInfo)
    (anchor : Option Text) (raw : Text) (value : Value) (style : Option Yaml.Style)
    (entry : Node × Terminal) :
    entry ∈ (checkScalar r path none terminal raw (.scalar info anchor raw value style)).entries ↔
      entry = (.scalar info anchor raw value style, terminal) ∧
        terminal.fits (Node.scalar info anchor raw value style).shape = true := by
  generalize same : Node.scalar info anchor raw value style = node
  have shape : node.shape = if node.isEmpty then .empty else .scalar := by
    rw [← same]
    rfl
  cases terminal with
  | scalar about choices =>
      rw [checkScalar, entries_append, entries_enter, entries_report, List.append_nil,
        List.mem_singleton, shape]
      split <;> simp [Terminal.fits, Terminal.shape]
  | mapping about fields =>
      rw [checkScalar, shape]
      split
      · simp [entries_append, entries_enter, entries_report, Terminal.fits]
      · simp [entries_report, Terminal.fits, Terminal.shape]
  | sequence about items =>
      rw [checkScalar, shape]
      split
      · simp [entries_enter, Terminal.fits]
      · simp [entries_report, Terminal.fits, Terminal.shape]

section

variable {r : Resolution} {path : Path} {findings : Findings}

theorem visit_without_key {key : Option Node} {desc : Desc} {node : Node}
    (run : visit r path key desc node = .ok findings) :
    ∃ other, visit r path none desc node = .ok other ∧ other.entries = findings.entries := by
  have same := visit_entries_key r path key desc node
  rw [run] at same
  exact (map_eq_ok_iff _ _ _).mp same.symm

theorem visitPairs_cons {fields : Fields Desc} {key value : Node} {rest : List (Node × Node)}
    (run : visitPairs r path fields ((key, value) :: rest) = .ok findings) :
    ∃ here later, visitPairs r path fields rest = .ok later ∧ findings = here ++ later ∧
      (∀ desc, fields.desc? key.keyText = some desc →
        visit r (path ++ [.key key.keyText]) (some key) desc value = .ok here) ∧
      (fields.desc? key.keyText = none → here = .report [rejectedKey fields key]) := by
  rw [visitPairs] at run
  obtain ⟨here, checked, run⟩ := (bind_eq_ok _ _ _).mp run
  obtain ⟨later, behind, whole⟩ := (bind_eq_ok _ _ _).mp run
  cases whole
  refine ⟨here, later, behind, rfl, fun desc known => ?_, fun unknown => ?_⟩
  · rw [known] at checked
    exact checked
  · rw [unknown] at checked
    cases checked
    rfl

theorem visitItems_cons {desc : Desc} {position : Nat} {item : Node} {rest : List Node}
    (run : visitItems r path desc position (item :: rest) = .ok findings) :
    ∃ here later, visit r (path ++ [.index position]) none desc item = .ok here ∧
      visitItems r path desc (position + 1) rest = .ok later ∧ findings = here ++ later := by
  rw [visitItems] at run
  obtain ⟨here, checked, run⟩ := (bind_eq_ok _ _ _).mp run
  obtain ⟨later, behind, whole⟩ := (bind_eq_ok _ _ _).mp run
  cases whole
  exact ⟨here, later, checked, behind, rfl⟩

theorem visit_of_mem_pairs {fields : Fields Desc} {pairs : List (Node × Node)}
    (run : visitPairs r path fields pairs = .ok findings) {key value : Node} {desc : Desc}
    (member : (key, value) ∈ pairs) (known : fields.desc? key.keyText = some desc) :
    ∃ inner, visit r (path ++ [.key key.keyText]) none desc value = .ok inner := by
  induction pairs generalizing findings with
  | nil => cases member
  | cons first rest ih =>
      obtain ⟨here, later, behind, -, checked, -⟩ := visitPairs_cons run
      rcases List.mem_cons.mp member with rfl | member
      · obtain ⟨inner, visited, -⟩ := visit_without_key (checked desc known)
        exact ⟨inner, visited⟩
      · exact ih behind member

theorem visit_of_mem_items {desc : Desc} {position : Nat} {items : List Node}
    (run : visitItems r path desc position items = .ok findings) {distance : Nat} {item : Node}
    (found : items[distance]? = some item) :
    ∃ inner, visit r (path ++ [.index (position + distance : Nat)]) none desc item = .ok inner := by
  induction items generalizing position distance findings with
  | nil => cases found
  | cons first rest ih =>
      obtain ⟨here, later, checked, behind, -⟩ := visitItems_cons run
      cases distance with
      | zero =>
          cases found
          exact ⟨here, checked⟩
      | succ distance =>
          obtain ⟨inner, visited⟩ := ih behind found
          rw [Nat.add_right_comm] at visited
          exact ⟨inner, visited⟩

theorem mem_visitPairs {fields : Fields Desc} {pairs : List (Node × Node)}
    (run : visitPairs r path fields pairs = .ok findings) (entry : Node × Terminal) :
    entry ∈ findings.entries ↔
      ∃ key value desc inner, (key, value) ∈ pairs ∧ fields.desc? key.keyText = some desc ∧
        visit r (path ++ [.key key.keyText]) none desc value = .ok inner ∧
          entry ∈ inner.entries := by
  induction pairs generalizing findings with
  | nil =>
      cases run
      simp
  | cons first rest ih =>
      obtain ⟨key, value⟩ := first
      obtain ⟨here, later, behind, rfl, checked, refused⟩ := visitPairs_cons run
      rw [entries_append, List.mem_append, ih behind]
      constructor
      · rintro (member | ⟨key', value', desc, inner, among, known, visited, member⟩)
        · rcases known : fields.desc? key.keyText with _ | desc
          · rw [refused known] at member
            cases member
          · obtain ⟨inner, visited, same⟩ := visit_without_key (checked desc known)
            exact ⟨key, value, desc, inner, List.mem_cons_self, known, visited, same ▸ member⟩
        · exact ⟨key', value', desc, inner, List.mem_cons_of_mem _ among, known, visited, member⟩
      · rintro ⟨key', value', desc, inner, among, known, visited, member⟩
        rcases List.mem_cons.mp among with same | among
        · cases same
          obtain ⟨inner', visited', same⟩ := visit_without_key (checked desc known)
          cases visited.symm.trans visited'
          exact .inl (same ▸ member)
        · exact .inr ⟨key', value', desc, inner, among, known, visited, member⟩

theorem mem_visitItems {desc : Desc} {position : Nat} {items : List Node}
    (run : visitItems r path desc position items = .ok findings) (entry : Node × Terminal) :
    entry ∈ findings.entries ↔
      ∃ distance item inner, items[distance]? = some item ∧
        visit r (path ++ [.index (position + distance : Nat)]) none desc item = .ok inner ∧
          entry ∈ inner.entries := by
  induction items generalizing position findings with
  | nil =>
      cases run
      simp
  | cons first rest ih =>
      obtain ⟨here, later, checked, behind, rfl⟩ := visitItems_cons run
      rw [entries_append, List.mem_append, ih behind]
      constructor
      · rintro (member | ⟨distance, item, inner, found, visited, member⟩)
        · exact ⟨0, first, here, rfl, checked, member⟩
        · refine ⟨distance + 1, item, inner, found, ?_, member⟩
          rwa [← Nat.add_assoc, Nat.add_right_comm]
      · rintro ⟨distance, item, inner, found, visited, member⟩
        cases distance with
        | zero =>
            cases found
            cases visited.symm.trans checked
            exact .inl member
        | succ distance =>
            refine .inr ⟨distance, item, inner, found, ?_, member⟩
            rwa [Nat.add_right_comm, Nat.add_assoc]

theorem settle_of_visit {key : Option Node} {desc : Desc} {node : Node}
    (run : visit r path key desc node = .ok findings) :
    ∃ chosen problems, settle r path desc node = .ok (chosen, problems) := by
  cases node
  all_goals
    rw [visit] at run
    obtain ⟨⟨chosen, problems⟩, settled, -⟩ := (bind_eq_ok _ _ _).mp run
    exact ⟨chosen, problems, settled⟩

end

def Rejects (r : Resolution) (visit : Visit) : Prop :=
  ∀ terminal, Settles r visit terminal →
    terminal.fits visit.node.shape = false ∧ visit.node.isAlias = false

theorem not_enters_of_rejects {r : Resolution} {visit : Visit} (rejects : Rejects r visit)
    (terminal : Terminal) : ¬Enters r visit terminal := by
  rintro ⟨settled, accepted⟩
  obtain ⟨unfit, solid⟩ := rejects terminal settled
  rw [unfit, solid] at accepted
  rcases accepted with accepted | accepted <;> cases accepted

theorem not_step_of_rejects {r : Resolution} {visit : Visit} (rejects : Rejects r visit)
    (next : Visit) : ¬Step r visit next := by
  intro step
  cases step with
  | pair settled _ _ => cases (rejects _ ⟨_, settled⟩).1
  | item settled _ => cases (rejects _ ⟨_, settled⟩).1

section

variable {r : Resolution} {path : Path} {desc : Desc} {node : Node} {findings : Findings}
  (run : visit r path none desc node = .ok findings)

include run

theorem visit_of_rejects (rejects : Rejects r ⟨path, desc, node⟩) : findings.entries = [] := by
  obtain ⟨chosen, problems, settled⟩ := settle_of_visit run
  rcases chosen with _ | terminal
  · cases node
    all_goals
      rw [visit, settled] at run
      cases run
      rfl
  · obtain ⟨unfit, solid⟩ := rejects terminal ⟨problems, settled⟩
    cases node with
    | «alias» info name target => cases solid
    | scalar info anchor raw value style =>
        rw [visit, settled] at run
        cases run
        rw [List.eq_nil_iff_forall_not_mem]
        intro entry member
        rw [((mem_checkScalar ..).mp member).2] at unfit
        cases unfit
    | map info anchor flow pairs =>
        rw [visit, settled] at run
        cases terminal with
        | mapping about fields => cases unfit
        | scalar about choices | sequence about items =>
            cases run
            rfl
    | sequence info anchor flow items =>
        rw [visit, settled] at run
        cases terminal with
        | sequence about items => cases unfit
        | scalar about choices | mapping about fields =>
            cases run
            rfl

theorem settled_of_not_rejects (accepts : ¬Rejects r ⟨path, desc, node⟩) :
    ∃ terminal problems, settle r path desc node = .ok (some terminal, problems) ∧
      (terminal.fits node.shape = true ∨ node.isAlias = true) := by
  obtain ⟨chosen, problems, settled⟩ := settle_of_visit run
  rcases chosen with _ | terminal
  · refine absurd ?_ accepts
    rintro terminal ⟨problems', same⟩
    cases settled.symm.trans same
  · refine ⟨terminal, problems, settled, ?_⟩
    by_cases fits : terminal.fits node.shape = true
    · exact .inl fits
    by_cases isAlias : node.isAlias = true
    · exact .inr isAlias
    refine absurd ?_ accepts
    rintro terminal' ⟨problems', same⟩
    cases settled.symm.trans same
    exact ⟨Bool.eq_false_iff.mpr fits, Bool.eq_false_iff.mpr isAlias⟩

end

theorem enters_iff_of_settled {r : Resolution} {visit : Visit} {terminal : Terminal}
    {problems : List Diagnostic}
    (settled : settle r visit.path visit.desc visit.node = .ok (some terminal, problems))
    (accepted : terminal.fits visit.node.shape = true ∨ visit.node.isAlias = true)
    (entered : Terminal) : Enters r visit entered ↔ entered = terminal := by
  constructor
  · rintro ⟨⟨problems', same⟩, -⟩
    cases settled.symm.trans same
    rfl
  · rintro rfl
    exact ⟨⟨problems, settled⟩, accepted⟩

/-- What a validation adds to the index at a node is the entry of the node and what it adds at the
nodes that it goes on to. -/
theorem mem_visit {r : Resolution} {path : Path} {desc : Desc} {node : Node} {findings : Findings}
    (run : visit r path none desc node = .ok findings) (found : Node) (entered : Terminal) :
    (found, entered) ∈ findings.entries ↔
      (found = node ∧ Enters r ⟨path, desc, node⟩ entered) ∨
        ∃ next inner, Step r ⟨path, desc, node⟩ next ∧
          visit r next.path none next.desc next.node = .ok inner ∧
            (found, entered) ∈ inner.entries := by
  by_cases rejects : Rejects r ⟨path, desc, node⟩
  · rw [visit_of_rejects run rejects]
    constructor
    · intro member
      cases member
    · rintro (⟨-, enters⟩ | ⟨next, inner, step, -⟩)
      · exact absurd enters (not_enters_of_rejects rejects entered)
      · exact absurd step (not_step_of_rejects rejects next)
  · obtain ⟨terminal, problems, settled, accepted⟩ := settled_of_not_rejects run rejects
    rw [enters_iff_of_settled settled accepted, ← Prod.mk.injEq]
    cases node with
    | «alias» info name target =>
        rw [visit, settled] at run
        cases run
        rw [entries_enter, List.mem_singleton]
        refine ⟨.inl, ?_⟩
        rintro (same | ⟨next, inner, step, -⟩)
        · exact same
        · cases step
    | scalar info anchor raw value style =>
        rw [visit, settled] at run
        cases run
        rw [mem_checkScalar]
        refine ⟨fun member => .inl member.1, ?_⟩
        rintro (same | ⟨next, inner, step, -⟩)
        · exact ⟨same, accepted.resolve_right Bool.false_ne_true⟩
        · cases step
    | map info anchor flow pairs =>
        cases terminal with
        | mapping about fields =>
            rw [visit, settled, ok_bind, bind_eq_ok] at run
            obtain ⟨below, visited, whole⟩ := run
            cases whole
            rw [entries_append, entries_append, entries_enter, entries_report, List.append_nil,
              List.singleton_append, List.mem_cons, mem_visitPairs visited]
            refine or_congr_right ⟨?_, ?_⟩
            · rintro ⟨key, value, desc', inner, member, known, visited, among⟩
              exact ⟨_, inner, .pair settled member known, visited, among⟩
            · rintro ⟨next, inner, step, visited, among⟩
              cases step with
              | pair settled' member known =>
                  cases settled.symm.trans settled'
                  exact ⟨_, _, _, inner, member, known, visited, among⟩
        | scalar about choices => rcases accepted with accepted | accepted <;> cases accepted
        | sequence about items => rcases accepted with accepted | accepted <;> cases accepted
    | sequence info anchor flow items =>
        cases terminal with
        | sequence about desc' =>
            rw [visit, settled, ok_bind, bind_eq_ok] at run
            obtain ⟨below, visited, whole⟩ := run
            cases whole
            rw [entries_append, entries_enter, List.singleton_append, List.mem_cons,
              mem_visitItems visited]
            refine or_congr_right ⟨?_, ?_⟩
            · rintro ⟨position, item, inner, member, visited, among⟩
              rw [Nat.zero_add] at visited
              exact ⟨_, inner, .item settled member, visited, among⟩
            · rintro ⟨next, inner, step, visited, among⟩
              cases step with
              | item settled' member =>
                  cases settled.symm.trans settled'
                  refine ⟨_, _, inner, member, ?_, among⟩
                  rwa [Nat.zero_add]
        | scalar about choices => rcases accepted with accepted | accepted <;> cases accepted
        | mapping about fields => rcases accepted with accepted | accepted <;> cases accepted

theorem visit_of_step {r : Resolution} {first next : Visit} {key : Option Node}
    {findings : Findings} (run : visit r first.path key first.desc first.node = .ok findings)
    (step : Step r first next) :
    ∃ inner, visit r next.path none next.desc next.node = .ok inner := by
  cases step with
  | pair settled member known =>
      rw [visit, settled, ok_bind, bind_eq_ok] at run
      obtain ⟨below, visited, -⟩ := run
      exact visit_of_mem_pairs visited member known
  | item settled member =>
      rw [visit, settled, ok_bind, bind_eq_ok] at run
      obtain ⟨below, visited, -⟩ := run
      obtain ⟨inner, visited⟩ := visit_of_mem_items visited member
      rw [Nat.zero_add] at visited
      exact ⟨inner, visited⟩

theorem step_below {r : Resolution} {first next : Visit} (step : Step r first next) :
    sizeOf next.node < sizeOf first.node := by
  cases step with
  | pair _ member _ => exact Node.value_smaller member
  | item _ member => exact Node.item_smaller member

theorem mem_visit_iff_walks {r : Resolution} {first : Visit} {findings : Findings}
    (run : visit r first.path none first.desc first.node = .ok findings) (found : Node)
    (entered : Terminal) :
    (found, entered) ∈ findings.entries ↔
      ∃ last, Walks r first last ∧ found = last.node ∧ Enters r last entered := by
  constructor
  -- A walk is not known yet, so this direction goes by the size of the node that is visited.
  · induction size : sizeOf first.node using Nat.strongRecOn generalizing first findings with
    | ind total ih =>
        intro member
        rcases (mem_visit run ..).mp member with ⟨same, enters⟩ | ⟨next, inner, step, visited, below⟩
        · exact ⟨first, .here, same, enters⟩
        · obtain ⟨last, walks, same, enters⟩ :=
            ih (sizeOf next.node) (size ▸ step_below step) visited rfl below
          exact ⟨last, .step step walks, same, enters⟩
  · rintro ⟨last, walks, same, enters⟩
    induction walks generalizing findings with
    | here => exact (mem_visit run ..).mpr (.inl ⟨same, enters⟩)
    | step step rest ih =>
        obtain ⟨inner, visited⟩ := visit_of_step run step
        exact (mem_visit run ..).mpr (.inr ⟨_, inner, step, visited, ih visited same enters⟩)

theorem exists_visitPairs {r : Resolution} {path : Path} {fields : Fields Desc}
    {pairs : List (Node × Node)}
    (each : ∀ key value desc, (key, value) ∈ pairs → fields.desc? key.keyText = some desc →
      ∃ inner, visit r (path ++ [.key key.keyText]) (some key) desc value = .ok inner) :
    ∃ findings, visitPairs r path fields pairs = .ok findings := by
  induction pairs with
  | nil => exact ⟨_, rfl⟩
  | cons first rest ih =>
      obtain ⟨key, value⟩ := first
      obtain ⟨later, behind⟩ := ih fun key value desc member =>
        each key value desc (List.mem_cons_of_mem _ member)
      rw [visitPairs, behind]
      rcases known : fields.desc? key.keyText with _ | desc
      · exact ⟨_, rfl⟩
      · obtain ⟨here, visited⟩ := each key value desc List.mem_cons_self known
        dsimp only
        rw [visited]
        exact ⟨_, rfl⟩

theorem exists_visitItems {r : Resolution} {path : Path} {desc : Desc} (position : Nat)
    {items : List Node}
    (each : ∀ distance item, items[distance]? = some item →
      ∃ inner, visit r (path ++ [.index (position + distance : Nat)]) none desc item = .ok inner) :
    ∃ findings, visitItems r path desc position items = .ok findings := by
  induction items generalizing position with
  | nil => exact ⟨_, rfl⟩
  | cons first rest ih =>
      obtain ⟨later, behind⟩ := ih (position + 1) fun distance item found => by
        rw [Nat.add_right_comm, Nat.add_assoc]
        exact each (distance + 1) item found
      obtain ⟨here, visited⟩ := each 0 first rfl
      rw [Nat.add_zero] at visited
      rw [visitItems, visited, behind]
      exact ⟨_, rfl⟩

/-- A validation has an outcome exactly where it checks no node against alternatives that lead back
to themselves. -/
theorem visit_ends_iff {r : Resolution} (first : Visit) (key : Option Node) :
    (∃ findings, visit r first.path key first.desc first.node = .ok findings) ↔
      ∀ last, Walks r first last → ¬ Circular (r.Offers last.path) last.desc := by
  constructor
  · rintro ⟨keyed, checked⟩ last walks
    obtain ⟨findings, run, -⟩ := visit_without_key checked
    clear checked
    induction walks generalizing findings with
    | here =>
        obtain ⟨chosen, problems, settled⟩ := settle_of_visit run
        exact straight_of_settle settled
    | step step rest ih =>
        obtain ⟨inner, visited⟩ := visit_of_step run step
        exact ih inner visited
  · intro straight
    induction size : sizeOf first.node using Nat.strongRecOn generalizing first key with
    | ind total ih =>
        have below (next : Visit) (key : Option Node) (step : Step r first next) :
            ∃ inner, visit r next.path key next.desc next.node = .ok inner :=
          ih _ (size ▸ step_below step) next key
            (fun last walks => straight last (.step step walks)) rfl
        obtain ⟨path, desc, node⟩ := first
        rcases settled : settle r path desc node with endless | ⟨chosen, problems⟩
        · exact absurd (settle_eq_error_iff.mp settled) (straight _ .here)
        · cases node with
          | «alias» info name target | scalar info anchor raw value style =>
              rw [visit, settled]
              rcases chosen with _ | terminal <;> exact ⟨_, rfl⟩
          | map info anchor flow pairs =>
              rw [visit, settled]
              rcases chosen with _ | ⟨about, choices⟩ | ⟨about, fields⟩ | ⟨about, items⟩
              · exact ⟨_, rfl⟩
              · exact ⟨_, rfl⟩
              · obtain ⟨inner, visited⟩ := exists_visitPairs fun key value desc member known =>
                  below _ (some key) (.pair settled member known)
                rw [ok_bind]
                dsimp only
                rw [visited]
                exact ⟨_, rfl⟩
              · exact ⟨_, rfl⟩
          | sequence info anchor flow items =>
              rw [visit, settled]
              rcases chosen with _ | ⟨about, choices⟩ | ⟨about, fields⟩ | ⟨about, desc'⟩
              · exact ⟨_, rfl⟩
              · exact ⟨_, rfl⟩
              · exact ⟨_, rfl⟩
              · obtain ⟨inner, visited⟩ := exists_visitItems 0 fun distance item found => by
                  rw [Nat.zero_add]
                  exact below _ none (.item settled found)
                rw [ok_bind]
                dsimp only
                rw [visited]
                exact ⟨_, rfl⟩

theorem validate_eq_ok {r : Resolution} {schema : Desc} {root : Node} {findings : Findings}
    (run : validate r schema (some root) = .ok findings) :
    ∃ found, visit r [] none schema root = .ok found ∧
      findings = found ++ .report (checkExpressions root) := by
  obtain ⟨found, visited, whole⟩ := (bind_eq_ok _ _ _).mp run
  cases whole
  exact ⟨found, visited, rfl⟩

def Straight (r : Resolution) (schema : Desc) (root : Option Node) : Prop :=
  ∀ node visit, root = some node → Walks r ⟨[], schema, node⟩ visit →
    ¬ Circular (r.Offers visit.path) visit.desc

theorem validate_ends_iff (r : Resolution) (schema : Desc) (root : Option Node) :
    (∃ findings, validate r schema root = .ok findings) ↔ Straight r schema root := by
  rcases root with _ | root
  · exact iff_of_true ⟨_, rfl⟩ fun node visit nothing => by cases nothing
  · have ends := visit_ends_iff (r := r) ⟨[], schema, root⟩ none
    constructor
    · rintro ⟨findings, run⟩ node visit same walks
      cases same
      obtain ⟨found, visited, -⟩ := validate_eq_ok run
      exact ends.mp ⟨found, visited⟩ visit walks
    · intro straight
      obtain ⟨found, visited⟩ := ends.mpr fun visit walks => straight root visit rfl walks
      refine ⟨found ++ .report (checkExpressions root), ?_⟩
      dsimp only at visited
      rw [validate, visited]
      rfl

end Validation

end Flowfile
