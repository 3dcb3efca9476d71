import Flowfile.Hover
import Flowfile.Proofs.Schema.Visit
import Flowfile.Proofs.Tree.Locate

/-! The index of a validation holds what the schema gives along the paths of the tree, so hover can
do without it. -/

namespace Flowfile

namespace Validation

section

variable {r : Resolution} {schema : Desc} {root : Node} {findings : Findings}

theorem mem_validate (run : validate r schema (some root) = .ok findings) (found : Node)
    (entered : Terminal) :
    (found, entered) ∈ findings.entries ↔
      ∃ visit, Walks r ⟨[], schema, root⟩ visit ∧ found = visit.node ∧ Enters r visit entered := by
  obtain ⟨inner, visited, rfl⟩ := validate_eq_ok run
  rw [entries_append, entries_report, List.append_nil]
  exact mem_visit_iff_walks visited found entered

theorem descAt_of_walks (distinct : root.DistinctKeys) {visit : Visit}
    (walks : Walks r ⟨[], schema, root⟩ visit) :
    root.Leads visit.path visit.node ∧
      r.descAt (some root) schema visit.path = .ok (some (visit.desc, some visit.node)) := by
  obtain ⟨suffix, whole, leads, descends⟩ := walks_descend walks
  rw [whole]
  exact ⟨leads, descends distinct⟩

theorem walks_unique (distinct : root.DistinctKeys) (once : root.ids.Nodup) {visit visit' : Visit}
    (walks : Walks r ⟨[], schema, root⟩ visit) (walks' : Walks r ⟨[], schema, root⟩ visit')
    (same : visit.node.id = visit'.node.id) : visit = visit' := by
  obtain ⟨leads, descends⟩ := descAt_of_walks distinct walks
  obtain ⟨leads', descends'⟩ := descAt_of_walks distinct walks'
  obtain ⟨path, node⟩ := Node.leads_unique once leads leads' same
  rw [path, descends'] at descends
  obtain ⟨path, desc, node⟩ := visit
  cases descends
  cases path
  rfl

theorem enters_unique {visit : Visit} {terminal terminal' : Terminal}
    (enters : Enters r visit terminal) (enters' : Enters r visit terminal') :
    terminal = terminal' := by
  obtain ⟨⟨problems, settled⟩, -⟩ := enters
  obtain ⟨⟨problems', settled'⟩, -⟩ := enters'
  cases settled.symm.trans settled'
  rfl

theorem select_of_enters {visit : Visit} {terminal : Terminal}
    (enters : Enters r visit terminal) (solid : visit.node.isAlias = false) :
    r.select visit.path visit.desc (some visit.node) = .ok (some terminal) := by
  obtain ⟨⟨problems, settled⟩, fits | isAlias⟩ := enters
  · exact settle_select settled fits
  · rw [solid] at isAlias
    cases isAlias

theorem walks_concat {first next last : Visit} (walks : Walks r first next)
    (step : Step r next last) : Walks r first last := by
  induction walks with
  | here => exact .step step .here
  | step first _ ih => exact .step first (ih step)

/-- A path of the tree leads through the schema where the validation goes, or stops before. -/
theorem descend_of_leads {first : Visit} {above back : Path} {desc : Desc} {outer node : Node}
    (straight : ∀ visit, Walks r first visit → ¬ Circular (r.Offers visit.path) visit.desc)
    (leads : outer.Leads back node) (walks : Walks r first ⟨above, desc, outer⟩)
    (held : Option Node) :
    ∃ found, r.descend above desc held back = .ok found ∧
      ∀ inner child, found = some (inner, child) → Walks r first ⟨above ++ back, inner, node⟩ := by
  induction leads generalizing above desc held with
  | here =>
      refine ⟨some (desc, held), rfl, fun inner child same => ?_⟩
      cases same
      rwa [List.append_nil]
  | @pair info anchor flow pairs key value path node member _ ih =>
      rw [Resolution.descend, Resolution.segmentShape]
      rcases chosen : r.selectShape above desc .mapping with endless | _ | terminal
      · exact absurd (Resolution.selectShape_eq_error_iff.mp chosen) (straight _ walks)
      · exact ⟨none, rfl, fun inner child nothing => by cases nothing⟩
      · obtain ⟨problems, settled⟩ : ∃ problems,
            settle r above desc (.map info anchor flow pairs) = .ok (some terminal, problems) :=
          settle_of_selectShape chosen
        cases terminal with
        | mapping about fields =>
            rw [ok_bind]
            rcases known : fields.desc? key.keyText with _ | inner
            · simp only [Resolution.enter, known]
              exact ⟨none, rfl, fun inner child nothing => by cases nothing⟩
            · simp only [Resolution.enter, known, Option.map_some]
              rw [List.append_cons above _ path]
              exact ih (walks_concat walks (.pair settled member known)) _
        | scalar about choices | sequence about items =>
            exact ⟨none, rfl, fun inner child nothing => by cases nothing⟩
  | @item info anchor flow items position item path node member _ ih =>
      rw [Resolution.descend, Resolution.segmentShape]
      rcases chosen : r.selectShape above desc .sequence with endless | _ | terminal
      · exact absurd (Resolution.selectShape_eq_error_iff.mp chosen) (straight _ walks)
      · exact ⟨none, rfl, fun inner child nothing => by cases nothing⟩
      · obtain ⟨problems, settled⟩ : ∃ problems,
            settle r above desc (.sequence info anchor flow items) = .ok (some terminal, problems) :=
          settle_of_selectShape chosen
        cases terminal with
        | sequence about inner =>
            rw [ok_bind, List.append_cons above _ path]
            exact ih (walks_concat walks (.item settled member)) _
        | scalar about choices | mapping about fields =>
            exact ⟨none, rfl, fun inner child nothing => by cases nothing⟩

theorem selectAt_of_leads (straight : Straight r schema (some root)) {path : Path} {node : Node}
    (leads : root.Leads path node) (held : Option Node) :
    ∃ chosen, r.selectAt (some root) schema path held = .ok chosen := by
  obtain ⟨found, descended, within⟩ :=
    descend_of_leads (fun visit => straight root visit rfl) leads .here (some root)
  rw [Resolution.selectAt, Resolution.descAt, descended, ok_bind]
  rcases found with _ | ⟨inner, child⟩
  · exact ⟨none, rfl⟩
  · rcases chosen : r.select path inner held with endless | terminal
    · exact absurd (Resolution.selectShape_eq_error_iff.mp chosen)
        (straight root _ rfl (within inner child rfl))
    · exact ⟨terminal, chosen⟩

variable (run : validate r schema (some root) = .ok findings)

include run

theorem get?_eq_some {node : Node} {terminal : Terminal}
    (found : findings.entries.get? node = some terminal) :
    ∃ visit, Walks r ⟨[], schema, root⟩ visit ∧ visit.node.id = node.id ∧
      Enters r visit terminal := by
  obtain ⟨entry, first, same⟩ := Option.map_eq_some_iff.mp found
  obtain ⟨visit, walks, held, enters⟩ :=
    (mem_validate run ..).mp (List.mem_of_find?_eq_some first)
  have number := List.find?_some first
  rw [decide_eq_true_eq, held] at number
  rw [same] at enters
  exact ⟨visit, walks, number, enters⟩

theorem get?_of_enters (distinct : root.DistinctKeys) (once : root.ids.Nodup) {visit : Visit}
    {terminal : Terminal} (walks : Walks r ⟨[], schema, root⟩ visit)
    (enters : Enters r visit terminal) : findings.entries.get? visit.node = some terminal := by
  rcases found : findings.entries.get? visit.node with _ | terminal'
  · have missing := Option.map_eq_none_iff.mp found
    have member := (mem_validate run visit.node terminal).mpr ⟨visit, walks, rfl, enters⟩
    exact absurd (List.find?_eq_none.mp missing _ member) (by simp)
  · obtain ⟨visit', walks', same, enters'⟩ := get?_eq_some run found
    cases walks_unique distinct once walks' walks same
    rw [enters_unique enters enters']

theorem selectAt_of_get? (distinct : root.DistinctKeys) (once : root.ids.Nodup) {path : Path}
    {node : Node} {terminal : Terminal} (leads : root.Leads path node)
    (solid : node.isAlias = false) (found : findings.entries.get? node = some terminal) :
    r.selectAt (some root) schema path (some node) = .ok (some terminal) := by
  obtain ⟨visit, walks, same, enters⟩ := get?_eq_some run found
  obtain ⟨leads', descends⟩ := descAt_of_walks distinct walks
  obtain ⟨rfl, rfl⟩ := Node.leads_unique once leads' leads same
  rw [Resolution.selectAt, descends, ok_bind]
  exact select_of_enters enters solid

end

end Validation

namespace Document

variable {document : Document} {contexts : ContextSource} {root : Node}

def unindexed (document : Document) : Document := { document with entries := [] }

@[simp]
theorem unindexed_root (document : Document) : document.unindexed.root = document.root := by
  rfl

@[simp]
theorem unindexed_text (document : Document) : document.unindexed.text = document.text := by
  rfl

@[simp]
theorem unindexed_holds (document : Document) : document.unindexed.holds = document.holds := by
  rfl

@[simp]
theorem unindexed_resolution (document : Document) :
    document.unindexed.resolution = document.resolution := by
  rfl

@[simp]
theorem unindexed_expressionText (document : Document) :
    Hover.expressionText document.unindexed = Hover.expressionText document := by
  rfl

def Indexed (document : Document) (contexts : ContextSource) : Prop :=
  ∃ findings, validate (document.resolution contexts) document.schema.root document.root =
    .ok findings ∧ document.entries = findings.entries

theorem terminalAt_unindexed (indexed : document.Indexed contexts)
    (held : document.root = some root) (distinct : root.DistinctKeys) (once : root.ids.Nodup)
    {path : Path} {node : Node} (leads : root.Leads path node) (solid : node.isAlias = false) :
    document.unindexed.terminalAt (document.resolution contexts) (some node) path =
      document.terminalAt (document.resolution contexts) (some node) path := by
  obtain ⟨findings, run, entries⟩ := indexed
  rw [terminalAt, terminalAt]
  simp only [Option.bind_some, entries]
  rcases found : findings.entries.get? node with _ | terminal
  · rfl
  · rw [held] at run
    have same := Validation.selectAt_of_get? run distinct once leads solid found
    rw [← held] at same
    exact same

theorem fieldsAt_unindexed (indexed : document.Indexed contexts)
    (held : document.root = some root) (distinct : root.DistinctKeys) (once : root.ids.Nodup)
    {path : Path} {node : Node} (leads : root.Leads path node) (solid : node.isAlias = false) :
    document.unindexed.fieldsAt (document.resolution contexts) (some node) path =
      document.fieldsAt (document.resolution contexts) (some node) path := by
  obtain ⟨findings, run, entries⟩ := indexed
  rw [fieldsAt, fieldsAt]
  simp only [Option.bind_some, entries]
  rcases found : findings.entries.get? node with _ | terminal
  · rfl
  · rw [held] at run
    have same := Validation.selectAt_of_get? run distinct once leads solid found
    rw [← held] at same
    have fallback := congrArg (Except.map fun chosen => chosen.bind Terminal.fields?) same
    refine Eq.trans fallback ?_
    rw [Option.bind_some]
    rcases chosen : terminal.fields? with _ | fields
    · exact fallback.symm
    · rw [Except.map, Option.bind_some, chosen]

theorem schemaText_unindexed (indexed : document.Indexed contexts)
    (held : document.root = some root) (distinct : root.DistinctKeys) (once : root.ids.Nodup)
    {location : Location} (placed : location.Placed [] root) (somewhere : location.region ≠ .empty)
    (solid : ∀ node, location.node = some node → node.isAlias = false) :
    Hover.schemaText document.unindexed (document.resolution contexts) location =
      Hover.schemaText document (document.resolution contexts) location := by
  rw [Hover.schemaText, Hover.schemaText]
  rcases region : location.region with _ | _ | _
  · obtain ⟨suffix, segment, parent, whole, same, mapping, leads⟩ := placed.2 region
    have dropped : location.path.dropLast = suffix := by
      rw [whole, List.nil_append, List.dropLast_concat]
    have key : Hover.keyText document.unindexed (document.resolution contexts) location =
        Hover.keyText document (document.resolution contexts) location := by
      rw [Hover.keyText.eq_def, Hover.keyText.eq_def, same, dropped,
        fieldsAt_unindexed indexed held distinct once leads mapping]
    rw [key]
    rfl
  · obtain ⟨suffix, node, whole, same, leads⟩ := placed.1 region
    rw [List.nil_append] at whole
    have value : Hover.valueText document.unindexed (document.resolution contexts) location =
        Hover.valueText document (document.resolution contexts) location := by
      rw [Hover.valueText, Hover.valueText, same, whole]
      simp only [terminalAt_unindexed indexed held distinct once leads (solid node same)]
    rw [value]
    rfl
  · exact absurd region somewhere

theorem hover_unindexed (indexed : document.Indexed contexts) (held : document.root = some root)
    (distinct : root.DistinctKeys) (once : root.ids.Nodup) (offset : Int)
    (solid : ∀ node, (locate document.root document.text offset).node = some node →
      node.isAlias = false) :
    document.unindexed.hover contexts offset = document.hover contexts offset := by
  have placed := Location.locate_placed root document.text offset
  rw [← held] at placed
  have same := schemaText_unindexed indexed held distinct once placed
  rw [hover, hover]
  simp only [unindexed_root, unindexed_text, unindexed_holds, unindexed_resolution,
    unindexed_expressionText]
  rcases region : (locate document.root document.text offset).region with _ | _ | _
  · rw [same (by simp [region]) solid]
  · rw [same (by simp [region]) solid]
  · rfl

theorem checkAbsent_entries (r : Resolution) (desc : Desc) :
    (Validation.checkAbsent r desc).entries = [] := by
  rw [Validation.checkAbsent]
  split <;> rfl

theorem check_none_entries {r : Resolution} {schema : Schema} {syntaxErrors : List Diagnostic}
    {findings : Findings} (checked : check r schema none syntaxErrors = .ok findings) :
    findings.entries = [] := by
  rw [check] at checked
  split at checked
  · cases checked
    rfl
  · cases checked
    exact checkAbsent_entries r schema.root

theorem ofTree_eq_ok {schema : Schema} {text : Text} {root : Option Node}
    {syntaxErrors : List Diagnostic}
    (loaded : ofTree schema contexts text root syntaxErrors = .ok document) :
    ∃ findings, check (document.resolution contexts) schema root syntaxErrors = .ok findings ∧
      document = ⟨text, workflowOf root, root, schema, findings.entries,
        syntaxErrors ++ findings.diagnostics⟩ := by
  obtain ⟨findings, checked, whole⟩ := (bind_eq_ok _ _ _).mp loaded
  cases whole
  exact ⟨findings, checked, rfl⟩

theorem exists_ofTree {schema : Schema} {text : Text} {root : Node}
    {syntaxErrors : List Diagnostic} {findings : Findings}
    (run : validate ⟨schema.definitions, workflowOf (some root), contexts⟩ schema.root (some root) =
      .ok findings) :
    ∃ document, ofTree schema contexts text (some root) syntaxErrors = .ok document := by
  have checked : check ⟨schema.definitions, workflowOf (some root), contexts⟩ schema (some root)
      syntaxErrors = .ok findings := run
  rw [ofTree, checked]
  exact ⟨_, rfl⟩

theorem ofTree_indexed {schema : Schema} {text : Text} {root : Option Node}
    {syntaxErrors : List Diagnostic}
    (loaded : ofTree schema contexts text root syntaxErrors = .ok document) :
    document.Indexed contexts := by
  obtain ⟨findings, checked, rfl⟩ := ofTree_eq_ok loaded
  cases root with
  | some root => exact ⟨findings, checked, rfl⟩
  | none =>
      -- what could not be loaded is not checked, and has no index either
      exact ⟨_, rfl, (check_none_entries checked).trans (checkAbsent_entries _ _).symm⟩

open Validation in
/-- The index has the nodes that the validation enters; for each of them but aliases the path to it
gives the same terminal description, and hover gives the same without the index. -/
theorem index_agrees_descAt (document : Document) (contexts : ContextSource) (root : Node)
    (held : document.root = some root) (indexed : document.Indexed contexts)
    (distinct : root.DistinctKeys) (once : root.ids.Nodup) :
    let r := document.resolution contexts
    let start : Visit := ⟨[], document.schema.root, root⟩
    (∀ node terminal, (node, terminal) ∈ document.entries ↔
      ∃ visit, Walks r start visit ∧ node = visit.node ∧ Enters r visit terminal) ∧
    (∀ visit terminal, Walks r start visit → Enters r visit terminal →
      visit.node.isAlias = false →
        r.descAt document.root document.schema.root visit.path =
          .ok (some (visit.desc, some visit.node)) ∧
        r.select visit.path visit.desc (some visit.node) = .ok (some terminal) ∧
        document.entries.get? visit.node = some terminal) ∧
    (∀ offset, (∀ node, (locate document.root document.text offset).node = some node →
      node.isAlias = false) →
        document.unindexed.hover contexts offset = document.hover contexts offset) := by
  intro r start
  obtain ⟨findings, run, entries⟩ := id indexed
  rw [held] at run
  refine ⟨?_, ?_, fun offset => hover_unindexed indexed held distinct once offset⟩
  · intro node terminal
    rw [entries]
    exact mem_validate run node terminal
  · intro visit terminal walks enters solid
    rw [entries, held]
    exact ⟨(descAt_of_walks distinct walks).2, select_of_enters enters solid,
      get?_of_enters run distinct once walks enters⟩

open Validation in
/-- A sequence under a key that may also hold a scalar. -/
theorem index_agrees_descAt_alternatives :
    let key : Node := .scalar ⟨1, 0, 2⟩ none (Text.of "on") (.str (Text.of "on")) none
    let item : Node := .scalar ⟨3, 5, 9⟩ none (Text.of "push") (.str (Text.of "push")) none
    let items : Node := .sequence ⟨2, 4, 10⟩ none true [item]
    let root : Node := .map ⟨0, 0, 10⟩ none false [(key, items)]
    let event : Desc := .scalar { description := some (Text.of "An event.") } {}
    let events : Desc := .oneOf {} [event, .sequence {} event]
    let schema : Schema :=
      { root := .mapping {} { properties := [{ name := Text.of "on", desc := events }] } }
    let contexts := ContextSource.fixed .undefined []
    root.DistinctKeys ∧ root.ids.Nodup ∧
      ∃ document, ofTree schema contexts (Text.of "on: [push]") (some root) [] = .ok document ∧
        (document.resolution contexts).descAt document.root schema.root
          [.key (Text.of "on"), .index 0] = .ok (some (event, some item)) ∧
        document.unindexed.hover contexts 6 = document.hover contexts 6 := by
  intro key item items root event events schema contexts
  have distinct : root.DistinctKeys := by
    refine (Node.distinctKeys_map_iff ..).mpr ⟨by decide, ?_⟩
    intro _ value member
    cases List.mem_singleton.mp member
    refine (Node.distinctKeys_sequence_iff ..).mpr ?_
    intro inner member
    cases List.mem_singleton.mp member
    exact Node.distinctKeys_scalar _ _ _ _ _
  have once : root.ids.Nodup := by decide
  obtain ⟨document, loaded⟩ : ∃ document,
      ofTree schema contexts (Text.of "on: [push]") (some root) [] = .ok document := ⟨_, rfl⟩
  have indexed := ofTree_indexed loaded
  obtain ⟨findings, -, rfl⟩ := ofTree_eq_ok loaded
  have located : (locate (some root) (Text.of "on: [push]") 6).node = some item := by rfl
  have agrees := index_agrees_descAt _ contexts root rfl indexed distinct once
  refine ⟨distinct, once, _, loaded, ?_, ?_⟩
  · have inner : Walks ⟨[], Document.workflowOf (some root), contexts⟩ ⟨[], schema.root, root⟩
        ⟨[.key (Text.of "on"), .index 0], event, item⟩ :=
      .step (.pair rfl List.mem_cons_self rfl) (.step (.item rfl rfl) .here)
    exact (agrees.2.1 _ _ inner ⟨⟨_, rfl⟩, .inl rfl⟩ rfl).1
  · refine agrees.2.2 6 ?_
    intro node same
    cases located.symm.trans same
    rfl

end Document

end Flowfile
