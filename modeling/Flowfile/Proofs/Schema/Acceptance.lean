import Flowfile.Proofs.Schema.Report
import Flowfile.Proofs.Schema.Steady

/-! What a validation has nothing against.

Whether a key or the text of a scalar is reported at a place follows from the descriptions there,
whatever else stands in the tree. -/

namespace Flowfile

namespace Validation

mutual

theorem code_of_checkExpressions (node : Node) {problem : Diagnostic}
    (member : problem ∈ checkExpressions node) : problem.code = "INVALID_EXPRESSION" := by
  cases node with
  | scalar info anchor raw value style =>
      rw [checkExpressions, checkSpans] at member
      obtain ⟨span, -, found⟩ := List.mem_filterMap.mp member
      obtain ⟨message, -, same⟩ := Option.map_eq_some_iff.mp found
      rw [← same]
  | map info anchor flow pairs =>
      rw [checkExpressions] at member
      exact code_of_checkPairs pairs member
  | sequence info anchor flow items =>
      rw [checkExpressions] at member
      exact code_of_checkItems items member
  | «alias» info name target =>
      rw [checkExpressions] at member
      cases member

theorem code_of_checkPairs (pairs : List (Node × Node)) {problem : Diagnostic}
    (member : problem ∈ checkPairs pairs) : problem.code = "INVALID_EXPRESSION" := by
  match pairs with
  | [] => cases member
  | (key, value) :: rest =>
      rw [checkPairs, List.mem_append, List.mem_append] at member
      rcases member with (inKey | inValue) | later
      · exact code_of_checkExpressions key inKey
      · exact code_of_checkExpressions value inValue
      · exact code_of_checkPairs rest later

theorem code_of_checkItems (items : List Node) {problem : Diagnostic}
    (member : problem ∈ checkItems items) : problem.code = "INVALID_EXPRESSION" := by
  match items with
  | [] => cases member
  | item :: rest =>
      rw [checkItems, List.mem_append] at member
      rcases member with inItem | later
      · exact code_of_checkExpressions item inItem
      · exact code_of_checkItems rest later

end

theorem reports_of_mem_validate {r : Resolution} {schema : Desc} {root : Node}
    {findings : Findings} (run : validate r schema (some root) = .ok findings)
    {problem : Diagnostic} (member : problem ∈ findings.diagnostics)
    (code : problem.code ∈ nodeCodes ++ keyCodes) :
    ∃ visit, Walks r ⟨[], schema, root⟩ visit ∧ Reports r visit problem := by
  obtain ⟨inner, visited, rfl⟩ := validate_eq_ok run
  rw [diagnostics_append, List.mem_append] at member
  rcases member with found | embedded
  · refine (mem_diagnostics_iff_walks visited problem ?_).mp found
    intro missing
    simp [missing, nodeCodes, keyCodes] at code
  · simp [code_of_checkExpressions root embedded, nodeCodes, keyCodes] at code

theorem mem_options_of_settle {r : Resolution} {path : Path} {desc : Desc} {node : Node}
    {terminal : Terminal} {problems : List Diagnostic}
    (settled : settle r path desc node = .ok (some terminal, problems)) :
    ∃ options, r.options path desc = .ok options ∧ terminal ∈ options := by
  rcases settle_eq_ok settled with
    ⟨-, chosen, -⟩ | ⟨single, flattened, chosen, -⟩ | ⟨options, flattened, chosen, -⟩
  · cases chosen
  · cases chosen
    exact ⟨[terminal], flattened, List.mem_singleton_self _⟩
  · exact ⟨options, flattened, List.mem_of_find?_eq_some chosen.symm⟩

theorem fits_of_settle {r : Resolution} {path : Path} {desc : Desc} {node : Node}
    {chosen : Option Terminal} {problems : List Diagnostic} {options : List Terminal}
    {terminal : Terminal} (settled : settle r path desc node = .ok (chosen, problems))
    (flattened : r.options path desc = .ok options) (offered : terminal ∈ options)
    (fits : terminal.fits node.shape = true) :
    ∃ taken, chosen = some taken ∧ taken.fits node.shape = true := by
  rcases settle_eq_ok settled with
    ⟨same, -, -⟩ | ⟨single, same, rfl, -⟩ | ⟨options', same, rfl, -⟩
  · cases flattened.symm.trans same
    cases offered
  · cases flattened.symm.trans same
    cases List.mem_singleton.mp offered
    exact ⟨terminal, rfl, fits⟩
  · cases flattened.symm.trans same
    rcases found : options.find? (fun terminal => terminal.fits node.shape) with _ | first
    · exact absurd fits (by simpa using List.find?_eq_none.mp found terminal offered)
    · have taken := List.find?_some found
      exact ⟨first, found, taken⟩

theorem key_of_reports {r : Resolution} {visit : Visit} {problem : Diagnostic}
    (reports : Reports r visit problem) (code : problem.code ∈ keyCodes) :
    ∃ about fields problems key value,
      settle r visit.path visit.desc visit.node = .ok (some (.mapping about fields), problems) ∧
      (key, value) ∈ visit.node.pairs ∧ fields.desc? key.keyText = none ∧ problem.Marks key := by
  cases reports with
  | unmatched settled member =>
      simp [(marks_of_unmatched settled member).1, keyCodes] at code
  | @misshapen terminal =>
      cases terminal <;> simp [wrongShape, errorAt, keyCodes] at code
  | text settled scalar member => simp [(marks_of_checkText member).1, keyCodes] at code
  | @key about fields problems info anchor flow pairs key value settled map member unknown =>
      refine ⟨about, fields, problems, key, value, settled, ?_, unknown,
        (marks_rejectedKey fields key).2⟩
      rw [map]
      exact member

theorem node_of_reports {r : Resolution} {visit : Visit} {problem : Diagnostic}
    (reports : Reports r visit problem) (code : problem.code ∈ nodeCodes) :
    problem.Marks visit.node := by
  have apart : ∀ code ∈ nodeCodes, code ∉ keyCodes := by decide
  rcases marks_of_reports reports with ⟨-, marks⟩ | ⟨other, -⟩
  · exact marks
  · exact absurd other (apart _ code)

theorem checkText_eq_nil {r : Resolution} {path : Path} {choices : Choices} {text : Text}
    (node : Node) (allowed : (choices.find? text).isSome = true ∨
      ∃ values, allowedValues r path choices = some values ∧ text ∈ values) :
    checkText r path choices text node = [] := by
  rw [checkText]
  split
  · rfl
  · rename_i unknown
    simp only [Bool.or_eq_true, not_or] at unknown
    rcases allowed with literal | ⟨values, given, inside⟩
    · exact absurd literal unknown.2
    · simp [given, inside]

theorem mem_addNew_left {values : List Text} (further : List Text) {value : Text}
    (member : value ∈ values) : value ∈ addNew values further := by
  induction further generalizing values with
  | nil => exact member
  | cons first rest ih =>
      rw [addNew, List.foldl_cons]
      apply ih
      split
      · exact member
      · exact List.mem_append_left _ member

theorem mem_addNew_right (values : List Text) {further : List Text} {value : Text}
    (member : value ∈ further) : value ∈ addNew values further := by
  induction further generalizing values with
  | nil => cases member
  | cons first rest ih =>
      rw [addNew, List.foldl_cons]
      rcases List.mem_cons.mp member with rfl | later
      · apply mem_addNew_left
        split
        · rename_i known
          simpa using known
        · simp
      · exact ih _ later

def Unmixed (options : List Terminal) : Prop :=
  options.countP (fun terminal => terminal.shape = .scalar) ≤ 1 ∧
    options.countP (fun terminal => terminal.shape = .mapping) ≤ 1

theorem eq_of_countP_le_one {α : Type} {p : α → Bool} {xs : List α} (few : xs.countP p ≤ 1)
    {x y : α} (first : x ∈ xs) (second : y ∈ xs) (holds : p x = true) (holds' : p y = true) :
    x = y := by
  rw [List.countP_eq_length_filter] at few
  have kept := List.mem_filter.mpr ⟨first, holds⟩
  have kept' := List.mem_filter.mpr ⟨second, holds'⟩
  generalize xs.filter p = left at few kept kept'
  match left with
  | [] => cases kept
  | [only] => rw [List.mem_singleton.mp kept, List.mem_singleton.mp kept']
  | first :: second :: rest => simp at few

def AcceptsKey (r : Resolution) (schema : Desc) (path : Path) (key : Text) : Prop :=
  ∀ desc options about fields, r.descOf? schema path = .ok (some desc) →
    r.options path desc = .ok options → .mapping about fields ∈ options → fields.desc? key ≠ none

def AcceptsText (r : Resolution) (schema : Desc) (path : Path) (text : Text) : Prop :=
  ∀ desc options, r.descOf? schema path = .ok (some desc) → r.options path desc = .ok options →
    (∃ terminal ∈ options, terminal.shape = .scalar) ∧
    ∀ about choices, .scalar about choices ∈ options →
      (choices.find? text).isSome = true ∨
        ∃ allowed, allowedValues r path choices = some allowed ∧ text ∈ allowed

/-- Whatever is reported about a key is about another one than that of the mapping at the place. -/
def SparesKey (root : Node) (problems : List Diagnostic) (place : Path) (name : Text) : Prop :=
  ∀ problem ∈ problems, problem.code ∈ keyCodes →
    ∃ path parent key value, root.Leads path parent ∧ (key, value) ∈ parent.pairs ∧
      problem.Marks key ∧ ¬(path = place ∧ key.keyText = name)

def SparesText (root : Node) (problems : List Diagnostic) (place : Path) (text : Text) : Prop :=
  ∀ problem ∈ problems, problem.code ∈ nodeCodes →
    ∃ path node, root.Leads path node ∧ problem.Marks node ∧
      ¬(path = place ∧ node.isEmpty = false ∧ ∃ info anchor value style,
        node = .scalar info anchor text value style)

section

variable {r : Resolution} {schema : Desc} {workflow : Value} {root : Node} {place : Path}

theorem allowedValues_withWorkflow (static : r.contexts.Static) (workflow : Value) (path : Path)
    (choices : Choices) :
    allowedValues (r.withWorkflow workflow) path choices = allowedValues r path choices := by
  have context : (r.withWorkflow workflow).contextAt path = r.contextAt path := static ..
  rw [allowedValues, allowedValues, context]

variable (steady : schema.Steady)
  (definitions : ∀ name desc, (name, desc) ∈ r.definitions → desc.Steady)
  (static : r.contexts.Static)

include steady definitions static

theorem options_of_walks {visit : Visit}
    (walks : Walks (r.withWorkflow workflow) ⟨[], schema, root⟩ visit) :
    (r.withWorkflow workflow).options visit.path visit.desc = r.options visit.path visit.desc := by
  have described := descOf?_of_walks steady definitions static walks
  have held := Resolution.throughout_descOf? definitions steady described
  exact Resolution.options_withWorkflow definitions static workflow held

theorem straight_of_ends (ends : r.Ends schema) (workflow : Value) (root : Option Node) :
    Straight (r.withWorkflow workflow) schema root := by
  intro node visit same walks
  obtain ⟨options, flattened⟩ :=
    ends visit.path visit.desc (descOf?_of_walks steady definitions static walks)
  rw [← options_of_walks steady definitions static walks] at flattened
  exact Resolution.straight_of_options flattened

theorem sparesKey_of_accepts {findings : Findings} {name : Text}
    (run : validate (r.withWorkflow workflow) schema (some root) = .ok findings)
    (accepts : AcceptsKey r schema place name) :
    SparesKey root findings.diagnostics place name := by
  intro problem member code
  obtain ⟨visit, walks, reports⟩ :=
    reports_of_mem_validate run member (List.mem_append_right _ code)
  obtain ⟨about, fields, problems, key, value, settled, inside, unknown, marks⟩ :=
    key_of_reports reports code
  refine ⟨visit.path, visit.node, key, value, leads_of_walks walks, inside, marks, ?_⟩
  intro here
  obtain ⟨same, rfl⟩ := here
  have described := descOf?_of_walks steady definitions static walks
  obtain ⟨options, flattened, offered⟩ := mem_options_of_settle settled
  rw [options_of_walks steady definitions static walks] at flattened
  rw [same] at described flattened
  exact accepts visit.desc options about fields described flattened offered unknown

theorem sparesText_of_accepts {findings : Findings} {text : Text}
    (run : validate (r.withWorkflow workflow) schema (some root) = .ok findings)
    (accepts : AcceptsText r schema place text) :
    SparesText root findings.diagnostics place text := by
  intro problem member code
  obtain ⟨visit, walks, reports⟩ :=
    reports_of_mem_validate run member (List.mem_append_left _ code)
  refine ⟨visit.path, visit.node, leads_of_walks walks, node_of_reports reports code, ?_⟩
  intro here
  obtain ⟨rfl, solid, info, anchor, value, style, same⟩ := here
  have described := descOf?_of_walks steady definitions static walks
  have shape : visit.node.shape = .scalar := by
    rw [same] at solid ⊢
    simp [Node.shape, Node.unalias, solid]
  have straight := (validate_ends_iff ..).mp ⟨findings, run⟩ root visit rfl walks
  obtain ⟨options, flattened⟩ := Resolution.exists_options straight
  have flattened' := flattened
  rw [options_of_walks steady definitions static walks] at flattened'
  obtain ⟨⟨terminal, offered, scalar⟩, allowed⟩ :=
    accepts visit.desc options described flattened'
  have fits : terminal.fits visit.node.shape = true := by simp [Terminal.fits, scalar, shape]
  cases reports with
  | unmatched settled member =>
      obtain ⟨taken, chosen, -⟩ := fits_of_settle settled flattened offered fits
      cases chosen
  | misshapen settled unfit =>
      obtain ⟨taken, chosen, taking⟩ := fits_of_settle settled flattened offered fits
      cases chosen
      rw [unfit] at taking
      cases taking
  | @text about choices problems info' anchor' raw value' style' problem settled scalar' member =>
      rw [same] at scalar'
      cases scalar'
      obtain ⟨options', same', held⟩ := mem_options_of_settle settled
      cases flattened.symm.trans same'
      have known := allowed about choices held
      rw [← allowedValues_withWorkflow static workflow] at known
      rw [checkText_eq_nil visit.node known] at member
      cases member
  | key settled map =>
      rw [same] at map
      cases map

end

end Validation

end Flowfile
