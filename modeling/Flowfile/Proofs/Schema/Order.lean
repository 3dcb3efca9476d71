import Flowfile.Proofs.Schema.Acceptance
import Flowfile.Proofs.Schema.Index

/-! The order of the pairs of mappings.

What a validation finds at one pair of a mapping does not depend on the others, so their order
changes nothing but that of the findings. Keys that are missing are told from the set of keys. -/

namespace Flowfile

/-- Trees that differ in the order of the pairs of mappings only. All nodes keep their numbers and
their spans. -/
inductive Node.Reordered : Node → Node → Prop
  | refl (node : Node) : Reordered node node
  | trans {first second third} (front : Reordered first second) (back : Reordered second third) :
      Reordered first third
  | pairs {info anchor flow pairs pairs'} (order : pairs.Perm pairs') :
      Reordered (.map info anchor flow pairs) (.map info anchor flow pairs')
  | key {info anchor flow before key key' value after} (inner : Reordered key key') :
      Reordered (.map info anchor flow (before ++ (key, value) :: after))
        (.map info anchor flow (before ++ (key', value) :: after))
  | value {info anchor flow before key value value' after} (inner : Reordered value value') :
      Reordered (.map info anchor flow (before ++ (key, value) :: after))
        (.map info anchor flow (before ++ (key, value') :: after))
  | item {info anchor flow before item item' after} (inner : Reordered item item') :
      Reordered (.sequence info anchor flow (before ++ item :: after))
        (.sequence info anchor flow (before ++ item' :: after))
  | target {info name target target'} (inner : Reordered target target') :
      Reordered (.alias info name target) (.alias info name target')

namespace Node.Reordered

variable {node node' : Node}

theorem info (reordered : Reordered node node') : node.info = node'.info := by
  induction reordered with
  | trans _ _ first second => exact first.trans second
  | _ => rfl

theorem keyText (reordered : Reordered node node') : node.keyText = node'.keyText := by
  induction reordered with
  | trans _ _ first second => exact first.trans second
  | _ => rfl

theorem shape (reordered : Reordered node node') : node.shape = node'.shape := by
  induction reordered with
  | trans _ _ first second => exact first.trans second
  | target _ same => exact same
  | _ => rfl

end Node.Reordered

def NodeIndex.places (entries : NodeIndex) : List (NodeInfo × Terminal) :=
  entries.map fun entry => (entry.1.info, entry.2)

namespace Findings

structure Same (first second : Findings) : Prop where
  diagnostics : first.diagnostics.Perm second.diagnostics
  entries : first.entries.places.Perm second.entries.places

namespace Same

theorem refl (findings : Findings) : Same findings findings := ⟨.refl _, .refl _⟩

theorem trans {first second third : Findings} (front : Same first second)
    (back : Same second third) : Same first third :=
  ⟨front.diagnostics.trans back.diagnostics, front.entries.trans back.entries⟩

theorem append {first first' second second' : Findings} (front : Same first first')
    (back : Same second second') : Same (first ++ second) (first' ++ second') := by
  refine ⟨front.diagnostics.append back.diagnostics, ?_⟩
  simp only [Validation.entries_append, NodeIndex.places, List.map_append]
  exact front.entries.append back.entries

theorem exchange (first second rest : Findings) :
    Same (first ++ (second ++ rest)) (second ++ (first ++ rest)) := by
  refine ⟨List.perm_append_comm_assoc _ _ _, ?_⟩
  simp only [Validation.entries_append, NodeIndex.places, List.map_append]
  exact List.perm_append_comm_assoc _ _ _

theorem enter {node node' : Node} (same : node.info = node'.info) (terminal : Terminal) :
    Same (.enter node terminal) (.enter node' terminal) := by
  refine ⟨.refl _, ?_⟩
  simp only [Validation.entries_enter, NodeIndex.places, List.map_cons, List.map_nil, same]
  exact .refl _

end Same

inductive Alike : Except Endless Findings → Except Endless Findings → Prop
  | fails (endless : Endless) : Alike (.error endless) (.error endless)
  | finds {first second : Findings} (same : Same first second) : Alike (.ok first) (.ok second)

namespace Alike

theorem refl (outcome : Except Endless Findings) : Alike outcome outcome := by
  cases outcome with
  | error endless => exact .fails endless
  | ok findings => exact .finds (.refl findings)

theorem trans {first second third : Except Endless Findings} (front : Alike first second)
    (back : Alike second third) : Alike first third := by
  cases front with
  | fails endless => exact back
  | finds same =>
      cases back with
      | finds same' => exact .finds (same.trans same')

theorem append {first first' second second' : Except Endless Findings} (front : Alike first first')
    (back : Alike second second') :
    Alike (do let here ← first; return here ++ (← second))
      (do let here ← first'; return here ++ (← second')) := by
  cases front with
  | fails endless => exact .fails endless
  | finds same =>
      cases back with
      | fails endless => exact .fails endless
      | finds same' => exact .finds (same.append same')

theorem eq_error_iff {first second : Except Endless Findings} (alike : Alike first second)
    (endless : Endless) : first = .error endless ↔ second = .error endless := by
  cases alike with
  | fails failed => rfl
  | finds same => exact iff_of_false (fun failed => by cases failed) fun failed => by cases failed

theorem same {first second : Findings} (alike : Alike (.ok first) (.ok second)) :
    Same first second := by
  cases alike with
  | finds same => exact same

theorem before {first first' : Except Endless Findings} {rest rest' : Findings}
    (front : Alike first first') (back : Same rest rest') :
    Alike (do let found ← first; return found ++ rest)
      (do let found ← first'; return found ++ rest') := by
  cases front with
  | fails endless => exact .fails endless
  | finds same => exact .finds (same.append back)

theorem after {first first' : Findings} {rest rest' : Except Endless Findings}
    (front : Same first first') (back : Alike rest rest') :
    Alike (do let inner ← rest; return first ++ inner)
      (do let inner ← rest'; return first' ++ inner) := by
  cases back with
  | fails endless => exact .fails endless
  | finds same => exact .finds (front.append same)

theorem exchange (first second rest : Except Endless Findings) :
    Alike (do let here ← first; return here ++ (← (do let next ← second; return next ++ (← rest))))
      (do let here ← second; return here ++ (← (do let next ← first; return next ++ (← rest)))) := by
  rcases first with ⟨⟨⟩⟩ | first
  all_goals rcases second with ⟨⟨⟩⟩ | second
  all_goals rcases rest with ⟨⟨⟩⟩ | rest
  all_goals first
    | exact .fails .alternatives
    | exact .finds (.exchange first second rest)

end Alike

end Findings

namespace Validation

open Findings (Same Alike)

section

variable (r : Resolution) (path : Path)

theorem errorAt_congr {node node' : Node} (same : node.info = node'.info) (code : String)
    (message : Text) : errorAt node code message = errorAt node' code message := by
  rw [errorAt, errorAt, Node.start, Node.stop, same, Node.start, Node.stop]

theorem settle_congr {node node' : Node} (place : node.info = node'.info)
    (shape : node.shape = node'.shape) (desc : Desc) :
    settle r path desc node = settle r path desc node' := by
  rw [settle.eq_def, settle.eq_def r path desc node']
  simp only [noMatchingShape, shape, errorAt_congr place]

theorem wrongShape_congr {node node' : Node} (place : node.info = node'.info)
    (terminal : Terminal) : wrongShape terminal path node = wrongShape terminal path node' :=
  errorAt_congr place _ _

theorem rejectedKey_congr {key key' : Node} (place : key.info = key'.info)
    (text : key.keyText = key'.keyText) (fields : Fields Desc) :
    rejectedKey fields key = rejectedKey fields key' := by
  simp only [rejectedKey, invalidKey, unknownKey, text, errorAt_congr place]

theorem missingKeys_congr {present present' : List Text}
    (same : ∀ name, name ∈ present ↔ name ∈ present') (fields : Fields Desc) (start stop : Nat) :
    missingKeys fields present start stop = missingKeys fields present' start stop := by
  have absent (name : Text) : (!present.contains name) = !present'.contains name := by
    simp only [List.contains_eq_mem, same]
  simp only [missingKeys, absent]

/-- Of the key above a node only the place is used. -/
theorem visit_key_congr {key key' : Node} (place : key.info = key'.info) (desc : Desc)
    (node : Node) : visit r path (some key) desc node = visit r path (some key') desc node := by
  cases node with
  | «alias» info name target => rw [visit, visit]
  | map info anchor flow pairs => rw [visit, visit]
  | sequence info anchor flow items => rw [visit, visit]
  | scalar info anchor raw value style =>
      rw [visit, visit]
      simp only [checkScalar, Option.getD_some, Node.start, Node.stop, place]

theorem visitPairs_perm {pairs pairs' : List (Node × Node)} (order : pairs.Perm pairs')
    (fields : Fields Desc) :
    Alike (visitPairs r path fields pairs) (visitPairs r path fields pairs') := by
  induction order with
  | nil => exact .refl _
  | cons pair _ ih =>
      rw [visitPairs, visitPairs]
      exact .append (.refl _) ih
  | swap pair pair' rest =>
      rw [visitPairs, visitPairs, visitPairs, visitPairs]
      exact .exchange _ _ _
  | trans _ _ first second => exact first.trans second

theorem visitPairs_replace {fields : Fields Desc} {pair pair' : Node × Node}
    (same : ∀ after, Alike (visitPairs r path fields (pair :: after))
      (visitPairs r path fields (pair' :: after)))
    (before after : List (Node × Node)) :
    Alike (visitPairs r path fields (before ++ pair :: after))
      (visitPairs r path fields (before ++ pair' :: after)) := by
  induction before with
  | nil => exact same after
  | cons first before ih =>
      rw [List.cons_append, List.cons_append, visitPairs, visitPairs]
      exact .append (.refl _) ih

theorem visitItems_replace {desc : Desc} {item item' : Node}
    (same : ∀ path, Alike (visit r path none desc item) (visit r path none desc item'))
    (before after : List Node) (position : Nat) :
    Alike (visitItems r path desc position (before ++ item :: after))
      (visitItems r path desc position (before ++ item' :: after)) := by
  induction before generalizing position with
  | nil =>
      rw [List.nil_append, List.nil_append, visitItems, visitItems]
      exact .append (same _) (.refl _)
  | cons first before ih =>
      rw [List.cons_append, List.cons_append, visitItems, visitItems]
      exact .append (.refl _) (ih _)

theorem visit_map_alike {info : NodeInfo} {anchor : Option Text} {flow : Bool}
    {pairs pairs' : List (Node × Node)}
    (keys : ∀ name, name ∈ (Node.map info anchor flow pairs).keys ↔
      name ∈ (Node.map info anchor flow pairs').keys)
    (inner : ∀ fields, Alike (visitPairs r path fields pairs) (visitPairs r path fields pairs'))
    (key : Option Node) (desc : Desc) :
    Alike (visit r path key desc (.map info anchor flow pairs))
      (visit r path key desc (.map info anchor flow pairs')) := by
  have place : (Node.map info anchor flow pairs).info = (Node.map info anchor flow pairs').info :=
    rfl
  rw [visit, visit, settle_congr r path place rfl desc]
  rcases settle r path desc (.map info anchor flow pairs') with endless | ⟨_ | terminal, problems⟩
  · exact .refl _
  · exact .refl _
  · rw [ok_bind, ok_bind]
    cases terminal with
    | mapping about fields =>
        dsimp only
        rw [missingKeys_congr keys]
        exact .after (.append (.enter place _) (.refl _)) (inner _)
    | scalar about choices | sequence about items =>
        dsimp only
        rw [wrongShape_congr path place]
        exact .refl _

theorem visit_sequence_alike {info : NodeInfo} {anchor : Option Text} {flow : Bool}
    {items items' : List Node}
    (inner : ∀ desc, Alike (visitItems r path desc 0 items) (visitItems r path desc 0 items'))
    (key : Option Node) (desc : Desc) :
    Alike (visit r path key desc (.sequence info anchor flow items))
      (visit r path key desc (.sequence info anchor flow items')) := by
  have place : (Node.sequence info anchor flow items).info =
      (Node.sequence info anchor flow items').info := rfl
  rw [visit, visit, settle_congr r path place rfl desc]
  rcases settle r path desc (.sequence info anchor flow items') with
    endless | ⟨_ | terminal, problems⟩
  · exact .refl _
  · exact .refl _
  · rw [ok_bind, ok_bind]
    cases terminal with
    | sequence about element => exact .after (.enter place _) (inner _)
    | scalar about choices | mapping about fields =>
        dsimp only
        rw [wrongShape_congr path place]
        exact .refl _

theorem mem_keys_replace {info : NodeInfo} {anchor : Option Text} {flow : Bool}
    {pair pair' : Node × Node} (same : pair.1.keyText = pair'.1.keyText)
    (before after : List (Node × Node)) (name : Text) :
    name ∈ (Node.map info anchor flow (before ++ pair :: after)).keys ↔
      name ∈ (Node.map info anchor flow (before ++ pair' :: after)).keys := by
  simp only [Node.keys, Node.pairs, List.map_append, List.map_cons, same]

end

theorem visit_reordered (r : Resolution) {node node' : Node} (reordered : node.Reordered node')
    (path : Path) (key : Option Node) (desc : Desc) :
    Alike (visit r path key desc node) (visit r path key desc node') := by
  -- the relation changes one place at a time, so each case is about one pair or one item
  induction reordered generalizing path key desc with
  | refl node => exact .refl _
  | trans _ _ first second => exact (first path key desc).trans (second path key desc)
  | pairs order =>
      refine visit_map_alike r path (fun name => ?_) (visitPairs_perm r path order) key desc
      exact (order.map fun pair => pair.1.keyText).mem_iff
  | @key _ _ _ before key key' value after inner ih =>
      refine visit_map_alike r path (mem_keys_replace inner.keyText before after)
        (fun fields => visitPairs_replace r path (fun rest => ?_) before after) _ desc
      rw [visitPairs, visitPairs, inner.keyText, rejectedKey_congr inner.info inner.keyText]
      simp only [visit_key_congr r _ inner.info]
      exact .refl _
  | @value _ _ _ before name value value' after inner ih =>
      have same : (name, value).1.keyText = (name, value').1.keyText := rfl
      refine visit_map_alike r path (mem_keys_replace same before after)
        (fun fields => visitPairs_replace r path (fun rest => ?_) before after) _ desc
      rw [visitPairs, visitPairs]
      refine .append ?_ (.refl _)
      split
      · exact ih _ _ _
      · exact .refl _
  | item inner ih =>
      refine visit_sequence_alike r path (fun desc => ?_) key desc
      exact visitItems_replace r path (fun path => ih path none desc) _ _ 0
  | @target info name target target' inner ih =>
      have place : (Node.alias info name target).info = (Node.alias info name target').info := rfl
      have whole : (Node.alias info name target).Reordered (.alias info name target') :=
        .target inner
      rw [visit, visit, settle_congr r path place whole.shape desc]
      rcases settle r path desc (.alias info name target') with endless | ⟨_ | terminal, problems⟩
      · exact .refl _
      · exact .refl _
      · exact .finds (.enter place terminal)

theorem checkPairs_perm {pairs pairs' : List (Node × Node)} (order : pairs.Perm pairs') :
    (checkPairs pairs).Perm (checkPairs pairs') := by
  induction order with
  | nil => exact .refl _
  | cons pair _ ih =>
      rw [checkPairs, checkPairs]
      exact .append (.refl _) ih
  | swap pair pair' rest =>
      rw [checkPairs, checkPairs, checkPairs, checkPairs]
      exact List.perm_append_comm_assoc _ _ _
  | trans _ _ first second => exact first.trans second

theorem checkPairs_append (before after : List (Node × Node)) :
    checkPairs (before ++ after) = checkPairs before ++ checkPairs after := by
  induction before with
  | nil => rfl
  | cons first before ih =>
      rw [List.cons_append, checkPairs, checkPairs, ih, List.append_assoc _ (checkPairs before)]

theorem checkItems_append (before after : List Node) :
    checkItems (before ++ after) = checkItems before ++ checkItems after := by
  induction before with
  | nil => rfl
  | cons first before ih => rw [List.cons_append, checkItems, checkItems, ih, List.append_assoc]

theorem checkExpressions_reordered {node node' : Node} (reordered : node.Reordered node') :
    (checkExpressions node).Perm (checkExpressions node') := by
  induction reordered with
  | refl node => exact .refl _
  | trans _ _ first second => exact first.trans second
  | pairs order =>
      rw [checkExpressions, checkExpressions]
      exact checkPairs_perm order
  | key _ same | value _ same =>
      rw [checkExpressions, checkExpressions, checkPairs_append, checkPairs_append, checkPairs,
        checkPairs]
      simp only [List.perm_append_left_iff, List.perm_append_right_iff, same]
  | item _ same =>
      rw [checkExpressions, checkExpressions, checkItems_append, checkItems_append, checkItems,
        checkItems]
      simp only [List.perm_append_left_iff, List.perm_append_right_iff, same]
  | target inner ih =>
      rw [checkExpressions, checkExpressions]

section

variable {r : Resolution} (static : r.contexts.Static) (workflow : Value)

include static

theorem checkScalar_withWorkflow (path : Path) (key : Option Node) (terminal : Terminal)
    (text : Text) (node : Node) :
    checkScalar (r.withWorkflow workflow) path key terminal text node =
      checkScalar r path key terminal text node := by
  cases terminal with
  | scalar about choices =>
      simp only [checkScalar, checkText, allowedValues_withWorkflow static workflow]
  | mapping | sequence => rfl

variable (definitions : ∀ name desc, (name, desc) ∈ r.definitions → desc.Steady)

include definitions

theorem settle_withWorkflow {desc : Desc} (steady : desc.Steady) (path : Path) (node : Node) :
    settle (r.withWorkflow workflow) path desc node = settle r path desc node := by
  rw [settle.eq_def, settle.eq_def r,
    Resolution.concrete_withWorkflow definitions static workflow steady]
  split
  · rfl
  · rfl
  · rename_i about alternatives head
    have held : (Desc.oneOf about alternatives).Steady :=
      Resolution.throughout_concreteWithin definitions steady head
    rw [Resolution.options_withWorkflow definitions static workflow held]

omit static in
theorem steady_of_settle {desc : Desc} {path : Path} {node : Node} {terminal : Terminal}
    {problems : List Diagnostic} (steady : desc.Steady)
    (settled : settle r path desc node = .ok (some terminal, problems)) :
    terminal.toDesc.Steady := by
  obtain ⟨options, flattened, offered⟩ := mem_options_of_settle settled
  exact Resolution.throughout_of_mem_options definitions steady flattened offered

end

mutual

theorem visit_withWorkflow {r : Resolution} (static : r.contexts.Static) (workflow : Value)
    (definitions : ∀ name desc, (name, desc) ∈ r.definitions → desc.Steady) (node : Node)
    {desc : Desc} (steady : desc.Steady) (path : Path) (key : Option Node) :
    visit (r.withWorkflow workflow) path key desc node = visit r path key desc node := by
  have settled := settle_withWorkflow static workflow definitions steady path node
  cases node with
  | «alias» info name target => rw [visit, visit, settled]
  | scalar info anchor raw value style =>
      rw [visit, visit, settled]
      simp only [checkScalar_withWorkflow static workflow]
  | map info anchor flow pairs =>
      rw [visit, visit, settled]
      rcases chosen : settle r path desc (.map info anchor flow pairs) with
        endless | ⟨_ | terminal, problems⟩
      · rfl
      · rfl
      · have held := steady_of_settle definitions steady chosen
        rw [ok_bind, ok_bind]
        cases terminal with
        | mapping about fields =>
            dsimp only
            rw [visitPairs_withWorkflow static workflow definitions pairs held path]
        | scalar about choices | sequence about items => rfl
  | sequence info anchor flow items =>
      rw [visit, visit, settled]
      rcases chosen : settle r path desc (.sequence info anchor flow items) with
        endless | ⟨_ | terminal, problems⟩
      · rfl
      · rfl
      · have held := steady_of_settle definitions steady chosen
        rw [ok_bind, ok_bind]
        cases terminal with
        | sequence about element =>
            dsimp only
            cases held with
            | sequence _ each =>
                rw [visitItems_withWorkflow static workflow definitions items each path 0]
        | scalar about choices | mapping about fields => rfl

theorem visitPairs_withWorkflow {r : Resolution} (static : r.contexts.Static) (workflow : Value)
    (definitions : ∀ name desc, (name, desc) ∈ r.definitions → desc.Steady)
    (pairs : List (Node × Node)) {about : About} {fields : Fields Desc}
    (steady : (Desc.mapping about fields).Steady) (path : Path) :
    visitPairs (r.withWorkflow workflow) path fields pairs = visitPairs r path fields pairs := by
  match pairs with
  | [] => rfl
  | (key, value) :: rest =>
      rw [visitPairs, visitPairs,
        visitPairs_withWorkflow static workflow definitions rest steady path]
      rcases known : fields.desc? key.keyText with _ | desc
      · rfl
      · have held : desc.Steady := by
          cases steady with
          | mapping _ properties fallback =>
              rcases Fields.desc?_eq_some known with ⟨property, declared, rfl⟩ | spare
              · exact properties property declared
              · exact fallback _ spare
        simp only [visit_withWorkflow static workflow definitions value held]

theorem visitItems_withWorkflow {r : Resolution} (static : r.contexts.Static) (workflow : Value)
    (definitions : ∀ name desc, (name, desc) ∈ r.definitions → desc.Steady) (items : List Node)
    {desc : Desc} (steady : desc.Steady) (path : Path) (position : Nat) :
    visitItems (r.withWorkflow workflow) path desc position items =
      visitItems r path desc position items := by
  match items with
  | [] => rfl
  | item :: rest =>
      rw [visitItems, visitItems, visit_withWorkflow static workflow definitions item steady,
        visitItems_withWorkflow static workflow definitions rest steady path]

end

end Validation

namespace NodeIndex

def Single (entries : NodeIndex) : Prop :=
  ∀ info info' terminal terminal', (info, terminal) ∈ entries.places →
    (info', terminal') ∈ entries.places → info.id = info'.id → terminal = terminal'

theorem place_of_find? {entries : NodeIndex} {node : Node} {entry : Node × Terminal}
    (first : entries.find? (fun entry => entry.1.id = node.id) = some entry) :
    (entry.1.info, entry.2) ∈ entries.places ∧ entry.1.id = node.id := by
  have number := List.find?_some first
  rw [decide_eq_true_eq] at number
  exact ⟨List.mem_map.mpr ⟨entry, List.mem_of_find?_eq_some first, rfl⟩, number⟩

theorem get?_eq_some_iff {entries : NodeIndex} (single : entries.Single) (node : Node)
    (terminal : Terminal) : entries.get? node = some terminal ↔
      ∃ info, (info, terminal) ∈ entries.places ∧ info.id = node.id := by
  constructor
  · intro found
    obtain ⟨entry, first, rfl⟩ := Option.map_eq_some_iff.mp found
    exact ⟨entry.1.info, place_of_find? first⟩
  · rintro ⟨info, member, number⟩
    obtain ⟨held, inside, same⟩ := List.mem_map.mp member
    rcases first : entries.find? (fun entry => entry.1.id = node.id) with _ | entry
    · cases same
      exact absurd (decide_eq_true number) (List.find?_eq_none.mp first held inside)
    · obtain ⟨place, alike⟩ := place_of_find? first
      rw [get?, first, Option.map_some, single _ _ _ _ place member (alike.trans number.symm)]

theorem get?_perm {entries entries' : NodeIndex} (single : entries.Single)
    (same : entries.places.Perm entries'.places) (node : Node) :
    entries.get? node = entries'.get? node := by
  have single' : entries'.Single := by
    intro info info' terminal terminal' member member'
    exact single _ _ _ _ (same.mem_iff.mpr member) (same.mem_iff.mpr member')
  ext terminal
  rw [get?_eq_some_iff single, get?_eq_some_iff single']
  simp only [same.mem_iff]

theorem single_of_validate {r : Resolution} {schema : Desc} {root : Node} {findings : Findings}
    (run : validate r schema (some root) = .ok findings) (distinct : root.DistinctKeys)
    (once : root.ids.Nodup) : findings.entries.Single := by
  intro info info' terminal terminal' member member' number
  obtain ⟨⟨node, entered⟩, inside, same⟩ := List.mem_map.mp member
  obtain ⟨⟨node', entered'⟩, inside', same'⟩ := List.mem_map.mp member'
  cases same
  cases same'
  obtain ⟨visit, walks, rfl, enters⟩ := (Validation.mem_validate run _ _).mp inside
  obtain ⟨visit', walks', rfl, enters'⟩ := (Validation.mem_validate run _ _).mp inside'
  cases Validation.walks_unique distinct once walks walks' number
  exact Validation.enters_unique enters enters'

end NodeIndex

namespace Validation

open Findings (Alike)

theorem validate_alike {root root' : Node} (reordered : root.Reordered root')
    {schema : Schema} (steady : schema.Steady) {contexts : ContextSource}
    (static : contexts.Static) (workflow workflow' : Value) :
    Alike (validate ⟨schema.definitions, workflow, contexts⟩ schema.root (some root))
      (validate ⟨schema.definitions, workflow', contexts⟩ schema.root (some root')) := by
  let r : Resolution := ⟨schema.definitions, workflow, contexts⟩
  have walked : visit (r.withWorkflow workflow') [] none schema.root root' =
      visit r [] none schema.root root' :=
    visit_withWorkflow static workflow' steady.definitions root' steady.root [] none
  have embedded : (Findings.report (checkExpressions root)).Same
      (.report (checkExpressions root')) := ⟨checkExpressions_reordered reordered, .refl _⟩
  change Alike
    (do let found ← visit r [] none schema.root root
        return found ++ .report (checkExpressions root))
    (do let found ← visit (r.withWorkflow workflow') [] none schema.root root'
        return found ++ .report (checkExpressions root'))
  rw [walked]
  exact .before (visit_reordered r reordered [] none schema.root) embedded

/-- Whatever the order of the pairs of mappings is, a validation reports the same problems, each as
often, and enters the same nodes with the same descriptions. It fails for both orders or for
neither. -/
theorem validate_reordered {root root' : Node} (reordered : root.Reordered root')
    {schema : Schema} (steady : schema.Steady) {contexts : ContextSource}
    (static : contexts.Static) (workflow workflow' : Value) :
    let outcome := validate ⟨schema.definitions, workflow, contexts⟩ schema.root (some root)
    let outcome' := validate ⟨schema.definitions, workflow', contexts⟩ schema.root (some root')
    (∀ endless, outcome = .error endless ↔ outcome' = .error endless) ∧
    ∀ found found', outcome = .ok found → outcome' = .ok found' →
      found.diagnostics.Perm found'.diagnostics ∧
        found.entries.places.Perm found'.entries.places ∧
        (root.DistinctKeys → root.ids.Nodup →
          ∀ node, found.entries.get? node = found'.entries.get? node) := by
  intro outcome outcome'
  have alike : Alike outcome outcome' :=
    validate_alike reordered steady static workflow workflow'
  refine ⟨alike.eq_error_iff, ?_⟩
  · intro found found' run run'
    rw [run, run'] at alike
    have same : found.Same found' := alike.same
    refine ⟨same.diagnostics, same.entries, fun distinct once => ?_⟩
    exact NodeIndex.get?_perm (NodeIndex.single_of_validate run distinct once) same.entries

/-- Two keys in both orders, one of them unknown; a required one is missing. -/
theorem validate_reordered_unknown :
    let scalar (id place : Nat) (text : String) : Node :=
      .scalar ⟨id, place, place + 1⟩ none (Text.of text) (.str (Text.of text)) none
    let first := (scalar 1 0 "a", scalar 2 3 "b")
    let second := (scalar 3 5 "c", scalar 4 8 "d")
    let root (pairs : List (Node × Node)) : Node := .map ⟨0, 0, 9⟩ none false pairs
    let schema : Schema :=
      { root := .mapping {} { properties := [{ name := Text.of "a", desc := .anything },
        { name := Text.of "e", desc := .anything, required := true }] } }
    let contexts := ContextSource.fixed .undefined []
    let outcome (pairs : List (Node × Node)) :=
      validate ⟨[], .record [], contexts⟩ schema.root (some (root pairs))
    ∃ found found', outcome [first, second] = .ok found ∧ outcome [second, first] = .ok found' ∧
      found.diagnostics.Perm found'.diagnostics ∧ found.diagnostics.length = 2 ∧
      found.entries.get? first.2 = some (.scalar {} {}) ∧
      found'.entries.get? first.2 = some (.scalar {} {}) := by
  intro scalar first second root schema contexts outcome
  have swapped : (root [first, second]).Reordered (root [second, first]) := .pairs (.swap ..)
  have steady : schema.Steady := by
    refine ⟨.mapping trivial ?_ ?_, ?_⟩
    · intro property member
      have plain : property.desc = .anything := by
        simp only [List.mem_cons, List.not_mem_nil, or_false] at member
        rcases member with rfl | rfl <;> rfl
      rw [plain]
      exact .scalar trivial
    · intro desc fallback
      cases fallback
    · intro name desc member
      cases member
  have distinct : (root [first, second]).DistinctKeys := by
    refine (Node.distinctKeys_map_iff ..).mpr ⟨by decide, ?_⟩
    intro key value member
    simp only [List.mem_cons, List.not_mem_nil, or_false] at member
    rcases member with same | same
    all_goals
      cases (congrArg Prod.snd same).symm
      exact Node.distinctKeys_scalar _ _ _ _ _
  obtain ⟨found, run⟩ : ∃ found, outcome [first, second] = .ok found := ⟨_, rfl⟩
  obtain ⟨found', run'⟩ : ∃ found', outcome [second, first] = .ok found' := ⟨_, rfl⟩
  obtain ⟨reported, -, entered⟩ := (validate_reordered swapped steady
    (ContextSource.fixed_static .undefined []) (.record []) (.record [])).2 found found' run run'
  have held : found.entries.get? first.2 = some (.scalar {} {}) := by
    cases run
    rfl
  have two : found.diagnostics.length = 2 := by
    cases run
    rfl
  refine ⟨found, found', run, run', reported, two, held, ?_⟩
  exact (entered distinct (by decide) first.2).symm.trans held

end Validation

end Flowfile
