import Flowfile.Completion
import Flowfile.Proofs.Schema.Index
import Flowfile.Proofs.Workflow.Schema

/-! What completion suggests, a validation accepts.

Completion asks which terminal descriptions stand at a place, a validation takes the first that fits
the node there. With one scalar and one mapping among them at most, these are the same. -/

namespace Flowfile

def Document.Stands (document : Document) (path : Path) (node : Node) : Prop :=
  ∃ root, document.root = some root ∧ root.Leads path node

namespace Completion

open Validation

theorem mem_of_mem_firsts {seen : List Text} {suggestions : List Suggestion}
    {suggestion : Suggestion} (member : suggestion ∈ firsts seen suggestions) :
    suggestion ∈ suggestions := by
  induction suggestions generalizing seen with
  | nil => cases member
  | cons first rest ih =>
      rw [firsts] at member
      split at member
      · exact List.mem_cons_of_mem _ (ih member)
      · rcases List.mem_cons.mp member with rfl | later
        · exact List.mem_cons_self
        · exact List.mem_cons_of_mem _ (ih later)

theorem mem_of_mem_narrowed {offer : Offer} {suggestion : Suggestion}
    (member : suggestion ∈ offer.narrowed) : suggestion ∈ offer.suggestions :=
  (List.mem_filter.mp (mem_of_mem_firsts member)).1

theorem mem_of_mem_without {offer : Offer} {exclude : List Text} {suggestion : Suggestion}
    (member : suggestion ∈ (offer.without exclude).suggestions) :
    suggestion ∈ offer.suggestions :=
  (List.mem_filter.mp member).1

section

variable {r : Resolution} {options : List Terminal} {suggestion : Suggestion}

theorem mem_keyCandidates {about : About} {fields : Fields Desc} {exclude : List Text}
    (offered : .mapping about fields ∈ options)
    (member : suggestion ∈ keySuggestions r fields exclude) :
    suggestion ∈ keyCandidates r options := by
  refine List.mem_flatMap.mpr ⟨_, offered, ?_⟩
  obtain ⟨property, kept, same⟩ := List.mem_map.mp member
  exact List.mem_map.mpr ⟨property, by simpa using (List.mem_filter.mp kept).1, same⟩

theorem mem_candidates_iff (path : Path) :
    suggestion ∈ candidates r path options ↔
      suggestion ∈ valueCandidates r path options ∨ suggestion ∈ keyCandidates r options := by
  simp only [candidates, valueCandidates, keyCandidates, List.mem_flatMap]
  rw [← exists_or]
  refine exists_congr fun terminal => ?_
  cases terminal <;> simp

theorem mem_candidates_of_narrower {path : Path} {fewer : List Terminal} (within : fewer ⊆ options)
    (member : suggestion ∈ if (valueCandidates r path fewer).isEmpty then keyCandidates r fewer
      else valueCandidates r path fewer) :
    suggestion ∈ candidates r path options := by
  rw [mem_candidates_iff]
  split at member
  · obtain ⟨terminal, offered, inside⟩ := List.mem_flatMap.mp member
    exact .inr (List.mem_flatMap.mpr ⟨terminal, within offered, inside⟩)
  · obtain ⟨terminal, offered, inside⟩ := List.mem_flatMap.mp member
    exact .inl (List.mem_flatMap.mpr ⟨terminal, within offered, inside⟩)

theorem desc?_of_mem_keySuggestions {fields : Fields Desc} {exclude : List Text}
    (member : suggestion ∈ keySuggestions r fields exclude) :
    fields.desc? suggestion.value ≠ none := by
  obtain ⟨property, kept, rfl⟩ := List.mem_map.mp member
  have declared := (List.mem_filter.mp kept).1
  dsimp only
  rw [Fields.desc?, Fields.property?]
  cases found : fields.properties.find? (fun other => other.name = property.name) with
  | none =>
      have missing := List.find?_eq_none.mp found property declared
      simp at missing
  | some other => simp

theorem literal_or_context_of_mem_valueSuggestions {path : Path} {choices : Choices}
    (member : suggestion ∈ valueSuggestions r path choices) :
    (choices.find? suggestion.value).isSome = true ∨
      ∃ values, allowedValues r path choices = some values ∧ suggestion.value ∈ values := by
  rw [valueSuggestions, List.mem_append] at member
  rcases member with literal | further
  · obtain ⟨choice, declared, rfl⟩ := List.mem_map.mp literal
    refine .inl ?_
    rw [Choices.find?]
    cases found : choices.allowed.find? (fun other => other.value = choice.value) with
    | none =>
        have missing := List.find?_eq_none.mp found choice declared
        simp at missing
    | some other => rfl
  · obtain ⟨value, given, rfl⟩ := List.mem_map.mp further
    by_cases custom : choices.custom = true
    · rw [if_pos custom] at given
      rcases told : (r.contextAt path).suggest path.dotted with _ | ⟨_ | ⟨first, rest⟩⟩
      · simp [told] at given
      · simp [told] at given
      · rw [told] at given
        refine .inr ⟨addNew (choices.allowed.map Choice.value) (first :: rest), ?_, ?_⟩
        · rw [allowedValues, if_pos custom, told]
        · exact mem_addNew_right _ given
    · rw [if_neg custom] at given
      cases given

end

/-- The place that a suggestion is for: that of the mapping for a key of it, and that of the next
item in a sequence. -/
def placeOf (location : Location) : Path :=
  match location.region, location.node with
  | .key, _ => location.path.dropLast
  | .empty, some (.sequence _ _ _ items) => location.path ++ [.index items.length]
  | _, _ => location.path

/-- Whether the cursor is on a key, or where a mapping can have another one. -/
def AmongKeys (location : Location) : Prop :=
  location.region = .key ∨ location.region = .empty ∧
    ∃ info anchor flow pairs, location.node = some (.map info anchor flow pairs)

theorem not_amongKeys_of_value {location : Location} (region : location.region = .value) :
    ¬AmongKeys location := by
  simp [AmongKeys, region]

section

variable {document : Document} {text : Text} {offset : Int}

theorem stands_of_key (region : (locate document.root text offset).region = .key) :
    ∃ parent, (locate document.root text offset).parent = some parent ∧
      document.Stands (locate document.root text offset).path.dropLast parent := by
  rcases held : document.root with _ | root
  · rw [held] at region
    cases region
  · rw [held] at region
    obtain ⟨suffix, segment, parent, whole, around, -, leads⟩ :=
      (Location.locate_placed root text offset).2 region
    refine ⟨parent, around, root, held, ?_⟩
    rw [whole, List.nil_append, List.dropLast_concat]
    exact leads

theorem leads_of_lands {path : Path} {parent : Option Node} {root node : Node}
    {location : Location} (lands : Location.Lands path parent root location)
    (here : location.node = some node) (region : location.region ≠ .key) :
    ∃ suffix, location.path = path ++ suffix ∧ root.Leads suffix node := by
  induction lands with
  | self =>
      cases here
      exact ⟨[], (List.append_nil _).symm, .here⟩
  | key => exact absurd rfl region
  | nextItem | firstItem => cases here
  | pair member _ ih =>
      obtain ⟨suffix, whole, leads⟩ := ih here region
      exact ⟨_, by rw [whole, List.append_assoc, List.singleton_append], .pair member leads⟩
  | item member _ ih =>
      obtain ⟨suffix, whole, leads⟩ := ih here region
      exact ⟨_, by rw [whole, List.append_assoc, List.singleton_append], .item member leads⟩

theorem stands_of_value_or_empty
    (region : (locate document.root text offset).region = .value ∨
      (locate document.root text offset).region = .empty) (node : Node)
    (here : (locate document.root text offset).node = some node) :
    document.Stands (locate document.root text offset).path node := by
  rcases held : document.root with _ | root
  · rw [held] at here
    cases here
  · rw [held] at here region
    have other : (locate (some root) text offset).region ≠ .key := by
      rcases region with value | empty
      · simp [value]
      · simp [empty]
    obtain ⟨suffix, whole, leads⟩ :=
      leads_of_lands (Location.locate_lands root text offset) here other
    rw [List.nil_append] at whole
    rw [whole]
    exact ⟨root, held, leads⟩

end

section

variable {document : Document} {contexts : ContextSource}
  (steady : document.schema.Steady) (static : contexts.Static)

include steady static

theorem optionsAt_eq_ok_iff (path : Path) (options : List Terminal) :
    optionsAt document (document.resolution contexts) path = .ok options ↔
      ((document.resolution contexts).descOf? document.schema.root path = .ok none ∧
        options = []) ∨
      ∃ desc, (document.resolution contexts).descOf? document.schema.root path = .ok (some desc) ∧
        (document.resolution contexts).options path desc = .ok options := by
  have same := Resolution.descAt_fst (r := document.resolution contexts) steady.root
    steady.definitions static document.root path
  rw [optionsAt, ← same]
  rcases (document.resolution contexts).descAt document.root document.schema.root path with
    endless | _ | ⟨desc, node⟩
  · simp [Except.map, error_bind]
  · rw [ok_bind]
    simp [Except.map, pure, Except.pure, eq_comm]
  · rw [ok_bind]
    simp [Except.map]

variable (indexed : document.Indexed contexts)
  (once : ∀ root, document.root = some root → root.ids.Nodup)

include indexed once

theorem mem_optionsAt_of_get? {path : Path} {node : Node} {terminal : Terminal}
    (stands : document.Stands path node) (found : document.entries.get? node = some terminal) :
    ∃ options, optionsAt document (document.resolution contexts) path = .ok options ∧
      terminal ∈ options := by
  obtain ⟨root, held, leads⟩ := stands
  obtain ⟨findings, run, entries⟩ := indexed
  rw [held] at run
  rw [entries] at found
  obtain ⟨visit, walks, same, ⟨problems, settled⟩, -⟩ := get?_eq_some run found
  obtain ⟨rfl, rfl⟩ := Node.leads_unique (once root held) (leads_of_walks walks) leads same
  obtain ⟨options, flattened, offered⟩ := mem_options_of_settle settled
  refine ⟨options, (optionsAt_eq_ok_iff steady static _ _).mpr (.inr ⟨visit.desc, ?_, flattened⟩),
    offered⟩
  exact descOf?_of_walks steady.root steady.definitions static walks

theorem mem_optionsAt_of_fieldsAt {path : Path} {node : Node} {fields : Fields Desc}
    (stands : document.Stands path node)
    (found : document.fieldsAt (document.resolution contexts) (some node) path =
      .ok (some fields)) :
    ∃ options about, optionsAt document (document.resolution contexts) path = .ok options ∧
      .mapping about fields ∈ options := by
  have about_of {terminal : Terminal} (same : terminal.fields? = some fields) :
      ∃ about, terminal = .mapping about fields := by
    cases terminal with
    | mapping about fields' =>
        cases same
        exact ⟨about, rfl⟩
    | scalar | sequence => cases same
  rw [Document.fieldsAt] at found
  split at found
  · rename_i fields' entered
    cases found
    obtain ⟨terminal, indexed', same⟩ := Option.bind_eq_some_iff.mp entered
    obtain ⟨about, rfl⟩ := about_of same
    obtain ⟨options, at', offered⟩ :=
      mem_optionsAt_of_get? steady static indexed once stands indexed'
    exact ⟨options, about, at', offered⟩
  · obtain ⟨chosen, selected, same⟩ := (map_eq_ok_iff _ _ _).mp found
    obtain ⟨terminal, rfl, same⟩ := Option.bind_eq_some_iff.mp same
    obtain ⟨about, rfl⟩ := about_of same
    obtain ⟨found', descended, chosen⟩ := (bind_eq_ok _ _ _).mp selected
    rcases found' with _ | ⟨desc, inner⟩
    · cases chosen
    · obtain ⟨options, flattened, first⟩ := (map_eq_ok_iff _ _ _).mp chosen
      refine ⟨options, about, ?_, List.mem_of_find?_eq_some first⟩
      rw [optionsAt, descended]
      exact flattened

theorem keyCandidates_of_onKey {location : Location} {offset : Nat} {offer : Offer}
    {suggestion : Suggestion} {parent : Node} (around : location.parent = some parent)
    (stands : document.Stands location.path.dropLast parent)
    (found : onKey document (document.resolution contexts) offset location = .ok offer)
    (member : suggestion ∈ offer.suggestions) :
    ∃ options, optionsAt document (document.resolution contexts) location.path.dropLast =
        .ok options ∧ suggestion ∈ keyCandidates (document.resolution contexts) options := by
  obtain ⟨fields, known, found⟩ := (bind_eq_ok _ _ _).mp found
  split at found
  · rename_i fields key there
    cases found
    rw [around] at known
    obtain ⟨options, about, at', offered⟩ :=
      mem_optionsAt_of_fieldsAt steady static indexed once stands known
    exact ⟨options, at', mem_keyCandidates offered member⟩
  · cases found
    cases member

theorem candidates_of_onValue {location : Location} {offset : Nat} {offer : Offer}
    {suggestion : Suggestion}
    (stands : ∀ node, location.node = some node → document.Stands location.path node)
    (found : onValue document (document.resolution contexts) offset location = .ok offer)
    (member : suggestion ∈ offer.suggestions) :
    ∃ options, optionsAt document (document.resolution contexts) location.path = .ok options ∧
      suggestion ∈ candidates (document.resolution contexts) location.path options := by
  rw [onValue] at found
  split at found
  · rename_i info anchor raw value style there
    obtain ⟨options, given, found⟩ := (bind_eq_ok _ _ _).mp found
    cases found
    have offered := mem_of_mem_without member
    split at given
    · rename_i terminal entered
      cases given
      obtain ⟨all, at', offered'⟩ :=
        mem_optionsAt_of_get? steady static indexed once (stands _ there) entered
      exact ⟨all, at', mem_candidates_of_narrower (by simpa using offered') offered⟩
    · exact ⟨options, given, mem_candidates_of_narrower (List.Subset.refl _) offered⟩
  · cases found
    cases member

theorem keyCandidates_or_candidates_of_onEmpty {location : Location} {offset : Nat} {offer : Offer}
    {suggestion : Suggestion} (region : location.region = .empty)
    (stands : ∀ node, location.node = some node → document.Stands location.path node)
    (found : onEmpty document (document.resolution contexts) offset location = .ok offer)
    (member : suggestion ∈ offer.suggestions) :
    ∃ options,
      optionsAt document (document.resolution contexts) (placeOf location) = .ok options ∧
      (suggestion ∈ keyCandidates (document.resolution contexts) options ∨
        ¬AmongKeys location ∧
          suggestion ∈ candidates (document.resolution contexts) (placeOf location) options) := by
  rw [onEmpty] at found
  dsimp only at found
  split at found
  · rename_i info anchor flow pairs there
    have place : placeOf location = location.path := by
      rw [placeOf, region, there]
    obtain ⟨fields, known, found⟩ := (bind_eq_ok _ _ _).mp found
    split at found
    · cases found
      cases member
    · rename_i fields
      cases found
      obtain ⟨options, about, at', offered⟩ :=
        mem_optionsAt_of_fieldsAt steady static indexed once (stands _ there) known
      rw [← place] at at'
      exact ⟨options, at', .inl (mem_keyCandidates offered member)⟩
  · rename_i info anchor flow items there
    have place : placeOf location = location.path ++ [.index items.length] := by
      rw [placeOf, region, there]
    have apart : ¬AmongKeys location := by
      simp [AmongKeys, region, there]
    obtain ⟨options, at', found⟩ := (bind_eq_ok _ _ _).mp found
    cases found
    rw [← place] at at' member
    exact ⟨options, at', .inr ⟨apart, mem_of_mem_without member⟩⟩
  · rename_i noMap noSequence
    have place : placeOf location = location.path := by
      rw [placeOf, region]
      split
      · contradiction
      · rename_i there
        exact absurd there (noSequence _ _ _ _)
      · rfl
    have apart : ¬AmongKeys location := by
      simp only [AmongKeys, region, reduceCtorEq, true_and, false_or, not_exists]
      exact fun _ _ _ _ => noMap _ _ _ _
    obtain ⟨options, at', found⟩ := (bind_eq_ok _ _ _).mp found
    cases found
    rw [← place] at at' member
    exact ⟨options, at', .inr ⟨apart, mem_of_mem_without member⟩⟩

theorem candidates_of_complete {offset : Int} {suggestions : List Suggestion}
    {suggestion : Suggestion} (completed : document.complete contexts offset = .ok suggestions)
    (member : suggestion ∈ suggestions) :
    let location := locate document.root document.text offset.toNat
    ∃ options,
      optionsAt document (document.resolution contexts) (placeOf location) = .ok options ∧
      (suggestion ∈ keyCandidates (document.resolution contexts) options ∨
        ¬AmongKeys location ∧
          suggestion ∈ candidates (document.resolution contexts) (placeOf location) options) := by
  intro location
  rw [Document.complete] at completed
  split at completed
  · obtain ⟨offer, found, rfl⟩ := (map_eq_ok_iff _ _ _).mp completed
    have offered := mem_of_mem_narrowed member
    rw [offerAt] at found
    split at found
    · rename_i region
      obtain ⟨parent, around, stands⟩ := stands_of_key region
      have place : placeOf location = location.path.dropLast := by
        rw [placeOf, region]
      obtain ⟨options, at', keys⟩ :=
        keyCandidates_of_onKey steady static indexed once around stands found offered
      rw [← place] at at'
      exact ⟨options, at', .inl keys⟩
    · rename_i region
      have place : placeOf location = location.path := by
        rw [placeOf, region]
      have apart : ¬AmongKeys location := not_amongKeys_of_value region
      have stands (node : Node) (here : location.node = some node) :
          document.Stands location.path node := stands_of_value_or_empty (.inl region) node here
      obtain ⟨options, at', given⟩ :=
        candidates_of_onValue steady static indexed once stands found offered
      rw [← place] at at' given
      exact ⟨options, at', .inr ⟨apart, given⟩⟩
    · rename_i region
      have stands (node : Node) (here : location.node = some node) :
          document.Stands location.path node := stands_of_value_or_empty (.inr region) node here
      exact keyCandidates_or_candidates_of_onEmpty steady static indexed once region stands found
        offered
  · cases completed
    cases member

end

section

variable {document : Document} {contexts : ContextSource} {place : Path} {suggestion : Suggestion}
  {options : List Terminal} (steady : document.schema.Steady) (static : contexts.Static)
  (unmixed : ∀ path desc terminals,
    (document.resolution contexts).descOf? document.schema.root path = .ok (some desc) →
      (document.resolution contexts).options path desc = .ok terminals → Unmixed terminals)
  (found : optionsAt document (document.resolution contexts) place = .ok options)

include steady static unmixed found

theorem acceptsKey_of_mem_keyCandidates
    (member : suggestion ∈ keyCandidates (document.resolution contexts) options) :
    AcceptsKey (document.resolution contexts) document.schema.root place suggestion.value := by
  obtain ⟨terminal, offered, inside⟩ := List.mem_flatMap.mp member
  rcases (optionsAt_eq_ok_iff steady static place options).mp found with
    ⟨-, nothing⟩ | ⟨desc, described, flattened⟩
  · rw [nothing] at offered
    cases offered
  · intro desc' options' about fields described' flattened' among
    cases described.symm.trans described'
    cases flattened.symm.trans flattened'
    cases terminal with
    | mapping about' fields' =>
        cases eq_of_countP_le_one (unmixed place desc options described flattened).2 offered among
          rfl rfl
        exact desc?_of_mem_keySuggestions inside
    | scalar | sequence => cases inside

theorem acceptsText_of_mem_valueCandidates
    (member : suggestion ∈ valueCandidates (document.resolution contexts) place options) :
    AcceptsText (document.resolution contexts) document.schema.root place suggestion.value := by
  obtain ⟨terminal, offered, inside⟩ := List.mem_flatMap.mp member
  rcases (optionsAt_eq_ok_iff steady static place options).mp found with
    ⟨-, nothing⟩ | ⟨desc, described, flattened⟩
  · rw [nothing] at offered
    cases offered
  · intro desc' options' described' flattened'
    cases described.symm.trans described'
    cases flattened.symm.trans flattened'
    cases terminal with
    | scalar about choices =>
        refine ⟨⟨_, offered, rfl⟩, ?_⟩
        intro about' choices' among
        cases eq_of_countP_le_one (unmixed place desc options described flattened).1 offered among
          rfl rfl
        exact literal_or_context_of_mem_valueSuggestions inside
    | mapping | sequence => cases inside

end

/-- A suggestion for a key is accepted as a key of the mapping at the place, and one for a value as
the text of a scalar there, whatever tree it is put into. A tree can be validated wherever the
alternatives of the schema come to an end. -/
theorem complete_accepted (document : Document) (contexts : ContextSource)
    (static : contexts.Static) (steady : document.schema.Steady)
    (unmixed : ∀ path desc terminals,
      (document.resolution contexts).descOf? document.schema.root path = .ok (some desc) →
        (document.resolution contexts).options path desc = .ok terminals → Unmixed terminals)
    (indexed : document.Indexed contexts)
    (once : ∀ root, document.root = some root → root.ids.Nodup)
    (offset : Int) (suggestions : List Suggestion) (suggestion : Suggestion)
    (completed : document.complete contexts offset = .ok suggestions)
    (member : suggestion ∈ suggestions) :
    let r := document.resolution contexts
    let location := locate document.root document.text offset.toNat
    let place := placeOf location
    let tree (text : Text) (root : Node) :=
      Document.ofTree document.schema contexts text (some root) []
    ∃ options, optionsAt document r place = .ok options ∧
      (suggestion ∈ keyCandidates r options ∨
        ¬AmongKeys location ∧ suggestion ∈ valueCandidates r place options) ∧
      (suggestion ∈ keyCandidates r options → ∀ text root after, tree text root = .ok after →
        SparesKey root after.diagnostics place suggestion.value) ∧
      (suggestion ∈ valueCandidates r place options → ∀ text root after,
        tree text root = .ok after → SparesText root after.diagnostics place suggestion.value) ∧
      (r.Ends document.schema.root → ∀ text root, ∃ after, tree text root = .ok after) := by
  intro r location place tree
  obtain ⟨options, found, offered⟩ :=
    candidates_of_complete steady static indexed once completed member
  refine ⟨options, found, ?_, ?_, ?_, ?_⟩
  · rcases offered with key | ⟨apart, either⟩
    · exact .inl key
    · rcases (mem_candidates_iff place).mp either with value | key
      · exact .inr ⟨apart, value⟩
      · exact .inl key
  · intro key text root after loaded
    obtain ⟨findings, run, rfl⟩ := Document.ofTree_eq_ok loaded
    have accepts := acceptsKey_of_mem_keyCandidates steady static unmixed found key
    have validated : validate (r.withWorkflow (Document.workflowOf (some root)))
        document.schema.root (some root) = .ok findings := run
    exact sparesKey_of_accepts steady.root steady.definitions static validated accepts
  · intro value text root after loaded
    obtain ⟨findings, run, rfl⟩ := Document.ofTree_eq_ok loaded
    have accepts := acceptsText_of_mem_valueCandidates steady static unmixed found value
    have validated : validate (r.withWorkflow (Document.workflowOf (some root)))
        document.schema.root (some root) = .ok findings := run
    exact sparesText_of_accepts steady.root steady.definitions static validated accepts
  · intro ends text root
    have straight := straight_of_ends steady.root steady.definitions static ends
      (Document.workflowOf (some root)) (some root)
    obtain ⟨findings, run⟩ := (validate_ends_iff ..).mpr straight
    exact Document.exists_ofTree run

/-- An activity type of an event of a workflow. -/
theorem complete_accepted_activity :
    let scalar (id start stop : Nat) (text : String) : Node :=
      .scalar ⟨id, start, stop⟩ none (Text.of text) (.str (Text.of text)) none
    let event : Node :=
      .map ⟨5, 18, 31⟩ none false [(scalar 6 18 23 "types", scalar 7 25 31 "opened")]
    let events : Node := .map ⟨3, 6, 31⟩ none false [(scalar 4 6 12 "issues", event)]
    let root : Node := .map ⟨0, 0, 31⟩ none false [(scalar 1 0 2 "on", events)]
    let contexts := ContextSource.fixed .undefined []
    let place : Path := [.key (Text.of "on"), .key (Text.of "issues"), .key (Text.of "types")]
    let suggestion : Suggestion := ⟨Text.of "opened", none, none⟩
    contexts.Static ∧ root.ids.Nodup ∧
      ∃ document, Document.ofTree Workflow.schema contexts
          (Text.of "on:\n  issues:\n    types: opened") (some root) [] = .ok document ∧
        document.schema.Steady ∧ document.Indexed contexts ∧
        (∀ path desc terminals,
          (document.resolution contexts).descOf? document.schema.root path = .ok (some desc) →
            (document.resolution contexts).options path desc = .ok terminals →
              Unmixed terminals) ∧
        (document.resolution contexts).Ends document.schema.root ∧
        document.complete contexts 29 = .ok [suggestion] ∧
        SparesText root document.diagnostics place (Text.of "opened") := by
  intro scalar event events root contexts place suggestion
  have static : contexts.Static := ContextSource.fixed_static _ _
  have once : root.ids.Nodup := by decide
  let outcome := Document.ofTree Workflow.schema contexts
    (Text.of "on:\n  issues:\n    types: opened") (some root) []
  have given : (outcome.toOption.bind fun document =>
      (document.complete contexts 29).toOption) = some [suggestion] := by decide +kernel
  have valued : (outcome.toOption.bind fun document =>
      (optionsAt document (document.resolution contexts) place).toOption.map fun options =>
        decide (suggestion ∈ valueCandidates (document.resolution contexts) place options)) =
      some true := by decide +kernel
  obtain ⟨document, loaded, completed⟩ := Option.bind_eq_some_iff.mp given
  obtain ⟨document', loaded', inside⟩ := Option.bind_eq_some_iff.mp valued
  cases loaded.symm.trans loaded'
  rw [toOption_eq_some_iff] at loaded completed
  obtain ⟨options, known, valued⟩ := Option.map_eq_some_iff.mp inside
  rw [toOption_eq_some_iff] at known
  have indexed := Document.ofTree_indexed loaded
  obtain ⟨findings, -, rfl⟩ := Document.ofTree_eq_ok loaded
  have placed : placeOf (locate (some root) (Text.of "on:\n  issues:\n    types: opened")
      (Int.toNat 29)) = place := by decide +kernel
  have accepted := complete_accepted _ contexts static Workflow.schema_steady
    (fun path desc terminals found flattened => Workflow.schema_unmixed rfl found flattened)
    indexed (fun tree held => by cases held; exact once) 29 _ suggestion completed
    List.mem_cons_self
  dsimp only at accepted
  rw [placed] at accepted
  obtain ⟨options', known', -, -, spared, -⟩ := accepted
  cases known.symm.trans known'
  exact ⟨static, once, _, loaded, Workflow.schema_steady, indexed,
    fun path desc terminals found flattened => Workflow.schema_unmixed rfl found flattened,
    Workflow.schema_ends rfl, completed,
    spared (of_decide_eq_true valued) _ _ _ loaded⟩

end Completion

end Flowfile
