import Flowfile.Proofs.Completion.Accepted
import Flowfile.Proofs.Completion.Distinct
import Flowfile.Proofs.Outcome
import Mathlib.Data.List.Nodup

/-! Which suggestions there are, all of them and in their order.

Among the keys of a mapping they are the declared names that the mapping can still take. Elsewhere
they are what the descriptions of the place give, without the other scalars of the same sequence. -/

namespace Flowfile.Completion

section

variable {fields : Fields Desc} {typed : Text} {taken taken' : List Text}

def free (fields : Fields Desc) (typed : Text) (taken : List Text) : List Text :=
  (fields.names.filter fun name => typed.isPrefixOf name && !taken.contains name).eraseDups

theorem mem_free_iff {name : Text} :
    name ∈ free fields typed taken ↔ name ∈ fields.names ∧ typed <+: name ∧ name ∉ taken := by
  simp [free, List.mem_eraseDups]

theorem free_congr
    (same : ∀ name ∈ fields.names, typed <+: name → (name ∈ taken ↔ name ∈ taken')) :
    free fields typed taken = free fields typed taken' := by
  rw [free, free]
  congr 1
  refine List.filter_congr fun name declared => ?_
  by_cases goes : typed <+: name
  · congr 2
    rw [Bool.eq_iff_iff, List.contains_iff_mem, List.contains_iff_mem]
    exact same name declared goes
  · rw [← List.isPrefixOf_iff_prefix, Bool.not_eq_true] at goes
    rw [goes, Bool.false_and, Bool.false_and]

/-- Further names that are taken make no difference exactly if none of them was free. -/
theorem free_append_iff :
    free fields typed (taken ++ taken') = free fields typed taken ↔
      ∀ name ∈ taken', name ∉ free fields typed taken := by
  constructor
  · intro same name further free
    rw [← same, mem_free_iff] at free
    exact free.2.2 (List.mem_append_right _ further)
  · intro apart
    refine free_congr fun name declared goes => ?_
    rw [List.mem_append]
    refine ⟨fun either => either.elim id fun further => ?_, .inl⟩
    refine Decidable.byContradiction fun fresh => ?_
    exact apart name further (mem_free_iff.mpr ⟨declared, goes, fresh⟩)

theorem map_value_narrowed (r : Resolution) :
    (Offer.narrowed ⟨keySuggestions r fields taken, typed⟩).map Suggestion.value =
      free fields typed taken := by
  rw [Offer.narrowed, map_value_firsts, keySuggestions, List.filter_map, List.map_map,
    List.filter_filter, free, Fields.names, List.filter_map]
  rfl

end

/-- A key that is no scalar is named by its kind. -/
def placeholder : Option Node → List Text
  | some (.scalar ..) | none => []
  | some key => [key.keyText]

/-- The cursor is on a key of the mapping or between its pairs; with the key under the cursor, and
the texts of the others. -/
inductive InMapping (location : Location) : Node → Option Node → List Text → Prop
  | key {map key value : Node} {front back : List (Node × Node)} (region : location.region = .key)
      (around : location.parent = some map) (here : location.node = some key)
      (pairs : map.pairs = front ++ (key, value) :: back) :
      InMapping location map (some key) ((front ++ back).map fun pair => pair.1.keyText)
  | between {info anchor flow pairs} (region : location.region = .empty)
      (here : location.node = some (.map info anchor flow pairs)) :
      InMapping location (.map info anchor flow pairs) none
        (Node.map info anchor flow pairs).keys

theorem lands_key {path : Path} {parent : Option Node} {root : Node} {location : Location}
    (lands : Location.Lands path parent root location) (region : location.region = .key) :
    ∃ key map value, location.node = some key ∧ location.parent = some map ∧
      (key, value) ∈ map.pairs := by
  induction lands with
  | self kind =>
      cases region
      rcases kind with other | ⟨other, -⟩ <;> cases other
  | key member => exact ⟨_, _, _, rfl, rfl, member⟩
  | nextItem | firstItem => cases region
  | pair _ _ ih | item _ _ ih => exact ih region

theorem exists_inMapping {root : Option Node} {text : Text} {offset : Int}
    (among : AmongKeys (locate root text offset)) :
    ∃ map key beside, InMapping (locate root text offset) map key beside := by
  rcases among with region | ⟨region, info, anchor, flow, pairs, here⟩
  · cases root with
    | none => cases region
    | some root =>
        obtain ⟨key, map, value, here, around, member⟩ :=
          lands_key (Location.locate_lands root text offset) region
        obtain ⟨front, back, pairs⟩ := List.append_of_mem member
        exact ⟨map, _, _, .key region around here pairs⟩
  · exact ⟨_, _, _, .between region here⟩

/-- What has been typed: of a key and of a value the part before the cursor, without the quote that
opens a value, and elsewhere the word before the cursor. -/
def typedAt (text : Text) (offset : Nat) (location : Location) : Text :=
  match location.region, location.node with
  | .key, some key => text.slice key.start (min offset key.stop)
  | .value, some (.scalar info _ _ _ style) =>
    let typed := text.slice info.start offset
    if style = some .singleQuoted || style = some .doubleQuoted then typed.drop 1 else typed
  | _, _ => typedWord text offset

def freeAt (document : Document) (r : Resolution) (offset : Nat) (location : Location) (map : Node)
    (taken : List Text) : Except Endless (List Text) :=
  (document.fieldsAt r (some map) (placeOf location)).map fun fields =>
    (fields.map fun fields => free fields (typedAt document.text offset location) taken).getD []

section

variable {document : Document} {r : Resolution} {offset : Nat} {location : Location} {map : Node}
  {key : Option Node} {beside : List Text}

theorem mem_keys_iff {key value : Node} {front back : List (Node × Node)}
    (pairs : map.pairs = front ++ (key, value) :: back) (name : Text) :
    name ∈ map.keys ↔
      name ∈ (front ++ back).map (fun pair => pair.1.keyText) ∨ name = key.keyText := by
  rw [Node.keys, pairs]
  rw [List.map_append, List.map_cons, List.map_append, List.mem_append, List.mem_append,
    List.mem_cons, or_assoc, or_comm (a := name = key.keyText)]

theorem keyText_notMem {key value : Node} {front back : List (Node × Node)}
    (pairs : map.pairs = front ++ (key, value) :: back) (distinct : map.keys.Nodup) :
    key.keyText ∉ (front ++ back).map fun pair => pair.1.keyText := by
  rw [Node.keys, pairs, List.map_append, List.map_cons] at distinct
  rw [List.map_append]
  exact (List.nodup_middle.mp distinct).notMem

theorem narrowed_onKey (region : location.region = .key)
    (inside : InMapping location map key beside) (distinct : map.keys.Nodup) :
    ((onKey document r offset location).map fun offer => offer.narrowed.map Suggestion.value) =
      freeAt document r offset location map (beside ++ placeholder key) := by
  cases inside with
  | between other => cases region.symm.trans other
  | @key map key value front back _ around here pairs =>
      have place : placeOf location = location.path.dropLast := by
        rw [placeOf, region]
      have typed : typedAt document.text offset location =
          document.text.slice key.start (min offset key.stop) := by
        rw [typedAt, region, here]
      rw [onKey, around, here, freeAt, place, typed]
      rcases document.fieldsAt r (some map) location.path.dropLast with endless | _ | fields
      · rfl
      · rfl
      · refine congrArg Except.ok ((map_value_narrowed r).trans ?_)
        refine free_congr fun name _ _ => ?_
        have apart := keyText_notMem pairs distinct
        rw [List.mem_append]
        cases key with
        | scalar info anchor raw value style =>
            change name ∈ map.keys.filter (· ≠ raw) ↔ _ ∨ name ∈ []
            rw [List.mem_filter, mem_keys_iff pairs, decide_eq_true_eq]
            constructor
            · rintro ⟨beside | here, other⟩
              · exact .inl beside
              · exact absurd here other
            · rintro (beside | nowhere)
              · refine ⟨.inl beside, ?_⟩
                rintro rfl
                exact apart beside
              · cases nowhere
        | map | sequence | «alias» =>
            change name ∈ map.keys ↔ _ ∨ name ∈ [_]
            rw [mem_keys_iff pairs, List.mem_singleton]

theorem narrowed_onEmpty_map (region : location.region = .empty)
    (inside : InMapping location map key beside) :
    ((onEmpty document r offset location).map fun offer => offer.narrowed.map Suggestion.value) =
      freeAt document r offset location map (beside ++ placeholder key) := by
  cases inside with
  | key other => cases region.symm.trans other
  | @between info anchor flow pairs _ here =>
      have place : placeOf location = location.path := by
        rw [placeOf, region, here]
      have typed : typedAt document.text offset location = typedWord document.text offset := by
        rw [typedAt, region]
      rw [onEmpty, here, freeAt, place, typed]
      dsimp only
      rcases document.fieldsAt r (some (.map info anchor flow pairs)) location.path with
        endless | _ | fields
      · rfl
      · rfl
      · rw [placeholder, List.append_nil]
        exact congrArg Except.ok (map_value_narrowed r)

end

/-- What the descriptions of a place give: the values of a scalar, or keys if there are none, and
where nothing stands yet both. -/
def offered (document : Document) (r : Resolution) (location : Location) :
    Except Endless (List Suggestion) :=
  let place := placeOf location
  match location.region, location.node with
  | .value, some (.scalar info anchor raw value style) =>
    let options : Except Endless (List Terminal) :=
      match document.entries.get? (.scalar info anchor raw value style) with
      | some terminal => .ok [terminal]
      | none => optionsAt document r place
    options.map fun options =>
      let values := valueCandidates r place options
      if values.isEmpty then keyCandidates r options else values
  | .value, _ => .ok []
  | _, _ => (optionsAt document r place).map (candidates r place)

def HasScalar (sequence current : Option Node) (text : Text) : Prop :=
  ∃ info anchor flow items, sequence = some (.sequence info anchor flow items) ∧
    ∃ item ∈ items, (∃ info anchor value style, item = .scalar info anchor text value style) ∧
      item.isEmpty = false ∧ ∀ node, current = some node → node.id ≠ item.id

/-- A scalar of the sequence that the cursor is in, other than the one under it, has this text. -/
def Beside (location : Location) (text : Text) : Prop :=
  match location.region, location.node with
  | .empty, some (.sequence info anchor flow items) =>
    HasScalar (some (.sequence info anchor flow items)) none text
  | _, node => HasScalar location.parent node text

theorem mem_siblingValues_iff {sequence current : Option Node} {text : Text} :
    text ∈ siblingValues sequence current ↔ HasScalar sequence current text := by
  rw [siblingValues.eq_def, HasScalar]
  split
  · rename_i info anchor flow items
    rw [List.mem_filterMap]
    constructor
    · rintro ⟨item, member, kept⟩
      split at kept
      · split at kept
        · cases kept
        · rename_i apart
          cases kept
          simp only [Bool.or_eq_true, not_or, Bool.not_eq_true] at apart
          refine ⟨_, _, _, _, rfl, _, member, ⟨_, _, _, _, rfl⟩, apart.1, ?_⟩
          rintro node rfl
          simpa using apart.2
      · cases kept
    · rintro ⟨_, _, _, _, same, _, member, ⟨_, _, _, _, rfl⟩, filled, other⟩
      cases same
      refine ⟨_, member, ?_⟩
      dsimp only
      rw [filled, if_neg]
      cases current with
      | none => simp
      | some node => simpa using other node rfl
  · rename_i noSequence
    constructor
    · intro member
      cases member
    · rintro ⟨_, _, _, _, same, -⟩
      exact absurd same (noSequence _ _ _ _)

theorem narrowed_without (suggestions : List Suggestion) (typed : Text) (exclude : List Text) :
    (Offer.without ⟨suggestions, typed⟩ exclude).narrowed =
      ((suggestions.filter fun suggestion => !exclude.contains suggestion.value).filter
        fun suggestion => typed.isPrefixOf suggestion.value).eraseDupsBy
          fun later earlier => later.value == earlier.value := by
  rw [Offer.narrowed, firsts_eq]
  rfl

section

variable {document : Document} {r : Resolution} {offset : Nat} {location : Location}

/-- The suggestions in order, without what the sequence holds already, without what does not go on
from what has been typed, and of each value the first one. -/
def Narrows (document : Document) (r : Resolution) (offset : Nat) (location : Location)
    (answer : Except Endless (List Suggestion)) : Prop :=
  ∃ beside : List Text, (∀ text, text ∈ beside ↔ Beside location text) ∧
    answer = (offered document r location).map fun suggestions =>
      ((suggestions.filter fun suggestion => !beside.contains suggestion.value).filter
        fun suggestion => (typedAt document.text offset location).isPrefixOf suggestion.value
      ).eraseDupsBy fun later earlier => later.value == earlier.value

theorem narrowed_map (options : Except Endless (List Terminal))
    (given : List Terminal → List Suggestion) (typed : Text) (exclude : List Text) :
    (do let options ← options
        return Offer.without ⟨given options, typed⟩ exclude).map Offer.narrowed =
      (options.map given).map fun suggestions =>
        ((suggestions.filter fun suggestion => !exclude.contains suggestion.value).filter
          fun suggestion => typed.isPrefixOf suggestion.value).eraseDupsBy
            fun later earlier => later.value == earlier.value := by
  rcases options with endless | options
  · rfl
  · exact congrArg Except.ok (narrowed_without ..)

theorem narrows_onValue (region : location.region = .value) :
    Narrows document r offset location
      ((onValue document r offset location).map Offer.narrowed) := by
  refine ⟨siblingValues location.parent location.node, fun text => ?_, ?_⟩
  · rw [mem_siblingValues_iff, Beside, region]
  · rw [onValue.eq_def, offered, typedAt, placeOf, region]
    split
    · rename_i info anchor raw value style here
      rw [here]
      exact narrowed_map _ _ _ _
    · rename_i noScalar
      cases here : location.node with
      | none => rfl
      | some node =>
          cases node with
          | scalar => exact absurd here (noScalar _ _ _ _ _)
          | map | sequence | «alias» => rfl

theorem narrows_onEmpty (region : location.region = .empty)
    (outside : ∀ info anchor flow pairs, location.node ≠ some (.map info anchor flow pairs)) :
    Narrows document r offset location
      ((onEmpty document r offset location).map Offer.narrowed) := by
  have typed : typedAt document.text offset location = typedWord document.text offset := by
    rw [typedAt, region]
  have given : offered document r location =
      (optionsAt document r (placeOf location)).map (candidates r (placeOf location)) := by
    rw [offered, region]
  rw [Narrows, typed, given, onEmpty.eq_def, placeOf, region]
  split
  · rename_i here
    exact absurd here (outside _ _ _ _)
  · rename_i info anchor flow items here
    refine ⟨siblingValues (some (.sequence info anchor flow items)) none, fun text => ?_, ?_⟩
    · rw [mem_siblingValues_iff, Beside, region, here]
    · rw [here]
      exact narrowed_map _ _ _ _
  · rename_i noSequence
    refine ⟨siblingValues location.parent location.node, fun text => ?_, ?_⟩
    · rw [mem_siblingValues_iff, Beside, region]
      split
      · rename_i here
        exact absurd here (noSequence _ _ _ _)
      · rfl
    · split
      · contradiction
      · rename_i here
        exact absurd here (noSequence _ _ _ _)
      · exact narrowed_map _ _ _ _

end

/-- Among the keys of a mapping the suggestions are the declared names that it can still take, and
elsewhere what the place offers. The key under the cursor should take no name; the one that stands
for a key that is no scalar counts as taken all the same, and is missing if it was free. There are
none exactly where the schema has no end to its alternatives. -/
theorem complete_exact (document : Document) (contexts : ContextSource) (offset : Int)
    (inside : document.holds offset = true) :
    let r := document.resolution contexts
    let location := locate document.root document.text offset
    let typed := typedAt document.text offset.toNat location
    let answer := document.complete contexts offset
    (AmongKeys location → ∃ map key beside, InMapping location map key beside) ∧
    (∀ map key beside, InMapping location map key beside → map.keys.Nodup →
      let described := document.fieldsAt r (some map) (placeOf location)
      (∀ endless, answer = .error endless ↔ described = .error endless) ∧
      (described = .ok none → answer = .ok []) ∧
      ∀ fields, described = .ok (some fields) → ∃ suggestions, answer = .ok suggestions ∧
        suggestions.map Suggestion.value = free fields typed (beside ++ placeholder key) ∧
        (suggestions.map Suggestion.value = free fields typed beside ↔
          ∀ name ∈ placeholder key, name ∉ free fields typed beside)) ∧
    (¬AmongKeys location → Narrows document r offset.toNat location answer) := by
  intro r location typed answer
  have nonneg : 0 ≤ offset := by
    rw [Document.holds, Bool.and_eq_true, decide_eq_true_eq] at inside
    exact inside.1
  have there : locate document.root document.text (offset.toNat : Nat) = location := by
    rw [Int.toNat_of_nonneg nonneg]
  have given : answer = (offerAt document r offset.toNat).map Offer.narrowed := if_pos inside
  rw [offerAt, there] at given
  refine ⟨exists_inMapping, ?_, fun elsewhere => ?_⟩
  · intro map key beside within distinct described
    have values : answer.map (List.map Suggestion.value) =
        freeAt document r offset.toNat location map (beside ++ placeholder key) := by
      rw [given, map_map]
      cases region : location.region with
      | key => exact narrowed_onKey region within distinct
      | value =>
          cases within with
          | key other => cases region.symm.trans other
          | between other => cases region.symm.trans other
      | empty => exact narrowed_onEmpty_map region within
    refine ⟨fun endless => ?_, fun nothing => ?_, fun fields known => ?_⟩
    · rw [← map_eq_error_iff answer (List.map Suggestion.value), values, freeAt, map_eq_error_iff]
    · rw [freeAt] at values
      rw [show document.fieldsAt r (some map) (placeOf location) = .ok none from nothing] at values
      obtain ⟨suggestions, same, empty⟩ := (map_eq_ok_iff _ _ _).mp values
      rw [same, List.map_eq_nil_iff.mp empty]
    · rw [freeAt] at values
      rw [show document.fieldsAt r (some map) (placeOf location) = .ok (some fields) from known]
        at values
      obtain ⟨suggestions, same, exact⟩ := (map_eq_ok_iff _ _ _).mp values
      refine ⟨suggestions, same, exact, ?_⟩
      rw [exact]
      exact free_append_iff
  · rw [given]
    cases region : location.region with
    | key => exact absurd (.inl region) elsewhere
    | value => exact narrows_onValue region
    | empty =>
        refine narrows_onEmpty region fun info anchor flow pairs here => ?_
        exact elsewhere (.inr ⟨region, info, anchor, flow, pairs, here⟩)

def declaring (names : List String) (text : String) : Except Document.Unread Document :=
  Document.read {} ⟨.mapping {} { properties := names.map (⟨Text.of ·, .anything, false⟩) }, []⟩
    (.fixed .undefined []) (Text.of text)

/-- The key `o` beside the key `on`. -/
theorem complete_exact_beside :
    ∃ document map key beside fields suggestions,
      declaring ["on", "off"] "on: 1\no: 2" = .ok document ∧ document.holds 7 = true ∧
      InMapping (locate document.root document.text 7) map key beside ∧ map.keys.Nodup ∧
      document.fieldsAt (document.resolution (.fixed .undefined [])) (some map)
        (placeOf (locate document.root document.text 7)) = .ok (some fields) ∧
      document.complete (.fixed .undefined []) 7 = .ok suggestions ∧
      suggestions.map Suggestion.value =
        free fields (typedAt document.text 7 (locate document.root document.text 7))
          (beside ++ placeholder key) ∧
      suggestions.map Suggestion.value = [Text.of "off"] := by
  obtain ⟨document, read, facts⟩ := exists_ok_of_any
    (declaring ["on", "off"] "on: 1\no: 2") (fun document =>
      let location := locate document.root document.text 7
      decide (document.holds 7 = true ∧ location.region = .key ∧
        location.parent.map Node.keys = some [Text.of "on", Text.of "o"] ∧
        ((document.fieldsAt (document.resolution (.fixed .undefined [])) location.parent
          (placeOf location)).toOption.any Option.isSome) = true ∧
        (document.complete (.fixed .undefined []) 7).toOption.map (List.map Suggestion.value) =
          some [Text.of "off"]))
    (by decide +kernel)
  obtain ⟨inside, region, keys, described, answer⟩ := of_decide_eq_true facts
  obtain ⟨exists_mapping, exact, -⟩ :=
    complete_exact document (.fixed .undefined []) 7 inside
  obtain ⟨map, key, beside, within⟩ := exists_mapping (.inl region)
  have around : (locate document.root document.text 7).parent = some map := by
    cases within with
    | key _ around => exact around
    | between other => cases region.symm.trans other
  rw [around] at keys described
  have distinct : map.keys.Nodup := by
    rw [Option.some.inj keys]
    decide
  obtain ⟨outcome, described, found⟩ := exists_ok_of_any _ _ described
  obtain ⟨fields, rfl⟩ := Option.isSome_iff_exists.mp found
  obtain ⟨suggestions, completed, values, -⟩ :=
    (exact map key beside within distinct).2.2 fields described
  rw [completed] at answer
  exact ⟨document, map, key, beside, fields, suggestions, read, inside, within, distinct, described,
    completed, values, Option.some.inj answer⟩

/-- The mapping that is a key is not suggested under the name it has as a key. -/
theorem complete_placeholder :
    ∃ document map key fields, declaring ["<map>"] "\x7ba: b\x7d: c" = .ok document ∧
      document.holds 0 = true ∧
      InMapping (locate document.root document.text 0) map (some key) [] ∧ map.keys.Nodup ∧
      document.fieldsAt (document.resolution (.fixed .undefined [])) (some map)
        (placeOf (locate document.root document.text 0)) = .ok (some fields) ∧
      free fields (typedAt document.text 0 (locate document.root document.text 0)) [] =
        [Text.of "<map>"] ∧
      document.complete (.fixed .undefined []) 0 = .ok [] := by
  obtain ⟨document, read, facts⟩ := exists_ok_of_any
    (declaring ["<map>"] "\x7ba: b\x7d: c") (fun document =>
      let location := locate document.root document.text 0
      decide (document.holds 0 = true ∧ location.region = .key ∧
        location.parent.map Node.keys = some [Text.of "<map>"] ∧
        (document.fieldsAt (document.resolution (.fixed .undefined [])) location.parent
          (placeOf location)).toOption.any (fun fields =>
            decide (fields.map (free · (typedAt document.text 0 location) []) =
              some [Text.of "<map>"])) = true ∧
        (document.complete (.fixed .undefined []) 0).toOption = some [])) (by decide +kernel)
  obtain ⟨inside, region, keys, described, answer⟩ := of_decide_eq_true facts
  obtain ⟨map, key, beside, within⟩ := exists_inMapping (.inl region)
  cases within with
  | between other => cases region.symm.trans other
  | @key map key value front back _ around here pairs =>
      rw [around] at keys described
      have single : map.keys.length = 1 := congrArg List.length (Option.some.inj keys)
      rw [Node.keys, pairs, List.length_map, List.length_append, List.length_cons] at single
      obtain rfl : front = [] := List.length_eq_zero_iff.mp (by omega)
      obtain rfl : back = [] := List.length_eq_zero_iff.mp (by omega)
      obtain ⟨outcome, described, named⟩ := exists_ok_of_any _ _ described
      obtain ⟨fields, rfl, free⟩ := Option.map_eq_some_iff.mp (of_decide_eq_true named)
      refine ⟨document, map, key, fields, read, inside, .key region around here pairs, ?_,
        described, free, (toOption_eq_some_iff _ _).mp answer⟩
      rw [Option.some.inj keys]
      decide

end Flowfile.Completion
