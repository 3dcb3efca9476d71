import Flowfile.Proofs.Schema.Acceptance
import Flowfile.Workflow.Schema

/-! The schema of workflow files depends on places and contexts only, and nowhere are there two
scalars or two mappings to choose from. -/

namespace Flowfile

theorem Resolution.options_terminals (r : Resolution) (path : Path) (about : About)
    (terminals : List Terminal) :
    r.options path (.oneOf about (terminals.map Terminal.toDesc)) = .ok terminals := by
  have each : r.Yields path (terminals.map Terminal.toDesc) terminals := by
    induction terminals with
    | nil => exact .nil
    | cons first rest ih =>
        refine .single ?_ ih
        cases first <;> rfl
  have whole : r.Yields path [.oneOf about (terminals.map Terminal.toDesc)] (terminals ++ []) :=
    .oneOf rfl each .nil
  rw [options_eq_ok_iff]
  rwa [List.append_nil] at whole

namespace Workflow

def Regular (desc : Desc) : Prop :=
  desc.IgnoresWorkflow ∧ ∀ r : Resolution, r.definitions = schema.definitions → ∀ path,
    ∃ terminals, r.options path desc = .ok terminals ∧ Validation.Unmixed terminals

theorem unmixed_single (terminal : Terminal) : Validation.Unmixed [terminal] := by
  constructor <;> exact List.countP_le_length

theorem regular_terminal (terminal : Terminal) : Regular terminal.toDesc := by
  refine ⟨?_, ?_⟩
  · cases terminal <;> trivial
  · intro r _ path
    have head : r.concrete path terminal.toDesc = some (.single terminal) := by
      cases terminal <;> rfl
    exact ⟨_, Resolution.options_single head, unmixed_single terminal⟩

theorem regular_oneOf {about : About} (terminals : List Terminal)
    (unmixed : Validation.Unmixed terminals) :
    Regular (.oneOf about (terminals.map Terminal.toDesc)) := by
  refine ⟨trivial, ?_⟩
  intro r _ path
  exact ⟨terminals, Resolution.options_terminals .., unmixed⟩

theorem stepInputs_mapping (inquiry : Inquiry) :
    ∃ about fields, stepInputs inquiry = some (.mapping about fields) := by
  rw [stepInputs]
  split
  · exact ⟨_, _, rfl⟩
  · exact ⟨_, _, rfl⟩

theorem regular_stepInputs (about : About) : Regular (.custom about stepInputs) := by
  refine ⟨?_, ?_⟩
  · intro workflow workflow' path context
    rfl
  · intro r _ path
    obtain ⟨about', fields, resolved⟩ := stepInputs_mapping ⟨r.workflow, path, r.contextAt path⟩
    have head : r.concrete path (.custom about stepInputs) =
        some (.single (.mapping about' fields)) := by
      have followed : Schema.follow r.definitions (.custom about stepInputs) =
        some (.custom about stepInputs) := rfl
      rw [Resolution.concrete, Resolution.concreteWithin.eq_def]
      simp only [followed, resolved]
      rfl
    exact ⟨_, Resolution.options_single head, unmixed_single _⟩

theorem regular_reference (about : About) {name : Text}
    (declared : name = jobName ∨ name = stepName) : Regular (.reference about name) := by
  refine ⟨trivial, ?_⟩
  intro r same path
  have head : ∃ terminal, r.concrete path (.reference about name) = some (.single terminal) := by
    obtain ⟨definitions, workflow, contexts⟩ := r
    cases same
    rcases declared with rfl | rfl
    · exact ⟨_, rfl⟩
    · exact ⟨_, rfl⟩
  obtain ⟨terminal, head⟩ := head
  exact ⟨_, Resolution.options_single head, unmixed_single terminal⟩

section

variable {about : About}

@[simp]
theorem scalar_regular {choices : Choices} : (Desc.scalar about choices).Throughout Regular :=
  .scalar (regular_terminal (.scalar about choices))

@[simp]
theorem sequence_regular {items : Desc} :
    (Desc.sequence about items).Throughout Regular ↔ items.Throughout Regular := by
  constructor
  · intro all
    cases all with
    | sequence here each => exact each
  · exact .sequence (regular_terminal (.sequence about items))

@[simp]
theorem mapping_regular {fields : Fields Desc} :
    (Desc.mapping about fields).Throughout Regular ↔
      (∀ property ∈ fields.properties, property.desc.Throughout Regular) ∧
        ∀ desc, fields.fallback = some desc → desc.Throughout Regular := by
  constructor
  · intro all
    cases all with
    | mapping here properties fallback => exact ⟨properties, fallback⟩
  · intro both
    exact .mapping (regular_terminal (.mapping about fields)) both.1 both.2

theorem oneOf_regular (terminals : List Terminal) (unmixed : Validation.Unmixed terminals)
    (each : ∀ terminal ∈ terminals, terminal.toDesc.Throughout Regular) :
    (Desc.oneOf about (terminals.map Terminal.toDesc)).Throughout Regular := by
  refine .oneOf (regular_oneOf terminals unmixed) ?_
  intro option member
  obtain ⟨terminal, given, rfl⟩ := List.mem_map.mp member
  exact each terminal given

end

theorem activityTypes_regular (event : Event) :
    (activityTypes event).desc.Throughout Regular := by
  refine oneOf_regular [.sequence _ _, .scalar _ _] ?_ ?_
  · simp [Validation.Unmixed, Terminal.shape]
  · simp [Terminal.toDesc]

theorem ownProperties_regular (name : String) :
    ∀ property ∈ ownProperties name, property.desc.Throughout Regular := by
  rw [ownProperties]
  repeat' split
  all_goals simp [branchFilters, tagFilters, pathFilters, optional, anyTexts, manualInput, anyText,
    boolean, Desc.anything]

theorem eventDesc_regular (event : Event) : (eventDesc event).Throughout Regular := by
  rw [eventDesc]
  split
  · simp [required, anyText]
  · rw [mapping_regular]
    refine ⟨?_, by simp⟩
    intro property member
    rcases List.mem_append.mp member with type | own
    · split at type
      · cases type
      · cases List.mem_singleton.mp type
        exact activityTypes_regular event
    · exact ownProperties_regular event.name property own

theorem triggers_regular : triggers.Throughout Regular := by
  refine oneOf_regular [.scalar _ _, .sequence _ _, .mapping _ _] ?_ ?_
  · simp [Validation.Unmixed, Terminal.shape]
  · simp [Terminal.toDesc, eventName, optional, eventDesc_regular]

theorem stepInputs_regular (inquiry : Inquiry) (desc : Desc)
    (resolved : stepInputs inquiry = some desc) : desc.Throughout Regular := by
  rw [stepInputs] at resolved
  split at resolved
  · cases resolved
    rw [mapping_regular]
    refine ⟨?_, by simp⟩
    intro property member
    obtain ⟨name, -, rfl⟩ := List.mem_map.mp (Fields.mem_of_mem_ofList member)
    exact scalar_regular
  · cases resolved
    simp [Desc.anything]

theorem stepDesc_regular : stepDesc.Throughout Regular := by
  have inputs (about : About) : (Desc.custom about stepInputs).Throughout Regular :=
    .custom (regular_stepInputs about) stepInputs_regular
  simp [stepDesc, optional, anyText, boolean, envMapping, Desc.anything, inputs]

theorem jobDesc_regular : jobDesc.Throughout Regular := by
  have step (about : About) : (Desc.reference about stepName).Throughout Regular :=
    .reference (regular_reference about (.inr rfl))
  simp [jobDesc, optional, required, envMapping, Desc.anything, step]

theorem schema_regular : schema.Throughout Regular where
  root := by
    have job (about : About) : (Desc.reference about jobName).Throughout Regular :=
      .reference (regular_reference about (.inl rfl))
    simp [schema, rootDesc, optional, required, anyText, envMapping, Desc.anything, job,
      triggers_regular]
  definitions := by
    intro name desc member
    rcases List.mem_cons.mp member with job | later
    · cases job
      exact jobDesc_regular
    · cases List.mem_singleton.mp later
      exact stepDesc_regular

theorem schema_steady : schema.Steady where
  root := schema_regular.root.mono fun _ regular => regular.1
  definitions name desc member :=
    (schema_regular.definitions name desc member).mono fun _ regular => regular.1

theorem schema_options {r : Resolution} (same : r.definitions = schema.definitions) {path : Path}
    {desc : Desc} (found : r.descOf? schema.root path = .ok (some desc)) :
    ∃ terminals, r.options path desc = .ok terminals ∧ Validation.Unmixed terminals := by
  have definitions : ∀ name desc, (name, desc) ∈ r.definitions → desc.Throughout Regular := by
    rw [same]
    exact schema_regular.definitions
  have regular := Resolution.throughout_descOf? definitions schema_regular.root found
  exact regular.holds.2 r same path

theorem schema_ends {r : Resolution} (same : r.definitions = schema.definitions) :
    r.Ends schema.root := by
  intro path desc found
  obtain ⟨terminals, flattened, -⟩ := schema_options same found
  exact ⟨terminals, flattened⟩

theorem schema_unmixed {r : Resolution} (same : r.definitions = schema.definitions) {path : Path}
    {desc : Desc} {terminals : List Terminal} (found : r.descOf? schema.root path = .ok (some desc))
    (flattened : r.options path desc = .ok terminals) : Validation.Unmixed terminals := by
  obtain ⟨terminals', flattened', unmixed⟩ := schema_options same found
  cases flattened.symm.trans flattened'
  exact unmixed

end Workflow

end Flowfile
