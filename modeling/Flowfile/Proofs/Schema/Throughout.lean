import Flowfile.Proofs.Schema.Visit

/-! What holds of a description and of all that it leads to.

A property that holds of all the descriptions of a schema holds of those that references, custom
descriptions, alternatives and the segments of a path lead to. -/

namespace Flowfile

inductive Desc.Throughout (P : Desc → Prop) : Desc → Prop
  | scalar {about choices} (here : P (.scalar about choices)) : Throughout P (.scalar about choices)
  | mapping {about fields} (here : P (.mapping about fields))
      (properties : ∀ property ∈ fields.properties, Throughout P property.desc)
      (fallback : ∀ desc, fields.fallback = some desc → Throughout P desc) :
      Throughout P (.mapping about fields)
  | sequence {about items} (here : P (.sequence about items)) (each : Throughout P items) :
      Throughout P (.sequence about items)
  | oneOf {about options} (here : P (.oneOf about options))
      (each : ∀ option ∈ options, Throughout P option) : Throughout P (.oneOf about options)
  | custom {about resolve} (here : P (.custom about resolve))
      (resolved : ∀ inquiry desc, resolve inquiry = some desc → Throughout P desc) :
      Throughout P (.custom about resolve)
  | reference {about name} (here : P (.reference about name)) : Throughout P (.reference about name)

theorem Desc.Throughout.holds {P : Desc → Prop} {desc : Desc} (all : desc.Throughout P) :
    P desc := by
  cases all <;> assumption

theorem Desc.Throughout.mono {P Q : Desc → Prop} (weaker : ∀ desc, P desc → Q desc) {desc : Desc}
    (all : desc.Throughout P) : desc.Throughout Q := by
  induction all with
  | scalar here => exact .scalar (weaker _ here)
  | mapping here _ _ properties fallback => exact .mapping (weaker _ here) properties fallback
  | sequence here _ each => exact .sequence (weaker _ here) each
  | oneOf here _ each => exact .oneOf (weaker _ here) each
  | custom here _ resolved => exact .custom (weaker _ here) resolved
  | reference here => exact .reference (weaker _ here)

structure Schema.Throughout (P : Desc → Prop) (schema : Schema) : Prop where
  root : schema.root.Throughout P
  definitions : ∀ name desc, (name, desc) ∈ schema.definitions → desc.Throughout P

theorem Fields.desc?_eq_some {α : Type} {fields : Fields α} {key : Text} {desc : α}
    (found : fields.desc? key = some desc) :
    (∃ property ∈ fields.properties, property.desc = desc) ∨ fields.fallback = some desc := by
  rw [Fields.desc?] at found
  split at found
  · rename_i property declared
    cases found
    exact .inl ⟨property, List.mem_of_find?_eq_some declared, rfl⟩
  · split at found
    · exact .inr found
    · cases found

theorem Fields.mem_of_mem_declare {α : Type} {property declared : Property α}
    {properties : List (Property α)} (member : declared ∈ Fields.declare property properties) :
    declared = property ∨ declared ∈ properties := by
  induction properties with
  | nil => exact .inl (List.mem_singleton.mp member)
  | cons first rest ih =>
      rw [Fields.declare] at member
      split at member
      · rcases List.mem_cons.mp member with new | later
        · exact .inl new
        · exact .inr (List.mem_cons_of_mem _ later)
      · rcases List.mem_cons.mp member with head | later
        · exact .inr (List.mem_cons.mpr (.inl head))
        · exact (ih later).imp_right (List.mem_cons_of_mem _)

theorem Fields.mem_of_mem_ofList {α : Type} {declared : Property α}
    {properties : List (Property α)} (member : declared ∈ Fields.ofList properties) :
    declared ∈ properties := by
  have from_either (before after : List (Property α))
      (member : declared ∈ after.foldl (fun all property => declare property all) before) :
      declared ∈ before ∨ declared ∈ after := by
    induction after generalizing before with
    | nil => exact .inl member
    | cons first rest ih =>
        rcases ih _ member with known | later
        · rcases mem_of_mem_declare known with rfl | old
          · exact .inr List.mem_cons_self
          · exact .inl old
        · exact .inr (List.mem_cons_of_mem _ later)
  exact (from_either [] properties member).resolve_left List.not_mem_nil

namespace Resolution

variable {r : Resolution} {path : Path} {desc : Desc} {P : Desc → Prop}

/-- The description at a path, whatever stands there. -/
def descOf? (r : Resolution) (schema : Desc) (path : Path) : Except Endless (Option Desc) :=
  (r.descAt none schema path).map (Option.map Prod.fst)

/-- Wherever a path leads, the alternatives there come to an end. -/
def Ends (r : Resolution) (schema : Desc) : Prop :=
  ∀ path desc, r.descOf? schema path = .ok (some desc) →
    ∃ options, r.options path desc = .ok options

theorem descend_cons_eq_ok {walked rest : Path} {node child : Option Node} {segment : Segment}
    {inner : Desc}
    (found : r.descend walked desc node (segment :: rest) = .ok (some (inner, child))) :
    ∃ terminal, r.selectShape walked desc (segmentShape segment) = .ok (some terminal) ∧
      ∃ next child', enter terminal node segment = some (next, child') ∧
        r.descend (walked ++ [segment]) next child' rest = .ok (some (inner, child)) := by
  rw [descend] at found
  obtain ⟨chosen, selected, found⟩ := (bind_eq_ok _ _ _).mp found
  split at found
  · cases found
  · rename_i terminal
    split at found
    · cases found
    · rename_i next child' entered
      exact ⟨terminal, selected, next, child', entered, found⟩

theorem throughout_enter {terminal : Terminal} {node child : Option Node} {segment : Segment}
    {inner : Desc} (all : terminal.toDesc.Throughout P)
    (entered : enter terminal node segment = some (inner, child)) : inner.Throughout P := by
  cases segment with
  | key name =>
      cases terminal with
      | mapping about fields =>
          obtain ⟨desc, known, same⟩ := Option.map_eq_some_iff.mp entered
          cases same
          cases all with
          | mapping here properties fallback =>
              rcases Fields.desc?_eq_some known with ⟨property, declared, rfl⟩ | spare
              · exact properties property declared
              · exact fallback _ spare
      | scalar | sequence => cases entered
  | index position =>
      cases terminal with
      | sequence about items =>
          cases entered
          cases all with
          | sequence here each => exact each
      | scalar | mapping => cases entered

section

variable (definitions : ∀ name desc, (name, desc) ∈ r.definitions → desc.Throughout P)

include definitions

theorem throughout_followWithin {limit : Nat} {target : Desc} (all : desc.Throughout P)
    (followed : Schema.followWithin r.definitions limit desc = some target) :
    target.Throughout P := by
  induction limit generalizing desc with
  | zero => cases desc <;> cases followed <;> exact all
  | succ left ih =>
      cases desc with
      | reference about name =>
          rw [followWithin_succ] at followed
          obtain ⟨next, found, rest⟩ := Option.bind_eq_some_iff.mp followed
          obtain ⟨before, after, whole, -⟩ := List.lookup_eq_some_iff.mp found
          exact ih (definitions name next (by simp [whole])) rest
      | scalar | mapping | sequence | oneOf | custom =>
          cases followed
          exact all

theorem throughout_concreteWithin {limit : Nat} {concrete : Concrete} (all : desc.Throughout P)
    (found : r.concreteWithin path limit desc = some concrete) : concrete.toDesc.Throughout P := by
  induction limit generalizing desc with
  | zero =>
      rcases concreteWithin_eq_some found with followed | ⟨_, _, _, _, _, more, _⟩
      · exact throughout_followWithin definitions all followed
      · cases more
  | succ limit ih =>
      rcases concreteWithin_eq_some found with
        followed | ⟨about, resolve, next, left, followed, more, resolved, rest⟩
      · exact throughout_followWithin definitions all followed
      · cases more
        cases throughout_followWithin definitions all followed with
        | custom here results => exact ih (results _ _ resolved) rest

theorem throughout_of_yields {descs : List Desc} {terminals : List Terminal}
    (yields : r.Yields path descs terminals) (all : ∀ desc ∈ descs, desc.Throughout P) :
    ∀ terminal ∈ terminals, terminal.toDesc.Throughout P := by
  induction yields with
  | nil => exact fun _ member => absurd member List.not_mem_nil
  | nothing head _ ih => exact ih (List.forall_mem_cons.mp all).2
  | single head _ ih =>
      obtain ⟨first, others⟩ := List.forall_mem_cons.mp all
      have held := throughout_concreteWithin definitions first head
      exact List.forall_mem_cons.mpr ⟨held, ih others⟩
  | oneOf head _ _ inner ih =>
      obtain ⟨first, others⟩ := List.forall_mem_cons.mp all
      cases throughout_concreteWithin definitions first head with
      | oneOf here each => exact List.forall_mem_append.mpr ⟨inner each, ih others⟩

theorem throughout_of_mem_options {terminals : List Terminal} {terminal : Terminal}
    (all : desc.Throughout P) (found : r.options path desc = .ok terminals)
    (member : terminal ∈ terminals) : terminal.toDesc.Throughout P := by
  refine throughout_of_yields definitions (options_eq_ok_iff.mp found) ?_ terminal member
  exact List.forall_mem_singleton.mpr all

theorem throughout_of_selectShape {shape : Shape} {terminal : Terminal} (all : desc.Throughout P)
    (chosen : r.selectShape path desc shape = .ok (some terminal)) :
    terminal.toDesc.Throughout P := by
  obtain ⟨terminals, flattened, found⟩ := (map_eq_ok_iff _ _ _).mp chosen
  exact throughout_of_mem_options definitions all flattened (List.mem_of_find?_eq_some found)

theorem throughout_descend {walked : Path} {node child : Option Node} {inner : Desc}
    (all : desc.Throughout P)
    (found : r.descend walked desc node path = .ok (some (inner, child))) :
    inner.Throughout P := by
  induction path generalizing desc walked node with
  | nil =>
      cases found
      exact all
  | cons segment rest ih =>
      obtain ⟨terminal, chosen, next, child', entered, found⟩ := descend_cons_eq_ok found
      have held := throughout_of_selectShape definitions all chosen
      exact ih (throughout_enter held entered) found

theorem throughout_descOf? {schema : Desc} (all : schema.Throughout P)
    (found : r.descOf? schema path = .ok (some desc)) : desc.Throughout P := by
  obtain ⟨whole, descended, same⟩ := (map_eq_ok_iff _ _ _).mp found
  obtain ⟨⟨inner, child⟩, rfl, rfl⟩ := Option.map_eq_some_iff.mp same
  exact throughout_descend definitions all descended

end

end Resolution

end Flowfile
