import Flowfile.Proofs.Schema.Throughout

/-! What a place is described as, whatever stands there.

A path comes to the same description in every tree. Where neither the custom descriptions nor the
contexts look at the workflow, it comes to the same one for every workflow, too. -/

namespace Flowfile

/-- If the description is a custom one, then it does not look at the workflow. -/
def Desc.IgnoresWorkflow : Desc → Prop
  | .custom _ resolve => ∀ workflow workflow' path context,
      resolve ⟨workflow, path, context⟩ = resolve ⟨workflow', path, context⟩
  | _ => True

abbrev Desc.Steady (desc : Desc) : Prop := desc.Throughout IgnoresWorkflow

abbrev Schema.Steady (schema : Schema) : Prop := schema.Throughout Desc.IgnoresWorkflow

def ContextSource.Static (contexts : ContextSource) : Prop :=
  ∀ workflow workflow' path, contexts workflow path = contexts workflow' path

theorem ContextSource.fixed_static (values : Value) (suggestions : List (Text × List Text)) :
    (ContextSource.fixed values suggestions).Static := by
  intro workflow workflow' path
  rfl

namespace Resolution

variable {r : Resolution} {path : Path} {desc : Desc}

def withWorkflow (r : Resolution) (workflow : Value) : Resolution := { r with workflow := workflow }

theorem enter_fst (terminal : Terminal) (node node' : Option Node) (segment : Segment) :
    (enter terminal node segment).map Prod.fst = (enter terminal node' segment).map Prod.fst := by
  cases segment <;> cases terminal <;> simp [enter, Function.comp_def]

section

variable (definitions : ∀ name desc, (name, desc) ∈ r.definitions → desc.Steady)
  (static : r.contexts.Static) (workflow : Value)

include definitions static

theorem concreteWithin_withWorkflow (limit : Nat) (steady : desc.Steady) :
    (r.withWorkflow workflow).concreteWithin path limit desc =
      r.concreteWithin path limit desc := by
  have context : (r.withWorkflow workflow).contextAt path = r.contextAt path := static ..
  induction limit generalizing desc with
  | zero =>
      rw [concreteWithin.eq_def, concreteWithin.eq_def r]
      rfl
  | succ left ih =>
      rw [concreteWithin.eq_def, concreteWithin.eq_def r]
      rcases followed : Schema.follow r.definitions desc with _ | target
      · simp only [withWorkflow, followed]
      · cases target with
        | custom about resolve =>
            cases throughout_followWithin definitions steady followed with
            | custom same results =>
                have resolves := same workflow r.workflow path (r.contextAt path)
                rw [context]
                simp only [withWorkflow, followed, resolves]
                rcases resolved : resolve ⟨r.workflow, path, r.contextAt path⟩ with _ | next
                · rfl
                · exact ih (results _ _ resolved)
        | _ => simp only [withWorkflow, followed]

theorem concrete_withWorkflow (steady : desc.Steady) :
    (r.withWorkflow workflow).concrete path desc = r.concrete path desc :=
  concreteWithin_withWorkflow definitions static workflow customLimit steady

theorem yields_withWorkflow {descs : List Desc} {terminals : List Terminal}
    (steady : ∀ desc ∈ descs, desc.Steady) :
    (r.withWorkflow workflow).Yields path descs terminals ↔ r.Yields path descs terminals := by
  have head (desc : Desc) (steady : desc.Steady) :
      (r.withWorkflow workflow).concrete path desc = r.concrete path desc :=
    concrete_withWorkflow definitions static workflow steady
  have inside {desc : Desc} {about : About} {options : List Desc} (steady : desc.Steady)
      (found : r.concrete path desc = some (.oneOf about options)) :
      ∀ option ∈ options, option.Steady := by
    cases throughout_concreteWithin definitions steady found with
    | oneOf here each => exact each
  constructor
  · intro yields
    induction yields with
    | nil => exact .nil
    | nothing found _ ih =>
        obtain ⟨first, others⟩ := List.forall_mem_cons.mp steady
        rw [head _ first] at found
        exact .nothing found (ih others)
    | single found _ ih =>
        obtain ⟨first, others⟩ := List.forall_mem_cons.mp steady
        rw [head _ first] at found
        exact .single found (ih others)
    | oneOf found _ _ each ih =>
        obtain ⟨first, others⟩ := List.forall_mem_cons.mp steady
        rw [head _ first] at found
        exact .oneOf found (each (inside first found)) (ih others)
  · intro yields
    induction yields with
    | nil => exact .nil
    | nothing found _ ih =>
        obtain ⟨first, others⟩ := List.forall_mem_cons.mp steady
        exact .nothing ((head _ first).trans found) (ih others)
    | single found _ ih =>
        obtain ⟨first, others⟩ := List.forall_mem_cons.mp steady
        exact .single ((head _ first).trans found) (ih others)
    | oneOf found _ _ each ih =>
        obtain ⟨first, others⟩ := List.forall_mem_cons.mp steady
        exact .oneOf ((head _ first).trans found) (each (inside first found)) (ih others)

theorem options_withWorkflow (steady : desc.Steady) :
    (r.withWorkflow workflow).options path desc = r.options path desc := by
  refine eq_of_ok_iff fun terminals => ?_
  rw [options_eq_ok_iff, options_eq_ok_iff]
  exact yields_withWorkflow definitions static workflow (List.forall_mem_singleton.mpr steady)

/-- A path comes to the same description in every tree and for every workflow. -/
theorem descend_fst (steady : desc.Steady) (walked : Path) (node node' : Option Node) :
    ((r.withWorkflow workflow).descend walked desc node path).map (Option.map Prod.fst) =
      (r.descend walked desc node' path).map (Option.map Prod.fst) := by
  induction path generalizing desc walked node node' with
  | nil => rfl
  | cons segment rest ih =>
      rw [descend, descend, selectShape,
        options_withWorkflow definitions static workflow steady, ← selectShape]
      rcases chosen : r.selectShape walked desc (segmentShape segment) with endless | _ | terminal
      · rfl
      · rfl
      · have held := throughout_of_selectShape definitions steady chosen
        have same := enter_fst terminal node node' segment
        rw [ok_bind, ok_bind]
        rcases entered : enter terminal node segment with _ | ⟨inner, child⟩
        all_goals rcases entered' : enter terminal node' segment with _ | ⟨inner', child'⟩
        all_goals rw [entered, entered'] at same
        · simp only [entered, entered']
        · cases same
        · cases same
        · cases same
          simp only [entered, entered']
          exact ih (throughout_enter held entered) _ child child'

end

theorem descAt_fst {schema : Desc} (steady : schema.Steady)
    (definitions : ∀ name desc, (name, desc) ∈ r.definitions → desc.Steady)
    (static : r.contexts.Static) (root : Option Node) (path : Path) :
    (r.descAt root schema path).map (Option.map Prod.fst) = r.descOf? schema path :=
  descend_fst definitions static r.workflow steady [] root none

end Resolution

namespace Validation

variable {r : Resolution}

theorem step_enters {first next : Visit} (step : Step r first next) :
    ∃ segment, next.path = first.path ++ [segment] ∧ ∀ node suffix, ∃ child,
      r.descend first.path first.desc node (segment :: suffix) =
        r.descend next.path next.desc child suffix := by
  cases step with
  | @pair path desc info anchor flow pairs about fields problems key value inner settled member
      known =>
      refine ⟨.key key.keyText, rfl, ?_⟩
      intro node suffix
      have chosen := settle_select settled rfl
      change r.selectShape path desc .mapping = _ at chosen
      refine ⟨(node.map Node.unalias).bind fun map => map.get? key.keyText, ?_⟩
      rw [Resolution.descend, Resolution.segmentShape, chosen, ok_bind]
      simp only [Resolution.enter, known, Option.map_some]
  | @item path desc info anchor flow items about inner problems position item settled member =>
      refine ⟨.index position, rfl, ?_⟩
      intro node suffix
      have chosen := settle_select settled rfl
      change r.selectShape path desc .sequence = _ at chosen
      refine ⟨(node.map Node.unalias).bind fun seq => seq.item? position, ?_⟩
      rw [Resolution.descend, Resolution.segmentShape, chosen, ok_bind]
      simp only [Resolution.enter]

theorem walks_enter {first last : Visit} (walks : Walks r first last) :
    ∃ suffix, last.path = first.path ++ suffix ∧
      ∀ node, (r.descend first.path first.desc node suffix).map (Option.map Prod.fst) =
        .ok (some last.desc) := by
  induction walks with
  | here => exact ⟨[], (List.append_nil _).symm, fun _ => rfl⟩
  | step step rest ih =>
      obtain ⟨segment, longer, enters⟩ := step_enters step
      obtain ⟨suffix, whole, found⟩ := ih
      refine ⟨segment :: suffix, ?_, ?_⟩
      · rw [whole, longer, List.append_assoc, List.singleton_append]
      · intro node
        obtain ⟨child, same⟩ := enters node suffix
        rw [same]
        exact found child

theorem descOf?_of_walks {schema : Desc} (steady : schema.Steady)
    (definitions : ∀ name desc, (name, desc) ∈ r.definitions → desc.Steady)
    (static : r.contexts.Static) {workflow : Value} {root : Node} {visit : Visit}
    (walks : Walks (r.withWorkflow workflow) ⟨[], schema, root⟩ visit) :
    r.descOf? schema visit.path = .ok (some visit.desc) := by
  obtain ⟨suffix, whole, found⟩ := walks_enter walks
  rw [whole]
  calc r.descOf? schema suffix
      = ((r.withWorkflow workflow).descend [] schema none suffix).map (Option.map Prod.fst) :=
        (Resolution.descend_fst definitions static workflow steady [] none none).symm
    _ = .ok (some visit.desc) := found none

end Validation

end Flowfile
