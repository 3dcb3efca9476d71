import Flowfile.Proofs.Context.Answer
import Flowfile.Proofs.Schema.Index

/-! When hover has no outcome: just where the expressions under the cursor come to an unmet demand.
-/

namespace Flowfile

namespace Hover

theorem evaluated_eq_error (context : Context) (raw : Text) (error : EvalError) :
    evaluated context raw = .error error ↔
      error.Escapes ∧ ∃ demand, Template.Demands context.resolve raw demand ∧
        demand.Fails context.resolve error := by
  rw [evaluated]
  constructor
  · intro failed
    split at failed
    · cases failed
    · cases failed
    · rename_i inner other same
      cases failed
      exact ⟨other, (Template.evaluate_eq_error _ raw error other).mp same⟩
  · rintro ⟨escapes, demand⟩
    rw [(Template.evaluate_eq_error _ raw error escapes).mpr demand]
    split
    · rename_i same
      cases same
    · rename_i problem same
      cases same
      exact absurd rfl (escapes problem)
    · rename_i same
      cases same
      rfl

def OnScalar (document : Document) (offset : Nat) (location : Location) (raw : Text) : Prop :=
  ∃ info anchor value style, location.node = some (.scalar info anchor raw value style) ∧
    Template.hasExpression raw = true ∧
      onExpression (document.text.slice info.start info.stop) ((offset : Int) - info.start) = true

theorem expressionText_eq_error (document : Document) (contexts : ContextSource) (offset : Nat)
    (location : Location) (error : EvalError) :
    expressionText document contexts offset location = .error error ↔
      ∃ raw, OnScalar document offset location raw ∧
        evaluated (contexts document.workflow location.path) raw = .error error := by
  rw [expressionText]
  constructor
  · intro failed
    split at failed
    · rename_i info anchor raw value style same
      split at failed
      · rename_i inside
        obtain ⟨embedded, held⟩ := Bool.and_eq_true_iff.mp inside
        exact ⟨raw, ⟨info, anchor, value, style, same, embedded, held⟩, failed⟩
      · cases failed
    · cases failed
  · rintro ⟨raw, ⟨info, anchor, value, style, same, embedded, held⟩, failed⟩
    rw [same]
    dsimp only
    rw [if_pos (Bool.and_eq_true_iff.mpr ⟨embedded, held⟩), failed]

end Hover

namespace Document

theorem hover_eq_error (document : Document) (contexts : ContextSource) (offset : Int)
    (error : EvalError) :
    let location := locate document.root document.text offset
    let resolve := (contexts document.workflow location.path).resolve
    document.hover contexts offset = .error (.evaluation error) ↔
      document.holds offset = true ∧ location.region = .value ∧
        ∃ raw, Hover.OnScalar document offset.toNat location raw ∧ error.Escapes ∧
          ∃ demand, Template.Demands resolve raw demand ∧ demand.Fails resolve error := by
  intro location resolve
  have evaluates : Hover.expressionText document contexts offset.toNat location = .error error ↔
      ∃ raw, Hover.OnScalar document offset.toNat location raw ∧ error.Escapes ∧
        ∃ demand, Template.Demands resolve raw demand ∧ demand.Fails resolve error := by
    rw [Hover.expressionText_eq_error]
    exact exists_congr fun raw => and_congr_right fun _ => Hover.evaluated_eq_error _ raw error
  have quoted : (Hover.schemaText document (document.resolution contexts) location).mapError
      Hover.Failure.schema ≠ .error (.evaluation error) := by
    intro failed
    obtain ⟨endless, -, other⟩ := (mapError_eq_error_iff ..).mp failed
    cases other
  rw [← evaluates, hover]
  by_cases inside : document.holds offset = true
  · simp only [inside, Bool.not_true, Bool.false_eq_true, if_false, true_and]
    rcases region : (locate document.root document.text offset).region with _ | _ | _
    · exact iff_of_false quoted fun both => by cases both.1
    · simp only [bind_eq_error, mapError_eq_error_iff, true_and]
      constructor
      · rintro (⟨inner, failed, same⟩ | ⟨text, -, failed⟩)
        · cases same
          exact failed
        · rcases text with _ | text
          · exact absurd failed quoted
          · cases failed
      · exact fun failed => .inl ⟨error, failed, rfl⟩
    · exact iff_of_false (fun failed => by cases failed) fun both => by cases both.1
  · simp only [inside, Bool.not_false, if_true, Bool.false_eq_true, false_and, iff_false]
    intro failed
    cases failed

inductive Served : ContextSource → Prop
  | fixed (values : Value) (suggestions : List (Text × List Text)) :
      Served (.fixed values suggestions)
  | edit (settings : Settings) (secrets : Option (List Text)) : Served (.edit settings secrets)

theorem not_missesStep_of_leads {root node : Node} {path : Path} (workflow : Value)
    (leads : root.Leads path node) : ¬Scope.MissesStep workflow path := by
  rintro ⟨first, second, position, rest, origin, items, rfl, -, outside⟩
  have counted := Node.leads_index_nonneg leads position (by simp)
  omega

theorem unmet_of_served {contexts : ContextSource} (served : Served contexts) {workflow : Value}
    {path : Path} {demand : Demand} {error : EvalError}
    (present : ¬Scope.MissesStep workflow path)
    (fails : demand.Fails (contexts workflow path).resolve error) :
    ∃ deeper : Demand, deeper.Unmet error fun _ => False := by
  cases demand with
  | truth value => exact ⟨.truth value, fails⟩
  | key i => exact ⟨.key i, fails⟩
  | answer asked =>
      cases served with
      | fixed values suggestions => exact absurd fails (Context.fixed_answers _ _ _ _)
      | edit settings secrets =>
          obtain ⟨deeper, -, unmet⟩ := (Context.edit_resolve_eq_error ..).mp fails
          cases deeper with
          | truth value => exact ⟨.truth value, unmet⟩
          | key i => exact ⟨.key i, unmet⟩
          | answer inner => exact absurd unmet.2.2 present

theorem hover_error_of_served {document : Document} {contexts : ContextSource} {offset : Int}
    {error : EvalError} (served : Served contexts)
    (failed : document.hover contexts offset = .error (.evaluation error)) :
    error = .integerTooLarge ∨ error = .tooManyDigits := by
  obtain ⟨-, region, raw, -, -, demand, -, fails⟩ :=
    (hover_eq_error document contexts offset error).mp failed
  -- The path of a value in the tree counts its steps from the first one.
  have present : ¬Scope.MissesStep document.workflow
      (locate document.root document.text offset).path := by
    rcases held : document.root with _ | root
    · rw [held] at region
      cases region
    · rw [held] at region
      obtain ⟨suffix, node, whole, -, leads⟩ :=
        (Location.locate_placed root document.text offset).1 region
      rw [whole]
      exact not_missesStep_of_leads document.workflow leads
  obtain ⟨deeper, unmet⟩ := unmet_of_served served present fails
  cases deeper with
  | truth value => exact .inl unmet.1
  | key i => exact .inr unmet.1
  | answer asked => exact unmet.elim

theorem hover_evaluates_iff_met (document : Document) (contexts : ContextSource) (offset : Int) :
    let location := locate document.root document.text offset
    let resolve := (contexts document.workflow location.path).resolve
    (∀ error, document.hover contexts offset ≠ .error (.evaluation error)) ↔
      (document.holds offset = true → location.region = .value →
        ∀ raw, Hover.OnScalar document offset.toNat location raw →
          ∀ demand, Template.Demands resolve raw demand → demand.Met (Answers resolve)) := by
  intro location resolve
  constructor
  · intro served inside region raw scalar demand demands
    refine (Demand.met_answers_iff resolve demand).mpr fun error escapes fails => ?_
    exact served error ((hover_eq_error document contexts offset error).mpr
      ⟨inside, region, raw, scalar, escapes, demand, demands, fails⟩)
  · intro met error failed
    obtain ⟨inside, region, raw, scalar, escapes, demand, demands, fails⟩ :=
      (hover_eq_error document contexts offset error).mp failed
    have answered := met inside region raw scalar demand demands
    exact (Demand.met_answers_iff resolve demand).mp answered error escapes fails

section

variable {document : Document} {r : Resolution} {root : Node} (held : document.root = some root)
  (straight : Validation.Straight r document.schema.root (some root))

include held straight

theorem terminalAt_of_leads {path : Path} {node : Node} (leads : root.Leads path node) :
    ∃ terminal, document.terminalAt r (some node) path = .ok terminal := by
  rw [terminalAt]
  split
  · exact ⟨_, rfl⟩
  · rw [held]
    exact Validation.selectAt_of_leads straight leads (some node)

theorem fieldsAt_of_leads {path : Path} {node : Node} (leads : root.Leads path node) :
    ∃ fields, document.fieldsAt r (some node) path = .ok fields := by
  rw [fieldsAt]
  split
  · exact ⟨_, rfl⟩
  · obtain ⟨terminal, chosen⟩ := Validation.selectAt_of_leads straight leads (some node)
    rw [held, chosen]
    exact ⟨_, rfl⟩

theorem schemaText_of_placed {location : Location} (placed : location.Placed [] root)
    (somewhere : location.region ≠ .empty) :
    ∃ text, Hover.schemaText document r location = .ok text := by
  rw [Hover.schemaText]
  rcases region : location.region with _ | _ | _
  · obtain ⟨suffix, segment, parent, whole, around, -, leads⟩ := placed.2 region
    have above : location.path.dropLast = suffix := by
      rw [whole, List.nil_append, List.dropLast_concat]
    obtain ⟨fields, known⟩ := fieldsAt_of_leads held straight leads
    rw [if_pos rfl, Hover.keyText.eq_def, around, above, known]
    split
    · exact ⟨_, rfl⟩
    · exact ⟨_, rfl⟩
  · obtain ⟨suffix, node, whole, there, leads⟩ := placed.1 region
    obtain ⟨terminal, known⟩ := terminalAt_of_leads held straight leads
    rw [List.nil_append] at whole
    rw [if_neg (by decide), Hover.valueText, there, whole]
    dsimp only
    rw [known]
    exact ⟨_, rfl⟩
  · exact absurd region somewhere

end

/-- What a document holds has been validated, so the schema has an answer for every place in it. -/
theorem hover_schema_ends {document : Document} {contexts : ContextSource}
    (indexed : document.Indexed contexts) (offset : Int) (endless : Endless) :
    document.hover contexts offset ≠ .error (.schema endless) := by
  obtain ⟨findings, run, -⟩ := indexed
  have straight := (Validation.validate_ends_iff ..).mp ⟨findings, run⟩
  have quoted (somewhere : (locate document.root document.text offset).region ≠ .empty) :
      (Hover.schemaText document (document.resolution contexts)
        (locate document.root document.text offset)).mapError Hover.Failure.schema ≠
          .error (.schema endless) := by
    intro failed
    obtain ⟨inner, failed, -⟩ := (mapError_eq_error_iff ..).mp failed
    rcases held : document.root with _ | root
    · rw [held] at somewhere
      exact somewhere rfl
    · rw [held] at straight somewhere failed
      obtain ⟨text, quotes⟩ := schemaText_of_placed held straight
        (Location.locate_placed root document.text offset) somewhere
      cases failed.symm.trans quotes
  intro failed
  rw [hover] at failed
  split at failed
  · cases failed
  · rcases region : (locate document.root document.text offset).region with _ | _ | _
    all_goals simp only [region] at failed
    · exact quoted (by simp [region]) failed
    · simp only [bind_eq_error, mapError_eq_error_iff] at failed
      rcases failed with ⟨inner, -, other⟩ | ⟨text, -, failed⟩
      · cases other
      · rcases text with _ | text
        · exact quoted (by simp [region]) failed
        · cases failed
    · cases failed

/-- The evaluation of an accepted text fails with errors of expressions only, just where all that it
demands is there: the truth of each integer it tests, each integer that is a key, and each answer of
its context. Fixed values have every answer; an edited workflow has those whose own variables come
to no unmet demand. Whatever has a value can be written. Hover in a document that has been validated
has an outcome just where the scalar under the cursor demands nothing that is not there. -/
theorem evaluation_contained_iff_met (resolve : Resolver) (source : Text) (e : Expr)
    (accepted : Expr.parse source = .ok e) (document : Document) (contexts : ContextSource)
    (offset : Int) :
    (Contained (Expr.evaluate resolve e).result ↔
      ∀ demand, Expr.Demands resolve e demand → demand.Met (Answers resolve)) ∧
    (∀ values suggestions path error,
      (Context.fixed values suggestions).resolve path ≠ .error error) ∧
    (∀ settings secrets workflow place path,
      (∃ value, (Context.edit settings secrets workflow place).resolve path = .ok value) ↔
        ∀ demand, (Scope.of workflow place).Comes settings secrets
            settings.maxContextDepth.toNat path demand →
          demand.Met fun asked =>
            ¬((∃ segments, Scope.AsksEnv asked segments) ∧ Scope.MissesStep workflow place)) ∧
    (∀ n i, Number.clamp n = .int i → (Nat.toDigits 10 i.natAbs).length ≤ digitLimit) ∧
    (let location := locate document.root document.text offset
      let served := (contexts document.workflow location.path).resolve
      (∀ error, document.hover contexts offset ≠ .error (.evaluation error)) ↔
        (document.holds offset = true → location.region = .value →
          ∀ raw, Hover.OnScalar document offset.toNat location raw →
            ∀ demand, Template.Demands served raw demand → demand.Met (Answers served))) ∧
    (document.Indexed contexts →
      ∀ endless, document.hover contexts offset ≠ .error (.schema endless)) ∧
    (Served contexts → ∀ error, document.hover contexts offset = .error (.evaluation error) →
      error = .integerTooLarge ∨ error = .tooManyDigits) := by
  have admitted : e.Admitted := Expr.parse_admitted source e accepted
  refine ⟨Expr.evaluate_contained_iff admitted, Context.fixed_answers, Context.edit_resolve_ok_iff,
    Number.clamp_digits, hover_evaluates_iff_met document contexts offset,
    fun indexed => hover_schema_ends indexed offset, ?_⟩
  intro served error failed
  exact hover_error_of_served served failed

/-- A negation whose operand the context answers with `2 ^ 1024`. -/
theorem evaluation_contained_iff_met_negation :
    let resolve : Resolver := fun _ => .ok (.int (2 ^ 1024))
    let e : Expr := .not (.context ['a'])
    Expr.parse (Text.of "!a") = .ok e ∧ ¬Contained (Expr.evaluate resolve e).result := by
  intro resolve e
  let contexts : ContextSource := .fixed .undefined []
  let document : Document := ⟨[], .record [], none, { root := .anything }, [], []⟩
  have parsed : Expr.parse (Text.of "!a") = .ok e := by rfl
  refine ⟨parsed, fun contained => ?_⟩
  have met := (evaluation_contained_iff_met resolve _ e parsed document contexts 0).1.mp contained
  have large : Double.overflow ≤ (2 ^ 1024 : Int).natAbs := by decide +kernel
  have tested : Expr.Demands resolve e (.truth (.int (2 ^ 1024))) := .negated rfl
  exact absurd (met _ tested _ rfl) (Nat.not_lt.mpr large)

/-- The negation of the integer that is one followed by four hundred zeros. -/
theorem negation_escapes :
    let digits : Text := '1' :: List.replicate 400 '0'
    let resolve := (Context.fixed .undefined []).resolve
    ∃ e, Expr.parse ('!' :: digits) = .ok e ∧
      (Expr.evaluate resolve e).result = .error .integerTooLarge ∧
        EvalError.integerTooLarge.Escapes := by
  intro digits resolve
  have read : (Token.readAll ('!' :: digits)).toOption = some [⟨.operator .not, ['!'], 0⟩,
      ⟨.number (.int (10 ^ 400)), digits, 1⟩, ⟨.finish, [], 402⟩] := by decide +kernel
  have large : Double.overflow ≤ (10 ^ 400 : Int).natAbs := by decide +kernel
  generalize (10 ^ 400 : Int) = i at read large
  have parsed : Expr.parse ('!' :: digits) = .ok (.not (.literal (.number (.int i)))) := by
    rw [Expr.parse]
    rcases outcome : Token.readAll ('!' :: digits) with problem | tokens
    · rw [outcome] at read
      cases read
    · rw [outcome] at read
      cases read
      rfl
  have untold := (Value.truthy_eq_error (.int i) .integerTooLarge).mpr ⟨rfl, i, rfl, large⟩
  have reached : (Expr.evaluate resolve (.literal (.int i))).result = .ok (.int i) := rfl
  refine ⟨_, parsed, ?_, EvalError.integerTooLarge_escapes⟩
  rw [Expr.evaluate_not, reached, ok_bind, untold, error_bind]

end Document

end Flowfile
