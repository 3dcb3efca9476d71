import Flowfile.Context.Edit
import Flowfile.Proofs.Expr.Demand

/-! When the context of a place has no answer.

Fixed values always answer. The context of an edited workflow evaluates variables that hold
expressions, level by level; where it has no answer, one of these evaluations came to an unmet
demand, or the place has no step. -/

namespace Flowfile

theorem Context.fixed_answers (values : Value) (suggestions : List (Text × List Text))
    (path : Text) (error : EvalError) :
    (Context.fixed values suggestions).resolve path ≠ .error error := by
  intro failed
  cases failed

namespace Scope

def AsksEnv (path : Text) (segments : List Text) : Prop :=
  ∃ first, pathSegments path = first :: segments ∧ first.lower = Text.of "env"

/-- The answer to the path needs the expressions in the text, which is the value of a variable.
Where all variables are asked for, those before it have values. -/
def Expands (scope : Scope) (expand : Text → Except EvalError Value) (path text : Text) : Prop :=
  ∃ segments env, AsksEnv path segments ∧ scope.env = .ok env ∧
    Template.hasExpression text = true ∧
    ((segments = [] ∧ ∃ before name after, env = before ++ (name, .str text) :: after ∧
        ∀ earlier ∈ before, ∃ value, expandWith expand earlier.2 = .ok value) ∨
      ∃ name rest found, segments = name :: rest ∧ declaredName? env name = some (found, .str text))

theorem expandWith_eq_error (expand : Text → Except EvalError Value) (value : Value)
    (error : EvalError) :
    expandWith expand value = .error error ↔
      ∃ text, value = .str text ∧ Template.hasExpression text = true ∧
        expand text = .error error := by
  rw [expandWith.eq_def]
  split
  · rename_i text
    split
    · rename_i embedded
      constructor
      · intro failed
        exact ⟨text, rfl, embedded, failed⟩
      · rintro ⟨text', same, -, failed⟩
        cases same
        exact failed
    · rename_i plain
      constructor
      · intro failed
        cases failed
      · rintro ⟨text', same, embedded, -⟩
        cases same
        exact absurd embedded plain
  · rename_i other
    constructor
    · intro failed
      cases failed
    · rintro ⟨text, same, -⟩
      exact absurd same (other text)

theorem resolveWith_eq_error (scope : Scope) (settings : Settings) (secrets : List Text)
    (expand : Text → Except EvalError Value) (path : Text) (error : EvalError) :
    scope.resolveWith settings secrets expand path = .error error ↔
      ∃ segments, AsksEnv path segments ∧ scope.resolveEnv expand segments = .error error := by
  rw [resolveWith]
  rcases same : pathSegments path with _ | ⟨first, rest⟩
  · constructor
    · intro failed
      cases failed
    · rintro ⟨segments, ⟨first, asked, -⟩, -⟩
      rw [same] at asked
      cases asked
  · dsimp only
    split
    · rename_i env
      constructor
      · intro failed
        exact ⟨rest, ⟨first, same, env⟩, failed⟩
      · rintro ⟨segments, ⟨first', asked, -⟩, failed⟩
        rw [same] at asked
        cases asked
        exact failed
    · rename_i other
      constructor
      · intro failed
        repeat' split at failed
        all_goals cases failed
      · rintro ⟨segments, ⟨first', asked, env⟩, -⟩
        rw [same] at asked
        cases asked
        exact absurd env other

theorem resolveEnv_eq_error (scope : Scope) (expand : Text → Except EvalError Value)
    (segments : List Text) (error : EvalError) :
    scope.resolveEnv expand segments = .error error ↔
      scope.env = .error error ∨ ∃ env, scope.env = .ok env ∧
        ((segments = [] ∧ FirstFails (fun entry => expandWith expand entry.2) env error) ∨
          ∃ name rest found item, segments = name :: rest ∧
            declaredName? env name = some (found, item) ∧
              expandWith expand item = .error error) := by
  rw [resolveEnv, bind_eq_error]
  refine or_congr_right (exists_congr fun env => and_congr_right fun _ => ?_)
  cases segments with
  | nil =>
      have expanded := firstFails_wrap (fun entry : Text × Value => expandWith expand entry.2)
        (fun entry value => (entry.1, value)) env error
      rw [← expanded, ← mapM_eq_error]
      refine (bind_wrap_eq_error _ _ error).trans ⟨fun failed => .inl ⟨rfl, failed⟩, ?_⟩
      rintro (⟨-, failed⟩ | ⟨name, rest, found, item, same, -⟩)
      · exact failed
      · cases same
  | cons name rest =>
      dsimp only
      rcases declared : declaredName? env name with _ | ⟨found, item⟩
      · constructor
        · intro failed
          cases failed
        · rintro (⟨same, -⟩ | ⟨name', rest', found, item, same, held, -⟩)
          · cases same
          · cases same
            rw [declared] at held
            cases held
      · refine (bind_wrap_eq_error _ _ error).trans ⟨?_, ?_⟩
        · intro failed
          exact .inr ⟨name, rest, found, item, rfl, declared, failed⟩
        · rintro (⟨same, -⟩ | ⟨name', rest', found', item', same, held, failed⟩)
          · cases same
          · cases same
            rw [declared] at held
            cases held
            exact failed

theorem resolveWith_error_iff_expands (scope : Scope) (settings : Settings) (secrets : List Text)
    (expand : Text → Except EvalError Value) (path : Text) (error : EvalError) :
    scope.resolveWith settings secrets expand path = .error error ↔
      ((∃ segments, AsksEnv path segments) ∧ scope.env = .error error) ∨
        ∃ text, scope.Expands expand path text ∧ expand text = .error error := by
  rw [resolveWith_eq_error]
  constructor
  · rintro ⟨segments, asks, failed⟩
    rcases (resolveEnv_eq_error ..).mp failed with missing | ⟨env, held, ⟨rfl, first⟩ | one⟩
    · exact .inl ⟨⟨segments, asks⟩, missing⟩
    · obtain ⟨before, ⟨name, item⟩, after, same, earlier, failed⟩ := first
      obtain ⟨text, rfl, embedded, failed⟩ := (expandWith_eq_error ..).mp failed
      exact .inr ⟨text, ⟨[], env, asks, held, embedded,
        .inl ⟨rfl, before, name, after, same, earlier⟩⟩, failed⟩
    · obtain ⟨name, rest, found, item, rfl, declared, failed⟩ := one
      obtain ⟨text, rfl, embedded, failed⟩ := (expandWith_eq_error ..).mp failed
      exact .inr ⟨text, ⟨name :: rest, env, asks, held, embedded,
        .inr ⟨name, rest, found, rfl, declared⟩⟩, failed⟩
  · rintro (⟨⟨segments, asks⟩, missing⟩ | ⟨text, ⟨segments, env, asks, held, embedded, place⟩, failed⟩)
    · exact ⟨segments, asks, (resolveEnv_eq_error ..).mpr (.inl missing)⟩
    · have inside : expandWith expand (.str text) = .error error :=
        (expandWith_eq_error ..).mpr ⟨text, rfl, embedded, failed⟩
      refine ⟨segments, asks, (resolveEnv_eq_error ..).mpr (.inr ⟨env, held, ?_⟩)⟩
      rcases place with ⟨rfl, before, name, after, same, earlier⟩ | ⟨name, rest, found, rfl, held⟩
      · exact .inl ⟨rfl, before, (name, .str text), after, same, earlier, inside⟩
      · exact .inr ⟨name, rest, found, _, rfl, held, inside⟩

theorem expandTemplate_eq_error (resolve : Resolver) (text : Text) (error : EvalError) :
    expandTemplate resolve text = .error error ↔
      error.Escapes ∧ ∃ demand, Template.Demands resolve text demand ∧
        demand.Fails resolve error := by
  rw [expandTemplate]
  constructor
  · intro failed
    split at failed
    · cases failed
    · rename_i other
      have escapes : error.Escapes := by
        rintro problem rfl
        exact other problem failed
      exact ⟨escapes, (Template.evaluate_eq_error resolve text error escapes).mp failed⟩
  · rintro ⟨escapes, demand⟩
    rw [(Template.evaluate_eq_error resolve text error escapes).mpr demand]
    split
    · rename_i problem same
      cases same
      exact absurd rfl (escapes problem)
    · rfl

/-- With so many levels of expansion left, the answer to the path comes to the demand, in one of the
variables that it needs or in one that those need. -/
inductive Comes (scope : Scope) (settings : Settings) (secrets : List Text) :
    Nat → Text → Demand → Prop
  | here {levels path} : Comes scope settings secrets levels path (.answer path)
  | inner {levels path text demand}
      (expands : scope.Expands (expandTemplate (scope.resolveWithin settings secrets levels)) path
        text)
      (demands : Template.Demands (scope.resolveWithin settings secrets levels) text demand) :
      Comes scope settings secrets (levels + 1) path demand
  | further {levels path text asked demand}
      (expands : scope.Expands (expandTemplate (scope.resolveWithin settings secrets levels)) path
        text)
      (demands : Template.Demands (scope.resolveWithin settings secrets levels) text
        (.answer asked))
      (rest : Comes scope settings secrets levels asked demand) :
      Comes scope settings secrets (levels + 1) path demand

def Lacks (scope : Scope) (error : EvalError) (demand : Demand) : Prop :=
  demand.Unmet error fun path =>
    (∃ segments, AsksEnv path segments) ∧ scope.env = .error error

theorem resolveWithin_asked {scope : Scope} {settings : Settings} {secrets : List Text}
    {levels : Nat} {path : Text} {error : EvalError} (lacks : scope.Lacks error (.answer path)) :
    scope.resolveWithin settings secrets levels path = .error error := by
  cases levels <;> exact (resolveWith_error_iff_expands ..).mpr (.inl lacks)

theorem resolveWithin_expands {scope : Scope} {settings : Settings} {secrets : List Text}
    {levels : Nat} {path text : Text} {demand : Demand} {error : EvalError}
    (escapes : error.Escapes)
    (expands : scope.Expands (expandTemplate (scope.resolveWithin settings secrets levels)) path
      text)
    (demands : Template.Demands (scope.resolveWithin settings secrets levels) text demand)
    (fails : demand.Fails (scope.resolveWithin settings secrets levels) error) :
    scope.resolveWithin settings secrets (levels + 1) path = .error error := by
  rw [resolveWithin]
  refine (resolveWith_error_iff_expands ..).mpr (.inr ⟨text, expands, ?_⟩)
  exact (expandTemplate_eq_error ..).mpr ⟨escapes, demand, demands, fails⟩

theorem resolveWithin_eq_error (scope : Scope) (settings : Settings) (secrets : List Text)
    (outer : ∀ error, scope.env = .error error → error.Escapes) (levels : Nat) (path : Text)
    (error : EvalError) :
    scope.resolveWithin settings secrets levels path = .error error ↔
      ∃ demand, scope.Comes settings secrets levels path demand ∧ scope.Lacks error demand := by
  constructor
  · induction levels generalizing path with
    | zero =>
        intro failed
        rw [resolveWithin] at failed
        rcases (resolveWith_error_iff_expands ..).mp failed with missing | ⟨text, -, failed⟩
        · exact ⟨.answer path, .here, missing⟩
        · cases failed
    | succ levels ih =>
        intro failed
        rw [resolveWithin] at failed
        rcases (resolveWith_error_iff_expands ..).mp failed with missing | ⟨text, expands, failed⟩
        · exact ⟨.answer path, .here, missing⟩
        obtain ⟨-, demand, demands, fails⟩ := (expandTemplate_eq_error ..).mp failed
        cases demand with
        | truth value => exact ⟨_, .inner expands demands, fails⟩
        | key i => exact ⟨_, .inner expands demands, fails⟩
        | answer asked =>
            -- The answer is missing one level further in, for a reason of that level.
            obtain ⟨demand, comes, lacks⟩ := ih asked fails
            exact ⟨demand, .further expands demands comes, lacks⟩
  · rintro ⟨demand, comes, lacks⟩
    -- An expansion drops errors of expressions, but a demand that is not met gives none of these.
    have escapes := Demand.escapes_of_unmet lacks fun _ missing => outer error missing.2
    induction comes with
    | here => exact resolveWithin_asked lacks
    | @inner levels path text demand expands demands =>
        refine resolveWithin_expands escapes expands demands ?_
        cases demand with
        | truth value => exact lacks
        | key i => exact lacks
        | answer path => exact resolveWithin_asked lacks
    | further expands demands rest ih =>
        exact resolveWithin_expands escapes expands demands (ih lacks)

/-- The path leads into a step that is counted from the end of fewer steps. -/
def MissesStep (workflow : Value) (path : Path) : Prop :=
  ∃ first second position rest origin items,
    path = first :: second :: .key (Text.of "steps") :: .index position :: rest ∧
      (jobAt workflow path).get? (Text.of "steps") = some (.list origin items) ∧
        position + items.length < 0

theorem itemAt_eq_error (items : List Value) (position : Int) (error : EvalError) :
    itemAt items position = .error error ↔
      error = .noSuchStep ∧ position + items.length < 0 := by
  have same : (if position < 0 then position + items.length else position) < 0 ↔
      position + items.length < 0 := by
    split <;> omega
  rw [itemAt]
  generalize (if position < 0 then position + items.length else position) = index at same ⊢
  rw [← same]
  split
  · rename_i outside
    rw [Except.error.injEq, eq_comm, and_iff_left outside]
  · rename_i inside
    constructor
    · intro failed
      cases failed
    · rintro ⟨-, outside⟩
      exact absurd outside inside

theorem stepAt_eq_error (workflow : Value) (path : Path) (error : EvalError) :
    stepAt workflow path = .error error ↔ error = .noSuchStep ∧ MissesStep workflow path := by
  constructor
  · intro failed
    rw [stepAt.eq_def] at failed
    split at failed
    · rename_i first second steps position rest
      split at failed
      · rename_i named
        subst named
        split at failed
        · rename_i origin items held
          split at failed
          · cases failed
          · obtain ⟨same, outside⟩ :=
              (itemAt_eq_error ..).mp ((bind_wrap_eq_error _ _ error).mp failed)
            exact ⟨same, first, second, position, rest, origin, items, rfl, held, outside⟩
        · cases failed
      · cases failed
    · cases failed
  · rintro ⟨rfl, first, second, position, rest, origin, items, rfl, held, outside⟩
    have within : ¬(items.length : Int) ≤ position := by omega
    rw [stepAt, if_pos rfl, held]
    dsimp only
    rw [if_neg within]
    exact (bind_wrap_eq_error _ _ _).mpr ((itemAt_eq_error ..).mpr ⟨rfl, outside⟩)

theorem envAt_eq_error (workflow : Value) (path : Path) (error : EvalError) :
    envAt workflow path = .error error ↔ error = .noSuchStep ∧ MissesStep workflow path := by
  exact (bind_wrap_eq_error _ _ error).trans (stepAt_eq_error workflow path error)

end Scope

/-- The context of an edited workflow has no answer just where it comes to a demand that is unmet,
or where it needs the variables of a step that is not there. -/
theorem Context.edit_resolve_eq_error (settings : Settings) (secrets : List Text)
    (workflow : Value) (path : Path) (asked : Text) (error : EvalError) :
    (Context.edit settings secrets workflow path).resolve asked = .error error ↔
      ∃ demand, (Scope.of workflow path).Comes settings secrets settings.maxContextDepth.toNat asked
          demand ∧
        demand.Unmet error fun path' => (∃ segments, Scope.AsksEnv path' segments) ∧
          error = .noSuchStep ∧ Scope.MissesStep workflow path := by
  have outer (error : EvalError) (failed : (Scope.of workflow path).env = .error error) :
      error.Escapes := by
    obtain ⟨rfl, -⟩ := (Scope.envAt_eq_error workflow path error).mp failed
    exact EvalError.noSuchStep_escapes
  refine (Scope.resolveWithin_eq_error _ settings secrets outer _ asked error).trans ?_
  refine exists_congr fun demand => and_congr_right fun _ => ?_
  cases demand with
  | truth value => exact Iff.rfl
  | key i => exact Iff.rfl
  | answer path' => exact and_congr_right fun _ => Scope.envAt_eq_error workflow path error

theorem Context.edit_resolve_ok_iff (settings : Settings) (secrets : List Text)
    (workflow : Value) (place : Path) (path : Text) :
    (∃ value, (Context.edit settings secrets workflow place).resolve path = .ok value) ↔
      ∀ demand, (Scope.of workflow place).Comes settings secrets settings.maxContextDepth.toNat
          path demand →
        demand.Met fun asked =>
          ¬((∃ segments, Scope.AsksEnv asked segments) ∧ Scope.MissesStep workflow place) := by
  have present (asked : Text) :
      ¬((∃ segments, Scope.AsksEnv asked segments) ∧ Scope.MissesStep workflow place) ↔
        ∀ error : EvalError, error.Escapes → ¬((∃ segments, Scope.AsksEnv asked segments) ∧
          error = .noSuchStep ∧ Scope.MissesStep workflow place) := by
    constructor
    · rintro present error - ⟨asks, -, missing⟩
      exact present ⟨asks, missing⟩
    · rintro present ⟨asks, missing⟩
      exact present .noSuchStep EvalError.noSuchStep_escapes ⟨asks, rfl, missing⟩
  constructor
  · rintro ⟨value, held⟩ demand comes
    refine (Demand.met_iff present demand).mpr fun error _ unmet => ?_
    have failed := (Context.edit_resolve_eq_error settings secrets workflow place path error).mpr
      ⟨demand, comes, unmet⟩
    rw [held] at failed
    cases failed
  · intro met
    rcases outcome : (Context.edit settings secrets workflow place).resolve path with error | value
    · obtain ⟨demand, comes, unmet⟩ := (Context.edit_resolve_eq_error ..).mp outcome
      have escapes : error.Escapes := by
        refine Demand.escapes_of_unmet unmet ?_
        rintro asked ⟨-, rfl, -⟩
        exact EvalError.noSuchStep_escapes
      exact absurd unmet ((Demand.met_iff present demand).mp (met demand comes) error escapes)
    · exact ⟨value, rfl⟩

end Flowfile
