import Flowfile.Proofs.Context.Answer

/-! What the context of a place in an edited workflow depends on.

It depends on the name, the triggers and the variables of the workflow, on the variables and the
runner of the job of the place, and on the variables of its step. No other job or step is looked at,
however deep variables refer to each other. -/

namespace Flowfile

namespace Value

mutual

theorem locateAt_structureOf (place : List Nat) :
    (v : Value) → locateAt place v.structureOf = locateAt place v
  | .list _ items => congrArg (Value.list (some place)) (locateItems_structureOf place 0 items)
  | .map _ entries =>
      congrArg (Value.map (some place)) (locateEntries_structureOf place 0 entries)
  | .undefined | .null | .bool _ | .number _ | .str _ => rfl

theorem locateItems_structureOf (place : List Nat) (position : Nat) : (items : List Value) →
    locateItems place position (structureOfItems items) = locateItems place position items
  | [] => rfl
  | item :: items =>
      congrArg₂ List.cons (locateAt_structureOf (place ++ [position]) item)
        (locateItems_structureOf place (position + 1) items)

theorem locateEntries_structureOf (place : List Nat) (position : Nat) :
    (entries : List (Text × Value)) →
      locateEntries place position (structureOfEntries entries) =
        locateEntries place position entries
  | [] => rfl
  | (key, item) :: entries =>
      congrArg₂ List.cons
        (congrArg (Prod.mk key) (locateAt_structureOf (place ++ [position]) item))
        (locateEntries_structureOf place (position + 1) entries)

end

theorem entries_structureOf (v : Value) :
    v.structureOf.entries = structureOfEntries v.entries := by
  cases v <;> rfl

theorem locateAt_congr {left right : Value} (place : List Nat)
    (same : left.structureOf = right.structureOf) :
    left.locateAt place = right.locateAt place := by
  rw [← locateAt_structureOf, same, locateAt_structureOf]

theorem locateEntries_congr {left right : Value} (place : List Nat)
    (same : left.structureOf = right.structureOf) :
    locateEntries place 0 left.entries = locateEntries place 0 right.entries := by
  rw [← locateEntries_structureOf, ← entries_structureOf, same, entries_structureOf,
    locateEntries_structureOf]

end Value

namespace Scope

/-- Two scopes have the same entry under a key, wherever its parts stand, or neither has one. What
is no mapping has no entries. -/
def SameEntry (key : String) (left right : Value) : Prop :=
  (left.get? (Text.of key)).map Value.structureOf =
    (right.get? (Text.of key)).map Value.structureOf

/-- The step that a path leads into, empty also where it is counted past the first one. -/
def selectedStep (workflow : Value) (path : Path) : Value :=
  match stepAt workflow path with
  | .ok step => step
  | .error _ => .record []

/-- Two workflows agree on what is in scope at the place. -/
structure Agree (path : Path) (left right : Value) : Prop where
  name : SameEntry "name" left right
  triggers : SameEntry "on" left right
  env : SameEntry "env" left right
  jobEnv : SameEntry "env" (jobAt left path) (jobAt right path)
  runsOn : SameEntry "runs-on" (jobAt left path) (jobAt right path)
  stepEnv : SameEntry "env" (selectedStep left path) (selectedStep right path)

theorem sameEntry_cases {key : String} {left right : Value} (same : SameEntry key left right) :
    (left.get? (Text.of key) = none ∧ right.get? (Text.of key) = none) ∨
      ∃ first second, left.get? (Text.of key) = some first ∧
        right.get? (Text.of key) = some second ∧ first.structureOf = second.structureOf := by
  rw [SameEntry] at same
  rcases held : left.get? (Text.of key) with _ | first
  · rcases held' : right.get? (Text.of key) with _ | second
    · exact .inl ⟨rfl, rfl⟩
    · rw [held, held'] at same
      cases same
  · rcases held' : right.get? (Text.of key) with _ | second
    · rw [held, held'] at same
      cases same
    · rw [held, held'] at same
      exact .inr ⟨first, second, rfl, rfl, Option.some.inj same⟩

theorem locateEntries_declaredEnv {left right : Value} (same : SameEntry "env" left right)
    (place : List Nat) :
    Value.locateEntries place 0 (declaredEnv left) =
      Value.locateEntries place 0 (declaredEnv right) := by
  rw [declaredEnv, declaredEnv]
  rcases sameEntry_cases same with ⟨missing, missing'⟩ | ⟨first, second, held, held', alike⟩
  · rw [missing, missing']
  · rw [held, held']
    exact Value.locateEntries_congr place alike

theorem findSome?_structureOf {α : Type} {f : Value → Option α}
    (blind : ∀ v : Value, f v.structureOf = f v) (items : List Value) :
    (Value.structureOfItems items).findSome? f = items.findSome? f := by
  induction items with
  | nil => rfl
  | cons item items ih =>
      rw [Value.structureOfItems, List.findSome?_cons, List.findSome?_cons, ih, blind]

theorem firstEvent_congr {left right : Value} (same : SameEntry "on" left right) :
    firstEvent left = firstEvent right := by
  -- A workflow of these triggers and nothing else, written anywhere.
  have told {workflow v : Value} (held : workflow.get? (Text.of "on") = some v) :
      firstEvent workflow = firstEvent (.record [(Text.of "on", v.structureOf)]) := by
    have entry : (Value.record [(Text.of "on", v.structureOf)]).get? (Text.of "on") =
        some v.structureOf := rfl
    rw [firstEvent, firstEvent, held, entry]
    cases v with
    | list origin items =>
        refine (findSome?_structureOf (fun v => ?_) items).symm
        cases v <;> rfl
    | map origin entries => rcases entries with _ | ⟨entry, entries⟩ <;> rfl
    | _ => rfl
  rcases sameEntry_cases same with ⟨missing, missing'⟩ | ⟨first, second, held, held', alike⟩
  · rw [firstEvent, firstEvent, missing, missing']
  · rw [told held, told held', alike]

theorem runnerOs_congr {left right : Value} (same : SameEntry "runs-on" left right) :
    runnerOs (left.get? (Text.of "runs-on")) = runnerOs (right.get? (Text.of "runs-on")) := by
  have told (runsOn : Option Value) : runnerOs runsOn = runnerOs (runsOn.map Value.structureOf) := by
    rcases runsOn with _ | v
    · rfl
    · cases v <;> rfl
  rw [told, same, ← told]

section

variable {path : Path} {left right : Value}

theorem runner_of_agree (agree : Agree path left right) :
    (Scope.of left path).runner = (Scope.of right path).runner := by
  have os : runnerOs (Scope.of left path).runsOn = runnerOs (Scope.of right path).runsOn :=
    runnerOs_congr agree.runsOn
  rw [runner, runner, os]

theorem github_of_agree (agree : Agree path left right) (settings : Settings) :
    (Scope.of left path).github settings = (Scope.of right path).github settings := by
  have event : (Scope.of left path).event = (Scope.of right path).event :=
    firstEvent_congr agree.triggers
  have name : (Scope.of left path).name = (Scope.of right path).name := by
    rw [Scope.of, Scope.of]
    rcases sameEntry_cases agree.name with ⟨missing, missing'⟩ | ⟨first, second, held, held', alike⟩
    · rw [missing, missing']
    · rw [held, held']
      exact congrArg some (Value.locateAt_congr [0] alike)
  have job : (Scope.of left path).jobId = (Scope.of right path).jobId := rfl
  rw [github, github, event, name, job]

/-- The variables in scope are the same unless just one of the workflows lacks the step. -/
theorem envAt_of_agree (agree : Agree path left right)
    (steps : MissesStep left path ↔ MissesStep right path) :
    envAt left path = envAt right path := by
  have outer := locateEntries_declaredEnv agree.env [1]
  have inner := locateEntries_declaredEnv agree.jobEnv [2]
  have own := locateEntries_declaredEnv agree.stepEnv [3]
  rw [selectedStep, selectedStep] at own
  rcases held : stepAt left path with problem | step
  · obtain ⟨rfl, misses⟩ := (stepAt_eq_error left path problem).mp held
    have held' := (stepAt_eq_error right path .noSuchStep).mpr ⟨rfl, steps.mp misses⟩
    rw [envAt, envAt, held, held']
    rfl
  · rcases held' : stepAt right path with problem | step'
    · obtain ⟨-, misses⟩ := (stepAt_eq_error right path problem).mp held'
      have missing := (stepAt_eq_error left path .noSuchStep).mpr ⟨rfl, steps.mpr misses⟩
      rw [held] at missing
      cases missing
    · rw [held, held'] at own
      rw [envAt, envAt, held, held', ok_bind, ok_bind, outer, inner, own]

end

theorem resolveWith_congr {scope scope' : Scope} {settings : Settings} {secrets : List Text}
    {expand expand' : Text → Except EvalError Value} (env : scope.env = scope'.env)
    (github : scope.github settings = scope'.github settings)
    (runner : scope.runner = scope'.runner) (nested : expand = expand') :
    scope.resolveWith settings secrets expand = scope'.resolveWith settings secrets expand' := by
  funext path
  have expanded (segments : List Text) :
      scope.resolveEnv expand segments = scope'.resolveEnv expand' segments := by
    rw [resolveEnv, resolveEnv, env, nested]
  rw [resolveWith, resolveWith, github, runner]
  simp only [expanded]

theorem resolveWithin_congr {scope scope' : Scope} {settings : Settings}
    (env : scope.env = scope'.env) (github : scope.github settings = scope'.github settings)
    (runner : scope.runner = scope'.runner) (secrets : List Text) (levels : Nat) :
    scope.resolveWithin settings secrets levels =
      scope'.resolveWithin settings secrets levels := by
  induction levels with
  | zero => exact resolveWith_congr env github runner rfl
  | succ levels ih => exact resolveWith_congr env github runner (congrArg expandTemplate ih)

end Scope

theorem Context.edit_env_eq_noSuchStep (settings : Settings) (secrets : List Text)
    (workflow : Value) (path : Path) :
    (Context.edit settings secrets workflow path).resolve (Text.of "env") = .error .noSuchStep ↔
      Scope.MissesStep workflow path := by
  rw [Context.edit_resolve_eq_error]
  constructor
  · rintro ⟨demand, -, unmet⟩
    cases demand with
    | truth value => cases unmet.1
    | key i => cases unmet.1
    | answer asked => exact unmet.2.2
  · intro misses
    have asks : Scope.AsksEnv (Text.of "env") [] := ⟨Text.of "env", rfl, rfl⟩
    exact ⟨.answer (Text.of "env"), .here, ⟨[], asks⟩, rfl, misses⟩

/-- Over two workflows that agree on what is in scope at a place, every expression and every
template has the same outcome, unless the place is in a step counted from the end and just one of
the workflows has fewer steps. In that case the variables have no outcome over that one. -/
theorem Context.edit_isolated_iff (settings : Settings) (secrets : List Text) (path : Path)
    (left right : Value) (agree : Scope.Agree path left right) :
    ((∀ e, Expr.evaluate (Context.edit settings secrets left path).resolve e =
        Expr.evaluate (Context.edit settings secrets right path).resolve e) ∧
      (∀ text, Template.evaluate (Context.edit settings secrets left path).resolve text =
        Template.evaluate (Context.edit settings secrets right path).resolve text)) ↔
      (Scope.MissesStep left path ↔ Scope.MissesStep right path) := by
  constructor
  · rintro ⟨expressions, -⟩
    have answers : (Context.edit settings secrets left path).resolve (Text.of "env") =
        (Context.edit settings secrets right path).resolve (Text.of "env") :=
      congrArg Traced.result (expressions (.context (Text.of "env")))
    rw [← Context.edit_env_eq_noSuchStep settings secrets left, answers,
      Context.edit_env_eq_noSuchStep]
  · intro steps
    have same : (Context.edit settings secrets left path).resolve =
        (Context.edit settings secrets right path).resolve :=
      Scope.resolveWithin_congr (Scope.envAt_of_agree agree steps)
        (Scope.github_of_agree agree settings) (Scope.runner_of_agree agree) secrets _
    rw [same]
    exact ⟨fun _ => rfl, fun _ => rfl⟩

/-- A variable of the workflow that refers to one of the step, next to a job and a step that
differ. -/
theorem Context.edit_isolated_iff_nested :
    let declares (name value : String) : List (Text × Value) :=
      [(Text.of "env", .record [(Text.of name, .text value)])]
    let step (value : String) : Value := .record (declares "B" value)
    let workflow (other : String) : Value := .record (declares "A" "${{ env.B }}" ++ [
      (Text.of "jobs", .record [
        (Text.of "test", .record (declares "B" other)),
        (Text.of "build", .record [(Text.of "steps", .list none [step other, step "own"])])])])
    let path : Path := [.key (Text.of "jobs"), .key (Text.of "build"), .key (Text.of "steps"), .index 1]
    let resolve (other : String) := (Context.edit {} [] (workflow other) path).resolve
    let e : Expr := .property (.context (Text.of "env")) (Text.of "A")
    Scope.Agree path (workflow "left") (workflow "right") ∧
      Expr.evaluate (resolve "left") e = Expr.evaluate (resolve "right") e ∧
      (Expr.evaluate (resolve "left") e).result.toOption.map Value.toText =
        some (Text.of "own") := by
  intro declares step workflow path resolve e
  have agree : Scope.Agree path (workflow "left") (workflow "right") := ⟨rfl, rfl, rfl, rfl, rfl, rfl⟩
  have found (other : String) : ¬Scope.MissesStep (workflow other) path := by
    intro misses
    cases (Scope.stepAt_eq_error (workflow other) path .noSuchStep).mpr ⟨rfl, misses⟩
  have same := (Context.edit_isolated_iff {} [] path _ _ agree).mpr
    (iff_of_false (found "left") (found "right"))
  exact ⟨agree, same.1 e, by decide +kernel⟩

/-- A job without steps and one with an empty list of them, at the last step. -/
theorem Context.edit_lastStep_differs :
    let workflow (job : List (Text × Value)) : Value :=
      .record [(Text.of "jobs", .record [(Text.of "b", .record job)])]
    let path : Path := [.key (Text.of "jobs"), .key (Text.of "b"), .key (Text.of "steps"), .index (-1)]
    let answer (job : List (Text × Value)) : Except EvalError Value :=
      (Expr.evaluateSource (Context.edit {} [] (workflow job) path).resolve (Text.of "env.X")).result
    Scope.Agree path (workflow []) (workflow [(Text.of "steps", .list none [])]) ∧
      answer [] = .ok .undefined ∧
      answer [(Text.of "steps", .list none [])] = .error .noSuchStep := by
  intro workflow path answer
  exact ⟨⟨rfl, rfl, rfl, rfl, rfl, rfl⟩, by cbv, by cbv⟩

end Flowfile
