import Flowfile.Context.Edit
import Flowfile.Proofs.Outcome
import Flowfile.Proofs.Text.Line

/-! A path leads on from the answer to a shorter one. This holds also of the variables of an edited
workflow, of which a path to one of them expands that one alone. -/

namespace Flowfile

namespace Value

theorem lookup_append (v : Value) (first second : List Text) :
    v.lookup (first ++ second) = (v.lookup first).lookup second :=
  List.foldl_append

theorem undefined_lookup (segments : List Text) : Value.undefined.lookup segments = .undefined := by
  induction segments with
  | nil => rfl
  | cons segment segments ih => exact ih

theorem eq_ok_str {outcome : Except EvalError Value} {text : Text}
    (shown : outcome.toOption.map (fun v => (v.kind, v.toText)) = some (.string, text)) :
    outcome = .ok (.str text) := by
  rcases outcome with error | (_ | _ | _ | _ | own | _ | _) <;> cases shown
  rfl

end Value

theorem pathSegments_eq {path : Text} (given : path ≠ []) :
    pathSegments path = Text.splitOn '.' path := by
  cases path with
  | nil => exact absurd rfl given
  | cons c rest => rfl

theorem pathSegments_append {path : Text} (given : path ≠ []) (rest : Text) :
    pathSegments (path ++ '.' :: rest) = pathSegments path ++ Text.splitOn '.' rest := by
  rw [pathSegments_eq given, pathSegments_eq (by simp), Text.splitOn_append]

/-- Each answer of the context tells the answers to all paths that go on from its own. -/
def Context.Composes (context : Context) : Prop :=
  ∀ path rest v, path ≠ [] → context.resolve path = .ok v →
    context.resolve (path ++ '.' :: rest) = .ok (v.lookup (Text.splitOn '.' rest))

theorem Context.fixed_composes (values : Value) (suggestions : List (Text × List Text)) :
    (Context.fixed values suggestions).Composes := by
  intro path rest v given done
  cases done
  change Except.ok (values.located.lookup (pathSegments (path ++ '.' :: rest))) = _
  rw [pathSegments_append given, Value.lookup_append]

namespace Scope

def Expanded (expand : Text → Except EvalError Value) (entry entry' : Text × Value) : Prop :=
  entry'.1 = entry.1 ∧ expandWith expand entry.2 = .ok entry'.2

section

variable {expand : Text → Except EvalError Value} {env expanded : List (Text × Value)}

theorem expanded_iff (entry entry' : Text × Value) :
    (do return (entry.1, ← expandWith expand entry.2)) = .ok entry' ↔
      Expanded expand entry entry' := by
  rw [bind_eq_ok]
  constructor
  · rintro ⟨value, given, same⟩
    cases same
    exact ⟨rfl, given⟩
  · rintro ⟨key, given⟩
    exact ⟨entry'.2, given, by rw [← key]; rfl⟩

theorem mapM_expanded_iff :
    env.mapM (fun entry => do return (entry.1, ← expandWith expand entry.2)) = .ok expanded ↔
      List.Forall₂ (Expanded expand) env expanded := by
  simp only [mapM_eq_ok_iff, expanded_iff]

theorem lookup_expanded (all : List.Forall₂ (Expanded expand) env expanded) (name : Text) :
    Option.Rel (fun item item' => expandWith expand item = .ok item') (env.lookup name)
      (expanded.lookup name) := by
  induction all with
  | nil => exact .none
  | @cons entry entry' rest rest' first others ih =>
      obtain ⟨key, given⟩ := first
      rw [List.lookup_cons, List.lookup_cons, key]
      split
      · exact .some given
      · exact ih

theorem find?_expanded (all : List.Forall₂ (Expanded expand) env expanded) (test : Text → Bool) :
    Option.Rel (Expanded expand) (env.find? fun entry => test entry.1)
      (expanded.find? fun entry => test entry.1) := by
  induction all with
  | nil => exact .none
  | @cons entry entry' rest rest' first others ih =>
      rw [List.find?_cons, List.find?_cons, first.1]
      split
      · exact .some first
      · exact ih

theorem declaredName?_expanded (all : List.Forall₂ (Expanded expand) env expanded) (name : Text) :
    Option.Rel (Expanded expand) (declaredName? env name) (declaredName? expanded name) := by
  have exact := lookup_expanded all name
  rw [declaredName?, declaredName?]
  revert exact
  generalize env.lookup name = item
  generalize expanded.lookup name = item'
  intro exact
  cases exact with
  | none => exact find?_expanded all fun key => key.casefold = name.casefold
  | some given => exact .some ⟨rfl, given⟩

end

theorem step_record_eq (entries : List (Text × Value)) (name : Text) :
    (Value.record entries).step name =
      ((declaredName? entries name).map Prod.snd).getD .undefined := by
  rw [Value.step, declaredName?]
  rcases held : entries.lookup name with _ | item
  · dsimp only
    split
    · rename_i found
      rw [found]
      rfl
    · rename_i found
      rw [found]
      rfl
  · rfl

section

variable {scope : Scope} {expand : Text → Except EvalError Value}

theorem resolveEnv_nil {env expanded : List (Text × Value)} (held : scope.env = .ok env)
    (all : List.Forall₂ (Expanded expand) env expanded) :
    scope.resolveEnv expand [] = .ok (.record expanded) := by
  rw [resolveEnv, held, ok_bind]
  dsimp only
  rw [mapM_expanded_iff.mpr all]
  rfl

theorem resolveEnv_of_whole {whole : Value} (done : scope.resolveEnv expand [] = .ok whole) :
    ∃ entries, whole = .record entries ∧ ∀ name rest,
      scope.resolveEnv expand (name :: rest) = .ok ((whole.step name).lookup rest) := by
  rw [resolveEnv] at done
  obtain ⟨env, held, done⟩ := (bind_eq_ok ..).mp done
  obtain ⟨expanded, run, same⟩ := (bind_eq_ok ..).mp done
  cases same
  have all := mapM_expanded_iff.mp run
  refine ⟨expanded, rfl, fun name rest => ?_⟩
  rw [resolveEnv, held, ok_bind, step_record_eq]
  have related := declaredName?_expanded all name
  dsimp only
  revert related
  generalize declaredName? env name = entry
  generalize declaredName? expanded name = entry'
  intro related
  cases related with
  | none =>
      rw [Option.map_none, Option.getD_none, Value.undefined_lookup]
      rfl
  | some given =>
      obtain ⟨-, given⟩ := given
      dsimp only
      rw [given]
      rfl

theorem resolveEnv_append {segments : List Text} {v : Value}
    (done : scope.resolveEnv expand segments = .ok v) {more : List Text} (going : more ≠ []) :
    scope.resolveEnv expand (segments ++ more) = .ok (v.lookup more) := by
  cases segments with
  | nil =>
      obtain ⟨name, rest, rfl⟩ := List.exists_cons_of_ne_nil going
      obtain ⟨entries, -, each⟩ := resolveEnv_of_whole done
      exact each name rest
  | cons name rest =>
      rw [List.cons_append, resolveEnv] at *
      obtain ⟨env, held, done⟩ := (bind_eq_ok ..).mp done
      rw [held, ok_bind]
      dsimp only at done ⊢
      split at done
      · cases done
        rw [Value.undefined_lookup]
        rfl
      · obtain ⟨value, given, same⟩ := (bind_eq_ok ..).mp done
        cases same
        rw [given, ok_bind, Value.lookup_append]
        rfl

def contextValue (scope : Scope) (settings : Settings) (secrets : List Text) (name : Text) : Value :=
  if name = Text.of "github" then scope.github settings
  else if name = Text.of "secrets" then secretNames secrets
  else if name = Text.of "runner" then scope.runner
  else if name = Text.of "job" then Payload.fields [("status", .text "success")]
  else .undefined

variable {settings : Settings} {secrets : List Text} {path first : Text} {segments : List Text}

theorem resolveWith_env (split : pathSegments path = first :: segments)
    (env : first.lower = Text.of "env") :
    scope.resolveWith settings secrets expand path = scope.resolveEnv expand segments := by
  rw [resolveWith, split]
  exact if_pos env

theorem resolveWith_whole : scope.resolveWith settings secrets expand (Text.of "env") =
    scope.resolveEnv expand [] := by
  have split : pathSegments (Text.of "env") = [Text.of "env"] := by decide
  exact resolveWith_env split (by decide)

theorem resolveWith_value (split : pathSegments path = first :: segments)
    (other : first.lower ≠ Text.of "env") :
    scope.resolveWith settings secrets expand path =
      .ok ((scope.contextValue settings secrets first.lower).lookup segments) := by
  rw [resolveWith, split]
  dsimp only
  rw [if_neg other, contextValue]
  repeat' split
  · rfl
  · rfl
  · rfl
  · rfl
  · rw [Value.undefined_lookup]

theorem resolveWith_append {v : Value} (given : path ≠ [])
    (done : scope.resolveWith settings secrets expand path = .ok v) (rest : Text) :
    scope.resolveWith settings secrets expand (path ++ '.' :: rest) =
      .ok (v.lookup (Text.splitOn '.' rest)) := by
  have more := Text.splitOn_ne_nil '.' rest
  obtain ⟨first, segments, split⟩ := List.exists_cons_of_ne_nil (Text.splitOn_ne_nil '.' path)
  rw [← pathSegments_eq given] at split
  have longer : pathSegments (path ++ '.' :: rest) =
      first :: (segments ++ Text.splitOn '.' rest) := by
    rw [pathSegments_append given, split, List.cons_append]
  by_cases env : first.lower = Text.of "env"
  · rw [resolveWith_env split env] at done
    rw [resolveWith_env longer env]
    exact resolveEnv_append done more
  · rw [resolveWith_value split env] at done
    cases done
    rw [resolveWith_value longer env, Value.lookup_append]

theorem resolveWithin_append {levels : Nat} {v : Value} (given : path ≠ [])
    (done : scope.resolveWithin settings secrets levels path = .ok v) (rest : Text) :
    scope.resolveWithin settings secrets levels (path ++ '.' :: rest) =
      .ok (v.lookup (Text.splitOn '.' rest)) := by
  cases levels with
  | zero => exact resolveWith_append given done rest
  | succ levels => exact resolveWith_append given done rest

end

end Scope

theorem Context.edit_composes (settings : Settings) (secrets : List Text) (workflow : Value)
    (place : Path) : (Context.edit settings secrets workflow place).Composes :=
  fun _ rest _ given done => Scope.resolveWithin_append given done rest

theorem Context.edit_env_record {settings : Settings} {secrets : List Text} {workflow : Value}
    {place : Path} {whole : Value}
    (done : (Context.edit settings secrets workflow place).resolve (Text.of "env") = .ok whole) :
    ∃ entries, whole = .record entries := by
  have given {expand : Text → Except EvalError Value}
      (run : (Scope.of workflow place).resolveWith settings secrets expand (Text.of "env") =
        .ok whole) : ∃ entries, whole = .record entries := by
    rw [Scope.resolveWith_whole] at run
    obtain ⟨entries, same, -⟩ := Scope.resolveEnv_of_whole run
    exact ⟨entries, same⟩
  change (Scope.of workflow place).resolveWithin _ _ _ _ = _ at done
  cases levels : settings.maxContextDepth.toNat with
  | zero =>
      rw [levels] at done
      exact given done
  | succ left =>
      rw [levels] at done
      exact given done

/-- A path that goes on from another one has the answer that is looked up from the answer to that
one, in every context of fixed values and in that of every place of an edited workflow. So a
variable asked for alone is the entry of all variables together, found by its exact name or else
without regard to case. -/
theorem Context.answers_compose :
    (∀ values suggestions, (Context.fixed values suggestions).Composes) ∧
      ∀ settings secrets workflow place,
        let context := Context.edit settings secrets workflow place
        context.Composes ∧
          ∀ whole, context.resolve (Text.of "env") = .ok whole →
            ∃ entries, whole = .record entries ∧ ∀ name, '.' ∉ name →
              context.resolve (Text.of "env" ++ '.' :: name) =
                .ok (((Scope.declaredName? entries name).map Prod.snd).getD .undefined) := by
  refine ⟨Context.fixed_composes, fun settings secrets workflow place => ?_⟩
  have composes := Context.edit_composes settings secrets workflow place
  refine ⟨composes, fun whole done => ?_⟩
  obtain ⟨entries, rfl⟩ := Context.edit_env_record done
  refine ⟨entries, rfl, fun name unbroken => ?_⟩
  rw [composes _ name _ (by decide) done, Text.splitOn_unbroken '.' name unbroken,
    ← Scope.step_record_eq]
  rfl

/-- Two variables whose names differ by case, one of which refers to the other. -/
theorem Context.answers_compose_case :
    let declared : List (Text × Value) :=
      [(Text.of "Path", .text "${{ env.PATH }}!"), (Text.of "PATH", .text "x")]
    let context := Context.edit {} [] (.record [(Text.of "env", .record declared)]) []
    let entries : List (Text × Value) := [(Text.of "Path", .text "x!"), (Text.of "PATH", .text "x")]
    context.resolve (Text.of "env") = .ok (.record entries) ∧
      context.resolve (Text.of "env" ++ '.' :: Text.of "PATH") = .ok (.text "x") ∧
      context.resolve (Text.of "env" ++ '.' :: Text.of "path") = .ok (.text "x!") := by
  intro declared context entries
  let scope := Scope.of (.record [(Text.of "env", .record declared)]) []
  let expand := Scope.expandTemplate (scope.resolveWithin {} [] 3)
  have first : Scope.expandWith expand (.text "${{ env.PATH }}!") = .ok (.text "x!") :=
    Value.eq_ok_str (by decide +kernel)
  have whole : context.resolve (Text.of "env") = .ok (.record entries) := by
    change scope.resolveWith {} [] expand (Text.of "env") = _
    rw [Scope.resolveWith_whole]
    exact Scope.resolveEnv_nil rfl (.cons ⟨rfl, first⟩ (.cons ⟨rfl, rfl⟩ .nil))
  obtain ⟨found, same, each⟩ := (Context.answers_compose.2 {} [] _ []).2 _ whole
  cases same
  exact ⟨whole, each _ (by decide), each _ (by decide)⟩

end Flowfile
