import Flowfile.Context.Basic
import Flowfile.Settings
import Flowfile.Workflow.Payload

/-!
The context of a place in a workflow that is being edited.

Everything is approximated from the document: variables are those in scope at the place, the event
is a sample of the first trigger, secrets are masked, and what only a run can tell is undefined. A
variable that holds an expression is evaluated in turn, up to a limit on the nesting.
-/

namespace Flowfile

def firstEvent (workflow : Value) : Option Text :=
  match workflow.get? (Text.of "on") with
  | some (.str name) => some name
  | some (.list _ items) =>
    items.findSome? fun
      | .str name => some name
      | _ => none
  | some (.map _ entries) => entries.head?.map (·.1)
  | _ => none

def jobId? (path : Path) : Option Text :=
  match path with
  | .key jobs :: .key name :: _ => if jobs = Text.of "jobs" then some name else none
  | _ => none

def isMapping : Value → Bool
  | .map _ _ => true
  | _ => false

/-- The mapping itself; anything else counts as an empty one. -/
def asMapping (v : Value) : Value := if isMapping v then v else .record []

def jobAt (workflow : Value) (path : Path) : Value :=
  match jobId? path, workflow.get? (Text.of "jobs") with
  | some name, some (.map _ jobs) => asMapping ((jobs.lookup name).getD .undefined)
  | _, _ => .record []

/-- The item of a list; a negative position counts from the end. -/
def itemAt (items : List Value) (position : Int) : Except EvalError Value :=
  let index := if position < 0 then position + items.length else position
  if index < 0 then .error .noSuchStep else .ok (items.getD index.toNat .undefined)

def stepAt (workflow : Value) (path : Path) : Except EvalError Value :=
  match path with
  | _ :: _ :: .key steps :: .index position :: _ =>
    if steps = Text.of "steps" then
      match (jobAt workflow path).get? steps with
      | some (.list _ items) =>
        if (items.length : Int) ≤ position then .ok (.record [])
        else do return asMapping (← itemAt items position)
      | _ => .ok (.record [])
    else .ok (.record [])
  | _ => .ok (.record [])

def declaredEnv (scope : Value) : List (Text × Value) :=
  ((scope.get? (Text.of "env")).map Value.entries).getD []

/-- Later declarations replace earlier ones in their place. -/
def mergeEnv (env declared : List (Text × Value)) : List (Text × Value) :=
  declared.foldl (fun merged entry => Value.assign entry.1 entry.2 merged) env

structure Scope where
  jobId : Option Text
  event : Option Text
  name : Option Value
  runsOn : Option Value
  env : Except EvalError (List (Text × Value))

namespace Scope

def envAt (workflow : Value) (path : Path) : Except EvalError (List (Text × Value)) := do
  let job := jobAt workflow path
  let step ← stepAt workflow path
  let outer := mergeEnv [] (Value.locateEntries [1] 0 (declaredEnv workflow))
  let inner := mergeEnv outer (Value.locateEntries [2] 0 (declaredEnv job))
  return mergeEnv inner (Value.locateEntries [3] 0 (declaredEnv step))

def of (workflow : Value) (path : Path) : Scope where
  jobId := jobId? path
  event := firstEvent workflow
  name := (workflow.get? (Text.of "name")).map (Value.locateAt [0])
  runsOn := (jobAt workflow path).get? (Text.of "runs-on")
  env := envAt workflow path

def runnerOs (runsOn : Option Value) : Value :=
  match runsOn with
  | some (.str label) =>
    if Template.hasExpression label then .undefined
    else if (Text.of "windows").isPrefixOf label.lower then .text "Windows"
    else if (Text.of "macos").isPrefixOf label.lower then .text "macOS"
    else if (Text.of "ubuntu").isPrefixOf label.lower then .text "Linux"
    else .undefined
  | _ => .undefined

def github (scope : Scope) (settings : Settings) : Value :=
  let payload := Payload.sample scope.event
  let ref :=
    match payload.get? (Text.of "ref") with
    | some (.str name) => .str name
    | _ => .text "refs/heads/main"
  let named (name : Option Text) : Value :=
    match name with
    | some n => .str n
    | none => .undefined
  Payload.fields [
    ("event_name", named scope.event),
    ("event", payload),
    ("repository", .str settings.repository),
    ("repository_owner", .str settings.repositoryOwner),
    ("workflow", scope.name.getD .undefined),
    ("job", named scope.jobId),
    ("ref", ref),
    ("sha", (payload.get? (Text.of "after")).getD
      (.text "ffac537e6cbbf934b08745a378932722df287a53")),
    ("actor", .text "octocat"),
    ("run_id", .text "1"),
    ("run_number", .text "1"),
    ("workspace", .str (Text.of "/home/runner/work/" ++ settings.repositoryName)),
    ("token", .text "***")]

def runner (scope : Scope) : Value := Payload.fields [
  ("os", runnerOs scope.runsOn), ("temp", .undefined), ("tool_cache", .undefined)]

def secretNames (secrets : List Text) : Value :=
  .record (mergeEnv [] ((Text.of "GITHUB_TOKEN" :: secrets).map fun name => (name, .text "***")))

def expandWith (expand : Text → Except EvalError Value) (v : Value) : Except EvalError Value :=
  match v with
  | .str text => if Template.hasExpression text then expand text else .ok v
  | _ => .ok v

/-- Name under which a variable is declared: exact first, then without regard to case. -/
def declaredName? (env : List (Text × Value)) (name : Text) : Option (Text × Value) :=
  match env.lookup name with
  | some item => some (name, item)
  | none => env.find? (fun entry => entry.1.casefold = name.casefold)

def resolveEnv (scope : Scope) (expand : Text → Except EvalError Value) (segments : List Text) :
    Except EvalError Value := do
  let env ← scope.env
  match segments with
  | [] =>
    let expanded ← env.mapM fun (name, item) => do return (name, ← expandWith expand item)
    return .record expanded
  | name :: rest =>
    match declaredName? env name with
    | none => return .undefined
    | some (_, item) => return (← expandWith expand item).lookup rest

def resolveWith (scope : Scope) (settings : Settings) (secrets : List Text)
    (expand : Text → Except EvalError Value) (path : Text) : Except EvalError Value :=
  match pathSegments path with
  | [] => .ok .undefined
  | first :: rest =>
    let name := first.lower
    if name = Text.of "env" then scope.resolveEnv expand rest
    else if name = Text.of "github" then .ok ((scope.github settings).lookup rest)
    else if name = Text.of "secrets" then .ok ((secretNames secrets).lookup rest)
    else if name = Text.of "runner" then .ok (scope.runner.lookup rest)
    else if name = Text.of "job" then
      .ok ((Payload.fields [("status", .text "success")]).lookup rest)
    else .ok .undefined

/-- A variable whose expressions fail is undefined; other errors are not hidden. -/
def expandTemplate (resolve : Resolver) (text : Text) : Except EvalError Value :=
  match (Template.evaluate resolve text).result with
  | .error (.expression _) => .ok .undefined
  | result => result

/-- The value at a dotted path with so many levels of expansion left; a variable that needs one
more is undefined. -/
def resolveWithin (scope : Scope) (settings : Settings) (secrets : List Text) : Nat → Resolver
  | 0 => scope.resolveWith settings secrets (fun _ => .ok .undefined)
  | levels + 1 =>
    scope.resolveWith settings secrets
      (expandTemplate (scope.resolveWithin settings secrets levels))

end Scope

def Context.edit (settings : Settings) (secrets : List Text) (workflow : Value) (path : Path) :
    Context where
  resolve := (Scope.of workflow path).resolveWithin settings secrets settings.maxContextDepth.toNat
  suggest _ := none

/-- Edit-time contexts; without secrets of their own they know those of the settings. -/
def ContextSource.edit (settings : Settings) (secrets : Option (List Text)) : ContextSource :=
  Context.edit settings (secrets.getD settings.secrets)

end Flowfile
