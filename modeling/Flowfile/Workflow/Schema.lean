import Flowfile.Schema.Basic
import Flowfile.Workflow.Event

/-!
The schema of workflow files.
-/

namespace Flowfile.Workflow

def about (description : String) : About := ⟨some (Text.of description), none⟩

def anyText (description : String) : Desc := .scalar (about description) {}

def choicesOf (values : List String) : List Choice := values.map fun value => ⟨Text.of value, none, none⟩

def optional (name : String) (desc : Desc) : Property Desc := ⟨Text.of name, desc, false⟩

def required (name : String) (desc : Desc) : Property Desc := ⟨Text.of name, desc, true⟩

/-- Identifiers of jobs: a letter or underscore, then letters, digits, underscores and dashes. -/
def jobIdPattern : KeyPattern where
  text := Text.of "[_a-zA-Z][a-zA-Z0-9_-]*"
  accepts
    | [] => false
    | first :: rest =>
      (first = '_' || first.isAlpha) && rest.all fun c => c.isAlphanum || c = '_' || c = '-'

def runners : List Choice := [
  ("ubuntu-latest", "Ubuntu, latest GitHub-hosted version"),
  ("ubuntu-20.04", "Ubuntu 20.04 GitHub-hosted runner"),
  ("ubuntu-18.04", "Ubuntu 18.04 GitHub-hosted runner"),
  ("windows-latest", "Windows Server, latest GitHub-hosted version"),
  ("windows-2019", "Windows Server 2019 GitHub-hosted runner"),
  ("macos-latest", "macOS, latest GitHub-hosted version"),
  ("macos-10.15", "macOS Catalina 10.15 GitHub-hosted runner"),
  ("self-hosted", "A runner you host yourself")].map
    fun (label, description) => ⟨Text.of label, none, some (Text.of description)⟩

def shells : List Choice := choicesOf ["bash", "pwsh", "python", "sh", "cmd", "powershell"]

def boolean (description : String) : Desc :=
  .scalar (about description) ⟨choicesOf ["true", "false"], true, false⟩

def envMapping (scope : String) : Desc :=
  .mapping (about ("A map of environment variables that are available to " ++ scope ++ "."))
    ⟨[], some .anything, none⟩

def anyTexts (description : String) : Desc := .sequence (about description) .anything

def branchFilters : List (Property Desc) := [
  optional "branches" (anyTexts "Run only for the listed branches. Supports glob patterns."),
  optional "branches-ignore"
    (anyTexts "Skip runs for the listed branches. Supports glob patterns.")]

def tagFilters : List (Property Desc) := [
  optional "tags" (anyTexts "Run only for the listed tags. Supports glob patterns."),
  optional "tags-ignore" (anyTexts "Skip runs for the listed tags. Supports glob patterns.")]

def pathFilters : List (Property Desc) := [
  optional "paths"
    (anyTexts "Run only when at least one changed file matches one of the listed paths."),
  optional "paths-ignore"
    (anyTexts "Skip runs when all changed files match the listed paths.")]

def activityTypes (event : Event) : Property Desc :=
  let item : Desc := .scalar (about ("An activity type of the " ++ event.name ++ " event."))
    ⟨choicesOf event.types, false, false⟩
  optional "types" (.oneOf
    (about ("Selects the " ++ event.name ++ " activity types that trigger the workflow."))
    [.sequence {} item, item])

def manualInput : Desc := .mapping {} ⟨[
  optional "description" (anyText "A description of the input."),
  optional "required" (boolean "Whether the input must be supplied."),
  optional "default" (anyText "The default value of the input.")], none, none⟩

/-- Properties that only some events have. -/
def ownProperties (name : String) : List (Property Desc) :=
  if name = "push" then branchFilters ++ tagFilters ++ pathFilters
  else if name = "pull_request" || name = "pull_request_target" then branchFilters ++ pathFilters
  else if name = "workflow_run" then
    branchFilters ++ [optional "workflows" (anyTexts "Names of the workflows to follow.")]
  else if name = "repository_dispatch" then
    [optional "types" (anyTexts "Custom event types to react to.")]
  else if name = "workflow_dispatch" then
    [optional "inputs" (.mapping
      (about "Inputs requested when the workflow is triggered manually.")
      ⟨[], some manualInput, none⟩)]
  else []

def eventDesc (event : Event) : Desc :=
  if event.name = "schedule" then
    .sequence (about event.description) (.mapping {} ⟨
      [required "cron" (anyText "A POSIX cron expression, evaluated in UTC.")], none, none⟩)
  else
    let types := if event.types.isEmpty then [] else [activityTypes event]
    .mapping (about event.description) ⟨types ++ ownProperties event.name, none, none⟩

def eventName : Desc :=
  .scalar (about "The name of the GitHub event that triggers the workflow.")
    ⟨Event.catalog.map fun event =>
      ⟨Text.of event.name, none, some (Text.of event.description)⟩, false, false⟩

def triggers : Desc :=
  .oneOf
    (about ("The name of the GitHub event that triggers the workflow. You can provide " ++
      "a single event string, array of events, array of event types, or an event " ++
      "configuration map that schedules a workflow or restricts the execution of a workflow " ++
      "to specific files, tags, or branch changes."))
    [eventName, .sequence {} eventName,
      .mapping {} ⟨Event.catalog.map fun event => optional event.name (eventDesc event), none, none⟩]

/-- Inputs of the action that a step uses: those that the context names, or any if it names none. -/
def stepInputs (inquiry : Inquiry) : Option Desc :=
  let explained := about "A map of the input parameters defined by the action."
  match inquiry.context.suggest inquiry.path.dotted with
  | some (name :: names) =>
    some (.mapping explained
      ⟨Fields.ofList ((name :: names).map fun n => ⟨n, .anything, false⟩), none, none⟩)
  | _ => some (.mapping explained ⟨[], some .anything, none⟩)

def stepDesc : Desc := .mapping {} ⟨[
  optional "id" (anyText "A unique identifier for the step."),
  optional "if" (anyText "Prevents the step from running unless a condition is met."),
  optional "name" (anyText "A name for your step to display on GitHub."),
  optional "uses" (anyText "Selects an action to run as part of a step in your job."),
  optional "run" (anyText "Runs command-line programs using the runner's shell."),
  optional "shell" (.scalar (about "Overrides the default shell used to run the command.")
    ⟨shells, false, false⟩),
  optional "working-directory" (anyText "The working directory where the command is run."),
  optional "with" (.custom (about "Inputs for the action.") stepInputs),
  optional "env" (envMapping "the step"),
  optional "continue-on-error" (boolean "Prevents a job from failing when the step fails."),
  optional "timeout-minutes" (anyText "The maximum number of minutes to run the step.")],
  none, none⟩

def stepName : Text := Text.of "step"

def jobName : Text := Text.of "job"

def jobDesc : Desc := .mapping (about "Each job must have an id to associate with the job.") ⟨[
  optional "env" (envMapping "all steps in the job"),
  required "runs-on" (.scalar
    (about ("The type of machine to run the job on. The machine can be " ++
      "either a GitHub-hosted runner, or a self-hosted runner."))
    ⟨runners, false, true⟩),
  optional "steps" (.sequence
    (about ("A job contains a sequence of tasks called steps. Steps can " ++
      "run commands, run setup tasks, or run an action."))
    (.reference {} stepName))], none, none⟩

def rootDesc : Desc := .mapping {} ⟨[
  optional "env" (envMapping "all jobs and steps in the workflow"),
  required "jobs" (.mapping
    (about ("A workflow run is made up of one or more jobs. Jobs run in " ++
      "parallel by default."))
    ⟨[], some (.reference {} jobName), some jobIdPattern⟩),
  optional "name" (anyText ("The name of your workflow. GitHub displays the names of your " ++
    "workflows on your repository's actions page.")),
  required "on" triggers], none, none⟩

def schema : Schema := ⟨rootDesc, [(jobName, jobDesc), (stepName, stepDesc)]⟩

end Flowfile.Workflow
