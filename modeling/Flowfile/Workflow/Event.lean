import Flowfile.Text.Basic

/-!
The events that can trigger a workflow, with their activity types.
-/

namespace Flowfile

structure Event where
  name : String
  description : String
  /-- Activity types in alphabetical order. -/
  types : List String := []

namespace Event

def api : String := "https://developer.github.com/v3"

def severalTypes (name reference : String) : String :=
  "Runs your workflow anytime the " ++ name ++
    " event occurs. More than one activity type triggers this event. " ++
    "For information about the REST API, see " ++ api ++ "/" ++ reference ++ "."

def singleCause (name cause reference : String) : String :=
  "Runs your workflow anytime " ++ cause ++ ", which triggers the " ++ name ++ " event. " ++
    "For information about the REST API, see " ++ api ++ "/" ++ reference ++ "."

def pullRequestTypes : List String :=
  ["assigned", "closed", "edited", "labeled", "locked", "opened", "ready_for_review", "reopened",
    "review_request_removed", "review_requested", "synchronize", "unassigned", "unlabeled",
    "unlocked"]

def withTypes (name reference : String) (types : List String) : Event :=
  ⟨name, severalTypes name reference, types⟩

def plain (name cause reference : String) : Event := ⟨name, singleCause name cause reference, []⟩

def catalog : List Event := [
  withTypes "check_run" "checks/runs" ["completed", "created", "requested_action", "rerequested"],
  withTypes "check_suite" "checks/suites" ["completed", "requested", "rerequested"],
  plain "create" "someone creates a branch or tag" "git/refs/#create-a-reference",
  plain "delete" "someone deletes a branch or tag" "git/refs/#delete-a-reference",
  plain "deployment" "someone creates a deployment" "repos/deployments",
  plain "deployment_status" "a third party provides a deployment status"
    "repos/deployments/#create-a-deployment-status",
  plain "fork" "someone forks a repository" "repos/forks",
  plain "gollum" "someone creates or updates a Wiki page" "repos/wiki",
  withTypes "issue_comment" "issues/comments" ["created", "deleted", "edited"],
  withTypes "issues" "issues"
    ["assigned", "closed", "deleted", "demilestoned", "edited", "labeled", "locked", "milestoned",
      "opened", "pinned", "reopened", "transferred", "unassigned", "unlabeled", "unlocked",
      "unpinned"],
  withTypes "label" "issues/labels" ["created", "deleted", "edited"],
  withTypes "milestone" "issues/milestones" ["closed", "created", "deleted", "edited", "opened"],
  plain "page_build" "someone pushes to a GitHub Pages-enabled branch" "repos/pages",
  withTypes "project" "projects" ["closed", "created", "deleted", "edited", "reopened", "updated"],
  withTypes "project_card" "projects/cards"
    ["converted", "created", "deleted", "edited", "moved"],
  withTypes "project_column" "projects/columns" ["created", "deleted", "moved", "updated"],
  plain "public" "someone makes a private repository public" "repos/#edit",
  withTypes "pull_request" "pulls" pullRequestTypes,
  withTypes "pull_request_review" "pulls/reviews" ["dismissed", "edited", "submitted"],
  withTypes "pull_request_review_comment" "pulls/comments" ["created", "deleted", "edited"],
  withTypes "pull_request_target" "pulls" pullRequestTypes,
  plain "push" "someone pushes to a repository branch" "git/refs",
  ⟨"registry_package",
    "Runs your workflow anytime a package is published or updated. For more information, " ++
      "see https://help.github.com/en/github/managing-packages-with-github-packages.",
    ["published", "updated"]⟩,
  withTypes "release" "repos/releases"
    ["created", "deleted", "edited", "prereleased", "published", "released", "unpublished"],
  ⟨"repository_dispatch",
    "You can use the GitHub API to trigger a webhook event called repository_dispatch " ++
      "when you want to trigger a workflow for activity that happens outside of GitHub. " ++
      "For more information, see " ++ api ++ "/repos/#create-a-repository-dispatch-event.",
    []⟩,
  ⟨"schedule",
    "You can schedule a workflow to run at specific UTC times using POSIX cron syntax. " ++
      "Scheduled workflows run on the latest commit on the default or base branch.",
    []⟩,
  plain "status" "the status of a Git commit changes" "repos/statuses",
  ⟨"watch", singleCause "watch" "someone stars a repository" "activity/starring", ["started"]⟩,
  ⟨"workflow_dispatch",
    "You can manually trigger a workflow run using the GitHub API or from the Actions " ++
      "tab. Inputs defined for the workflow are offered when the run is triggered.",
    []⟩,
  ⟨"workflow_run",
    "This event occurs when a workflow run is requested or completed, and allows you " ++
      "to execute a workflow based on the finished result of another workflow.",
    ["completed", "requested"]⟩]

def typesOf (name : Text) : List String :=
  match catalog.find? (fun event => Text.of event.name = name) with
  | some event => event.types
  | none => []

end Event

end Flowfile
