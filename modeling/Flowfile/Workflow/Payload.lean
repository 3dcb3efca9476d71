import Flowfile.Value.Basic

/-!
Sample payloads: what `github.event` holds while a workflow is edited. They carry the fields that
workflows read most; an event without a sample has an empty one.
-/

namespace Flowfile.Payload

def fields (entries : List (String × Value)) : Value :=
  .record (entries.map fun (key, item) => (Text.of key, item))

def repository : Value := fields [
  ("id", .int 186853002),
  ("name", .text "repository"),
  ("full_name", .text "owner/repository"),
  ("private", .bool false),
  ("owner", fields [("login", .text "owner"), ("type", .text "User")]),
  ("html_url", .text "https://github.com/owner/repository"),
  ("default_branch", .text "main")]

def sender : Value :=
  fields [("login", .text "octocat"), ("id", .int 21031067), ("type", .text "User")]

def pullRequest : Value := fields [
  ("number", .int 2),
  ("state", .text "open"),
  ("title", .text "Update the README with new information."),
  ("body", .text "This is a pretty simple change that we need to pull into main."),
  ("draft", .bool false),
  ("merged", .bool false),
  ("head", fields [
    ("ref", .text "changes"), ("sha", .text "ec26c3e57ca3a959ca5aad62de7213c562f8c821")]),
  ("base", fields [
    ("ref", .text "main"), ("sha", .text "f95f852bd8fca8fcc58a9a2d6c842781e32a215e")]),
  ("user", sender),
  ("labels", .list none [])]

def common : List (String × Value) := [("repository", repository), ("sender", sender)]

def pullRequestEvent : Value :=
  fields ([("action", .text "opened"), ("number", .int 2), ("pull_request", pullRequest)] ++ common)

def samples : List (String × Value) := [
  ("push", fields [
    ("ref", .text "refs/tags/simple-tag"),
    ("before", .text "6113728f27ae82c7b1a177c8d03f9e96e0adf246"),
    ("after", .text "0000000000000000000000000000000000000000"),
    ("created", .bool false),
    ("deleted", .bool true),
    ("forced", .bool false),
    ("base_ref", .null),
    ("compare",
      .text "https://github.com/owner/repository/compare/6113728f27ae...000000000000"),
    ("commits", .list none []),
    ("head_commit", .null),
    ("repository", repository),
    ("pusher", fields [("name", .text "octocat"), ("email", .text "octocat@example.com")]),
    ("sender", sender)]),
  ("pull_request", pullRequestEvent),
  ("pull_request_target", pullRequestEvent),
  ("issues", fields ([
    ("action", .text "opened"),
    ("issue", fields [
      ("number", .int 1),
      ("title", .text "Spelling error in the README file"),
      ("state", .text "open"),
      ("labels", .list none [fields [("name", .text "bug"), ("color", .text "d73a4a")]]),
      ("user", sender),
      ("body", .text "It looks like you accidentally spelled 'commit' with two 't's.")])] ++
    common)),
  ("issue_comment", fields ([
    ("action", .text "created"),
    ("issue", fields [
      ("number", .int 1),
      ("title", .text "Spelling error in the README file"),
      ("state", .text "open")]),
    ("comment", fields [
      ("id", .int 492700400),
      ("body", .text "You are totally right! I'll get this fixed right away.")])] ++
    common)),
  ("release", fields ([
    ("action", .text "published"),
    ("release", fields [
      ("tag_name", .text "0.0.1"),
      ("target_commitish", .text "main"),
      ("name", .null),
      ("draft", .bool false),
      ("prerelease", .bool false)])] ++
    common)),
  ("check_run", fields ([
    ("action", .text "created"),
    ("check_run", fields [
      ("id", .int 128620228),
      ("name", .text "Octocoders-linter"),
      ("status", .text "queued"),
      ("conclusion", .null),
      ("head_sha", .text "ec26c3e57ca3a959ca5aad62de7213c562f8c821")])] ++
    common)),
  ("check_suite", fields ([
    ("action", .text "completed"),
    ("check_suite", fields [
      ("id", .int 118578147),
      ("head_branch", .text "changes"),
      ("status", .text "completed"),
      ("conclusion", .text "success")])] ++
    common)),
  ("workflow_dispatch",
    fields ([("ref", .text "refs/heads/main"), ("inputs", .record [])] ++ common)),
  ("repository_dispatch", fields ([
    ("action", .text "on-demand-test"),
    ("branch", .text "main"),
    ("client_payload", .record [])] ++ common)),
  ("schedule", fields [("schedule", .text "*/15 * * * *")])]

def sample (event : Option Text) : Value :=
  match event with
  | none => .record []
  | some name =>
    match samples.find? (fun entry => Text.of entry.1 = name) with
    | some entry => entry.2
    | none => .record []

end Flowfile.Payload
