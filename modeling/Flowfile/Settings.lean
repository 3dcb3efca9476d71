import Flowfile.Value.Integer

/-!
Settings of the engine and of its HTTP surface.
-/

namespace Flowfile

structure Settings where
  logLevel : Text := Text.of "INFO"
  serverHost : Text := Text.of "localhost"
  serverPort : Int := 8000
  /-- A port set by the platform, which goes before `serverPort`. -/
  port : Option Int := none
  maxRequestBytes : Int := 2 * 1024 * 1024
  maxDocumentSize : Int := 1000000
  maxDepth : Int := 64
  maxNodeCount : Int := 50000
  maxRecoveryAttempts : Int := 8
  maxContextDepth : Int := 4
  repositoryOwner : Text := Text.of "owner"
  repositoryName : Text := Text.of "repository"
  secrets : List Text := []
  deriving DecidableEq

namespace Settings

/-- Settings in which one is given by its name. A value that does not fit and an unknown name change
nothing. -/
def set (settings : Settings) (name : Text) (value : Value) : Settings :=
  let text (update : Text → Settings) : Settings :=
    match value with
    | .str given => update given
    | _ => settings
  let integer (update : Int → Settings) : Settings :=
    match value.toInteger with
    | .ok given => update given
    | .error _ => settings
  match String.ofList name with
  | "log_level" => text fun given => { settings with logLevel := given }
  | "api_server_host" => text fun given => { settings with serverHost := given }
  | "api_server_port" => integer fun given => { settings with serverPort := given }
  | "port" => integer fun given => { settings with port := some given }
  | "max_request_bytes" => integer fun given => { settings with maxRequestBytes := given }
  | "max_document_size" => integer fun given => { settings with maxDocumentSize := given }
  | "max_depth" => integer fun given => { settings with maxDepth := given }
  | "max_node_count" => integer fun given => { settings with maxNodeCount := given }
  | "max_recovery_attempts" => integer fun given => { settings with maxRecoveryAttempts := given }
  | "max_context_depth" => integer fun given => { settings with maxContextDepth := given }
  | "repository_owner" => text fun given => { settings with repositoryOwner := given }
  | "repository_name" => text fun given => { settings with repositoryName := given }
  | "secrets" =>
    match value with
    | .list _ items =>
      match items.mapM fun item => match item with
          | .str name => some name
          | _ => none with
      | some names => { settings with secrets := names }
      | none => settings
    | _ => settings
  | _ => settings

def ofEntries (entries : List (Text × Value)) : Settings :=
  entries.foldl (fun settings (name, value) => settings.set name value) {}

def effectivePort (settings : Settings) : Int := settings.port.getD settings.serverPort

def repository (settings : Settings) : Text :=
  settings.repositoryOwner ++ '/' :: settings.repositoryName

end Settings

end Flowfile
