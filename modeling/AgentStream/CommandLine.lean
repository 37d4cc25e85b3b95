/-
# The command line

A request is read from a file and run with the echo engine, which answers every turn with its own
text, for trying out a configuration; every event is printed as one line of JSON.  On demand the
session is shown as a snapshot after the run.

* `Echo.reply`, `Echo.perform` : the answer to a message, and what the engine does when it is called;
* `CommandLine.Options` : the options; `CommandLine.Options.parse` : reading them;
* `CommandLine.execute` : what a call prints and how it exits.
-/
import AgentStream.Framing
import AgentStream.Host.Clock
import AgentStream.Host.Operations

/-! ## The echo engine -/

namespace AgentStream.Echo

open Engine (Output Response)

/-- A message without a text is answered with the number of its parts. -/
def reply (m : Engine.Message) : String :=
  if m.content.isEmpty then "received " ++ toString m.parts.length ++ " content part(s)"
  else m.content

/-- The answer to a message in a session, as one whole chat message. -/
def answer (sessionId : String) (m : Engine.Message) : Output :=
  let id := "echo-" ++ sessionId
  { id, author := "echo", response := some (.completion id (reply m)) }

/-- The mark that the run has ended. -/
def ending : Output := { id := "", author := "runner", response := some .runEnd }

/-- The engine answers at once and ends the run. -/
def perform (call : EngineCall) : Performance :=
  { stream := .ok [.output (answer call.sessionId call.message), .output ending] }

end AgentStream.Echo

namespace AgentStream.CommandLine

/-! ## Options -/

/-- The options of a call. -/
structure Options where
  input : String
  config : Option String := none
  snapshot : Bool := false
deriving DecidableEq

/-- The name of the variable that names the configuration if no option does. -/
def configVariable : String := "AGUI_RUNNER_CONFIG"

/-- What a call looks like. -/
def usage : String := "usage: agui-runner --input <FILE> [--config <FILE>] [--snapshot]"

/-- Options as far as they are given. -/
structure Given where
  input : Option String := none
  config : Option String := none
  snapshot : Bool := false

/-- Take in words one after the other; `none` if one of them is no option. -/
def Given.take (g : Given) : List String → Option Given
  | [] => some g
  | "--snapshot" :: rest => take { g with snapshot := true } rest
  | "--input" :: path :: rest => take { g with input := some path } rest
  | "--config" :: path :: rest => take { g with config := some path } rest
  | _ => none

/-- The options of words; a fallback stands in for a missing configuration. -/
def Options.parse (words : List String) (fallback : Option String) : Option Options := do
  let g ← ({} : Given).take words
  let input ← g.input
  pure { input, config := g.config.or fallback, snapshot := g.snapshot }

/-! ## Files -/

/-- A file by its path: its contents, or why it cannot be read. -/
structure File where
  path : String
  contents : Except String Bytes

/-- The name of the app if the configuration gives none. -/
def defaultAppName : String := "agui-runner"

/-- The configuration of a call. -/
def config (file : Option File) : Except ConfigError Config := do
  let c ← match file with
    | none => pure {}
    | some f =>
      let document ← f.contents.mapError (.read f.path)
      (Config.ofBytes document).mapError .parse
  pure (if c.appName.isEmpty then { c with appName := defaultAppName } else c)

/-- The request of a call, or why there is none. -/
def request (file : File) : Except String Request := do
  let document ← file.contents.mapError fun reason =>
    "read input " ++ file.path ++ ": " ++ reason
  (decodeText Request.decode document).mapError fun fault => "parse input: " ++ fault.message

/-! ## Calls -/

/-- The host of a call. -/
abbrev CallHost := Host Framer MemoryStore

/-- The host of a call: the echo engine, a store in memory, and nothing brought along. -/
def host (config : Config) (ids : Identifiers) : CallHost where
  runner :=
    { config
      hooks := { translator := fun _ r _ => .ok { threadId := r.threadId, runId := r.runId } } }
  engine _ call := Echo.perform call
  recorder := some { store := {}, options := config.recorderOptions }
  ids := ids

/-- How long a stream is read, in milliseconds. -/
def patienceMs : Nat := 18446744073709551615

/-- The lines of a stream, read to its end, at most so many. -/
def lines (stream : Nat) : Nat → CallHost → List String × CallHost
  | 0, h => ([], h)
  | n + 1, h =>
    match h.read stream (h.now + patienceMs) with
    | (.event e, h) =>
      let (rest, h) := lines stream n h
      (e.text :: rest, h)
    | (_, h) => ([], h)

/-- What a call prints, what it says has gone wrong, and how it exits. -/
structure Report where
  output : List String := []
  error : Option String := none
  exitCode : Nat := 0
deriving DecidableEq

/-- The report of a call without events. -/
def Report.refusal (message : String) (exitCode : Nat) : Report :=
  { error := some message, exitCode }

/-- The report of a snapshot after a run. -/
def snapshotReport (h : CallHost) (caller : Scope) (r : Request) (output : List String) : Report :=
  match h.snapshot caller r with
  | .error error =>
    { output, error := some ("messages snapshot failed: " ++ error.message), exitCode := 1 }
  | .ok (stream, h) => { output := output ++ (lines stream Host.patience h).1 }

/-- The report of a run, and of the snapshot after it if there is one. -/
def runReport (h : CallHost) (r : Request) (snapshot : Bool) : Report :=
  let (caller, h) := h.background
  match h.run caller r with
  | .error error => .refusal ("run failed: " ++ error.message) 1
  | .ok (stream, h) =>
    let (output, h) := lines stream Host.patience h
    if snapshot then snapshotReport h caller r output else { output }

/-- The report of a call. -/
def execute (input : File) (configFile : Option File) (snapshot : Bool) (ids : Identifiers) :
    Report :=
  match config configFile with
  | .error error => .refusal ("failed to load config: " ++ error.message) 2
  | .ok c =>
    match request input with
    | .error message => .refusal message 2
    | .ok r => runReport (host c ids) r snapshot

end AgentStream.CommandLine
