import HdlExpr.Batch
import HdlExpr.Cli.Format
import HdlExpr.Cli.Invocation
import HdlExpr.Cli.Search
import HdlExpr.Tag.Style
import HdlExpr.Text.Search

/-!
# Runs

Carries out a command line.  Commands work on texts that have been read before; files are reached
only through a host, so that a run is the same on files in memory.
-/

namespace HdlExpr.Cli

/-- What surrounds a run. -/
structure Environment extends Document.Codec where
  workingDirectory : String
  configDirectory : String
  /-- Directories to be searched for documents. -/
  searchPath : String := ""
  suggest : Suggest := Text.Search.suggest?
  /-- How a time is written in a layout. -/
  render : String → Int → String := Log.Layout.withoutClock

/-- What a run leaves behind, apart from files. -/
structure Outcome where
  output : String := ""
  records : List Log.Record := []
  failure : Option Failure := none
  /-- Whether the run broke down before its end. -/
  crashed : Bool := false

namespace Outcome

def after (r : Log.Record) (o : Outcome) : Outcome := { o with records := r :: o.records }

end Outcome

/-- Texts that have been read, by their paths. -/
abbrev Texts := List (String × Except Document.Fault String)

def Texts.fetch (texts : Texts) (path : String) : Except Document.Fault String :=
  (texts.lookup path).getD (.error (.unreadable ("open " ++ path) false))

namespace Invocation

/-! ## Commands without files -/

def wish (i : Invocation) : Wish :=
  { names := i.texts "name", defines := i.texts "define"
    limit := depthLimit (i.number "max-depth") }

def format (i : Invocation) : Format := .ofName (i.text "format")

/-- Evaluates or lowers all targets.  There are no results if an evaluation breaks down. -/
def runTargets (i : Invocation) (suggest : Suggest) (targets : List Target) :
    Option (List Result) × List Log.Record :=
  if i.command = .eval then
    let parts := targets.map fun t => t.evaluate (i.isSet "mute") i.wish.limit
    let results := parts.flatMap (·.1)
    match Log.Record.ofReports suggest (parts.flatMap (·.2)) with
    | (records, true) =>
      (results, records ++ [⟨.debug, "evaluated", [.int "expressions" results.length]⟩])
    | (records, false) => (none, records)
  else
    let parts := targets.mapIdx fun k t =>
      t.lower (!i.isSet "no-substitute") i.wish.limit (k + 1)
    (parts.flatMap (·.1), parts.flatMap (·.2))

/-- Loads documents, and evaluates or lowers their expressions. -/
def runSources (i : Invocation) (e : Environment) (texts : Texts) (places : List Target.Place) :
    Outcome :=
  match Target.loadAll e.toCodec texts.fetch i.wish {} places with
  | (.error failure, records) => { records, failure }
  | (.ok targets, records) =>
    match i.runTargets e.suggest targets with
    | (some results, more) =>
      { output := i.format.write (1 < targets.length) results, records := records ++ more }
    | (none, more) => { records := records ++ more, crashed := true }

/-- The names of tags: all of them, or those that match the argument, best first.  There are none if
the search breaks down. -/
def tagNames? (i : Invocation) : Option (List String) :=
  let all := Tag.all.map (·.name)
  let found := match i.arguments.headD "" with
    | "" => some all
    | query => Text.Search.find? query all
  let style : Tag.Style := match i.text "case" with
    | "snake" => .snake
    | "camel" => .camel
    | "kebab" => .kebab
    | _ => .canonical
  found.map fun names => names.map style.spell

/-- The settings of the flags that all commands have, as a configuration file. -/
def configText (i : Invocation) : String :=
  let names := (globalFlags.map (·.name)).mergeSort fun a b => decide (a ≤ b)
  (Output.Data.object (names.flatMap fun name =>
    match i.setting name with
    | .text s => Output.Data.textMember name s
    | .truth b => [(name, .scalar (if b then "true" else "false"))]
    | .number n => [(name, .scalar (toString n))]
    | .texts [] => []
    | .texts items => [(name, .list (items.map .text))])).yamlDocument

/-! ## Batches -/

/-- The lines of a batch: one for each document that was loaded, and the totals. -/
def batchText (s : Batch.Summary) : String :=
  let line (f : Batch.File) : String :=
    f.path ++ ": " ++ toString f.results.length ++ " expressions, " ++ toString f.invalid ++
      " invalid, " ++ toString f.diagnostics.length ++ " diagnostics\n"
  String.join (s.files.map line) ++
    "total: " ++ toString s.files.length ++ " documents, " ++ toString s.expressions ++
    " expressions, " ++ toString s.invalid ++ " invalid, " ++ toString s.empty ++ " empty, " ++
    toString s.diagnostics ++ " diagnostics\n"

def runBatch (i : Invocation) (e : Environment) (texts : Texts) (paths : List String) :
    Batch.Run :=
  Batch.run
    { toCodec := e.toCodec, read := texts.fetch, suggest := e.suggest
      limit := depthLimit (i.number "max-depth"), substitute := !i.isSet "no-substitute" } paths

end Invocation

/-! ## Commands with files -/

variable {m : Type → Type} [Monad m]

/-- The path of a configuration file, by its ending. -/
def Environment.configPath (e : Environment) (ending : String) : String :=
  Files.join e.configDirectory ("config" ++ ending)

def readAll (host : Files.Host m) (paths : List String) : m Texts :=
  paths.mapM fun path => do return (path, ← host.read path)

/-- Runs both engines over documents.  Metrics are written even if some documents failed, and a
failure to write them counts before those. -/
def batch (host : Files.Host m) (e : Environment) (i : Invocation) (paths : List String) :
    m Outcome := do
  let run := i.runBatch e (← readAll host paths) paths
  if run.crashed then return { records := run.records, crashed := true }
  let (summary, trouble) := run.report paths
  let metrics := i.text "metrics"
  let written ← if metrics = "" then pure (.ok ()) else host.replace metrics run.metrics.text
  return {
    output := Invocation.batchText summary
    records := run.records
    failure := match written with
      | .error cause => some (.output cause metrics)
      | .ok () => trouble.map .batch }

/-- Writes a configuration file, unless there is one that is to be kept. -/
def initialise (host : Files.Host m) (e : Environment) (i : Invocation) : m Outcome := do
  let path := e.configPath ".yaml"
  if ((← host.isFile path) || (← host.isDirectory path)) && !i.isSet "force" then
    return { failure := some (.configurationExists path) }
  match ← host.write path i.configText with
  | .error cause => return { failure := some (.configurationUnwritable cause path) }
  | .ok () => return {
      records := [⟨.debug, "initialized configuration file", [.text "path" path]⟩] }

def Invocation.run (host : Files.Host m) (e : Environment) (i : Invocation) : m Outcome := do
  match i.command with
  | .version => return { output := "svexpr 0.3.0\n" }
  | .tags =>
    match i.tagNames? with
    | some names => return { output := String.join (names.map (· ++ "\n")) }
    | none => return { crashed := true }
  | .init => initialise host e i
  | command =>
    let directories ← searchPath host (i.texts "path") e.searchPath
    let paths ← i.arguments.mapM (locate host directories)
    if command = .batch then batch host e i paths
    else
      let places := List.zipWith (fun name path => ⟨name, path⟩) i.arguments paths
      return i.runSources e (← readAll host paths) places

/-! ## Command lines -/

/-- What a JSON configuration file sets.  A missing file sets nothing. -/
def jsonSettings (path : String) : Except Document.Fault String → Except Failure Config
  | .ok text =>
    match Config.ofJson? text with
    | some c => .ok c
    | none => .error (.configuration path none)
  | .error (.unreadable _ true) => .error (.configuration path none)
  | .error _ => .ok []

/-- What a YAML configuration file sets.  A missing file sets nothing. -/
def yamlSettings (path : String) : Except Document.Fault String → Except Failure Config
  | .ok text => .ok (.ofYaml text)
  | .error (.unreadable cause true) => .error (.configuration path cause)
  | .error _ => .ok []

/-- What the configuration files set, the one that counts first. -/
def readConfig (host : Files.Host m) (e : Environment) :
    m (Except Failure (List (String → Option Plain))) := do
  let jsonPath := e.configPath ".json"
  let yamlPath := e.configPath ".yaml"
  let json := jsonSettings jsonPath (← host.read jsonPath)
  let yaml := yamlSettings yamlPath (← host.read yamlPath)
  return json.bind fun json => yaml.map fun yaml => [yaml.find?, json.findJson?]

/-- What a command line leaves behind. -/
structure Transcript where
  output : String := ""
  log : String := ""
  failure : Option Failure := none
  /-- Whether the run broke down before its end. -/
  crashed : Bool := false
  /-- What wrote the log. -/
  logger : Log.Logger := .make {}

/-- The log with its last line, which tells of a failure. -/
def Transcript.fullLog (t : Transcript) : String :=
  match t.failure with
  | none => t.log
  | some f => t.log ++ t.logger.write ⟨.error, "run failed", [.group "error" f.attrs]⟩

/-- Carries out a command line. -/
def run (host : Files.Host m) (e : Environment) (arguments : List String) : m Transcript := do
  match ← readConfig host e with
  | .error failure => return { failure }
  | .ok sources =>
    match Invocation.read e.workingDirectory sources arguments with
    | none => return { failure := some .invocation }
    | some i =>
      let outcome ← i.run host e
      let logger := Log.Logger.make { i.log with render := e.render }
      return {
        output := outcome.output
        log := logger.writeAll (outcome.after i.logRecord).records
        failure := outcome.failure
        crashed := outcome.crashed
        logger }

end HdlExpr.Cli
