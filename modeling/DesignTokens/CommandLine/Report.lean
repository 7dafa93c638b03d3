/-
Carrying out a request, and the report of it.

A report holds what is printed, the notices that are logged, in order, and the
error that ended the run, if one did. What was printed before an error stays.
The configuration is loaded first, then its registry, and then the command is
carried out; only building and getting tokens load the manifest.
-/
import DesignTokens.CommandLine.Arguments
import DesignTokens.Configuration.Loading

namespace DesignTokens

inductive RunError
  | configuration (error : ConfigurationError)
  | undefinedPath (path : String)
  | undefinedToken (category key : String) (variant : ThemeVariant)
deriving DecidableEq

/-- The wordings of an error and of its causes, from the outside in. -/
def RunError.chain : RunError → List String
  | .configuration error => error.chain
  | .undefinedPath path => [s!"`{path}` is undefined"]
  | .undefinedToken category key variant =>
    [s!"`{category}.{key}` is undefined in the {variant.name} theme"]

def RunError.message (error : RunError) : String := error.chain.headD ""

def causeLines (numbered : Bool) : Nat → List String → List String
  | _, [] => []
  | number, cause :: rest =>
    let mark := if numbered then toString number ++ ": " else ""
    ("    " ++ mark ++ cause) :: causeLines numbered (number + 1) rest

def RunError.lines (error : RunError) : List String :=
  match error.chain with
  | [] => []
  | [message] => ["Error: " ++ message]
  | message :: causes =>
    ["Error: " ++ message, "", "Caused by:"] ++ causeLines (1 < causes.length) 0 causes

inductive Notice
  | circular (reference : CircularReference)
  | undefinedToken (variant : ThemeVariant) (name : String)
deriving DecidableEq

def Notice.message : Notice → String
  | .circular reference => "vellum_tokens::resolver: " ++ reference.message
  | .undefinedToken variant name => s!"vellum: {variant.name} theme: token {name} is undefined"

structure Report where
  output : String
  notices : List Notice
  error : Option RunError

def Report.failed (error : RunError) : Report := ⟨"", [], some error⟩

def Report.exitCode (report : Report) : UInt32 :=
  if report.error.isSome then 1 else 0

def usageExitCode : UInt32 := 2

def versionLine : String := "vellum 0.1.0\n"

/-! ### The commands -/

def chosenThemes (tokens : ThemeTokens) (choice : ThemeChoice) : List RenderedTheme :=
  choice.variants.map fun variant => (variant, tokens.map variant)

def undefinedNotices (themes : List RenderedTheme) : List Notice :=
  themes.flatMap fun (variant, map) => map.undefined.map fun name => .undefinedToken variant name

def reportBuild (tokens : Traced ThemeTokens) (choice : ThemeChoice) (format : OutputFormat) :
    Report :=
  let themes := chosenThemes tokens.result choice
  { output := render themes format ++ "\n"
    notices := tokens.warnings.map .circular ++ undefinedNotices themes
    error := none }

/-- The path that a text stands for; it may be given as a reference. -/
def requestedPath (text : String) : String := (referencePath? text).getD text

/-- The report of resolving one path, which is normalized like a published token. -/
def reportResolve (registry : SourceRegistry) (text : String) : Report :=
  let path := requestedPath text
  let reference := Value.string (referenceText path)
  let normal := (Resolver.fresh registry).normalize reference
  let notices := normal.warnings.map Notice.circular
  match normal.result.1 with
  | some value => ⟨value.printedText ++ "\n", notices, none⟩
  | none => ⟨"", notices, some (.undefinedPath path)⟩

/-- The published value of a slot, with the fallbacks for backgrounds and spacings. -/
def publishedValue? (map : TokenMap) (category key : String) : Option Value :=
  if category = "bg" then (map.background? key).map .string
  else if category = "spacing" then (map.spacing? key).map .string
  else map.get? category key

/-- What getting one token prints for some themes, up to the first without it. -/
def getLines (category key : String) : List RenderedTheme → String × Option RunError
  | [] => ("", none)
  | (variant, map) :: rest =>
    match publishedValue? map category key with
    | none => ("", some (.undefinedToken category key variant))
    | some value =>
      let others := getLines category key rest
      (variant.name ++ ": " ++ value.printedText ++ "\n" ++ others.1, others.2)

def reportGet (tokens : Traced ThemeTokens) (category key : String) (choice : ThemeChoice) :
    Report :=
  let lines := getLines category key (chosenThemes tokens.result choice)
  ⟨lines.1, tokens.warnings.map .circular, lines.2⟩

def sourceLines : Nat → List String → String
  | _, [] => ""
  | number, name :: rest =>
    toString number ++ ". " ++ name ++ "\n" ++ sourceLines (number + 1) rest

def reportSources (registry : SourceRegistry) : Report :=
  ⟨sourceLines 1 registry.names, [], none⟩

/-! ### Runs -/

variable {m : Type → Type} [Monad m]

def withTokens (read : FileReader m) (configuration : Configuration)
    (registry : SourceRegistry) (report : Traced ThemeTokens → Report) : m Report := do
  match ← configuration.loadTokens read registry with
  | .ok tokens => return report tokens
  | .error error => return .failed (.configuration error)

def Command.run (read : FileReader m) (configuration : Configuration)
    (registry : SourceRegistry) : Command → m Report
  | .build themes format =>
    withTokens read configuration registry fun tokens => reportBuild tokens themes format
  | .resolve path => return reportResolve registry path
  | .get category key themes =>
    withTokens read configuration registry fun tokens => reportGet tokens category key themes
  | .sources => return reportSources registry

def runConfiguration (read : FileReader m) (config : Option String) :
    m (Except ConfigurationError Configuration) :=
  match config with
  | none => pure (.ok .default)
  | some path => Configuration.load read path

def runCommand (read : FileReader m) (config : Option String) (command : Command) :
    m Report := do
  match ← runConfiguration read config with
  | .error error => return .failed (.configuration error)
  | .ok configuration =>
    match ← configuration.loadRegistry read with
    | .error error => return .failed (.configuration error)
    | .ok registry => command.run read configuration registry

def Request.run (read : FileReader m) : Request → m Report
  | .version => pure ⟨versionLine, [], none⟩
  | .command config wanted => runCommand read config wanted

end DesignTokens
