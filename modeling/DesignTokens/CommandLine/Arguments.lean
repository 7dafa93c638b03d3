/-
The arguments of the command line.

Options for a configuration and for more detail stand before or after the
command; the others belong to a command. An option is given at most once on
either side of the command, and the side after it counts. An option with a value
takes the rest of its argument or the next argument; after two dashes nothing is
an option any more.

Reading the arguments gives a request, or the reason why there is none.
-/
import DesignTokens.Output.Render

namespace DesignTokens

inductive OptionName
  | config
  | verbose
  | version
  | theme
  | format
deriving DecidableEq

def OptionName.letter : OptionName → Char
  | .config => 'c'
  | .verbose => 'v'
  | .version => 'V'
  | .theme => 't'
  | .format => 'f'

def OptionName.long : OptionName → String
  | .config => "config"
  | .verbose => "verbose"
  | .version => "version"
  | .theme => "theme"
  | .format => "format"

def OptionName.takesValue : OptionName → Bool
  | .config => true
  | .theme => true
  | .format => true
  | _ => false

inductive ThemeChoice
  | light
  | dark
  | all
deriving DecidableEq

def ThemeChoice.ofName? (name : String) : Option ThemeChoice :=
  if name = "light" then some .light
  else if name = "dark" then some .dark
  else if name = "all" then some .all
  else none

def ThemeChoice.variants : ThemeChoice → List ThemeVariant
  | .light => [.light]
  | .dark => [.dark]
  | .all => ThemeVariant.all

inductive Command
  | build (themes : ThemeChoice) (format : OutputFormat)
  | resolve (path : String)
  | get (category key : String) (themes : ThemeChoice)
  | sources
deriving DecidableEq

inductive Request
  | version
  | command (config : Option String) (wanted : Command)
deriving DecidableEq

inductive UsageError
  | unknownOption (text : String)
  | missingValue (option : OptionName)
  | unexpectedValue (option : OptionName)
  | invalidValue (option : OptionName) (value : String)
  | repeated (option : OptionName)
  | missingCommand
  | unknownCommand (name : String)
  | missingOperand
  | unexpectedOperand (text : String)
deriving DecidableEq

inductive Interruption
  | version
  | misuse (error : UsageError)

/-! ### Options -/

structure GivenOptions where
  config : Option String
  verbose : Bool
  theme : Option ThemeChoice
  format : Option OutputFormat

def GivenOptions.none : GivenOptions := ⟨.none, false, .none, .none⟩

def GivenOptions.setValue (given : GivenOptions) (option : OptionName) (value : String) :
    Except Interruption GivenOptions :=
  match option with
  | .config =>
    if given.config.isSome then .error (.misuse (.repeated option))
    else if value.isEmpty then .error (.misuse (.invalidValue option value))
    else .ok { given with config := some value }
  | .theme =>
    match given.theme, ThemeChoice.ofName? value with
    | some _, _ => .error (.misuse (.repeated option))
    | .none, some choice => .ok { given with theme := some choice }
    | .none, .none => .error (.misuse (.invalidValue option value))
  | .format =>
    match given.format, OutputFormat.ofName? value with
    | some _, _ => .error (.misuse (.repeated option))
    | .none, some format => .ok { given with format := some format }
    | .none, .none => .error (.misuse (.invalidValue option value))
  | _ => .error (.misuse (.unexpectedValue option))

def GivenOptions.setFlag (given : GivenOptions) (option : OptionName) :
    Except Interruption GivenOptions :=
  match option with
  | .version => .error .version
  | .verbose =>
    if given.verbose then .error (.misuse (.repeated option))
    else .ok { given with verbose := true }
  | _ => .error (.misuse (.missingValue option))

/-- The value that follows a letter in the same argument, without an equals sign before it. -/
def attachedValue : List Char → List Char
  | '=' :: rest => rest
  | text => text

/-- Reads the letters of an argument. The last letter may be that of an option whose value is
the next argument. -/
def readLetters (allowed : List OptionName) (given : GivenOptions) :
    List Char → Except Interruption (GivenOptions × Option OptionName)
  | [] => .ok (given, none)
  | letter :: rest =>
    match allowed.find? fun option => option.letter == letter with
    | none => .error (.misuse (.unknownOption (String.singleton letter)))
    | some option =>
      if option.takesValue then
        if rest.isEmpty then .ok (given, some option)
        else
          (given.setValue option (String.ofList (attachedValue rest))).map fun given =>
            (given, none)
      else
        match given.setFlag option with
        | .error interruption => .error interruption
        | .ok given => readLetters allowed given rest

/-- Reads an argument after its two dashes: a long name, and perhaps an equals sign and a value.
The value may be the next argument. -/
def readLong (allowed : List OptionName) (given : GivenOptions) (text : List Char) :
    Except Interruption (GivenOptions × Option OptionName) :=
  let name := String.ofList (text.takeWhile (· ≠ '='))
  match allowed.find? fun option => option.long == name with
  | none => .error (.misuse (.unknownOption name))
  | some option =>
    match text.dropWhile (· ≠ '=') with
    | [] =>
      if option.takesValue then .ok (given, some option)
      else (given.setFlag option).map fun given => (given, none)
    | _ :: value =>
      (given.setValue option (String.ofList value)).map fun given => (given, none)

/-! ### Arguments -/

inductive ArgumentShape
  | endOfOptions
  | long (text : List Char)
  | letters (text : List Char)
  | operand

/-- The shape of an argument. A single dash is an operand. -/
def argumentShape (argument : String) : ArgumentShape :=
  match argument.toList with
  | ['-', '-'] => .endOfOptions
  | '-' :: '-' :: text => .long text
  | '-' :: c :: text => .letters (c :: text)
  | _ => .operand

def readOptions? (allowed : List OptionName) (given : GivenOptions) (argument : String) :
    Option (Except Interruption (GivenOptions × Option OptionName)) :=
  match argumentShape argument with
  | .long text => some (readLong allowed given text)
  | .letters text => some (readLetters allowed given text)
  | _ => none

def canBeValue (argument : String) : Bool :=
  match argumentShape argument with
  | .operand => true
  | _ => false

def readBeforeCommand (allowed : List OptionName) (given : GivenOptions) :
    List String → Except Interruption (GivenOptions × String × List String)
  | [] => .error (.misuse .missingCommand)
  | argument :: rest =>
    match readOptions? allowed given argument with
    | some (.error interruption) => .error interruption
    | some (.ok (given, none)) => readBeforeCommand allowed given rest
    | some (.ok (given, some option)) =>
      match rest with
      | [] => .error (.misuse (.missingValue option))
      | value :: rest =>
        if canBeValue value then
          match given.setValue option value with
          | .error interruption => .error interruption
          | .ok given => readBeforeCommand allowed given rest
        else .error (.misuse (.missingValue option))
    | none =>
      match argumentShape argument with
      | .operand => .ok (given, argument, rest)
      | _ =>
        match rest with
        | [] => .error (.misuse .missingCommand)
        | operand :: _ => .error (.misuse (.unexpectedOperand operand))

def readAfterCommand (allowed : List OptionName) (given : GivenOptions) :
    List String → Except Interruption (GivenOptions × List String)
  | [] => .ok (given, [])
  | argument :: rest =>
    match readOptions? allowed given argument with
    | some (.error interruption) => .error interruption
    | some (.ok (given, none)) => readAfterCommand allowed given rest
    | some (.ok (given, some option)) =>
      match rest with
      | [] => .error (.misuse (.missingValue option))
      | value :: rest =>
        if canBeValue value then
          match given.setValue option value with
          | .error interruption => .error interruption
          | .ok given => readAfterCommand allowed given rest
        else .error (.misuse (.missingValue option))
    | none =>
      match argumentShape argument with
      | .operand =>
        (readAfterCommand allowed given rest).map fun (given, operands) =>
          (given, argument :: operands)
      | _ => .ok (given, rest)

/-! ### Commands -/

def commonOptions : List OptionName := [.config, .verbose]

def commandOptions? (name : String) : Option (List OptionName × Nat) :=
  if name = "build" then some ([.theme, .format], 0)
  else if name = "resolve" then some ([], 1)
  else if name = "get" then some ([.theme], 2)
  else if name = "sources" then some ([], 0)
  else none

def commandOf? (name : String) (given : GivenOptions) : List String → Option Command
  | [] =>
    if name = "build" then some (.build (given.theme.getD .all) (given.format.getD .json))
    else if name = "sources" then some .sources
    else none
  | [path] => if name = "resolve" then some (.resolve path) else none
  | [category, key] =>
    if name = "get" then some (.get category key (given.theme.getD .light)) else none
  | _ => none

def readRequest (arguments : List String) : Except Interruption Request := do
  let (before, name, rest) ←
    readBeforeCommand (.version :: commonOptions) .none arguments
  match commandOptions? name with
  | none => .error (.misuse (.unknownCommand name))
  | some (options, count) => do
    let (after, operands) ← readAfterCommand (options ++ commonOptions) .none rest
    match operands[count]?, commandOf? name after operands with
    | some extra, _ => .error (.misuse (.unexpectedOperand extra))
    | none, none => .error (.misuse .missingOperand)
    | none, some command => .ok (.command (after.config.or before.config) command)

def Request.ofArguments (arguments : List String) : Except UsageError Request :=
  match readRequest arguments with
  | .ok request => .ok request
  | .error .version => .ok .version
  | .error (.misuse error) => .error error

end DesignTokens
