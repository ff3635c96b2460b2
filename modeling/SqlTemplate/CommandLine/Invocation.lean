import SqlTemplate.CommandLine.Argument
import SqlTemplate.Query

namespace SqlTemplate.CommandLine

/-- Where the template comes from. -/
inductive TemplateSource where
  | text (sql : String)
  | file (path : String)
deriving DecidableEq

/-- How a query is printed. -/
inductive OutputFormat where
  | text
  | json
deriving DecidableEq

/-- What is done with the query. -/
inductive Command where
  | prune (format : OutputFormat)
  | exec (databaseUrl : String)
deriving DecidableEq

/-- A command line, read. -/
structure Invocation where
  command : Command
  source : TemplateSource
  literals : List String
  assignments : List Assignment
  nullableAssignments : List Assignment
  keepsNulls : Bool
  verbose : Bool
deriving DecidableEq

/-- The environment variable that stands in for the option to keep nulls. -/
def keepNullsVariable : String := "QUERYFIER_ALLOW_NULLS"

/-- The environment variable that stands in for the database option. -/
def databaseVariable : String := "DATABASE_URL"

/-- The database where none is named. -/
def defaultDatabaseUrl : String := "sqlite::memory:"

/-- Whether nulls are kept, by the settings of the program and of its command. The environment
decides where an option is missing, and has to make sense there. -/
def keepsNulls (environment : String → Option String) (programFlag commandFlag : Bool) :
    Except Halt Bool :=
  if programFlag && commandFlag then
    .ok true
  else
    match environment keepNullsVariable with
    | none => .ok (programFlag || commandFlag)
    | some value =>
      if value = "true" then .ok true
      else if value = "false" then .ok (programFlag || commandFlag)
      else .error .usageError

/-- Whether an option was given. -/
def isSet (settings : List Setting) (option : OptionName) : Bool :=
  settings.any (·.option == option)

/-- The values that an option was given, in order. -/
def valuesOf (settings : List Setting) (option : OptionName) : List String :=
  (settings.filter (·.option == option)).map Setting.value

/-- The template that the settings name: exactly one of a text and a file. -/
def sourceOf (settings : List Setting) : Except Halt TemplateSource :=
  match (valuesOf settings .sql).head?, (valuesOf settings .file).head? with
  | some sql, none => .ok (.text sql)
  | none, some path => .ok (.file path)
  | _, _ => .error .usageError

/-- Assignments among values that were accepted, so that none is left out. -/
def assignmentsOf (parse : List Char → Except AssignmentError Assignment)
    (values : List String) : List Assignment :=
  values.filterMap fun value => (parse value.toList).toOption

/-- The format that the settings name, text if they name none. -/
def formatOf (settings : List Setting) : OutputFormat :=
  if (valuesOf settings .format).head? = some "json" then .json else .text

/-- The database that the settings name, or else the environment. -/
def databaseUrlOf (environment : String → Option String) (settings : List Setting) : String :=
  (valuesOf settings .database).head?.getD
    ((environment databaseVariable).getD defaultDatabaseUrl)

/-- Reads what follows the name of a command, given the settings in front of it. -/
def readCommand (environment : String → Option String) (programSettings : List Setting)
    (ownOption : OptionName) (commandOf : List Setting → Command) (arguments : List String) :
    Except Halt Invocation := do
  let (settings, rest) ←
    readSettings (OptionName.ofTemplate ++ [ownOption]) none [] arguments
  if rest.isEmpty then
    let keepsNulls ←
      keepsNulls environment (isSet programSettings .allowNulls) (isSet settings .allowNulls)
    return {
      command := commandOf settings
      source := ← sourceOf settings
      literals := valuesOf settings .bind
      assignments := assignmentsOf Assignment.parse (valuesOf settings .param)
      nullableAssignments := assignmentsOf Assignment.parseOrNull (valuesOf settings .nullable)
      keepsNulls
      verbose := isSet programSettings .verbose || isSet settings .verbose }
  else
    .error .usageError

/-- The names of the commands, that of the help among them. -/
def commandNames : List String := ["prune", "exec", "help"]

/-- Reads a command line. -/
def readInvocation (environment : String → Option String) (arguments : List String) :
    Except Halt Invocation := do
  let (settings, rest) ← readSettings OptionName.ofProgram none [] arguments
  match rest with
  | "prune" :: rest =>
    readCommand environment settings .format (fun settings => .prune (formatOf settings)) rest
  | "exec" :: rest =>
    readCommand environment settings .database
      (fun settings => .exec (databaseUrlOf environment settings)) rest
  | ["help"] => .error .help
  | ["help", name] => .error (if commandNames.contains name then .help else .usageError)
  | _ => .error .usageError

/-- The draft that an invocation makes of its template. The values bound in order come first, then
those bound by name, then those that accept null, so that of several for one name the last of these
wins. -/
def Invocation.draft (invocation : Invocation) (template : String) : Draft :=
  let draft := invocation.literals.foldl
    (fun draft literal => draft.bind (.ofLiteral literal.toList)) (.ofTemplate template)
  let draft := invocation.assignments.foldl
    (fun draft assignment => draft.assign (assignment.toParameter false)) draft
  let draft := invocation.nullableAssignments.foldl
    (fun draft assignment => draft.assign (assignment.toParameter true)) draft
  if invocation.keepsNulls then draft.keepNulls else draft

end SqlTemplate.CommandLine
