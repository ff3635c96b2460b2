import SqlTemplate.CommandLine.Invocation
import SqlTemplate.Database

namespace SqlTemplate.CommandLine

/-- Why a file cannot be read as text. -/
inductive FileError where
  | notFound
  | isDirectory
  | notDirectory
  | notUtf8
  | other (message : String)
deriving DecidableEq

def FileError.message : FileError → String
  | notFound => "No such file or directory (os error 2)"
  | isDirectory => "Is a directory (os error 21)"
  | notDirectory => "Not a directory (os error 20)"
  | notUtf8 => "stream did not contain valid UTF-8"
  | other message => message

/-- What a program runs in: the variables of its environment, the files, and the databases that URLs
name. -/
structure Surroundings where
  environment : String → Option String
  contents : String → Except FileError ByteArray
  connect : String → Except DatabaseError Database

/-- Why a run failed. -/
inductive Failure where
  | readingTemplate (path : String) (error : FileError)
  | statement (error : StatementError)
  | connecting (url : String) (error : DatabaseError)
  | running (error : DatabaseError)
deriving DecidableEq

namespace Failure

def message : Failure → String
  | readingTemplate path _ => "reading template " ++ path
  | statement error => error.message
  | connecting url _ => "connecting to " ++ url
  | running error => "database error: " ++ error.message

/-- What the failure came from, the nearest cause first. -/
def causes : Failure → List String
  | readingTemplate _ error => [error.message]
  | statement _ => []
  | connecting _ error | running error => error.message :: error.causes

/-- The message and, below it, its causes. They are numbered if there are several. -/
def report (failure : Failure) : String :=
  let lines := match failure.causes with
    | [] => []
    | [cause] => ["", "Caused by:", "    " ++ cause]
    | causes =>
      ["", "Caused by:"] ++
        causes.zipIdx.map fun (cause, index) => "    " ++ toString index ++ ": " ++ cause
  "\n".intercalate (("Error: " ++ failure.message) :: lines)

end Failure

/-- How a run ends. -/
inductive Outcome where
  | printed (output : String)
  | failed (failure : Failure)
  | usageError
deriving DecidableEq

namespace Outcome

def exitCode : Outcome → Nat
  | printed _ => 0
  | failed _ => 1
  | usageError => 2

/-- What is printed on standard output. -/
def output : Outcome → String
  | printed output => output
  | failed _ | usageError => ""

end Outcome

/-- The name and version of the program. -/
def versionText : String := "oxide-queryfier 0.1.0\n"

/-- A summary of the commands and options. -/
def helpText : String := "\n".intercalate [
  "Bind named parameters and prune filters left unbound",
  "",
  "Usage: oxide-queryfier [OPTIONS] <COMMAND>",
  "",
  "Commands:",
  "  prune  Print the pruned query and its parameters",
  "  exec   Prune the query and run it",
  "  help   Print this message or the help of the given subcommand(s)",
  "",
  "Options:",
  "  -v, --verbose      Enable verbose output",
  "      --allow-nulls  Keep clauses whose parameter is null instead of removing them",
  "  -h, --help         Print help",
  "  -V, --version      Print version",
  ""]

/-- The text of the template. -/
def TemplateSource.load (source : TemplateSource)
    (contents : String → Except FileError ByteArray) : Except Failure String :=
  match source with
  | text sql => .ok sql
  | file path =>
    match contents path with
    | .error error => .error (.readingTemplate path error)
    | .ok bytes =>
      match String.fromUTF8? bytes with
      | some sql => .ok sql
      | none => .error (.readingTemplate path .notUtf8)

/-- The text of a query, and a line for each of its parameters. -/
def queryText (query : Query) : String :=
  query.sql ++ "\n" ++
    String.join (query.parameters.map fun p => "  :" ++ p.name ++ " = " ++ p.value.literal ++ "\n")

/-- What is reported while a template is pruned, where that is asked for. -/
def Invocation.log (invocation : Invocation) (template : String) : List LogEntry :=
  if invocation.verbose then (invocation.draft template).prune.log else []

/-- Carries out an invocation. Whether all parameters are bound is checked before the database is
opened. -/
def Invocation.run (invocation : Invocation) (surroundings : Surroundings) :
    Except Failure String := do
  let template ← invocation.source.load surroundings.contents
  let query := (invocation.draft template).build
  match invocation.command with
  | .prune .text => return queryText query
  | .prune .json => return query.toJson.indented ++ "\n"
  | .exec url =>
    match query.toStatement with
    | .error error => .error (.statement error)
    | .ok statement =>
      match surroundings.connect url with
      | .error error => .error (.connecting url error)
      | .ok database =>
        match database.summary statement with
        | .error error => .error (.running error)
        | .ok summary => return summary ++ "\n"

/-- Runs a command line. All that it reads is in its surroundings, and the outcome is what is
printed and how the program exits. -/
def run (surroundings : Surroundings) (arguments : List String) : Outcome :=
  match readInvocation surroundings.environment arguments with
  | .error .usageError => .usageError
  | .error .help => .printed helpText
  | .error .version => .printed versionText
  | .ok invocation =>
    match invocation.run surroundings with
    | .ok output => .printed output
    | .error failure => .failed failure

end SqlTemplate.CommandLine
