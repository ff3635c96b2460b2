import SqlTemplate.CommandLine.Run

namespace SqlTemplate.CommandLine

/-- What an error of the operating system means for reading a file. -/
def FileError.ofSystem : IO.Error → FileError
  | .noFileOrDirectory .. => .notFound
  | .inappropriateType _ 21 _ => .isDirectory
  | .inappropriateType .. => .notDirectory
  | error => .other (toString error)

/-- Reads a file. -/
def readBytes (path : String) : IO (Except FileError ByteArray) := do
  try
    return .ok (← IO.FS.readBinFile path)
  catch error =>
    return .error (.ofSystem error)

/-- The surroundings as far as a command line asks for them: the environment and the file that holds
the template. The databases are given. -/
def surroundingsFor (connect : String → Except DatabaseError Database) (arguments : List String) :
    IO Surroundings := do
  let keepNulls? ← IO.getEnv keepNullsVariable
  let database? ← IO.getEnv databaseVariable
  let environment (name : String) : Option String :=
    if name = keepNullsVariable then keepNulls?
    else if name = databaseVariable then database?
    else none
  match readInvocation environment arguments with
  | .error _ => return { environment, contents := fun _ => .error .notFound, connect }
  | .ok invocation =>
    let contents ← match invocation.source with
      | .text _ => pure (.error .notFound)
      | .file path => readBytes path
    return { environment, contents := fun _ => contents, connect }

/-- What a command line reports about its template. -/
def logFor (surroundings : Surroundings) (arguments : List String) : List LogEntry :=
  match readInvocation surroundings.environment arguments with
  | .error _ => []
  | .ok invocation =>
    match invocation.source.load surroundings.contents with
    | .error _ => []
    | .ok template => invocation.log template

/-- Runs a command line in the surroundings it is started in, with the databases that `connect`
reaches. A program is this function, given an engine and its arguments. -/
def start (connect : String → Except DatabaseError Database) (arguments : List String) :
    IO UInt32 := do
  let surroundings ← surroundingsFor connect arguments
  let outcome := run surroundings arguments
  for entry in logFor surroundings arguments do
    IO.eprintln entry.line
  IO.print outcome.output
  match outcome with
  | .printed _ => pure ()
  | .failed failure => IO.eprintln failure.report
  | .usageError => IO.eprintln "error: invalid arguments\n\nFor more information, try '--help'."
  return outcome.exitCode.toUInt32

end SqlTemplate.CommandLine
