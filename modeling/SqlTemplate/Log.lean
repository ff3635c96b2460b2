namespace SqlTemplate

inductive LogLevel where
  | debug
  | warn
deriving DecidableEq

def LogLevel.label : LogLevel → String
  | debug => "DEBUG"
  | warn => "WARN"

/-- What a run reports beside its result: a message, with named details in a fixed order. -/
structure LogEntry where
  level : LogLevel
  message : String
  fields : List (String × String)
deriving DecidableEq

/-- An entry on one line: the level, the message and the details. -/
def LogEntry.line (entry : LogEntry) : String :=
  entry.fields.foldl (fun line (name, value) => line ++ " " ++ name ++ "=" ++ value)
    (entry.level.label ++ " " ++ entry.message)

end SqlTemplate
