import SqlTemplate.Literal.Assignment

namespace SqlTemplate.CommandLine

/-- The options of all commands. -/
inductive OptionName where
  | verbose
  | allowNulls
  | help
  | version
  | sql
  | file
  | bind
  | param
  | nullable
  | format
  | database
deriving DecidableEq

namespace OptionName

/-- The name behind two dashes. -/
def long : OptionName → String
  | verbose => "verbose"
  | allowNulls => "allow-nulls"
  | help => "help"
  | version => "version"
  | sql => "sql"
  | file => "file"
  | bind => "bind"
  | param => "param"
  | nullable => "nullable"
  | format => "format"
  | database => "database"

/-- The letter behind one dash. -/
def short? : OptionName → Option Char
  | verbose => some 'v'
  | help => some 'h'
  | version => some 'V'
  | bind => some 'b'
  | param => some 'p'
  | database => some 'd'
  | allowNulls | sql | file | nullable | format => none

def takesValue : OptionName → Bool
  | verbose | allowNulls | help | version => false
  | sql | file | bind | param | nullable | format | database => true

/-- Whether the option may be given more than once to one command. -/
def isRepeatable : OptionName → Bool
  | bind | param | nullable => true
  | verbose | allowNulls | help | version | sql | file | format | database => false

/-- Whether the option may have this value. -/
def accepts (option : OptionName) (value : String) : Bool :=
  match option with
  | file => !value.isEmpty
  | param => (Assignment.parse value.toList).isOk
  | nullable => (Assignment.parseOrNull value.toList).isOk
  | format => value == "text" || value == "json"
  | verbose | allowNulls | help | version | sql | bind | database => true

/-- The options of the program itself. -/
def ofProgram : List OptionName := [verbose, allowNulls, help, version]

/-- The options of every command, which say what the template is and what is bound to it. -/
def ofTemplate : List OptionName :=
  [verbose, allowNulls, help, sql, file, bind, param, nullable]

end OptionName

/-- An option as it was given. -/
structure Setting where
  option : OptionName
  value : String
deriving DecidableEq

/-- What an argument says. -/
inductive ArgumentPart where
  /-- An option, with its value or with none to come. -/
  | setting (setting : Setting)
  /-- An option whose value is the next argument. -/
  | awaitingValue (option : OptionName)
  /-- No option that is known here, or one that takes no value but is given one. -/
  | invalid
deriving DecidableEq

/-- The parts of a group of letters behind one dash. A letter whose option takes a value ends the
group: what follows is the value, behind an equals sign or not. -/
def readLetters (options : List OptionName) : List Char → List ArgumentPart
  | [] => []
  | letter :: rest =>
    match options.find? fun option => option.short? == some letter with
    | none => [.invalid]
    | some option =>
      if option.takesValue then
        match rest with
        | [] => [.awaitingValue option]
        | '=' :: value => [.setting ⟨option, String.ofList value⟩]
        | value => [.setting ⟨option, String.ofList value⟩]
      else
        .setting ⟨option, ""⟩ :: readLetters options rest

/-- What an argument behind two dashes says. -/
def readLong (options : List OptionName) (text : List Char) : ArgumentPart :=
  let name := text.takeWhile (· != '=')
  let value? := (text.dropWhile (· != '=')).tail?
  match options.find? fun option => option.long.toList == name, value? with
  | none, _ => .invalid
  | some option, some value =>
    if option.takesValue then .setting ⟨option, String.ofList value⟩ else .invalid
  | some option, none =>
    if option.takesValue then .awaitingValue option else .setting ⟨option, ""⟩

/-- An argument by its form. `--name=value`, `--name value`, `-nvalue`, `-n=value` and `-n value`
are the same, and short options without a value may share one dash. -/
inductive Argument where
  | parts (parts : List ArgumentPart)
  /-- Two dashes alone: no option comes after them. -/
  | endOfOptions
  /-- No option at all. A dash alone is none. -/
  | plain
deriving DecidableEq

namespace Argument

def read (options : List OptionName) (text : String) : Argument :=
  match text.toList with
  | ['-', '-'] => .endOfOptions
  | '-' :: '-' :: name => .parts [readLong options name]
  | ['-'] => .plain
  | '-' :: letters => .parts (readLetters options letters)
  | _ => .plain

/-- Whether an argument has the form of an option, so that it is no value of the option before. -/
def looksLikeOption (text : String) : Bool :=
  match text.toList with
  | ['-'] => false
  | '-' :: _ => true
  | _ => false

end Argument

/-- What ends the reading of a command line before its end. -/
inductive Halt where
  | usageError
  | help
  | version
deriving DecidableEq

/-- Adds a setting to those before it. -/
def record (settings : List Setting) (setting : Setting) : Except Halt (List Setting) :=
  if setting.option = .help then
    .error .help
  else if setting.option = .version then
    .error .version
  else if !setting.option.isRepeatable && settings.any (·.option == setting.option) then
    .error .usageError
  else if setting.option.accepts setting.value then
    .ok (settings ++ [setting])
  else
    .error .usageError

/-- Adds the parts of an argument to the settings. The option that awaits its value comes last. -/
def recordParts (settings : List Setting) :
    List ArgumentPart → Except Halt (List Setting × Option OptionName)
  | [] => .ok (settings, none)
  | .setting setting :: rest => do recordParts (← record settings setting) rest
  | .awaitingValue option :: _ => .ok (settings, some option)
  | .invalid :: _ => .error .usageError

/-- Reads arguments up to the first one that is no option: the settings, and the arguments from that
one on. An option may be awaiting its value. -/
def readSettings (options : List OptionName) (awaiting? : Option OptionName)
    (settings : List Setting) : List String → Except Halt (List Setting × List String)
  | [] => if awaiting?.isSome then .error .usageError else .ok (settings, [])
  | text :: rest =>
    match awaiting? with
    | some option =>
      if Argument.looksLikeOption text then
        .error .usageError
      else do
        readSettings options none (← record settings ⟨option, text⟩) rest
    | none =>
      match Argument.read options text with
      | .plain => .ok (settings, text :: rest)
      | .endOfOptions => if rest.isEmpty then .ok (settings, []) else .error .usageError
      | .parts parts => do
        let (settings, awaiting?) ← recordParts settings parts
        readSettings options awaiting? settings rest

end SqlTemplate.CommandLine
