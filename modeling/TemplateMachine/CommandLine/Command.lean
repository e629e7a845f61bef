import TemplateMachine.Compile.Lookup

/-! The arguments of a command line.  A command is a name, the file it is about, and options.  The
settings that every command has may also stand in front of the name; what stands behind it counts
more.  An option is given at most once on either side. -/

namespace TemplateMachine.CommandLine

inductive CommandName where
  | compile
  | render
  | dump
deriving DecidableEq, Inhabited

namespace CommandName

def text : CommandName → String
  | .compile => "compile"
  | .render => "render"
  | .dump => "dump"

def ofText? (s : String) : Option CommandName :=
  [CommandName.compile, .render, .dump].find? fun c => c.text == s

end CommandName

inductive OptionName where
  | logLevel
  | config
  | output
  | strategy
  | dumpBytecode
  | data
deriving DecidableEq, Inhabited

namespace OptionName

/-- The name of an option behind two dashes. -/
def text : OptionName → String
  | .logLevel => "log-level"
  | .config => "config"
  | .output => "output"
  | .strategy => "strategy"
  | .dumpBytecode => "dump-bytecode"
  | .data => "data"

/-- The letter of an option behind one dash. -/
def letter? : OptionName → Option Char
  | .output => some 'o'
  | _ => none

def takesValue (o : OptionName) : Bool := o != .dumpBytecode

/-- Whether an option may have a value.  The name of a file is not empty. -/
def admits : OptionName → String → Bool
  | .strategy, value => (Strategy.ofName? value).isSome
  | .config, value | .output, value | .data, value => !value.isEmpty
  | .logLevel, _ | .dumpBytecode, _ => true

/-- The options of a command, or those in front of its name. -/
def allowed : Option CommandName → List OptionName
  | none => [.logLevel, .config]
  | some .compile => [.logLevel, .config, .output, .strategy, .dumpBytecode]
  | some .render => [.logLevel, .config, .strategy, .data]
  | some .dump => [.logLevel, .config]

end OptionName

/-- What a command does, with its file. -/
inductive Command where
  | compile (bundle : String) (strategy : Option Strategy) (output : Option String)
      (dumpBytecode : Bool)
  | render (bundle : String) (strategy : Option Strategy) (data : Option String)
  | dump (program : String)
deriving DecidableEq, Inhabited

structure Invocation where
  logLevel : Option String
  config : Option String
  command : Command
deriving DecidableEq, Inhabited

/-- Why arguments are not an invocation. -/
inductive Refusal where
  /-- They ask how to write one. -/
  | help
  | invalid
deriving DecidableEq, Inhabited

/-- The word that asks for help, as a command or behind two dashes. -/
def helpName : String := "help"

/-- Options with their values; one without a value has the empty one. -/
abbrev Given := List (OptionName × String)

/-- The arguments that are read so far. -/
structure Draft where
  command : Option CommandName := none
  /-- The options in front of the name of the command. -/
  before : Given := []
  /-- The options since the name of the command, or since the start if it is still to come. -/
  given : Given := []
  operand : Option String := none
  /-- An option whose value is the next argument. -/
  waiting : Option OptionName := none
  /-- Arguments that begin with a dash are no longer options. -/
  operandsOnly : Bool := false
  /-- The names of commands that help is asked for, once it is asked for. -/
  topics : Option (List String) := none

namespace Draft

def addOption (d : Draft) (o : OptionName) (value : String) : Except Refusal Draft :=
  if !o.admits value || (d.given.lookup o).isSome then .error .invalid
  else .ok { d with given := (o, value) :: d.given, waiting := none }

def addOperand (d : Draft) (value : String) : Except Refusal Draft :=
  match d.command with
  | some _ =>
    if d.operand.isSome || value.isEmpty then .error .invalid
    else .ok { d with operand := some value }
  | none =>
    match CommandName.ofText? value with
    | some c => .ok { d with command := some c, before := d.given, given := [] }
    | none => if value = helpName then .ok { d with topics := some [] } else .error .invalid

/-- An option by its name, with the value behind an equals sign. -/
def addNamed (d : Draft) (name : String) (value : Option String) : Except Refusal Draft :=
  match (OptionName.allowed d.command).find? fun o => o.text == name, value with
  | some o, some value => if o.takesValue then d.addOption o value else .error .invalid
  | some o, none => if o.takesValue then .ok { d with waiting := some o } else d.addOption o ""
  | none, none => .error (if name = helpName then .help else .invalid)
  | none, some _ => .error .invalid

/-- An option by its letter, with the value that follows in the same argument. -/
def addLetter (d : Draft) (letter : Char) (value : List Char) : Except Refusal Draft :=
  match (OptionName.allowed d.command).find? fun o => o.letter? == some letter, value with
  | some o, [] => .ok { d with waiting := some o }
  | some o, '=' :: value => d.addOption o (String.ofList value)
  | some o, value => d.addOption o (String.ofList value)
  | none, _ => .error (if letter = 'h' then .help else .invalid)

/-- One more argument.  A dash alone is a value, and two dashes end the options of a command. -/
def add (d : Draft) (arg : String) : Except Refusal Draft :=
  if let some topics := d.topics then .ok { d with topics := some (topics ++ [arg]) }
  else if d.operandsOnly then d.addOperand arg
  else match arg.toList, d.waiting with
    | '-' :: _ :: _, some _ => .error .invalid
    | _, some o => d.addOption o arg
    | ['-', '-'], none =>
      if d.command.isSome then .ok { d with operandsOnly := true } else .error .invalid
    | '-' :: '-' :: text, none =>
      let name := String.ofList (text.takeWhile (· ≠ '='))
      match text.dropWhile (· ≠ '=') with
      | [] => d.addNamed name none
      | _ :: value => d.addNamed name (some (String.ofList value))
    | '-' :: letter :: value, none => d.addLetter letter value
    | _, none => d.addOperand arg

/-- Help is for all commands or for one. -/
def isTopic : List String → Bool
  | [] => true
  | [name] => name = helpName || (CommandName.ofText? name).isSome
  | _ => false

/-- The invocation, if nothing is missing. -/
def finish (d : Draft) : Except Refusal Invocation :=
  if let some topics := d.topics then .error (if isTopic topics then .help else .invalid)
  else match d.waiting, d.command, d.operand with
  | none, some name, some file =>
    let value? (o : OptionName) : Option String := (d.given ++ d.before).lookup o
    let strategy := (value? .strategy).bind Strategy.ofName?
    let command : Command := match name with
      | .compile => .compile file strategy (value? .output) (value? .dumpBytecode).isSome
      | .render => .render file strategy (value? .data)
      | .dump => .dump file
    .ok ⟨value? .logLevel, value? .config, command⟩
  | _, _, _ => .error .invalid

end Draft

/-- The invocation that arguments stand for. -/
def Invocation.ofArguments (args : List String) : Except Refusal Invocation := do
  (← args.foldlM Draft.add {}).finish

end TemplateMachine.CommandLine
