import TemplateMachine.Bundle.Render
import TemplateMachine.Code.Image
import TemplateMachine.Code.Listing
import TemplateMachine.CommandLine.Command
import TemplateMachine.CommandLine.Files
import TemplateMachine.Settings.Decode

/-! What the commands do.  The settings are read first.  A command collects what it prints; if it
fails, what it has printed so far stays. -/

namespace TemplateMachine.CommandLine

/-- Why a command fails. -/
inductive Failure where
  | unreadable (path : String) (error : FileError)
  | unwritable (path : String) (error : FileError)
  | invalidSettings (path : String)
  | invalidBundle
  | invalidData (path : String)
  | bundle (error : BundleError)
  | image (error : ImageError)
  | verification (error : VerifyError)
  /-- The template takes too long. -/
  | outOfFuel
deriving Inhabited

def Failure.message : Failure → String
  | .unreadable path e => "cannot read " ++ path ++ ": " ++ e.message
  | .unwritable path e => "cannot write " ++ path ++ ": " ++ e.message
  | .invalidSettings path => "invalid config " ++ path
  | .invalidBundle => "invalid bundle"
  | .invalidData path => "invalid data " ++ path
  | .bundle e => e.message
  | .image e => e.message
  | .verification e => (BundleError.verification e).message
  | .outOfFuel => "out of fuel"

/-- A failure of a stage. -/
def Failure.ofStop : Stop BundleError → Failure
  | .fault e => .bundle e
  | .outOfFuel => .outOfFuel

/-- A command under way: what it has printed so far, and whether it fails. -/
abbrev Session (m : Type → Type) (α : Type) := ExceptT Failure (StateT String m) α

namespace Session

variable {m : Type → Type} [Monad m] {α : Type}

def print (text : String) : Session m Unit := modify (· ++ text)

/-- The result of a step that may fail. -/
def expect {ε : Type} (failure : ε → Failure) : Except ε α → Session m α
  | .ok a => pure a
  | .error e => throw (failure e)

def expectSome (failure : Failure) : Option α → Session m α
  | some a => pure a
  | none => throw failure

variable (files : Files m)

def readBytes (path : String) : Session m Bytes := do
  expect (.unreadable path) (← files.read path)

def readText (path : String) : Session m String := do
  let bytes ← readBytes files path
  expectSome (.unreadable path .notText) (String.fromUTF8? ⟨bytes.toArray⟩)

def writeBytes (path : String) (bytes : Bytes) : Session m Unit := do
  expect (.unwritable path) (← files.write path bytes)

/-- The file of settings that is read if it is there and no other is asked for. -/
def settingsPath : String := "stencil.toml"

def readSettings (path : String) : Session m Settings := do
  expectSome (.invalidSettings path) (Settings.parse? (← readText files path))

/-- The settings of an invocation. -/
def settings (i : Invocation) : Session m Settings := do
  let found ← match i.config with
    | some path => readSettings files path
    | none =>
      match ← files.read settingsPath with
      | .error .notFound => pure {}
      | _ => readSettings files settingsPath
  return { found with logLevel := i.logLevel.or found.logLevel }

def readBundle (path : String) : Session m Bundle := do
  expectSome .invalidBundle (Bundle.parse? (← readText files path))

/-- The data for `self`: those of a file, or an empty object. -/
def readData : Option String → Session m Json
  | none => return .obj []
  | some path => do expectSome (.invalidData path) (Json.parse? (← readText files path))

def summary (path : String) (c : CompiledBundle) : String :=
  path ++ ": entry " ++ Heap.handleName c.entry ++ ", " ++
    toString c.program.heap.handles.length ++ " blocks, " ++
    toString c.program.heap.words.size ++ " words\n"

def compile (settings : Settings) (path : String) (output : Option String)
    (dumpBytecode : Bool) : Session m Unit := do
  let bundle ← readBundle files path
  let compiled ← expect .ofStop (bundle.compile settings)
  if dumpBytecode then print compiled.program.listing
  match output with
  | some output => writeBytes files output (← expect .image compiled.program.toBytes)
  | none => unless dumpBytecode do print (summary path compiled)

def render (settings : Settings) (path : String) (data : Option String) : Session m Unit := do
  let bundle ← readBundle files path
  let data ← readData files data
  let rendered ← expect .ofStop (bundle.render settings data)
  print (rendered.html ++ "\n")

def dump (path : String) : Session m Unit := do
  let program ← expect .image (Program.ofBytes (← readBytes files path))
  let _ ← expect .verification (program.verifyAll true)
  print program.listing

def invoke (i : Invocation) : Session m Unit := do
  let settings ← settings files i
  let chosen (strategy : Option Strategy) : Settings :=
    { settings with strategy := strategy.getD settings.strategy }
  match i.command with
  | .compile bundle strategy output dumpBytecode =>
    compile files (chosen strategy) bundle output dumpBytecode
  | .render bundle strategy data => render files (chosen strategy) bundle data
  | .dump program => dump files program

end Session

/-- How a command line ends. -/
structure Outcome where
  output : String
  /-- What is said about a failure, apart from the output. -/
  report : String
  exitCode : UInt32
deriving DecidableEq, Inhabited

def usage : String :=
  "usage: compile BUNDLE [-o FILE] [--strategy lazy|eager] [--dump-bytecode]\n" ++
  "       render BUNDLE [--data FILE] [--strategy lazy|eager]\n" ++
  "       dump PROGRAM\n" ++
  "options: --config FILE, --log-level LEVEL\n"

/-- Runs a command line on files. -/
def run {m : Type → Type} [Monad m] (files : Files m) (args : List String) : m Outcome := do
  match Invocation.ofArguments args with
  | .error .help => return ⟨usage, "", 0⟩
  | .error .invalid => return ⟨"", usage, 2⟩
  | .ok invocation =>
    let (result, output) ← (Session.invoke files invocation).run.run ""
    match result with
    | .ok () => return ⟨output, "", 0⟩
    | .error failure => return ⟨output, "error: " ++ failure.message ++ "\n", 1⟩

end TemplateMachine.CommandLine
