import TemplateMachine.CommandLine.Run

/-! The command line on the files of the system. -/

namespace TemplateMachine

/-- The reason that an error of the system stands for. -/
def FileError.ofSystem : IO.Error → FileError
  | .noFileOrDirectory .. => .notFound
  | .inappropriateType _ code _ => if code = 20 then .notDirectory else .isDirectory
  | .permissionDenied .. => .denied
  | e => .other (toString e)

/-- Access to the files of the system. -/
def systemFiles : Files IO where
  read path := do
    match ← (IO.FS.readBinFile path).toBaseIO with
    | .ok bytes => return .ok bytes.toList
    | .error e => return .error (.ofSystem e)
  write path bytes := do
    match ← (IO.FS.writeBinFile path ⟨bytes.toArray⟩).toBaseIO with
    | .ok () => return .ok ()
    | .error e => return .error (.ofSystem e)

end TemplateMachine

def main (args : List String) : IO UInt32 := do
  let outcome ← TemplateMachine.CommandLine.run TemplateMachine.systemFiles args
  IO.print outcome.output
  IO.eprint outcome.report
  return outcome.exitCode
