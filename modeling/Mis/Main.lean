import Mis.Cli.Run

/-!
The command on the files of the machine. It starts no other program: `--cc` ends
with the failure to start the C compiler.
-/
namespace Mis.Cli

/-- The number of a fault. Some operations give it negated. -/
def faultNumber (code : UInt32) : UInt32 :=
  if code < 0x80000000 then code else 0 - code

/-- A fault of the file system, by its kind and number. -/
def faultOf (e : IO.Error) : Fault :=
  match e with
  | .noFileOrDirectory .. => .notFound
  | .inappropriateType _ code _ =>
    if faultNumber code = 20 then .notADirectory else .isADirectory
  | .invalidArgument _ code _ =>
    if faultNumber code = 36 then .nameTooLong else .other (toString e)
  | e => .other (toString e)

def machineHost : Host IO where
  read path := do
    try
      return .ok (← IO.FS.readBinFile path)
    catch e => return .error (faultOf e)
  write path bytes := do
    try
      IO.FS.writeBinFile path bytes
      return .ok ()
    catch e => return .error (faultOf e)
  startCompiler _ := return .error .notFound

end Mis.Cli

def main (args : List String) : IO UInt32 := do
  let outcome ← Mis.Cli.run Mis.Cli.machineHost args
  IO.print outcome.stdout
  IO.eprint outcome.stderr
  return outcome.exitCode.toUInt32
