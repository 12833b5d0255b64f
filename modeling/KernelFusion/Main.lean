import KernelFusion.CommandLine.Run

/-!
# The program

The command line on the files of the system.
-/

namespace KernelFusion.CommandLine

/-- The file error for a failure of the system. -/
def FileError.ofSystem : IO.Error → FileError
  | .noFileOrDirectory _ _ _ => .notFound
  | .inappropriateType _ 20 _ => .notDirectory
  | .inappropriateType _ 21 _ => .isDirectory
  | .invalidArgument _ 36 _ => .nameTooLong
  | e => .other (toString e)

/-- Access to the files of the system. -/
def systemFiles : FileAccess IO where
  read path := do
    try
      return .ok (← IO.FS.readBinFile path).data.toList
    catch e => return .error (.ofSystem e)
  write path bytes := do
    try
      IO.FS.writeBinFile path ⟨bytes.toArray⟩
      return .ok ()
    catch e => return .error (.ofSystem e)

end KernelFusion.CommandLine

open KernelFusion.CommandLine

/-- Run the program with the arguments it was called with. -/
def main (arguments : List String) : IO UInt32 := do
  let outcome ← run systemFiles arguments
  let stdout ← IO.getStdout
  stdout.write ⟨outcome.output.toArray⟩
  outcome.errors.forM IO.eprintln
  return outcome.code.toUInt32
