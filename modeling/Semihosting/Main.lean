import Semihosting.Command.Program

/-!
# The executable

Connects the command to the files, the environment and the streams of the process.
-/
namespace Semihosting

/-- An access that fails gives nothing. -/
def attempt {α : Type} (access : IO α) : IO (Option α) := do
  try
    return some (← access)
  catch _ =>
    return none

-- What is said about runs of the command applies here as far as the files of the process obey
-- `Files.LawfulAccess`.
instance : Files.Access IO where
  File := IO.FS.Handle
  readFile path := attempt do
    return (← IO.FS.readBinFile path).data.toList
  isFile path := do
    -- Links are followed.
    match ← attempt (System.mkFilePath [path]).metadata with
    | some metadata => return metadata.type == .file
    | none => return false
  list path := attempt do
    return (← (System.mkFilePath [path]).readDir).toList.map fun entry => entry.fileName
  create path := attempt (IO.FS.Handle.mk path .write)
  append file bytes := do
    let written ← attempt do
      file.write (ByteArray.mk bytes.toArray)
      file.flush
    return written.isSome

end Semihosting

/-- Runs the command with the arguments of the process. -/
def main (arguments : List String) : IO UInt32 := do
  let environment ← IO.getEnv "SEMIFUZZ_ITERS"
  let ending : Semihosting.Command.Ending ← Semihosting.Command.run arguments environment
  IO.print ending.output
  if let some complaint := ending.complaint then
    IO.eprintln complaint
  return ending.exitCode
