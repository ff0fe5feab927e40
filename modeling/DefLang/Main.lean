import DefLang.Command.Run

/-!
# The command

Reads files from the file system, and writes to the standard streams of the process.
-/

namespace DefLang.Command

def ReadError.ofFileSystem : IO.Error → ReadError
  | .noFileOrDirectory .. => .notFound
  | .inappropriateType _ _ "not a directory" => .notDirectory
  | .inappropriateType .. => .isDirectory
  | error => .other (toString error)

def readFile (path : String) : IO (Except ReadError ByteArray) := do
  try
    return .ok (← IO.FS.readBinFile path)
  catch error =>
    return .error (.ofFileSystem error)

end DefLang.Command

open DefLang.Command in
def main (arguments : List String) : IO UInt32 := do
  let stdout ← IO.getStdout
  let stderr ← IO.getStderr
  let color := wantsColor (← IO.getEnv "CLICOLOR_FORCE") (← IO.getEnv "NO_COLOR")
    (← IO.getEnv "CLICOLOR") (← stdout.isTty)
  let outcome ← run color readFile arguments
  stdout.putStr outcome.stdout
  stderr.putStr outcome.stderr
  return outcome.exitCode
