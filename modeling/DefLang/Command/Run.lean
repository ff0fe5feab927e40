import DefLang.Command.Arguments

/-!
# Running the command

`Command.run` turns arguments into an outcome: an exit code and what is written to the two output
streams. Files are read through a function, so that the command can be run on the file system and
on a `Directory` alike. The exit code is 0 on success and for help or the version, 1 for a file that
cannot be read or compiled, and 2 for arguments that cannot be understood.

A directory holds files, which are strings of bytes, and directories without entries.
`Directory.read` follows a path step by step, from the directory or, behind a leading slash, from
outside it. Names are known in the directory only; a path may leave it, but finds nothing there.
-/

namespace DefLang.Command

inductive ReadError where
  | notFound
  | notDirectory
  | isDirectory
  | notUtf8
  | other (reason : String)
deriving DecidableEq

def ReadError.reason : ReadError → String
  | notFound => "No such file or directory (os error 2)"
  | notDirectory => "Not a directory (os error 20)"
  | isDirectory => "Is a directory (os error 21)"
  | notUtf8 => "stream did not contain valid UTF-8"
  | other reason => reason

inductive Entry where
  | file (bytes : ByteArray)
  | directory

abbrev Directory := List (String × Entry)

namespace Directory

def steps : List Char → List (List Char)
  | [] => [[]]
  | c :: cs =>
    if c = '/' then [] :: steps cs
    else
      match steps cs with
      | [] => [[c]]
      | step :: rest => (c :: step) :: rest

def isIdle (step : List Char) : Bool :=
  step.isEmpty || step == ['.']

/-- Where the steps of a path have led: to the directory, to one that it holds, or elsewhere. -/
inductive Location where
  | here
  | within
  | outside
deriving DecidableEq

def Location.parent : Location → Location
  | here => outside
  | within => here
  | outside => outside

def entry? (dir : Directory) (name : List Char) : Location → Option Entry
  | .here => dir.lookup (String.ofList name)
  | .within => none
  | .outside => none

/-- Reads the file at the end of the steps. A file has no steps behind it, not even idle ones. -/
def follow (dir : Directory) (location : Location) : List (List Char) → Except ReadError ByteArray
  | [] => .error .isDirectory
  | step :: rest =>
    if isIdle step then follow dir location rest
    else if step = ['.', '.'] then follow dir location.parent rest
    else
      match dir.entry? step location with
      | none => .error .notFound
      | some .directory => follow dir .within rest
      | some (.file bytes) => if rest.isEmpty then .ok bytes else .error .notDirectory

def read (dir : Directory) (path : String) : Except ReadError ByteArray :=
  let cs := path.toList
  dir.follow (if cs.head? = some '/' then .outside else .here) (steps cs)

end Directory

structure Outcome where
  exitCode : UInt32
  stdout : String
  stderr : String
deriving DecidableEq

def versionText : String :=
  "minidef 0.1.0"

def helpText : String :=
  "\n".intercalate
    ["Compile a single def/end definition into its normalized rendering",
     "",
     "Usage: minidef [OPTIONS] [FILE]",
     "",
     "Arguments:",
     "  [FILE]  Source file to compile [default: test.src]",
     "",
     "Options:",
     "      --syntax <SYNTAX>  Surface syntax of the source: def (default) or act",
     "      --emit <EMIT>      Which pipeline stage to print: tokens, ast or output (default)",
     "      --strict           Reject tokens after the end of the definition",
     "  -h, --help             Print help",
     "  -V, --version          Print version"]

def Outcome.success (text : String) : Outcome :=
  ⟨0, text ++ "\n", ""⟩

/-- An outcome that writes an error to the standard error; its label is bold and red in color. -/
def Outcome.failure (color : Bool) (exitCode : UInt32) (text : String) : Outcome :=
  ⟨exitCode, "", (if color then "\x1b[1;31merror\x1b[0m" else "error") ++ ": " ++ text ++ "\n"⟩

/-- Whether to write in color: it can be forced or forbidden by the environment, and otherwise needs
a terminal. A variable set to `0` counts as switched off. -/
def wantsColor (forced forbidden enabled : Option String) (terminal : Bool) : Bool :=
  if forced.any (· != "0") then true
  else if forbidden.isSome then false
  else terminal && enabled.all (· != "0")

def decodeText (bytes : ByteArray) : Except ReadError String :=
  match String.fromUTF8? bytes with
  | some text => .ok text
  | none => .error .notUtf8

/-- What a job comes to, given the contents of its file. -/
def Job.outcome (color : Bool) (job : Job) (contents : Except ReadError ByteArray) : Outcome :=
  match contents >>= decodeText with
  | .error error => .failure color 1 ("cannot read " ++ job.file ++ ": " ++ error.reason)
  | .ok source =>
    match job.stage.run job.options source with
    | .ok text => .success text
    | .error failure =>
      .failure color 1 (job.file ++ ":" ++ (failure.report? source).getD failure.message)

/-- Runs the command in a monad that can read files. -/
def run {m : Type → Type} [Monad m] (color : Bool)
    (read : String → m (Except ReadError ByteArray)) (arguments : List String) : m Outcome :=
  match Request.ofArguments arguments with
  | .error error => pure (.failure color 2 error.message)
  | .ok .help => pure (.success helpText)
  | .ok .version => pure (.success versionText)
  | .ok (.compile job) => return job.outcome color (← read job.file)

def runIn (dir : Directory) (color : Bool) (arguments : List String) : Outcome :=
  Id.run (run color (fun path => pure (dir.read path)) arguments)

end DefLang.Command
