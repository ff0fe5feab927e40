import DefLang.Compile

/-!
# Arguments of the command

The command takes at most one file, the options `--syntax` and `--emit` with a value, the switch
`--strict`, `--help` and `--version`. Options may come in any order and may be written
`--emit tokens` or `--emit=tokens`; everything behind `--` is a file. Arguments are read from left
to right, and the first one that is wrong, or that asks for help or for the version, decides. How
usage errors and the help are worded is not fixed; only their exit codes are.
-/

namespace DefLang.Command

/-- A file to compile, how to read it, and what to show of it. -/
structure Job where
  file : String := "test.src"
  options : Options := {}
  stage : Stage := .output
deriving DecidableEq

inductive Request where
  | help
  | version
  | compile (job : Job)
deriving DecidableEq

inductive UsageError where
  | unknownOption (argument : String)
  | repeated (name : String)
  | missingValue (name : String)
  | invalidValue (name value : String)
  | unwantedValue (name : String)
  | emptyFile
  | secondFile (argument : String)
deriving DecidableEq

def UsageError.message : UsageError → String
  | unknownOption argument => "unknown option " ++ quote argument
  | repeated name => "option --" ++ name ++ " is given twice"
  | missingValue name => "option --" ++ name ++ " needs a value"
  | invalidValue name value => "option --" ++ name ++ " does not take the value " ++ quote value
  | unwantedValue name => "option --" ++ name ++ " takes no value"
  | emptyFile => "the name of the file is empty"
  | secondFile argument => "unexpected argument " ++ quote argument

inductive Shape where
  | separator
  | long (name : String) (value? : Option String)
  | short (letters : List Char)
  | plain

/-- A lone hyphen is a plain argument, and a long option may carry its value behind a `=`. -/
def Shape.of (argument : String) : Shape :=
  match argument.toList with
  | ['-', '-'] => .separator
  | '-' :: '-' :: cs =>
    .long (String.ofList (cs.takeWhile (· != '=')))
      ((cs.dropWhile (· != '=')).tail?.map String.ofList)
  | '-' :: c :: cs => .short (c :: cs)
  | _ => .plain

/-- What the arguments so far have settled. -/
structure Given where
  file? : Option String := none
  dialect? : Option Dialect := none
  stage? : Option Stage := none
  strict : Bool := false

namespace Given

def job (given : Given) : Job :=
  let default : Job := {}
  { file := given.file?.getD default.file
    options := { dialect := given.dialect?.getD default.options.dialect, strict := given.strict }
    stage := given.stage?.getD default.stage }

def addFile (given : Given) (file : String) : Except UsageError Given :=
  if given.file?.isSome then .error (.secondFile file)
  else if file.isEmpty then .error .emptyFile
  else .ok { given with file? := some file }

def addStrict (given : Given) : Except UsageError Given :=
  if given.strict then .error (.repeated "strict") else .ok { given with strict := true }

end Given

inductive Setting where
  | dialect
  | stage

namespace Setting

def name : Setting → String
  | dialect => "syntax"
  | stage => "emit"

def ofName? (name : String) : Option Setting :=
  [dialect, stage].find? (·.name == name)

def dialectOfName? : String → Option Dialect
  | "def" => some .worded
  | "act" => some .braced
  | _ => none

def stageOfName? : String → Option Stage
  | "tokens" => some .tokens
  | "ast" => some .outline
  | "output" => some .output
  | _ => none

def add (given : Given) (value : String) : Setting → Except UsageError Given
  | dialect =>
    match given.dialect?, dialectOfName? value with
    | some _, _ => .error (.repeated dialect.name)
    | none, none => .error (.invalidValue dialect.name value)
    | none, some d => .ok { given with dialect? := some d }
  | stage =>
    match given.stage?, stageOfName? value with
    | some _, _ => .error (.repeated stage.name)
    | none, none => .error (.invalidValue stage.name value)
    | none, some s => .ok { given with stage? := some s }

end Setting

/-- Reads the arguments that are left, where `given` is settled. -/
def readArguments (given : Given) : List String → Except UsageError Request
  | [] => .ok (.compile given.job)
  | argument :: rest =>
    match Shape.of argument with
    | .separator => (rest.foldlM Given.addFile given).map (.compile ·.job)
    | .plain => do readArguments (← given.addFile argument) rest
    | .short letters =>
      -- The first letter decides, since neither help nor the version lets later ones be read.
      if letters.head? = some 'h' then .ok .help
      else if letters.head? = some 'V' then .ok .version
      else .error (.unknownOption argument)
    | .long "help" none => .ok .help
    | .long "help" (some _) => .error (.unwantedValue "help")
    | .long "version" none => .ok .version
    | .long "version" (some _) => .error (.unwantedValue "version")
    | .long "strict" none => do readArguments (← given.addStrict) rest
    | .long "strict" (some _) => .error (.unwantedValue "strict")
    | .long name value? =>
      match Setting.ofName? name, value?, rest with
      | none, _, _ => .error (.unknownOption argument)
      | some setting, some value, rest => do readArguments (← setting.add given value) rest
      | some setting, none, [] => .error (.missingValue setting.name)
      | some setting, none, value :: rest =>
        match Shape.of value with
        | .plain => do readArguments (← setting.add given value) rest
        | _ => .error (.missingValue setting.name)

def Request.ofArguments (arguments : List String) : Except UsageError Request :=
  readArguments {} arguments

end DefLang.Command
