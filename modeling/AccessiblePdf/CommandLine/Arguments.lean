/-!
The arguments of the program: a command, the files it is about, and its switches. Switches stand
anywhere, long ones as `--name`, `--name value` or `--name=value`, short ones as `-n`, `-n value` or
`-nvalue`; after `--` every argument is a file.
-/
namespace AccessiblePdf.CommandLine

/-- What the program is asked to do. -/
inductive Request where
  | validate (instructions : String)
  | apply (input instructions : String) (output : Option String) (lenient topLeft compress : Bool)
  | inspect (input : String) (output : Option String) (compact fontPrograms : Bool)
  | info (input : String)
  | help
  | version
deriving DecidableEq, Repr

/-- Why arguments are no request. -/
inductive Misuse where
  | noCommand
  | unknownCommand (name : String)
  | unexpected (argument : String)
  | missingValue (switch : String)
  | missing (name : String)
deriving DecidableEq, Repr

def Misuse.message : Misuse → String
  | .noCommand => "a command is required"
  | .unknownCommand name => "unrecognized command '" ++ name ++ "'"
  | .unexpected argument => "unexpected argument '" ++ argument ++ "' found"
  | .missingValue switch => "a value is required for '--" ++ switch ++ "'"
  | .missing name => "the following required argument was not provided: " ++ name

/-- A switch of a command. -/
structure Switch where
  name : String
  short : Option Char := none
  takesValue : Bool := false

/-- Arguments by kind. -/
structure Given where
  files : List String := []
  flags : List String := []
  values : List (String × String) := []

namespace Given

def hasFlag (g : Given) (name : String) : Bool := g.flags.contains name

def value? (g : Given) (name : String) : Option String := g.values.lookup name

def addFile (g : Given) (file : String) : Given := { g with files := g.files ++ [file] }

def addFlag (g : Given) (name : String) : Given := { g with flags := name :: g.flags }

def addValue (g : Given) (name value : String) : Given :=
  { g with values := (name, value) :: g.values }

/-- Letters after a hyphen: flags, up to a switch whose value is the rest or the next argument. -/
def addShort (switches : List Switch) (g : Given) :
    List Char → Except Misuse (Given × Option String)
  | [] => .ok (g, none)
  | c :: cs =>
    match switches.find? (·.short == some c) with
    | none => .error (.unexpected (String.ofList ['-', c]))
    | some s =>
      if s.takesValue then
        if cs.isEmpty then .ok (g, some s.name)
        else .ok (g.addValue s.name (String.ofList (if cs.head? = some '=' then cs.tail else cs)), none)
      else addShort switches (g.addFlag s.name) cs

/-- What follows two hyphens: a flag, a switch with its value, or a switch that waits for one. -/
def addLong (switches : List Switch) (g : Given) (text : List Char) :
    Except Misuse (Given × Option String) :=
  let name := String.ofList (text.takeWhile (· != '='))
  let value := text.dropWhile (· != '=')
  match switches.find? (·.name == name) with
  | none => .error (.unexpected ("--" ++ name))
  | some s =>
    match s.takesValue, value with
    | true, _ :: value => .ok (g.addValue name (String.ofList value), none)
    | true, [] => .ok (g, some name)
    | false, [] => .ok (g.addFlag name, none)
    | false, _ :: _ => .error (.unexpected ("--" ++ String.ofList text))

/-- Adds arguments; `waiting` names a switch whose value comes next. -/
def addAll (switches : List Switch) (g : Given) (waiting : Option String) :
    List String → Except Misuse Given
  | [] =>
    match waiting with
    | some name => .error (.missingValue name)
    | none => .ok g
  | argument :: rest =>
    match waiting with
    | some name => addAll switches (g.addValue name argument) none rest
    | none => do
      match argument.toList with
      | ['-', '-'] => return rest.foldl addFile g
      | '-' :: '-' :: text =>
        let (g, waiting) ← addLong switches g text
        addAll switches g waiting rest
      | '-' :: c :: cs =>
        let (g, waiting) ← addShort switches g (c :: cs)
        addAll switches g waiting rest
      | _ => addAll switches (g.addFile argument) none rest

end Given

/-! ## Commands -/

/-- The switches that every command has. -/
def common : List Switch := [⟨"verbose", some 'v', false⟩, ⟨"help", some 'h', false⟩]

def output : Switch := ⟨"output", some 'o', true⟩

/-- The switches of a command. -/
def switches : String → List Switch
  | "apply" => common ++ [⟨"instructions", some 'i', true⟩, output, ⟨"lenient", none, false⟩,
      ⟨"top-left-origin", none, false⟩, ⟨"no-compress", none, false⟩]
  | "inspect" => common ++ [output, ⟨"compact", none, false⟩, ⟨"font-programs", none, false⟩]
  | _ => common

/-- The one file that a command is about. -/
def onlyFile (g : Given) : Except Misuse String :=
  match g.files with
  | [file] => .ok file
  | [] => .error (.missing "<FILE>")
  | _ :: file :: _ => .error (.unexpected file)

/-- The request that a command with its arguments makes. -/
def request (command : String) (g : Given) : Except Misuse Request := do
  if g.hasFlag "help" then return .help
  let file ← onlyFile g
  match command with
  | "validate" => return .validate file
  | "apply" =>
    match g.value? "instructions" with
    | none => .error (.missing "--instructions <FILE>")
    | some instructions =>
      return (.apply file instructions (g.value? "output") (g.hasFlag "lenient")
        (g.hasFlag "top-left-origin") (!g.hasFlag "no-compress"))
  | "inspect" =>
    return (.inspect file (g.value? "output") (g.hasFlag "compact") (g.hasFlag "font-programs"))
  | _ => return .info file

/-- The names of the commands. -/
def commands : List String := ["validate", "apply", "inspect", "info"]

/-- Reads the arguments. -/
def read : List String → Except Misuse Request
  | [] => .error .noCommand
  | argument :: rest =>
    if ["-v", "-vv", "-vvv", "--verbose"].contains argument then read rest
    else if ["help", "-h", "--help"].contains argument then .ok .help
    else if ["-V", "--version"].contains argument then .ok .version
    else if commands.contains argument then do
      request argument (← Given.addAll (switches argument) {} none rest)
    else .error (.unknownCommand argument)

/-- How the program is called. -/
def usage : String :=
  "\n".intercalate [
    "Remediate and inspect PDF accessibility",
    "",
    "Usage: pdfremedy [OPTIONS] <COMMAND>",
    "",
    "Commands:",
    "  validate  Check an instruction document without touching any PDF",
    "  apply     Apply an instruction document to a PDF",
    "  inspect   Write a structural JSON report of a PDF",
    "  info      Show an accessibility summary",
    "",
    "Options:",
    "  -v, --verbose...  Increase log output (-v info, -vv debug, -vvv trace)",
    "  -h, --help        Print help",
    "  -V, --version     Print version"]

end AccessiblePdf.CommandLine
