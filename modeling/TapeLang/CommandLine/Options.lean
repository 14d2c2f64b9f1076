import TapeLang.Tape
import TapeLang.Text.Numeral

/-!
# Options of the command line

The arguments are read from left to right into groups. `--cells` takes the next argument as its
value, whatever that looks like; `--cells=` carries its value behind the equals sign; any other
argument is a group by itself.

A group asks for something or is bad. The first bad group decides the error. Only if there is none
does it matter how many files are named: one at most, and one at least if the program is to be
dumped. Flags may be repeated; of several cell counts, the last holds.
-/

namespace TapeLang.CommandLine

/-- What the options decide. -/
structure Options where
  length : TapeLength := .standard
  debug : Bool := false
  dump : Bool := false
  optimize : Bool := true
  profile : Bool := false
  trace : Bool := false
  deriving DecidableEq

/-- A command line that can be obeyed: the file, if one is named, and the options. -/
structure Request where
  file? : Option String
  options : Options
  deriving DecidableEq

/-- Why a command line cannot be obeyed. Asking for help is one of the reasons. -/
inductive UsageError where
  | help
  | missingCellCount
  | invalidCellCount (given : String)
  | unknownOption (given : String)
  | severalFiles
  | dumpWithoutFile
  deriving DecidableEq, Repr

/-- The message of an error, unless it was help that was asked for. -/
def UsageError.message? : UsageError → Option String
  | help => none
  | missingCellCount => some "--cells needs a value"
  | invalidCellCount given => some ("Invalid cell count: " ++ given)
  | unknownOption given => some ("Unknown option: " ++ given)
  | severalFiles => some "Only one source file can be specified"
  | dumpWithoutFile => some "--dump needs a source file"

/-! ## Groups -/

/-- An option that is on or off. -/
inductive Flag where
  | debug
  | dump
  | noOptimize
  | profile
  | trace
  deriving DecidableEq, Repr

/-- The flag that an argument names. -/
def Flag.ofArgument? : String → Option Flag
  | "--debug" => some debug
  | "--dump" => some dump
  | "--no-optimize" => some noOptimize
  | "--profile" => some profile
  | "--trace" => some trace
  | _ => none

/-- A group of arguments. -/
inductive Group where
  | cells (value : String)
  /-- The option for the cell count at the end of the command line, without a value. -/
  | danglingCells
  | flag (flag : Flag)
  | help
  | unknown (given : String)
  | file (name : String)
  deriving DecidableEq, Repr

/-- The text behind a given beginning, if the argument begins so. -/
def textBehind? (beginning argument : String) : Option String :=
  if beginning.toList.isPrefixOf argument.toList then
    some (.ofList (argument.toList.drop beginning.toList.length))
  else none

/-- The group of an argument that stands by itself. -/
def Group.ofArgument (argument : String) : Group :=
  match textBehind? "--cells=" argument with
  | some value => cells value
  | none =>
    match Flag.ofArgument? argument with
    | some f => flag f
    | none =>
      if argument = "-h" ∨ argument = "--help" then help
      else if (textBehind? "--" argument).isSome then unknown argument
      else file argument

/-- The groups of a command line. -/
def groups : List String → List Group
  | [] => []
  | ["--cells"] => [.danglingCells]
  | "--cells" :: value :: rest => .cells value :: groups rest
  | argument :: rest => .ofArgument argument :: groups rest

/-! ## Requests -/

/-- The cell count in a text: a numeral of a positive integer. -/
def cellCount? (text : String) : Option TapeLength :=
  (Text.readInteger? text.toList).bind TapeLength.ofInt?

/-- The options with a flag set. -/
def Options.set (o : Options) : Flag → Options
  | .debug => { o with debug := true }
  | .dump => { o with dump := true }
  | .noOptimize => { o with optimize := false }
  | .profile => { o with profile := true }
  | .trace => { o with trace := true }

/-- What has been asked for so far. -/
structure Collected where
  options : Options := {}
  /-- The files named so far, in order. -/
  files : List String := []

/-- Adds a group to what has been asked for. -/
def Collected.add (c : Collected) : Group → Except UsageError Collected
  | .cells value =>
    match cellCount? value with
    | some length => .ok { c with options := { c.options with length } }
    | none => .error (.invalidCellCount value)
  | .danglingCells => .error .missingCellCount
  | .flag f => .ok { c with options := c.options.set f }
  | .help => .error .help
  | .unknown given => .error (.unknownOption given)
  | .file name => .ok { c with files := c.files ++ [name] }

/-- The request in what has been asked for. -/
def Collected.request (c : Collected) : Except UsageError Request :=
  match c.files with
  | [] => if c.options.dump then .error .dumpWithoutFile else .ok ⟨none, c.options⟩
  | [file] => .ok ⟨some file, c.options⟩
  | _ => .error .severalFiles

/-- The request of a command line. -/
def Request.ofArguments (arguments : List String) : Except UsageError Request := do
  let collected ← (groups arguments).foldlM Collected.add {}
  collected.request

end TapeLang.CommandLine
