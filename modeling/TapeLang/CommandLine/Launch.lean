import TapeLang.CommandLine.Session
import TapeLang.Source.Reading

/-!
# Launching

What happens on a command line. A command line that cannot be obeyed is answered with the usage;
otherwise the named file is run or dumped, and without a file there is an interactive session.

Files are read through a function from names to bytes, so nothing here depends on where they are
kept. A name that has the character NUL in it is never asked for.
-/

namespace TapeLang.CommandLine

/-- The usage of the command line. -/
def usage : String :=
  "Usage:
  ccbf [options] <file.bf>     run a program
  ccbf [options]               start the REPL
Options:
  --cells N       number of tape cells (default 30000)
  --dump          print the compiled bytecode instead of running
  --profile       print the most entered loops to stderr after the run
  --trace         print every executed instruction to stderr
  --no-optimize   one instruction per command character
  --debug         show Python tracebacks"

/-- A way to read files. -/
abbrev FileReader := String → Except FileError (List UInt8)

/-- The answer to a command line that cannot be obeyed. Asking for help is no failure. -/
def UsageError.transcript (e : UsageError) (input : List UInt8) : Transcript :=
  match e.message? with
  | none => { notices := [.plain usage], input }
  | some message => { exit := .failure, notices := [.error message, .plain usage], input }

/-- A transcript with nothing but a failure. -/
def Failure.transcript (o : Options) (heading : String) (f : Failure) (input : List UInt8) :
    Transcript :=
  { exit := .failure, notices := f.notices o.debug heading, input }

/-- Dumps the program of a file. -/
def dump (o : Options) (readFile : FileReader) (file : String) (input : List UInt8) : Transcript :=
  let heading := "Build error: "
  match readFile file with
  | .error e => Failure.transcript o heading (.file e) input
  | .ok bytes =>
    match Program.ofSource (sourceText bytes) o.optimize with
    | .error e => Failure.transcript o heading (.compile e) input
    | .ok program =>
      let title := "INSTRUCTIONS:"
      match program.listing? with
      | some lines => { stdout := linesOut (title :: lines), input }
      | none => { exit := .crash .unlistable, stdout := linesOut [title], input }

/-- What a trial leaves behind if it is all that happens. -/
def Trial.transcript (o : Options) (t : Trial) : Transcript :=
  match t.ending with
  | .completed => { stdout := t.stdout, notices := t.notices, input := t.input }
  | .failed failure =>
    { exit := .failure, stdout := t.stdout, notices := t.notices ++ failure.notices o.debug "",
      input := t.input }
  | .crashed cause =>
    { exit := .crash cause, stdout := t.stdout, notices := t.notices, input := t.input }

/-- Runs a file. -/
def runFile (r : Resources) (o : Options) (readFile : FileReader) (file : String)
    (input : List UInt8) : Option Transcript :=
  match readFile file with
  | .error e => some (Failure.transcript o "" (.file e) input)
  | .ok bytes => (Trial.run r o (sourceText bytes) input).map (Trial.transcript o)

/-- A text can be the name of a file as far as its characters go. -/
def IsFileName (name : String) : Prop :=
  '\x00' ∉ name.toList

instance (name : String) : Decidable (IsFileName name) :=
  inferInstanceAs (Decidable (¬ _))

/-- Obeys a request. -/
def Request.obey (r : Resources) (request : Request) (readFile : FileReader) (input : List UInt8) :
    Option Transcript :=
  let o := request.options
  match request.file? with
  | none => Session.run r o input
  | some file =>
    if ¬ IsFileName file then some { exit := .crash .nulInName, input }
    else if o.dump then some (dump o readFile file input)
    else runFile r o readFile file input

/-- Answers a command line. There is no result if a run does not halt within the budget. -/
def launch (r : Resources) (arguments : List String) (readFile : FileReader)
    (input : List UInt8) : Option Transcript :=
  match Request.ofArguments arguments with
  | .error e => some (e.transcript input)
  | .ok request => request.obey r readFile input

end TapeLang.CommandLine
