import TapeLang.Compilation.Error
import TapeLang.CommandLine.Folder
import TapeLang.Crash
import TapeLang.Machine.Fault
import TapeLang.Text.Utf8

/-!
# Transcripts

What a command leaves behind: the bytes on standard output, the notices on standard error, the input
that it did not read, and how it ended.

A `Notice` is plain, or it reports an error. On a terminal the reports of errors are shown in red;
nothing else depends on the terminal.

A `Failure` is an error that a command expects and reports: a file that cannot be read, a source
text that does not compile, or a fault of the machine. With debugging on, the report of a failure is
a traceback, without the frames.
-/

namespace TapeLang.CommandLine

/-- How a command ends. -/
inductive Exit where
  | success
  | failure
  | crash (cause : Crash)
  deriving DecidableEq, Repr

/-- The exit status. -/
def Exit.status : Exit → UInt8
  | success => 0
  | failure => 1
  | crash _ => 1

/-! ## Notices -/

/-- A text for standard error. -/
inductive Notice where
  | plain (text : String)
  | error (message : String)
  deriving DecidableEq, Repr

/-- A notice as it is written to standard error. -/
def Notice.render (terminal : Bool) : Notice → String
  | plain text => text ++ "\n"
  | error message => if terminal then "\x1b[31m" ++ message ++ "\x1b[0m\n" else message ++ "\n"

/-! ## Failures -/

/-- An error that a command expects. -/
inductive Failure where
  | file (e : FileError)
  | compile (e : CompileError)
  | fault (f : Fault)
  deriving DecidableEq, Repr

namespace Failure

/-- The message of a failure. -/
def message : Failure → String
  | file e => e.message
  | compile e => e.message
  | fault f => f.message

/-- The name that a traceback gives to a failure. -/
def name : Failure → String
  | file e => match e.cause with
    | .notFound => "FileNotFoundError"
    | .isDirectory => "IsADirectoryError"
    | .notDirectory => "NotADirectoryError"
    | .nameTooLong => "OSError"
  | compile _ => "compiler.CompileError"
  | fault f => "vm." ++ f.cause.kind.name

/-- The notices that report a failure. Without debugging the message stands behind a heading. -/
def notices (debug : Bool) (heading : String) (f : Failure) : List Notice :=
  if debug then
    [.plain "Traceback (most recent call last):", .plain (f.name ++ ": " ++ f.message)]
  else [.error (heading ++ f.message)]

end Failure

/-! ## Transcripts -/

/-- What a command leaves behind. -/
structure Transcript where
  exit : Exit := .success
  stdout : List UInt8 := []
  notices : List Notice := []
  /-- The input that was not read. -/
  input : List UInt8
  deriving DecidableEq, Repr

/-- The text on standard error. -/
def Transcript.stderr (terminal : Bool) (t : Transcript) : String :=
  String.join (t.notices.map (Notice.render terminal))

/-- The bytes of some lines on standard output. -/
def linesOut (lines : List String) : List UInt8 :=
  lines.flatMap fun line => Text.encodeUtf8 (line ++ "\n")

end TapeLang.CommandLine
