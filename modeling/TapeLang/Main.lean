import TapeLang.CommandLine.Launch

/-!
# The program

Connects the command line to the system: reads the named file and the standard input, lets `launch`
decide what happens, and writes the transcript out. The standard input is read to its end before a
run begins; nothing is read if nothing will be run.
-/

namespace TapeLang.CommandLine

/-- The code of an error stands for a number. The system may give it with a minus sign. -/
def codeIs (number code : UInt32) : Bool :=
  code = number ∨ -code = number

/-- The cause of an error of the system, if it is one that the command line knows. -/
def FileErrorCause.ofSystem? : IO.Error → Option FileErrorCause
  | .noFileOrDirectory _ _ _ => some .notFound
  | .inappropriateType _ code _ =>
    some (if codeIs 20 code then .notDirectory else .isDirectory)
  | .invalidArgument _ code _ => if codeIs 36 code then some .nameTooLong else none
  | _ => none

/-- Reads a file. An error that the command line does not know is passed on. -/
def readFile (name : String) : IO (Except FileError (List UInt8)) := do
  try
    return .ok (← IO.FS.readBinFile name).toList
  catch e =>
    match FileErrorCause.ofSystem? e with
    | some cause => return .error ⟨cause, name⟩
    | none => throw e

/-- Answers a command line, reading the file and the input that it needs. -/
def answer (arguments : List String) : IO Transcript := do
  let standardInput : IO (List UInt8) := do return (← (← IO.getStdin).readBinToEnd).toList
  let request? := (Request.ofArguments arguments).toOption
  let found ← match request?.bind (·.file?) with
    | some file => if IsFileName file then readFile file else pure (.error ⟨.notFound, file⟩)
    | none => pure (.error ⟨.notFound, ""⟩)
  let input ← match request? with
    | some request => if request.options.dump then pure [] else standardInput
    | none => pure []
  match launch .standard arguments (fun _ => found) input with
  | some transcript => return transcript
  | none => throw (.userError "the run does not halt")

end TapeLang.CommandLine

open TapeLang.CommandLine in
/-- Answers the command line, and leaves with its exit status. -/
def main (arguments : List String) : IO UInt32 := do
  let transcript ← answer arguments
  let stdout ← IO.getStdout
  stdout.write ⟨transcript.stdout.toArray⟩
  stdout.flush
  let stderr ← IO.getStderr
  stderr.putStr (transcript.stderr (← stderr.isTty))
  if let .crash cause := transcript.exit then
    stderr.putStrLn cause.message
  return transcript.exit.status.toUInt32
