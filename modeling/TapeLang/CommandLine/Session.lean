import TapeLang.CommandLine.Trial
import TapeLang.Text.Blank

/-!
# Interactive sessions

A session shows a prompt, takes a line from the input and tries it as a source text, and so on until
the input ends or a line is one of the quit words. Every line gets a tape of its own, and all of
them read the same input: a program takes its bytes from what follows its line.

A failure is reported and the session goes on; a crash ends it. The way to try a source text is a
parameter of `Session.turns`, so that a session may also be without a tape.

A line is at least one byte long, so a session on some input takes at most one turn more than the
input has bytes; that is what `Session.run` allows.
-/

namespace TapeLang.CommandLine.Session

/-- The prompt. -/
def prompt : List UInt8 :=
  Text.encodeUtf8 "ccbf> "

/-- The words that end a session. -/
def quitWords : List String :=
  ["exit", "quit", ":q", ":quit"]

/-- The first line of the input with its line feed, and what follows. -/
def splitLine (input : List UInt8) : List UInt8 × List UInt8 :=
  let line := input.takeWhile (· ≠ 0x0A)
  (input.take (line.length + 1), input.drop (line.length + 1))

/-- The text of a line without its end. -/
def lineText (line : List UInt8) : List Char :=
  Text.trimEnd (fun c => c == '\r' || c == '\n') (Text.decodeUtf8 line)

/-- A line that ends the session: a quit word, with blank space around it or not. -/
def isQuit (text : List Char) : Bool :=
  quitWords.contains (.ofList (Text.trim Text.isGap text))

/-- The notices about the end of a trial. -/
def endNotices (o : Options) : TrialEnd → List Notice
  | .failed failure => failure.notices o.debug ""
  | _ => []

/-- What a session leaves behind that begins with a trial and then goes on. -/
def after (o : Options) (trial : Trial) (later : Transcript) : Transcript where
  exit := later.exit
  stdout := prompt ++ trial.stdout ++ later.stdout
  notices := trial.notices ++ endNotices o trial.ending ++ later.notices
  input := later.input

/-- A session of at most the given number of turns, with a way to try a source text on an input. -/
def turns (attempt : String → List UInt8 → Option Trial) (o : Options) :
    Nat → List UInt8 → Option Transcript
  | 0, _ => none
  | count + 1, input =>
    if input.isEmpty then some { stdout := prompt ++ [0x0A], input }
    else
      let (line, rest) := splitLine input
      let text := lineText line
      if isQuit text then some { stdout := prompt, input := rest }
      else do
        let trial ← attempt (.ofList text) rest
        match trial.ending with
        | .crashed cause =>
          return after o trial { exit := .crash cause, input := trial.input }
        | _ => return after o trial (← turns attempt o count trial.input)

/-- A session on some input. Each run has the same resources. -/
def run (r : Resources) (o : Options) (input : List UInt8) : Option Transcript :=
  turns (Trial.run r o) o (input.length + 1) input

/-- A session on some input whose tapes were asked to have an impossible length. -/
def runWithoutTape (e : TapeLengthError) (o : Options) (input : List UInt8) : Option Transcript :=
  turns (fun text rest => Trial.withoutTape e o text rest) o (input.length + 1) input

end TapeLang.CommandLine.Session
