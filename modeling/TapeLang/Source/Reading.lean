import TapeLang.Text.LineEnd
import TapeLang.Text.Utf8

/-!
# Reading a source file

The bytes of a source file are read as UTF-8, and its line ends as line feeds. Bytes that are no
UTF-8 do no harm: what takes their place is not a command, and everything that is not a command is a
comment.
-/

namespace TapeLang

/-- The source text in a file. -/
def sourceText (bytes : List UInt8) : String :=
  .ofList (Text.normalizeLineEnds (Text.decodeUtf8 bytes))

/-- A source text from a file has line feeds only. -/
theorem return_not_mem_sourceText (bytes : List UInt8) : '\r' ∉ (sourceText bytes).toList := by
  simpa [sourceText] using Text.return_not_mem_normalizeLineEnds _

end TapeLang
