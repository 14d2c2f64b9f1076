import TapeLang.Text.Quoted
import TapeLang.Text.Utf8

/-!
# Files by name

A `Folder` is a working directory that holds some files and nothing else. A name is a path: its
parts are separated by slashes, empty parts and single dots stand for the place reached so far, and
two dots lead out of the folder, to a place of which no files are known.

A path can fail in four ways: nothing has that name, the name is that of a directory, the path goes
on behind a file, or a name is too long to be one. A single part is too long from 256 bytes on; it
is met where the path has led so far. A whole path is too long from 4096 bytes on, and is not
followed.
-/

namespace TapeLang.CommandLine

/-- What is wrong with the name of a file. -/
inductive FileErrorCause where
  | notFound
  | isDirectory
  | notDirectory
  | nameTooLong
  deriving DecidableEq, Repr

/-- A file that cannot be read. -/
structure FileError where
  cause : FileErrorCause
  name : String
  deriving DecidableEq, Repr

/-- What is wrong, with its number in front. -/
def FileErrorCause.text : FileErrorCause → String
  | notFound => "[Errno 2] No such file or directory"
  | isDirectory => "[Errno 21] Is a directory"
  | notDirectory => "[Errno 20] Not a directory"
  | nameTooLong => "[Errno 36] File name too long"

/-- The message of an error. -/
def FileError.message (e : FileError) : String :=
  e.cause.text ++ ": " ++ Text.quoted e.name

/-- The files of a working directory, each with its bytes. -/
structure Folder where
  files : List (String × List UInt8) := []

namespace Folder

/-- The parts of a path between its slashes. -/
def pathParts (name : String) : List String :=
  (name.toList.splitOn '/').map String.ofList

/-- The number of bytes from which on a part of a path is too long. -/
def partLimit : Nat := 256

/-- The number of bytes from which on a path is too long. -/
def pathLimit : Nat := 4096

/-- A name has a number of bytes or more. -/
def reaches (limit : Nat) (name : String) : Bool :=
  limit ≤ (Text.encodeUtf8 name).length

/-- Follows a path through directories whose files are not known. -/
def followOutside : List String → FileErrorCause
  | [] => .isDirectory
  | part :: rest =>
    if part = "" ∨ part = "." ∨ part = ".." then followOutside rest
    else if reaches partLimit part then .nameTooLong
    else .notFound

/-- Follows a path from the folder. -/
def follow (f : Folder) : List String → Except FileErrorCause (List UInt8)
  | [] => .error .isDirectory
  | part :: rest =>
    if part = "" ∨ part = "." then f.follow rest
    else if part = ".." then .error (followOutside rest)
    else if reaches partLimit part then .error .nameTooLong
    else
      match f.files.lookup part with
      | none => .error .notFound
      | some bytes => if rest.isEmpty then .ok bytes else .error .notDirectory

/-- The bytes of the file with a name. -/
def read (f : Folder) (name : String) : Except FileError (List UInt8) :=
  let found :=
    if name = "" then .error .notFound
    else if reaches pathLimit name then .error .nameTooLong
    else if name.toList.head? = some '/' then .error (followOutside (pathParts name))
    else f.follow (pathParts name)
  found.mapError (⟨·, name⟩)

end Folder

end TapeLang.CommandLine
