import RegoPolicy.Policy.Source

/-!
Reading a file by its path. The names in the path are followed one at a time from a folder, so the
first one that cannot be followed says why the file cannot be read.
-/
namespace RegoPolicy.Command

open Policy

/-- Why the bytes of an input could not be had. What the system says beside the known reasons comes
    with its own text. -/
inductive ReadFailure where
  | notFound
  | notDirectory
  | isDirectory
  | nameTooLong
  | nulInName
  | denied
  | notUtf8
  | other (text : String)
  deriving DecidableEq

def ReadFailure.text : ReadFailure → String
  | .notFound => "No such file or directory (os error 2)"
  | .notDirectory => "Not a directory (os error 20)"
  | .isDirectory => "Is a directory (os error 21)"
  | .nameTooLong => "File name too long (os error 36)"
  | .nulInName => "file name contained an unexpected NUL byte"
  | .denied => "Permission denied (os error 13)"
  | .notUtf8 => notUtf8Text
  | .other text => text

inductive Entry where
  | file (bytes : List UInt8)
  | folder
  deriving DecidableEq

/-- Files and folders by their place, the names that lead to them from the root. A path that does
    not begin at the root begins at `start`. -/
structure Files where
  entries : List (List String × Entry)
  start : List String

namespace Files

def longestName : Nat := 255
def longestPath : Nat := 4095

def entry? (f : Files) : List String → Option Entry
  | [] => some .folder
  | place => f.entries.lookup place

/-- Follows one name. Every name asks for a folder to be followed from, the empty one after a last
    slash too. -/
def follow (f : Files) (place : List String) (name : String) :
    Except ReadFailure (List String) :=
  match f.entry? place with
  | none => .error .notFound
  | some (.file _) => .error .notDirectory
  | some .folder =>
    if name = "" ∨ name = "." then .ok place
    else if name = ".." then .ok place.dropLast
    else if longestName < name.utf8ByteSize then .error .nameTooLong
    else if (f.entry? (place ++ [name])).isSome then .ok (place ++ [name])
    else .error .notFound

def read (f : Files) (path : String) : Except ReadFailure (List UInt8) :=
  if '\x00' ∈ path.toList then .error .nulInName
  else if path = "" then .error .notFound
  else if longestPath < path.utf8ByteSize then .error .nameTooLong
  else do
    let start := if path.startsWith "/" then [] else f.start
    let place ← (path.splitOn "/").foldlM f.follow start
    match f.entry? place with
    | some (.file bytes) => .ok bytes
    | some .folder => .error .isDirectory
    | none => .error .notFound

end Files
end RegoPolicy.Command
