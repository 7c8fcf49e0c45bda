import IntervalIndex.Files.Path
import IntervalIndex.Gzip.Member

namespace IntervalIndex.Files

open Records

inductive Found where
  | file (bytes : List UInt8)
  | directory
  | missing
  /-- The path leads on behind a file. -/
  | notDirectory
  /-- A part of the path is longer than a name can be. -/
  | nameTooLong
deriving DecidableEq, Repr

abbrev Lookup := String → Found

/-- Files without subdirectories. Nothing is known of what lies outside. -/
structure Directory where
  files : List (String × List UInt8)

namespace Directory

def longestName : Nat := 255

def isTooLong (name : List Char) : Bool := longestName < (String.ofList name).utf8ByteSize

inductive Place where
  | inside
  | outside
  | file (bytes : List UInt8)

def walk (d : Directory) : Place → List (List Char) → Found
  | .file bytes, [] => .file bytes
  | .inside, [] | .outside, [] => .directory
  | .file _, _ :: _ => .notDirectory
  | place, [] :: path | place, ['.'] :: path => walk d place path
  | _, ['.', '.'] :: path => walk d .outside path
  | .outside, name :: _ => if isTooLong name then .nameTooLong else .missing
  | .inside, name :: path =>
    if isTooLong name then .nameTooLong
    else match d.files.lookup (String.ofList name) with
      | some bytes => walk d (.file bytes) path
      | none => .missing

def look (d : Directory) : Lookup := fun path =>
  if path.isEmpty then .missing
  else d.walk (if path.toList.head? = some '/' then .outside else .inside) (parts path)

end Directory

inductive OpenError where
  | notFound
  | notDirectory
  | nameTooLong
  | zeroCharacter
deriving DecidableEq, Repr

def OpenError.message : OpenError → String
  | notFound => "No such file or directory (os error 2)"
  | notDirectory => "Not a directory (os error 20)"
  | nameTooLong => "File name too long (os error 36)"
  | zeroCharacter => "file name contained an unexpected NUL byte"

def longestPath : Nat := 4095

/-- The bytes of a file as they are. A directory can be opened but not read. A path is refused for
what it is before it is followed. -/
def openPlain (look : Lookup) (path : String) : Except OpenError Stream :=
  if path.toList.contains '\x00' then .error .zeroCharacter
  else if longestPath < path.utf8ByteSize then .error .nameTooLong
  else match look path with
    | .file bytes => .ok (.ofBytes bytes)
    | .directory => .ok (.failed .isDirectory)
    | .missing => .error .notFound
    | .notDirectory => .error .notDirectory
    | .nameTooLong => .error .nameTooLong

def isCompressed (path : String) : Bool := extension? path == some "gz"

def decompress (s : Stream) : Stream :=
  match s.failure with
  | some e => .failed e
  | none => Gzip.stream s.bytes

def openWith (decoder : Stream → Stream) (look : Lookup) (path : String) : Except OpenError Stream :=
  (openPlain look path).map fun s => if isCompressed path then decoder s else s

def openStream : Lookup → String → Except OpenError Stream := openWith decompress

end IntervalIndex.Files
