/-
A directory of files as a value. Paths lead through directories by
their parts between slashes; the directory has no others inside it, and
of those around it nothing is known but that they are directories.
-/
import TapeAsm.Files.Error

namespace TapeAsm

-- =========================================================== contents

/-- What a file holds. -/
inductive Content where
  | text (value : String)
  /-- Bytes that are not the encoding of a text. -/
  | binary (bytes : List UInt8)
deriving DecidableEq

namespace Content

/-- The content that is stored as the given bytes. -/
def ofBytes (bytes : ByteArray) : Content :=
  match String.fromUTF8? bytes with
  | some value => .text value
  | none => .binary bytes.toList

/-- The text that a file holds. -/
def toText : Content → Except FileError String
  | text value => .ok value
  | binary _ => .error .notText

end Content

-- ============================================================== paths

/-- The most bytes that the name of a file can have. -/
def maxNameBytes : Nat := 255

/-- The most bytes that a path can have. -/
def maxPathBytes : Nat := 4095

/-- The parts of a path between its slashes. -/
def pathParts (path : String) : List String :=
  path.splitOn "/"

/-- What goes wrong where a name is looked up in vain: it is too long
to be one, or no file has it. -/
def lookupError (name : String) : FileError :=
  if name.utf8ByteSize ≤ maxNameBytes then .notFound else .nameTooLong

/-- Where a path leads. One that ends in a slash asks for a directory
of the name before it. -/
inductive Place where
  /-- The directory itself. -/
  | here
  /-- One of the directories around it. -/
  | around
  /-- A file in the directory. -/
  | file (name : String) (asDirectory : Bool)
  /-- A name that no file has, inside of the directory or around it. -/
  | vacant (inside : Bool) (name : String) (asDirectory : Bool)
deriving DecidableEq

/-- A directory of named files. -/
structure Volume where
  files : List (String × Content)
deriving DecidableEq

namespace Volume

/-- The content of the file with a given name. -/
def content? (v : Volume) (name : String) : Option Content :=
  v.files.lookup name

/-- One part further along a path. -/
def enter (v : Volume) (place : Place) (part : String) :
    Except FileError Place :=
  match place with
  | .here =>
    if part = "" || part = "." then .ok .here
    else if part = ".." then .ok .around
    else if (v.content? part).isSome then .ok (.file part false)
    else .ok (.vacant true part false)
  | .around =>
    if part = "" || part = "." || part = ".." then .ok .around
    else .ok (.vacant false part false)
  | .file name _ =>
    if part = "" then .ok (.file name true) else .error .notDirectory
  | .vacant inside name _ =>
    if part = "" then .ok (.vacant inside name true)
    else .error (lookupError name)

/-- Where a path leads; one that begins with a slash begins outside. -/
def resolve (v : Volume) (path : String) : Except FileError Place :=
  if maxPathBytes < path.utf8ByteSize then .error .nameTooLong
  else
    match pathParts path with
    | "" :: part :: parts => (part :: parts).foldlM v.enter .around
    | parts => parts.foldlM v.enter .here

/-- The text of the file that a path leads to. -/
def readText (v : Volume) (path : String) : Except FileError String := do
  match ← v.resolve path with
  | .here => throw .isDirectory
  | .around => throw .isDirectory
  | .vacant _ name _ => throw (lookupError name)
  | .file _ true => throw .notDirectory
  | .file name false =>
    match v.content? name with
    | some content => content.toText
    | none => throw .notFound

/-- The directory with one file replaced or added. -/
def put (v : Volume) (name : String) (content : Content) : Volume :=
  if (v.content? name).isSome then
    ⟨v.files.map fun file =>
      if file.1 = name then (name, content) else file⟩
  else ⟨v.files ++ [(name, content)]⟩

/-- The directory after a text has been written to where a path leads.
No file is made around it, none in the place of a directory, and none
with a name that is too long. -/
def writeText (v : Volume) (path text : String) :
    Except FileError Volume := do
  match ← v.resolve path with
  | .here => throw .isDirectory
  | .around => throw .isDirectory
  | .vacant _ _ true => throw .isDirectory
  | .vacant false name false => throw (lookupError name)
  | .vacant true name false =>
    if name.utf8ByteSize ≤ maxNameBytes then
      return v.put name (.text text)
    else throw .nameTooLong
  | .file _ true => throw .isDirectory
  | .file name false => return v.put name (.text text)

/-- The files of a directory that are not, or not with this content, in
another one. -/
def newFiles (v earlier : Volume) : List (String × Content) :=
  v.files.filter fun file => earlier.content? file.1 ≠ some file.2

end Volume

end TapeAsm
