import Assay.Log
import Assay.Text.Blank
import Assay.Text.Utf8

/-! Files as an analysis sees them: bytes under a path, or the cause why there are none. Relative
paths start at the current directory, whose own path is absolute. -/
namespace Assay

structure Disk where
  bytes : String → Except DiskCause (List UInt8)
  directory : String

namespace Disk

def charParts : List Char → List (List Char)
  | [] => [[]]
  | '/' :: rest => [] :: charParts rest
  | c :: rest =>
    match charParts rest with
    | [] => [[c]]
    | part :: parts => (c :: part) :: parts

def parts (path : String) : List String := (charParts path.toList).map String.ofList

def join (parts : List String) : String := "/".intercalate parts

def isAbsolute (path : String) : Bool := path.toList.head? == some '/'

/-- Parts without those that stay in place, each step up taking the part before it away. -/
def normalize (done : List String) : List String → List String
  | [] => done
  | part :: rest =>
    if part = "" || part = "." then normalize done rest
    else if part = ".." then normalize done.dropLast rest
    else normalize (done ++ [part]) rest

def absolute (directory path : String) : List String :=
  normalize [] (if isAbsolute path then parts path else parts directory ++ parts path)

def isFile (d : Disk) (path : String) : Bool :=
  match d.bytes path with
  | .ok _ => true
  | .error (.other isFile ..) => isFile
  | .error _ => false

/-- A text file, with every line end in its plain form. -/
def read (d : Disk) (path : String) : Except Error String := do
  if let some fault := Text.halfFault? 0 path.toList then throw (.halves fault)
  if path.toList.contains '\x00' then throw .nullByte
  match d.bytes path with
  | .error cause => throw (.disk cause path)
  | .ok bytes =>
    match Text.readUtf8 bytes with
    | .error fault => throw (.bytes fault)
    | .ok text => return String.ofList (Text.withPlainLineEnds text.toList)

end Disk

end Assay
