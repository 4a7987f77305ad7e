import Assay.Disk.Basic

/-! A disk whose files are listed. Paths are lists of parts from the root on; the directories are
those listed and all that lie above something. -/
namespace Assay

structure Tree where
  files : List (List String × List UInt8)
  dirs : List (List String)

namespace Tree

inductive Node where
  | file (bytes : List UInt8)
  | dir

def node? (t : Tree) (path : List String) : Option Node :=
  match t.files.find? fun f => f.1 = path with
  | some f => some (.file f.2)
  | none =>
    if t.files.any (fun f => path.isPrefixOf f.1) || t.dirs.any (fun d => path.isPrefixOf d)
    then some .dir
    else none

/-- Follows a path from a directory. A file stands only at its end. -/
def walk (t : Tree) (here : List String) : List String → Except DiskCause Node
  | [] => .ok .dir
  | part :: rest =>
    if part = "" || part = "." then t.walk here rest
    else if part = ".." then t.walk here.dropLast rest
    else if 255 < Text.byteSize part then .error .longName
    else
      match t.node? (here ++ [part]) with
      | none => .error .missing
      | some .dir => t.walk (here ++ [part]) rest
      | some (.file bytes) => if rest.isEmpty then .ok (.file bytes) else .error .notDirectory

def bytes (t : Tree) (directory : List String) (path : String) :
    Except DiskCause (List UInt8) :=
  if path.isEmpty then .error .missing
  else if 4095 < Text.byteSize path then .error .longName
  else
    match t.walk (if Disk.isAbsolute path then [] else directory) (Disk.parts path) with
    | .error cause => .error cause
    | .ok .dir => .error .isDirectory
    | .ok (.file bytes) => .ok bytes

def disk (t : Tree) (directory : List String) : Disk :=
  ⟨t.bytes directory, "/" ++ Disk.join directory⟩

end Tree

end Assay
