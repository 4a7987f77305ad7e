import Assay.Command.Word
import Assay.Command.Fault
import Assay.Error

/-! What a list of words asks for, in order. The work on it stops at the first fault. -/
namespace Assay.Command

/-- What is given for an option or a name. Two dashes in its place leave it out,
and an option that takes none has none. -/
inductive Given (α : Type) where
  | value (a : α)
  | leftOut
  deriving DecidableEq, Repr

def Given.ofText (text : String) : Given String := if text = "--" then .leftOut else .value text

inductive Event where
  | option (flag : Flag) (value : Given String)
  | name (role : String) (text : Given String)
  | extra (text : String)
  | fault (f : Fault)

/-- Short options that stand together: those in front, and the last with what is attached to it.
Of a value that an option cannot take, nothing is left. -/
def openCluster (flags : List Flag) (flag : Flag) (isLong : Bool) :
    List Char → Except Fault (List Flag × Flag × Option String)
  | [] => if flag.takesValue then .ok ([], flag, some "") else .error (.valueUnused flag "")
  | c :: rest =>
    if flag.takesValue then .ok ([], flag, some (String.ofList (c :: rest)))
    else if isLong then .error (.valueUnused flag (String.ofList (c :: rest)))
    else
      match lookup? flags ['-', c] with
      | none => .error (.valueUnused flag (String.ofList (c :: rest)))
      | some next =>
        if rest.isEmpty then .ok ([flag], next, none)
        else do
          let (front, last) ← openCluster flags next false rest
          return (flag :: front, last)

def cluster (flags : List Flag) (flag : Flag) (isLong : Bool) (attached : Option (List Char)) :
    Except Fault (List Flag × Flag × Option String) :=
  match attached with
  | none => .ok ([], flag, none)
  | some cs => openCluster flags flag isLong cs

def optionEvents (front : List Flag) (last : Flag) (value : Given String) : List Event :=
  front.map (fun f => .option f .leftOut) ++ [.option last value]

/-- Reads words for the names in `roles`. `taken` says that the word before was taken as a name;
two dashes behind it, or in front of the next, count for nothing. -/
def events (flags : List Flag) (roles : List String) (taken : Bool) : List Word → List Event
  | [] => if roles.isEmpty then [] else [.fault (.required roles)]
  | .ambiguous text options :: _ => [.fault (.ambiguous text options)]
  | .unknown text :: rest => .extra text :: events flags roles false rest
  | .dashes :: rest =>
    if taken then events flags roles false rest
    else
      match roles, rest with
      | role :: roles, .plain text :: rest =>
        .name role (.value text) :: events flags roles true rest
      | roles, rest => .extra "--" :: events flags roles false rest
  | .plain text :: rest =>
    match roles with
    | role :: roles => .name role (.ofText text) :: events flags roles true rest
    | [] => .extra text :: events flags [] false rest
  | .option flag isLong attached :: rest =>
    match cluster flags flag isLong attached with
    | .error f => [.fault f]
    | .ok (front, last, some value) =>
      optionEvents front last (.ofText value) ++ events flags roles false rest
    | .ok (front, last, none) =>
      if last.takesValue then
        match rest with
        | .plain value :: rest =>
          optionEvents front last (.ofText value) ++ events flags roles false rest
        | _ => [.fault (.valueMissing last)]
      else optionEvents front last .leftOut ++ events flags roles false rest

end Assay.Command
