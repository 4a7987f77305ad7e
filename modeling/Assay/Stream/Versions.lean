import Assay.Entries
import Assay.Stream.Symbol

/-! Version bookkeeping. A name is live from the first time it is read or written; a name that
was never written has version 0. Versions count upward for each name, whatever is restored in
between, so no version is given twice. -/
namespace Assay

structure Versions where
  current : Entries Nat
  counters : Entries Nat

namespace Versions

def empty : Versions := ⟨[], []⟩

def version (v : Versions) (name : String) : Nat := (v.current.get? name).getD 0

def symbolOf (v : Versions) (name : String) : String := symbol name (v.version name)

def touch (v : Versions) (name : String) : Versions :=
  { v with current := v.current.putNew name 0 }

def touchAll (v : Versions) (names : List String) : Versions := names.foldl touch v

def count (v : Versions) (name : String) : Nat := (v.counters.get? name).getD 0

def bump (v : Versions) (name : String) : Versions :=
  let n := v.count name + 1
  ⟨v.current.put name n, v.counters.put name n⟩

def bumpAll (v : Versions) (names : List String) : Versions := names.foldl bump v

def restore (v : Versions) (saved : Entries Nat) : Versions := { v with current := saved }

/-! Histories: any order of steps on one bookkeeping. -/

inductive Step where
  | current (name : String)
  | fresh (name : String)
  | save (label : String)
  | restore (label : String)

inductive Reply where
  | symbol (s : String)
  | saved (versions : Entries Nat)
  | done

structure History where
  versions : Versions
  saved : Entries (Entries Nat)

def History.start : History := ⟨empty, []⟩

/-- A label keeps what was first saved under it. -/
def History.step (h : History) : Step → History × Reply
  | .current name =>
    let v := h.versions.touch name
    ({ h with versions := v }, .symbol (v.symbolOf name))
  | .fresh name =>
    let v := h.versions.bump name
    ({ h with versions := v }, .symbol (v.symbolOf name))
  | .save label =>
    let saved := h.saved.putNew label h.versions.current
    ({ h with saved := saved }, .saved ((saved.get? label).getD []))
  | .restore label =>
    match h.saved.get? label with
    | none => (h, .done)
    | some current => ({ h with versions := h.versions.restore current }, .done)

end Versions

end Assay
