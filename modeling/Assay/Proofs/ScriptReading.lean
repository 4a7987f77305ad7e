import Assay.Proofs.WellSorted

/-! Scripts read from their text. A script is written command by command, a line each, and read back
as these commands once every declared name is a word and so is every atom of an assertion. Then the
text declares the symbols of the script and no others. -/
namespace Assay

open Smt

namespace Sexp

def readAll? (text : String) : Option (List Sexp) := do
  assemble? [] [] (← cut? [] text.toList)

theorem readAll?_lines {es : List Sexp} (spelled : ∀ e ∈ es, e.Spelled) :
    readAll? ("\n".intercalate (es.map toText) ++ "\n") = some es := by
  have line : ("\n" : String).toList = ['\n'] := rfl
  have last : cut? [] ['\n'] = some [] := rfl
  have whole : assemble? [] [] (tokensAll es) = some es := by
    have items := assemble?_tokensAll es [] [] []
    rw [List.append_nil, List.append_nil] at items
    rw [items, assemble?, List.reverse_reverse]
  unfold readAll?
  rw [String.toList_append, line, cut?_items line (.inr rfl) (apart_cons rfl) fun e member _ =>
    (spelled e member).cut?, last]
  simp only [Option.map_some, List.append_nil, Option.bind_eq_bind, Option.bind_some, whole]

def IsSimple (text : String) : Prop :=
  IsWord text ∧ ∀ c ∈ text.toList.head?, Text.isAsciiDigit c = false

def declared? : Sexp → Option String
  | .list [.atom "declare-const", .atom x, _] => some x
  | _ => none

theorem spelled_app {op : String} {arguments : List Sexp} (word : IsWord op)
    (each : ∀ e ∈ arguments, e.Spelled) : (app op arguments).Spelled :=
  .list (List.forall_mem_cons.mpr ⟨.atom word, each⟩)

theorem spelled_conjunction {formulas : List Sexp} (each : ∀ f ∈ formulas, f.Spelled) :
    (conjunction formulas).Spelled := by
  match formulas with
  | [] => exact .atom (by decide +kernel)
  | [f] => exact each f (List.mem_singleton_self f)
  | f :: g :: rest => exact spelled_app (by decide +kernel) each

theorem spelled_refuted {formulas : List Sexp} (each : ∀ f ∈ formulas, f.Spelled) :
    (refuted formulas).Spelled := by
  unfold refuted
  split
  · exact .atom (by decide +kernel)
  · exact spelled_app (by decide +kernel)
      (List.forall_mem_singleton.mpr (spelled_conjunction each))

theorem spelled_equation {a b : String} (first : IsWord a) (second : IsWord b) :
    (equation a b).Spelled :=
  spelled_app (by decide +kernel)
    (List.forall_mem_cons.mpr ⟨.atom first, List.forall_mem_singleton.mpr (.atom second)⟩)

end Sexp

namespace Smt

open Sexp

def VarSort.sexp : VarSort Empty → Sexp
  | .int => .atom "Int"
  | .array => .app "Array" [.atom "Int", .atom "Int"]

theorem VarSort.text_eq (k : VarSort Empty) : k.text = k.sexp.toText := by
  cases k with
  | int => rfl
  | array => decide +kernel
  | stray part => exact part.elim

theorem VarSort.spelled (k : VarSort Empty) : k.sexp.Spelled := by
  have int : (Sexp.atom "Int").Spelled := .atom (by decide +kernel)
  cases k with
  | int => exact int
  | array =>
    exact spelled_app (by decide +kernel)
      (List.forall_mem_cons.mpr ⟨int, List.forall_mem_singleton.mpr int⟩)
  | stray part => exact part.elim

namespace Script

variable {script : Script Empty}

def commands (script : Script Empty) : List Sexp :=
  .app "set-logic" [.atom script.logic] ::
    ((script.declarations.map fun d => .app "declare-const" [.atom d.1, d.2.sexp]) ++
      (script.assertions.map fun a => .app "assert" [a.sexp])) ++
    [.app "check-sat" [], .app "get-model" []]

theorem toText_eq (script : Script Empty) :
    script.toText = "\n".intercalate (script.commands.map Sexp.toText) ++ "\n" := by
  have unary : ∀ (op : String) (e : Sexp),
      (app op [e]).toText = "(" ++ op ++ " " ++ e.toText ++ ")" := by
    intro op e
    simp [app, Sexp.toText, texts, String.append_assoc]
  have binary : ∀ (op : String) (e f : Sexp),
      (app op [e, f]).toText = "(" ++ op ++ " " ++ e.toText ++ " " ++ f.toText ++ ")" := by
    intro op e f
    simp [app, Sexp.toText, texts, String.append_assoc]
  have asks : (app "check-sat" []).toText = "(check-sat)" ∧
      (app "get-model" []).toText = "(get-model)" := by decide +kernel
  unfold toText bareLines assertionTexts commands
  simp only [List.map_append, List.map_cons, List.map_nil, List.map_map, Function.comp_def, unary,
    binary, asks.1, asks.2, VarSort.text_eq, Sexp.toText]
  rfl

theorem declared_commands (script : Script Empty) :
    script.commands.filterMap declared? = script.declarations.keys := by
  have names : (script.declarations.map fun d =>
      Sexp.app "declare-const" [.atom d.1, d.2.sexp]).filterMap declared? =
        script.declarations.keys := by
    rw [List.filterMap_map]
    exact congrFun List.filterMap_eq_map script.declarations
  have none : (script.assertions.map fun a => Sexp.app "assert" [a.sexp]).filterMap declared? =
      [] := by
    rw [List.filterMap_map]
    exact List.filterMap_eq_nil_iff.mpr fun _ _ => rfl
  rw [commands, List.filterMap_append, List.filterMap_cons_none rfl, List.filterMap_append, names,
    none]
  simp only [List.append_nil]
  exact List.append_nil _

theorem readAll?_toText (words : ∀ x ∈ script.declarations.keys, IsWord x)
    (spelled : ∀ a ∈ script.assertions, a.sexp.Spelled) :
    readAll? script.toText = some script.commands := by
  rw [toText_eq]
  refine readAll?_lines ?_
  have logic : IsWord script.logic := by
    unfold logic
    cases script.hasArrays <;> cases script.nonlinear <;> decide +kernel
  simp only [commands, List.cons_append, List.forall_mem_cons, List.forall_mem_append]
  refine ⟨?_, ⟨?_, ?_⟩, ?_⟩
  · exact spelled_app (by decide +kernel) (List.forall_mem_singleton.mpr (.atom logic))
  · intro e member
    obtain ⟨d, declared, rfl⟩ := List.mem_map.mp member
    have name : IsWord d.1 := words d.1 (List.mem_map_of_mem declared)
    exact spelled_app (by decide +kernel)
      (List.forall_mem_cons.mpr ⟨.atom name, List.forall_mem_singleton.mpr d.2.spelled⟩)
  · intro e member
    obtain ⟨a, asserted, rfl⟩ := List.mem_map.mp member
    exact spelled_app (by decide +kernel) (List.forall_mem_singleton.mpr (spelled a asserted))
  · have asks : ∀ op, IsWord op → (app op []).Spelled := fun op word =>
      spelled_app word fun _ member => absurd member List.not_mem_nil
    exact ⟨asks _ (by decide +kernel), asks _ (by decide +kernel),
      fun _ member => absurd member List.not_mem_nil⟩

/-- The text of the script declares its symbols and nothing else. Each of them is read as one
symbol, and none is declared twice. -/
structure ReadsBack (script : Script Empty) : Prop where
  read : ∃ commands, readAll? script.toText = some commands ∧
    commands.filterMap declared? = script.declarations.keys
  simple : ∀ x ∈ script.declarations.keys, IsSimple x
  distinct : script.declarations.keys.Nodup

theorem readsBack (simple : ∀ x ∈ script.declarations.keys, IsSimple x)
    (distinct : script.declarations.keys.Nodup)
    (spelled : ∀ a ∈ script.assertions, a.sexp.Spelled) : script.ReadsBack where
  read := ⟨script.commands, readAll?_toText (fun x declared => (simple x declared).1) spelled,
    script.declared_commands⟩
  simple := simple
  distinct := distinct

end Script

end Smt

end Assay
