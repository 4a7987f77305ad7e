import Assay.Proofs.Readable
import Assay.Proofs.SexpReading
import Assay.Smt.Meaning
import Mathlib.Data.List.Forall2

/-! Sorts and values of symbolic expressions. A sort is worked out from the sorts of the symbols and
what each operator takes, a value from the values of the symbols and what each operator does. An
expression has a value exactly where it has a sort, and the value is of that sort. -/
namespace Assay.Sexp

inductive Kind where
  | bool
  | int
  | array
  deriving DecidableEq

def isNumeral : List Char → Bool
  | [] => false
  | ['0'] => true
  | c :: cs => c != '0' && (c :: cs).all Text.isAsciiDigit

def constant? (text : String) : Option Kind :=
  if isNumeral text.toList then some .int
  else if text = "true" ∨ text = "false" then some .bool
  else none

def operators : List String :=
  ["=", "distinct", "<", "<=", ">", ">=", "+", "-", "*", "div", "ite", "select", "not", "and", "or",
    "=>"]

def takes (k : Kind) (n : Nat) (arguments : List Kind) : Bool :=
  n ≤ arguments.length && arguments.all (· = k)

/-- The sort of an operator's result, if it takes arguments of these sorts. -/
def result? (op : String) (arguments : List Kind) : Option Kind :=
  match op with
  | "=" | "distinct" =>
    match arguments with
    | k :: more => if takes k 1 more then some .bool else none
    | [] => none
  | "<" | "<=" | ">" | ">=" => if takes .int 2 arguments then some .bool else none
  | "+" | "*" | "div" => if takes .int 2 arguments then some .int else none
  | "-" => if takes .int 1 arguments then some .int else none
  | "ite" =>
    match arguments with
    | [.bool, j, k] => if j = k then some k else none
    | _ => none
  | "select" => if arguments = [.array, .int] then some .int else none
  | "not" => if arguments = [.bool] then some .bool else none
  | "and" | "or" | "=>" => if takes .bool 2 arguments then some .bool else none
  | _ => none

mutual

def sort? (declared : String → Option Kind) : Sexp → Option Kind
  | .atom text => (constant? text).or (declared text)
  | .list (.atom op :: arguments) => (sorts? declared arguments).bind (result? op)
  | .list _ => none

def sorts? (declared : String → Option Kind) : List Sexp → Option (List Kind)
  | [] => some []
  | e :: rest => do return (← e.sort? declared) :: (← sorts? declared rest)

end

mutual

def words : Sexp → List String
  | .atom text => [text]
  | .list items => wordsAll items

def wordsAll : List Sexp → List String
  | [] => []
  | e :: rest => e.words ++ wordsAll rest

end

theorem mem_operators_of_result? {op : String} {arguments : List Kind} {k : Kind}
    (found : result? op arguments = some k) : op ∈ operators := by
  unfold result? at found
  split at found <;> simp_all [operators]

def Accounted (declared : String → Option Kind) (word : String) : Prop :=
  word ∈ operators ∨ (constant? word).isSome ∨ (declared word).isSome

mutual

theorem accounted_of_sort? {declared : String → Option Kind} {e : Sexp} {k : Kind}
    (found : e.sort? declared = some k) : ∀ word ∈ e.words, Accounted declared word := by
  match e with
  | .atom text =>
    refine List.forall_mem_singleton.mpr (.inr ?_)
    rw [sort?] at found
    cases constant : constant? text with
    | some j => exact .inl rfl
    | none =>
      rw [constant, Option.none_or] at found
      exact .inr (Option.isSome_of_eq_some found)
  | .list (.atom op :: arguments) =>
    rw [sort?] at found
    obtain ⟨kinds, each, result⟩ := Option.bind_eq_some_iff.mp found
    exact List.forall_mem_cons.mpr
      ⟨.inl (mem_operators_of_result? result), accounted_of_sorts? each⟩
  | .list [] => simp [sort?] at found
  | .list (.list items :: rest) => simp [sort?] at found

theorem accounted_of_sorts? {declared : String → Option Kind} {es : List Sexp} {ks : List Kind}
    (found : sorts? declared es = some ks) : ∀ word ∈ wordsAll es, Accounted declared word := by
  match es with
  | [] => exact nofun
  | e :: rest =>
    rw [sorts?] at found
    obtain ⟨k, first, found⟩ := Option.bind_eq_some_iff.mp found
    obtain ⟨ks, others, -⟩ := Option.bind_eq_some_iff.mp found
    exact List.forall_mem_append.mpr ⟨accounted_of_sort? first, accounted_of_sorts? others⟩

end

theorem isWord_operator : ∀ op ∈ operators, IsWord op := by decide +kernel

/-! Values. -/

inductive Datum where
  | bool (b : Bool)
  | int (n : Int)
  | array (f : Int → Int)

namespace Datum

def kind : Datum → Kind
  | .bool _ => .bool
  | .int _ => .int
  | .array _ => .array

def toBool : Datum → Bool
  | .bool b => b
  | _ => false

def toInt : Datum → Int
  | .int n => n
  | _ => 0

def ofSymbol (v : Valuation) (x : String) : Kind → Datum
  | .bool => .bool (v.int x != 0)
  | .int => .int (v.int x)
  | .array => .array (v.array x)

theorem kind_ofSymbol (v : Valuation) (x : String) (k : Kind) : (ofSymbol v x k).kind = k := by
  cases k <;> rfl

end Datum

def constantValue? (text : String) : Option Datum :=
  if isNumeral text.toList then some (.int (Text.ofDigits text.toList))
  else if text = "true" then some (.bool true)
  else if text = "false" then some (.bool false)
  else none

theorem constant?_eq (text : String) :
    constant? text = (constantValue? text).map Datum.kind := by
  unfold constant? constantValue?
  by_cases numeral : isNumeral text.toList = true
  · rw [if_pos numeral, if_pos numeral]
    rfl
  · rw [if_neg numeral, if_neg numeral]
    by_cases yes : text = "true"
    · rw [if_pos (.inl yes), if_pos yes]
      rfl
    · rw [if_neg yes]
      by_cases no : text = "false"
      · rw [if_pos (.inr no), if_pos no]
        rfl
      · rw [if_neg (not_or.mpr ⟨yes, no⟩), if_neg no]
        rfl

def leftward (f : Int → Int → Int) : List Int → Int
  | [] => 0
  | n :: ns => ns.foldl f n

/-- One number alone is negated. -/
def difference : List Int → Int
  | [n] => -n
  | ns => leftward (· - ·) ns

def implied : List Bool → Bool
  | [] => true
  | [b] => b
  | b :: bs => !b || implied bs

def chosen : List Datum → Datum
  | [.bool c, x, y] => if c then x else y
  | _ => .bool false

def element : List Datum → Int
  | [.array f, .int i] => f i
  | _ => 0

theorem kind_chosen {c x y : Datum} (bool : c.kind = .bool) (same : x.kind = y.kind) :
    (chosen [c, x, y]).kind = y.kind := by
  cases c with
  | bool c => cases c with
    | true => exact same
    | false => rfl
  | int n | array f => contradiction

open Classical in
/-- What an operator gives for arguments that it takes. Arrays are equal where all their elements
are, which nothing can compute. -/
noncomputable def operate (v : Valuation) (op : String) (xs : List Datum) : Datum :=
  let numbers := xs.map Datum.toInt
  let truths := xs.map Datum.toBool
  match op with
  | "=" => .bool (xs.IsChain (· = ·))
  | "distinct" => .bool (xs.Pairwise (· ≠ ·))
  | "<" => .bool (numbers.IsChain (· < ·))
  | "<=" => .bool (numbers.IsChain (· ≤ ·))
  | ">" => .bool (numbers.IsChain (· > ·))
  | ">=" => .bool (numbers.IsChain (· ≥ ·))
  | "+" => .int (leftward (· + ·) numbers)
  | "*" => .int (leftward (· * ·) numbers)
  | "div" => .int (leftward (Smt.divide v) numbers)
  | "-" => .int (difference numbers)
  | "ite" => chosen xs
  | "select" => .int (element xs)
  | "not" => .bool (!truths.headD false)
  | "and" => .bool (truths.all id)
  | "or" => .bool (truths.any id)
  | _ => .bool (implied truths)

theorem kind_operate (v : Valuation) {op : String} {xs : List Datum} {k : Kind}
    (found : result? op (xs.map Datum.kind) = some k) : (operate v op xs).kind = k := by
  unfold result? at found
  split at found
  case h_11 =>
    split at found
    · rename_i j l kinds
      simp only [List.map_eq_cons_iff, List.map_eq_nil_iff] at kinds
      obtain ⟨c, _, rfl, isBool, x, _, rfl, rfl, y, _, rfl, rfl, rfl⟩ := kinds
      split at found
      · rename_i same
        cases found
        exact kind_chosen isBool same
      · contradiction
    · contradiction
  all_goals
    repeat' split at found
    all_goals cases found
    all_goals rfl

mutual

noncomputable def eval? (declared : String → Option Kind) (v : Valuation) : Sexp → Option Datum
  | .atom text => (constantValue? text).or ((declared text).map (Datum.ofSymbol v text))
  | .list (.atom op :: arguments) => do
    let xs ← evals? declared v arguments
    if (result? op (xs.map Datum.kind)).isSome then some (operate v op xs) else none
  | .list _ => none

noncomputable def evals? (declared : String → Option Kind) (v : Valuation) :
    List Sexp → Option (List Datum)
  | [] => some []
  | e :: rest => do return (← e.eval? declared v) :: (← evals? declared v rest)

end

mutual

/-- An expression has a value where it has a sort, and the value is of that sort. -/
theorem sort?_eq (declared : String → Option Kind) (v : Valuation) (e : Sexp) :
    e.sort? declared = (e.eval? declared v).map Datum.kind := by
  match e with
  | .atom text =>
    rw [sort?, eval?, constant?_eq]
    cases constantValue? text with
    | some x => rfl
    | none => simp [Function.comp_def, Datum.kind_ofSymbol]
  | .list (.atom op :: arguments) =>
    rw [sort?, eval?, sorts?_eq declared v arguments]
    cases evals? declared v arguments with
    | none => rfl
    | some xs =>
      cases found : result? op (xs.map Datum.kind) with
      | none => simp [found]
      | some k => simp [found, kind_operate v found]
  | .list [] => rfl
  | .list (.list items :: rest) => rfl

theorem sorts?_eq (declared : String → Option Kind) (v : Valuation) (es : List Sexp) :
    sorts? declared es = (evals? declared v es).map (List.map Datum.kind) := by
  match es with
  | [] => rfl
  | e :: rest =>
    rw [sorts?, evals?, sort?_eq declared v e, sorts?_eq declared v rest]
    cases e.eval? declared v <;> cases evals? declared v rest <;> rfl

end

/-- The expression can be read from its text, and it has the value. -/
structure Denotes (declared : String → Option Kind) (v : Valuation) (e : Sexp) (x : Datum) :
    Prop where
  spelled : e.Spelled
  value : e.eval? declared v = some x

section

variable {declared : String → Option Kind} {v : Valuation} {op : String} {e f g : Sexp}
  {x y z : Datum}

theorem Denotes.sort (denotes : Denotes declared v e x) : e.sort? declared = some x.kind := by
  rw [sort?_eq declared v, denotes.value]
  rfl

open Classical in
theorem Denotes.of_iff {b : Bool} {P : Prop} (denotes : Denotes declared v e (.bool b))
    (means : b = true ↔ P) : Denotes declared v e (.bool P) := by
  have same : b = decide P := by
    rw [Bool.eq_iff_iff, decide_eq_true_iff]
    exact means
  exact same ▸ denotes

theorem denotes_app {arguments : List Sexp} {xs : List Datum} {k : Kind}
    (each : List.Forall₂ (Denotes declared v) arguments xs)
    (taken : result? op (xs.map Datum.kind) = some k) :
    Denotes declared v (.app op arguments) (operate v op xs) := by
  have parts : (∀ e ∈ arguments, e.Spelled) ∧ evals? declared v arguments = some xs := by
    clear taken
    induction each with
    | nil => exact ⟨nofun, rfl⟩
    | cons first _ ih =>
      refine ⟨List.forall_mem_cons.mpr ⟨first.spelled, ih.1⟩, ?_⟩
      rw [evals?, first.value, ih.2]
      rfl
  have word := isWord_operator op (mem_operators_of_result? taken)
  constructor
  · exact .list (List.forall_mem_cons.mpr ⟨.atom word, parts.1⟩)
  · simp [app, eval?, parts.2, taken]

theorem denotes_unary {k : Kind} (first : Denotes declared v e x)
    (taken : result? op [x.kind] = some k) (gives : operate v op [x] = z) :
    Denotes declared v (.app op [e]) z :=
  gives ▸ denotes_app (.cons first .nil) taken

theorem denotes_binary {k : Kind} (first : Denotes declared v e x) (second : Denotes declared v f y)
    (taken : result? op [x.kind, y.kind] = some k) (gives : operate v op [x, y] = z) :
    Denotes declared v (.app op [e, f]) z :=
  gives ▸ denotes_app (.cons first (.cons second .nil)) taken

open Classical in
theorem denotes_equal (first : Denotes declared v e x) (second : Denotes declared v f y)
    (same : x.kind = y.kind) : Denotes declared v (.app "=" [e, f]) (.bool (x = y)) := by
  refine denotes_binary (k := .bool) first second ?_ ?_
  · simp [result?, takes, same]
  · simp [operate]

theorem denotes_ite {c : Bool} (cond : Denotes declared v e (.bool c))
    (first : Denotes declared v f x) (second : Denotes declared v g y) (same : x.kind = y.kind) :
    Denotes declared v (.app "ite" [e, f, g]) (if c then x else y) := by
  refine denotes_app (k := y.kind) (.cons cond (.cons first (.cons second .nil))) ?_
  have bool : (Datum.bool c).kind = .bool := rfl
  simp [result?, same, bool]

end

/-! Constants and symbols. -/

/-- A word that stands for nothing but what it is declared as. -/
structure IsSymbol (word : String) : Prop where
  spelled : IsWord word
  constant : constant? word = none
  operator : word ∉ operators

theorem isWordChar_of_isNameChar {c : Char} (name : Text.isNameChar c = true) :
    isWordChar c = true := by
  rw [isWordChar, name, Bool.true_or]

theorem toDigits_cons {n : Nat} (positive : 0 < n) :
    ∃ c cs, Nat.toDigits 10 n = c :: cs ∧ c ≠ '0' := by
  induction n using Nat.strongRecOn with
  | ind n ih =>
    by_cases small : n < 10
    · have digits : ∀ d < 10, 0 < d → d.digitChar ≠ '0' := by decide
      exact ⟨n.digitChar, [], Nat.toDigits_of_lt_base small, digits n small positive⟩
    · obtain ⟨c, cs, digits, first⟩ := ih (n / 10) (by omega) (by omega)
      rw [Nat.toDigits_of_base_le (by decide) (by omega), digits]
      exact ⟨c, cs ++ _, rfl, first⟩

theorem isNumeral_toDigits (n : Nat) : isNumeral (Nat.toDigits 10 n) = true := by
  rcases Nat.eq_zero_or_pos n with rfl | positive
  · rfl
  · obtain ⟨c, cs, digits, first⟩ := toDigits_cons positive
    have all : (c :: cs).all Text.isAsciiDigit = true := by
      rw [← digits, List.all_eq_true]
      exact fun d member => Text.isAsciiDigit_toDigits member
    rw [digits]
    unfold isNumeral
    split
    · contradiction
    · rfl
    · rename_i same
      cases same
      simp [first, all]

theorem isAsciiDigit_of_isNumeral {cs : List Char} (numeral : isNumeral cs = true) :
    ∀ c ∈ cs, Text.isAsciiDigit c = true := by
  unfold isNumeral at numeral
  split at numeral
  · contradiction
  · exact List.forall_mem_singleton.mpr rfl
  · rw [Bool.and_eq_true, List.all_eq_true] at numeral
    exact numeral.2

theorem denotes_truth (declared : String → Option Kind) (v : Valuation) (b : Bool) :
    Denotes declared v (.atom (toString b)) (.bool b) := by
  cases b with
  | true => exact ⟨.atom (by decide +kernel), rfl⟩
  | false => exact ⟨.atom (by decide +kernel), rfl⟩

theorem denotes_numeral (declared : String → Option Kind) (v : Valuation) (n : Nat) :
    Denotes declared v (.atom (toString n)) (.int n) := by
  have spells : (toString n).toList = Nat.toDigits 10 n := String.toList_ofList
  constructor
  · refine .atom ⟨?_, ?_⟩
    · rw [spells]
      exact Nat.toDigits_ne_nil
    · rw [spells]
      exact fun c member => isWordChar_of_isNameChar (Text.isNameChar_toDigits member)
  · rw [eval?, constantValue?, spells, if_pos (isNumeral_toDigits n), Text.ofDigits_toDigits]
    rfl

theorem denotes_symbol {declared : String → Option Kind} (v : Valuation) {x : String} {k : Kind}
    (symbol : IsSymbol x) (found : declared x = some k) :
    Denotes declared v (.atom x) (.ofSymbol v x k) := by
  have constant : constantValue? x = none := by
    rw [← Option.map_eq_none_iff, ← constant?_eq]
    exact symbol.constant
  constructor
  · exact .atom symbol.spelled
  · rw [eval?, constant, found]
    rfl

theorem isSymbol_of_lowLine {word : String} (spelled : IsWord word) (lowLine : '_' ∈ word.toList) :
    IsSymbol word := by
  have others : ∀ word ∈ "true" :: "false" :: operators, '_' ∉ word.toList := by decide +kernel
  have other : word ∉ "true" :: "false" :: operators := fun member => others _ member lowLine
  have number : ¬ isNumeral word.toList = true := fun numeral =>
    absurd (isAsciiDigit_of_isNumeral numeral '_' lowLine) (by decide)
  simp only [List.mem_cons, not_or] at other
  constructor
  · exact spelled
  · rw [constant?, if_neg number]
    simp [other.1, other.2.1]
  · exact other.2.2

theorem isSymbol_version {x : String} (name : Text.isName x.toList = true) (n : Nat) :
    IsSymbol (symbol x n) := by
  have lowLine : '_' ∈ (symbol x n).toList := by simp [symbol_toList]
  refine isSymbol_of_lowLine ⟨List.ne_nil_of_mem lowLine, fun d member => ?_⟩ lowLine
  apply isWordChar_of_isNameChar
  rw [symbol_toList] at member
  rcases List.mem_append.mp member with inName | behind
  · exact Text.isNameChar_of_isName name d inName
  · rcases List.mem_cons.mp behind with rfl | inDigits
    · rfl
    · exact Text.isNameChar_toDigits inDigits

end Assay.Sexp
