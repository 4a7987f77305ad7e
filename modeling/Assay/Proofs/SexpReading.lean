import Assay.Expr.Reader
import Assay.Smt.Sexp

/-! Symbolic expressions read from text. A text is cut into brackets and words, and these are put
together with the lists that are open kept on a stack. What is written is read back as it was, once
all its atoms are words. -/
namespace Assay.Sexp

/-! Words and brackets. -/

def isWordChar (c : Char) : Bool :=
  Text.isNameChar c ||
    ['~', '!', '@', '$', '%', '^', '&', '*', '-', '+', '=', '<', '>', '.', '?', '/'].contains c

inductive Token where
  | opening
  | closing
  | word (text : List Char)

def pending (word : List Char) : List Token := if word.isEmpty then [] else [.word word]

/-- Cuts a text, behind a word that has been begun. -/
def cut? (word : List Char) : List Char → Option (List Token)
  | [] => some (pending word)
  | c :: cs =>
    if isWordChar c then cut? (word ++ [c]) cs
    else if c = '(' then (cut? [] cs).map fun ts => pending word ++ .opening :: ts
    else if c = ')' then (cut? [] cs).map fun ts => pending word ++ .closing :: ts
    else if Text.isBlank c then (cut? [] cs).map fun ts => pending word ++ ts
    else none

/-- Puts tokens together. `items` is the innermost list that is open and `outer` the ones around it,
each with its last item first. -/
def assemble? : List Sexp → List (List Sexp) → List Token → Option (List Sexp)
  | items, [], [] => some items.reverse
  | _, _ :: _, [] => none
  | items, outer, .opening :: ts => assemble? [] (items :: outer) ts
  | items, around :: outer, .closing :: ts => assemble? (.list items.reverse :: around) outer ts
  | _, [], .closing :: _ => none
  | items, outer, .word w :: ts => assemble? (.atom (String.ofList w) :: items) outer ts

def read? (text : String) : Option Sexp := do
  match ← assemble? [] [] (← cut? [] text.toList) with
  | [e] => some e
  | _ => none

/-! What is written is read back. -/

def IsWord (text : String) : Prop := text.toList ≠ [] ∧ ∀ c ∈ text.toList, isWordChar c = true

instance (text : String) : Decidable (IsWord text) :=
  decidable_of_iff ((!text.toList.isEmpty && text.toList.all isWordChar) = true) (by simp [IsWord])

inductive Spelled : Sexp → Prop where
  | atom {text : String} : IsWord text → Spelled (.atom text)
  | list {items : List Sexp} : (∀ e ∈ items, Spelled e) → Spelled (.list items)

mutual

def tokens : Sexp → List Token
  | .atom text => [.word text.toList]
  | .list items => .opening :: (tokensAll items ++ [.closing])

def tokensAll : List Sexp → List Token
  | [] => []
  | e :: rest => e.tokens ++ tokensAll rest

end

mutual

theorem assemble?_tokens (e : Sexp) (items : List Sexp) (outer : List (List Sexp))
    (ts : List Token) :
    assemble? items outer (e.tokens ++ ts) = assemble? (e :: items) outer ts := by
  match e with
  | .atom text =>
    simp only [tokens, List.cons_append, List.nil_append, assemble?, String.ofList_toList]
  | .list inside =>
    simp only [tokens, List.cons_append, List.append_assoc, List.nil_append, assemble?]
    rw [assemble?_tokensAll inside]
    simp only [assemble?, List.append_nil, List.reverse_reverse]

theorem assemble?_tokensAll (es : List Sexp) (items : List Sexp) (outer : List (List Sexp))
    (ts : List Token) :
    assemble? items outer (tokensAll es ++ ts) = assemble? (es.reverse ++ items) outer ts := by
  match es with
  | [] => rfl
  | e :: rest =>
    rw [tokensAll, List.append_assoc, assemble?_tokens e, assemble?_tokensAll rest,
      List.reverse_cons, List.append_assoc]
    rfl

end

theorem cut?_word {cs : List Char} (chars : ∀ c ∈ cs, isWordChar c = true) (word rest : List Char) :
    cut? word (cs ++ rest) = cut? (word ++ cs) rest := by
  induction cs generalizing word with
  | nil => rw [List.nil_append, List.append_nil]
  | cons c cs ih =>
    obtain ⟨first, chars⟩ := List.forall_mem_cons.mp chars
    rw [List.cons_append, cut?, if_pos first, ih chars, List.append_assoc]
    rfl

def Apart (rest : List Char) : Prop := ∀ c ∈ rest.head?, isWordChar c = false

theorem apart_cons {c : Char} {rest : List Char} (sign : isWordChar c = false) :
    Apart (c :: rest) := by
  intro d first
  cases first
  exact sign

theorem cut?_apart {rest : List Char} (apart : Apart rest) (word : List Char) :
    cut? word rest = (cut? [] rest).map fun ts => pending word ++ ts := by
  cases rest with
  | nil => simp [cut?, pending]
  | cons c cs =>
    have other : ¬ isWordChar c = true := by simp [apart c rfl]
    have none : pending [] = [] := rfl
    simp only [cut?, if_neg other, none, List.nil_append]
    repeat' split
    all_goals simp [Function.comp_def]

theorem cut?_blank {c : Char} (blank : c = ' ' ∨ c = '\n') (rest : List Char) :
    cut? [] (c :: rest) = cut? [] rest := by
  rcases blank with rfl | rfl
  all_goals
    change (cut? [] rest).map (fun ts => ts) = cut? [] rest
    exact Option.map_id'

theorem cut?_opening (rest : List Char) :
    cut? [] ('(' :: rest) = (cut? [] rest).map (Token.opening :: ·) := rfl

theorem cut?_closing (rest : List Char) :
    cut? [] (')' :: rest) = (cut? [] rest).map (Token.closing :: ·) := rfl

theorem texts_eq_map (items : List Sexp) : texts items = items.map toText := by
  induction items with
  | nil => rfl
  | cons e items ih => rw [texts, ih, List.map_cons]

theorem cut?_items {gap : String} {c : Char} (one : gap.toList = [c]) (blank : c = ' ' ∨ c = '\n')
    {items : List Sexp} {rest : List Char} (apart : Apart rest)
    (each : ∀ e ∈ items, ∀ rest, Apart rest →
      cut? [] (e.toText.toList ++ rest) = (cut? [] rest).map (e.tokens ++ ·)) :
    cut? [] ((gap.intercalate (items.map toText)).toList ++ rest) =
      (cut? [] rest).map (tokensAll items ++ ·) := by
  have ends : isWordChar c = false := by rcases blank with rfl | rfl <;> rfl
  induction items with
  | nil => simp [tokensAll]
  | cons e items ih =>
    obtain ⟨first, others⟩ := List.forall_mem_cons.mp each
    cases items with
    | nil => simpa [tokensAll] using first rest apart
    | cons f items =>
      rw [List.map_cons, List.map_cons, String.intercalate_cons_cons, String.toList_append,
        String.toList_append, List.append_assoc, List.append_assoc, one, List.singleton_append,
        first _ (apart_cons ends), cut?_blank blank]
      have tail := ih others
      rw [List.map_cons] at tail
      rw [tail, Option.map_map, tokensAll.eq_def (e :: f :: items)]
      simp only [Function.comp_def, List.append_assoc]

/-- The text of an expression is cut into its tokens, whatever follows behind its last word. -/
theorem Spelled.cut? {e : Sexp} (spelled : e.Spelled) {rest : List Char} (apart : Apart rest) :
    cut? [] (e.toText.toList ++ rest) = (cut? [] rest).map (e.tokens ++ ·) := by
  induction spelled generalizing rest with
  | @atom text word =>
    have some : pending text.toList = [.word text.toList] := by simp [pending, word.1]
    rw [toText, cut?_word word.2, List.nil_append, cut?_apart apart, some, tokens]
  | @list items _ ih =>
    have left : ("(" : String).toList = ['('] := rfl
    have right : (")" : String).toList = [')'] := rfl
    rw [toText, texts_eq_map, String.toList_append, String.toList_append, left, right,
      List.append_assoc, List.append_assoc, List.singleton_append, List.singleton_append,
      cut?_opening, cut?_items rfl (.inl rfl) (apart_cons rfl) fun e member rest => ih e member,
      cut?_closing, Option.map_map, Option.map_map, tokens]
    simp only [Function.comp_def, List.cons_append, List.append_assoc, List.nil_append]

theorem read?_toText {e : Sexp} (spelled : e.Spelled) : read? e.toText = some e := by
  have apart : Apart [] := nofun
  have cuts := spelled.cut? apart
  rw [List.append_nil] at cuts
  have whole := assemble?_tokens e [] [] []
  unfold read?
  rw [cuts]
  simp only [Sexp.cut?, pending, List.isEmpty_nil, if_true, Option.map_some, Option.bind_eq_bind,
    Option.bind_some, whole, assemble?, List.reverse_singleton]

example : (read? "(= x_1 0) y_1").isNone ∧ (read? "(= x_1 (f 0)").isNone := by decide +kernel

end Assay.Sexp
