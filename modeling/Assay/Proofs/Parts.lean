import Assay.Proofs.Readable
import Assay.Proofs.Rows

/-! The parts of a text. What reading takes a text apart into is the text again, once the words,
signs and blanks that separate the parts are put back between them. -/
namespace Assay

namespace Text

theorem trimLeft_parts (cs : List Char) : ∃ gap, cs = gap ++ trimLeft cs ∧ AllBlank gap :=
  ⟨cs.takeWhile isBlank, List.takeWhile_append_dropWhile.symm,
    fun _ member => List.mem_takeWhile_imp member⟩

theorem trim_inside (cs : List Char) : trim cs <:+: cs := by
  obtain ⟨front, back, parts, -⟩ := trim_parts cs
  exact ⟨front, back, parts.symm⟩

theorem splitName?_parts {cs name rest : List Char} (split : splitName? cs = some (name, rest)) :
    cs = name ++ rest := by
  unfold splitName? at split
  split at split
  · contradiction
  · split at split
    · cases split
      rw [List.cons_append, List.takeWhile_append_dropWhile]
    · contradiction

end Text

namespace Expr

theorem untilClosed_parts {depth : Nat} {cs inside rest : List Char}
    (closes : untilClosed depth cs = some (inside, rest)) : cs = inside ++ ']' :: rest := by
  induction cs generalizing depth inside with
  | nil => exact nomatch closes
  | cons c cs ih =>
    have passes : ∀ next,
        (untilClosed next cs).map (fun p => (c :: p.1, p.2)) = some (inside, rest) →
          c :: cs = inside ++ ']' :: rest := by
      intro next found
      obtain ⟨p, later, same⟩ := Option.map_eq_some_iff.mp found
      cases same
      rw [ih later]
      rfl
    unfold untilClosed at closes
    split at closes
    · exact passes _ closes
    · split at closes
      · rename_i closing
        split at closes
        · cases closes
          rw [closing]
          rfl
        · exact passes _ closes
      · exact passes _ closes

theorem splitRead?_parts {cs name index : List Char}
    (found : splitRead? cs = some (name, index)) :
    ∃ gap, cs = name ++ (gap ++ '[' :: (index ++ [']'])) ∧ Text.AllBlank gap := by
  unfold splitRead? at found
  split at found
  · contradiction
  · rename_i _ rest named
    obtain ⟨gap, parts, blank⟩ := Text.trimLeft_parts rest
    split at found
    · rename_i _ opened
      split at found
      · rename_i closed
        cases found
        refine ⟨gap, ?_, blank⟩
        rw [Text.splitName?_parts named, parts, opened, untilClosed_parts closed]
      · contradiction
    · contradiction

end Expr

theorem matchAssign?_parts {cs name value : List Char}
    (found : matchAssign? cs = some (name, value)) :
    ∃ gap, cs = name ++ (gap ++ ':' :: '=' :: value) ∧ Text.AllBlank gap := by
  unfold matchAssign? at found
  obtain ⟨⟨x, rest⟩, named, found⟩ := Option.bind_eq_some_iff.mp found
  obtain ⟨gap, parts, blank⟩ := Text.trimLeft_parts rest
  dsimp only at found
  split at found
  · rename_i assigns
    cases found
    refine ⟨gap, ?_, blank⟩
    rw [Text.splitName?_parts named, parts, assigns]
  · contradiction

theorem dropSemicolons_parts (cs : List Char) :
    ∃ marks, cs = dropSemicolons cs ++ marks ∧ ∀ c ∈ marks, c = ';' := by
  have parts := List.takeWhile_append_dropWhile (p := (· == ';')) (l := cs.reverse)
  refine ⟨(cs.reverse.takeWhile (· == ';')).reverse, ?_, fun c member => ?_⟩
  · unfold dropSemicolons
    rw [← List.reverse_append, parts, List.reverse_reverse]
  · simpa using List.mem_takeWhile_imp (List.mem_reverse.mp member)

theorem splitSemicolon?_parts {cs before rest : List Char}
    (found : splitSemicolon? cs = some (before, rest)) : cs = before ++ ';' :: rest := by
  induction cs generalizing before with
  | nil => exact nomatch found
  | cons c cs ih =>
    rw [splitSemicolon?] at found
    split at found
    · rename_i mark
      cases found
      rw [mark]
      rfl
    · obtain ⟨p, later, same⟩ := Option.map_eq_some_iff.mp found
      cases same
      rw [ih later]
      rfl

theorem splitHead?_parts {cs inside chunk : List Char}
    (found : splitHead? cs = some (inside, chunk)) :
    ∃ gap, cs = inside ++ ')' :: (gap ++ '\x7b' :: chunk) ∧ Text.AllBlank gap := by
  induction cs generalizing inside with
  | nil => exact nomatch found
  | cons c cs ih =>
    have further : (splitHead? cs).map (fun p => (c :: p.1, p.2)) = some (inside, chunk) →
        ∃ gap, c :: cs = inside ++ ')' :: (gap ++ '\x7b' :: chunk) ∧ Text.AllBlank gap := by
      intro later
      obtain ⟨p, behind, same⟩ := Option.map_eq_some_iff.mp later
      cases same
      obtain ⟨gap, parts, blank⟩ := ih behind
      exact ⟨gap, by rw [parts]; rfl, blank⟩
    rw [splitHead?] at found
    split at found
    · rename_i closes
      split at found
      · rename_i opened
        cases found
        obtain ⟨gap, parts, blank⟩ := Text.trimLeft_parts cs
        exact ⟨gap, by rw [closes, parts, opened]; rfl, blank⟩
      · exact further found
    · exact further found

/-! Headers. A line with a keyword starts with its text. -/

theorem starts_of_keyword? {cs : List Char} {k : Keyword} (found : keyword? cs = some k) :
    k.text <+: cs := by
  have opens := List.find?_some found
  unfold Keyword.opens at opens
  rw [Bool.and_eq_true] at opens
  exact List.isPrefixOf_iff_prefix.mp opens.1

section

variable {cs : List Char} {k : Keyword}

theorem word_parts (starts : k.text <+: cs) :
    ∃ gap, cs = k.text ++ (gap ++ Text.trimLeft (cs.drop k.text.length)) ∧ Text.AllBlank gap := by
  obtain ⟨rest, rfl⟩ := starts
  rw [List.drop_left]
  obtain ⟨gap, parts, blank⟩ := Text.trimLeft_parts rest
  exact ⟨gap, by rw [← parts], blank⟩

theorem afterOpen?_parts {rest : List Char} (starts : k.text <+: cs)
    (found : afterOpen? k cs = some rest) :
    ∃ gap, cs = k.text ++ (gap ++ '(' :: rest) ∧ Text.AllBlank gap := by
  obtain ⟨gap, parts, blank⟩ := word_parts starts
  unfold afterOpen? at found
  split at found
  · rename_i opened
    cases found
    exact ⟨gap, by rw [← opened, ← parts], blank⟩
  · contradiction

theorem matchElse?_parts {chunk : List Char} (starts : Keyword.elseWord.text <+: cs)
    (found : matchElse? cs = some chunk) :
    ∃ gap, cs = Keyword.elseWord.text ++ (gap ++ '\x7b' :: chunk) ∧ Text.AllBlank gap := by
  obtain ⟨gap, parts, blank⟩ := word_parts starts
  unfold matchElse? at found
  split at found
  · rename_i opened
    cases found
    exact ⟨gap, by rw [← opened, ← parts], blank⟩
  · contradiction

theorem matchHead?_parts {cond chunk : List Char} (starts : k.text <+: cs)
    (found : matchHead? k cs = some (cond, chunk)) :
    ∃ gap gap', cs = k.text ++ (gap ++ '(' :: (cond ++ ')' :: (gap' ++ '\x7b' :: chunk))) ∧
      Text.AllBlank gap ∧ Text.AllBlank gap' := by
  obtain ⟨inside, opened, head⟩ := Option.bind_eq_some_iff.mp found
  obtain ⟨gap, parts, blank⟩ := afterOpen?_parts starts opened
  obtain ⟨gap', parts', blank'⟩ := splitHead?_parts head
  exact ⟨gap, gap', by rw [← parts', ← parts], blank, blank'⟩

theorem matchFor?_parts {init cond update chunk : List Char}
    (starts : Keyword.forWord.text <+: cs)
    (found : matchFor? cs = some (init, cond, update, chunk)) :
    ∃ gap gap', cs = Keyword.forWord.text ++ (gap ++ '(' :: (init ++ ';' :: (cond ++ ';' ::
        (update ++ ')' :: (gap' ++ '\x7b' :: chunk))))) ∧
      Text.AllBlank gap ∧ Text.AllBlank gap' := by
  simp only [matchFor?, Option.bind_eq_bind, Option.bind_eq_some_iff] at found
  obtain ⟨inside, opened, p, first, q, second, r, head, same⟩ := found
  cases same
  obtain ⟨gap, parts, blank⟩ := afterOpen?_parts starts opened
  obtain ⟨gap', parts', blank'⟩ := splitHead?_parts head
  refine ⟨gap, gap', ?_, blank, blank'⟩
  rw [← parts', ← splitSemicolon?_parts second, ← splitSemicolon?_parts first, ← parts]

theorem matchAssert?_parts {cond : List Char} (starts : Keyword.assertWord.text <+: cs)
    (found : matchAssert? cs = some cond) :
    ∃ gap gap', cs = Keyword.assertWord.text ++ (gap ++ '(' :: (cond ++ ')' :: (gap' ++ [';']))) ∧
      Text.AllBlank gap ∧ Text.AllBlank gap' := by
  unfold matchAssert? at found
  obtain ⟨inside, opened, found⟩ := Option.bind_eq_some_iff.mp found
  obtain ⟨gap, parts, blank⟩ := afterOpen?_parts starts opened
  split at found
  · rename_i before ends
    obtain ⟨gap', parts', blank'⟩ := Text.trimLeft_parts before
    split at found
    · rename_i closed
      cases found
      refine ⟨gap, gap'.reverse, ?_, blank, fun c member => blank' c (List.mem_reverse.mp member)⟩
      have whole := congrArg List.reverse ends
      rw [List.reverse_reverse, parts', closed] at whole
      rw [parts, whole]
      simp
    · contradiction
  · contradiction

end

end Assay
