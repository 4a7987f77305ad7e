import Assay.Expr.Text
import Assay.Proofs.Readable

/-! Printed expressions are read back. The source of a readable tree is split at its root again,
although no parentheses are printed: an operator sign outside brackets that starts no number is
one of the tree's own operators or a negation. -/
namespace Assay

namespace Expr

theorem source_read (a : String) (i : Expr Empty) :
    (read a i).source.toList = a.toList ++ '[' :: (i.source.toList ++ [']']) := by
  simp [source, String.toList_append]

theorem source_binary (op : BinaryOp Empty) (l r : Expr Empty) :
    (binary op l r).source.toList =
      l.source.toList ++ ' ' :: (op.text.toList ++ ' ' :: r.source.toList) := by
  simp [source, String.toList_append]

theorem source_not (e : Expr Empty) :
    (unary .not e).source.toList = '!' :: e.source.toList := by
  simp [source, String.toList_append, UnaryOp.text]

theorem Readable.starts {e : Expr Empty} (readable : e.Readable) :
    ∃ c cs, e.source.toList = c :: cs ∧ (Text.isNameChar c = true ∨ c = '-' ∨ c = '!') := by
  induction readable with
  | @lit n short =>
    unfold source
    rw [Text.int_toList]
    split
    · exact ⟨_, _, rfl, .inr (.inl rfl)⟩
    · obtain ⟨c, cs, digits⟩ := List.exists_cons_of_ne_nil (Nat.toDigits_ne_nil (n := n.natAbs))
      exact ⟨c, cs, digits, .inl (Text.isNameChar_toDigits (digits ▸ List.mem_cons_self ..))⟩
  | @var x name =>
    obtain ⟨c, cs, parts, -⟩ := Text.isName_iff.mp name
    exact ⟨c, cs, parts, .inl (Text.isNameChar_of_isName name c (parts ▸ List.mem_cons_self ..))⟩
  | @read a i name =>
    obtain ⟨c, cs, parts, -⟩ := Text.isName_iff.mp name
    rw [source_read, parts]
    exact ⟨c, _, rfl, .inl (Text.isNameChar_of_isName name c (parts ▸ List.mem_cons_self ..))⟩
  | @binary op l r _ _ _ _ left =>
    obtain ⟨c, cs, parts, first⟩ := left
    rw [source_binary, parts]
    exact ⟨c, _, rfl, first⟩
  | not =>
    rw [source_not]
    exact ⟨_, _, rfl, .inr (.inr rfl)⟩

theorem Readable.ends {e : Expr Empty} (readable : e.Readable) :
    ∃ cs c, e.source.toList = cs ++ [c] ∧ (Text.isNameChar c = true ∨ c = ']') := by
  induction readable with
  | @lit n short =>
    obtain ⟨cs, c, digits⟩ := List.eq_nil_or_concat' (Nat.toDigits 10 n.natAbs) |>.resolve_left
      Nat.toDigits_ne_nil
    refine ⟨(if n < 0 then ['-'] else []) ++ cs, c, ?_,
      .inl (Text.isNameChar_toDigits (n := n.natAbs) ?_)⟩
    · unfold source
      rw [Text.int_toList, digits, List.append_assoc]
    · rw [digits]
      exact List.mem_append_right _ (List.mem_singleton_self _)
  | @var x name =>
    obtain ⟨cs, c, parts⟩ := List.eq_nil_or_concat' x.toList |>.resolve_left fun empty => by
      rw [empty] at name
      contradiction
    refine ⟨cs, c, parts, .inl (Text.isNameChar_of_isName name c ?_)⟩
    rw [parts]
    exact List.mem_append_right _ (List.mem_singleton_self _)
  | @read a i =>
    refine ⟨a.toList ++ '[' :: i.source.toList, ']', ?_, .inr rfl⟩
    rw [source_read, List.append_assoc]
    rfl
  | @binary op l r _ _ _ _ _ right =>
    obtain ⟨cs, c, parts, last⟩ := right
    refine ⟨l.source.toList ++ ' ' :: (op.text.toList ++ ' ' :: cs), c, ?_, last⟩
    rw [source_binary, parts]
    simp
  | @not e _ _ inner =>
    obtain ⟨cs, c, parts, last⟩ := inner
    refine ⟨'!' :: cs, c, ?_, last⟩
    rw [source_not, parts]
    rfl

theorem isBlank_of_last {c : Char} (last : Text.isNameChar c = true ∨ c = ']') :
    Text.isBlank c = false := by
  rcases last with name | rfl
  · exact Text.isBlank_of_isNameChar name
  · decide

theorem Readable.solid {e : Expr Empty} (readable : e.Readable) : Text.Solid e.source.toList := by
  constructor
  · obtain ⟨c, cs, parts, first⟩ := readable.starts
    intro d head
    rw [parts] at head
    cases head
    rcases first with name | rfl | rfl
    · exact Text.isBlank_of_isNameChar name
    · decide
    · decide
  · obtain ⟨cs, c, parts, last⟩ := readable.ends
    intro d tail
    rw [parts, List.getLast?_concat] at tail
    cases tail
    exact isBlank_of_last last

theorem balanced_name {cs : List Char} (chars : ∀ c ∈ cs, Text.isNameChar c = true) :
    Balanced cs :=
  balanced_flat fun c member => ⟨Text.ne_of_isNameChar (chars c member) (by decide),
    Text.ne_of_isNameChar (chars c member) (by decide)⟩

theorem signContext_kind {c : Char} (sign : c ∈ signContext) :
    Text.isNameChar c = false ∧ Text.isBlank c = false ∧ c ≠ '[' ∧ c ≠ ']' := by
  have all : signContext.all fun c =>
      !Text.isNameChar c && (!Text.isBlank c && (c != '[' && c != ']')) := by decide
  simpa using List.all_eq_true.mp all c sign

theorem text_subset (op : BinaryOp Empty) : op.text.toList ⊆ signContext := by
  cases op with
  | compare c => cases c <;> decide
  | compute a => cases a <;> decide
  | other mark text => exact mark.elim

theorem balanced_spaced (op : BinaryOp Empty) : Balanced (' ' :: (op.text.toList ++ [' '])) := by
  refine balanced_flat ?_
  simp only [List.forall_mem_cons, List.forall_mem_append]
  refine ⟨by decide, fun c member => ?_, by decide, nofun⟩
  exact (signContext_kind (text_subset op member)).2.2

theorem isSign_spaced (op : BinaryOp Empty) (cs : List Char) :
    isSign (cs ++ ' ' :: (op.text.toList ++ [' '])).reverse = true := by
  have context := isSign_text op (' ' :: cs.reverse)
  simpa [isSign, Text.trimLeft, Text.isBlank] using context

theorem Readable.balanced {e : Expr Empty} (readable : e.Readable) : Balanced e.source.toList := by
  induction readable with
  | @lit n short =>
    unfold source
    rw [Text.int_toList]
    refine Balanced.append ?_ (balanced_name fun c => Text.isNameChar_toDigits)
    split <;> exact balanced_flat (by simp)
  | var name => exact balanced_name (Text.isNameChar_of_isName name)
  | read name _ inner =>
    rw [source_read]
    exact (balanced_name (Text.isNameChar_of_isName name)).append inner.bracketed
  | @binary op l r _ _ _ _ left right =>
    rw [source_binary]
    simpa using left.append ((balanced_spaced op).append right)
  | not _ _ inner =>
    rw [source_not]
    have sign : Balanced ['!'] := balanced_flat (by simp)
    exact sign.append inner

/-! Signs in a source text. -/

/-- A text that starts with an operator sign: one of the given operators, the end of an operator,
or a negation, which no equals sign follows. -/
inductive StartsSign (ops : List (BinaryOp Empty)) : List Char → Prop where
  | operator {o : BinaryOp Empty} (rest : List Char) : o ∈ ops →
      StartsSign ops (o.text.toList ++ ' ' :: rest)
  | equals (rest : List Char) : StartsSign ops ('=' :: ' ' :: rest)
  | negation {d : Char} (rest : List Char) : d ≠ '=' → StartsSign ops ('!' :: d :: rest)

section

variable {ops ops' : List (BinaryOp Empty)} {text : List Char}

theorem StartsSign.append (sign : StartsSign ops text) (more : List Char) :
    StartsSign ops (text ++ more) := by
  cases sign with
  | operator rest member =>
    rw [List.append_assoc]
    exact .operator _ member
  | equals rest => exact .equals _
  | negation rest other => exact .negation _ other

theorem StartsSign.mono (sign : StartsSign ops text) (more : ops ⊆ ops') :
    StartsSign ops' text := by
  cases sign with
  | operator rest member => exact .operator rest (more member)
  | equals rest => exact .equals rest
  | negation rest other => exact .negation rest other

end

theorem cons_eq_append_cons {b c : Char} {ys left right : List Char}
    (parts : b :: ys = left ++ c :: right) (other : b ≠ c) :
    ∃ more, left = b :: more ∧ ys = more ++ c :: right := by
  rcases List.cons_eq_append_iff.mp parts with ⟨-, same⟩ | ⟨more, rfl, rest⟩
  · exact absurd (List.cons.inj same).1.symm other
  · exact ⟨more, rfl, rest⟩

/-- Of an operator's characters only the first can be taken for an operator, or an equals sign at
its end. -/
theorem text_eq_append_cons {op : BinaryOp Empty} {front back : List Char} {c : Char}
    (parts : op.text.toList = front ++ c :: back) : front = [] ∨ c = '=' ∧ back = [] := by
  have short : op.text.toList.length = 1 ∨ ∃ d, op.text.toList = [d, '='] := by
    cases op with
    | compare c => cases c <;> first | exact .inl rfl | exact .inr ⟨_, rfl⟩
    | compute a => cases a <;> exact .inl rfl
    | other mark text => exact mark.elim
  rcases short with single | ⟨d, double⟩
  · left
    rw [parts, List.length_append, List.length_cons] at single
    exact List.eq_nil_of_length_eq_zero (by omega)
  · rw [double] at parts
    rcases List.cons_eq_append_iff.mp parts with ⟨start, -⟩ | ⟨more, -, rest⟩
    · exact .inl start
    · rcases List.cons_eq_append_iff.mp rest with ⟨-, last⟩ | ⟨more', -, none⟩
      · obtain ⟨rfl, rfl⟩ := List.cons.inj last
        exact .inr ⟨rfl, rfl⟩
      · simp at none

section

variable {left right : List Char} {c : Char}

theorem name_ne_append {name : List Char} (chars : ∀ d ∈ name, Text.isNameChar d = true)
    (sign : c ∈ signContext) : name ≠ left ++ c :: right := by
  rintro rfl
  exact Text.ne_of_isNameChar (chars c (by simp)) (signContext_kind sign).1 rfl

theorem sign_of_lit {n : Int} (parts : (lit n : Expr Empty).source.toList = left ++ c :: right)
    (sign : c ∈ signContext) : left = [] ∧ c = '-' := by
  unfold source at parts
  rw [Text.int_toList] at parts
  rcases append_eq_append_cons parts with ⟨more, front, -⟩ | ⟨more, -, digits⟩
  · split at front
    · rcases List.cons_eq_append_iff.mp front with ⟨start, same⟩ | ⟨more', -, none⟩
      · exact ⟨start, (List.cons.inj same).1⟩
      · simp at none
    · simp at front
  · exact absurd digits (name_ne_append (fun d => Text.isNameChar_toDigits) sign)

theorem level_of_read {a : String} {i : Expr Empty} (name : Text.isName a.toList = true)
    (inner : Balanced i.source.toList) (parts : (read a i).source.toList = left ++ c :: right)
    (sign : c ∈ signContext) : 0 < level left := by
  have chars := Text.isNameChar_of_isName name
  obtain ⟨-, -, notOpen, notClose⟩ := signContext_kind sign
  rw [source_read] at parts
  rcases append_eq_append_cons parts with ⟨more, front, -⟩ | ⟨more, rfl, behind⟩
  · exact absurd front (name_ne_append chars sign)
  · obtain ⟨within, rfl, bracketed⟩ := cons_eq_append_cons behind notOpen.symm
    have opens : level ['['] = 1 := by decide
    rw [level_append, level_cons, (balanced_name chars).whole, opens]
    rcases append_eq_append_cons bracketed with ⟨rest, index, -⟩ | ⟨rest, rfl, last⟩
    · have nested := inner.front within _ index
      omega
    · obtain ⟨more, -, none⟩ := cons_eq_append_cons last notClose.symm
      simp at none

/-- A sign outside brackets that belongs to no number is one of the operators or a negation. -/
theorem Readable.startsSign {e : Expr Empty} (readable : e.Readable)
    (parts : e.source.toList = left ++ c :: right) (outside : level left = 0)
    (sign : c ∈ signContext) (unsigned : ¬ (c = '-' ∧ isSign left.reverse = true)) :
    StartsSign e.tops (c :: right) := by
  have notSpace : ' ' ≠ c := by
    rintro rfl
    exact absurd (signContext_kind sign).2.1 (by decide)
  induction readable generalizing left right with
  | lit =>
    obtain ⟨rfl, rfl⟩ := sign_of_lit parts sign
    exact absurd ⟨rfl, rfl⟩ unsigned
  | var name => exact absurd parts (name_ne_append (Text.isNameChar_of_isName name) sign)
  | read name inner =>
    have inside := level_of_read name inner.balanced parts sign
    omega
  | @binary op l r readableLeft _ _ _ ihLeft ihRight =>
    rw [source_binary] at parts
    rcases append_eq_append_cons parts with ⟨more, front, rfl⟩ | ⟨more, rfl, behind⟩
    · have found := ihLeft front outside unsigned
      exact (found.append _).mono (List.subset_append_left _ _)
    · obtain ⟨more, rfl, spaced⟩ := cons_eq_append_cons behind notSpace
      rcases append_eq_append_cons spaced with ⟨rest, word, rfl⟩ | ⟨more, rfl, operand⟩
      · rcases text_eq_append_cons word with rfl | ⟨rfl, rfl⟩
        · have found : StartsSign (l.tops ++ op :: r.tops)
              (op.text.toList ++ ' ' :: r.source.toList) := .operator _ (by simp)
          rwa [word] at found
        · exact .equals _
      · -- In the right operand: the text in front is closed, and a sign may follow it.
        obtain ⟨more, rfl, second⟩ := cons_eq_append_cons operand notSpace
        have front : l.source.toList ++ ' ' :: (op.text.toList ++ ' ' :: more) =
            l.source.toList ++ ' ' :: (op.text.toList ++ [' ']) ++ more := by simp
        rw [front, level_append, level_append, readableLeft.balanced.whole,
          (balanced_spaced op).whole, Int.zero_add, Int.zero_add] at outside
        rw [front, List.reverse_append, isSign_append (isSign_spaced op _)] at unsigned
        exact (ihRight second outside unsigned).mono fun o member =>
          List.mem_append_right _ (List.mem_cons_of_mem _ member)
  | @not e inner flat ih =>
    rw [source_not] at parts
    rcases List.cons_eq_append_iff.mp parts with ⟨-, same⟩ | ⟨more, rfl, behind⟩
    · obtain ⟨d, ds, text, first⟩ := inner.starts
      obtain ⟨rfl, rfl⟩ := List.cons.inj same
      rw [text]
      refine .negation _ ?_
      rintro rfl
      revert first
      decide
    · have closed : level ['!'] = 0 := by decide
      have follows : isSign ['!'] = true := by decide
      rw [level_cons, closed, Int.zero_add] at outside
      rw [List.reverse_cons, isSign_append follows] at unsigned
      exact (ih behind outside unsigned).mono (flat ▸ List.nil_subset _)

end

theorem rank_le_of_starts {o o' : BinaryOp Empty} {right rest : List Char}
    (same : o.text.toList ++ right = o'.text.toList ++ ' ' :: rest) : o'.rank ≤ o.rank := by
  let ops : List (BinaryOp Empty) := BinaryOp.all
  have order : ∀ o ∈ ops, ∀ o' ∈ ops,
      o.text.toList.isPrefixOf o'.text.toList = true → o'.rank ≤ o.rank := by decide +kernel
  have noSpace : ∀ o ∈ ops, ' ' ∉ o.text.toList := by decide
  rcases List.append_eq_append_iff.mp same with ⟨more, whole, -⟩ | ⟨more, whole, behind⟩
  · have starts : o.text.toList.isPrefixOf o'.text.toList = true :=
      List.isPrefixOf_iff_prefix.mpr ⟨more, whole.symm⟩
    exact order o o.mem_all o' o'.mem_all starts
  · cases more with
    | nil =>
      rw [List.append_nil] at whole
      have starts : o.text.toList.isPrefixOf o'.text.toList = true := by
        rw [whole]
        simp
      exact order o o.mem_all o' o'.mem_all starts
    | cons d more =>
      obtain ⟨rfl, -⟩ := List.cons.inj behind
      exact absurd (by simp [whole]) (noSpace o o.mem_all)

theorem StartsSign.rank {ops : List (BinaryOp Empty)} {text right : List Char} {o : BinaryOp Empty}
    (sign : StartsSign ops text) (starts : text = o.text.toList ++ right) :
    ∃ o' ∈ ops, o'.rank ≤ o.rank := by
  have double : ∀ {d : Char} {rest : List Char}, d ≠ '=' →
      '=' :: d :: rest ≠ o.text.toList ++ right ∧ '!' :: d :: rest ≠ o.text.toList ++ right := by
    intro d rest other
    cases o with
    | compare c => cases c <;> simp [BinaryOp.text, Comparison.text, other]
    | compute a => cases a <;> simp [BinaryOp.text, Arithmetic.text]
    | other mark text => exact mark.elim
  cases sign with
  | operator rest member => exact ⟨_, member, rank_le_of_starts starts.symm⟩
  | equals rest => exact absurd starts (double (by decide)).1
  | negation rest other => exact absurd starts (double other).2

theorem text_cons (op : BinaryOp Empty) :
    ∃ c cs, op.text.toList = c :: cs ∧ c ∈ signContext ∧ (c = '-' → cs = []) := by
  cases op with
  | compare c => cases c <;> exact ⟨_, _, rfl, by decide, by decide⟩
  | compute a => cases a <;> exact ⟨_, _, rfl, by decide, by decide⟩
  | other mark text => exact mark.elim

theorem Readable.rank_le {e : Expr Empty} (readable : e.Readable) {o : BinaryOp Empty}
    {more left right : List Char}
    (stands : Stands o.text.toList (e.source.toList ++ more) left right)
    (within : left.length < e.source.toList.length) : ∃ o' ∈ e.tops, o'.rank ≤ o.rank := by
  obtain ⟨c, cs, word, sign, single⟩ := text_cons o
  have parts := stands.parts
  rw [word, List.append_assoc, List.cons_append] at parts
  rcases append_eq_append_cons parts with ⟨rest, source, behind⟩ | ⟨rest, rfl, -⟩
  · have unsigned : ¬ (c = '-' ∧ isSign left.reverse = true) := by
      rintro ⟨rfl, follows⟩
      exact stands.unsigned ⟨by rw [word, single rfl], follows⟩
    have found := (readable.startsSign source stands.outside sign unsigned).append more
    have same : c :: rest ++ more = o.text.toList ++ right := by
      rw [word, List.cons_append, List.cons_append, behind]
    exact found.rank same
  · rw [List.length_append] at within
    omega

theorem Readable.rank_le_of_occurs {e : Expr Empty} (readable : e.Readable) {o : BinaryOp Empty}
    (occurs : Occurs o.text.toList e.source.toList) : ∃ o' ∈ e.tops, o'.rank ≤ o.rank := by
  obtain ⟨left, right, stands⟩ := occurs
  obtain ⟨c, cs, word, -⟩ := text_cons o
  have long := congrArg List.length stands.parts
  simp only [word, List.length_append, List.length_cons] at long
  rw [← List.append_nil e.source.toList] at stands
  exact readable.rank_le stands (by omega)

theorem Readable.splitOperator?_eq_none {e : Expr Empty} (readable : e.Readable)
    (flat : e.tops = []) :
    splitOperator? e.source.toList (BinaryOp.all : List (BinaryOp Empty)) = none := by
  refine splitOperator?_eq_none_iff.mpr fun o _ occurs => ?_
  obtain ⟨o', top, -⟩ := readable.rank_le_of_occurs occurs
  rw [flat] at top
  exact absurd top List.not_mem_nil

/-! Reading the source. -/

theorem isLiteral_chars {cs : List Char} (literal : Text.isLiteral cs = true) :
    ∀ c ∈ cs, c = '-' ∨ Text.isAsciiDigit c = true := by
  unfold Text.isLiteral at literal
  dsimp only at literal
  split at literal
  · rw [Bool.and_eq_true, List.all_eq_true] at literal
    intro c member
    rcases List.mem_cons.mp member with rfl | member
    · exact .inl rfl
    · exact .inr (literal.2 c member)
  · rw [Bool.and_eq_true, List.all_eq_true] at literal
    exact fun c member => .inr (literal.2 c member)

theorem isNameStart_digit {c : Char} (digit : Text.isAsciiDigit c = true) :
    Text.isNameStart c = false := by
  simp only [Text.isAsciiDigit, Bool.and_eq_true, decide_eq_true_eq] at digit
  simp only [Text.isNameStart, Bool.or_eq_false_iff, Bool.and_eq_false_iff,
    decide_eq_false_iff_not, beq_eq_false_iff_ne]
  omega

theorem isName_start {cs : List Char} (name : Text.isName cs = true) :
    ∃ c ds, cs = c :: ds ∧ (c ≠ '-' ∧ Text.isAsciiDigit c = false) ∧ c ≠ '!' := by
  obtain ⟨c, ds, rfl, start, -⟩ := Text.isName_iff.mp name
  refine ⟨c, ds, rfl, ⟨?_, ?_⟩, ?_⟩
  · rintro rfl
    contradiction
  · rw [← Bool.not_eq_true]
    exact fun digit => nomatch start.symm.trans (isNameStart_digit digit)
  · rintro rfl
    contradiction

theorem splitSign_source (n : Int) :
    Text.splitSign (lit n : Expr Empty).source.toList =
      (decide (n < 0), Nat.toDigits 10 n.natAbs) := by
  unfold source
  rw [Text.int_toList]
  by_cases negative : n < 0
  · rw [if_pos negative, decide_eq_true negative]
    rfl
  · rw [if_neg negative, decide_eq_false negative]
    exact Text.splitSign_digits _ fun c =>
      Nat.isDigit_of_mem_toDigits (by decide) (by decide)

theorem isLiteral_source (n : Int) : Text.isLiteral (lit n : Expr Empty).source.toList = true := by
  have digits : ∀ c ∈ Nat.toDigits 10 n.natAbs, Text.isAsciiDigit c = true :=
    fun c => Text.isAsciiDigit_toDigits
  have nonempty : (Nat.toDigits 10 n.natAbs).isEmpty = false :=
    List.isEmpty_eq_false_iff.mpr Nat.toDigits_ne_nil
  unfold source
  rw [Text.int_toList]
  split
  · simpa [Text.isLiteral, nonempty] using digits
  · unfold Text.isLiteral
    split
    · rename_i ds sign
      rw [List.nil_append] at sign
      exact absurd (digits '-' (sign ▸ List.mem_cons_self ..)) (by decide)
    · simpa [nonempty] using digits

theorem readLiteral_source {n : Int} (short : Text.isTooLong n = false) :
    readLiteral (ω := Empty) (lit n : Expr Empty).source.toList = .ok (.lit n) := by
  have fits : ¬ Text.digitLimit < (Nat.toDigits 10 n.natAbs).length := by
    rw [← Text.isTooLong_natCast, Text.isTooLong, Int.natAbs_natCast, ← Text.isTooLong, short]
    decide
  unfold readLiteral
  rw [splitSign_source]
  dsimp only
  rw [if_neg fits, Text.ofDigits_toDigits]
  split
  · rename_i negative
    have below : n < 0 := of_decide_eq_true negative
    rw [show -(n.natAbs : Int) = n by omega]
  · rename_i natural
    have above : ¬ n < 0 := by simpa using natural
    rw [show (n.natAbs : Int) = n by omega]

theorem splitRead?_eq_none {c : Char} {cs : List Char} (other : Text.isNameStart c = false) :
    splitRead? (c :: cs) = none := by
  simp [splitRead?, Text.splitName?, other]

theorem splitRead?_bracketed {a : List Char} {i : Expr Empty} (name : Text.isName a = true)
    (inner : i.Readable) (rest : List Char) :
    splitRead? (a ++ '[' :: (i.source.toList ++ ']' :: rest)) =
      if rest = [] then some (a, i.source.toList) else none := by
  have opened : Text.trimLeft ('[' :: (i.source.toList ++ ']' :: rest)) =
      '[' :: (i.source.toList ++ ']' :: rest) :=
    Text.trimLeft_eq_self (by rintro d ⟨⟩; decide)
  unfold splitRead?
  rw [Text.splitName?_append name (by rintro d ⟨⟩; decide)]
  dsimp only
  rw [opened]
  simp only [untilClosed_balanced inner.balanced]
  cases rest <;> rfl

theorem splitRead?_spaced {e : Expr Empty} (readable : e.Readable) (op : BinaryOp Empty)
    (rest : List Char) :
    splitRead? (e.source.toList ++ ' ' :: (op.text.toList ++ rest)) = none := by
  induction readable generalizing op rest with
  | @lit n short =>
    unfold source
    rw [Text.int_toList]
    split
    · exact splitRead?_eq_none (by decide)
    · obtain ⟨c, cs, digits⟩ := List.exists_cons_of_ne_nil (Nat.toDigits_ne_nil (n := n.natAbs))
      have digit := Text.isAsciiDigit_toDigits (digits ▸ List.mem_cons_self ..)
      rw [digits]
      exact splitRead?_eq_none (isNameStart_digit digit)
  | @var x name =>
    obtain ⟨c, cs, word, sign, -⟩ := text_cons op
    obtain ⟨-, notBlank, notOpen, -⟩ := signContext_kind sign
    unfold splitRead?
    rw [show (var x : Expr Empty).source = x from rfl, word,
      Text.splitName?_append name (by rintro d ⟨⟩; decide)]
    have trimmed : Text.trimLeft (' ' :: (c :: cs ++ rest)) = c :: (cs ++ rest) := by
      refine (Text.trimLeft_blank Text.allBlank_space _).trans (Text.trimLeft_eq_self ?_)
      rintro d ⟨⟩
      exact notBlank
    simp only [trimmed]
    split
    · rename_i same
      exact absurd (List.cons.inj same).1 notOpen
    · rfl
  | read name inner =>
    rw [source_read, List.append_assoc, List.cons_append, List.append_assoc]
    exact (splitRead?_bracketed name inner _).trans (if_neg (by simp))
  | binary _ _ _ _ left =>
    rw [source_binary, List.append_assoc, List.cons_append, List.append_assoc]
    exact left _ _
  | not =>
    rw [source_not]
    exact splitRead?_eq_none (by decide)

theorem readTrimmed_literal {line : Int} {text : List Char} (literal : Text.isLiteral text = true) :
    readTrimmed (ω := Empty) line text = readLiteral text := by
  have nonempty : ¬ text.isEmpty = true := by
    rintro empty
    rw [List.isEmpty_iff.mp empty] at literal
    contradiction
  rw [readTrimmed, if_neg nonempty, if_pos literal]

theorem noLiteral_of_mem {text : List Char} {c : Char} (member : c ∈ text)
    (plain : c ≠ '-' ∧ Text.isAsciiDigit c = false) :
    text ≠ [] ∧ ¬ Text.isLiteral text = true := by
  refine ⟨List.ne_nil_of_mem member, fun literal => ?_⟩
  rcases isLiteral_chars literal c member with sign | digit
  · exact plain.1 sign
  · exact nomatch digit.symm.trans plain.2

/-- Reading of a text that is no literal, without the equalities that carry the termination. -/
theorem readTrimmed_eq {line : Int} {text : List Char}
    (noLiteral : text ≠ [] ∧ ¬ Text.isLiteral text = true) :
    readTrimmed (ω := Empty) line text =
      match splitRead? text with
      | some (name, index) =>
        (readTrimmed line (Text.trim index)).map (.read (String.ofList name))
      | none =>
        match splitOperator? text (BinaryOp.all : List (BinaryOp Empty)) with
        | some (op, left, right) => do
          let l ← readTrimmed line (Text.trim left)
          let r ← readTrimmed line (Text.trim right)
          return .binary op l r
        | none =>
          match splitNot? text with
          | some operand => (readTrimmed line (Text.trim operand)).map (.unary .not)
          | none =>
            if Text.isName text then .ok (.var (String.ofList text))
            else .error (.parse line (.expression (String.ofList text))) := by
  have nonempty : ¬ text.isEmpty = true := fun empty => noLiteral.1 (List.isEmpty_iff.mp empty)
  rw [readTrimmed, if_neg nonempty, if_neg noLiteral.2]
  split
  · rename_i found
    rw [found]
    dsimp only
    split <;> rename_i inner <;> rw [inner] <;> rfl
  · rename_i noRead
    rw [noRead]
    dsimp only
    split
    · rename_i found
      rw [found]
      dsimp only
      split
      · rename_i inner
        rw [inner]
        rfl
      · rename_i left
        rw [left]
        split <;> rename_i right <;> rw [right] <;> rfl
    · rename_i none
      rw [none]
      dsimp only
      split
      · rename_i found
        rw [found]
        dsimp only
        split <;> rename_i inner <;> rw [inner] <;> rfl
      · rename_i missing
        rw [missing]

theorem Readable.not_isSign {e : Expr Empty} (readable : e.Readable) :
    isSign (e.source.toList ++ [' ']).reverse = false := by
  obtain ⟨cs, c, ends, last⟩ := readable.ends
  have notBlank := isBlank_of_last last
  have noSign : c ∉ signContext := by
    intro sign
    obtain ⟨notName, -, -, notClose⟩ := signContext_kind sign
    rcases last with name | rfl
    · exact nomatch name.symm.trans notName
    · exact notClose rfl
  have trimmed : Text.trimLeft (' ' :: c :: cs.reverse) = c :: cs.reverse := by
    have kept : Text.trimLeft (c :: cs.reverse) = c :: cs.reverse :=
      Text.trimLeft_eq_self (by rintro d ⟨⟩; exact notBlank)
    exact (Text.trimLeft_blank Text.allBlank_space _).trans kept
  rw [ends]
  simp [isSign, trimmed, noSign]

/-- A tree is split again where it was put together. -/
theorem splitOperator?_source {op : BinaryOp Empty} {l r : Expr Empty} (left : l.Readable)
    (right : r.Readable) (before : ∀ o ∈ l.tops, op.rank < o.rank)
    (behind : ∀ o ∈ r.tops, op.rank ≤ o.rank) :
    splitOperator? (binary op l r).source.toList BinaryOp.all =
      some (op, l.source.toList ++ [' '], ' ' :: r.source.toList) := by
  have parts : (binary op l r).source.toList =
      l.source.toList ++ ' ' :: (op.text.toList ++ ' ' :: r.source.toList) := source_binary op l r
  refine splitOperator?_all_iff.mpr ⟨⟨⟨?_, ?_, ?_⟩, fun front back stands => ?_⟩, fun o lower => ?_⟩
  · rw [parts]
    simp
  · rw [level_append, left.balanced.whole]
    rfl
  · rintro ⟨-, follows⟩
    exact absurd follows (by rw [left.not_isSign]; decide)
  · rw [List.length_append, List.length_singleton]
    rw [parts] at stands
    refine Nat.lt_of_le_of_ne (Nat.not_lt.mp fun within => ?_) fun same => ?_
    · obtain ⟨o, top, lower⟩ := left.rank_le stands within
      exact absurd (before o top) (Nat.not_lt.mpr lower)
    · -- The operator would start with the space in front of it.
      obtain ⟨c, cs, word, sign, -⟩ := text_cons op
      have split := stands.parts
      rw [List.append_assoc, word] at split
      obtain ⟨space, -⟩ := List.cons.inj (List.append_inj_right split same)
      rw [← space] at sign
      exact absurd sign (by decide)
  · intro occurs
    have readable : (binary op l r).Readable := .binary left right before behind
    obtain ⟨o', top, below⟩ := readable.rank_le_of_occurs occurs
    have above : op.rank ≤ o'.rank := by
      rcases List.mem_append.mp top with inside | inside
      · exact Nat.le_of_lt (before o' inside)
      · rcases List.mem_cons.mp inside with rfl | inside
        · exact Nat.le_refl _
        · exact behind o' inside
    omega

theorem Readable.reads {e : Expr Empty} (readable : e.Readable) (line : Int) :
    readTrimmed line e.source.toList = .ok e := by
  induction readable with
  | @lit n short => rw [readTrimmed_literal (isLiteral_source n), readLiteral_source short]
  | @var x name =>
    obtain ⟨c, cs, text, plain, negation⟩ := isName_start name
    have noRead : splitRead? x.toList = none := by
      have whole := @Text.splitName?_append x.toList [] name nofun
      rw [List.append_nil] at whole
      simp [splitRead?, whole, Text.trimLeft]
    have none := (Readable.var name).splitOperator?_eq_none rfl
    have noNot : splitNot? x.toList = .none := by
      rw [text, splitNot?]
      rintro cs' same
      exact negation (List.cons.inj same).1
    change readTrimmed line x.toList = _
    rw [readTrimmed_eq (noLiteral_of_mem (text ▸ List.mem_cons_self ..) plain), noRead]
    dsimp only
    rw [show splitOperator? x.toList BinaryOp.all = .none from none]
    dsimp only
    rw [noNot, if_pos name, String.ofList_toList]
  | @read a i name inner ih =>
    obtain ⟨c, cs, text, plain, -⟩ := isName_start name
    have noLiteral := noLiteral_of_mem (List.mem_append_left ('[' :: (i.source.toList ++ [']']))
      (text ▸ List.mem_cons_self .. : c ∈ a.toList)) plain
    rw [source_read, readTrimmed_eq noLiteral, splitRead?_bracketed name inner, if_pos rfl]
    dsimp only
    rw [Text.trim_eq_self inner.solid, ih, String.ofList_toList]
    rfl
  | @binary op l r left right before behind ihLeft ihRight =>
    have space : ' ' ∈ (Expr.binary op l r).source.toList := by
      rw [source_binary]
      simp
    have noRead : splitRead? (Expr.binary op l r).source.toList = none := by
      rw [source_binary]
      exact splitRead?_spaced left op _
    have trimLeft : Text.trim (l.source.toList ++ [' ']) = l.source.toList := by
      simpa using Text.trim_padded Text.allBlank_nil left.solid Text.allBlank_space
    have trimRight : Text.trim (' ' :: r.source.toList) = r.source.toList := by
      simpa using Text.trim_padded Text.allBlank_space right.solid Text.allBlank_nil
    rw [readTrimmed_eq (noLiteral_of_mem space (by decide)), noRead]
    dsimp only
    rw [splitOperator?_source left right before behind]
    dsimp only
    rw [trimLeft, trimRight, ihLeft, ihRight]
    rfl
  | @not e inner flat ih =>
    have none := (Readable.not inner flat).splitOperator?_eq_none rfl
    rw [source_not] at none ⊢
    rw [readTrimmed_eq (noLiteral_of_mem (List.mem_cons_self ..) (by decide)),
      splitRead?_eq_none (by decide)]
    dsimp only
    rw [none, show splitNot? ('!' :: e.source.toList) = some e.source.toList from rfl]
    dsimp only
    rw [Text.trim_eq_self inner.solid, ih]
    rfl

theorem Readable.sourceTooLong {e : Expr Empty} (readable : e.Readable) :
    e.sourceTooLong = false := by
  unfold Expr.sourceTooLong
  induction readable with
  | lit short => simpa [leaves] using short
  | var => rfl
  | read _ _ inner => simpa [leaves] using inner
  | binary _ _ _ _ left right =>
    rw [leaves, List.any_append, left, right]
    rfl
  | not _ _ inner => exact inner

end Expr

theorem ok_of_toOption {α : Type} {x : Except Error α} {a : α} (ok : x.toOption = some a) :
    x = .ok a := by
  cases x with
  | error e => contradiction
  | ok b => exact congrArg Except.ok (Option.some.inj ok)

theorem readExpr_padded {e : Expr Empty} (readable : e.Readable) {front back : List Char}
    (blankFront : Text.AllBlank front) (blankBack : Text.AllBlank back) (line : Int) :
    readExpr line (front ++ e.source.toList ++ back) = .ok e := by
  unfold readExpr
  rw [Text.trim_padded blankFront readable.solid blankBack]
  exact readable.reads line

/-- Every expression that was read can be written, and its text is read as the same expression,
on whatever line: no parentheses are needed. -/
theorem readExpr_writeSource (line line' : Int) (text : String) (e : Expr Empty)
    (reads : readExpr line text.toList = .ok e) :
    ∃ source, e.writeSource = .ok source ∧ readExpr line' source.toList = .ok e := by
  have readable : e.Readable := (Expr.readTrimmed_readable reads).1
  refine ⟨e.source, ?_, ?_⟩
  · rw [Expr.writeSource, readable.sourceTooLong]
    rfl
  · simpa using readExpr_padded readable Text.allBlank_nil Text.allBlank_nil line'

def signedBound : Expr Empty :=
  .binary (.compare .le)
    (.binary (.compute .mul)
      (.read "a" (.binary (.compute .sub) (.var "i") (.lit 1))) (.lit (-2)))
    (.binary (.compute .sub) (.unary .not (.var "b")) (.lit 3))

/-- Blanks are set anew, and each of three minus signs keeps its role. -/
theorem readExpr_writeSource_signedBound :
    readExpr 1 " a[ i -1 ]*-2<= !b - 3".toList = .ok signedBound ∧
      ∃ source, signedBound.writeSource = .ok source ∧
        readExpr 2 source.toList = .ok signedBound := by
  have reads : readExpr 1 " a[ i -1 ]*-2<= !b - 3".toList = .ok signedBound :=
    ok_of_toOption (by decide +kernel)
  exact ⟨reads, readExpr_writeSource 1 2 _ signedBound reads⟩

end Assay
