import Assay.Proofs.Splitting
import Assay.Proofs.Symbols

/-! The trees that reading returns. Every operator of such a tree comes, in the order of the search,
before the ones on its left and not behind the ones on its right; its names are names, and its
numbers can be written. -/
namespace Assay

namespace Text

theorem isAsciiDigit_eq (c : Char) : isAsciiDigit c = c.isDigit := by
  rw [Bool.eq_iff_iff]
  simp [isAsciiDigit, Char.isDigit, UInt32.le_iff_toNat_le]

theorem foldl_digits_lt {ds : List Nat} (digits : ∀ d ∈ ds, d ≤ 9) :
    ds.foldl (fun n d => 10 * n + d) 0 < Nat.pow 10 ds.length := by
  have bound : ∀ n, ds.foldl (fun n d => 10 * n + d) n < (n + 1) * 10 ^ ds.length := by
    induction ds with
    | nil => simp
    | cons d ds ih =>
      intro n
      obtain ⟨small, digits⟩ := List.forall_mem_cons.mp digits
      calc (d :: ds).foldl (fun n d => 10 * n + d) n
          < (10 * n + d + 1) * 10 ^ ds.length := ih digits (10 * n + d)
        _ ≤ ((n + 1) * 10) * 10 ^ ds.length := Nat.mul_le_mul_right _ (by omega)
        _ = (n + 1) * 10 ^ (d :: ds).length := by
          rw [List.length_cons, Nat.pow_succ, Nat.mul_assoc, Nat.mul_comm 10]
  simpa using bound 0

theorem ofDigits_toDigits (n : Nat) : ofDigits (Nat.toDigits 10 n) = n :=
  Nat.ofDigitChars_ten_toDigits

theorem int_toList (n : Int) :
    (toString n).toList = (if n < 0 then ['-'] else []) ++ Nat.toDigits 10 n.natAbs := by
  cases n with
  | ofNat n =>
    have natural : ¬ Int.ofNat n < 0 := Int.not_lt.mpr (Int.natCast_nonneg n)
    rw [if_neg natural]
    exact String.toList_ofList
  | negSucc n =>
    rw [if_pos (Int.negSucc_lt_zero n)]
    change ("-" ++ String.ofList (Nat.toDigits 10 (n + 1))).toList = _
    simp only [String.toList_append, String.toList_ofList]
    rfl

theorem isName_iff {cs : List Char} :
    isName cs = true ↔
      ∃ c ds, cs = c :: ds ∧ isNameStart c = true ∧ ∀ d ∈ ds, isNameChar d = true := by
  unfold isName splitName?
  cases cs with
  | nil => simp
  | cons c ds =>
    dsimp only
    by_cases start : isNameStart c = true
    · have all : ds.dropWhile isNameChar = [] ↔ ∀ d ∈ ds, isNameChar d = true :=
        List.dropWhile_eq_nil_iff
      rw [if_pos start]
      cases rest : ds.dropWhile isNameChar with
      | nil =>
        refine iff_of_true rfl ⟨c, ds, rfl, start, all.mp rest⟩
      | cons d rest' =>
        rw [rest] at all
        refine iff_of_false (by simp) ?_
        rintro ⟨c', ds', same, -, chars⟩
        cases same
        exact nomatch all.mpr chars
    · rw [if_neg start]
      refine iff_of_false (by simp) ?_
      rintro ⟨c', ds', same, start', -⟩
      cases same
      exact start start'

theorem isAsciiDigit_toDigits {n : Nat} {c : Char} (member : c ∈ Nat.toDigits 10 n) :
    isAsciiDigit c = true := by
  rw [isAsciiDigit_eq]
  exact Nat.isDigit_of_mem_toDigits (by decide) (by decide) member

theorem isNameChar_toDigits {n : Nat} {c : Char} (member : c ∈ Nat.toDigits 10 n) :
    isNameChar c = true := by
  simp [isNameChar, isAsciiDigit_toDigits member]

theorem ne_of_isNameChar {c d : Char} (name : isNameChar c = true) (other : isNameChar d = false) :
    c ≠ d := by
  rintro rfl
  exact nomatch name.symm.trans other

theorem isBlank_of_isNameChar {c : Char} (name : isNameChar c = true) : isBlank c = false := by
  simp only [isNameChar, isNameStart, isAsciiDigit, Bool.or_eq_true, Bool.and_eq_true,
    decide_eq_true_eq, beq_iff_eq] at name
  simp only [isBlank, Bool.or_eq_false_iff, Bool.and_eq_false_iff, decide_eq_false_iff_not,
    beq_eq_false_iff_ne]
  omega

theorem isNameChar_of_isName {cs : List Char} (name : isName cs = true) :
    ∀ c ∈ cs, isNameChar c = true := by
  obtain ⟨c, ds, rfl, start, chars⟩ := isName_iff.mp name
  refine List.forall_mem_cons.mpr ⟨?_, chars⟩
  simp [isNameChar, start]

theorem splitName?_append {name rest : List Char} (is : isName name = true)
    (ends : ∀ c ∈ rest.head?, isNameChar c = false) :
    splitName? (name ++ rest) = some (name, rest) := by
  obtain ⟨c, ds, rfl, start, chars⟩ := isName_iff.mp is
  have taken : (ds ++ rest).takeWhile isNameChar = ds := by
    rw [List.takeWhile_append_of_pos chars]
    cases rest with
    | nil => simp
    | cons d rest => simp [ends d rfl]
  have dropped : (ds ++ rest).dropWhile isNameChar = rest := by
    rw [List.dropWhile_append_of_pos chars]
    cases rest with
    | nil => rfl
    | cons d rest => simp [ends d rfl]
  simp [splitName?, start, taken, dropped]

theorem splitSign_literal {text : List Char} (literal : isLiteral text = true) :
    ∃ negative digits, splitSign text = (negative, digits) ∧
      ∀ c ∈ digits, isAsciiDigit c = true := by
  unfold isLiteral at literal
  dsimp only at literal
  split at literal
  · rw [Bool.and_eq_true, List.all_eq_true] at literal
    exact ⟨true, _, rfl, literal.2⟩
  · rw [Bool.and_eq_true, List.all_eq_true] at literal
    refine ⟨false, text, splitSign_digits text fun c member => ?_, literal.2⟩
    rw [← isAsciiDigit_eq]
    exact literal.2 c member

theorem isTooLong_foldl {ds : List Nat} (digits : ∀ d ∈ ds, d ≤ 9)
    (short : ¬ digitLimit < ds.length) (negative : Bool) {n : Nat}
    (value : ds.foldl (fun n d => 10 * n + d) 0 = n) :
    isTooLong (if negative then -(n : Int) else n) = false := by
  have size : (if negative then -(n : Int) else n).natAbs = n := by
    split
    · rw [Int.natAbs_neg, Int.natAbs_natCast]
    · rw [Int.natAbs_natCast]
  have bound : ∀ limit, ds.length ≤ limit → n < Nat.pow 10 limit := by
    intro limit fits
    rw [← value]
    exact Nat.lt_of_lt_of_le (foldl_digits_lt digits) (Nat.pow_le_pow_right (by decide) fits)
  rw [isTooLong, size, decide_eq_false_iff_not, Nat.not_le]
  exact bound digitLimit (Nat.not_lt.mp short)

theorem isTooLong_ofDigits {digits : List Char} (all : ∀ c ∈ digits, isAsciiDigit c = true)
    (short : ¬ digitLimit < digits.length) (negative : Bool) :
    isTooLong (if negative then -(ofDigits digits : Int) else ofDigits digits) = false := by
  have values : ∀ d ∈ digits.map (fun c => c.toNat - 0x30), d ≤ 9 := by
    intro d member
    obtain ⟨c, stands, rfl⟩ := List.mem_map.mp member
    have digit := all c stands
    simp [isAsciiDigit] at digit
    omega
  rw [← List.length_map (fun c : Char => c.toNat - 0x30)] at short
  exact isTooLong_foldl values short negative List.foldl_map

end Text

namespace Expr

/-- The operators that stand outside brackets in the source of an expression. -/
def tops : Expr Empty → List (BinaryOp Empty)
  | .binary op l r => l.tops ++ op :: r.tops
  | _ => []

/-- The trees that reading returns. -/
inductive Readable : Expr Empty → Prop where
  | lit {n : Int} : Text.isTooLong n = false → Readable (.lit n)
  | var {x : String} : Text.isName x.toList = true → Readable (.var x)
  | read {a : String} {i : Expr Empty} :
      Text.isName a.toList = true → Readable i → Readable (.read a i)
  | binary {op : BinaryOp Empty} {l r : Expr Empty} : Readable l → Readable r →
      (∀ o ∈ l.tops, op.rank < o.rank) → (∀ o ∈ r.tops, op.rank ≤ o.rank) →
        Readable (.binary op l r)
  | not {e : Expr Empty} : Readable e → e.tops = [] → Readable (.unary .not e)

/-! What is read is readable. -/

theorem readLiteral_readable {text : List Char} {e : Expr Empty}
    (literal : Text.isLiteral text = true) (reads : readLiteral text = .ok e) :
    ∃ n, e = .lit n ∧ Text.isTooLong n = false := by
  obtain ⟨negative, digits, parts, all⟩ := Text.splitSign_literal literal
  unfold readLiteral at reads
  rw [parts] at reads
  dsimp only at reads
  split at reads
  · exact nomatch reads
  · rename_i short
    exact ⟨_, (Except.ok.inj reads).symm, Text.isTooLong_ofDigits all short negative⟩

theorem isName_of_splitName? {text name rest : List Char}
    (split : Text.splitName? text = some (name, rest)) : Text.isName name = true := by
  unfold Text.splitName? at split
  split at split
  · exact nomatch split
  · split at split
    · rename_i c cs start
      cases split
      exact Text.isName_iff.mpr ⟨c, _, rfl, start, fun d member => List.mem_takeWhile_imp member⟩
    · exact nomatch split

theorem splitRead?_name {text name index : List Char}
    (found : splitRead? text = some (name, index)) : Text.isName name = true := by
  unfold splitRead? at found
  split at found
  · exact nomatch found
  · rename_i split
    split at found
    · split at found
      · cases found
        exact isName_of_splitName? split
      · exact nomatch found
    · exact nomatch found

theorem level_text (op : BinaryOp Empty) : level op.text.toList = 0 := by
  cases op with
  | compare c => cases c <;> rfl
  | compute a => cases a <;> rfl
  | other mark text => exact mark.elim

theorem isSign_text (op : BinaryOp Empty) (before : List Char) :
    isSign (op.text.toList.reverse ++ before) = true := by
  cases op with
  | compare c => cases c <;> rfl
  | compute a => cases a <;> rfl
  | other mark text => exact mark.elim

section

variable {op o : BinaryOp Empty} {text left right : List Char}

theorem Stands.occurs_left (stands : Stands op.text.toList text left right)
    (occurs : Occurs o.text.toList left) : Occurs o.text.toList text := by
  obtain ⟨front, back, inside⟩ := occurs
  rw [stands.parts, List.append_assoc]
  exact ⟨_, _, inside.behind _⟩

theorem Stands.occurs_right (stands : Stands op.text.toList text left right)
    (occurs : Occurs o.text.toList right) : Occurs o.text.toList text := by
  rw [stands.parts]
  refine occurs.of_front ?_ ?_
  · rw [level_append, stands.outside, level_text]
    rfl
  · rw [List.reverse_append]
    exact isSign_text op _

theorem StandsFirst.absent_left (first : StandsFirst op.text.toList text left right) :
    ¬ Occurs op.text.toList left := by
  rintro ⟨front, back, inside⟩
  obtain ⟨c, cs, word, -⟩ := plain_text op
  have early := first.first front (back ++ (op.text.toList ++ right)) (by
    rw [first.parts, List.append_assoc]
    exact inside.behind _)
  have long := congrArg List.length inside.parts
  simp only [List.length_append, word, List.length_cons] at long
  omega

end

theorem splitNot?_eq_some {text operand : List Char} (found : splitNot? text = some operand) :
    text = '!' :: operand := by
  unfold splitNot? at found
  split at found
  · cases found
    rfl
  · exact nomatch found

theorem readTrimmed_readable {line : Int} {text : List Char} {e : Expr Empty}
    (reads : readTrimmed line text = .ok e) :
    e.Readable ∧ ∀ o ∈ e.tops, Occurs o.text.toList text := by
  fun_induction readTrimmed (ω := Empty) line text generalizing e with
  | case2 text _ literal =>
    obtain ⟨n, rfl, short⟩ := readLiteral_readable literal reads
    exact ⟨.lit short, nofun⟩
  | case4 text _ _ name index found i inner ih =>
    cases reads
    refine ⟨.read ?_ (ih inner).1, nofun⟩
    rw [String.toList_ofList]
    exact splitRead?_name found
  | case7 text _ _ _ op left right found l readLeft r readRight ihLeft ihRight =>
    cases reads
    obtain ⟨first, absent⟩ := splitOperator?_all_iff.mp found
    obtain ⟨readableLeft, leftTops⟩ := ihLeft readLeft
    obtain ⟨readableRight, rightTops⟩ := ihRight readRight
    have inLeft : ∀ o ∈ l.tops, Occurs o.text.toList text := fun o top =>
      first.occurs_left (leftTops o top).of_trim
    have inRight : ∀ o ∈ r.tops, Occurs o.text.toList text := fun o top =>
      first.occurs_right (rightTops o top).of_trim
    have notLower (o : BinaryOp Empty) (occurs : Occurs o.text.toList text) : op.rank ≤ o.rank :=
      Nat.not_lt.mp fun lower => absent o lower occurs
    refine ⟨.binary readableLeft readableRight ?_ ?_, ?_⟩
    · intro o top
      refine Nat.lt_of_le_of_ne (notLower o (inLeft o top)) fun same => ?_
      obtain rfl := BinaryOp.rank_inj same
      exact first.absent_left (leftTops op top).of_trim
    · exact fun o top => notLower o (inRight o top)
    · intro o top
      rcases List.mem_append.mp top with inside | inside
      · exact inLeft o inside
      · rcases List.mem_cons.mp inside with rfl | inside
        · exact ⟨left, right, first.toStands⟩
        · exact inRight o inside
  | case9 text _ _ _ none operand found e inner ih =>
    cases reads
    obtain ⟨readable, tops⟩ := ih inner
    refine ⟨.not readable (List.eq_nil_iff_forall_not_mem.mpr fun o top => ?_), nofun⟩
    refine splitOperator?_eq_none_iff.mp none o o.mem_all ?_
    rw [splitNot?_eq_some found]
    have flat : level ['!'] = 0 := rfl
    exact (tops o top).of_trim.of_front flat rfl
  | case10 text _ _ _ _ _ name =>
    cases reads
    refine ⟨.var ?_, nofun⟩
    rwa [String.toList_ofList]
  | case1 | case3 | case5 | case6 | case8 | case11 => exact nomatch reads

end Expr

end Assay
