import Assay.Stream.Symbol
import Mathlib.Data.List.TakeWhile

/-! Symbols are read back: name and version of a symbol are those it was made of, so two symbols
are equal only if both parts are. A text behind a symbol that ends in no digit makes a symbol of
no name and version. -/
namespace Assay

theorem symbol_toList (x : String) (n : Nat) :
    (symbol x n).toList = x.toList ++ '_' :: Nat.toDigits 10 n := by
  simp [symbol, String.toList_append]

theorem splitLowLine_symbol (x : String) (n : Nat) :
    splitLowLine (symbol x n).toList = (x.toList, Nat.toDigits 10 n) := by
  have clean : ∀ c ∈ (Nat.toDigits 10 n).reverse, (c != '_') = true := by
    intro c member
    simp only [bne_iff_ne, ne_eq]
    rintro rfl
    exact Nat.underscore_not_in_toDigits (List.mem_reverse.mp member)
  have back : (symbol x n).toList.reverse.takeWhile (· != '_') = (Nat.toDigits 10 n).reverse := by
    rw [symbol_toList, List.reverse_append, List.reverse_cons, List.append_assoc,
      List.takeWhile_append_of_pos clean]
    simp
  have rest : (symbol x n).toList.reverse.drop ((Nat.toDigits 10 n).reverse.length + 1) =
      x.toList.reverse := by
    rw [symbol_toList, List.reverse_append, List.reverse_cons, List.append_assoc,
      List.drop_append]
    simp
  unfold splitLowLine
  simp only [back, rest, List.reverse_reverse]

def stem (s : String) : String := String.ofList (splitLowLine s.toList).1

@[simp] theorem stem_symbol (x : String) (n : Nat) : stem (symbol x n) = x := by
  simp [stem, splitLowLine_symbol]

theorem symbol_inj {x y : String} {n k : Nat} : symbol x n = symbol y k ↔ x = y ∧ n = k := by
  constructor
  · intro same
    have split := splitLowLine_symbol x n
    rw [same, splitLowLine_symbol] at split
    obtain ⟨names, digits⟩ := Prod.mk.inj split
    refine ⟨(String.toList_inj.mp names).symm, ?_⟩
    have values := congrArg (fun cs => Nat.ofDigitChars 10 cs 0) digits
    simpa using values.symm
  · rintro ⟨rfl, rfl⟩
    rfl

namespace Text

theorem digit_bounds {c : Char} (digit : c.isDigit = true) : 48 ≤ c.toNat ∧ c.toNat ≤ 57 := by
  simpa [Char.isDigit, UInt32.le_iff_toNat_le] using digit

theorem decimalValue?_digit {c : Char} (digit : c.isDigit = true) :
    decimalValue? c = some (c.toNat - 48) := by
  obtain ⟨low, high⟩ := digit_bounds digit
  have first : (decide (48 ≤ c.toNat) && decide (c.toNat < 48 + 10)) = true := by
    simp only [Bool.and_eq_true, decide_eq_true_eq]
    omega
  have zeros : decimalZeros = 48 :: decimalZeros.tail := rfl
  unfold decimalValue?
  rw [zeros, List.find?_cons]
  simp only [first]
  rfl

theorem isNumeral_digit {c : Char} (digit : c.isDigit = true) : isNumeral c = true := by
  simp [isNumeral, decimalValue?_digit digit]

theorem isNumberBlank_digit {c : Char} (digit : c.isDigit = true) : isNumberBlank c = false := by
  obtain ⟨low, high⟩ := digit_bounds digit
  simp only [isNumberBlank, isBlank, Bool.and_eq_false_iff, Bool.or_eq_false_iff,
    decide_eq_false_iff_not, beq_eq_false_iff_ne]
  left
  omega

theorem digitValues?_digits (cs : List Char) (some_digit : cs ≠ [])
    (digits : ∀ c ∈ cs, c.isDigit = true) :
    digitValues? cs = some (cs.map fun c => c.toNat - 48) := by
  induction cs with
  | nil => contradiction
  | cons c cs ih =>
    have head := decimalValue?_digit (digits c (List.mem_cons_self ..))
    cases cs with
    | nil => simp [digitValues?, head]
    | cons d ds =>
      have tail := ih (by simp) fun e he => digits e (List.mem_cons_of_mem _ he)
      have plain : d ≠ '_' := by
        rintro rfl
        exact absurd (digits '_' (by simp)) (by decide)
      rw [digitValues?]
      · simp [head, tail]
      · simp
      · rintro cs' same
        exact plain (List.cons.inj same).1

theorem splitSign_digits (cs : List Char) (digits : ∀ c ∈ cs, c.isDigit = true) :
    splitSign cs = (false, cs) := by
  unfold splitSign
  split
  · exact absurd (digits '-' (by simp)) (by decide)
  · exact absurd (digits '+' (by simp)) (by decide)
  · rfl

theorem isTooLong_natCast (n : Nat) :
    isTooLong (n : Int) = true ↔ digitLimit < (Nat.toDigits 10 n).length := by
  have short := Nat.length_toDigits_le_iff (b := 10) (n := n) (k := digitLimit)
    (by decide) (by decide)
  rw [isTooLong, decide_eq_true_iff, Int.natAbs_natCast, Nat.pow_eq, ← Nat.not_le, short,
    Nat.not_lt]

theorem isTooLong_mono {m n : Nat} (le : m ≤ n) (short : isTooLong (n : Int) = false) :
    isTooLong (m : Int) = false := by
  rw [isTooLong, decide_eq_false_iff_not, Int.natAbs_natCast] at short ⊢
  exact fun long => short (Nat.le_trans long le)

theorem readInteger_digits (n : Nat) :
    readInteger (Nat.toDigits 10 n) =
      if isTooLong n then .error (.tooLong (Nat.toDigits 10 n).length) else .ok (n : Int) := by
  have digits : ∀ c ∈ Nat.toDigits 10 n, c.isDigit = true := fun c member =>
    Nat.isDigit_of_mem_toDigits (by decide) (by decide) member
  have start : (Nat.toDigits 10 n).dropWhile isNumberBlank = Nat.toDigits 10 n := by
    cases h : Nat.toDigits 10 n with
    | nil => rfl
    | cons c cs =>
      have first := isNumberBlank_digit (digits c (by simp [h]))
      simp [first]
  have run : (Nat.toDigits 10 n).takeWhile isNumeral = Nat.toDigits 10 n :=
    List.takeWhile_eq_self_iff.mpr fun c member => isNumeral_digit (digits c member)
  have rest : (Nat.toDigits 10 n).dropWhile isNumeral = [] :=
    List.dropWhile_eq_nil_iff.mpr fun c member => isNumeral_digit (digits c member)
  have value : ((Nat.toDigits 10 n).map fun c => c.toNat - 48).foldl (fun n d => 10 * n + d) 0 = n := by
    rw [List.foldl_map]
    exact Nat.ofDigitChars_ten_toDigits
  unfold readInteger
  simp only [start, splitSign_digits _ digits, run, rest,
    digitValues?_digits _ Nat.toDigits_ne_nil digits, List.length_map, List.all_nil, if_true,
    value, isTooLong_natCast]
  by_cases long : digitLimit < (Nat.toDigits 10 n).length <;> simp [long]

end Text

theorem splitSymbol_symbol (x : String) (n : Nat) :
    splitSymbol (symbol x n) =
      if Text.isTooLong n then .error (.longRead (Nat.toDigits 10 n).length)
      else .ok (x, (n : Int)) := by
  unfold splitSymbol readVersion
  simp only [splitLowLine_symbol, Text.readInteger_digits, String.ofList_toList]
  cases Text.isTooLong (n : Int) <;> rfl

def Separates (suffix : String) : Prop := ∃ c ∈ suffix.toList.getLast?, c.isDigit = false

theorem symbol_ne_append {suffix : String} (apart : Separates suffix) (x y : String) (n : Nat) :
    symbol x n ≠ y ++ suffix := by
  intro same
  obtain ⟨c, last, plain⟩ := apart
  have lists := congrArg (fun s => s.toList.getLast?) same
  have final : (Nat.toDigits 10 n).getLast Nat.toDigits_ne_nil = c := by
    simpa [symbol_toList, String.toList_append, List.getLast?_append, List.getLast?_cons,
      Option.mem_def.mp last, List.getLast?_eq_some_getLast Nat.toDigits_ne_nil] using lists
  have digit := Nat.isDigit_of_mem_toDigits (b := 10) (n := n) (by decide) (by decide)
    (List.getLast_mem Nat.toDigits_ne_nil)
  rw [final] at digit
  rw [plain] at digit
  contradiction

theorem append_suffix_inj {suffix x y : String} : x ++ suffix = y ++ suffix ↔ x = y := by
  constructor
  · intro same
    have lists := congrArg String.toList same
    rw [String.toList_append, String.toList_append] at lists
    exact String.toList_inj.mp (List.append_cancel_right lists)
  · rintro rfl
    rfl

end Assay
