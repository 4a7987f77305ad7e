import Assay.Program.Reader
import Assay.Program.Text
import Assay.Proofs.Reading
import Assay.Proofs.Rows

/-! The forms of statements are recognised: a header or a line that is written from readable parts
is read as the statement it was written from, whatever follows the opening brace of a header. -/
namespace Assay

/-! Texts of statements. -/

namespace Stmt

def ifHead (cond : Expr Empty) : String := "if (" ++ cond.source ++ ") \x7b"

def elseHead : String := "else \x7b"

def whileHead (cond : Expr Empty) : String := "while (" ++ cond.source ++ ") \x7b"

def forHead (init : Assign Empty) (cond : Expr Empty) (update : Assign Empty) : String :=
  "for (" ++ init.header ++ "; " ++ cond.source ++ "; " ++ update.header ++ ") \x7b"

def assertLine (cond : Expr Empty) : String := "assert(" ++ cond.source ++ ");"

def assignLine (a : Assign Empty) : String := a.header ++ ";"

end Stmt

theorem Assign.header_toList (a : Assign Empty) :
    a.header.toList = a.target.toList ++ ' ' :: ':' :: '=' :: ' ' :: a.value.source.toList := by
  simp [Assign.header, String.toList_append]

def condTail (cond : Expr Empty) : List Char :=
  ' ' :: '(' :: (cond.source.toList ++ [')', ' ', '\x7b'])

namespace Stmt

theorem ifHead_toList (cond : Expr Empty) :
    (ifHead cond).toList = Keyword.ifWord.text ++ condTail cond := by
  simp [ifHead, String.toList_append, Keyword.text, condTail]

theorem whileHead_toList (cond : Expr Empty) :
    (whileHead cond).toList = Keyword.whileWord.text ++ condTail cond := by
  simp [whileHead, String.toList_append, Keyword.text, condTail]

theorem forHead_toList (init : Assign Empty) (cond : Expr Empty) (update : Assign Empty) :
    (forHead init cond update).toList =
      Keyword.forWord.text ++ ' ' :: '(' :: (init.header.toList ++ ';' :: ' ' ::
        (cond.source.toList ++ ';' :: ' ' :: (update.header.toList ++ [')', ' ', '\x7b']))) := by
  simp [forHead, String.toList_append, Keyword.text]

theorem assertLine_toList (cond : Expr Empty) :
    (assertLine cond).toList =
      Keyword.assertWord.text ++ '(' :: (cond.source.toList ++ [')', ';']) := by
  simp [assertLine, String.toList_append, Keyword.text]

theorem assignLine_toList (a : Assign Empty) :
    (assignLine a).toList = a.header.toList ++ [';'] := by
  simp [assignLine, String.toList_append]

end Stmt

/-! Keywords. -/

theorem Text.isWord_of_isNameChar {c : Char} (name : isNameChar c = true) : isWord c = true := by
  have all : ∀ n < 128, isNameChar (Char.ofNat n) = true → isWord (Char.ofNat n) = true := by
    decide +kernel
  have small : c.toNat < 128 := by
    simp only [isNameChar, isNameStart, isAsciiDigit, Bool.or_eq_true, Bool.and_eq_true,
      decide_eq_true_eq, beq_iff_eq] at name
    omega
  have same : Char.ofNat c.toNat = c := Char.ofNat_toNat c
  rw [← same] at name ⊢
  exact all _ small name

theorem keyword?_word (k : Keyword) {c : Char} (ends : Text.isWord c = false) (cs : List Char) :
    keyword? (k.text ++ c :: cs) = some k := by
  cases k <;> simp [keyword?, Keyword.all, Keyword.opens, Keyword.text, ends]

theorem Keyword.isNameChar_text (k : Keyword) : ∀ c ∈ k.text, Text.isNameChar c = true :=
  List.all_eq_true.mp (by cases k <;> decide)

theorem keyword?_name {x : List Char} (name : Text.isName x = true)
    (other : ∀ k ∈ Keyword.all, x ≠ k.text) {c : Char} (ends : Text.isNameChar c = false)
    (cs : List Char) : keyword? (x ++ c :: cs) = none := by
  refine List.find?_eq_none.mpr fun k known => ?_
  unfold Keyword.opens
  rw [Bool.and_eq_true]
  rintro ⟨starts, wordEnds⟩
  obtain ⟨rest, parts⟩ := List.isPrefixOf_iff_prefix.mp starts
  rw [← parts, List.drop_left] at wordEnds
  rcases List.append_eq_append_iff.mp parts with ⟨more, same, behind⟩ | ⟨more, same, behind⟩
  · cases more with
    | nil => exact other k known (by simpa using same)
    | cons d more =>
      have inName := Text.isNameChar_of_isName name d (by simp [same])
      simp [behind, Text.isWord_of_isNameChar inName] at wordEnds
  · cases more with
    | nil => exact other k known (by simpa using same.symm)
    | cons d more =>
      obtain ⟨rfl, -⟩ := List.cons.inj behind
      have inWord := k.isNameChar_text c (by simp [same])
      exact nomatch inWord.symm.trans ends

/-! Characters of a source text. -/

namespace Expr

def SourceChar (c : Char) : Prop :=
  Text.isNameChar c = true ∨ c ∈ ' ' :: '[' :: ']' :: signContext

instance (c : Char) : Decidable (SourceChar c) := inferInstanceAs (Decidable (_ ∨ _))

theorem Readable.chars {e : Expr Empty} (readable : e.Readable) :
    ∀ c ∈ e.source.toList, SourceChar c := by
  have names : ∀ {cs : List Char}, Text.isName cs = true → ∀ c ∈ cs, SourceChar c :=
    fun name c member => .inl (Text.isNameChar_of_isName name c member)
  induction readable with
  | lit =>
    unfold source
    rw [Text.int_toList, List.forall_mem_append]
    constructor
    · split
      · exact List.forall_mem_singleton.mpr (by decide)
      · exact List.forall_mem_nil _
    · exact fun c digit => .inl (Text.isNameChar_toDigits digit)
  | var name => exact names name
  | read name _ inner =>
    simp only [source_read, List.forall_mem_append, List.forall_mem_cons]
    exact ⟨names name, by decide, inner, by decide, List.forall_mem_nil _⟩
  | @binary op l r _ _ _ _ left right =>
    have word : ∀ c ∈ op.text.toList, SourceChar c := fun c member =>
      .inr (List.mem_append_right [' ', '[', ']'] (text_subset op member))
    simp only [source_binary, List.forall_mem_append, List.forall_mem_cons]
    exact ⟨left, by decide, word, by decide, right⟩
  | not _ _ inner =>
    rw [source_not, List.forall_mem_cons]
    exact ⟨by decide, inner⟩

theorem SourceChar.ne {c d : Char} (source : SourceChar c) (other : ¬ SourceChar d) : c ≠ d := by
  rintro rfl
  exact other source

theorem SourceChar.onLine {c : Char} (source : SourceChar c) : Text.isBreak c = false := by
  have signs : (' ' :: '[' :: ']' :: signContext).all (!Text.isBreak ·) := by decide
  rcases source with name | sign
  · exact Text.isBreak_of_not_isBlank (Text.isBlank_of_isNameChar name)
  · simpa using List.all_eq_true.mp signs c sign

end Expr

theorem spaced_names {cs : List Char} (names : ∀ c ∈ cs, Text.isNameChar c = true) : Spaced cs :=
  spaced_plain fun c member => Text.ne_of_isNameChar (names c member) (by decide)

theorem Expr.Readable.spaced {e : Expr Empty} (readable : e.Readable) : Spaced e.source.toList := by
  induction readable with
  | lit =>
    unfold source
    rw [Text.int_toList]
    refine Spaced.append ?_ (spaced_names fun c => Text.isNameChar_toDigits)
    split <;> exact spaced_plain (by simp)
  | var name => exact spaced_names (Text.isNameChar_of_isName name)
  | read name _ inner =>
    rw [source_read]
    refine (spaced_names (Text.isNameChar_of_isName name)).append (.cons (by decide) ?_)
    exact inner.append (spaced_plain (by simp))
  | @binary op l r _ _ _ _ left right =>
    have word : Spaced (op.text.toList ++ [' ']) := by
      cases op with
      | compare c => cases c <;> exact spaced_plain (by simp [BinaryOp.text, Comparison.text])
      | compute a =>
        cases a with
        | div =>
          intro left right parts
          rcases List.cons_eq_append_iff.mp parts with ⟨rfl, same⟩ | ⟨more, -, behind⟩
          · exact ⟨[], (List.cons.inj same).2⟩
          · have inside : '/' ∈ [' '] := by
              rw [show [' '] = more ++ '/' :: right from behind]
              simp
            exact absurd inside (by decide)
        | add | sub | mul | mod => exact spaced_plain (by simp [BinaryOp.text, Arithmetic.text])
      | other mark text => exact mark.elim
    rw [source_binary]
    refine left.append (.cons (by decide) ?_)
    simpa using word.append right
  | not _ _ inner =>
    rw [source_not]
    exact .cons (by decide) inner

/-! Phrases. -/

/-- A text on one line, without braces and comments. -/
structure Phrase (cs : List Char) : Prop where
  onLine : Text.Inline cs
  plain : ∀ c ∈ cs, c ≠ '\x7b' ∧ c ≠ '\x7d'
  spaced : Spaced cs

theorem Phrase.append {cs ds : List Char} (first : Phrase cs) (second : Phrase ds) :
    Phrase (cs ++ ds) where
  onLine := List.forall_mem_append.mpr ⟨first.onLine, second.onLine⟩
  plain := List.forall_mem_append.mpr ⟨first.plain, second.plain⟩
  spaced := first.spaced.append second.spaced

def isPlain (c : Char) : Bool := !Text.isBreak c && c != '\x7b' && c != '\x7d' && c != '/'

theorem phrase_plain {cs : List Char} (plain : cs.all isPlain = true) : Phrase cs := by
  simp only [List.all_eq_true, isPlain, Bool.and_eq_true, Bool.not_eq_true', bne_iff_ne] at plain
  exact ⟨fun c member => (plain c member).1.1.1,
    fun c member => ⟨(plain c member).1.1.2, (plain c member).1.2⟩,
    spaced_plain fun c member => (plain c member).2⟩

theorem phrase_names {cs : List Char} (names : ∀ c ∈ cs, Text.isNameChar c = true) :
    Phrase cs where
  onLine := fun c member =>
    Text.isBreak_of_not_isBlank (Text.isBlank_of_isNameChar (names c member))
  plain := fun c member => ⟨Text.ne_of_isNameChar (names c member) (by decide),
    Text.ne_of_isNameChar (names c member) (by decide)⟩
  spaced := spaced_names names

theorem Expr.Readable.phrase {e : Expr Empty} (readable : e.Readable) : Phrase e.source.toList where
  onLine := fun c member => (readable.chars c member).onLine
  plain := fun c member =>
    ⟨(readable.chars c member).ne (by decide), (readable.chars c member).ne (by decide)⟩
  spaced := readable.spaced

/-- A phrase that starts with no blank, and the mark behind it. -/
structure Heading (cs : List Char) (mark : Char) : Prop where
  parts : ∃ stem, cs = stem ++ [mark] ∧ Phrase stem
  starts : ∃ c ds, cs = c :: ds ∧ Text.isBlank c = false

section

variable {cs : List Char} {mark : Char}

theorem Heading.ne_nil (heading : Heading cs mark) : cs ≠ [] := by
  obtain ⟨c, ds, rfl, -⟩ := heading.starts
  exact List.cons_ne_nil c ds

theorem Heading.onLine (heading : Heading cs mark) (solid : Text.isBlank mark = false) :
    Text.Inline cs := by
  obtain ⟨stem, rfl, phrase⟩ := heading.parts
  exact List.forall_mem_append.mpr ⟨phrase.onLine,
    List.forall_mem_singleton.mpr (Text.isBreak_of_not_isBlank solid)⟩

theorem Heading.solid (heading : Heading cs mark) (solid : Text.isBlank mark = false) :
    Text.Solid cs := by
  constructor
  · obtain ⟨c, ds, rfl, first⟩ := heading.starts
    rintro c' ⟨⟩
    exact first
  · obtain ⟨stem, rfl, -⟩ := heading.parts
    rw [List.getLast?_concat]
    rintro c' ⟨⟩
    exact solid

theorem heading_word (k : Keyword) {tail : List Char} (phrase : Phrase tail) (mark : Char) :
    Heading (k.text ++ (tail ++ [mark])) mark where
  parts := ⟨k.text ++ tail, by rw [List.append_assoc],
    (phrase_names k.isNameChar_text).append phrase⟩
  starts := by cases k <;> exact ⟨_, _, rfl, by decide⟩

end

/-! Headers. -/

theorem splitHead?_append {cs : List Char} (inside : ∀ c ∈ cs, c ≠ ')') (chunk : List Char) :
    splitHead? (cs ++ ')' :: ' ' :: '\x7b' :: chunk) = some (cs, chunk) := by
  induction cs with
  | nil => rfl
  | cons c cs ih =>
    obtain ⟨other, inside⟩ := List.forall_mem_cons.mp inside
    rw [List.cons_append, splitHead?, if_neg other, ih inside]
    rfl

theorem splitSemicolon?_append {cs : List Char} (inside : ∀ c ∈ cs, c ≠ ';') (rest : List Char) :
    splitSemicolon? (cs ++ ';' :: rest) = some (cs, rest) := by
  induction cs with
  | nil => rfl
  | cons c cs ih =>
    obtain ⟨other, inside⟩ := List.forall_mem_cons.mp inside
    rw [List.cons_append, splitSemicolon?, if_neg other, ih inside]
    rfl

theorem afterOpen?_spaced (k : Keyword) (rest : List Char) :
    afterOpen? k (k.text ++ ' ' :: '(' :: rest) = some rest := by
  unfold afterOpen?
  rw [List.drop_left]
  rfl

theorem afterOpen?_direct (k : Keyword) (rest : List Char) :
    afterOpen? k (k.text ++ '(' :: rest) = some rest := by
  unfold afterOpen?
  rw [List.drop_left]
  rfl

theorem holdsAssign_append (cs rest : List Char) :
    holdsAssign (cs ++ ':' :: '=' :: rest) = true := by
  induction cs with
  | nil => rfl
  | cons c cs ih =>
    rw [List.cons_append]
    unfold holdsAssign
    split
    · rfl
    · rename_i same
      obtain ⟨rfl, rfl⟩ := List.cons.inj same
      exact ih
    · contradiction

theorem readExpr_source {e : Expr Empty} (readable : e.Readable) (line : Int) :
    readExpr line e.source.toList = .ok e := by
  simpa using readExpr_padded readable Text.allBlank_nil Text.allBlank_nil line

theorem readExpr_spaced {e : Expr Empty} (readable : e.Readable) (line : Int) :
    readExpr line (' ' :: e.source.toList) = .ok e := by
  simpa using readExpr_padded readable Text.allBlank_space Text.allBlank_nil line

theorem matchHead?_cond {cond : Expr Empty} (readable : cond.Readable) (k : Keyword)
    (chunk : List Char) :
    matchHead? k (k.text ++ condTail cond ++ chunk) = some (cond.source.toList, chunk) := by
  have inside : ∀ c ∈ cond.source.toList, c ≠ ')' := fun c member =>
    (readable.chars c member).ne (by decide)
  unfold matchHead? condTail
  rw [List.append_assoc, List.cons_append, List.cons_append, afterOpen?_spaced,
    Option.bind_some, List.append_assoc]
  exact splitHead?_append inside chunk

theorem matchAssert?_line (cond : Expr Empty) :
    matchAssert? (Stmt.assertLine cond).toList = some cond.source.toList := by
  unfold matchAssert?
  rw [Stmt.assertLine_toList, afterOpen?_direct]
  simp [Text.trimLeft, Text.isBlank]

theorem matchElse?_head (chunk : List Char) :
    matchElse? (Stmt.elseHead.toList ++ chunk) = some chunk := rfl

/-! Assignments. -/

structure Assign.Readable (a : Assign Empty) : Prop where
  name : Text.isName a.target.toList = true
  value : a.value.Readable

section

variable {a : Assign Empty} (readable : a.Readable)

include readable

theorem Assign.Readable.chars : ∀ c ∈ a.header.toList, Expr.SourceChar c ∨ c = ':' := by
  have target : ∀ c ∈ a.target.toList, Expr.SourceChar c ∨ c = ':' := fun c member =>
    .inl (.inl (Text.isNameChar_of_isName readable.name c member))
  have value : ∀ c ∈ a.value.source.toList, Expr.SourceChar c ∨ c = ':' := fun c member =>
    .inl (readable.value.chars c member)
  simp only [Assign.header_toList, List.forall_mem_append, List.forall_mem_cons]
  exact ⟨target, by decide, by decide, by decide, by decide, value⟩

theorem Assign.Readable.phrase : Phrase a.header.toList := by
  rw [Assign.header_toList]
  refine (phrase_names (Text.isNameChar_of_isName readable.name)).append ?_
  have sign : Phrase [' ', ':', '=', ' '] := phrase_plain (by decide)
  exact sign.append readable.value.phrase

theorem Assign.Readable.ends :
    ∃ cs c, a.header.toList = cs ++ [c] ∧ (Text.isNameChar c = true ∨ c = ']') := by
  obtain ⟨cs, c, parts, last⟩ := readable.value.ends
  refine ⟨a.target.toList ++ ' ' :: ':' :: '=' :: ' ' :: cs, c, ?_, last⟩
  rw [Assign.header_toList, parts]
  simp

theorem Assign.Readable.solid : Text.Solid a.header.toList := by
  constructor
  · obtain ⟨c, cs, first, start, -⟩ := Text.isName_iff.mp readable.name
    rw [Assign.header_toList, first]
    rintro c' ⟨⟩
    exact Text.isBlank_of_isNameChar (by simp [Text.isNameChar, start])
  · obtain ⟨cs, c, parts, last⟩ := readable.ends
    rw [parts, List.getLast?_concat]
    rintro c' ⟨⟩
    exact Expr.isBlank_of_last last

theorem matchAssign?_header :
    matchAssign? a.header.toList = some (a.target.toList, ' ' :: a.value.source.toList) := by
  unfold matchAssign?
  rw [Assign.header_toList, Text.splitName?_append readable.name (by rintro d ⟨⟩; decide)]
  rfl

theorem readAssign_header (line : Int) : readAssign line a.header.toList = .ok a := by
  unfold readAssign
  rw [Text.trim_eq_self readable.solid, matchAssign?_header readable]
  dsimp only
  rw [readExpr_spaced readable.value, String.ofList_toList]
  rfl

theorem dropSemicolons_header :
    dropSemicolons (Text.trim (' ' :: a.header.toList)) = a.header.toList := by
  have trimmed : Text.trim (' ' :: a.header.toList) = a.header.toList := by
    simpa using Text.trim_padded Text.allBlank_space readable.solid Text.allBlank_nil
  obtain ⟨cs, c, parts, last⟩ := readable.ends
  have other : (c == ';') = false := by
    rw [beq_eq_false_iff_ne]
    rintro rfl
    exact absurd last (by decide)
  unfold dropSemicolons
  rw [trimmed, parts, List.reverse_append, List.reverse_singleton, List.singleton_append,
    List.dropWhile_cons_of_neg (by simp [other]), List.reverse_cons, List.reverse_reverse]

end

theorem matchFor?_head {init update : Assign Empty} {cond : Expr Empty} (first : init.Readable)
    (test : cond.Readable) (last : update.Readable) (chunk : List Char) :
    matchFor? ((Stmt.forHead init cond update).toList ++ chunk) =
      some (init.header.toList, ' ' :: cond.source.toList, ' ' :: update.header.toList, chunk) := by
  have noSemicolon : ∀ c, Expr.SourceChar c ∨ c = ':' → c ≠ ';' ∧ c ≠ ')' := by
    rintro c (source | rfl)
    · exact ⟨source.ne (by decide), source.ne (by decide)⟩
    · decide
  have inInit : ∀ c ∈ init.header.toList, c ≠ ';' := fun c member =>
    (noSemicolon c (first.chars c member)).1
  have inCond : ∀ c ∈ ' ' :: cond.source.toList, c ≠ ';' :=
    List.forall_mem_cons.mpr ⟨by decide, fun c member =>
      (noSemicolon c (.inl (test.chars c member))).1⟩
  have inUpdate : ∀ c ∈ ' ' :: update.header.toList, c ≠ ')' :=
    List.forall_mem_cons.mpr ⟨by decide, fun c member =>
      (noSemicolon c (last.chars c member)).2⟩
  have toSemicolon := splitSemicolon?_append inInit (' ' :: (cond.source.toList ++
    ';' :: ' ' :: (update.header.toList ++ ')' :: ' ' :: '\x7b' :: chunk)))
  have toSecond := splitSemicolon?_append inCond
    (' ' :: (update.header.toList ++ ')' :: ' ' :: '\x7b' :: chunk))
  have toBrace := splitHead?_append inUpdate chunk
  simp only [List.cons_append] at toSecond toBrace
  unfold matchFor?
  rw [Stmt.forHead_toList]
  simp only [List.append_assoc, List.cons_append, List.nil_append, afterOpen?_spaced, toSemicolon,
    toSecond, toBrace, Option.bind_eq_bind, Option.bind_some, Option.pure_def]

/-! Headings of statements. -/

namespace Stmt

variable {init update : Assign Empty} {cond : Expr Empty}

theorem condTail_heading (readable : cond.Readable) (k : Keyword) :
    Heading (k.text ++ condTail cond) '\x7b' := by
  have phrase : Phrase ([' ', '('] ++ (cond.source.toList ++ [')', ' '])) :=
    (phrase_plain (by decide)).append (readable.phrase.append (phrase_plain (by decide)))
  simpa [condTail] using heading_word k phrase '\x7b'

theorem ifHead_heading (readable : cond.Readable) : Heading (ifHead cond).toList '\x7b' := by
  rw [ifHead_toList]
  exact condTail_heading readable .ifWord

theorem whileHead_heading (readable : cond.Readable) : Heading (whileHead cond).toList '\x7b' := by
  rw [whileHead_toList]
  exact condTail_heading readable .whileWord

theorem elseHead_heading : Heading elseHead.toList '\x7b' := by
  have phrase : Phrase [' '] := phrase_plain (by decide)
  exact heading_word .elseWord phrase '\x7b'

theorem assertLine_heading (readable : cond.Readable) : Heading (assertLine cond).toList ';' := by
  have phrase : Phrase (['('] ++ (cond.source.toList ++ [')'])) :=
    (phrase_plain (by decide)).append (readable.phrase.append (phrase_plain (by decide)))
  rw [assertLine_toList]
  simpa using heading_word .assertWord phrase ';'

theorem assignLine_heading (readable : init.Readable) : Heading (assignLine init).toList ';' where
  parts := ⟨init.header.toList, assignLine_toList init, readable.phrase⟩
  starts := by
    obtain ⟨c, cs, first, start, -⟩ := Text.isName_iff.mp readable.name
    rw [assignLine_toList, Assign.header_toList, first]
    exact ⟨c, _, rfl, Text.isBlank_of_isNameChar (by simp [Text.isNameChar, start])⟩

theorem forHead_heading (first : init.Readable) (test : cond.Readable) (last : update.Readable) :
    Heading (forHead init cond update).toList '\x7b' := by
  have separator : Phrase [';', ' '] := phrase_plain (by decide)
  have phrase : Phrase ([' ', '('] ++ (init.header.toList ++ ([';', ' '] ++ (cond.source.toList ++
      ([';', ' '] ++ (update.header.toList ++ [')', ' '])))))) :=
    (phrase_plain (by decide)).append (first.phrase.append (separator.append (test.phrase.append
      (separator.append (last.phrase.append (phrase_plain (by decide)))))))
  rw [forHead_toList]
  simpa using heading_word .forWord phrase '\x7b'

end Stmt

/-! Statements. -/

section

variable {init update : Assign Empty} {cond : Expr Empty} {number : Nat} {chunk : List Char}
  {lines : List Line} {b : Block}

theorem readShape_assert (readable : cond.Readable) :
    readShape (number, (Stmt.assertLine cond).toList) lines =
      .ok (.simple (.assert cond), lines) := by
  have word : keyword? (Stmt.assertLine cond).toList = some .assertWord := by
    rw [Stmt.assertLine_toList]
    exact keyword?_word .assertWord (by decide +kernel) _
  unfold readShape
  rw [word]
  dsimp only
  unfold readAssertion
  rw [matchAssert?_line]
  dsimp only
  rw [readExpr_source readable]
  rfl

theorem readShape_assign (readable : init.Readable)
    (other : ∀ k ∈ Keyword.all, init.target.toList ≠ k.text) :
    readShape (number, (Stmt.assignLine init).toList) lines =
      .ok (.simple (.assign init), lines) := by
  have word : keyword? (init.header.toList ++ [';']) = none := by
    rw [Assign.header_toList, List.append_assoc]
    exact keyword?_name readable.name other (by decide) _
  have holds : holdsAssign (init.header.toList ++ [';']) = true := by
    have found := holdsAssign_append (init.target.toList ++ [' '])
      (' ' :: init.value.source.toList ++ [';'])
    simpa [Assign.header_toList] using found
  have noBrace : ¬ (init.header.toList ++ [';']).head? = some '\x7d' := by
    obtain ⟨c, cs, first, start, -⟩ := Text.isName_iff.mp readable.name
    rw [Assign.header_toList, first]
    rintro ⟨⟩
    contradiction
  unfold readShape
  rw [Stmt.assignLine_toList, word]
  dsimp only
  unfold readPlain
  rw [if_neg noBrace, if_pos holds, if_pos List.getLast?_concat, List.dropLast_concat,
    readAssign_header readable]
  rfl

theorem readShape_if (readable : cond.Readable) (opened : openBlock number chunk lines = .ok b)
    {e rest : List Line} (behind : readElse b.joinElse = .ok (e, rest)) :
    readShape (number, (Stmt.ifHead cond).toList ++ chunk) lines =
      .ok (.branch cond b.body e, rest) := by
  have word : keyword? (Keyword.ifWord.text ++ condTail cond ++ chunk) = some .ifWord := by
    rw [List.append_assoc]
    exact keyword?_word .ifWord (by decide +kernel) _
  unfold readShape
  rw [Stmt.ifHead_toList, word]
  dsimp only
  unfold readIf
  rw [matchHead?_cond readable]
  dsimp only
  rw [readExpr_source readable, opened]
  dsimp only [bind, Except.bind]
  rw [behind]
  rfl

theorem readShape_while (readable : cond.Readable)
    (opened : openBlock number chunk lines = .ok b) :
    readShape (number, (Stmt.whileHead cond).toList ++ chunk) lines =
      .ok (.whileLoop cond b.body, b.remaining) := by
  have word : keyword? (Keyword.whileWord.text ++ condTail cond ++ chunk) = some .whileWord := by
    rw [List.append_assoc]
    exact keyword?_word .whileWord (by decide +kernel) _
  unfold readShape
  rw [Stmt.whileHead_toList, word]
  dsimp only
  unfold readWhile
  rw [matchHead?_cond readable]
  dsimp only
  rw [readExpr_source readable, opened]
  rfl

theorem readShape_for (first : init.Readable) (test : cond.Readable) (last : update.Readable)
    (opened : openBlock number chunk lines = .ok b) :
    readShape (number, (Stmt.forHead init cond update).toList ++ chunk) lines =
      .ok (.forLoop init cond update b.body, b.remaining) := by
  have word : keyword? ((Stmt.forHead init cond update).toList ++ chunk) = some .forWord := by
    rw [Stmt.forHead_toList, List.append_assoc]
    exact keyword?_word .forWord (by decide +kernel) _
  unfold readShape
  rw [word]
  dsimp only
  unfold readFor
  rw [matchFor?_head first test last]
  dsimp only
  rw [readAssign_header first, readExpr_spaced test, dropSemicolons_header last,
    readAssign_header last, opened]
  rfl

end

end Assay
