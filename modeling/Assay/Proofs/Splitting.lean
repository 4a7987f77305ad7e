import Assay.Expr.Reader
import Mathlib.Data.List.Basic
import Mathlib.Data.List.TakeWhile

/-! Where an operator stands in a text. Splitting finds the first place outside brackets at which
the operator is no sign; of several operators it takes the one that comes first in the order of the
search. Such a place stays one when text is put around it, as long as the text in front closes its
brackets and ends where a sign could follow. -/
namespace Assay

namespace Text

def AllBlank (cs : List Char) : Prop := ∀ c ∈ cs, isBlank c = true

theorem allBlank_nil : AllBlank [] := nofun

theorem allBlank_space : AllBlank [' '] := List.forall_mem_singleton.mpr (by decide)

theorem trimLeft_blank {bs : List Char} (blank : AllBlank bs) (cs : List Char) :
    trimLeft (bs ++ cs) = trimLeft cs := List.dropWhile_append_of_pos blank

theorem trimLeft_eq_self {cs : List Char} (solid : ∀ c ∈ cs.head?, isBlank c = false) :
    trimLeft cs = cs := by
  cases cs with
  | nil => rfl
  | cons c cs => exact List.dropWhile_cons_of_neg (by simp [solid c rfl])

theorem trimRight_blank {bs : List Char} (blank : AllBlank bs) (cs : List Char) :
    trimRight (cs ++ bs) = trimRight cs := by
  have back : AllBlank bs.reverse := fun c member => blank c (List.mem_reverse.mp member)
  unfold trimRight
  rw [List.reverse_append, ← trimLeft, trimLeft_blank back, trimLeft]

theorem trimRight_eq_self {cs : List Char} (solid : ∀ c ∈ cs.getLast?, isBlank c = false) :
    trimRight cs = cs := by
  have back : trimLeft cs.reverse = cs.reverse := trimLeft_eq_self (by simpa using solid)
  unfold trimRight
  rw [← trimLeft, back, List.reverse_reverse]

/-- A text that starts and ends with no blank. -/
def Solid (cs : List Char) : Prop :=
  (∀ c ∈ cs.head?, isBlank c = false) ∧ ∀ c ∈ cs.getLast?, isBlank c = false

theorem trim_eq_self {cs : List Char} (solid : Solid cs) : trim cs = cs := by
  unfold trim
  rw [trimLeft_eq_self solid.1, trimRight_eq_self solid.2]

theorem trim_padded {bs cs ds : List Char} (front : AllBlank bs) (solid : Solid cs)
    (back : AllBlank ds) : trim (bs ++ cs ++ ds) = cs := by
  unfold trim
  rw [List.append_assoc, trimLeft_blank front]
  cases cs with
  | nil =>
    have gone := trimLeft_blank back []
    rw [List.append_nil] at gone
    rw [List.nil_append, gone]
    rfl
  | cons c cs =>
    rw [trimLeft_eq_self (by simpa using solid.1), trimRight_blank back, trimRight_eq_self solid.2]

theorem trimRight_parts (cs : List Char) : ∃ ds, cs = trimRight cs ++ ds ∧ AllBlank ds := by
  have parts := List.takeWhile_append_dropWhile (p := isBlank) (l := cs.reverse)
  refine ⟨(cs.reverse.takeWhile isBlank).reverse, ?_, ?_⟩
  · unfold trimRight
    rw [← List.reverse_append, parts, List.reverse_reverse]
  · exact fun c member => List.mem_takeWhile_imp (List.mem_reverse.mp member)

theorem trim_parts (cs : List Char) :
    ∃ bs ds, cs = bs ++ trim cs ++ ds ∧ AllBlank bs ∧ AllBlank ds := by
  have left := List.takeWhile_append_dropWhile (p := isBlank) (l := cs)
  obtain ⟨ds, right, back⟩ := trimRight_parts (trimLeft cs)
  refine ⟨cs.takeWhile isBlank, ds, ?_, fun c member => List.mem_takeWhile_imp member, back⟩
  rw [List.append_assoc, trim, ← right, trimLeft, left]

end Text

theorem append_eq_append_cons {xs ys left right : List Char} {c : Char}
    (parts : xs ++ ys = left ++ c :: right) :
    (∃ more, xs = left ++ c :: more ∧ right = more ++ ys) ∨
      ∃ more, left = xs ++ more ∧ ys = more ++ c :: right := by
  rcases List.append_eq_append_iff.mp parts with ⟨more, rfl, rest⟩ | ⟨more, rfl, rest⟩
  · exact .inr ⟨more, rfl, rest⟩
  · cases more with
    | nil => exact .inr ⟨[], by simp, rest.symm⟩
    | cons d more =>
      obtain ⟨rfl, rfl⟩ := List.cons.inj rest
      exact .inl ⟨more, rfl, rfl⟩

namespace Expr

/-! Brackets and signs. -/

/-- How many brackets a text leaves open. -/
def level (cs : List Char) : Int := cs.count '[' - cs.count ']'

@[simp] theorem level_nil : level [] = 0 := rfl

@[simp] theorem level_append (cs ds : List Char) : level (cs ++ ds) = level cs + level ds := by
  simp only [level, List.count_append]
  omega

@[simp] theorem level_reverse (cs : List Char) : level cs.reverse = level cs := by
  simp only [level, List.count_reverse]

theorem level_cons (c : Char) (cs : List Char) : level (c :: cs) = level [c] + level cs :=
  level_append [c] cs

theorem level_flat {cs : List Char} (flat : ∀ c ∈ cs, c ≠ '[' ∧ c ≠ ']') : level cs = 0 := by
  have opened : cs.count '[' = 0 := List.count_eq_zero.mpr fun member => (flat _ member).1 rfl
  have closed : cs.count ']' = 0 := List.count_eq_zero.mpr fun member => (flat _ member).2 rfl
  simp [level, opened, closed]

theorem level_blank {bs : List Char} (blank : Text.AllBlank bs) : level bs = 0 := by
  refine level_flat fun c member => ?_
  constructor <;> rintro rfl <;> exact absurd (blank _ member) (by decide)

theorem isSign_blank {bs : List Char} (blank : Text.AllBlank bs) : isSign bs = true := by
  have gone := Text.trimLeft_blank blank []
  rw [List.append_nil] at gone
  unfold isSign
  rw [gone]
  rfl

theorem isSign_append {before : List Char} (sign : isSign before = true) (cs : List Char) :
    isSign (cs ++ before) = isSign cs := by
  induction cs with
  | nil => exact sign
  | cons c cs ih =>
    unfold isSign Text.trimLeft at ih ⊢
    by_cases blank : Text.isBlank c = true
    · rw [List.cons_append, List.dropWhile_cons_of_pos blank, List.dropWhile_cons_of_pos blank]
      exact ih
    · rw [List.cons_append, List.dropWhile_cons_of_neg blank, List.dropWhile_cons_of_neg blank]

/-- Every closing bracket has an opening one before it, and none is left open. -/
structure Balanced (cs : List Char) : Prop where
  front : ∀ left right, cs = left ++ right → 0 ≤ level left
  whole : level cs = 0

theorem balanced_flat {cs : List Char} (flat : ∀ c ∈ cs, c ≠ '[' ∧ c ≠ ']') : Balanced cs := by
  refine ⟨fun left right parts => ?_, level_flat flat⟩
  refine Int.le_of_eq (level_flat fun c member => flat c ?_).symm
  rw [parts]
  exact List.mem_append_left _ member

theorem Balanced.append {cs ds : List Char} (first : Balanced cs) (second : Balanced ds) :
    Balanced (cs ++ ds) := by
  refine ⟨fun left right parts => ?_, by rw [level_append, first.whole, second.whole]; rfl⟩
  rcases List.append_eq_append_iff.mp parts with ⟨more, rfl, rest⟩ | ⟨more, rest, -⟩
  · rw [level_append, first.whole, Int.zero_add]
    exact second.front more right rest
  · exact first.front left more rest

theorem Balanced.bracketed {cs : List Char} (inside : Balanced cs) :
    Balanced ('[' :: (cs ++ [']'])) := by
  have opens : level ['['] = 1 := by decide
  have closes : level [']'] = -1 := by decide
  refine ⟨fun left right parts => ?_, ?_⟩
  · cases left with
    | nil => exact Int.le_refl 0
    | cons c left =>
      obtain ⟨rfl, behind⟩ := List.cons.inj parts
      rw [level_cons, opens]
      rcases List.append_eq_append_iff.mp behind with ⟨more, rfl, rest⟩ | ⟨more, rest, -⟩
      · rw [level_append, inside.whole]
        have short : more = [] ∨ more = [']'] := by
          cases more with
          | nil => exact .inl rfl
          | cons d more =>
            obtain ⟨rfl, last⟩ := List.cons.inj rest
            exact .inr (by rw [(List.append_eq_nil_iff.mp last.symm).1])
        rcases short with rfl | rfl <;> decide
      · have inner := inside.front left more rest
        omega
  · rw [level_cons, level_append, inside.whole, opens, closes]
    rfl

theorem untilClosed_append {cs : List Char} {depth : Nat}
    (unclosed : ∀ left right, cs = left ++ right → 0 ≤ depth + level left) (rest : List Char) :
    untilClosed depth (cs ++ rest) =
      (untilClosed (depth + level cs).toNat rest).map fun p => (cs ++ p.1, p.2) := by
  induction cs generalizing depth with
  | nil => simp
  | cons c cs ih =>
    have later : ∀ {next : Nat}, (next : Int) = depth + level [c] →
        (untilClosed next (cs ++ rest)).map (fun p => (c :: p.1, p.2)) =
          (untilClosed (depth + level (c :: cs)).toNat rest).map
            fun p => (c :: cs ++ p.1, p.2) := by
      intro next step
      rw [ih fun left right parts => ?_, level_cons, ← Int.add_assoc, ← step, Option.map_map]
      · rfl
      · have bound := unclosed (c :: left) right (by rw [parts]; rfl)
        rw [level_cons] at bound
        omega
    have first := unclosed [c] cs rfl
    rw [List.cons_append, untilClosed.eq_def]
    dsimp only
    split
    · rename_i opens
      subst opens
      exact later (by rw [show level ['['] = 1 by decide]; rfl)
    · split
      · rename_i closes
        subst closes
        rw [show level [']'] = -1 by decide] at first
        cases depth with
        | zero => contradiction
        | succ depth => exact later (by rw [show level [']'] = -1 by decide]; omega)
      · rename_i notOpen notClose
        have flat : level [c] = 0 := level_flat fun b member => by
          obtain rfl := List.mem_singleton.mp member
          exact ⟨notOpen, notClose⟩
        exact later (by rw [flat, Int.add_zero])

theorem untilClosed_balanced {cs : List Char} (inside : Balanced cs) (rest : List Char) :
    untilClosed 0 (cs ++ ']' :: rest) = some (cs, rest) := by
  rw [untilClosed_append (by simpa using inside.front), inside.whole]
  simp [untilClosed]

/-! Places of an operator. -/

/-- The operator stands between the two texts, outside brackets and not as a sign. -/
structure Stands (op text left right : List Char) : Prop where
  parts : text = left ++ op ++ right
  outside : level left = 0
  unsigned : ¬ (op = ['-'] ∧ isSign left.reverse = true)

def Occurs (op text : List Char) : Prop := ∃ left right, Stands op text left right

structure StandsFirst (op text left right : List Char) : Prop extends
    Stands op text left right where
  first : ∀ left' right', Stands op text left' right' → left.length ≤ left'.length

theorem Stands.eq_of_length {op text left right left' right' : List Char}
    (stands : Stands op text left right) (stands' : Stands op text left' right')
    (same : left.length = left'.length) : left = left' ∧ right = right' := by
  have whole := stands.parts.symm.trans stands'.parts
  rw [List.append_assoc, List.append_assoc] at whole
  obtain ⟨lefts, rest⟩ := List.append_inj whole same
  exact ⟨lefts, List.append_cancel_left rest⟩

theorem StandsFirst.unique {op text left right left' right' : List Char}
    (first : StandsFirst op text left right) (first' : StandsFirst op text left' right') :
    left = left' ∧ right = right' := by
  refine first.toStands.eq_of_length first'.toStands (Nat.le_antisymm ?_ ?_)
  · exact first.first _ _ first'.toStands
  · exact first'.first _ _ first.toStands

section

variable {op text left right : List Char}

theorem Stands.behind (stands : Stands op text left right) (more : List Char) :
    Stands op (text ++ more) left (right ++ more) :=
  ⟨by rw [stands.parts, List.append_assoc], stands.outside, stands.unsigned⟩

theorem stands_front {front : List Char} (flat : level front = 0)
    (sign : isSign front.reverse = true) :
    Stands op (front ++ text) (front ++ left) right ↔ Stands op text left right := by
  have signs : isSign (front ++ left).reverse = isSign left.reverse := by
    rw [List.reverse_append, isSign_append sign]
  constructor
  · rintro ⟨parts, outside, unsigned⟩
    refine ⟨?_, ?_, signs ▸ unsigned⟩
    · rw [List.append_assoc, List.append_assoc] at parts
      rw [List.append_cancel_left parts, List.append_assoc]
    · rwa [level_append, flat, Int.zero_add] at outside
  · rintro ⟨parts, outside, unsigned⟩
    refine ⟨?_, ?_, signs ▸ unsigned⟩
    · rw [parts]
      simp only [List.append_assoc]
    · rw [level_append, flat, outside, Int.zero_add]

theorem Occurs.of_front {front : List Char} (flat : level front = 0)
    (sign : isSign front.reverse = true) (occurs : Occurs op text) : Occurs op (front ++ text) := by
  obtain ⟨left, right, stands⟩ := occurs
  exact ⟨_, _, (stands_front flat sign).mpr stands⟩

theorem Occurs.of_trim (occurs : Occurs op (Text.trim text)) : Occurs op text := by
  obtain ⟨bs, ds, parts, front, back⟩ := Text.trim_parts text
  have sign : isSign bs.reverse = true :=
    isSign_blank fun c member => front c (List.mem_reverse.mp member)
  obtain ⟨left, right, stands⟩ := occurs.of_front (level_blank front) sign
  rw [parts]
  exact ⟨_, _, stands.behind ds⟩

end

def Plain (op : List Char) : Prop := ∃ c cs, op = c :: cs ∧ c ≠ '[' ∧ c ≠ ']'

theorem stands_here_iff {op before cs : List Char} :
    (∃ right, Stands op (before.reverse ++ cs) before.reverse right) ↔
      level before = 0 ∧ op.isPrefixOf cs = true ∧ ¬ (op = ['-'] ∧ isSign before = true) := by
  constructor
  · rintro ⟨right, parts, outside, unsigned⟩
    rw [level_reverse] at outside
    rw [List.reverse_reverse] at unsigned
    rw [List.append_assoc] at parts
    refine ⟨outside, List.isPrefixOf_iff_prefix.mpr ?_, unsigned⟩
    exact ⟨right, (List.append_cancel_left parts).symm⟩
  · rintro ⟨outside, starts, unsigned⟩
    obtain ⟨right, rfl⟩ := List.isPrefixOf_iff_prefix.mp starts
    refine ⟨right, by rw [List.append_assoc], ?_, ?_⟩
    · rwa [level_reverse]
    · rwa [List.reverse_reverse]

theorem Stands.later {op before cs left right : List Char}
    (elsewhere : ¬ (level before = 0 ∧ op.isPrefixOf cs = true ∧
      ¬ (op = ['-'] ∧ isSign before = true)))
    (stands : Stands op (before.reverse ++ cs) left right) (here : before.length ≤ left.length) :
    before.length + 1 ≤ left.length := by
  refine Nat.lt_of_le_of_ne here fun same => elsewhere (stands_here_iff.mp ⟨right, ?_⟩)
  have front : left = before.reverse := by
    have parts := stands.parts
    rw [List.append_assoc] at parts
    exact (List.append_inj_left parts (by rw [List.length_reverse, same])).symm
  rwa [front] at stands

def Found (op text : List Char) (n : Nat) : Option (List Char × List Char) → Prop
  | some (left, right) => Stands op text left right ∧ n ≤ left.length ∧
      ∀ left' right', Stands op text left' right' → n ≤ left'.length → left.length ≤ left'.length
  | none => ∀ left right, Stands op text left right → left.length < n

theorem Found.skip {op text : List Char} {n : Nat} {outcome : Option (List Char × List Char)}
    (found : Found op text (n + 1) outcome)
    (later : ∀ left right, Stands op text left right → n ≤ left.length → n + 1 ≤ left.length) :
    Found op text n outcome := by
  match outcome with
  | some (left, right) =>
    obtain ⟨stands, bound, first⟩ := found
    exact ⟨stands, Nat.le_of_succ_le bound, fun left' right' stands' here =>
      first left' right' stands' (later left' right' stands' here)⟩
  | none =>
    intro left right stands
    refine Nat.lt_of_not_le fun here => ?_
    exact absurd (found left right stands) (Nat.not_lt.mpr (later left right stands here))

theorem splitAt?_found {op : List Char} (plain : Plain op) (before cs : List Char) :
    Found op (before.reverse ++ cs) before.length (splitAt? op (level before) before cs) := by
  obtain ⟨d, ds, rfl, noOpen, noClose⟩ := plain
  induction cs generalizing before with
  | nil =>
    intro left right stands
    have long := congrArg List.length stands.parts
    simp at long
    omega
  | cons c cs ih =>
    have rest := ih (c :: before)
    rw [List.reverse_cons, List.append_assoc, List.singleton_append, level_cons,
      List.length_cons] at rest
    rw [splitAt?]
    split
    · rename_i opens
      subst opens
      rw [Int.add_comm]
      exact rest.skip fun left right => Stands.later fun here => by simp [noOpen] at here
    · split
      · rename_i closes
        subst closes
        rw [Int.sub_eq_add_neg, Int.add_comm]
        exact rest.skip fun left right => Stands.later fun here => by simp [noClose] at here
      · rename_i notOpen notClose
        have flat : level [c] = 0 := level_flat fun b member => by
          obtain rfl := List.mem_singleton.mp member
          exact ⟨notOpen, notClose⟩
        rw [flat, Int.zero_add] at rest
        split
        · rename_i here
          obtain ⟨right, stands⟩ := stands_here_iff.mpr here
          have behind : c :: cs = (d :: ds) ++ right := by
            have parts := stands.parts
            rw [List.append_assoc] at parts
            exact List.append_cancel_left parts
          rw [behind, List.drop_left]
          rw [behind] at stands
          exact ⟨stands, by simp, fun left' right' _ bound => by simpa using bound⟩
        · rename_i elsewhere
          exact rest.skip fun left right => Stands.later elsewhere

theorem splitAt?_eq_none_iff {op : List Char} (plain : Plain op) (cs : List Char) :
    splitAt? op 0 [] cs = none ↔ ¬ Occurs op cs := by
  have found : Found op cs 0 (splitAt? op 0 [] cs) := splitAt?_found plain [] cs
  constructor
  · rintro gone ⟨left, right, stands⟩
    rw [gone] at found
    exact absurd (found left right stands) (Nat.not_lt_zero _)
  · intro absent
    match outcome : splitAt? op 0 [] cs with
    | none => rfl
    | some (left, right) =>
      rw [outcome] at found
      exact absurd ⟨left, right, found.1⟩ absent

theorem splitAt?_eq_some_iff {op : List Char} (plain : Plain op) (cs left right : List Char) :
    splitAt? op 0 [] cs = some (left, right) ↔ StandsFirst op cs left right := by
  have found : Found op cs 0 (splitAt? op 0 [] cs) := splitAt?_found plain [] cs
  match outcome : splitAt? op 0 [] cs with
  | none =>
    rw [outcome] at found
    refine iff_of_false nofun fun stands => ?_
    exact absurd (found _ _ stands.toStands) (Nat.not_lt_zero _)
  | some (left', right') =>
    rw [outcome] at found
    have first : StandsFirst op cs left' right' :=
      ⟨found.1, fun l r stands => found.2.2 l r stands (Nat.zero_le _)⟩
    constructor
    · rintro same
      cases same
      exact first
    · intro stands
      obtain ⟨rfl, rfl⟩ := first.unique stands
      rfl

/-! The order of the operators. -/

theorem plain_text (op : BinaryOp Empty) : Plain op.text.toList := by
  cases op with
  | compare c => cases c <;> exact ⟨_, _, rfl, by decide, by decide⟩
  | compute a => cases a <;> exact ⟨_, _, rfl, by decide, by decide⟩
  | other mark text => exact mark.elim

end Expr

def BinaryOp.rank (op : BinaryOp Empty) : Nat := BinaryOp.all.idxOf op

namespace BinaryOp

theorem mem_all (op : BinaryOp Empty) : op ∈ all := by
  cases op with
  | compare c => cases c <;> decide
  | compute a => cases a <;> decide
  | other mark text => exact mark.elim

theorem rank_inj {op op' : BinaryOp Empty} (same : op.rank = op'.rank) : op = op' :=
  (List.idxOf_inj op.mem_all).mp same

theorem mem_before {earlier later : List (BinaryOp Empty)} {op : BinaryOp Empty}
    (order : all = earlier ++ op :: later) (op' : BinaryOp Empty) :
    op' ∈ earlier ↔ op'.rank < op.rank := by
  have distinct : (earlier ++ op :: later).Nodup := order ▸ by decide
  have absent : op ∉ earlier := fun member =>
    (List.nodup_append.mp distinct).2.2 op member op (List.mem_cons_self ..) rfl
  unfold rank
  rw [order, List.idxOf_append, List.idxOf_append, if_neg absent, List.idxOf_cons_self]
  by_cases member : op' ∈ earlier
  · rw [if_pos member]
    exact iff_of_true member (by simpa using List.idxOf_lt_length_of_mem member)
  · rw [if_neg member]
    exact iff_of_false member (by omega)

end BinaryOp

namespace Expr

theorem splitOperator?_eq_none_iff {cs : List Char} {ops : List (BinaryOp Empty)} :
    splitOperator? cs ops = none ↔ ∀ op ∈ ops, ¬ Occurs op.text.toList cs := by
  induction ops with
  | nil => simp [splitOperator?]
  | cons op ops ih =>
    rw [splitOperator?, List.forall_mem_cons, ← ih, ← splitAt?_eq_none_iff (plain_text op)]
    split
    · rename_i found
      simp [found]
    · rename_i gone
      simp [gone]

/-- The operator found is the first of the list that occurs. -/
theorem splitOperator?_eq_some_iff {cs left right : List Char} {op : BinaryOp Empty}
    {ops : List (BinaryOp Empty)} :
    splitOperator? cs ops = some (op, left, right) ↔
      ∃ earlier later, ops = earlier ++ op :: later ∧
        StandsFirst op.text.toList cs left right ∧ ∀ o ∈ earlier, ¬ Occurs o.text.toList cs := by
  induction ops with
  | nil => simp [splitOperator?]
  | cons o ops ih =>
    rw [splitOperator?]
    split
    · rename_i sides found
      have first := (splitAt?_eq_some_iff (plain_text o) cs sides.1 sides.2).mp found
      constructor
      · intro same
        cases same
        exact ⟨[], ops, rfl, first, List.forall_mem_nil _⟩
      · rintro ⟨earlier, later, order, stands, absent⟩
        cases earlier with
        | nil =>
          cases order
          obtain ⟨rfl, rfl⟩ := first.unique stands
          rfl
        | cons o' earlier =>
          cases order
          exact absurd ⟨_, _, first.toStands⟩ (absent o (List.mem_cons_self ..))
    · rename_i gone
      have missing := (splitAt?_eq_none_iff (plain_text o) cs).mp gone
      rw [ih]
      constructor
      · rintro ⟨earlier, later, rfl, stands, absent⟩
        exact ⟨o :: earlier, later, rfl, stands, List.forall_mem_cons.mpr ⟨missing, absent⟩⟩
      · rintro ⟨earlier, later, order, stands, absent⟩
        cases earlier with
        | nil =>
          cases order
          exact absurd ⟨_, _, stands.toStands⟩ missing
        | cons o' earlier =>
          cases order
          exact ⟨earlier, later, rfl, stands, (List.forall_mem_cons.mp absent).2⟩

theorem splitOperator?_all_iff {cs left right : List Char} {op : BinaryOp Empty} :
    splitOperator? cs BinaryOp.all = some (op, left, right) ↔
      StandsFirst op.text.toList cs left right ∧
        ∀ o : BinaryOp Empty, o.rank < op.rank → ¬ Occurs o.text.toList cs := by
  rw [splitOperator?_eq_some_iff]
  constructor
  · rintro ⟨earlier, later, order, stands, absent⟩
    exact ⟨stands, fun o lower => absent o ((BinaryOp.mem_before order o).mpr lower)⟩
  · rintro ⟨stands, absent⟩
    obtain ⟨earlier, later, order⟩ := List.append_of_mem op.mem_all
    exact ⟨earlier, later, order, stands, fun o member =>
      absent o ((BinaryOp.mem_before order o).mp member)⟩

end Expr

end Assay
