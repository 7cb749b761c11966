/-
Module: RiftRoute.Library.Texts
Purpose: Texts made of fields with a separator between them and decimal
  numerals, where a text first occurs within another, and lines of words with
  one blank between them.
Trusted boundary: none
-/
import Mathlib.Data.List.Basic
import Mathlib.Data.List.Infix

namespace Texts

open List

/-- Split at every occurrence of a character. -/
def splitOn (separator : Char) : List Char → List (List Char)
  | [] => [[]]
  | c :: rest =>
    if c = separator then [] :: splitOn separator rest
    else
      match splitOn separator rest with
      | [] => [[c]]
      | first :: others => (c :: first) :: others

/-- Fields with a separator between each two of them. -/
def joinOn (separator : Char) : List (List Char) → List Char
  | [] => []
  | [field] => field
  | field :: next :: rest =>
    field ++ separator :: joinOn separator (next :: rest)

/-- Go's `unicode.IsSpace`. -/
def isSpace (c : Char) : Bool :=
  let n := c.toNat
  (9 ≤ n && n ≤ 13) || n = 0x20 || n = 0x85 || n = 0xa0 || n = 0x1680 ||
    (0x2000 ≤ n && n ≤ 0x200a) || n = 0x2028 || n = 0x2029 || n = 0x202f ||
    n = 0x205f || n = 0x3000

theorem isAlphanum_iff {c : Char} : c.isAlphanum ↔
    ((65 ≤ c.val ∧ c.val ≤ 90) ∨ (97 ≤ c.val ∧ c.val ≤ 122)) ∨ (48 ≤ c.val ∧ c.val ≤ 57) := by
  have unfolded : c.isAlphanum = ((decide (65 ≤ c.val ∧ c.val ≤ 90) ||
        decide (97 ≤ c.val) && decide (c.val ≤ 122)) ||
        decide (48 ≤ c.val) && decide (c.val ≤ 57)) := rfl
  simp only [unfolded, Bool.or_eq_true, Bool.and_eq_true, decide_eq_true_eq]

theorem not_isSpace_of_isAlphanum {c : Char} (letter : c.isAlphanum) : isSpace c = false := by
  have bounds : 48 ≤ c.val.toNat ∧ c.val.toNat ≤ 122 := by
    rw [isAlphanum_iff] at letter
    rcases letter with (⟨low, high⟩ | ⟨low, high⟩) | ⟨low, high⟩
    all_goals exact ⟨Nat.le_trans (by decide) low, Nat.le_trans high (by decide)⟩
  have same : c.toNat = c.val.toNat := rfl
  simp only [isSpace, Bool.or_eq_false_iff, Bool.and_eq_false_iff, decide_eq_false_iff_not]
  omega

/-- Go's `strings.Fields`: the maximal runs without white space. -/
def words (s : String) : List String :=
  (s.toList.splitOnP isSpace).filterMap fun word =>
    if word = [] then none else some (String.ofList word)

/-- Go's `strings.TrimSpace`. -/
def trimSpace (s : String) : String :=
  String.ofList ((s.toList.dropWhile isSpace).reverse.dropWhile isSpace).reverse

variable {separator : Char}

theorem splitOn_of_free {field : List Char} (free : separator ∉ field) :
    splitOn separator field = [field] := by
  induction field with
  | nil => rfl
  | cons c rest ih =>
    rw [mem_cons, not_or] at free
    have differs : c ≠ separator := fun equal => free.1 equal.symm
    simp [splitOn, differs, ih free.2]

theorem splitOn_ne_nil (separator : Char) (s : List Char) : splitOn separator s ≠ [] := by
  cases s with
  | nil => exact cons_ne_nil _ _
  | cons c rest =>
    rw [splitOn]
    split
    · exact cons_ne_nil _ _
    · split <;> exact cons_ne_nil _ _

theorem splitOn_cut (separator : Char) (front back : List Char) :
    splitOn separator (front ++ separator :: back) =
      splitOn separator front ++ splitOn separator back := by
  induction front with
  | nil => simp [splitOn]
  | cons c front ih =>
    rw [cons_append, splitOn, splitOn, ih]
    split
    case isTrue => rfl
    case isFalse =>
      cases cut : splitOn separator front with
      | nil => exact absurd cut (splitOn_ne_nil separator front)
      | cons first others => rfl

theorem splitOn_append {field : List Char} (free : separator ∉ field) (rest : List Char) :
    splitOn separator (field ++ separator :: rest) = field :: splitOn separator rest := by
  rw [splitOn_cut, splitOn_of_free free]
  rfl

theorem splitOn_joinOn {fields : List (List Char)} (some : fields ≠ [])
    (free : ∀ field ∈ fields, separator ∉ field) :
    splitOn separator (joinOn separator fields) = fields := by
  induction fields with
  | nil => exact absurd rfl some
  | cons field rest ih =>
    have fieldFree := free field mem_cons_self
    cases rest with
    | nil => exact splitOn_of_free fieldFree
    | cons next rest =>
      rw [joinOn, splitOn_append fieldFree]
      rw [ih (by simp)]
      intro other member
      exact free other (mem_cons_of_mem _ member)

/-- Separator-free fields can be read off the joined text. -/
theorem joinOn_injOn {first second : List (List Char)}
    (firstSome : first ≠ []) (secondSome : second ≠ [])
    (firstFree : ∀ field ∈ first, separator ∉ field)
    (secondFree : ∀ field ∈ second, separator ∉ field)
    (same : joinOn separator first = joinOn separator second) :
    first = second := by
  rw [← splitOn_joinOn firstSome firstFree, same, splitOn_joinOn secondSome secondFree]

/-! ### Decimal numerals -/

theorem isDigit_of_mem_natRepr {n : Nat} {c : Char} (member : c ∈ n.repr.toList) : c.isDigit := by
  rw [Nat.repr, String.toList_ofList] at member
  exact Nat.isDigit_of_mem_toDigits (by decide) (by decide) member

theorem natRepr_inj {first second : Nat} (same : first.repr = second.repr) : first = second := by
  have digits : Nat.toDigits 10 first = Nat.toDigits 10 second := by
    have chars := congrArg String.toList same
    rwa [Nat.repr, Nat.repr, String.toList_ofList, String.toList_ofList] at chars
  rw [← Nat.ofDigitChars_ten_toDigits (n := first), digits, Nat.ofDigitChars_ten_toDigits]

theorem intRepr_inj {first second : Int} (same : first.repr = second.repr) : first = second := by
  have signed : ∀ m n : Nat, m.repr ≠ "-" ++ n.repr := by
    intro m n same
    have digit : '-'.isDigit := isDigit_of_mem_natRepr (n := m) (by simp [same])
    cases digit
  cases first with
  | ofNat m =>
    cases second with
    | ofNat n => exact congrArg Int.ofNat (natRepr_inj same)
    | negSucc n => exact absurd same (signed m n.succ)
  | negSucc m =>
    cases second with
    | ofNat n => exact absurd same.symm (signed n m.succ)
    | negSucc n =>
      have digits : m.succ.repr.toList = n.succ.repr.toList := by
        have chars : ("-" ++ m.succ.repr).toList = ("-" ++ n.succ.repr).toList :=
          congrArg String.toList same
        rwa [String.toList_append, String.toList_append, append_cancel_left_eq] at chars
      exact congrArg Int.negSucc (Nat.succ.inj (natRepr_inj (String.toList_inj.mp digits)))

/-- Two words with a blank between them. -/
theorem words_pair {first second : String}
    (front : ∀ c ∈ first.toList, isSpace c = false) (some : first ≠ "")
    (back : ∀ c ∈ second.toList, isSpace c = false) (more : second ≠ "") :
    words (first ++ " " ++ second) = [first, second] := by
  have space : " ".toList = [' '] := rfl
  rw [words, String.toList_append, String.toList_append, space,
    append_assoc, singleton_append,
    splitOnP_append_cons_of_forall_mem front _ (by decide),
    splitOnP_eq_singleton back]
  simp [some, more]

end Texts

namespace Occurrences

open List

variable {α : Type*} [DecidableEq α]

/-- The position of the first occurrence, Go's `strings.Index`. -/
def index (mark : List α) : List α → Option Nat
  | [] => if mark = [] then some 0 else none
  | c :: rest =>
    if mark.isPrefixOf (c :: rest) then some 0
    else (index mark rest).map (· + 1)

theorem index_isSome_iff {mark text : List α} : (index mark text).isSome ↔ mark <:+: text := by
  induction text with
  | nil =>
    rw [index, infix_nil]
    split <;> simp_all
  | cons c rest ih =>
    rw [index, infix_cons_iff, ← ih]
    split
    case isTrue here =>
      simp [List.isPrefixOf_iff_prefix.mp here]
    case isFalse absent =>
      rw [List.isPrefixOf_iff_prefix] at absent
      simp [absent]

theorem index_eq_none {mark text : List α} (absent : ¬ mark <:+: text) :
    index mark text = none := by
  rw [← Option.not_isSome_iff_eq_none, index_isSome_iff]
  exact absent

/-! ### Rows -/

section Rows

omit [DecidableEq α]

/-- Nothing follows the last separator. -/
def Closed (sep : α) (text : List α) : Prop := ∀ last ∈ text.getLast?, last = sep

theorem Closed.nil (sep : α) : Closed sep [] := by
  intro last member
  cases member

theorem Closed.append_sep (sep : α) (text : List α) : Closed sep (text ++ [sep]) := by
  intro last member
  rw [getLast?_concat] at member
  cases member
  rfl

theorem Closed.append {sep : α} {front back : List α}
    (first : Closed sep front) (second : Closed sep back) :
    Closed sep (front ++ back) := by
  intro last member
  rw [getLast?_append] at member
  cases ends : back.getLast? with
  | none =>
    rw [ends, Option.none_or] at member
    exact first last member
  | some other =>
    rw [ends, Option.some_or] at member
    exact second last (ends.trans member)

theorem Closed.eq_nil_or_append {sep : α} {text : List α} (closed : Closed sep text) :
    text = [] ∨ ∃ front, text = front ++ [sep] := by
  rcases eq_nil_or_concat text with empty | ⟨front, last, rfl⟩
  · exact .inl empty
  · rw [concat_eq_append] at closed ⊢
    have same : last = sep := closed last getLast?_concat
    exact .inr ⟨front, by rw [same]⟩

theorem Closed.tail {sep c : α} {text : List α}
    (closed : Closed sep (c :: text)) : Closed sep text := by
  intro last member
  apply closed last
  cases text with
  | nil => cases member
  | cons d rest => rwa [getLast?_cons_cons]

/-- An occurrence cannot reach over a separator it does not hold. -/
theorem infix_cut_iff {sep : α} {mark front back : List α} (plain : sep ∉ mark) :
    mark <:+: front ++ sep :: back ↔ mark <:+: front ∨ mark <:+: back := by
  constructor
  · rintro ⟨before, rest, whole⟩
    rw [append_assoc, append_eq_append_iff] at whole
    rcases whole with ⟨more, rfl, whole⟩ | ⟨more, rfl, whole⟩
    · -- the occurrence starts in the front
      rw [append_eq_append_iff] at whole
      rcases whole with ⟨other, rfl, whole⟩ | ⟨other, rfl, whole⟩
      · exact .inl ⟨before, other, by simp⟩
      · cases other with
        | nil => exact .inl ⟨before, [], by simp⟩
        | cons d other =>
          obtain ⟨rfl, -⟩ := List.cons.inj whole
          exact absurd (mem_append_right _ mem_cons_self) plain
    · cases more with
      | nil =>
        cases mark with
        | nil => exact .inl nil_infix
        | cons d mark =>
          obtain ⟨rfl, -⟩ := List.cons.inj whole
          exact absurd mem_cons_self plain
      | cons d more =>
        obtain ⟨-, rfl⟩ := List.cons.inj whole
        exact .inr ⟨more, rest, by simp⟩
  · rintro (inside | inside)
    · exact inside.trans (prefix_append _ _).isInfix
    · have later : back <:+ front ++ sep :: back := ⟨front ++ [sep], by simp⟩
      exact inside.trans later.isInfix

theorem infix_closed_iff {sep : α} {mark front back : List α}
    (plain : sep ∉ mark) (closed : Closed sep front) :
    mark <:+: front ++ back ↔ mark <:+: front ∨ mark <:+: back := by
  rcases closed.eq_nil_or_append with rfl | ⟨first, rfl⟩
  · rw [nil_append, infix_nil]
    constructor
    · exact .inr
    · rintro (rfl | inside)
      · exact nil_infix
      · exact inside
  · have inFront := @infix_cut_iff α sep mark first [] plain
    rw [append_assoc, singleton_append, infix_cut_iff plain, inFront, infix_nil]
    constructor
    · rintro (inside | inside)
      · exact .inl (.inl inside)
      · exact .inr inside
    · rintro ((inside | rfl) | inside)
      · exact .inl inside
      · exact .inl nil_infix
      · exact .inr inside

end Rows

/-- After closed rows without it, a text stands where they end. -/
theorem index_closed {sep : α} {mark front : List α} (rest : List α)
    (plain : sep ∉ mark) (closed : Closed sep front)
    (absent : ¬ mark <:+: front) :
    index mark (front ++ (mark ++ rest)) = some front.length := by
  induction front with
  | nil =>
    cases whole : mark ++ rest with
    | nil =>
      obtain ⟨rfl, -⟩ := append_eq_nil_iff.mp whole
      rfl
    | cons c more =>
      have here : mark.isPrefixOf (c :: more) := by
        rw [List.isPrefixOf_iff_prefix]
        exact ⟨rest, whole⟩
      rw [nil_append, index, if_pos here, length_nil]
  | cons c front ih =>
    have later : ¬ mark <:+: front := fun inside =>
      absent (infix_cons inside)
    have elsewhere : ¬ mark.isPrefixOf (c :: (front ++ (mark ++ rest))) := by
      -- either within the front, or with its last separator
      rw [List.isPrefixOf_iff_prefix]
      intro here
      rcases prefix_or_prefix_of_prefix here
        (prefix_append (c :: front) (mark ++ rest)) with within | beyond
      · exact absent within.isInfix
      · rcases closed.eq_nil_or_append with empty | ⟨first, whole⟩
        · cases empty
        · rw [whole] at beyond
          exact plain (beyond.subset (by simp))
    rw [cons_append, index, if_neg elsewhere, ih closed.tail later]
    rfl

end Occurrences

namespace Texts

open List

/-! ### Occurrences -/

/-- What follows the first occurrence of a text, Go's `strings.Index`. -/
def after (text : List Char) : List Char → Option (List Char)
  | [] => if text = [] then some [] else none
  | c :: rest =>
    if text.isPrefixOf (c :: rest) then some ((c :: rest).drop text.length)
    else after text rest

/-- Go's `strings.Contains`. -/
def contains (text s : List Char) : Bool := (after text s).isSome

section Occurrences

variable {text s : List Char}

theorem contains_iff : contains text s ↔ text <:+: s := by
  unfold contains
  induction s with
  | nil =>
    rw [after, infix_nil]
    split <;> simp_all
  | cons c rest ih =>
    rw [after, infix_cons_iff, ← ih]
    split
    case isTrue here =>
      simp [List.isPrefixOf_iff_prefix.mp here]
    case isFalse absent =>
      rw [List.isPrefixOf_iff_prefix] at absent
      simp [absent]

/-- The first occurrence of a text whose last character comes nowhere
before. -/
theorem after_first {front before rest : List Char} {last : Char}
    (fresh : last ∉ before) (once : last ∉ front) :
    after (front ++ [last]) (before ++ (front ++ last :: rest)) = some rest := by
  induction before with
  | nil =>
    have here : (front ++ [last]).isPrefixOf (front ++ last :: rest) := by
      rw [List.isPrefixOf_iff_prefix]
      exact ⟨rest, by simp⟩
    have dropped : (front ++ last :: rest).drop (front ++ [last]).length = rest := by
      rw [show front ++ last :: rest = (front ++ [last]) ++ rest by simp]
      exact drop_left
    cases split : front ++ last :: rest with
    | nil => simp at split
    | cons c more =>
      rw [split] at here dropped
      rw [nil_append, after, if_pos here, dropped]
  | cons c before ih =>
    rw [mem_cons, not_or] at fresh
    obtain ⟨apart, later⟩ := fresh
    have elsewhere : ¬ (front ++ [last]).isPrefixOf (c :: (before ++ (front ++ last :: rest))) := by
      -- the last character would stand before its first place
      rw [List.isPrefixOf_iff_prefix]
      intro here
      have shorter : front ++ [last] <+: c :: (before ++ front) := by
        refine prefix_of_prefix_length_le here ?_ (by simp)
        exact ⟨last :: rest, by simp⟩
      have inside : last ∈ c :: (before ++ front) := shorter.subset (by simp)
      rcases mem_cons.mp inside with same | inside
      · exact apart same
      · rcases mem_append.mp inside with early | early
        · exact later early
        · exact once early
    rw [cons_append, after, if_neg elsewhere, ih later]

end Occurrences

/-! ### Lines of words -/

/-- A text that `words` leaves alone. -/
def Word (w : String) : Prop := w ≠ "" ∧ ∀ c ∈ w.toList, isSpace c = false

instance (w : String) : Decidable (Word w) := @instDecidableAnd _ _ _ (decidableBAll _ _)

def unwords (ws : List String) : String := String.ofList (joinOn ' ' (ws.map String.toList))

theorem unwords_cons (w next : String) (rest : List String) :
    unwords (w :: next :: rest) = w ++ " " ++ unwords (next :: rest) := by
  rw [← String.toList_inj]
  simp [unwords, joinOn]

theorem unwords_singleton (w : String) : unwords [w] = w := by
  simp [unwords, joinOn]

theorem unwords_append {front back : List String} (first : front ≠ []) (second : back ≠ []) :
    unwords (front ++ back) = unwords front ++ " " ++ unwords back := by
  induction front with
  | nil => exact absurd rfl first
  | cons w front ih =>
    cases front with
    | nil =>
      cases back with
      | nil => exact absurd rfl second
      | cons next back =>
        rw [singleton_append, unwords_cons, unwords_singleton]
    | cons next front =>
      rw [cons_append, cons_append, unwords_cons,
        ← cons_append, ih (cons_ne_nil _ _),
        unwords_cons]
      simp only [String.append_assoc]

/-- The words of a line are found again. -/
theorem words_unwords {ws : List String} (each : ∀ w ∈ ws, Word w) : words (unwords ws) = ws := by
  induction ws with
  | nil => rfl
  | cons w ws ih =>
    obtain ⟨⟨some, plain⟩, rest⟩ := forall_mem_cons.mp each
    have nonempty : w.toList ≠ [] := by
      rwa [ne_eq, String.toList_eq_nil_iff]
    cases ws with
    | nil =>
      rw [unwords_singleton, words, splitOnP_eq_singleton plain]
      simp [some]
    | cons next ws =>
      have blank : isSpace ' ' = true := by decide
      have cut : (unwords (w :: next :: ws)).toList =
          w.toList ++ ' ' :: (unwords (next :: ws)).toList := by
        rw [unwords_cons, String.toList_append, String.toList_append]
        simp
      have later := ih rest
      rw [words] at later ⊢
      rw [cut, splitOnP_append_cons_of_forall_mem plain _ blank,
        filterMap_cons, if_neg nonempty, later]
      simp

theorem mem_unwords {ws : List String} {c : Char}
    (member : c ∈ (unwords ws).toList) : c = ' ' ∨ ∃ w ∈ ws, c ∈ w.toList := by
  induction ws with
  | nil => simp [unwords, joinOn] at member
  | cons w ws ih =>
    cases ws with
    | nil =>
      rw [unwords_singleton] at member
      exact .inr ⟨w, mem_cons_self, member⟩
    | cons next ws =>
      rw [unwords_cons, String.toList_append, String.toList_append,
        mem_append, mem_append] at member
      rcases member with (here | blank) | later
      · exact .inr ⟨w, mem_cons_self, here⟩
      · exact .inl (by simpa using blank)
      · rcases ih later with blank | ⟨x, inside, here⟩
        · exact .inl blank
        · exact .inr ⟨x, mem_cons_of_mem _ inside, here⟩

/-- A word between blanks is one of a line's words, neither the first nor the
last. -/
theorem contains_blank_iff {ws : List String} (each : ∀ w ∈ ws, Word w)
    {x : String} (word : Word x) :
    contains (' ' :: (x.toList ++ [' '])) (unwords ws).toList ↔
      ∃ front back, ws = front ++ x :: back ∧ front ≠ [] ∧ back ≠ [] := by
  rw [contains_iff]
  constructor
  · rintro ⟨front, back, whole⟩
    have free : ∀ w ∈ ws, ' ' ∉ w.toList := by
      intro w member inside
      exact absurd ((each w member).2 ' ' inside) (by decide)
    have xFree : ' ' ∉ x.toList := fun inside =>
      absurd (word.2 ' ' inside) (by decide)
    have some : ws ≠ [] := by
      rintro rfl
      simp [unwords, joinOn] at whole
    have fields : ws.map String.toList = splitOn ' ' front ++ x.toList :: splitOn ' ' back := by
      have split : splitOn ' ' (unwords ws).toList = ws.map String.toList := by
        rw [unwords, String.toList_ofList]
        refine splitOn_joinOn (by simpa using some) ?_
        intro field member
        obtain ⟨w, inside, rfl⟩ := mem_map.mp member
        exact free w inside
      have regroup : front ++ ' ' :: (x.toList ++ [' ']) ++ back =
          front ++ ' ' :: (x.toList ++ ' ' :: back) := by
        simp
      rw [← split, ← whole, regroup, splitOn_cut, splitOn_cut, splitOn_of_free xFree]
      rfl
    obtain ⟨first, others, rfl, left, right⟩ := map_eq_append_iff.mp fields
    obtain ⟨y, second, rfl, same, last⟩ := map_eq_cons_iff.mp right
    obtain rfl := String.toList_inj.mp same
    refine ⟨first, second, rfl, ?_, ?_⟩
    · rintro rfl
      exact splitOn_ne_nil ' ' front left.symm
    · rintro rfl
      exact splitOn_ne_nil ' ' back last.symm
  · rintro ⟨front, back, rfl, first, second⟩
    rw [unwords_append first (cons_ne_nil _ _)]
    cases back with
    | nil => exact absurd rfl second
    | cons next back =>
      rw [unwords_cons]
      refine ⟨(unwords front).toList, (unwords (next :: back)).toList, ?_⟩
      simp

/-! ### Lines -/

/-- Go's `strings.Split` at line breaks. -/
def lines (s : String) : List String := (splitOn '\n' s.toList).map String.ofList

/-- Lines, each ended. -/
def unlines (rows : List String) : String :=
  String.ofList (rows.flatMap fun row => row.toList ++ ['\n'])

/-- Lines written one by one are read back, before the empty one at the
end. -/
theorem lines_unlines {rows : List String} (free : ∀ row ∈ rows, '\n' ∉ row.toList) :
    lines (unlines rows) = rows ++ [""] := by
  have split : splitOn '\n' (rows.flatMap fun row => row.toList ++ ['\n']) =
      rows.map String.toList ++ [[]] := by
    induction rows with
    | nil => rfl
    | cons row rows ih =>
      obtain ⟨here, later⟩ := forall_mem_cons.mp free
      rw [flatMap_cons, append_assoc, singleton_append,
        splitOn_append here, ih later]
      rfl
  rw [lines, unlines, String.toList_ofList, split]
  simp [Function.comp_def]

end Texts
