/-
Module: RiftRoute.Library.Bytes
Purpose: Byte strings.  Texts written line by line split into the same lines;
  white space is trimmed as Go trims it, whose encodings span up to three
  bytes; a long line is cut into chunks.
Trusted boundary: none
-/
import Mathlib.Data.List.Basic

/-- A Go string. -/
abbrev Bytes := List UInt8

namespace Bytes

open List

/-- The encoding of a text. -/
def utf8 (s : String) : Bytes := s.toByteArray.data.toList

theorem utf8_eq_flatMap (s : String) : utf8 s = s.toList.flatMap String.utf8EncodeChar := by
  rw [utf8, ← String.utf8Encode_toList, utf8Encode, data_toByteArray, toList_toArray]

def newline : UInt8 := 10

theorem eq_of_newline_mem {c : Char} (member : newline ∈ String.utf8EncodeChar c) : c = '\n' := by
  have value : ∀ n : Nat, n < 256 → newline = UInt8.ofNat n → n = 10 := by
    intro n small same
    have := congrArg UInt8.toNat same
    rw [UInt8.toNat_ofNat_of_lt' small] at this
    exact this.symm
  have code : c.val.toNat = 10 := by
    unfold String.utf8EncodeChar at member
    dsimp only at member
    generalize c.val.toNat = v at member ⊢
    split at member
    · rw [mem_singleton] at member
      exact value v (by omega) member
    · split at member
      · simp only [mem_cons, not_mem_nil, or_false] at member
        rcases member with same | same <;>
          have := value _ (by omega) same <;> omega
      · split at member
        · simp only [mem_cons, not_mem_nil, or_false] at member
          rcases member with same | same | same <;>
            have := value _ (by omega) same <;> omega
        · simp only [mem_cons, not_mem_nil, or_false] at member
          rcases member with same | same | same | same <;>
            have := value _ (by omega) same <;> omega
  apply Char.ext
  apply UInt32.toNat_inj.mp
  exact code

/-- A text's encoding breaks the line only where the text does. -/
theorem newline_not_mem_utf8 {s : String} (free : '\n' ∉ s.toList) : newline ∉ utf8 s := by
  intro member
  rw [utf8_eq_flatMap] at member
  obtain ⟨c, inside, here⟩ := mem_flatMap.mp member
  exact free (eq_of_newline_mem here ▸ inside)

/-! ### Lines -/

/-- Lines, each ended. -/
def unlines (rows : List Bytes) : Bytes := rows.flatMap (· ++ [newline])

theorem unlines_append (first second : List Bytes) :
    unlines (first ++ second) = unlines first ++ unlines second :=
  flatMap_append

/-- Lines written one by one are read back, before the empty one at the
end. -/
theorem splitOn_unlines {rows : List Bytes} (free : ∀ row ∈ rows, newline ∉ row) :
    (unlines rows).splitOn newline = rows ++ [[]] := by
  induction rows with
  | nil => rfl
  | cons row rows ih =>
    have here : newline ∉ row := free row mem_cons_self
    have cut : unlines (row :: rows) = row ++ newline :: unlines rows := by
      simp [unlines]
    rw [cut, splitOn_append_cons_self_of_not_mem here, ih fun other member =>
        free other (mem_cons_of_mem _ member)]
    rfl

theorem unlines_splitOn (text : Bytes) : unlines (text.splitOn newline) = text ++ [newline] := by
  have joined : ∀ rows : List Bytes, rows ≠ [] →
      unlines rows = [newline].intercalate rows ++ [newline] := by
    intro rows some
    induction rows with
    | nil => exact absurd rfl some
    | cons row rows ih =>
      cases rows with
      | nil => simp [unlines, intercalate]
      | cons next rows =>
        have rest := ih (by simp)
        have cut : unlines (row :: next :: rows) = row ++ newline :: unlines (next :: rows) := by
          simp [unlines]
        rw [cut, rest]
        simp [intercalate]
  rw [joined _ (List.splitOn_ne_nil _ _), intercalate_splitOn]

/-- A line holds no line break, and nothing the text does not. -/
theorem mem_of_mem_splitOn {text row : Bytes}
    (member : row ∈ text.splitOn newline) {b : UInt8} (here : b ∈ row) :
    b ∈ text ∧ b ≠ newline := by
  induction text generalizing row with
  | nil =>
    rw [splitOn_nil, mem_singleton] at member
    subst member
    cases here
  | cons c text ih =>
    rw [splitOn_cons_eq_if_modifyHead] at member
    split at member
    case isTrue =>
      rcases mem_cons.mp member with rfl | later
      · cases here
      · obtain ⟨inside, apart⟩ := ih later here
        exact ⟨mem_cons_of_mem _ inside, apart⟩
    case isFalse differs =>
      cases cut : text.splitOn newline with
      | nil => exact absurd cut (List.splitOn_ne_nil _ _)
      | cons first rest =>
        rw [cut] at member ih
        rcases mem_cons.mp member with rfl | later
        · rcases mem_cons.mp here with rfl | inside
          · exact ⟨mem_cons_self, by simpa using differs⟩
          · obtain ⟨inside, apart⟩ := ih mem_cons_self inside
            exact ⟨mem_cons_of_mem _ inside, apart⟩
        · obtain ⟨inside, apart⟩ := ih (mem_cons_of_mem _ later) here
          exact ⟨mem_cons_of_mem _ inside, apart⟩

variable {size : Nat} (b : UInt8)

/-- Go's `strings.Trim` of one byte. -/
def trim (text : Bytes) : Bytes :=
  ((text.dropWhile (· = b)).reverse.dropWhile (· = b)).reverse

/-- A line left by trimming line breaks was there before. -/
theorem mem_splitOn_of_trim {text row : Bytes}
    (member : row ∈ (trim newline text).splitOn newline) :
    row ∈ text.splitOn newline := by
  have left : ∀ text : Bytes, ∀ row ∈ (text.dropWhile (· = newline)).splitOn
      newline, row ∈ text.splitOn newline := by
    intro text
    induction text with
    | nil => intro row member; exact member
    | cons c text ih =>
      intro row member
      rw [dropWhile_cons] at member
      split at member
      case isTrue same =>
        obtain rfl : c = newline := by simpa using same
        exact mem_cons_of_mem _ (ih row member)
      case isFalse => exact member
  have right : ∀ back : Bytes, ∀ row ∈ ((back.dropWhile (· = newline)).reverse).splitOn newline,
      row ∈ back.reverse.splitOn newline := by
    intro back
    induction back with
    | nil => intro row member; exact member
    | cons c back ih =>
      intro row member
      rw [dropWhile_cons] at member
      split at member
      case isTrue same =>
        obtain rfl : c = newline := by simpa using same
        rw [reverse_cons, show back.reverse ++ [newline] =
          back.reverse ++ newline :: [] from rfl,
          splitOn_append_cons_self]
        exact mem_append_left _ (ih row member)
      case isFalse => exact member
  have inner := right (text.dropWhile (· = newline)).reverse row member
  rw [reverse_reverse] at inner
  exact left text row inner

/-- A line that is not empty is still there once line breaks are trimmed. -/
theorem mem_splitOn_trim {text row : Bytes}
    (member : row ∈ text.splitOn newline) (some : row ≠ []) :
    row ∈ (trim newline text).splitOn newline := by
  have left : ∀ text : Bytes, row ∈ text.splitOn newline →
      row ∈ (text.dropWhile (· = newline)).splitOn newline := by
    intro text
    induction text with
    | nil => exact id
    | cons c text ih =>
      intro member
      rw [dropWhile_cons]
      split
      case isTrue same =>
        obtain rfl : c = newline := by simpa using same
        rcases mem_cons.mp member with empty | later
        · exact absurd empty some
        · exact ih later
      case isFalse => exact member
  have right : ∀ back : Bytes, row ∈ back.reverse.splitOn newline →
      row ∈ ((back.dropWhile (· = newline)).reverse).splitOn newline := by
    intro back
    induction back with
    | nil => exact id
    | cons c back ih =>
      intro member
      rw [dropWhile_cons]
      split
      case isTrue same =>
        obtain rfl : c = newline := by simpa using same
        rw [reverse_cons, show back.reverse ++ [newline] =
          back.reverse ++ newline :: [] from rfl,
          splitOn_append_cons_self] at member
        rcases mem_append.mp member with here | last
        · exact ih here
        · exact absurd (mem_singleton.mp last) some
      case isFalse => exact member
  apply right
  rw [reverse_reverse]
  exact left text member

/-! ### White space -/

/-- The encodings of Go's white space. -/
def spaces : List Bytes :=
  [[9], [10], [11], [12], [13], [32], [0xc2, 0x85], [0xc2, 0xa0],
    [0xe1, 0x9a, 0x80], [0xe2, 0x80, 0x80], [0xe2, 0x80, 0x81],
    [0xe2, 0x80, 0x82], [0xe2, 0x80, 0x83], [0xe2, 0x80, 0x84],
    [0xe2, 0x80, 0x85], [0xe2, 0x80, 0x86], [0xe2, 0x80, 0x87],
    [0xe2, 0x80, 0x88], [0xe2, 0x80, 0x89], [0xe2, 0x80, 0x8a],
    [0xe2, 0x80, 0xa8], [0xe2, 0x80, 0xa9], [0xe2, 0x80, 0xaf],
    [0xe2, 0x81, 0x9f], [0xe3, 0x80, 0x80]]

/-- Drop what a list of encodings matches at the front, as often as the fuel
allows. -/
def dropAny (encodings : List Bytes) : Nat → Bytes → Bytes
  | 0, text => text
  | fuel + 1, text =>
    match encodings.find? (·.isPrefixOf text) with
    | none => text
    | some hit => dropAny encodings fuel (text.drop hit.length)

def trimLeft (text : Bytes) : Bytes := dropAny spaces text.length text

def trimRight (text : Bytes) : Bytes :=
  (dropAny (spaces.map reverse) text.length text.reverse).reverse

/-- Go's `strings.TrimSpace`. -/
def trimSpace (text : Bytes) : Bytes := trimRight (trimLeft text)

section DropAny

variable {encodings : List Bytes}

theorem dropAny_suffix (fuel : Nat) (text : Bytes) : dropAny encodings fuel text <:+ text := by
  induction fuel generalizing text with
  | zero => exact suffix_refl text
  | succ fuel ih =>
    rw [dropAny]
    split
    · exact suffix_refl text
    · exact (ih _).trans (drop_suffix _ text)

theorem dropAny_stuck (some : ∀ e ∈ encodings, e ≠ []) {fuel : Nat}
    {text : Bytes} (enough : text.length ≤ fuel) :
    ∀ e ∈ encodings, ¬ e <+: dropAny encodings fuel text := by
  induction fuel generalizing text with
  | zero =>
    obtain rfl : text = [] := length_eq_zero_iff.mp (by omega)
    intro e member atFront
    exact some e member (prefix_nil.mp atFront)
  | succ fuel ih =>
    rw [dropAny]
    split
    case h_1 none =>
      intro e member atFront
      have missed := find?_eq_none.mp none e member
      exact missed (List.isPrefixOf_iff_prefix.mpr atFront)
    case h_2 hit found =>
      have known := List.mem_of_find?_eq_some found
      have matched := find?_some found
      have positive : 0 < hit.length := length_pos_iff.mpr (some hit known)
      apply ih
      rw [length_drop]
      omega

theorem dropAny_append {b : UInt8} (solid : ∀ e ∈ encodings, b ∉ e)
    (fuel : Nat) (before rest : Bytes) :
    ∃ kept, kept <:+ before ∧ dropAny encodings fuel (before ++ b :: rest) = kept ++ b :: rest := by
  induction fuel generalizing before with
  | zero => exact ⟨before, suffix_refl before, rfl⟩
  | succ fuel ih =>
    rw [dropAny]
    split
    case h_1 => exact ⟨before, suffix_refl before, rfl⟩
    case h_2 hit found =>
      have apart := solid hit (List.mem_of_find?_eq_some found)
      have matched := find?_some found
      have atFront : hit <+: before ++ b :: rest := List.isPrefixOf_iff_prefix.mp matched
      have short : hit.length ≤ before.length := by
        by_contra longer
        apply apart
        rw [prefix_iff_eq_take.mp atFront, take_append, mem_append]
        right
        have more : hit.length - before.length = (hit.length - before.length - 1) + 1 := by omega
        rw [more, take_succ_cons]
        exact mem_cons_self
      obtain ⟨kept, suffix, dropped⟩ := ih (before.drop hit.length)
      refine ⟨kept, suffix.trans (drop_suffix _ before), ?_⟩
      rw [drop_append_of_le_length short]
      exact dropped

end DropAny

/-- The byte is part of no white space. -/
def Solid : Prop := ∀ e ∈ spaces, b ∉ e

instance (b : UInt8) : Decidable (Solid b) := inferInstanceAs (Decidable (∀ e ∈ spaces, b ∉ e))

/-- ASCII white space, C's `isspace`. -/
def isSpace : Bool := [32, 9, 10, 11, 12, 13].contains b

theorem space_mem_spaces {b : UInt8} (space : isSpace b) : [b] ∈ spaces := by
  have every : ([32, 9, 10, 11, 12, 13] : Bytes).all fun b => [b] ∈ spaces := by
    decide
  exact of_decide_eq_true (all_eq_true.mp every b (contains_iff_mem.mp space))

theorem mem_of_mem_trimSpace {text : Bytes} {b : UInt8}
    (member : b ∈ trimSpace text) : b ∈ text := by
  have back := (dropAny_suffix _ _).mem (mem_reverse.mp member)
  exact (dropAny_suffix _ _).mem (mem_reverse.mp back)

/-- ASCII white space before a solid byte is trimmed, and the solid bytes at
the front stay. -/
theorem trimSpace_front {blank rest : Bytes} {first second : UInt8}
    (blanks : ∀ b ∈ blank, isSpace b) (one : Solid first)
    (two : Solid second) :
    ∃ kept, trimSpace (blank ++ first :: second :: rest) = first :: second :: kept := by
  have left : trimLeft (blank ++ first :: second :: rest) = first :: second :: rest := by
    obtain ⟨kept, suffix, dropped⟩ := dropAny_append one
      (blank ++ first :: second :: rest).length blank (second :: rest)
    rw [trimLeft, dropped]
    cases kept with
    | nil => rfl
    | cons b kept =>
      have stuck := dropAny_stuck (show ∀ e ∈ spaces, e ≠ [] by decide)
        (Nat.le_refl (blank ++ first :: second :: rest).length)
      rw [dropped] at stuck
      have space := blanks b (suffix.mem mem_cons_self)
      exact absurd (by simp) (stuck [b] (space_mem_spaces space))
  have backSolid : ∀ e ∈ spaces.map reverse, second ∉ e := by
    intro e member inside
    obtain ⟨encoding, known, rfl⟩ := mem_map.mp member
    exact two encoding known (mem_reverse.mp inside)
  obtain ⟨kept, _, dropped⟩ := dropAny_append backSolid
    (first :: second :: rest).length rest.reverse [first]
  rw [trimSpace, left, trimRight]
  rw [show (first :: second :: rest).reverse = rest.reverse ++ second :: [first] by simp, dropped]
  simp

/-! ### Chunks -/

def chunksFrom (size : Nat) : Nat → Bytes → List Bytes
  | 0, _ => []
  | _, [] => []
  | fuel + 1, b :: rest =>
    (b :: rest).take size :: chunksFrom size fuel ((b :: rest).drop size)

/-- A line in pieces of a size, the last of them shorter. -/
def chunks (size : Nat) (row : Bytes) : List Bytes := chunksFrom size row.length row

theorem flatten_chunksFrom (positive : 0 < size) {fuel : Nat}
    {row : Bytes} (enough : row.length ≤ fuel) :
    (chunksFrom size fuel row).flatten = row := by
  induction fuel generalizing row with
  | zero =>
    obtain rfl : row = [] := length_eq_zero_iff.mp (by omega)
    rfl
  | succ fuel ih =>
    cases row with
    | nil => rfl
    | cons b rest =>
      rw [chunksFrom, flatten_cons, ih, take_append_drop]
      rw [length_drop]
      omega

theorem flatten_chunks (positive : 0 < size) (row : Bytes) :
    (chunks size row).flatten = row :=
  flatten_chunksFrom positive (Nat.le_refl _)

/-- The first chunk is a line's front. -/
theorem head_chunks_prefix {row first : Bytes}
    (head : (chunks size row).head? = some first) : first <+: row := by
  cases row with
  | nil => cases head
  | cons b rest =>
    obtain rfl := Option.some.inj head
    exact List.take_prefix _ _

/-- A line no longer than a chunk is one. -/
theorem chunks_short {row : Bytes} (some : row ≠ [])
    (short : row.length ≤ size) : chunks size row = [row] := by
  cases row with
  | nil => exact absurd rfl some
  | cons b rest =>
    rw [chunks, length_cons, chunksFrom, take_of_length_le short,
      drop_of_length_le short]
    cases rest <;> rfl

/-! ### Words -/

/-- Where a scan of a line is: outside quotes or within them. -/
inductive Quoting where
  | plain
  | double
  | single
deriving DecidableEq, Repr

/-- The words of a line: separated by white space, with "double quotes" and
their backslash escapes, 'single quotes' literal, and an unquoted word that
starts with # or ; ending the line.  `word` is the one being read, if any. -/
def splitWords (space control : UInt8 → Bool) :
    Quoting → Option Bytes → Bytes → Except String (List Bytes)
  | .plain, word, [] => .ok word.toList
  | .double, _, [] => .error "unterminated quote"
  | .single, _, [] => .error "unterminated quote"
  | .plain, word, c :: rest =>
    if control c then .error "control character in line"
    else if space c then
      (splitWords space control .plain none rest).map (word.toList ++ ·)
    else if (c = 35 ∨ c = 59) ∧ word.isNone then .ok []
    else if c = 34 then
      splitWords space control .double (some (word.getD [])) rest
    else if c = 39 then
      splitWords space control .single (some (word.getD [])) rest
    else
      match c, rest with
      | 92, d :: rest =>
        splitWords space control .plain (some (word.getD [] ++ [d])) rest
      | c, rest =>
        splitWords space control .plain (some (word.getD [] ++ [c])) rest
  | .double, word, 92 :: d :: rest =>
    splitWords space control .double (some (word.getD [] ++ [d])) rest
  | .double, word, c :: rest =>
    if c = 34 then splitWords space control .plain word rest
    else splitWords space control .double (some (word.getD [] ++ [c])) rest
  | .single, word, c :: rest =>
    if c = 39 then splitWords space control .plain word rest
    else splitWords space control .single (some (word.getD [] ++ [c])) rest

/-- A text within double quotes, with backslashes where they are needed. -/
def inQuotes (text : Bytes) : Bytes :=
  34 :: text.flatMap (fun c => if c = 92 || c = 34 then [92, c] else [c]) ++ [34]

section Words

variable {space control : UInt8 → Bool} {rest : Bytes}

theorem mem_of_mem_splitWords {quoting : Quoting} {word : Option Bytes}
    {line : Bytes} {found : List Bytes}
    (read : splitWords space control quoting word line = .ok found) {w : Bytes}
    (member : w ∈ found) {b : UInt8} (here : b ∈ w) :
    b ∈ word.getD [] ∨ b ∈ line := by
  fun_induction splitWords space control quoting word line generalizing found with
  | case1 word =>
    cases read
    rw [Option.mem_toList] at member
    left
    rw [member]
    exact here
  | case2 | case3 | case4 => cases read
  | case5 word c rest _ _ ih =>
    cases later : splitWords space control .plain none rest with
    | error e =>
      rw [later] at read
      cases read
    | ok more =>
      rw [later] at read
      cases read
      rcases mem_append.mp member with now | after
      · rw [Option.mem_toList] at now
        left
        rw [now]
        exact here
      · have inside := ih later after
        simp at inside
        exact .inr (mem_cons_of_mem _ inside)
  | case6 =>
    cases read
    cases member
  | case12 word rest _ ih =>
    rcases ih read member with old | new
    · exact .inl old
    · exact .inr (mem_cons_of_mem _ new)
  | case14 word rest ih =>
    rcases ih read member with old | new
    · exact .inl old
    · exact .inr (mem_cons_of_mem _ new)
  | _ =>
    rename_i ih
    grind

/-- A byte that stands for itself outside quotes. -/
def PlainByte (space control : UInt8 → Bool) (c : UInt8) : Prop :=
  control c = false ∧ space c = false ∧ c ∉ ([35, 59, 34, 39, 92] : Bytes)

theorem splitWords_plain {name : Bytes}
    (plain : ∀ c ∈ name, PlainByte space control c) (word : Option Bytes)
    (some : name ≠ []) :
    splitWords space control .plain word (name ++ rest) =
      splitWords space control .plain (.some (word.getD [] ++ name)) rest := by
  induction name generalizing word with
  | nil => exact absurd rfl some
  | cons c name ih =>
    obtain ⟨kept, solid, other⟩ := plain c mem_cons_self
    simp only [mem_cons, not_mem_nil, or_false, not_or] at other
    have step : splitWords space control .plain word (c :: (name ++ rest)) =
        splitWords space control .plain (.some (word.getD [] ++ [c])) (name ++ rest) := by
      rw [splitWords.eq_def]
      simp only [kept, solid, other.1, other.2.1, other.2.2.1, other.2.2.2.1,
        or_self, false_and, if_false, Bool.false_eq_true]
      split
      · rename_i escaped
        exact absurd rfl other.2.2.2.2
      · rfl
    rw [cons_append, step]
    cases name with
    | nil => rfl
    | cons d name =>
      rw [ih (fun e member => plain e (mem_cons_of_mem _ member)) _ (by simp)]
      simp

/-- What is between double quotes is read as it was before quoting. -/
theorem splitWords_inQuotes (open_ : control 34 = false)
    (solid : space 34 = false) (word : Option Bytes) (text : Bytes) :
    splitWords space control .plain word (inQuotes text ++ rest) =
      splitWords space control .plain (some (word.getD [] ++ text)) rest := by
  have within : ∀ (text read : Bytes), splitWords space control .double (some read)
        (text.flatMap (fun c => if c = 92 || c = 34 then [92, c] else [c]) ++ 34 :: rest) =
      splitWords space control .plain (some (read ++ text)) rest := by
    intro text
    induction text with
    | nil =>
      simp [splitWords]
    | cons c text ih =>
      intro read
      by_cases special : c = 92 ∨ c = 34
      · have escaped : (c = 92 || c = 34) = true := by simpa using special
        simp only [flatMap_cons, escaped, if_true, cons_append,
          nil_append, splitWords, Option.getD_some]
        rw [ih]
        simp
      · obtain ⟨other, inner⟩ := not_or.mp special
        have literal : (c = 92 || c = 34) = false := by simp [other, inner]
        simp only [flatMap_cons, literal, cons_append,
          nil_append, Bool.false_eq_true, if_false]
        rw [splitWords]
        · rw [if_neg inner, Option.getD_some, ih]
          simp
        · intro d more same
          exact absurd same other
  rw [← within text (word.getD []), splitWords.eq_def]
  simp [inQuotes, open_, solid]

/-- The words are found whatever is being read before. -/
def Readable (space control : UInt8 → Bool) (line : Bytes) : Prop :=
  ∀ word, ∃ found, splitWords space control .plain word line = .ok found

theorem readable_nil : Readable space control [] := fun word => ⟨word.toList, rfl⟩

theorem readable_space {c : UInt8} (kept : control c = false)
    (blank : space c) (readable : Readable space control rest) :
    Readable space control (c :: rest) := by
  intro word
  obtain ⟨found, read⟩ := readable none
  rw [splitWords.eq_def]
  simp [kept, blank, read, Except.map]

/-- Text without quotes, backslashes or comment signs. -/
theorem readable_append {text : Bytes}
    (calm : ∀ c ∈ text, control c = false ∧ c ∉ ([35, 59, 34, 39, 92] : Bytes))
    (readable : Readable space control rest) :
    Readable space control (text ++ rest) := by
  induction text with
  | nil => exact readable
  | cons c text ih =>
    have later := ih fun d member =>
      calm d (mem_cons_of_mem _ member)
    obtain ⟨kept, other⟩ := calm c mem_cons_self
    cases blank : space c with
    | true => exact readable_space kept blank later
    | false =>
      intro word
      have plain : ∀ d ∈ [c], PlainByte space control d := by
        intro d member
        obtain rfl := mem_singleton.mp member
        exact ⟨kept, blank, other⟩
      obtain ⟨found, read⟩ := later (some (word.getD [] ++ [c]))
      refine ⟨found, ?_⟩
      rw [← read, ← splitWords_plain plain word (by simp)]
      rfl

theorem readable_inQuotes (open_ : control 34 = false) (solid : space 34 = false) (text : Bytes)
    (readable : Readable space control rest) :
    Readable space control (inQuotes text ++ rest) := by
  intro word
  rw [splitWords_inQuotes open_ solid]
  exact readable _

end Words

end Bytes
