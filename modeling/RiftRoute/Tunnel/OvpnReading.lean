/-
Module: RiftRoute.Tunnel.OvpnReading
Purpose: The rendered configuration as openvpn reads it, an inline block in
  chunks of 255 bytes: when exactly the admitted lines are read, and when the
  words of a written line are those that were read.
Trusted boundary: human-reviewed spec
Main exports: readConfig
-/
import Mathlib.Data.List.TakeWhile
import RiftRoute.Tunnel.Ovpn

namespace RiftRoute.Ovpn

open List Bytes

/-! ### openvpn's reading -/

/-- What openvpn finds in a configuration. -/
inductive ReadItem where
  | directive (name : Bytes)
  | block (tag : Bytes) (body : List Bytes)
  | unclosed (tag : Bytes)
  | malformed (row : Bytes)
deriving DecidableEq

def chunkSize : Nat := 255

/-- The chunk ends a block. -/
def closes (tag chunk : Bytes) : Bool := (closingTag tag).isPrefixOf (chunk.dropWhile Bytes.isSpace)

/-- The lines of a block and the lines left after it, the rest of the line
that ended it among them. -/
def readBlock (tag : Bytes) : List Bytes → Option (List Bytes × List Bytes)
  | [] => none
  | row :: rows =>
    let pieces := Bytes.chunks chunkSize row
    match pieces.dropWhile fun chunk => !closes tag chunk with
    | [] => (readBlock tag rows).map fun read => (row :: read.1, read.2)
    | _ :: after =>
      let before := pieces.takeWhile fun chunk => !closes tag chunk
      some (if before = [] then [] else [before.flatten],
        if after = [] then rows else after.flatten :: rows)

def openvpnWords (row : Bytes) : Except String (List Bytes) :=
  Bytes.splitWords Bytes.isSpace (fun _ => false) .plain none row

def openedTag (words : List Bytes) : Option Bytes :=
  match words with
  | [60 :: rest] => if rest.getLast? = some 62 then some rest.dropLast else none
  | _ => none

def readFrom : Nat → List Bytes → List ReadItem
  | 0, _ => []
  | _, [] => []
  | fuel + 1, row :: rows =>
    match openvpnWords row with
    | .error _ => .malformed row :: readFrom fuel rows
    | .ok [] => readFrom fuel rows
    | .ok (word :: words) =>
      match openedTag (word :: words) with
      | none => .directive (withoutDashes word) :: readFrom fuel rows
      | some tag =>
        match readBlock tag rows with
        | none => [.unclosed tag]
        | some read => .block tag read.1 :: readFrom fuel read.2

/-- Lines, read with as much fuel as they can take. -/
def readRows (rows : List Bytes) : List ReadItem := readFrom rows.length rows

def readConfig (text : Bytes) : List ReadItem := readRows (text.splitOn newline)

/-- The directive a line is, when it opens no block. -/
def directiveOf (row : Bytes) : Option Bytes :=
  match openvpnWords row with
  | .ok (word :: words) =>
    if openedTag (word :: words) = none then some (withoutDashes word)
    else none
  | _ => none

/-! ### Fuel -/

theorem length_readBlock {tag : Bytes} {rows : List Bytes}
    {read : List Bytes × List Bytes} (found : readBlock tag rows = some read) :
    read.2.length ≤ rows.length := by
  induction rows generalizing read with
  | nil => cases found
  | cons row rows ih =>
    rw [readBlock] at found
    split at found
    case h_1 =>
      obtain ⟨later, more, rfl⟩ := Option.map_eq_some_iff.mp found
      exact (ih more).trans (Nat.le_succ _)
    case h_2 =>
      cases found
      dsimp only
      split
      · exact Nat.le_succ _
      · exact Nat.le_refl _

theorem readFrom_enough {fuel : Nat} {rows : List Bytes}
    (enough : rows.length ≤ fuel) : readFrom fuel rows = readRows rows := by
  have same : ∀ (n : Nat) (rows : List Bytes) (f g : Nat), rows.length ≤ n →
      rows.length ≤ f → rows.length ≤ g → readFrom f rows = readFrom g rows := by
    intro n
    induction n with
    | zero =>
      intro rows f g short _ _
      obtain rfl : rows = [] := length_eq_zero_iff.mp (by omega)
      cases f <;> cases g <;> rfl
    | succ n ih =>
      intro rows f g short fits gits
      cases rows with
      | nil => cases f <;> cases g <;> rfl
      | cons row rows =>
        rw [length_cons] at short fits gits
        obtain ⟨f, rfl⟩ : ∃ k, f = k + 1 := ⟨f - 1, by omega⟩
        obtain ⟨g, rfl⟩ : ∃ k, g = k + 1 := ⟨g - 1, by omega⟩
        have next : ∀ later : List Bytes, later.length ≤ rows.length →
            readFrom f later = readFrom g later := fun later less =>
          ih later f g (by omega) (by omega) (by omega)
        rw [readFrom, readFrom]
        split
        · rw [next rows (Nat.le_refl _)]
        · exact next rows (Nat.le_refl _)
        · split
          · rw [next rows (Nat.le_refl _)]
          · split
            · rfl
            · rename_i found
              rw [next _ (length_readBlock found)]
  exact same rows.length rows fuel rows.length (Nat.le_refl _) enough (Nat.le_refl _)

section Rows

variable {row word tag : Bytes} {words rows : List Bytes}

theorem readRows_blank (blank : openvpnWords row = .ok []) :
    readRows (row :: rows) = readRows rows := by
  rw [readRows, length_cons, readFrom, blank]
  rfl

theorem readRows_directive {name : Bytes} (named : directiveOf row = some name) :
    readRows (row :: rows) = .directive name :: readRows rows := by
  unfold directiveOf at named
  split at named
  case h_2 => cases named
  rename_i word words read
  split at named
  case isFalse => cases named
  rename_i plain
  cases named
  rw [readRows, length_cons, readFrom, read]
  dsimp only
  rw [plain]
  rfl

theorem readRows_directives {front names : List Bytes}
    (named : front.map directiveOf = names.map some) :
    readRows (front ++ rows) = names.map .directive ++ readRows rows := by
  induction front generalizing names with
  | nil =>
    obtain rfl := map_eq_nil_iff.mp named.symm
    rfl
  | cons row front ih =>
    cases names with
    | nil => cases named
    | cons name names =>
      obtain ⟨here, later⟩ := List.cons.inj named
      rw [cons_append, readRows_directive here, ih later]
      rfl

theorem readRows_block (read : openvpnWords row = .ok (word :: words))
    (opens : openedTag (word :: words) = some tag)
    {body left : List Bytes} (found : readBlock tag rows = some (body, left)) :
    readRows (row :: rows) = .block tag body :: readRows left := by
  rw [readRows, length_cons, readFrom, read]
  dsimp only
  rw [opens]
  dsimp only
  rw [found]
  dsimp only
  rw [readFrom_enough (length_readBlock found)]

end Rows

/-! ### Blocks -/

section Blocks

variable {tag row : Bytes} {rows body rest : List Bytes}

theorem closingTag_eq (tag : Bytes) : closingTag tag = 60 :: 47 :: (tag ++ [62]) := by
  rfl

theorem not_closes_nil : closes tag [] = false := by
  rfl

theorem closes_closingTag : closes tag (closingTag tag) = true := by
  rw [closes, List.isPrefixOf_iff_prefix, closingTag_eq, dropWhile_cons_of_neg (by decide)]

theorem readBlock_row (calm : ∀ chunk ∈ chunks chunkSize row, closes tag chunk = false) :
    readBlock tag (row :: rows) = (readBlock tag rows).map fun read => (row :: read.1, read.2) := by
  have none : (chunks chunkSize row).dropWhile (fun chunk => !closes tag chunk) = [] := by
    rw [dropWhile_eq_nil_iff]
    intro chunk member
    rw [calm chunk member]
    rfl
  rw [readBlock, none]

theorem readBlock_whole (short : (closingTag tag).length ≤ chunkSize)
    (calm : ∀ row ∈ body, ∀ chunk ∈ chunks chunkSize row, closes tag chunk = false) :
    readBlock tag (body ++ closingTag tag :: rest) = some (body, rest) := by
  induction body with
  | nil =>
    have some : closingTag tag ≠ [] := by
      exact cons_ne_nil _ _
    rw [nil_append, readBlock, chunks_short some short]
    simp [closes_closingTag]
  | cons row body ih =>
    rw [cons_append, readBlock_row (calm row mem_cons_self), ih fun other member =>
        calm other (mem_cons_of_mem _ member)]
    rfl

theorem readBlock_cut (rest : List Bytes) (cut : ∃ row ∈ body,
      ∃ chunk ∈ chunks chunkSize row, closes tag chunk = true) :
    ∃ read, readBlock tag (body ++ rest) = some read ∧ read.1 ≠ body := by
  induction body with
  | nil =>
    obtain ⟨row, member, _⟩ := cut
    cases member
  | cons row body ih =>
    by_cases here : ∃ chunk ∈ chunks chunkSize row, closes tag chunk = true
    · obtain ⟨chunk, member, closed⟩ := here
      rw [cons_append, readBlock]
      split
      case h_1 none =>
        have open_ := dropWhile_eq_nil_iff.mp none chunk member
        rw [closed] at open_
        cases open_
      case h_2 ending after found =>
        refine ⟨_, rfl, ?_⟩
        split
        case isTrue => exact (cons_ne_nil _ _).symm
        case isFalse =>
          -- the partial line lacks at least the closing chunk
          intro same
          obtain ⟨front, _⟩ := List.cons.inj same
          have whole : (chunks chunkSize row).flatten = row :=
            flatten_chunks (by decide) row
          rw [← takeWhile_append_dropWhile (p := fun chunk => !closes tag chunk)
            (l := chunks chunkSize row), found, flatten_append,
            front] at whole
          have empty : ending ++ after.flatten = [] := by simpa using whole
          obtain ⟨rfl, _⟩ := append_eq_nil_iff.mp empty
          have first := head?_dropWhile_not
            (fun chunk => !closes tag chunk) (chunks chunkSize row)
          rw [found] at first
          simp [not_closes_nil] at first
    · have calm : ∀ chunk ∈ chunks chunkSize row, closes tag chunk = false := by
        intro chunk member
        rw [← Bool.not_eq_true]
        exact fun closed => here ⟨chunk, member, closed⟩
      obtain ⟨other, member, later⟩ := cut
      rcases mem_cons.mp member with rfl | inside
      · exact absurd later here
      · obtain ⟨read, found, differs⟩ := ih ⟨other, inside, later⟩
        refine ⟨(row :: read.1, read.2), ?_, ?_⟩
        · rw [cons_append, readBlock_row calm, found]
          rfl
        · exact fun same => differs (List.cons.inj same).2

end Blocks

/-! ### Directives -/

/-- A directive's name: letters, digits and dashes, the first no dash. -/
def plainName (name : Bytes) : Bool :=
  name.head?.any isAlnum && name.all fun c => isAlnum c || c = 45

theorem plainByte_of_name {c : UInt8} (letter : isAlnum c || c = 45) :
    PlainByte isSpace (fun _ => false) c := by
  have others : ([32, 9, 10, 11, 12, 13, 35, 59, 34, 39, 92] : Bytes).all
      fun d => ¬ (isAlnum d || d = 45) := by
    decide
  have apart : ∀ d ∈ ([32, 9, 10, 11, 12, 13, 35, 59, 34, 39, 92] : Bytes),
      ¬ (isAlnum d || d = 45) :=
    fun d member => of_decide_eq_true (all_eq_true.mp others d member)
  refine ⟨rfl, ?_, ?_⟩
  · rw [← Bool.not_eq_true]
    intro space
    refine apart c ?_ letter
    exact mem_append_left [35, 59, 34, 39, 92] (contains_iff_mem.mp space)
  · intro special
    refine apart c ?_ letter
    exact mem_append_right [32, 9, 10, 11, 12, 13] special

theorem readable_quote (word : Bytes) {rest : Bytes}
    (readable : Readable isSpace (fun _ => false) rest) :
    Readable isSpace (fun _ => false) (quote word ++ rest) := by
  unfold quote
  split
  case isTrue calm =>
    refine readable_append ?_ readable
    intro c member
    refine ⟨rfl, fun special => ?_⟩
    have quiet : ¬ isSpecial c := by
      simp only [Bool.and_eq_true, Bool.not_eq_true', any_eq_false] at calm
      exact calm.2 c member
    apply quiet
    have known : ([35, 59, 34, 39, 92] : Bytes).all isSpecial := by decide
    exact all_eq_true.mp known c special
  case isFalse =>
    exact readable_inQuotes rfl (by decide) word readable

theorem readable_args (args : List Bytes) : Readable isSpace (fun _ => false)
      (args.flatMap fun arg => 32 :: quote arg) := by
  induction args with
  | nil => exact readable_nil
  | cons arg args ih =>
    exact readable_space rfl (by decide) (readable_quote arg ih)

theorem directiveOf_directiveRow {name : Bytes} (plain : plainName name)
    (args : List Bytes) : directiveOf (directiveRow name args) = some name := by
  obtain ⟨letter, every⟩ := (Bool.and_eq_true _ _).mp plain
  cases name with
  | nil => cases letter
  | cons c name =>
    have front : isAlnum c := letter
    have undashed : c ≠ 45 := by
      rintro rfl
      exact absurd front (by decide)
    have unangled : c ≠ 60 := by
      rintro rfl
      exact absurd front (by decide)
    have words : ∃ words, openvpnWords (directiveRow (c :: name) args) =
        .ok ((c :: name) :: words) := by
      rw [openvpnWords, directiveRow, splitWords_plain
        (fun d member => plainByte_of_name (all_eq_true.mp every d member))
        none (cons_ne_nil _ _), Option.getD_none, nil_append]
      cases args with
      | nil => exact ⟨[], rfl⟩
      | cons arg args =>
        obtain ⟨found, read⟩ := readable_quote arg (readable_args args) none
        refine ⟨found, ?_⟩
        rw [flatMap_cons, cons_append, splitWords.eq_def]
        simp only [Bool.false_eq_true, if_false, read, Except.map]
        rfl
    obtain ⟨words, read⟩ := words
    have opens : openedTag ((c :: name) :: words) = none := by
      unfold openedTag
      split
      · rename_i same
        exact absurd (List.cons.inj (List.cons.inj same).1).1 unangled
      · rfl
    have kept : withoutDashes (c :: name) = c :: name := by
      unfold withoutDashes
      split
      · rename_i same
        exact absurd (List.cons.inj same).1 undashed
      · rfl
    rw [directiveOf, read]
    dsimp only
    rw [if_pos opens, kept]

theorem mem_of_policy {name : Bytes} {policy : Policy} (listed : policyOf name = some policy) :
    name ∈ (keptDirectives ++ ignoredDirectives ++ inlineDirectives).map utf8 := by
  simp only [map_append, mem_append]
  unfold policyOf at listed
  split at listed
  case isTrue kept => exact .inl (.inl kept)
  case isFalse =>
    split at listed
    case isTrue ignored => exact .inl (.inr ignored)
    case isFalse =>
      split at listed
      case isTrue inline => exact .inr inline
      case isFalse => cases listed

theorem plain_of_listed : ∀ known ∈ (keptDirectives ++ ignoredDirectives ++
    inlineDirectives).map utf8, plainName known ∧ known.length ≤ 32 := by
  decide +kernel

theorem plainName_of_policy {name : Bytes} {policy : Policy}
    (listed : policyOf name = some policy) : plainName name :=
  (plain_of_listed name (mem_of_policy listed)).1

theorem plainName_of_allowed {l : Line} (allowed : l.allowed) : plainName l.name := by
  have own : ∀ name ∈ ["remote", "dev", "auth-user-pass", "peer-fingerprint"],
      plainName (utf8 name) := by
    decide
  unfold Line.allowed at allowed
  split at allowed
  case isTrue => exact plainName_of_policy (of_decide_eq_true allowed)
  case isFalse =>
    split at allowed
    case isTrue =>
      rw [of_decide_eq_true allowed]
      exact own "remote" (by decide)
    case isFalse =>
      simp only [Bool.or_eq_true, decide_eq_true_eq] at allowed
      rcases allowed with ((same | same) | same) | listed
      · exact same ▸ own "dev" (by decide)
      · exact same ▸ own "auth-user-pass" (by decide)
      · exact same ▸ own "peer-fingerprint" (by decide)
      · exact plainName_of_policy listed

/-! ### The kept lines -/

variable (l : Line)

def Line.bodyRows : List Bytes := (Bytes.trim newline l.body).splitOn newline

/-- The lines a kept line is written as. -/
def Line.rows : List Bytes :=
  if l.block then angled l.name :: (l.bodyRows ++ [closingTag l.name])
  else [directiveRow l.name l.args]

def Line.item : ReadItem :=
  if l.block then .block l.name l.bodyRows else .directive l.name

def lineRows (remotes : List Remote) : Bool → List Line → List Bytes
  | _, [] => []
  | wrote, l :: lines =>
    if l.remote then
      (if wrote then [] else remotes.map remoteRow) ++ lineRows remotes true lines
    else l.rows ++ lineRows remotes wrote lines

/-- What the kept lines are meant to be read as. -/
def lineItems (remotes : List Remote) : Bool → List Line → List ReadItem
  | _, [] => []
  | wrote, l :: lines =>
    if l.remote then
      (if wrote then []
        else remotes.map fun _ => .directive (utf8 "remote")) ++
        lineItems remotes true lines
    else l.item :: lineItems remotes wrote lines

def Line.CutShort : Prop :=
  l.remote = false ∧ l.block = true ∧ ∃ row ∈ l.bodyRows, ∃ chunk ∈ Bytes.chunks chunkSize row,
      closes l.name chunk = true

theorem render_eq_unlines : l.render = unlines l.rows := by
  unfold Line.render Line.rows
  split
  case isTrue =>
    have body := unlines_splitOn (trim newline l.body)
    rw [← Line.bodyRows] at body
    have cut : unlines (angled l.name :: (l.bodyRows ++
        [closingTag l.name])) = angled l.name ++ [newline] ++
        unlines (l.bodyRows ++ [closingTag l.name]) := rfl
    rw [cut, unlines_append, body]
    simp [unlines]
  case isFalse => simp [unlines]

variable (remotes : List Remote)

theorem renderLines_eq_unlines (wrote : Bool) (lines : List Line) :
    renderLines remotes wrote lines = unlines (lineRows remotes wrote lines) := by
  induction lines generalizing wrote with
  | nil => rfl
  | cons l lines ih =>
    rw [renderLines, lineRows]
    split
    case isTrue =>
      rw [unlines_append, ih]
      split <;> rfl
    case isFalse =>
      rw [unlines_append, ih, render_eq_unlines]

section Lines

variable {l : Line} {rest : List Bytes}

theorem angled_eq (tag : Bytes) : angled tag = 60 :: (tag ++ [62]) := by
  rfl

theorem openvpnWords_angled {tag : Bytes} (plain : plainName tag) :
    openvpnWords (angled tag) = .ok [angled tag] ∧
      openedTag [angled tag] = some tag := by
  obtain ⟨_, every⟩ := (Bool.and_eq_true _ _).mp plain
  constructor
  · have plainBytes : ∀ c ∈ angled tag, PlainByte isSpace (fun _ => false) c := by
      intro c member
      rw [angled_eq, mem_cons, mem_append, mem_singleton] at member
      rcases member with rfl | inside | rfl
      · exact ⟨rfl, by decide, by decide⟩
      · exact plainByte_of_name (all_eq_true.mp every c inside)
      · exact ⟨rfl, by decide, by decide⟩
    have some : angled tag ≠ [] := by
      exact cons_ne_nil _ _
    have read : openvpnWords (angled tag ++ []) = .ok [angled tag] :=
      splitWords_plain plainBytes none some
    rwa [append_nil] at read
  · rw [angled_eq, openedTag]
    simp

theorem closingTag_short {tag : Bytes} (inline : policyOf tag = some .inline) :
    (closingTag tag).length ≤ chunkSize := by
  have short := (plain_of_listed tag (mem_of_policy inline)).2
  rw [closingTag_eq, length_cons, length_cons, length_append,
    length_singleton, chunkSize]
  omega

theorem inline_of_allowed (allowed : l.allowed) (block : l.block = true) :
    policyOf l.name = some .inline := by
  rw [Line.allowed, if_pos block] at allowed
  exact of_decide_eq_true allowed

theorem readRows_line (allowed : l.allowed) (own : l.remote = false) (whole : ¬ l.CutShort) :
    readRows (l.rows ++ rest) = l.item :: readRows rest := by
  unfold Line.rows Line.item
  split
  case isTrue block =>
    have inline := inline_of_allowed allowed block
    obtain ⟨words, opens⟩ := openvpnWords_angled (plainName_of_policy inline)
    rw [cons_append, append_assoc]
    refine readRows_block words opens ?_
    refine readBlock_whole (closingTag_short inline) ?_
    intro row member chunk piece
    rw [← Bool.not_eq_true]
    exact fun closed => whole ⟨own, block, row, member, chunk, piece, closed⟩
  case isFalse =>
    exact readRows_directive (directiveOf_directiveRow (plainName_of_allowed allowed) l.args)

theorem readRows_cut (rest : List Bytes) (allowed : l.allowed) (cut : l.CutShort) :
    ∃ item items, readRows (l.rows ++ rest) = item :: items ∧ item ≠ l.item := by
  obtain ⟨_, block, early⟩ := cut
  obtain ⟨words, opens⟩ := openvpnWords_angled
    (plainName_of_policy (inline_of_allowed allowed block))
  obtain ⟨read, found, differs⟩ := readBlock_cut ([closingTag l.name] ++ rest) early
  refine ⟨.block l.name read.1, readRows read.2, ?_, ?_⟩
  · rw [Line.rows, if_pos block, cons_append, append_assoc]
    exact readRows_block words opens found
  · rw [Line.item, if_pos block]
    intro same
    exact differs (ReadItem.block.inj same).2

end Lines

theorem directiveOf_remoteRow (r : Remote) : directiveOf (remoteRow r) = some (utf8 "remote") := by
  have plain : plainName (utf8 "remote") := by decide
  exact directiveOf_directiveRow plain _

theorem readRows_remotes (rest : List Bytes) :
    readRows (remotes.map remoteRow ++ rest) =
      (remotes.map fun _ => ReadItem.directive (utf8 "remote")) ++ readRows rest := by
  have named : (remotes.map remoteRow).map directiveOf =
      (remotes.map fun _ => utf8 "remote").map some := by
    simp only [map_map, Function.comp_def, directiveOf_remoteRow]
  rw [readRows_directives named]
  simp only [map_map, Function.comp_def]

theorem readRows_lines_iff {lines : List Line}
    (allowed : ∀ l ∈ lines, l.allowed) (wrote : Bool) (rest : List Bytes) :
    readRows (lineRows remotes wrote lines ++ rest) =
        lineItems remotes wrote lines ++ readRows rest ↔
      ∀ l ∈ lines, ¬ l.CutShort := by
  induction lines generalizing wrote with
  | nil => simp [lineRows, lineItems]
  | cons l lines ih =>
    have later := ih fun other member =>
      allowed other (mem_cons_of_mem _ member)
    have here := allowed l mem_cons_self
    rw [forall_mem_cons, lineRows, lineItems]
    cases remote : l.remote with
    | true =>
      have whole : ¬ l.CutShort := by
        rintro ⟨own, _⟩
        rw [remote] at own
        cases own
      rw [if_pos rfl, if_pos rfl, append_assoc, append_assoc,
        and_iff_right whole, ← later true]
      split
      case isTrue => rfl
      case isFalse =>
        rw [readRows_remotes]
        exact append_right_inj _
    | false =>
      rw [if_neg Bool.false_ne_true, if_neg Bool.false_ne_true, append_assoc]
      by_cases cut : l.CutShort
      · obtain ⟨item, items, read, differs⟩ :=
          readRows_cut (lineRows remotes wrote lines ++ rest) here cut
        rw [read]
        constructor
        · intro same
          exact absurd (List.cons.inj same).1 differs
        · intro both
          exact absurd cut both.1
      · rw [readRows_line here remote cut, and_iff_right cut, ← later wrote]
        exact cons_inj_right _

/-! ### RiftRoute's own directives -/

/-- The directives that follow the kept lines. -/
def ownNames (o : RenderOptions) : List String :=
  ["route-nopull", "route-noexec", "pull-filter", "pull-filter",
    "pull-filter", "pull-filter", "pull-filter", "pull-filter"] ++
  (if o.ipv6 then [] else ["pull-filter", "pull-filter"]) ++
  ["script-security", "persist-tun", "auth-nocache", "auth-retry", "verb",
    "management", "management-hold", "management-query-passwords",
    "management-signal"]

/-- What openvpn is meant to read after the kept lines. -/
def ownItems (p : Profile) (o : RenderOptions) : List ReadItem :=
  (p.cipherCompat.map Line.name ++ (ownNames o).map utf8).map .directive

section Own

variable {p : Profile} {o : RenderOptions}

theorem verb_cases (level : Int) : min (max level 3) 5 = 3 ∨
    min (max level 3) 5 = 4 ∨ min (max level 3) 5 = 5 := by
  omega

theorem directiveOf_verb (level : Int) :
    directiveOf (utf8 "verb " ++ utf8 (toString (min (max level 3) 5))) = some (utf8 "verb") := by
  rcases verb_cases level with same | same | same <;> rw [same] <;>
    decide

theorem managementRow (socket : Bytes) : utf8 "management " ++ quote socket ++ utf8 " unix" =
      directiveRow (utf8 "management") [socket, utf8 "unix"] := by
  have front : utf8 "management " = utf8 "management" ++ [32] := by
    decide
  have back : utf8 " unix" = 32 :: quote (utf8 "unix") := by decide
  rw [front, back, directiveRow]
  simp

theorem directiveOf_management (socket : Bytes) :
    directiveOf (utf8 "management " ++ quote socket ++ utf8 " unix") =
      some (utf8 "management") := by
  have plain : plainName (utf8 "management") := by decide
  rw [managementRow]
  exact directiveOf_directiveRow plain _

theorem directiveOf_fixedRows (p : Profile) (o : RenderOptions) :
    (fixedRows p o).tail.map directiveOf = ((ownNames o).map utf8).map some := by
  have verb := directiveOf_verb p.verb
  have management := directiveOf_management o.management
  unfold fixedRows ownNames
  rw [cons_append, cons_append, tail_cons]
  simp only [map_append]
  refine congrArg₂ _ (congrArg₂ _ ?_ ?_) ?_
  · decide
  · cases o.ipv6 <;> decide
  · simp only [map_cons, map_nil, verb, management]
    decide

theorem mem_cipherCompat {l : Line} (member : l ∈ p.cipherCompat) :
    l.block = false ∧ plainName l.name ∧
      ∃ arg, l.args = [arg] ∧ (arg = p.cipher ∨ arg = defaultDataCiphers ∨
        arg = defaultDataCiphers ++ utf8 ":" ++ p.cipher) := by
  have plain : plainName (utf8 "data-ciphers") ∧ plainName (utf8 "data-ciphers-fallback") := by
    decide
  unfold Profile.cipherCompat at member
  dsimp only at member
  split at member
  case isTrue => cases member
  rcases mem_append.mp member with list | fallback
  · split at list
    case isTrue => cases list
    obtain rfl := mem_singleton.mp list
    refine ⟨rfl, plain.1, _, rfl, ?_⟩
    split
    · exact .inr (.inl rfl)
    · exact .inr (.inr rfl)
  · split at fallback
    case isTrue => cases fallback
    obtain rfl := mem_singleton.mp fallback
    exact ⟨rfl, plain.2, _, rfl, .inl rfl⟩

/-- The lines after the kept ones. -/
def ownRows (p : Profile) (o : RenderOptions) : List Bytes :=
  p.cipherCompat.flatMap Line.rows ++ fixedRows p o

theorem cipherRows_eq (p : Profile) : p.cipherCompat.flatMap Line.rows =
    p.cipherCompat.map fun l => directiveRow l.name l.args := by
  rw [map_eq_flatMap]
  refine flatMap_congr fun l member => ?_
  obtain ⟨plain, _⟩ := mem_cipherCompat member
  rw [Line.rows, if_neg (by rw [plain]; exact Bool.false_ne_true)]

theorem readRows_own (p : Profile) (o : RenderOptions) :
    readRows (ownRows p o ++ [[]]) = ownItems p o := by
  have ciphers : (p.cipherCompat.flatMap Line.rows).map directiveOf =
      (p.cipherCompat.map Line.name).map some := by
    rw [cipherRows_eq, map_map, map_map]
    refine map_congr_left fun l member => ?_
    exact directiveOf_directiveRow (mem_cipherCompat member).2.1 l.args
  have comment : fixedRows p o = utf8 "# --- RiftRoute ---" :: (fixedRows p o).tail := rfl
  have skipped : openvpnWords (utf8 "# --- RiftRoute ---") = .ok [] := by
    decide
  have ended : readRows [[]] = [] := rfl
  rw [ownRows, append_assoc, readRows_directives ciphers, comment,
    cons_append, readRows_blank skipped,
    readRows_directives (directiveOf_fixedRows p o), ended, append_nil,
    ownItems, map_append]

end Own

/-! ### Line breaks -/

/-- What the daemon passes in holds no line break. -/
structure RenderOptions.Clean (o : RenderOptions) : Prop where
  hosts : ∀ r ∈ o.remotes, '\n' ∉ r.host.toList
  socket : newline ∉ o.management

theorem free_quote {word : Bytes} (free : newline ∉ word) : newline ∉ quote word := by
  unfold quote
  split
  case isTrue => exact free
  case isFalse =>
    intro member
    rw [inQuotes, cons_append, mem_cons, mem_append,
      mem_flatMap, mem_singleton] at member
    rcases member with same | ⟨c, inside, here⟩ | same
    · exact absurd same (by decide)
    · have apart : newline ≠ c := fun same => free (same ▸ inside)
      split at here
      · rw [mem_cons, mem_singleton] at here
        rcases here with same | same
        · exact absurd same (by decide)
        · exact apart same
      · exact apart (mem_singleton.mp here)
    · exact absurd same (by decide)

theorem free_plainName {name : Bytes} (plain : plainName name) : newline ∉ name := by
  intro member
  have letter := all_eq_true.mp ((Bool.and_eq_true _ _).mp plain).2 _ member
  exact absurd letter (by decide)

theorem free_directiveRow {name : Bytes} {args : List Bytes}
    (plain : plainName name) (free : ∀ arg ∈ args, newline ∉ arg) :
    newline ∉ directiveRow name args := by
  rw [directiveRow, mem_append, not_or]
  refine ⟨free_plainName plain, fun member => ?_⟩
  obtain ⟨arg, inside, here⟩ := mem_flatMap.mp member
  rcases mem_cons.mp here with same | quoted
  · exact absurd same (by decide)
  · exact free_quote (free arg inside) quoted

theorem free_remoteRow {r : Remote} (free : '\n' ∉ r.host.toList) : newline ∉ remoteRow r := by
  have plain : plainName (utf8 "remote") := by decide
  refine free_directiveRow plain ?_
  intro arg member
  simp only [mem_cons, not_mem_nil, or_false] at member
  rcases member with rfl | rfl | rfl
  · exact newline_not_mem_utf8 free
  · refine newline_not_mem_utf8 fun digit => ?_
    exact absurd (Texts.isDigit_of_mem_natRepr digit) (by decide)
  · cases r.proto <;> decide

theorem free_rows {l : Line} (allowed : l.allowed)
    (free : ∀ arg ∈ l.args, newline ∉ arg) : ∀ row ∈ l.rows, newline ∉ row := by
  have plain := plainName_of_allowed allowed
  have name := free_plainName plain
  unfold Line.rows
  split
  case isTrue =>
    intro row member
    rw [mem_cons, mem_append, mem_singleton] at member
    rcases member with rfl | inside | rfl
    · rw [angled_eq]
      simp [name]
      decide
    · exact fun here => (mem_of_mem_splitOn inside here).2 rfl
    · rw [closingTag_eq]
      simp [name]
      decide
  case isFalse =>
    intro row member
    obtain rfl := mem_singleton.mp member
    exact free_directiveRow plain free

theorem free_lineRows {remotes : List Remote}
    (hosts : ∀ r ∈ remotes, '\n' ∉ r.host.toList) {lines : List Line}
    (allowed : ∀ l ∈ lines, l.allowed)
    (free : ∀ l ∈ lines, ∀ arg ∈ l.args, newline ∉ arg) (wrote : Bool) :
    ∀ row ∈ lineRows remotes wrote lines, newline ∉ row := by
  induction lines generalizing wrote with
  | nil => exact forall_mem_nil _
  | cons l lines ih =>
    have later := ih (fun other member => allowed other (mem_cons_of_mem _ member))
      (fun other member => free other (mem_cons_of_mem _ member))
    rw [lineRows]
    split
    case isTrue =>
      rw [forall_mem_append]
      refine ⟨?_, later true⟩
      split
      · exact forall_mem_nil _
      · intro row member
        obtain ⟨r, server, rfl⟩ := mem_map.mp member
        exact free_remoteRow (hosts r server)
    case isFalse =>
      rw [forall_mem_append]
      exact ⟨free_rows (allowed l mem_cons_self) (free l mem_cons_self), later wrote⟩

section Own

variable {p : Profile} {o : RenderOptions}

theorem free_cipher (free : ∀ l ∈ p.lines, ∀ arg ∈ l.args, newline ∉ arg) : newline ∉ p.cipher := by
  refine foldlRecOn (motive := fun cipher => newline ∉ cipher) p.lines _ not_mem_nil ?_
  intro cipher before l member
  split
  case h_1 arg _ only =>
    refine free l member _ ?_
    rw [only]
    exact mem_cons_self
  case h_2 => exact before

theorem free_ownRows (free : ∀ l ∈ p.lines, ∀ arg ∈ l.args, newline ∉ arg)
    (clean : o.Clean) : ∀ row ∈ ownRows p o, newline ∉ row := by
  rw [ownRows, forall_mem_append, cipherRows_eq]
  constructor
  · intro row member
    obtain ⟨l, inside, rfl⟩ := mem_map.mp member
    obtain ⟨_, plain, arg, args, which⟩ := mem_cipherCompat inside
    have cipher := free_cipher free
    have list : newline ∉ defaultDataCiphers := by decide
    have colon : newline ∉ utf8 ":" := by decide
    refine free_directiveRow plain ?_
    rw [args, forall_mem_singleton]
    rcases which with rfl | rfl | rfl
    · exact cipher
    · exact list
    · simp only [mem_append, not_or]
      exact ⟨⟨list, colon⟩, cipher⟩
  · have plain : plainName (utf8 "management") := by decide
    have management : newline ∉ utf8 "management " ++ quote o.management ++ utf8 " unix" := by
      rw [managementRow]
      refine free_directiveRow plain ?_
      rw [forall_mem_cons, forall_mem_singleton]
      exact ⟨clean.socket, by decide⟩
    have verb : newline ∉ utf8 "verb " ++ utf8 (toString (min (max p.verb 3) 5)) := by
      rcases verb_cases p.verb with same | same | same <;> rw [same] <;>
        decide
    unfold fixedRows
    rw [forall_mem_append, forall_mem_append]
    refine ⟨⟨by decide, ?_⟩, ?_⟩
    · split <;> decide
    · simp only [forall_mem_cons, verb, management]
      decide

end Own

/-! ### The whole configuration -/

def Profile.items (p : Profile) (o : RenderOptions) : List ReadItem :=
  lineItems (if o.remotes = [] then p.remotes else o.remotes) false p.lines

/-- No later chunk of a line in a block of key material closes the block. -/
def Segment.readsWhole : Segment → Bool
  | .block _ tag body =>
    policyOf tag != some .inline || body.all fun row =>
        (Bytes.chunks chunkSize row).tail.all fun chunk => !closes tag chunk
  | _ => true

section Whole

variable {text : Bytes} {p : Profile}

theorem looksClosing_of_head {tag row first : Bytes}
    (head : (chunks chunkSize row).head? = some first)
    (closed : closes tag first = true) : utf8 "</" <+: trimSpace row := by
  obtain ⟨after, whole⟩ := head_chunks_prefix head
  obtain ⟨more, found⟩ := List.isPrefixOf_iff_prefix.mp closed
  have blanks : ∀ b ∈ first.takeWhile isSpace, isSpace b :=
    fun b member => mem_takeWhile_imp member
  have cut : row = first.takeWhile isSpace ++ 60 :: 47 :: (tag ++ [62] ++ more ++ after) := by
    rw [← whole]
    conv_lhs => rw [← takeWhile_append_dropWhile
      (p := isSpace) (l := first), ← found, closingTag_eq]
    simp
  have solid : Solid 60 ∧ Solid 47 := by decide
  obtain ⟨kept, trimmed⟩ := trimSpace_front blanks solid.1 solid.2
  have front : utf8 "</" = [60, 47] := by decide
  rw [cut, trimmed, front]
  exact ⟨kept, rfl⟩

theorem splitOn_body {body : List Bytes} (some : body ≠ []) (free : ∀ row ∈ body, newline ∉ row) :
    ([newline].intercalate body).splitOn newline = body :=
  splitOn_intercalate newline free some

theorem whole_lines_iff (accepted : parse text = .ok p) : (∀ l ∈ p.lines, ¬ l.CutShort) ↔
      ∀ segment ∈ segments text, segment.readsWhole := by
  constructor
  · intro whole segment found
    cases segment with
    | row | unclosed => rfl
    | block ln tag body =>
      have free := free_segments text _ found
      rw [Segment.readsWhole, Bool.or_eq_true, bne_iff_ne, or_iff_not_imp_left, not_not]
      intro inline
      have line := line_of_block accepted found inline
      rw [all_eq_true]
      intro row member
      rw [all_eq_true]
      intro chunk later
      rw [Bool.not_eq_true', ← Bool.not_eq_true]
      intro closed
      refine whole _ line ⟨rfl, rfl, row, ?_, chunk, mem_of_mem_tail later, closed⟩
      have some : row ≠ [] := by
        rintro rfl
        cases later
      refine mem_splitOn_trim ?_ some
      rw [splitOn_body (ne_nil_of_mem member) free]
      exact member
  · rintro whole l member ⟨_, block, row, inside, chunk, piece, closed⟩
    obtain ⟨ln, body, found, joined, some, rows⟩ := block_of_parse accepted member block
    have here : row ∈ body := by
      have before := mem_splitOn_of_trim inside
      rwa [joined, splitOn_body some fun row member => (rows row member).1] at before
    have inline := inline_of_allowed (allowed_of_parse accepted l member) block
    have calm := whole _ found
    rw [Segment.readsWhole, inline, bne_self_eq_false, Bool.false_or, all_eq_true] at calm
    cases pieces : chunks chunkSize row with
    | nil =>
      rw [pieces] at piece
      cases piece
    | cons first later =>
      rw [pieces] at piece
      rcases mem_cons.mp piece with rfl | after
      · apply (rows row here).2
        exact looksClosing_of_head (by rw [pieces]; rfl) closed
      · have quiet := all_eq_true.mp (calm row here) chunk (by rw [pieces]; exact after)
        rw [closed] at quiet
        cases quiet

theorem render_rows (p : Profile) (o : RenderOptions) : p.render o = unlines
      (utf8 "# Generated by riftrouted. Routes and DNS are managed by RiftRoute."
        :: (lineRows (if o.remotes = [] then p.remotes else o.remotes) false
          p.lines ++ ownRows p o)) := by
  have ciphers : p.cipherCompat.flatMap Line.render =
      unlines (p.cipherCompat.flatMap Line.rows) := by
    rw [unlines, flatMap_assoc]
    exact flatMap_congr fun l _ => render_eq_unlines l
  rw [Profile.render, renderLines_eq_unlines, ciphers, ownRows]
  simp [unlines]

/-- For an accepted text, openvpn reads the admitted lines, all of them on the
allow-list, and then RiftRoute's own directives, exactly when every block of
key material reads whole. -/
theorem reads_as_admitted_iff {text : Bytes} {p : Profile}
    (accepted : parse text = .ok p) {o : RenderOptions} (clean : o.Clean) :
    (readConfig (p.render o) = p.items o ++ ownItems p o ∧ ∀ l ∈ p.lines, l.allowed) ↔
      ∀ segment ∈ segments text, segment.readsWhole := by
  have allowed := allowed_of_parse accepted
  have args := free_args_of_parse accepted
  have hosts : ∀ r ∈ if o.remotes = [] then p.remotes else o.remotes, '\n' ∉ r.host.toList := by
    split
    · exact free_hosts_of_parse accepted
    · exact clean.hosts
  have heading : newline ∉ utf8
      "# Generated by riftrouted. Routes and DNS are managed by RiftRoute." := by
    decide
  have skipped : openvpnWords (utf8
      "# Generated by riftrouted. Routes and DNS are managed by RiftRoute.") =
      .ok [] := by
    decide
  have free : ∀ row ∈ utf8 "# Generated by riftrouted. Routes and DNS are managed by RiftRoute." ::
      (lineRows (if o.remotes = [] then p.remotes else o.remotes) false
        p.lines ++ ownRows p o), newline ∉ row := by
    rw [forall_mem_cons, forall_mem_append]
    exact ⟨heading, free_lineRows hosts allowed args false, free_ownRows args clean⟩
  rw [and_iff_left allowed, readConfig, render_rows,
    splitOn_unlines free, cons_append, readRows_blank skipped,
    append_assoc, Profile.items, ← readRows_own,
    readRows_lines_iff _ allowed]
  exact whole_lines_iff accepted

end Whole

/-! ### A profile that hides a directive -/

namespace HiddenPlugin

def options : RenderOptions := { management := utf8 "/run/rift.sock" }

def front : Bytes := utf8 "client\nremote vpn.example.com 1194 udp\n<ca>\n"

/-- A certificate of one short line. -/
def plainText : Bytes := front ++ utf8 "MIIB\n</ca>\n"

/-- A certificate whose first line is long, with a closing tag where openvpn
starts its second chunk. -/
def text : Bytes :=
  front ++ replicate 255 65 ++ utf8 "</ca>\nplugin /tmp/x.so\n<ca>\nMIIB\n</ca>\n"

theorem clean : options.Clean where
  hosts := forall_mem_nil _
  socket := by decide

end HiddenPlugin

open HiddenPlugin

theorem short_certificate_admitted : ∃ p, parse plainText = .ok p ∧
      readConfig (p.render options) = p.items options ++ ownItems p options ∧
      ∀ l ∈ p.lines, l.allowed := by
  have accepted : ∃ p, parse plainText = .ok p := by
    cases read : parse plainText with
    | ok p => exact ⟨p, rfl⟩
    | error e =>
      have fine : (parse plainText).isOk = true := by decide
      rw [read] at fine
      cases fine
  obtain ⟨p, accepted⟩ := accepted
  exact ⟨p, accepted, (reads_as_admitted_iff accepted clean).mpr (by decide)⟩

/-- openvpn reads a `plugin` that no line of the accepted profile names. -/
theorem smuggled_plugin : ∃ p, parse text = .ok p ∧ options.Clean ∧
      .directive (utf8 "plugin") ∈ readConfig (p.render options) ∧
      policyOf (utf8 "plugin") = none ∧
      ∀ l ∈ p.lines, l.name ≠ utf8 "plugin" := by
  cases read : parse text with
  | error e =>
    have fine : (parse text).isOk = true := by decide +kernel
    rw [read] at fine
    cases fine
  | ok p =>
    have found : ((parse text).toOption.any fun p =>
        (readConfig (p.render options)).contains (.directive (utf8 "plugin")) &&
        p.lines.all fun l => l.name != utf8 "plugin") = true := by
      decide +kernel
    rw [read] at found
    obtain ⟨hidden, unnamed⟩ := (Bool.and_eq_true _ _).mp found
    refine ⟨p, rfl, clean, contains_iff_mem.mp hidden, by decide, ?_⟩
    intro l member
    exact bne_iff_ne.mp (all_eq_true.mp unnamed l member)

def isBlank (c : UInt8) : Bool := c = 32 || c = 9

def isControl (c : UInt8) : Bool := c < 32 && c ≠ 9 || c = 127

/-- A control character is written within quotes. -/
def Survives (arg : Bytes) : Prop := arg.any isControl = true → arg.any isSpecial = true

instance : DecidablePred Survives := fun _ => inferInstanceAs (Decidable (_ → _))

theorem plainByte_of_calm {c : UInt8} (kept : isControl c = false) (calm : isSpecial c = false) :
    PlainByte isBlank isControl c := by
  simp only [isSpecial, contains_eq_mem, mem_cons, not_mem_nil, or_false, decide_eq_false_iff_not,
    not_or] at calm
  simp [PlainByte, kept, isBlank, calm]

theorem splitWords_control {text rest : Bytes} (calm : ∀ c ∈ text, isSpecial c = false)
    (odd : ∃ c ∈ text, isControl c = true) (word : Option Bytes) :
    splitWords isBlank isControl .plain word (text ++ rest) =
      .error "control character in line" := by
  induction text generalizing word with
  | nil => simp at odd
  | cons c text ih =>
    cases control : isControl c with
    | true =>
      rw [cons_append, splitWords.eq_def]
      simp [control]
    | false =>
      have plain : ∀ d ∈ [c], PlainByte isBlank isControl d := by
        simpa using plainByte_of_calm control (calm c mem_cons_self)
      rw [show c :: text ++ rest = [c] ++ (text ++ rest) from rfl,
        splitWords_plain plain word (by simp)]
      exact ih (fun d member => calm d (mem_cons_of_mem _ member)) (by simpa [control] using odd) _

theorem splitWords_quote (word : Option Bytes) (arg rest : Bytes) :
    splitWords isBlank isControl .plain word (quote arg ++ rest) =
      if Survives arg then splitWords isBlank isControl .plain (some (word.getD [] ++ arg)) rest
      else .error "control character in line" := by
  unfold quote
  split
  case isFalse special =>
    have quoted : Survives arg := by
      intro odd
      by_contra calm
      refine special ?_
      rw [Bool.and_eq_true, decide_eq_true_eq, Bool.not_eq_true']
      refine ⟨?_, by simpa using calm⟩
      rintro rfl
      cases odd
    rw [if_pos quoted]
    exact splitWords_inQuotes (by decide) (by decide) word arg
  case isTrue plain =>
    simp only [Bool.and_eq_true, decide_eq_true_eq, Bool.not_eq_true'] at plain
    have calm : ∀ c ∈ arg, isSpecial c = false := by simpa using plain.2
    by_cases odd : arg.any isControl = true
    · rw [if_neg fun survives => by simp [survives odd] at plain]
      exact splitWords_control calm (any_eq_true.mp odd) word
    · rw [if_pos (show Survives arg from fun control => absurd control odd)]
      refine splitWords_plain (fun c member => ?_) word plain.1
      exact plainByte_of_calm (by simpa using fun same => odd (any_eq_true.mpr ⟨c, member, same⟩))
        (calm c member)

theorem splitWords_args (args : List Bytes) (word : Option Bytes) :
    splitWords isBlank isControl .plain word (args.flatMap fun arg => 32 :: quote arg) =
      if ∀ arg ∈ args, Survives arg then .ok (word.toList ++ args)
      else .error "control character in line" := by
  induction args generalizing word with
  | nil => simp [splitWords]
  | cons arg args ih =>
    have apart : splitWords isBlank isControl .plain word
        (32 :: (quote arg ++ args.flatMap fun arg => 32 :: quote arg)) =
        (splitWords isBlank isControl .plain none
          (quote arg ++ args.flatMap fun arg => 32 :: quote arg)).map (word.toList ++ ·) := by
      rfl
    rw [flatMap_cons, cons_append, apart, splitWords_quote, ih]
    by_cases here : Survives arg
    · rw [if_pos here]
      by_cases others : ∀ arg ∈ args, Survives arg
      · rw [if_pos others, if_pos (forall_mem_cons.mpr ⟨here, others⟩)]
        rfl
      · rw [if_neg others, if_neg fun every => others (forall_mem_cons.mp every).2]
        rfl
    · rw [if_neg here, if_neg fun every => here (forall_mem_cons.mp every).1]
      rfl

theorem tokenize_directiveRow {name : Bytes} (plain : plainName name) (args : List Bytes) :
    tokenize (directiveRow name args) =
      if ∀ arg ∈ args, Survives arg then .ok (name :: args)
      else .error "control character in line" := by
  obtain ⟨letter, every⟩ := (Bool.and_eq_true _ _).mp plain
  have plainBytes : ∀ c ∈ name, PlainByte isBlank isControl c := by
    intro c member
    have known := all_eq_true.mp every c member
    obtain ⟨-, blank, other⟩ := plainByte_of_name known
    refine ⟨?_, ?_, other⟩
    · simp only [isAlnum, isDigit, isControl, Bool.or_eq_true, Bool.and_eq_true, decide_eq_true_eq,
        ← Bool.not_eq_true, UInt8.le_iff_toNat_le, UInt8.lt_iff_toNat_lt, ← UInt8.toNat_inj,
        ne_eq] at known ⊢
      simp at known ⊢
      omega
    · rw [← Bool.not_eq_true]
      intro here
      simp only [isBlank, Bool.or_eq_true, decide_eq_true_eq] at here
      rcases here with rfl | rfl <;> cases blank
  have some : name ≠ [] := by
    rintro rfl
    cases letter
  rw [show tokenize (directiveRow name args) = splitWords isBlank isControl .plain none
    (directiveRow name args) from rfl, directiveRow, splitWords_plain plainBytes none some]
  exact splitWords_args args _

theorem render_within (remotes : List Remote) {l : Line} (own : l.remote = false)
    {lines : List Line} (member : l ∈ lines) (wrote : Bool) :
    l.render <:+: renderLines remotes wrote lines := by
  induction lines generalizing wrote with
  | nil => cases member
  | cons first lines ih =>
    rw [renderLines]
    rcases mem_cons.mp member with rfl | later
    · rw [own]
      exact (prefix_append _ _).isInfix
    · split
      all_goals exact (ih later _).trans (suffix_append _ _).isInfix

theorem not_comment {raw word : Bytes} {args : List Bytes}
    (read : tokenize raw = .ok (word :: args)) :
    ¬ (raw.head?.all fun c => c = 35 || c = 59) = true := by
  intro comment
  cases raw with
  | nil => cases read
  | cons c raw =>
    simp only [head?_cons, Option.all_some, Bool.or_eq_true, decide_eq_true_eq] at comment
    rcases comment with rfl | rfl <;> cases read

/-- The line written for a directive that an accepted text keeps with its own
arguments is one line, and reads back as it was read exactly when each argument
with a control character is written within quotes. -/
theorem arguments_survive_iff {text raw word : Bytes} {p : Profile} {ln : Nat} {args : List Bytes}
    (accepted : parse text = .ok p) (row : .row ln raw ∈ segments text)
    (read : tokenize raw = .ok (word :: args))
    (kept : { name := withoutDashes word, args := args } ∈
      directiveLines (withoutDashes word) args) :
    (∀ o, directiveRow (withoutDashes word) args ++ [newline] <:+: p.render o) ∧
    newline ∉ directiveRow (withoutDashes word) args ∧
    (tokenize (directiveRow (withoutDashes word) args) = .ok (withoutDashes word :: args) ↔
      ∀ arg ∈ args, arg.any isControl = true → arg.any isSpecial = true) := by
  have member : { name := withoutDashes word, args := args } ∈ p.lines := by
    have here : { name := withoutDashes word, args := args } ∈ (Segment.row ln raw).lines := by
      rw [Segment.lines, if_neg (not_comment read), read]
      exact kept
    have among := mem_flatMap.mpr ⟨_, row, here⟩
    rcases lines_of_parse accepted with lines | lines
    · exact lines ▸ among
    · exact lines ▸ mem_cons_of_mem _ among
  have plain := plainName_of_allowed (allowed_of_parse accepted _ member)
  refine ⟨fun o => ?_, free_directiveRow plain (free_args_of_parse accepted _ member), ?_⟩
  · have written := render_within (if o.remotes = [] then p.remotes else o.remotes) rfl member false
    refine written.trans ?_
    exact (suffix_append _ _).isInfix.trans ((prefix_append _ _).trans (prefix_append _ _)).isInfix
  · rw [tokenize_directiveRow plain]
    refine ⟨fun same => ?_, fun survive => if_pos survive⟩
    by_contra odd
    rw [if_neg (show ¬ ∀ arg ∈ args, Survives arg from odd)] at same
    cases same

namespace OddCipher

def rows (cipher : String) : Bytes :=
  utf8 "remote vpn.example.com\n" ++ utf8 ("cipher " ++ cipher)

/-- A quoted control character is written without its quotes. -/
theorem control_not_read_back :
    (parse (rows "\"\x01\"")).toOption.map (fun p => p.lines.map Line.args) =
      some [[utf8 "tun"], [], [[1]]] ∧
    tokenize (directiveRow (utf8 "cipher") [[1]]) = .error "control character in line" := by
  decide +kernel

theorem spaced_control_read_back :
    tokenize (directiveRow (utf8 "cipher") [[1, 32]]) = .ok [utf8 "cipher", [1, 32]] := by
  have accepted : (parse (rows "\"\x01 \"")).isOk = true := by decide +kernel
  cases read : parse (rows "\"\x01 \"") with
  | error e =>
    rw [read] at accepted
    cases accepted
  | ok p =>
    exact (@arguments_survive_iff _ (utf8 "cipher \"\x01 \"") (utf8 "cipher") p 2 [[1, 32]] read
      (by decide +kernel) rfl (by decide +kernel)).2.2.mpr (by decide)

end OddCipher

end RiftRoute.Ovpn
