/-
Module: RiftRoute.Library.Scripts
Purpose: Scripts of statements in braces, read into nested blocks.  A quoted
  text is read whole exactly when it holds no quote.
Trusted boundary: human-reviewed spec
-/
import Mathlib.Data.List.Basic

namespace Scripts

open List

/-! ### Tokens -/

inductive Token where
  | word (text : String)
  | quoted (text : String)
  | left
  | right
  | stop
deriving DecidableEq, Repr

/-- What a character outside words stands for; blanks stand for nothing. -/
def single : Char → Option (List Token)
  | ' ' => some []
  | '\t' => some []
  | '\n' => some [.stop]
  | ';' => some [.stop]
  | '{' => some [.left]
  | '}' => some [.right]
  | _ => none

/-- Where the reader is, with the characters read, the last one first. -/
inductive Mode where
  | between
  | word (back : List Char)
  | quote (back : List Char)
deriving DecidableEq, Repr

/-- The reader and the tokens it has made, the last one first. -/
structure Lexer where
  mode : Mode
  done : List Token
deriving DecidableEq, Repr

namespace Lexer

variable (s : Lexer) (before : List Token)

/-- The tokens once a word that was being read has ended. -/
def flush : List Token :=
  match s.mode with
  | .word back => .word (String.ofList back.reverse) :: s.done
  | _ => s.done

/-- A character outside quotes. -/
def plain (c : Char) : Lexer :=
  if c = '"' then ⟨.quote [], s.flush⟩
  else
    match single c, s.mode with
    | some tokens, _ => ⟨.between, tokens ++ s.flush⟩
    | none, .word back => ⟨.word (c :: back), s.done⟩
    | none, _ => ⟨.word [c], s.done⟩

def step (c : Char) : Lexer :=
  match s.mode with
  | .quote back =>
    if c = '"' then ⟨.between, .quoted (String.ofList back.reverse) :: s.done⟩
    else ⟨.quote (c :: back), s.done⟩
  | _ => s.plain c

def run (text : List Char) : Lexer := text.foldl step s

theorem run_append (first second : List Char) :
    s.run (first ++ second) = (s.run first).run second :=
  foldl_append

/-- The reader with tokens before those it made. -/
def since : Lexer := ⟨s.mode, s.done ++ before⟩

theorem step_since (c : Char) :
    (s.since before).step c = (s.step c).since before := by
  obtain ⟨mode, done⟩ := s
  cases mode with
  | between | word =>
    by_cases quote : c = '"'
    · simp [step, plain, since, flush, quote]
    · cases is : single c <;> simp [step, plain, since, flush, quote, is]
  | quote back =>
    by_cases quote : c = '"' <;> simp [step, since, quote]

theorem run_since (text : List Char) :
    (s.since before).run text = (s.run text).since before := by
  induction text generalizing s with
  | nil => rfl
  | cons c text ih =>
    rw [run, foldl_cons, step_since]
    exact ih (s.step c)

theorem run_of_start {mode next : Mode} {made : List Token}
    {text : List Char} (read : Lexer.run ⟨mode, []⟩ text = ⟨next, made⟩)
    (before : List Token) :
    Lexer.run ⟨mode, before⟩ text = ⟨next, made ++ before⟩ := by
  have whole := run_since ⟨mode, []⟩ before text
  rwa [read] at whole

theorem run_quoted {text : List Char} (free : '"' ∉ text) (back : List Char) (done : List Token) :
    Lexer.run ⟨.quote back, done⟩ (text ++ ['"']) =
      ⟨.between, .quoted (String.ofList (back.reverse ++ text)) :: done⟩ := by
  induction text generalizing back with
  | nil => simp [run, step]
  | cons c text ih =>
    rw [mem_cons, not_or] at free
    have inside : step ⟨.quote back, done⟩ c = ⟨.quote (c :: back), done⟩ :=
      if_neg (Ne.symm free.1)
    rw [cons_append, run, foldl_cons, inside]
    have rest := ih free.2 (c :: back)
    rw [run] at rest
    rw [rest, reverse_cons, append_assoc, singleton_append]

/-- A text with a quoted value in it. -/
theorem run_around {front text after : List Char} {made more : List Token}
    (opened : Lexer.run ⟨.between, []⟩ front = ⟨.quote [], made⟩)
    (free : '"' ∉ text)
    (closed : Lexer.run ⟨.between, []⟩ after = ⟨.between, more⟩)
    (done : List Token) :
    Lexer.run ⟨.between, done⟩ (front ++ (text ++ '"' :: after)) =
      ⟨.between, more ++ .quoted (String.ofList text) :: (made ++ done)⟩ := by
  rw [← singleton_append, ← append_assoc text, run_append,
    run_append, run_of_start opened, run_quoted free, run_of_start closed,
    reverse_nil, nil_append]

/-- No quoted text that was read holds a quote. -/
structure QuoteFree (s : Lexer) : Prop where
  reading : ∀ back, s.mode = .quote back → '"' ∉ back
  read : ∀ text, .quoted text ∈ s.done → '"' ∉ text.toList

theorem flush_quoted {s : Lexer} {text : String}
    (member : .quoted text ∈ s.flush) : .quoted text ∈ s.done := by
  unfold flush at member
  split at member
  · rcases mem_cons.mp member with same | later
    · cases same
    · exact later
  · exact member

theorem single_quoted {c : Char} {tokens : List Token}
    (is : single c = some tokens) (text : String) :
    .quoted text ∉ tokens := by
  unfold single at is
  split at is <;> cases is <;> simp

theorem QuoteFree.step {s : Lexer} (free : s.QuoteFree) (c : Char) : (s.step c).QuoteFree := by
  have plain : (s.plain c).QuoteFree := by
    unfold Lexer.plain
    split
    · exact ⟨by rintro back ⟨⟩; simp, fun text member => free.read text (flush_quoted member)⟩
    · split
      · rename_i tokens mode is
        refine ⟨by rintro back ⟨⟩, fun text member => ?_⟩
        rcases mem_append.mp member with here | before
        · exact absurd here (single_quoted is text)
        · exact free.read text (flush_quoted before)
      · exact ⟨by rintro back ⟨⟩, free.read⟩
      · exact ⟨by rintro back ⟨⟩, free.read⟩
  unfold Lexer.step
  split
  case h_1 back inQuote =>
    have clean := free.reading back inQuote
    split
    case isTrue =>
      refine ⟨by rintro back ⟨⟩, fun text member => ?_⟩
      rcases mem_cons.mp member with same | before
      · cases same
        simpa using clean
      · exact free.read text before
    case isFalse differs =>
      refine ⟨?_, free.read⟩
      rintro more ⟨⟩
      rw [mem_cons, not_or]
      exact ⟨Ne.symm differs, clean⟩
  case h_2 => exact plain

theorem QuoteFree.run {s : Lexer} (free : s.QuoteFree) (text : List Char) :
    (s.run text).QuoteFree :=
  foldlRecOn text Lexer.step free fun _ held c _ => held.step c

end Lexer

/-- The tokens of a text; a quote that is never closed is an error. -/
def lex (text : List Char) : Option (List Token) :=
  let s := Lexer.run ⟨.between, []⟩ text
  match s.mode with
  | .quote _ => none
  | _ => some s.flush.reverse

theorem quote_free_of_lex {text : List Char} {tokens : List Token}
    (read : lex text = some tokens) {value : String}
    (member : .quoted value ∈ tokens) : '"' ∉ value.toList := by
  have start : Lexer.QuoteFree ⟨.between, []⟩ := ⟨by rintro back ⟨⟩, by rintro value ⟨⟩⟩
  have final := start.run text
  unfold lex at read
  dsimp only at read
  split at read
  · cases read
  cases read
  exact final.read value (Lexer.flush_quoted (List.mem_reverse.mp member))

/-! ### Blocks -/

/-- A script in order: a block is what stands between its header and the end
it is closed by. -/
inductive Piece where
  | opens (header : List Token)
  | statement (line : List Token)
  | closes
deriving DecidableEq, Repr

def Piece.tokens : Piece → List Token
  | .opens header => header
  | .statement line => line
  | .closes => []

/-- What has been read, the last piece and the last token of the line
first. -/
structure Reader where
  depth : Nat
  line : List Token
  done : List Piece
deriving DecidableEq, Repr

namespace Reader

def flush (s : Reader) : List Piece :=
  if s.line = [] then s.done else .statement s.line.reverse :: s.done

def step (s : Reader) : Token → Option Reader
  | .left => some ⟨s.depth + 1, [], .opens s.line.reverse :: s.done⟩
  | .right =>
    match s.depth with
    | 0 => none
    | depth + 1 => some ⟨depth, [], .closes :: s.flush⟩
  | .stop => some ⟨s.depth, [], s.flush⟩
  | token => some ⟨s.depth, token :: s.line, s.done⟩

/-- Everything read is one of the tokens. -/
structure Within (tokens : List Token) (s : Reader) : Prop where
  line : ∀ t ∈ s.line, t ∈ tokens
  done : ∀ piece ∈ s.done, ∀ t ∈ piece.tokens, t ∈ tokens

theorem Within.flush {tokens : List Token} {s : Reader} (within : s.Within tokens) :
    ∀ piece ∈ s.flush, ∀ t ∈ piece.tokens, t ∈ tokens := by
  unfold Reader.flush
  split
  · exact within.done
  · refine List.forall_mem_cons.mpr ⟨?_, within.done⟩
    intro t member
    exact within.line t (List.mem_reverse.mp member)

theorem Within.step {tokens : List Token} {s next : Reader} {token : Token}
    (within : s.Within tokens) (member : token ∈ tokens)
    (read : s.step token = some next) : next.Within tokens := by
  have nothing : ∀ t ∈ ([] : List Token), t ∈ tokens := by simp
  cases token with
  | left =>
    cases read
    refine ⟨nothing, List.forall_mem_cons.mpr ⟨?_, within.done⟩⟩
    intro t inside
    exact within.line t (List.mem_reverse.mp inside)
  | right =>
    rw [Reader.step] at read
    split at read
    · cases read
    cases read
    exact ⟨nothing, List.forall_mem_cons.mpr ⟨nothing, within.flush⟩⟩
  | stop =>
    cases read
    exact ⟨nothing, within.flush⟩
  | word | quoted =>
    cases read
    exact ⟨List.forall_mem_cons.mpr ⟨member, within.line⟩, within.done⟩

theorem Within.run {tokens rest : List Token} {s final : Reader}
    (within : s.Within tokens) (part : ∀ t ∈ rest, t ∈ tokens)
    (read : rest.foldlM Reader.step s = some final) : final.Within tokens := by
  induction rest generalizing s with
  | nil =>
    cases read
    exact within
  | cons token rest ih =>
    obtain ⟨member, later⟩ := List.forall_mem_cons.mp part
    obtain ⟨next, first, then_⟩ := Option.bind_eq_some_iff.mp read
    exact ih (within.step member first) later then_

end Reader

/-- The blocks of a text; a brace without its partner is an error. -/
def parse (text : List Char) : Option (List Piece) := do
  let tokens ← lex text
  let s ← tokens.foldlM Reader.step ⟨0, [], []⟩
  if s.depth = 0 then some s.flush.reverse else none

theorem quote_free_of_parse {text : List Char} {pieces : List Piece}
    (read : parse text = some pieces) {piece : Piece} (member : piece ∈ pieces)
    {value : String} (inside : .quoted value ∈ piece.tokens) :
    '"' ∉ value.toList := by
  obtain ⟨tokens, lexed, rest⟩ := Option.bind_eq_some_iff.mp read
  obtain ⟨s, run, closed⟩ := Option.bind_eq_some_iff.mp rest
  have start : Reader.Within tokens ⟨0, [], []⟩ := ⟨by simp, by simp⟩
  have within := start.run (fun _ member => member) run
  split at closed
  · cases closed
    apply quote_free_of_lex lexed
    exact within.flush piece (mem_reverse.mp member) _ inside
  · cases closed

end Scripts
