/-
Module: RiftRoute.PerApp.Marker
Purpose: The nft script that marks the packets of apps, one rule for each
  value exactly when none of them holds a quote, and the runs of the marker
  that leave exactly the packets of the last call's cgroups marked.
Trusted boundary: human-reviewed spec
Main exports: buildNftMarkRuleset, runMarker
-/
import RiftRoute.Config.Validate
import RiftRoute.Library.Scripts
import RiftRoute.Routing.BuildDesired

namespace RiftRoute

open Scripts

/-! ### The values -/

/-- The values of a profile's app rules, where they take effect. -/
def Profile.appValues (p : Profile) : List String :=
  if p.enabled ∧ p.mode = .modeInclude then
    p.rules.filterMap fun r =>
      if r.type = .app ∧ r.value ≠ "" then some r.value else none
  else []

def appCgroups (profiles : List Profile) : List String :=
  (firsts id [] (profiles.flatMap Profile.appValues)).insertionSort (· ≤ ·)

theorem nodup_appCgroups (profiles : List Profile) : (appCgroups profiles).Nodup := by
  have distinct := @nodup_firsts String String _ id [] (profiles.flatMap Profile.appValues)
  rw [List.map_id] at distinct
  exact (List.perm_insertionSort _ _).nodup_iff.mpr distinct

theorem mem_appCgroups {profiles : List Profile} {value : String} :
    value ∈ appCgroups profiles ↔ ∃ p ∈ profiles, value ∈ p.appValues := by
  rw [appCgroups, (List.perm_insertionSort _ _).mem_iff, mem_firsts_id, List.mem_flatMap]

namespace PerApp

/-! ### The script -/

def markTable : String := "riftroute_mark"

def markRow (mark cgroup : String) : String :=
  "    socket cgroupv2 level 2 \"" ++ cgroup ++ "\" meta mark set " ++ mark

def buildNftMarkRuleset (cgroups : List String) (mark : String) : String :=
  Texts.unlines (["table inet " ++ markTable ++ " \x7b", "  chain mark \x7b",
      "    type route hook output priority -150; policy accept;"] ++
      cgroups.map (markRow mark) ++ ["  \x7d", "\x7d"])

/-! ### What nft reads -/

def markStatement (level value mark : String) : Piece :=
  .statement [.word "socket", .word "cgroupv2", .word "level", .word level,
    .quoted value, .word "meta", .word "mark", .word "set", .word mark]

def markScript (rules : List Piece) : List Piece :=
  [.opens [.word "table", .word "inet", .word markTable], .opens [.word "chain", .word "mark"],
    .statement [.word "type", .word "route", .word "hook", .word "output",
      .word "priority", .word "-150"],
    .statement [.word "policy", .word "accept"]] ++
    rules ++ [.closes, .closes]

/-- A script is one table with one output chain that holds one mark rule for
each of the values and nothing else. -/
def MarksExactly (script : String) (values : List String) : Prop :=
  ∃ order : List String, order.Nodup ∧ (∀ v, v ∈ order ↔ v ∈ values) ∧ parse script.toList =
      some (markScript (order.map fun v => markStatement "2" v modelBMark))

/-! ### Reading the script -/

def headTokens : List Token :=
  [.word "table", .word "inet", .word markTable, .left, .stop,
    .word "chain", .word "mark", .left, .stop,
    .word "type", .word "route", .word "hook", .word "output",
    .word "priority", .word "-150", .stop, .word "policy", .word "accept",
    .stop, .stop]

def rowTokens (value : String) : List Token :=
  [.word "socket", .word "cgroupv2", .word "level", .word "2", .quoted value,
    .word "meta", .word "mark", .word "set", .word modelBMark, .stop]

def footTokens : List Token := [.right, .stop, .right, .stop]

theorem run_row {value : String} (free : '"' ∉ value.toList) (done : List Token) :
    Lexer.run ⟨.between, done⟩ ((markRow modelBMark value).toList ++ ['\n']) =
      ⟨.between, (rowTokens value).reverse ++ done⟩ := by
  have opened : Lexer.run ⟨.between, []⟩ "    socket cgroupv2 level 2 \"".toList =
      ⟨.quote [], [.word "2", .word "level", .word "cgroupv2", .word "socket"]⟩ := by
    decide
  have closed : Lexer.run ⟨.between, []⟩ " meta mark set 0x5252\n".toList =
      ⟨.between, [.stop, .word modelBMark, .word "set", .word "mark", .word "meta"]⟩ := by
    decide
  have tail : "\" meta mark set ".toList ++ (modelBMark.toList ++ ['\n']) =
      '"' :: " meta mark set 0x5252\n".toList := by
    decide
  have regroup : ∀ (front back mark : String) (after : List Char),
      back.toList ++ (mark.toList ++ ['\n']) = '"' :: after →
      (front ++ value ++ back ++ mark).toList ++ ['\n'] =
        front.toList ++ (value.toList ++ '"' :: after) := by
    intro front back mark after same
    rw [← same]
    simp
  have read := Lexer.run_around opened free closed done
  rw [String.ofList_toList] at read
  exact (congrArg (Lexer.run ⟨.between, done⟩) (regroup _ _ _ _ tail)).trans read

variable {values : List String}

theorem run_rows (free : ∀ v ∈ values, '"' ∉ v.toList) (done : List Token) :
    Lexer.run ⟨.between, done⟩ ((values.map (markRow modelBMark)).flatMap fun row =>
          row.toList ++ ['\n']) =
      ⟨.between, (values.flatMap rowTokens).reverse ++ done⟩ := by
  induction values generalizing done with
  | nil => rfl
  | cons value values ih =>
    obtain ⟨here, later⟩ := List.forall_mem_cons.mp free
    rw [List.map_cons, List.flatMap_cons, Lexer.run_append, run_row here, ih later]
    simp

theorem lex_ruleset (free : ∀ v ∈ values, '"' ∉ v.toList) :
    lex (buildNftMarkRuleset values modelBMark).toList =
      some (headTokens ++ values.flatMap rowTokens ++ footTokens) := by
  have head : Lexer.run ⟨.between, []⟩ (["table inet " ++ markTable ++ " \x7b", "  chain mark \x7b",
        "    type route hook output priority -150; policy accept;"].flatMap
          fun row => row.toList ++ ['\n']) =
      ⟨.between, headTokens.reverse⟩ := by
    decide +kernel
  have foot : Lexer.run ⟨.between, []⟩
      (["  \x7d", "\x7d"].flatMap fun row => row.toList ++ ['\n']) =
      ⟨.between, footTokens.reverse⟩ := by
    decide
  rw [buildNftMarkRuleset, Texts.unlines, String.toList_ofList,
    List.flatMap_append, List.flatMap_append, lex, Lexer.run_append,
    Lexer.run_append, head, run_rows free, Lexer.run_of_start foot]
  simp [Lexer.flush]

theorem foldlM_rows (values : List String) (done : List Piece) :
    (values.flatMap rowTokens).foldlM Reader.step ⟨2, [], done⟩ = some ⟨2, [], (values.map fun v =>
        markStatement "2" v modelBMark).reverse ++ done⟩ := by
  induction values generalizing done with
  | nil => rfl
  | cons value values ih =>
    have row : (rowTokens value).foldlM Reader.step ⟨2, [], done⟩ =
        some ⟨2, [], markStatement "2" value modelBMark :: done⟩ := rfl
    rw [List.flatMap_cons, List.foldlM_append, row, Option.bind_eq_bind, Option.bind_some, ih]
    simp

theorem parse_ruleset (free : ∀ v ∈ values, '"' ∉ v.toList) :
    parse (buildNftMarkRuleset values modelBMark).toList = some (markScript (values.map fun v =>
        markStatement "2" v modelBMark)) := by
  have head : headTokens.foldlM Reader.step ⟨0, [], []⟩ =
      some ⟨2, [], ((markScript []).take 4).reverse⟩ := by
    decide
  have foot : ∀ done : List Piece, footTokens.foldlM Reader.step ⟨2, [], done⟩ =
        some ⟨0, [], .closes :: .closes :: done⟩ := fun done => rfl
  rw [parse, lex_ruleset free, Option.bind_eq_bind, Option.bind_some,
    List.foldlM_append, List.foldlM_append, head]
  simp only [Option.bind_eq_bind, Option.bind_some, foldlM_rows, foot]
  simp [Reader.flush, markScript]

theorem quote_free_of_marks {script : String} {values : List String}
    (marks : MarksExactly script values) {v : String} (member : v ∈ values) :
    '"' ∉ v.toList := by
  obtain ⟨order, -, same, read⟩ := marks
  have held : markStatement "2" v modelBMark ∈
      markScript (order.map fun v => markStatement "2" v modelBMark) := by
    apply List.mem_append_left
    apply List.mem_append_right
    exact List.mem_map.mpr ⟨v, (same v).mpr member, rfl⟩
  exact quote_free_of_parse read held (by simp [Piece.tokens, markStatement])

/-- The script marks the values of the app rules and does nothing else exactly
when none of them holds a quote. -/
theorem ruleset_marks_exactly_iff (profiles : List Profile) :
    MarksExactly (buildNftMarkRuleset (appCgroups profiles) modelBMark)
        (profiles.flatMap Profile.appValues) ↔
      ∀ v ∈ profiles.flatMap Profile.appValues, '"' ∉ v.toList := by
  have members : ∀ v, v ∈ appCgroups profiles ↔ v ∈ profiles.flatMap Profile.appValues := by
    intro v
    rw [mem_appCgroups, List.mem_flatMap]
  constructor
  · exact fun marks v member => quote_free_of_marks marks member
  · intro free
    refine ⟨appCgroups profiles, nodup_appCgroups profiles, members, ?_⟩
    exact parse_ruleset fun v member => free v ((members v).mp member)

/-- A value that ends its quotes and brings a statement of its own. -/
def smuggledValue : String :=
  "a\" meta mark set 0x5252; tcp dport 22 drop; socket cgroupv2 level 2 \"b"

def smuggledFile : ConfigFile :=
  { profiles := [{ name := "apps", enabled := true, mode := "include"
                   rules := [⟨"app", smuggledValue, ""⟩] }] }

theorem smuggled_drop : smuggledFile.Valid ⟨fun _ => true, fun _ => true⟩ "linux" ∧
      parse (buildNftMarkRuleset (appCgroups smuggledFile.domainProfiles) modelBMark).toList =
        some (markScript [markStatement "2" "a" modelBMark,
          .statement [.word "tcp", .word "dport", .word "22", .word "drop"],
          markStatement "2" "b" modelBMark]) ∧
      ¬ MarksExactly (buildNftMarkRuleset (appCgroups smuggledFile.domainProfiles) modelBMark)
        (smuggledFile.domainProfiles.flatMap Profile.appValues) := by
  have cgroups : appCgroups smuggledFile.domainProfiles = [smuggledValue] := by
    rfl
  refine ⟨by decide, ?_, ?_⟩
  · rw [cgroups, buildNftMarkRuleset, Texts.unlines, String.toList_ofList]
    decide +kernel
  intro marks
  exact quote_free_of_marks marks List.mem_cons_self (by decide)

open List

/-! ### The packet filter

Loading a script adds its rules to a chain that exists; a rule matches the
sockets whose cgroup's ancestor at its level is its path. -/

structure MarkRule where
  level : Nat
  path : String
  mark : String
deriving DecidableEq, Repr

/-- The rules of the marker's chain, when its table is there. -/
abbrev NftTable := Option (List MarkRule)

def decimal (text : String) : Option Nat :=
  if text ≠ "" ∧ text.toList.all Char.isDigit then
    some (text.toList.foldl (fun n c => 10 * n + (c.toNat - '0'.toNat)) 0)
  else none

def readRule : Piece → Option MarkRule
  | .statement [.word "socket", .word "cgroupv2", .word "level", .word level,
      .quoted path, .word "meta", .word "mark", .word "set", .word mark] =>
        (decimal level).map fun n => ⟨n, path, mark⟩
  | _ => none

/-- The rules of a script that is the marker's table and chain with mark rules
in it; other scripts are not followed here. -/
def readRuleset (pieces : List Piece) : Option (List MarkRule) :=
  let rules := (pieces.drop 4).dropLast.dropLast
  if pieces = markScript rules then rules.mapM readRule else none

/-- `nft -f -`; a script that is not read fails. -/
def load (table : NftTable) (script : String) : Option NftTable := do
  let pieces ← parse script.toList
  let rules ← readRuleset pieces
  some (some (table.getD [] ++ rules))

/-- The names on the way from the root to a cgroup. -/
abbrev Cgroup := List String

def pathNames (path : String) : Cgroup :=
  ((Texts.splitOn '/' path.toList).filter (· ≠ [])).map String.ofList

def ancestor (cgroup : Cgroup) (depth : Nat) : Option Cgroup :=
  if depth ≤ cgroup.length then some (cgroup.take depth) else none

def MarkRule.matches (r : MarkRule) (cgroup : Cgroup) : Prop :=
  ancestor cgroup r.level = some (pathNames r.path)

def Marked (table : NftTable) (cgroup : Cgroup) : Prop := ∃ r ∈ table.getD [], r.matches cgroup

/-! ### The marker -/

def mark (table : NftTable) (cgroups : List String) (mark : String) : Option NftTable :=
  load table (buildNftMarkRuleset cgroups mark)

/-- `nft delete table`, whose failure is ignored. -/
def unmark (_ : NftTable) : NftTable := none

inductive MarkerOp where
  | mark (cgroups : List String)
  | unmark
deriving DecidableEq, Repr

namespace MarkerOp

def apply (table : NftTable) : MarkerOp → Option NftTable
  | .mark cgroups => PerApp.mark table cgroups modelBMark
  | .unmark => some (PerApp.unmark table)

def paths : MarkerOp → List String
  | .mark cgroups => cgroups
  | .unmark => []

def last (ops : List MarkerOp) : List String := (ops.getLast?.map paths).getD []

/-- All paths of the calls since the table was last deleted. -/
def standing (held : List String) : List MarkerOp → List String
  | [] => held
  | .mark cgroups :: rest => standing (held ++ cgroups) rest
  | .unmark :: rest => standing [] rest

end MarkerOp

/-- The calls succeed, one after the other. -/
def runMarker (ops : List MarkerOp) : Option NftTable := ops.foldlM MarkerOp.apply none

/-! ### What the table holds -/

def levelTwo (path : String) : MarkRule := ⟨2, path, modelBMark⟩

theorem readRule_statement (path : String) :
    readRule (markStatement "2" path modelBMark) = some (levelTwo path) := by
  rfl

theorem readRuleset_markScript (rules : List Piece) :
    readRuleset (markScript rules) = rules.mapM readRule := by
  have cut : ((markScript rules).drop 4).dropLast.dropLast = rules := by
    have tail : (markScript rules).drop 4 = rules ++ [.closes, .closes] := by
      simp [markScript]
    rw [tail]
    simp [dropLast_append_of_ne_nil]
  rw [readRuleset, cut, if_pos rfl]

theorem mark_plain {cgroups : List String}
    (free : ∀ path ∈ cgroups, '"' ∉ path.toList) (table : NftTable) :
    mark table cgroups modelBMark = some (some (table.getD [] ++ cgroups.map levelTwo)) := by
  have each : (cgroups.map fun v => markStatement "2" v modelBMark).mapM
      readRule = some (cgroups.map levelTwo) := by
    induction cgroups with
    | nil => rfl
    | cons path cgroups ih =>
      rw [List.map_cons, List.mapM_cons, readRule_statement, ih (List.forall_mem_cons.mp free).2]
      rfl
  rw [mark, load, parse_ruleset free]
  simp only [Option.bind_eq_bind, Option.bind_some, readRuleset_markScript, each]

theorem runMarker_plain {ops : List MarkerOp}
    (free : ∀ op ∈ ops, ∀ path ∈ op.paths, '"' ∉ path.toList)
    (held : List String) (table : NftTable)
    (start : table.getD [] = held.map levelTwo) :
    ∃ final, ops.foldlM MarkerOp.apply table = some final ∧
      final.getD [] = (MarkerOp.standing held ops).map levelTwo := by
  induction ops generalizing held table with
  | nil => exact ⟨table, rfl, start⟩
  | cons op ops ih =>
    obtain ⟨here, later⟩ := forall_mem_cons.mp free
    rw [foldlM_cons]
    cases op with
    | mark cgroups =>
      have plain : ∀ path ∈ cgroups, '"' ∉ path.toList := here
      rw [MarkerOp.apply, mark_plain plain, Option.bind_eq_bind,
        Option.bind_some, MarkerOp.standing]
      apply ih later
      rw [Option.getD_some, start, List.map_append]
    | unmark =>
      exact ih later [] none rfl

theorem levelTwo_matches_iff {path : String} {cgroup : Cgroup} : (levelTwo path).matches cgroup ↔
      (pathNames path).length = 2 ∧ pathNames path <+: cgroup := by
  unfold MarkRule.matches ancestor levelTwo
  split
  case isTrue deep =>
    rw [Option.some_inj]
    constructor
    · intro same
      rw [← same]
      exact ⟨List.length_take_of_le deep, List.take_prefix 2 cgroup⟩
    · rintro ⟨two, start⟩
      rw [← two]
      exact (List.prefix_iff_eq_take.mp start).symm
  case isFalse shallow =>
    constructor
    · intro same
      cases same
    · rintro ⟨two, start⟩
      exact absurd (two ▸ start.length_le) shallow

/-- The cgroups whose packets are marked are those at or below a path of the
last call exactly when each of these paths is at or below one of two names that
was marked since the table was deleted, and each of two names that was is at or
below one of these. -/
theorem marked_follows_last_iff (ops : List MarkerOp)
    (free : ∀ op ∈ ops, ∀ path ∈ op.paths, '"' ∉ path.toList) :
    ∃ table, runMarker ops = some table ∧ ((∀ cgroup : Cgroup, Marked table cgroup ↔
          ∃ path ∈ MarkerOp.last ops, pathNames path <+: cgroup) ↔
        (∀ path ∈ MarkerOp.last ops, ∃ old ∈ MarkerOp.standing [] ops,
            (pathNames old).length = 2 ∧ pathNames old <+: pathNames path) ∧
          ∀ old ∈ MarkerOp.standing [] ops, (pathNames old).length = 2 →
            ∃ path ∈ MarkerOp.last ops, pathNames path <+: pathNames old) := by
  obtain ⟨table, ran, rules⟩ := runMarker_plain free [] none rfl
  have marked : ∀ cgroup, Marked table cgroup ↔ ∃ old ∈ MarkerOp.standing [] ops,
        (pathNames old).length = 2 ∧ pathNames old <+: cgroup := by
    intro cgroup
    rw [Marked, rules]
    simp only [mem_map, exists_exists_and_eq_and, levelTwo_matches_iff]
  refine ⟨table, ran, ?_⟩
  simp only [marked]
  constructor
  · intro follows
    constructor
    · intro path member
      exact (follows (pathNames path)).mpr ⟨path, member, prefix_rfl⟩
    · intro old member two
      exact (follows (pathNames old)).mp ⟨old, member, two, prefix_rfl⟩
  · rintro ⟨covered, kept⟩ cgroup
    constructor
    · rintro ⟨old, member, two, above⟩
      obtain ⟨path, last, start⟩ := kept old member two
      exact ⟨path, last, start.trans above⟩
    · rintro ⟨path, member, above⟩
      obtain ⟨old, standing, two, start⟩ := covered path member
      exact ⟨old, standing, two, start.trans above⟩

def renewedMarks : List MarkerOp := [.mark ["system.slice/a"], .unmark, .mark ["system.slice/b"]]

theorem renewedMarks_follow : ∃ table, runMarker renewedMarks = some table ∧
      ∀ cgroup : Cgroup, Marked table cgroup ↔
        ∃ path ∈ ["system.slice/b"], pathNames path <+: cgroup := by
  have free : ∀ op ∈ renewedMarks, ∀ path ∈ op.paths, '"' ∉ path.toList := by
    decide
  obtain ⟨table, ran, follows⟩ := marked_follows_last_iff renewedMarks free
  refine ⟨table, ran, follows.mpr ⟨?_, ?_⟩⟩
  · decide
  · decide

def movedMarks : List MarkerOp := [.mark ["system.slice/a"], .mark ["system.slice/b"]]

/-- A path that is no longer asked for stays marked. -/
theorem movedMarks_stale :
    ¬ ∀ (ops : List MarkerOp) (table : NftTable), runMarker ops = some table →
      ∀ cgroup : Cgroup, Marked table cgroup ↔
        ∃ path ∈ MarkerOp.last ops, pathNames path <+: cgroup := by
  intro follows
  have free : ∀ op ∈ movedMarks, ∀ path ∈ op.paths, '"' ∉ path.toList := by
    decide
  obtain ⟨table, ran, rules⟩ := runMarker_plain free [] none rfl
  have stale : Marked table ["system.slice", "a"] := by
    rw [Marked, rules]
    refine ⟨levelTwo "system.slice/a", ?_, levelTwo_matches_iff.mpr ?_⟩
    · exact mem_map.mpr ⟨_, mem_cons_self, rfl⟩
    · decide
  have wanted := (follows movedMarks table ran _).mp stale
  revert wanted
  decide

end PerApp

end RiftRoute
