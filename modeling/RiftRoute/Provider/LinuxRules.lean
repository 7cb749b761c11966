/-
Module: RiftRoute.Provider.LinuxRules
Purpose: Policy rules on Linux: how a rule is added, listed by `ip -j rule
  show` and read back, and which rules of a build are recognised again.
Trusted boundary: human-reviewed spec
Main exports: parseRules, addRules
-/
import RiftRoute.Routing.Selection
import RiftRoute.Safety.Protocol

namespace RiftRoute

open List

namespace Linux

open Netip (Prefix Addr parsePrefix parseAddr decimal)
open Texts (words)

/-! ### The command line -/

def routeProtoNum : String := "152"

def routeProtoName : String := "riftroute"

def canonicalProto (proto : String) : String :=
  if proto = routeProtoNum ∨ proto = routeProtoName then routeProtoName
  else proto

/-- The family of a rule recorded without one, from its selector's address. -/
def selectorFamily (selector : String) : Family :=
  if (words selector).any fun field =>
      (parsePrefix field).any (fun p => p.addr.is6) || (parseAddr field).any Addr.is6 then .v6
  else .v4

/-- The arguments of `ip` to add or delete a rule, always with its family. -/
def ruleArgs (verb : String) (mr : ManagedRule) : List String :=
  let fam := mr.rule.family.getD (selectorFamily mr.rule.selector)
  [if fam = .v6 then "-6" else "-4", "rule", verb] ++ words mr.rule.selector ++
    ["lookup", mr.rule.table, "priority", mr.rule.priority.repr]

/-- The arguments of `AddRule`, tagged for ownership. -/
def addRuleArgs (mr : ManagedRule) : List String := ruleArgs "add" mr ++ ["protocol", routeProtoNum]

/-! ### The kernel's rules

What `ip rule add` makes of those arguments, and what `ip -j rule show` prints
of a rule. -/

structure KernelRule where
  family : Family
  dst : Option Prefix := none
  fwMark : String := ""
  suppressPrefixLen : Option Nat := none
  table : String := ""
  priority : Int := 0
  protocol : String := ""
deriving DecidableEq

/-- One option of `ip rule add`. -/
def KernelRule.readOption (option value : String) (k : KernelRule) : Option KernelRule :=
  match option with
  | "from" => if value = "all" then some k else none
  | "to" => (parsePrefix value).map fun p => { k with dst := some p }
  | "fwmark" => some { k with fwMark := value }
  | "suppress_prefixlength" =>
    (decimal value.toList).map fun n => { k with suppressPrefixLen := some n }
  | "lookup" => some { k with table := value }
  | "priority" =>
    (decimal value.toList).map fun n => { k with priority := Int.ofNat n }
  | "protocol" => some { k with protocol := value }
  | _ => none

def KernelRule.readOptions : List String → KernelRule → Option KernelRule
  | [], k => some k
  | [_], _ => none
  | option :: value :: rest, k =>
    (k.readOption option value).bind (KernelRule.readOptions rest)

/-- The rule an `ip -4|-6 rule add` command line adds. -/
def readCommand : List String → Option KernelRule
  | flag :: "rule" :: "add" :: options =>
    KernelRule.readOptions options { family := if flag = "-6" then .v6 else .v4 }
  | _ => none

/-- One element of `ip -j rule show`; a key that is not printed is empty or
zero. -/
structure IpRule where
  priority : Int
  src : String := ""
  srcLen : Int := 0
  dst : String := ""
  dstLen : Int := 0
  table : String := ""
  fwMark : String := ""
  protocol : String := ""
  iifName : String := ""
  oifName : String := ""
  suppressPrefixLen : Option Int := none

/-- How a rule is listed: a rule without a source has the source `all`, the
destination has no length, and the length of a single address is left out.
Whether a destination of length zero is printed is left open. -/
def KernelRule.shown (zeroShown : Bool) (k : KernelRule) : IpRule :=
  { priority := k.priority
    src := "all"
    dst := k.dst.elim "" fun p =>
      if p.bits = 0 ∧ ¬ zeroShown then "" else p.addr.text
    dstLen := k.dst.elim 0 fun p =>
      if p.bits = p.addr.bitLen then 0 else p.bits
    table := k.table
    fwMark := k.fwMark
    protocol := k.protocol
    suppressPrefixLen := k.suppressPrefixLen.map Int.ofNat }

/-! ### Reading the listing -/

def withLen (addr : String) (length : Int) : String :=
  if addr = "" ∨ '/' ∈ addr.toList ∨ length ≤ 0 then addr
  else addr ++ "/" ++ length.repr

def ruleSelector (r : IpRule) : String :=
  " ".intercalate <| [if r.dst ≠ "" then "to " ++ withLen r.dst r.dstLen
      else if r.src ≠ "" then "from " ++ withLen r.src r.srcLen
      else "from all"] ++
    (if r.fwMark ≠ "" then ["fwmark " ++ r.fwMark] else []) ++
    (if r.iifName ≠ "" then ["iif " ++ r.iifName] else []) ++
    (if r.oifName ≠ "" then ["oif " ++ r.oifName] else []) ++
    r.suppressPrefixLen.elim [] fun n => ["suppress_prefixlength " ++ n.repr]

/-- The rules of a family's listing, after its JSON is decoded. -/
def parseRules (family : Family) (raw : List IpRule) : List PolicyRule :=
  raw.map fun r =>
    { priority := r.priority
      selector := ruleSelector r
      table := r.table
      family := some family
      proto := canonicalProto r.protocol }

def listRules (zeroShown : Bool) (kernel : List KernelRule) (fam : Family) : List PolicyRule :=
  parseRules fam ((kernel.filter fun k => k.family = fam).map (KernelRule.shown zeroShown))

def KernelRule.listed (zeroShown : Bool) (k : KernelRule) : PolicyRule :=
  { priority := k.priority
    selector := ruleSelector (k.shown zeroShown)
    table := k.table
    family := some k.family
    proto := canonicalProto k.protocol }

/-- The kernel's rules after the provider has added some to the others; one
that is there already stays as it is. -/
def addRules (others : List KernelRule) (rules : List ManagedRule) : List KernelRule :=
  (rules.filterMap fun r => readCommand (addRuleArgs r)).foldl (addNew id) others

def ReadsBack (zeroShown : Bool) (r : ManagedRule) : Prop :=
  ∃ k, readCommand (addRuleArgs r) = some k ∧ ruleKey (k.listed zeroShown) = r.key

instance (zeroShown : Bool) (r : ManagedRule) : Decidable (ReadsBack zeroShown r) :=
  decidable_of_iff ((readCommand (addRuleArgs r)).any fun k =>
    ruleKey (k.listed zeroShown) = r.key) (by
      simp [ReadsBack, Option.any_eq_true])

variable {zeroShown : Bool}

theorem mem_listRules {kernel : List KernelRule} {fam : Family} {r : PolicyRule} :
    r ∈ listRules zeroShown kernel fam ↔ ∃ k ∈ kernel, k.family = fam ∧ k.listed zeroShown = r := by
  simp only [listRules, parseRules, map_map, mem_map,
    mem_filter, decide_eq_true_eq, and_assoc]
  refine exists_congr fun k => and_congr Iff.rfl (and_congr_right ?_)
  rintro rfl
  rfl

variable {k : KernelRule}

theorem mem_addRules {others : List KernelRule} {rules : List ManagedRule} :
    k ∈ addRules others rules ↔ k ∈ others ∨ ∃ r ∈ rules, readCommand (addRuleArgs r) = some k := by
  have keys : k ∈ (addRules others rules).map id ↔ k ∈ others.map id ∨
      k ∈ (rules.filterMap fun r => readCommand (addRuleArgs r)).map id :=
    key_mem_foldl_addNew
  simpa using keys

variable {r : ManagedRule}

theorem mem_actualManagedRules {kernel : List KernelRule} :
    r ∈ actualManagedRules (listRules zeroShown kernel) ↔
      ∃ k ∈ kernel, canonicalProto k.protocol = routeProtoName ∧
        r = { rule := k.listed zeroShown } := by
  simp only [actualManagedRules, mem_map, mem_filter,
    mem_append, mem_listRules, decide_eq_true_eq]
  constructor
  · rintro ⟨_, ⟨⟨k, member, _, rfl⟩ | ⟨k, member, _, rfl⟩, tagged⟩, rfl⟩
    all_goals exact ⟨k, member, tagged, rfl⟩
  · rintro ⟨k, member, tagged, rfl⟩
    refine ⟨_, ⟨?_, tagged⟩, rfl⟩
    cases family : k.family with
    | v4 => exact .inl ⟨k, member, family, rfl⟩
    | v6 => exact .inr ⟨k, member, family, rfl⟩

/-! ### One rule, added and listed -/

theorem readOptions_tail {table : String} {priority : Int} {n : Nat}
    (number : decimal priority.repr.toList = some n) (k : KernelRule) :
    KernelRule.readOptions ["lookup", table, "priority", priority.repr,
        "protocol", routeProtoNum] k =
      some { k with
        table := table, priority := n, protocol := routeProtoNum } := by
  have stepped : ({ k with table := table } : KernelRule).readOption "priority" priority.repr =
        some { k with table := table, priority := n } := by
    change (decimal priority.repr.toList).map _ = _
    rw [number]
    rfl
  change (KernelRule.readOption "priority" priority.repr _).bind _ = _
  rw [stepped]
  rfl

theorem protocol_of_readOptions {value : String} {after : KernelRule} :
    ∀ (options : List String) (k : KernelRule),
      k.readOptions (options ++ ["protocol", value]) = some after → after.protocol = value
  | [], k, read => by
      obtain rfl : { k with protocol := value } = after := Option.some.inj read
      rfl
  | [option], k, read => by
      -- an odd number of words before it: the value is left alone
      have alone : (k.readOption option "protocol").bind
          (KernelRule.readOptions [value]) = some after := read
      obtain ⟨_, _, none⟩ := Option.bind_eq_some_iff.mp alone
      cases none
  | option :: first :: rest, k, read => by
      have stepped : (k.readOption option first).bind
          (KernelRule.readOptions (rest ++ ["protocol", value])) = some after := read
      obtain ⟨next, _, more⟩ := Option.bind_eq_some_iff.mp stepped
      exact protocol_of_readOptions rest next more

theorem tagged_of_readCommand (read : readCommand (addRuleArgs r) = some k) :
    canonicalProto k.protocol = routeProtoName := by
  have protocol : k.protocol = routeProtoNum := by
    simp only [addRuleArgs, ruleArgs, append_assoc, cons_append,
      nil_append, readCommand] at read
    exact protocol_of_readOptions (words r.rule.selector ++
      ["lookup", r.rule.table, "priority", r.rule.priority.repr]) _
      (by simpa using read)
  rw [protocol]
  decide

theorem readCommand_addRuleArgs {fam : Family} {n : Nat} (family : r.rule.family = some fam)
    (number : decimal r.rule.priority.repr.toList = some n)
    (selected : ∀ more, KernelRule.readOptions (words r.rule.selector ++ more) { family := fam } =
        KernelRule.readOptions more k) :
    readCommand (addRuleArgs r) =
      some { k with
        table := r.rule.table, priority := n, protocol := routeProtoNum } := by
  have command : readCommand (addRuleArgs r) = KernelRule.readOptions (words r.rule.selector ++
        ["lookup", r.rule.table, "priority", r.rule.priority.repr,
          "protocol", routeProtoNum]) { family := fam } := by
    cases fam <;> simp [addRuleArgs, ruleArgs, readCommand, family]
  rw [command, selected, readOptions_tail number]

theorem words_to (p : Prefix) : words ("to " ++ p.text) = ["to", p.text] := by
  have some : p.text ≠ "" := by
    intro empty
    have read := Netip.parsePrefix_text p
    rw [empty, show parsePrefix "" = none from by decide] at read
    cases read
  have verb : ∀ c ∈ "to".toList, Texts.isSpace c = false := by
    have letters : "to".toList = ['t', 'o'] := rfl
    simp [letters, Texts.isSpace]
  have blank : "to " = "to" ++ " " := rfl
  rw [blank, Texts.words_pair verb (by decide) p.not_isSpace_of_mem_text some]

section Listed

variable {inp : DesiredInput} {p : Profile} {fam : Family} {pfx : Prefix}

theorem decimal_modelBRulePrio : decimal modelBRulePrio.repr.toList = some 5252 := by decide

theorem readCommand_to : readCommand (addRuleArgs (includeRule inp p fam ("to " ++ pfx.text))) =
      some { family := fam, dst := some pfx, table := modelBTable
             priority := modelBRulePrio, protocol := routeProtoNum } := by
  refine readCommand_addRuleArgs (k := { family := fam, dst := some pfx }) rfl
    decimal_modelBRulePrio fun more => ?_
  rw [includeRule, words_to]
  change ((parsePrefix pfx.text).map _).bind _ = _
  rw [Netip.parsePrefix_text]
  rfl

theorem readCommand_fwmark : readCommand (addRuleArgs
        (includeRule inp p fam ("fwmark " ++ modelBMark))) =
      some { family := fam, fwMark := modelBMark, table := modelBTable
             priority := modelBRulePrio, protocol := routeProtoNum } := by
  have split : words ("fwmark " ++ modelBMark) = ["fwmark", modelBMark] := by
    decide
  refine readCommand_addRuleArgs (k := { family := fam, fwMark := modelBMark })
    rfl decimal_modelBRulePrio fun more => ?_
  rw [includeRule, split]
  rfl

theorem withLen_zero (addr : String) : withLen addr 0 = addr :=
  if_pos (.inr (.inr le_rfl))

theorem withLen_bits (some : 0 < pfx.bits) : withLen pfx.addr.text pfx.bits = pfx.text := by
  have plain : ¬ (pfx.addr.text = "" ∨ '/' ∈ pfx.addr.text.toList ∨ (pfx.bits : Int) ≤ 0) := by
    rintro (empty | slash | none)
    · exact pfx.addr.text_ne_empty empty
    · exact Netip.slash_not_mem_text pfx.zoneFree slash
    · omega
  rw [withLen, if_neg plain]
  rfl

theorem selector_to {k : KernelRule} {pfx : Prefix} (dst : k.dst = some pfx)
    (unmarked : k.fwMark = "") (whole : k.suppressPrefixLen = none) :
    ruleSelector (k.shown zeroShown) = if pfx.bits = 0 ∧ ¬ zeroShown then "from all"
      else if 0 < pfx.bits ∧ pfx.bits < pfx.addr.bitLen then
        "to " ++ pfx.text
      else "to " ++ pfx.addr.text := by
  have address := pfx.addr.text_ne_empty
  have bound := pfx.bitsLe
  simp only [ruleSelector, KernelRule.shown, dst, unmarked, whole,
    Option.elim_some, Option.map_none, Option.elim_none]
  by_cases hidden : pfx.bits = 0 ∧ ¬ zeroShown
  · simp [hidden, withLen_zero]
  rw [if_neg hidden, if_neg hidden]
  by_cases proper : 0 < pfx.bits ∧ pfx.bits < pfx.addr.bitLen
  · simp [proper, address, proper.2.ne, withLen_bits proper.1]
  · have length : (if pfx.bits = pfx.addr.bitLen then (0 : Int)
        else pfx.bits) = 0 := by
      split
      · rfl
      · omega
    rw [length, if_neg proper]
    simp [address, withLen_zero]

theorem readsBack_to_iff : ReadsBack zeroShown (includeRule inp p fam ("to " ++ pfx.text)) ↔
      0 < pfx.bits ∧ pfx.bits < pfx.addr.bitLen := by
  have listed : ReadsBack zeroShown (includeRule inp p fam ("to " ++ pfx.text)) ↔
        (if pfx.bits = 0 ∧ ¬ zeroShown then "from all"
          else if 0 < pfx.bits ∧ pfx.bits < pfx.addr.bitLen then
            "to " ++ pfx.text
          else "to " ++ pfx.addr.text) = "to " ++ pfx.text := by
    rw [ReadsBack, readCommand_to]
    simp only [Option.some.injEq, exists_eq_left', ManagedRule.key, ruleKey,
      KernelRule.listed, includeRule, RuleKey.mk.injEq, true_and, and_true,
      ne_eq, not_true_eq_false, if_false]
    rw [selector_to (show _ = some pfx from rfl) rfl rfl]
  rw [listed]
  constructor
  · intro same
    by_contra improper
    split at same
    case isTrue =>
      have first := congrArg (fun text => text.toList.head?) same
      simp only [String.toList_append] at first
      have letters : some 'f' = some 't' := first
      exact absurd letters (by decide)
    case isFalse =>
      have text := congrArg String.toList same
      rw [String.toList_append, String.toList_append] at text
      refine Netip.slash_not_mem_text pfx.zoneFree ?_
      rw [append_cancel_left text, Prefix.text]
      simp
  · intro proper
    rw [if_neg (by omega), if_pos proper]

theorem selector_any {k : KernelRule} (dst : k.dst = none) : ruleSelector (k.shown zeroShown) =
      ruleSelector
        { priority := 0, src := "all", fwMark := k.fwMark
          suppressPrefixLen := k.suppressPrefixLen.map Int.ofNat } := by
  simp [ruleSelector, KernelRule.shown, dst]

theorem not_readsBack_fwmark : ¬ ReadsBack zeroShown
      (includeRule inp p fam ("fwmark " ++ modelBMark)) := by
  rintro ⟨k, read, same⟩
  rw [readCommand_fwmark] at read
  obtain rfl := Option.some.inj read
  have selector := congrArg RuleKey.selector same
  simp only [ManagedRule.key, ruleKey, KernelRule.listed, selector_any, includeRule] at selector
  exact absurd selector (by decide)

theorem readsBack_familyRules {fams : List Family} {priority : Int} {n : Nat}
    {selector table : String} (suppress : Option Nat) {tail : TailscaleInput}
    {r : ManagedRule} (member : r ∈ familyRules fams priority selector table tail)
    (number : decimal priority.repr.toList = some n) (value : priority = n)
    (selected : ∀ (fam : Family) more,
      KernelRule.readOptions (words selector ++ more) { family := fam } =
        KernelRule.readOptions more { family := fam, suppressPrefixLen := suppress })
    (listed : ruleSelector
      { priority := 0, src := "all"
        suppressPrefixLen := suppress.map Int.ofNat } = selector) :
    ReadsBack zeroShown r := by
  obtain ⟨fam, _, rfl⟩ := mem_map.mp member
  refine ⟨_, readCommand_addRuleArgs rfl number (selected fam), ?_⟩
  simp only [ManagedRule.key, ruleKey, KernelRule.listed, RuleKey.mk.injEq,
    ne_eq, not_true_eq_false, if_false, and_true]
  exact ⟨value.symm, (selector_any rfl).trans listed⟩

end Listed

/-! ### The rules of a build -/

theorem readsBack_congr {first second : ManagedRule} (same : first.key = second.key) :
    ReadsBack zeroShown first ↔ ReadsBack zeroShown second := by
  have args : addRuleArgs first = addRuleArgs second := by
    simp only [ManagedRule.key, ruleKey, RuleKey.mk.injEq] at same
    simp only [addRuleArgs, ruleArgs, same]
  rw [ReadsBack, ReadsBack, args, same]

/-- The include profiles' selectors are listed as they were given: no maximal
block of the destinations left to one is a single address or everything, and
none selects by application. -/
structure SelectorsListed (inp : DesiredInput) : Prop where
  proper : ∀ p ∈ inp.profiles, p.includes → ∀ fam b,
    MaximalBlock (includePrefixes inp (planTunnels inp) p fam) b →
      0 < b.bits ∧ b.bits < b.addr.bitLen
  noApps : ∀ p ∈ inp.profiles, p.includes → ∀ r ∈ p.rules, r.type ≠ .app

section Built

variable {inp : DesiredInput} {routes : List ManagedRoute} {rules : List ManagedRule}

theorem exists_rule_of_includes (linux : inp.platform = "linux")
    (built : buildDesired inp = .ok (routes, rules)) {p : Profile}
    (profile : p ∈ inp.profiles) (includes : p.includes)
    {entry : Family × ManagedRule}
    (asked : entry ∈ tableRules inp (planTunnels inp) p) :
    ∃ r ∈ rules, r.key = entry.2.key := by
  obtain ⟨ahead, bypass, members⟩ := mem_rules_buildDesired built
  have listed : entry.2 ∈ (sortProfiles inp.profiles).flatMap
      (profileRules inp (planTunnels inp)) := by
    refine mem_flatMap.mpr ⟨p, mem_sortProfiles.mpr profile, ?_⟩
    rw [profileRules, if_pos includes, includeRules, if_neg (by simp [linux])]
    exact mem_map_of_mem asked
  obtain ⟨r, kept, same⟩ : ∃ r ∈ includedRules inp (planTunnels inp),
      r.key = entry.2.key := exists_foldl_addNew listed
  refine ⟨r, (members r).mpr ?_, same⟩
  exact mem_append_left _ (mem_append_left _ kept)

theorem asked_of_mem_includedRules (linux : inp.platform = "linux")
    {r : ManagedRule} (member : r ∈ includedRules inp (planTunnels inp)) :
    ∃ p ∈ inp.profiles, p.includes ∧ ∃ entry ∈ tableRules inp (planTunnels inp) p, entry.2 = r := by
  rcases mem_foldl_addNew member with held | listed
  · simp at held
  obtain ⟨p, profile, own⟩ := mem_flatMap.mp listed
  unfold profileRules at own
  split at own
  case isFalse => simp at own
  rename_i includes
  rw [includeRules, if_neg (by simp [linux])] at own
  obtain ⟨entry, asked, same⟩ := mem_map.mp own
  exact ⟨p, mem_sortProfiles.mp profile, includes, entry, asked, same⟩

theorem readsBack_rules_iff (linux : inp.platform = "linux")
    (built : buildDesired inp = .ok (routes, rules)) :
    (∀ r ∈ rules, ReadsBack zeroShown r) ↔ SelectorsListed inp := by
  constructor
  · intro all
    constructor
    · intro p profile includes fam b block
      have asked : (fam, includeRule inp p fam ("to " ++ b.text)) ∈
          tableRules inp (planTunnels inp) p := by
        refine mem_append_left _ (mem_flatMap.mpr
          ⟨fam, by cases fam <;> simp [families], ?_⟩)
        exact mem_map.mpr ⟨b, mem_aggregate.mpr block, rfl⟩
      obtain ⟨r, member, same⟩ := exists_rule_of_includes linux built profile includes asked
      exact readsBack_to_iff.mp ((readsBack_congr same).mp (all r member))
    · intro p profile includes r listed app
      have asked : (Family.v4, includeRule inp p .v4 ("fwmark " ++ modelBMark)) ∈
          tableRules inp (planTunnels inp) p := by
        refine mem_append_right _ ?_
        rw [if_pos (any_eq_true.mpr ⟨r, listed, by simp [app]⟩)]
        exact mem_singleton_self _
      obtain ⟨r, member, same⟩ := exists_rule_of_includes linux built profile includes asked
      exact not_readsBack_fwmark ((readsBack_congr same).mp (all r member))
  · intro listed r member
    obtain ⟨ahead, bypass, members⟩ := mem_rules_buildDesired built
    rcases mem_append.mp ((members r).mp member) with rest | bypassed
    · rcases mem_append.mp rest with included | first
      · obtain ⟨p, profile, includes, entry, asked, rfl⟩ :=
          asked_of_mem_includedRules linux included
        rcases mem_append.mp asked with destination | app
        · obtain ⟨fam, _, within⟩ := mem_flatMap.mp destination
          obtain ⟨pfx, merged, rfl⟩ := mem_map.mp within
          exact readsBack_to_iff.mpr
            (listed.proper p profile includes fam pfx (mem_aggregate.mp merged))
        · split at app
          case isFalse => simp at app
          rename_i some
          obtain ⟨r, own, type⟩ := any_eq_true.mp some
          exact absurd (of_decide_eq_true type) (listed.noApps p profile includes r own)
      · refine readsBack_familyRules (n := 5251) (some 0) first (by decide)
          (by decide) (fun fam more => ?_) (by decide)
        rfl
    · refine readsBack_familyRules (n := 5260) none bypassed (by decide)
        (by decide) (fun fam more => ?_) (by decide)
      rfl

/-- **The rules of a build are recognised again on Linux** exactly when their
selectors are listed as they were given: then each rule, added and listed, is
read back under its key, and planning the same state again has no rule
operation. -/
theorem linux_rules_read_back_iff (linux : inp.platform = "linux")
    (built : buildDesired inp = .ok (routes, rules)) (zeroShown : Bool)
    {others : List KernelRule}
    (untagged : ∀ k ∈ others, canonicalProto k.protocol ≠ routeProtoName)
    (actual : List ManagedRoute) :
    ((∀ r ∈ rules, ReadsBack zeroShown r) ∧
      ∀ op ∈ (reconcile routes actual rules (actualManagedRules
        (listRules zeroShown (addRules others rules))) inp.platform).ops,
        op.rule = none) ↔
      SelectorsListed inp := by
  rw [← readsBack_rules_iff linux built, and_iff_left_iff_imp]
  intro all
  rw [reconcile_rules_alone_iff]
  intro key
  constructor
  · intro wanted
    obtain ⟨r, member, rfl⟩ := mem_map.mp wanted
    obtain ⟨k, read, same⟩ := all r member
    rw [← same]
    refine mem_map.mpr ⟨{ rule := k.listed zeroShown }, ?_, rfl⟩
    exact mem_actualManagedRules.mpr ⟨k, mem_addRules.mpr
      (.inr ⟨r, member, read⟩), tagged_of_readCommand read, rfl⟩
  · intro held
    obtain ⟨_, member, rfl⟩ := mem_map.mp held
    obtain ⟨k, there, tagged, rfl⟩ := mem_actualManagedRules.mp member
    rcases mem_addRules.mp there with other | ⟨r, wanted, read⟩
    · exact absurd tagged (untagged k other)
    · obtain ⟨_, again, same⟩ := all r wanted
      obtain rfl := Option.some.inj (read.symm.trans again)
      exact mem_map.mpr ⟨r, wanted, same.symm⟩

end Built

/-- One include profile on Linux, for the destinations given. -/
def streaming (rules : List Rule) : DesiredInput :=
  { tailscale := [], tailscaleTable := "", tailscaleExitNode := false
    platform := "linux", now := GoTime.Time.zero
    profiles := [{ id := "media", mode := .modeInclude, rules := rules }]
    vpnIfaceV4 := "wg0", policyRouting := true }

def streamingNetwork : DesiredInput := streaming [{ type := .cidr, value := "203.0.113.0/24" }]

/-- A profile for a network is recognised again. -/
theorem streamingNetwork_read_back :
    ∃ routes rules, buildDesired streamingNetwork = .ok (routes, rules) ∧
      (∀ r ∈ rules, ReadsBack false r) ∧
      (((∀ r ∈ rules, ReadsBack false r) ∧ ∀ op ∈ (reconcile routes [] rules (actualManagedRules
          (listRules false (addRules [] rules))) "linux").ops,
          op.rule = none) ↔ SelectorsListed streamingNetwork) := by
  have all : ((buildDesired streamingNetwork).toOption.any fun sets =>
      decide (∀ r ∈ sets.2, ReadsBack false r)) = true := by
    decide +kernel
  cases built : buildDesired streamingNetwork with
  | error err =>
    rw [built] at all
    cases all
  | ok sets =>
    rw [built] at all
    exact ⟨sets.1, sets.2, rfl, of_decide_eq_true all,
      linux_rules_read_back_iff rfl built false (by simp) []⟩

def streamingHost : DesiredInput := streaming [{ type := .ip, value := "203.0.113.7" }]

/-- The rule for a single address is listed without its length, so that it is
not recognised: planning the same state again adds it anew and deletes what it
was read back as. -/
theorem streamingHost_planned_anew :
    ∃ routes rules, buildDesired streamingHost = .ok (routes, rules) ∧
      (∃ r ∈ rules, ¬ ReadsBack false r) ∧
      (reconcile routes routes rules (actualManagedRules
        (listRules false (addRules [] rules))) "linux").ops.map PlanOp.kind =
        [.addRule, .delRule] := by
  refine ⟨_, _, rfl, ?_, ?_⟩
  · decide +kernel
  · decide +kernel

end Linux

end RiftRoute
