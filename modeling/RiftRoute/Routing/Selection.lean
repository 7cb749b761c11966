/-
Module: RiftRoute.Routing.Selection
Purpose: Which addresses a set of include rules selects.  Cutting rules around
  a plan's networks leaves what they select outside them, and the rules of a
  build select the profiles' destinations outside the networks.
Trusted boundary: human-reviewed spec
-/
import RiftRoute.Routing.BuildDesired

namespace RiftRoute

open List

open Netip

/-- A destination rule of this family, table and route-to target selects the
address. -/
def Selects (rules : List ManagedRule) (fam : Option Family) (table : String)
    (target : Option (String × String)) (x : Addr) : Prop :=
  ∃ r ∈ rules, r.key.family = fam ∧ r.key.table = table ∧ r.key.routeTo = target ∧
    ∃ p, ruleDestination r.rule = some p ∧ p.contains x

section Destinations

/-! ### Destinations in selectors -/

theorem mem_text_ne_space {p : Prefix} : ' ' ∉ p.text.toList := by
  intro member
  rw [Prefix.text, String.toList_append, String.toList_append,
    mem_append, mem_append] at member
  rcases member with (addr | slash) | digits
  · exact space_not_mem_text p.zoneFree addr
  · exact absurd slash (by decide)
  · rw [show (toString p.bits).toList = Nat.toDigits 10 p.bits from
      repr_toList p.bits] at digits
    exact not_mem_toDigits (by decide) _ digits

theorem cutPrefix_append (start rest : String) : cutPrefix (start ++ rest) start = some rest := by
  simp [cutPrefix, hasPrefix]

theorem entryToPrefix_text (p : Prefix) : entryToPrefix p.text = some (p, famOf p.addr) := by
  simp [entryToPrefix, parsePrefix_text]

variable {r : PolicyRule}

theorem ruleDestination_to {p : Prefix} (selector : r.selector = "to " ++ p.text) :
    ruleDestination r = some p := by
  rw [ruleDestination, selector, cutPrefix_append]
  simp [mem_text_ne_space, entryToPrefix_text]

theorem ruleDestination_fwmark (selector : r.selector = "fwmark " ++ modelBMark) :
    ruleDestination r = none := by
  rw [ruleDestination, selector]
  rfl

theorem ruleDestination_user {user : String}
    (selector : r.selector = "user " ++ user) : ruleDestination r = none := by
  have other : hasPrefix ("user " ++ user) "to " = false := by
    have chars : ("user " ++ user).toList = 'u' :: 's' :: 'e' :: 'r' :: ' ' :: user.toList := by
      rw [String.toList_append]
      rfl
    rw [hasPrefix, chars]
    rfl
  rw [ruleDestination, selector, cutPrefix, other]
  rfl

theorem ruleDestination_pass {dst user : String}
    (selector : r.selector = "to " ++ dst ++ " user " ++ user) :
    ruleDestination r = none := by
  have spaced : ' ' ∈ (dst ++ (" user " ++ user)).toList := by
    simp
  rw [ruleDestination, selector, String.append_assoc, String.append_assoc,
    cutPrefix_append, Option.bind_some, if_pos spaced]

end Destinations

/-! ### Selection depends on the keys -/

section Keys

variable {rules others : List ManagedRule} {fam : Option Family}
  {table : String} {target : Option (String × String)} {x : Addr}

theorem selects_of_keys (subset : ∀ r ∈ rules, r.key ∈ others.map ManagedRule.key)
    (selects : Selects rules fam table target x) :
    Selects others fam table target x := by
  obtain ⟨r, member, rfl, rfl, rfl, p, read, holds⟩ := selects
  obtain ⟨o, held, same⟩ := mem_map.mp (subset r member)
  refine ⟨o, held, by rw [same], by rw [same], by rw [same], p, ?_, holds⟩
  have selector : o.rule.selector = r.rule.selector := congrArg RuleKey.selector same
  rw [ruleDestination, selector]
  exact read

theorem selects_foldl_addRule : Selects (rules.foldl addRule []) fam table target x ↔
      Selects rules fam table target x := by
  constructor
  · refine selects_of_keys fun r member => ?_
    rcases mem_foldl_addNew member with held | listed
    · simp at held
    · exact mem_map_of_mem listed
  · refine selects_of_keys fun r member => ?_
    exact key_mem_foldl_addNew.mpr (.inr (mem_map_of_mem member))

theorem selects_append : Selects (rules ++ others) fam table target x ↔
      Selects rules fam table target x ∨ Selects others fam table target x := by
  simp only [Selects, mem_append, or_and_right, exists_or]

theorem selects_flatMap {α : Type} {items : List α} {add : α → List ManagedRule} :
    Selects (items.flatMap add) fam table target x ↔
      ∃ a ∈ items, Selects (add a) fam table target x := by
  simp only [Selects, mem_flatMap]
  constructor
  · rintro ⟨r, ⟨a, item, member⟩, rest⟩
    exact ⟨a, item, r, member, rest⟩
  · rintro ⟨a, item, r, member, rest⟩
    exact ⟨r, ⟨a, item, member⟩, rest⟩

theorem selects_singleton {r : ManagedRule} : Selects [r] fam table target x ↔
      r.key.family = fam ∧ r.key.table = table ∧ r.key.routeTo = target ∧
        ∃ p, ruleDestination r.rule = some p ∧ p.contains x := by
  simp [Selects]

theorem selects_self (rules : List ManagedRule) : Selects rules fam table target x ↔
      ∃ r ∈ rules, Selects [r] fam table target x := by
  simp only [selects_singleton]
  rfl

/-! ### Rules cut around networks -/

theorem selects_rulePieces {nets : List Prefix} {r : ManagedRule} :
    Selects (rulePieces nets r) fam table target x ↔
      Selects [r] fam table target x ∧ ¬ Covered nets x := by
  unfold rulePieces
  cases read : ruleDestination r.rule with
  | none => simp [selects_singleton, read]
  | some pfx =>
    have parts : Covered (aroundTunnels [pfx] nets) x ↔ pfx.contains x ∧ ¬ Covered nets x := by
      simp [covered_aroundTunnels]
    dsimp only
    split
    case isTrue whole =>
      rw [whole] at parts
      have kept : pfx.contains x ↔ pfx.contains x ∧ ¬ Covered nets x := by
        simpa using parts
      simp only [selects_singleton, read, Option.some.injEq, exists_eq_left', and_assoc]
      exact and_congr Iff.rfl (and_congr Iff.rfl (and_congr Iff.rfl kept))
    case isFalse =>
      constructor
      · rintro ⟨piece, member, rfl, rfl, rfl, p, found, holds⟩
        obtain ⟨q, part, rfl⟩ := mem_map.mp member
        obtain rfl : q = p := by
          rw [ruleDestination_to rfl] at found
          exact Option.some.inj found
        obtain ⟨inside, outside⟩ := parts.mp ⟨q, part, holds⟩
        exact ⟨selects_singleton.mpr ⟨rfl, rfl, rfl, pfx, read, inside⟩, outside⟩
      · rintro ⟨selects, outside⟩
        obtain ⟨rfl, rfl, rfl, p, found, holds⟩ := selects_singleton.mp selects
        obtain rfl : pfx = p := Option.some.inj (read.symm.trans found)
        obtain ⟨q, part, inside⟩ := parts.mpr ⟨holds, outside⟩
        exact ⟨r.withDestination q, mem_map_of_mem part, rfl, rfl, rfl,
          q, ruleDestination_to rfl, inside⟩

/-- **Rules placed beside a plan select what they selected outside its
networks.** -/
theorem selects_rulesBeside {tp : TunnelPlan} : Selects (tp.rulesBeside rules) fam table target x ↔
      Selects rules fam table target x ∧ ¬ Covered tp.nets x := by
  unfold TunnelPlan.rulesBeside
  split
  case isTrue none => simp [none]
  case isFalse =>
    rw [selects_foldl_addRule, selects_flatMap, selects_self rules]
    simp only [selects_rulePieces, ← and_assoc, exists_and_right]

end Keys

/-! ### The rules of a build -/

section Included

variable {inp : DesiredInput} {tunnels : TunnelPlan} {p : Profile}
  {fam : Option Family} {table : String} {target : Option (String × String)}
  {x : Addr}

/-- The table or the route-to target a family's include rules steer into. -/
def steering (inp : DesiredInput) (fam : Family) : Option (String × Option (String × String)) :=
  if inp.platform = "darwin" then
    if (vpnFor fam inp).2 = "" then none
    else some ("", some ((vpnFor fam inp).2, (vpnFor fam inp).1.elim "" Addr.text))
  else some (modelBTable, none)

theorem selects_tableRules : Selects ((tableRules inp tunnels p).map Prod.snd) fam table target x ↔
      ∃ f, fam = some f ∧ table = modelBTable ∧ target = none ∧
        Covered (includePrefixes inp tunnels p f) x := by
  constructor
  · rintro ⟨r, member, rfl, rfl, rfl, q, read, holds⟩
    obtain ⟨entry, listed, rfl⟩ := mem_map.mp member
    rcases mem_append.mp listed with destination | app
    · obtain ⟨f, _, within⟩ := mem_flatMap.mp destination
      obtain ⟨pfx, merged, rfl⟩ := mem_map.mp within
      obtain rfl : pfx = q := by
        rw [ruleDestination_to rfl] at read
        exact Option.some.inj read
      refine ⟨f, rfl, rfl, rfl, ?_⟩
      exact (covered_aggregate _ x).mp ⟨pfx, merged, holds⟩
    · split at app
      · obtain rfl := mem_singleton.mp app
        rw [ruleDestination_fwmark rfl] at read
        cases read
      · simp at app
  · rintro ⟨f, rfl, rfl, rfl, covered⟩
    obtain ⟨pfx, merged, holds⟩ := (covered_aggregate _ x).mpr covered
    refine ⟨includeRule inp p f ("to " ++ pfx.text), ?_, rfl, rfl, rfl, pfx,
      ruleDestination_to rfl, holds⟩
    refine mem_map.mpr ⟨(f, _), mem_append_left _ ?_, rfl⟩
    refine mem_flatMap.mpr ⟨f, by cases f <;> simp [families], ?_⟩
    exact mem_map_of_mem merged

theorem darwinRule_eq_some_iff (darwin : inp.platform = "darwin")
    (p : Profile) (selector : String) {f : Family} :
    (∃ r, darwinRule inp p selector f = some r ∧ r.rule.selector = selector ∧
      r.key.family = some f ∧ r.key.table = table ∧ r.key.routeTo = target) ↔
      steering inp f = some (table, target) := by
  simp only [darwinRule, steering, darwin, if_true]
  split
  case isTrue => simp
  case isFalse up => simp [ManagedRule.key, ruleKey, up]

variable {r : ManagedRule}

theorem darwinRule_fields {selector : String} {f : Family}
    (made : darwinRule inp p selector f = some r) :
    r.rule.selector = selector ∧ r.key.family = some f ∧ r.rule.table = "" := by
  unfold darwinRule at made
  dsimp only at made
  split at made
  case isTrue => cases made
  obtain rfl := Option.some.inj made
  exact ⟨rfl, rfl, rfl⟩

theorem darwinAppRules_table {user : String} {f : Family}
    (member : r ∈ darwinAppRules inp p user f) : r.rule.table = "" := by
  unfold darwinAppRules at member
  split at member
  case h_1 => simp at member
  rename_i made
  rcases mem_cons.mp member with rfl | pass
  · exact (darwinRule_fields made).2.2
  · obtain ⟨n, _, rfl⟩ := mem_map.mp pass
    rfl

theorem selects_darwinAppRules {user : String} {f : Family} :
    ¬ Selects (darwinAppRules inp p user f) fam table target x := by
  rintro ⟨r, member, _, _, _, q, read, _⟩
  unfold darwinAppRules at member
  split at member
  case h_1 => simp at member
  rename_i made
  rcases mem_cons.mp member with rfl | pass
  · rw [ruleDestination_user (darwinRule_fields made).1] at read
    cases read
  · obtain ⟨n, _, rfl⟩ := mem_map.mp pass
    rw [ruleDestination_pass rfl] at read
    cases read

theorem selects_includeRules : Selects (includeRules inp tunnels p) fam table target x ↔
      ∃ f, fam = some f ∧ steering inp f = some (table, target) ∧
        Covered (includePrefixes inp tunnels p f) x := by
  unfold includeRules
  split
  case isFalse other =>
    rw [selects_tableRules]
    refine exists_congr fun f => and_congr Iff.rfl ?_
    simp only [steering, if_neg other, Option.some.injEq, Prod.mk.injEq, ← and_assoc]
    exact and_congr (and_congr eq_comm eq_comm) Iff.rfl
  case isTrue darwin =>
    rw [selects_append, or_iff_left]
    · constructor
      · rintro ⟨r, member, rfl, rfl, rfl, q, read, holds⟩
        obtain ⟨f, _, within⟩ := mem_flatMap.mp member
        obtain ⟨pfx, merged, made⟩ := mem_filterMap.mp within
        obtain ⟨selector, family, _⟩ := darwinRule_fields made
        obtain rfl : pfx = q := by
          rw [ruleDestination_to selector] at read
          exact Option.some.inj read
        refine ⟨f, family, ?_, ?_⟩
        · exact (darwinRule_eq_some_iff darwin p _).mp ⟨r, made, selector, family, rfl, rfl⟩
        · exact (covered_aggregate _ x).mp ⟨pfx, merged, holds⟩
      · rintro ⟨f, rfl, steers, covered⟩
        obtain ⟨pfx, merged, holds⟩ := (covered_aggregate _ x).mpr covered
        obtain ⟨r, made, selector, family, rfl, rfl⟩ :=
          (darwinRule_eq_some_iff darwin p ("to " ++ pfx.text)).mpr steers
        refine ⟨r, ?_, family, rfl, rfl, pfx, ruleDestination_to selector, holds⟩
        refine mem_flatMap.mpr ⟨f, by cases f <;> simp [families], ?_⟩
        exact mem_filterMap.mpr ⟨pfx, merged, made⟩
    · rw [selects_flatMap]
      rintro ⟨r, _, selects⟩
      split at selects
      · obtain ⟨f, _, one⟩ := selects_flatMap.mp selects
        exact selects_darwinAppRules one
      · simp [Selects] at selects

theorem selects_includedRules : Selects (includedRules inp tunnels) fam table target x ↔
      ∃ f, fam = some f ∧ steering inp f = some (table, target) ∧ ∃ p ∈ inp.profiles, p.includes ∧
          Covered (includePrefixes inp tunnels p f) x := by
  rw [includedRules, selects_foldl_addRule, selects_flatMap]
  constructor
  · rintro ⟨p, listed, selects⟩
    unfold profileRules at selects
    split at selects
    case isFalse => simp [Selects] at selects
    case isTrue on =>
      obtain ⟨f, same, steers, covered⟩ := selects_includeRules.mp selects
      exact ⟨f, same, steers, p, (mem_insertionSort _).mp listed, on, covered⟩
  · rintro ⟨f, same, steers, p, listed, on, covered⟩
    refine ⟨p, (mem_insertionSort _).mpr listed, ?_⟩
    rw [profileRules, if_pos on]
    exact selects_includeRules.mpr ⟨f, same, steers, covered⟩

theorem covered_includePrefixes {f : Family} : Covered (includePrefixes inp tunnels p f) x ↔
      Covered (profilePrefixes p inp f) x ∧ ¬ Covered tunnels.nets x ∧
        (inp.platform = "darwin" → ¬ Covered inp.tailscale x) := by
  unfold includePrefixes
  split
  case isTrue darwin =>
    rw [covered_aroundTunnels, covered_aroundTunnels, and_assoc]
    simp [darwin]
  case isFalse other =>
    rw [covered_aroundTunnels]
    simp [other]

theorem kept_includedRules (member : r ∈ includedRules inp tunnels) :
    ¬ (r.rule.table = bypassTable ∨ r.rule.priority = tailscaleRulePrio ∧ r.rule.table ≠ "") := by
  have cases : r.rule.table = "" ∨
      r.rule.table = modelBTable ∧ r.rule.priority = modelBRulePrio := by
    rcases mem_foldl_addNew member with held | listed
    · simp at held
    obtain ⟨p, _, own⟩ := mem_flatMap.mp listed
    unfold profileRules at own
    split at own
    case isFalse => simp at own
    unfold includeRules at own
    split at own
    case isTrue =>
      rcases mem_append.mp own with destination | app
      · obtain ⟨f, _, within⟩ := mem_flatMap.mp destination
        obtain ⟨pfx, _, made⟩ := mem_filterMap.mp within
        exact .inl (darwinRule_fields made).2.2
      · obtain ⟨rule, _, within⟩ := mem_flatMap.mp app
        split at within
        · obtain ⟨f, _, one⟩ := mem_flatMap.mp within
          exact .inl (darwinAppRules_table one)
        · simp at within
    case isFalse =>
      obtain ⟨entry, table, rfl⟩ := mem_map.mp own
      rcases mem_append.mp table with destination | app
      · obtain ⟨f, _, within⟩ := mem_flatMap.mp destination
        obtain ⟨pfx, _, rfl⟩ := mem_map.mp within
        exact .inr ⟨rfl, rfl⟩
      · split at app
        · obtain rfl := mem_singleton.mp app
          exact .inr ⟨rfl, rfl⟩
        · simp at app
  rcases cases with main | ⟨table, priority⟩
  · simp [main, bypassTable]
  · rw [table, priority]
    decide

theorem not_selects_familyRules {fams : List Family} {priority : Int}
    {selector other : String} {tail : TailscaleInput}
    (free : cutPrefix selector "to " = none) :
    ¬ Selects (familyRules fams priority selector other tail) fam table target x := by
  rintro ⟨r, member, _, _, _, q, read, _⟩
  obtain ⟨f, _, rfl⟩ := mem_map.mp member
  simp [ruleDestination, free] at read

section

variable {routes : List ManagedRoute} {rules : List ManagedRule}
  (built : buildDesired inp = .ok (routes, rules))

include built

theorem mem_rules_buildDesired :
    ∃ ahead bypass : List Family, ∀ r : ManagedRule,
      r ∈ rules ↔ r ∈ includedRules inp (planTunnels inp) ++
        familyRules ahead tailscaleRulePrio "from all suppress_prefixlength 0"
          inp.tailscaleTable inp.toTailscaleInput ++
        familyRules bypass bypassRulePrio "from all" bypassTable inp.toTailscaleInput := by
  obtain ⟨placed, _, _, rfl⟩ := buildDesired_ok built
  have kept : ((includedRules inp (planTunnels inp)).filter fun r =>
      ¬ (r.rule.table = bypassTable ∨ r.rule.priority = tailscaleRulePrio ∧ r.rule.table ≠ "")) =
      includedRules inp (planTunnels inp) :=
    filter_eq_self.mpr fun r member =>
      decide_eq_true (kept_includedRules member)
  have none : ∀ priority selector table,
      familyRules [] priority selector table inp.toTailscaleInput = [] := by
    simp [familyRules]
  simp only [sortRules, mem_insertionSort]
  unfold besideTailscale
  rw [kept]
  split
  · exact ⟨[], [], fun r => by rw [none, none, append_nil, append_nil]⟩
  · split
    · exact ⟨_, [], fun r => by rw [none bypassRulePrio, append_nil]⟩
    · exact ⟨_, _, fun r => Iff.rfl⟩

theorem selects_buildDesired :
    Selects rules fam table target x ↔
      Selects (includedRules inp (planTunnels inp)) fam table target x := by
  obtain ⟨ahead, bypass, members⟩ := mem_rules_buildDesired built
  have same : Selects rules fam table target x ↔ Selects (includedRules inp (planTunnels inp) ++
        familyRules ahead tailscaleRulePrio "from all suppress_prefixlength 0"
          inp.tailscaleTable inp.toTailscaleInput ++
        familyRules bypass bypassRulePrio "from all" bypassTable
          inp.toTailscaleInput) fam table target x :=
    exists_congr fun r => and_congr (members r) Iff.rfl
  have first : cutPrefix "from all suppress_prefixlength 0" "to " = none := by
    decide
  have all : cutPrefix "from all" "to " = none := by decide
  rw [same, selects_append, selects_append, or_iff_left (not_selects_familyRules all),
    or_iff_left (not_selects_familyRules first)]

theorem steering_of_buildDesired (listed : p ∈ inp.profiles) (on : p.includes) {f : Family}
    (covered : Covered (includePrefixes inp (planTunnels inp) p f) x) :
    ∃ table target, steering inp f = some (table, target) := by
  unfold steering
  split
  case isFalse => exact ⟨_, _, rfl⟩
  case isTrue darwin =>
    obtain ⟨_, _, included⟩ := buildInclude_of_buildDesired built listed on
    obtain ⟨pfx, merged, _⟩ := (covered_aggregate _ x).mpr covered
    have up := buildInclude_steered darwin included merged
    exact ⟨_, _, if_neg up⟩

end

/-! ### The destinations of a profile -/

/-- A destination of a profile holds the address: a CIDR or IP rule, an
answer for one of its domains, or an entry of one of its lists. -/
inductive Destined (inp : DesiredInput) (p : Profile) (fam : Family)
    (x : Addr) : Prop where
  | cidr {r : Rule} {pfx : Prefix} (rule : r ∈ p.rules) (kind : r.type = .cidr)
      (read : Netip.parsePrefix r.value = some pfx)
      (family : famOf pfx.addr = fam) (holds : pfx.contains x)
  | ip {r : Rule} {a : Addr} (rule : r ∈ p.rules) (kind : r.type = .ip)
      (read : Netip.parseAddr r.value = some a) (family : famOf a = fam)
      (holds : (Prefix.host a).contains x)
  | domain {r : Rule} {answer : String} {pfx : Prefix} (rule : r ∈ p.rules)
      (kind : r.type = .domain) (answered : answer ∈ inp.domains r.value)
      (read : entryToPrefix answer = some (pfx, fam)) (holds : pfx.contains x)
  | list {name entry : String} {pfx : Prefix} (named : name ∈ p.lists)
      (listed : entry ∈ inp.lists name)
      (read : entryToPrefix entry = some (pfx, fam)) (holds : pfx.contains x)

section

variable {r : Rule} (rule : r ∈ p.rules) {f : Family} {pfx : Prefix}
  (member : (pfx, f) ∈ rulePrefixes r inp)

include rule member

theorem destined_of_rule (holds : pfx.contains x) : Destined inp p f x := by
  unfold rulePrefixes at member
  split at member
  case h_1 entry read =>
    obtain rfl := mem_singleton.mp member
    unfold ruleToPrefix at read
    split at read
    case h_1 kind =>
      obtain ⟨found, parsed, same⟩ := Option.map_eq_some_iff.mp read
      obtain ⟨rfl, rfl⟩ := Prod.mk.inj same
      exact .cidr rule kind parsed rfl holds
    case h_2 kind =>
      obtain ⟨a, parsed, same⟩ := Option.map_eq_some_iff.mp read
      obtain ⟨rfl, rfl⟩ := Prod.mk.inj same
      exact .ip rule kind parsed rfl holds
    case h_3 => cases read
  case h_2 =>
    split at member
    case isFalse => simp at member
    rename_i kind
    obtain ⟨answer, answered, read⟩ := mem_filterMap.mp member
    exact .domain rule kind answered read holds

theorem mem_profilePrefixes_of_rule :
    pfx ∈ profilePrefixes p inp f := by
  refine mem_map.mpr ⟨(pfx, f), mem_filter.mpr ⟨?_, ?_⟩, rfl⟩
  · exact mem_append_left _ (mem_flatMap.mpr ⟨r, rule, member⟩)
  · exact decide_eq_true rfl

end

theorem covered_profilePrefixes {f : Family} :
    Covered (profilePrefixes p inp f) x ↔ Destined inp p f x := by
  constructor
  · rintro ⟨pfx, member, holds⟩
    obtain ⟨⟨found, fam⟩, kept, rfl⟩ := mem_map.mp member
    obtain ⟨entry, family⟩ := mem_filter.mp kept
    obtain rfl : fam = f := of_decide_eq_true family
    rcases mem_append.mp entry with own | listed
    · obtain ⟨r, rule, within⟩ := mem_flatMap.mp own
      exact destined_of_rule rule within holds
    · obtain ⟨name, named, within⟩ := mem_flatMap.mp listed
      obtain ⟨text, stated, read⟩ := mem_filterMap.mp within
      exact .list named stated read holds
  · intro destined
    cases destined with
    | @cidr r pfx rule kind read family holds =>
      have found : ruleToPrefix r = some (pfx, f) := by
        simp [ruleToPrefix, kind, read, family]
      refine ⟨pfx, mem_profilePrefixes_of_rule rule ?_, holds⟩
      simp [rulePrefixes, found]
    | @ip r a rule kind read family holds =>
      have found : ruleToPrefix r = some (Prefix.host a, f) := by
        simp [ruleToPrefix, kind, read, family]
      refine ⟨_, mem_profilePrefixes_of_rule rule ?_, holds⟩
      simp [rulePrefixes, found]
    | @domain r answer pfx rule kind answered read holds =>
      have other : ruleToPrefix r = none := by
        simp [ruleToPrefix, kind]
      refine ⟨pfx, mem_profilePrefixes_of_rule rule ?_, holds⟩
      rw [rulePrefixes, other]
      rw [if_pos kind]
      exact mem_filterMap.mpr ⟨answer, answered, read⟩
    | @list name entry pfx named listed read holds =>
      refine ⟨pfx, mem_map.mpr ⟨(pfx, f), ?_, rfl⟩, holds⟩
      refine mem_filter.mpr ⟨mem_append_right _ ?_, decide_eq_true rfl⟩
      refine mem_flatMap.mpr ⟨name, named, ?_⟩
      exact mem_filterMap.mpr ⟨entry, listed, read⟩

/-- **The destination rules of a build select exactly the destinations of the
enabled include profiles, outside the tunnels' networks and, on macOS,
Tailscale's.** -/
theorem include_rules_select_destinations {routes : List ManagedRoute}
    {rules : List ManagedRule} (built : buildDesired inp = .ok (routes, rules))
    (f : Family) :
    (∃ r ∈ rules, r.rule.family = some f ∧ ∃ q, ruleDestination r.rule = some q ∧ q.contains x) ↔
      (∃ p ∈ inp.profiles, p.includes ∧ Destined inp p f x) ∧ ¬ Covered (planTunnels inp).nets x ∧
        (inp.platform = "darwin" → ¬ Covered inp.tailscale x) := by
  constructor
  · rintro ⟨r, member, family, q, read, holds⟩
    have selects : Selects rules (some f) r.key.table r.key.routeTo x :=
      ⟨r, member, family, rfl, rfl, q, read, holds⟩
    rw [selects_buildDesired built, selects_includedRules] at selects
    obtain ⟨g, same, _, p, listed, on, covered⟩ := selects
    obtain rfl := Option.some.inj same
    obtain ⟨destined, outside⟩ := covered_includePrefixes.mp covered
    exact ⟨⟨p, listed, on, covered_profilePrefixes.mp destined⟩, outside⟩
  · rintro ⟨⟨p, listed, on, destined⟩, outside⟩
    have covered : Covered (includePrefixes inp (planTunnels inp) p f) x :=
      covered_includePrefixes.mpr ⟨covered_profilePrefixes.mpr destined, outside⟩
    obtain ⟨table, target, steers⟩ := steering_of_buildDesired built listed on covered
    have selects : Selects rules (some f) table target x := by
      rw [selects_buildDesired built, selects_includedRules]
      exact ⟨f, rfl, steers, p, listed, on, covered⟩
    obtain ⟨r, member, family, _, _, q, read, holds⟩ := selects
    exact ⟨r, member, family, q, read, holds⟩

/-- An include profile on macOS beside a tunnel and a Tailscale. -/
def officeBesideTunnel : DesiredInput :=
  { platform := "darwin"
    profiles :=
      [{ id := "office", mode := .modeInclude
         rules := [{ type := .cidr, value := "10.0.0.0/30" }] }]
    tailscale := [Prefix.host (.v4 0x0a000003)], tailscaleTable := ""
    tailscaleExitNode := false, now := .zero
    tunnels := [{ name := "lab", iface := "utun5", routes := ["10.0.0.1"] }]
    vpnIfaceV4 := "utun4", policyRouting := true }

/-- Of its four addresses, the two that are not the tunnel's or Tailscale's are
selected. -/
theorem officeBesideTunnel_selects :
    ∃ routes rules, buildDesired officeBesideTunnel = .ok (routes, rules) ∧
      ∀ x, (∃ r ∈ rules, r.rule.family = some .v4 ∧
          ∃ q, ruleDestination r.rule = some q ∧ q.contains x) ↔
        (∃ p ∈ officeBesideTunnel.profiles, p.includes ∧ Destined officeBesideTunnel p .v4 x) ∧
          ¬ Covered (planTunnels officeBesideTunnel).nets x ∧
          (officeBesideTunnel.platform = "darwin" → ¬ Covered officeBesideTunnel.tailscale x) := by
  have succeeds : (buildDesired officeBesideTunnel).toOption.isSome := by
    decide +kernel
  cases built : buildDesired officeBesideTunnel with
  | error err =>
    rw [built] at succeeds
    cases succeeds
  | ok sets =>
    exact ⟨sets.1, sets.2, rfl, fun x =>
      include_rules_select_destinations built .v4⟩

end Included

end RiftRoute
