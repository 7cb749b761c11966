/-
Module: RiftRoute.Provider.PfRuns
Purpose: Runs of additions to the PF anchor, a table rewritten from its own
  listing: which rules of a build are recognised again, in any order.
Trusted boundary: human-reviewed spec
Main exports: SelectorsEchoed, Shape.Echoed
-/
import RiftRoute.Provider.PfReading

namespace RiftRoute

open List ManagedRule Rewritten

namespace Mac

open Netip (Prefix Addr)
open Texts (Word unwords trimSpace isSpace)

/-! ### The anchor as a rewritten table -/

def PfListing.back (host : PfListing) (r : PolicyRule) : Option PolicyRule :=
  readLine (host.echo (renderPFRule r))

/-- A user's number is known by itself. -/
def PfListing.Numbered (host : PfListing) : Prop := ∀ n : Nat, host.uid n.repr = n

def Shaped (r : PolicyRule) : Prop := ∃ s : Shape, s.Valid ∧ s.rule = r

section Table

variable {host : PfListing}

theorem isUIDLike_repr (n : Nat) : isUIDLike n.repr := by
  have some := (inert_uid n).some
  refine decide_eq_true ⟨some, ?_⟩
  rw [all_eq_true]
  intro c member
  refine decide_eq_true (.inl ?_)
  rw [Char.isAlphanum, Texts.isDigit_of_mem_natRepr member, Bool.or_true]

/-- What is read back is well formed, and read back as it is. -/
theorem listed_again (numbered : host.Numbered) {s t : Shape} (valid : s.Valid)
    (read : s.listed host = some t) : t.Valid ∧ t.listed host = some t := by
  cases s with
  | dest fam iface gw dst =>
    obtain ⟨some, same⟩ := Option.ite_none_left_eq_some.mp read
    cases same
    exact ⟨valid, if_neg some⟩
  | user fam iface gw who =>
    cases read
    exact ⟨⟨valid.1, valid.2.1, isUIDLike_repr _⟩, by rw [Shape.listed, numbered]⟩
  | pass fam dst who =>
    obtain ⟨some, same⟩ := Option.ite_none_left_eq_some.mp read
    cases same
    exact ⟨isUIDLike_repr _, by rw [Shape.listed, if_neg some, numbered]⟩

theorem back_shape {s : Shape} (valid : s.Valid) :
    host.back s.rule = (s.listed host).map Shape.rule :=
  readLine_echo host valid

theorem renderPFRule_congr {s t : Shape} (sValid : s.Valid) (tValid : t.Valid)
    (same : ruleKey s.rule = ruleKey t.rule) :
    renderPFRule s.rule = renderPFRule t.rule := by
  have target : ∀ {s : Shape}, s.Valid →
      (ruleKey s.rule).routeTo = none ∧ s.rule.routeToIface = "" ∧ s.rule.routeToGW = "" ∨
      (ruleKey s.rule).routeTo = some (s.rule.routeToIface, s.rule.routeToGW) := by
    intro s valid
    cases s with
    | dest | user => exact .inr (if_pos valid.1.inert.some)
    | pass fam dst who => exact .inl ⟨rfl, rfl, rfl⟩
  have selector : s.rule.selector = t.rule.selector := congrArg RuleKey.selector same
  have family : s.rule.family = t.rule.family := congrArg RuleKey.family same
  have routeTo := congrArg RuleKey.routeTo same
  have both : s.rule.routeToIface = t.rule.routeToIface ∧ s.rule.routeToGW = t.rule.routeToGW := by
    rcases target sValid with ⟨none, iface, gw⟩ | found <;>
      rcases target tValid with ⟨none', iface', gw'⟩ | found'
    · exact ⟨iface.trans iface'.symm, gw.trans gw'.symm⟩
    · rw [none, found'] at routeTo
      cases routeTo
    · rw [found, none'] at routeTo
      cases routeTo
    · rw [found, found'] at routeTo
      exact Prod.mk.inj (Option.some.inj routeTo)
  unfold renderPFRule
  rw [selector, family, both.1, both.2]

theorem lawful_back (numbered : host.Numbered) : Lawful ruleKey host.back Shaped where
  closed := by
    rintro _ b ⟨s, valid, rfl⟩ read
    rw [back_shape valid] at read
    obtain ⟨t, listed, rfl⟩ := Option.map_eq_some_iff.mp read
    exact ⟨t, (listed_again numbered valid listed).1, rfl⟩
  stable := by
    rintro _ b ⟨s, valid, rfl⟩ read
    rw [back_shape valid] at read
    obtain ⟨t, listed, rfl⟩ := Option.map_eq_some_iff.mp read
    obtain ⟨again, stays⟩ := listed_again numbered valid listed
    rw [back_shape again, stays]
    rfl
  alike := by
    rintro _ _ ⟨s, sValid, rfl⟩ ⟨t, tValid, rfl⟩ same
    rw [PfListing.back, PfListing.back, renderPFRule_congr sValid tValid same]

theorem newline_free_unwords {ws : List String} (each : ∀ w ∈ ws, Word w) :
    '\n' ∉ (unwords ws).toList := by
  intro member
  rcases Texts.mem_unwords member with blank | ⟨w, inside, here⟩
  · exact absurd blank (by decide)
  · exact absurd ((each w inside).2 _ here) (by decide)

theorem mem_sortByKey {rules : List PolicyRule} {r : PolicyRule} :
    r ∈ sortByKey rules ↔ r ∈ rules :=
  mem_insertionSort _

theorem pfctlLoad_renderAnchor {rules : List PolicyRule} (shaped : ∀ r ∈ rules, Shaped r) :
    pfctlLoad (renderAnchor rules) = (sortByKey rules).map renderPFRule := by
  have each : ∀ row ∈ (sortByKey rules).map renderPFRule, '\n' ∉ row.toList ∧ row ≠ "" := by
    intro row member
    obtain ⟨r, inside, rfl⟩ := mem_map.mp member
    obtain ⟨s, valid, rfl⟩ := shaped r (mem_sortByKey.mp inside)
    rw [renderPFRule_shape valid]
    refine ⟨newline_free_unwords (word_written valid), fun empty => ?_⟩
    have split := Texts.words_unwords (word_written valid)
    rw [empty] at split
    cases s <;> cases split
  rw [pfctlLoad, renderAnchor, Texts.lines_unlines fun row member => (each row member).1,
    filter_append, filter_eq_self.mpr fun row member =>
      decide_eq_true (each row member).2]
  exact append_nil _

variable {held : List PolicyRule}

theorem readAnchor_eq (shaped : ∀ r ∈ held, Shaped r) :
    host.readAnchor (held.map renderPFRule) = listing ruleKey host.back held := by
  have free : ∀ row ∈ (held.map renderPFRule).map host.echo, '\n' ∉ row.toList := by
    intro row member
    obtain ⟨line, inside, rfl⟩ := mem_map.mp member
    obtain ⟨r, here, rfl⟩ := mem_map.mp inside
    obtain ⟨s, valid, rfl⟩ := shaped r here
    rw [echo_shape valid]
    exact newline_free_unwords (word_listed valid)
  have blank : readLine "" = none := by decide
  rw [PfListing.readAnchor, parseAnchorRules, PfListing.shown,
    Texts.lines_unlines free, filterMap_append, filterMap_map,
    filterMap_map, filterMap_cons_none blank, filterMap_nil,
    append_nil]
  rfl

theorem trimSpace_word {w : String} (word : Word w) : trimSpace w = w := by
  have kept : ∀ chars : List Char, (∀ c ∈ chars, isSpace c = false) →
      chars.dropWhile isSpace = chars := by
    intro chars solid
    cases chars with
    | nil => rfl
    | cons c rest =>
      rw [dropWhile_cons_of_neg]
      rw [solid c mem_cons_self]
      exact Bool.false_ne_true
  have back : ∀ c ∈ w.toList.reverse, isSpace c = false := fun c member =>
    word.2 c (mem_reverse.mp member)
  rw [trimSpace, kept _ word.2, kept _ back, reverse_reverse, String.ofList_toList]

theorem targeted_of_shaped {r : PolicyRule} (shaped : Shaped r) :
    ¬ (trimSpace r.routeToIface = "" ∧ r.priority ≠ tailscaleRulePrio) := by
  obtain ⟨s, valid, rfl⟩ := shaped
  rintro ⟨empty, other⟩
  cases s with
  | dest | user =>
    exact valid.1.inert.some ((trimSpace_word valid.1.inert.word).symm.trans empty)
  | pass fam dst who => exact other rfl

theorem addRule_eq (numbered : host.Numbered)
    (shaped : ∀ r ∈ held, Shaped r) {mr : ManagedRule} (one : Shaped mr.rule) :
    host.addRule (held.map renderPFRule) mr =
      .ok ((add ruleKey host.back sortByKey held mr.rule).map renderPFRule) := by
  have listed : ∀ r ∈ listing ruleKey host.back held ++ [mr.rule], Shaped r :=
    forall_mem_append.mpr
      ⟨good_listing (lawful_back numbered) shaped, forall_mem_singleton.mpr one⟩
  rw [PfListing.addRule, if_neg (targeted_of_shaped one), readAnchor_eq shaped, add]
  dsimp only
  split
  case isTrue => rfl
  case isFalse => rw [pfctlLoad_renderAnchor listed]

theorem foldlM_addRule (numbered : host.Numbered) {order : List ManagedRule}
    (each : ∀ r ∈ order.map rule, Shaped r) (shaped : ∀ r ∈ held, Shaped r) :
    order.foldlM host.addRule (held.map renderPFRule) = .ok (((order.map rule).foldl
        (add ruleKey host.back sortByKey) held).map renderPFRule) := by
  induction order generalizing held with
  | nil => rfl
  | cons mr order ih =>
    obtain ⟨one, rest⟩ := forall_mem_cons.mp each
    have next := good_add (lawful_back numbered) (fun items b => mem_sortByKey) shaped one
    rw [foldlM_cons, addRule_eq numbered shaped one]
    exact ih rest next

theorem shaped_foldl_add (numbered : host.Numbered) {items : List PolicyRule}
    (each : ∀ r ∈ items, Shaped r) :
    ∀ r ∈ items.foldl (add ruleKey host.back sortByKey) [], Shaped r :=
  good_foldl_add (lawful_back numbered) (fun _ _ => mem_sortByKey) each (forall_mem_nil _)

/-- Exactly the rules added are listed, when each is read back under its
key. -/
def PfListing.Lists (host : PfListing) (order : List ManagedRule) : Prop :=
  ∃ anchor, order.foldlM host.addRule [] = .ok anchor ∧
    ∀ k, k ∈ (host.readAnchor anchor).map ruleKey ↔ k ∈ order.map ManagedRule.key

theorem lists_iff (numbered : host.Numbered) {order : List ManagedRule}
    (each : ∀ r ∈ order.map rule, Shaped r) :
    host.Lists order ↔ ∀ mr ∈ order, (host.back mr.rule).map ruleKey = some mr.key := by
  have ran : order.foldlM host.addRule [] = .ok _ :=
    foldlM_addRule numbered each (forall_mem_nil _)
  have keys : order.map key = (order.map rule).map ruleKey := by
    rw [map_map]
    rfl
  have law := listed_iff (lawful_back numbered) (fun items b => mem_sortByKey) each
  rw [PfListing.Lists, ran]
  simp only [Except.ok.injEq, exists_eq_left']
  rw [readAnchor_eq (shaped_foldl_add numbered each), keys, law]
  simp only [mem_map, forall_exists_index, and_imp, forall_apply_eq_imp_iff₂]
  rfl

end Table

/-! ### The rules of a build -/

/-- The names the host gives its interfaces and gateways. -/
structure NamedByHost (inp : DesiredInput) : Prop where
  iface : ∀ fam, (vpnFor fam inp).2 = "" ∨ MacInterface (vpnFor fam inp).2
  zone : ∀ fam, ∀ a ∈ (vpnFor fam inp).1, a.zone = "" ∨ MacInterface a.zone

/-- The include profiles' selectors are listed as they were given: no maximal
block of the destinations left to one is everything, each application user is
given by number, and where users are steered none of Tailscale's networks is
everything. -/
structure SelectorsEchoed (inp : DesiredInput) (host : PfListing) : Prop where
  proper : ∀ p ∈ inp.profiles, p.includes → ∀ fam b,
    MaximalBlock (includePrefixes inp (planTunnels inp) p fam) b → 0 < b.bits
  users : ∀ p ∈ inp.profiles, p.includes → ∀ r ∈ p.rules, r.type = .app →
    (host.uid r.value).repr = r.value
  passes : ∀ p ∈ inp.profiles, p.includes → ∀ r ∈ p.rules, r.type = .app →
    ∀ n ∈ inp.tailscale, (vpnFor (famOf n.addr) inp).2 ≠ "" → 0 < n.bits

theorem gateway_text {a : Addr} (named : a.zone = "" ∨ MacInterface a.zone) : Gateway a.text := by
  have plain : ∀ {a : Addr}, a.zone = "" → Gateway a.text := by
    intro a free c member
    rcases Netip.mem_text free member with rfl | rfl | hex
    · exact .inr (by decide)
    · exact .inr (by decide)
    · exact .inl (Netip.isAlphanum_of_hexDigit hex)
  rcases named with free | mac
  · exact plain free
  · cases a with
    | v4 bits => exact plain rfl
    | v6 bits zone =>
      intro c member
      have some : zone ≠ "" := mac.inert.some
      have cut : (Addr.v6 bits zone).text = (Addr.v6 bits "").text ++ ("%" ++ zone) := by
        rw [Addr.text, Addr.text, if_neg some, if_pos rfl, String.append_empty]
      rw [cut, String.toList_append, String.toList_append, mem_append,
        mem_append] at member
      rcases member with base | sign | letter
      · exact plain rfl c base
      · obtain rfl : c = '%' := by simpa using sign
        exact .inr (by decide)
      · exact .inl (mac.letters c letter)

section Built

variable {inp : DesiredInput} {tunnels : TunnelPlan} {p : Profile}
  {host : PfListing} {fam : Family}

def gatewayText (inp : DesiredInput) (fam : Family) : String := (vpnFor fam inp).1.elim "" Addr.text

variable {r : ManagedRule}

theorem steer_of_darwinRule {selector : String} :
    darwinRule inp p selector fam = some r → (vpnFor fam inp).2 ≠ "" ∧
        r.rule = Shape.steer fam (vpnFor fam inp).2 (gatewayText inp fam) selector := by
  intro made
  unfold darwinRule at made
  dsimp only at made
  split at made
  case isTrue => cases made
  rename_i up
  obtain rfl := Option.some.inj made
  exact ⟨up, rfl⟩

theorem exists_darwinRule (up : (vpnFor fam inp).2 ≠ "") (p : Profile) (selector : String) :
    ∃ r, darwinRule inp p selector fam = some r ∧
      r.rule = Shape.steer fam (vpnFor fam inp).2 (gatewayText inp fam) selector := by
  unfold darwinRule
  dsimp only
  rw [if_neg up]
  exact ⟨_, rfl, rfl⟩

/-- The shapes an include profile asks for on macOS. -/
inductive Asked (inp : DesiredInput) (tunnels : TunnelPlan) (p : Profile) :
    Shape → Prop where
  | dest {fam : Family} {pfx : Prefix}
      (merged : pfx ∈ aggregate (includePrefixes inp tunnels p fam))
      (up : (vpnFor fam inp).2 ≠ "") :
      Asked inp tunnels p (.dest fam (vpnFor fam inp).2 (gatewayText inp fam) pfx)
  | user {fam : Family} {r : Rule} (listed : r ∈ p.rules)
      (app : r.type = .app) (up : (vpnFor fam inp).2 ≠ "") :
      Asked inp tunnels p (.user fam (vpnFor fam inp).2 (gatewayText inp fam) r.value)
  | pass {r : Rule} {n : Prefix} (listed : r ∈ p.rules) (app : r.type = .app)
      (network : n ∈ inp.tailscale)
      (up : (vpnFor (famOf n.addr) inp).2 ≠ "") :
      Asked inp tunnels p (.pass (famOf n.addr) n.masked r.value)

theorem asked_of_mem (darwin : inp.platform = "darwin") (member : r ∈ includeRules inp tunnels p) :
    ∃ s, Asked inp tunnels p s ∧ s.rule = r.rule := by
  rw [includeRules, if_pos darwin, mem_append] at member
  rcases member with destination | app
  · obtain ⟨fam, _, within⟩ := mem_flatMap.mp destination
    obtain ⟨pfx, merged, made⟩ := mem_filterMap.mp within
    obtain ⟨up, rule⟩ := steer_of_darwinRule made
    exact ⟨_, .dest merged up, rule.symm⟩
  · obtain ⟨rule, listed, within⟩ := mem_flatMap.mp app
    split at within
    case isFalse => cases within
    rename_i kind
    obtain ⟨fam, _, one⟩ := mem_flatMap.mp within
    unfold darwinAppRules at one
    split at one
    case h_1 => cases one
    rename_i made
    obtain ⟨up, steered⟩ := steer_of_darwinRule made
    rcases mem_cons.mp one with rfl | pass
    · exact ⟨_, .user listed kind up, steered.symm⟩
    · obtain ⟨n, network, rfl⟩ := mem_map.mp pass
      obtain ⟨inside, family⟩ := mem_filter.mp network
      obtain rfl : famOf n.addr = fam := of_decide_eq_true family
      exact ⟨_, .pass listed kind inside up, rfl⟩

theorem mem_of_asked (darwin : inp.platform = "darwin") {s : Shape}
    (asked : Asked inp tunnels p s) :
    ∃ r ∈ includeRules inp tunnels p, r.rule = s.rule := by
  have all : ∀ fam : Family, fam ∈ families := by
    intro fam
    cases fam <;> simp [families]
  rw [includeRules, if_pos darwin]
  cases asked with
  | @dest fam pfx merged up =>
    obtain ⟨r, made, rule⟩ := exists_darwinRule up p ("to " ++ pfx.text)
    refine ⟨r, mem_append_left _ (mem_flatMap.mpr ⟨fam, all fam, ?_⟩), rule⟩
    exact mem_filterMap.mpr ⟨pfx, merged, made⟩
  | @user fam r listed app up =>
    obtain ⟨made, found, rule⟩ := exists_darwinRule up p ("user " ++ r.value)
    refine ⟨made, mem_append_right _ (mem_flatMap.mpr ⟨r, listed, ?_⟩), rule⟩
    rw [if_pos app]
    refine mem_flatMap.mpr ⟨fam, all fam, ?_⟩
    rw [darwinAppRules, found]
    exact mem_cons_self
  | @pass r n listed app network up =>
    obtain ⟨made, found, _⟩ := exists_darwinRule up p ("user " ++ r.value)
    refine ⟨tailscalePass inp p r.value (famOf n.addr) n,
      mem_append_right _ (mem_flatMap.mpr ⟨r, listed, ?_⟩), rfl⟩
    rw [if_pos app]
    refine mem_flatMap.mpr ⟨famOf n.addr, all _, ?_⟩
    rw [darwinAppRules, found]
    exact mem_cons_of_mem _ (mem_map_of_mem
      (mem_filter.mpr ⟨network, decide_eq_true rfl⟩))

theorem app_of_buildDesired (darwin : inp.platform = "darwin")
    {routes : List ManagedRoute} {rules : List ManagedRule}
    (built : buildDesired inp = .ok (routes, rules))
    (profile : p ∈ inp.profiles) (on : p.includes) {r : Rule}
    (listed : r ∈ p.rules) (app : r.type = .app) :
    isUIDLike r.value ∧ ∃ fam, (vpnFor fam inp).2 ≠ "" := by
  obtain ⟨b, after, included⟩ := buildInclude_of_buildDesired built profile on
  unfold buildInclude at included
  split at included
  case isTrue => cases included
  unfold buildDarwinInclude at included
  cases looped : families.foldlM (darwinDestinations inp (planTunnels inp) p) b.rules with
  | error err =>
    rw [looped] at included
    cases included
  | ok middle =>
    rw [looped] at included
    cases ran : p.rules.foldlM (darwinApp inp p) middle with
    | error err =>
      change Except.map _ (p.rules.foldlM (darwinApp inp p) middle) = _ at included
      rw [ran] at included
      cases included
    | ok last =>
      obtain ⟨before, next, stepped⟩ := foldlM_step ran listed
      unfold darwinApp at stepped
      rw [if_neg (not_not.mpr app)] at stepped
      split at stepped
      case isTrue => cases stepped
      rename_i user
      refine ⟨not_not.mp user, ?_⟩
      by_contra down
      have none : families.flatMap (darwinAppRules inp p r.value) = [] := by
        rw [flatMap_eq_nil_iff]
        intro fam _
        have idle : (vpnFor fam inp).2 = "" := by
          by_contra up
          exact down ⟨fam, up⟩
        simp [darwinAppRules, darwinRule, idle]
      rw [if_pos none] at stepped
      cases stepped

theorem valid_of_asked (named : NamedByHost inp) {s : Shape}
    (users : ∀ r ∈ p.rules, r.type = .app → isUIDLike r.value)
    (asked : Asked inp tunnels p s) : s.Valid := by
  have mac : ∀ {fam}, (vpnFor fam inp).2 ≠ "" → MacInterface (vpnFor fam inp).2 := fun up =>
    (named.iface _).resolve_left up
  have gateway : ∀ fam, Gateway (gatewayText inp fam) := by
    intro fam
    unfold gatewayText
    cases found : (vpnFor fam inp).1 with
    | none => exact forall_mem_nil _
    | some a => exact gateway_text (named.zone fam a found)
  cases asked with
  | dest merged up => exact ⟨mac up, gateway _⟩
  | user listed app up => exact ⟨mac up, gateway _, users _ listed app⟩
  | pass listed app network up => exact users _ listed app

/-- The selector is listed as it was given. -/
def Shape.Echoed (host : PfListing) : Shape → Prop
  | .dest _ _ _ dst => 0 < dst.bits
  | .user _ _ _ who => (host.uid who).repr = who
  | .pass _ dst who => 0 < dst.bits ∧ (host.uid who).repr = who

theorem back_key_iff {s : Shape} (valid : s.Valid) :
    (host.back s.rule).map ruleKey = some (ruleKey s.rule) ↔ s.Echoed host := by
  rw [back_shape valid]
  cases s with
  | dest fam iface gw dst =>
    rw [Shape.listed, Shape.Echoed]
    split
    case isTrue zero => simp [zero]
    case isFalse some => simp [Nat.pos_of_ne_zero some]
  | user fam iface gw who =>
    constructor
    · intro same
      have selector : "user " ++ (host.uid who).repr = "user " ++ who :=
        congrArg RuleKey.selector (Option.some.inj same)
      exact (String.append_right_inj _).mp selector
    · intro own
      change some (ruleKey (Shape.user fam iface gw (host.uid who).repr).rule) = _
      rw [own]
  | pass fam dst who =>
    rw [Shape.listed, Shape.Echoed]
    split
    case isTrue zero => simp [zero]
    case isFalse some =>
      rw [and_iff_right (Nat.pos_of_ne_zero some)]
      constructor
      · intro same
        have selector : "to " ++ dst.text ++ " user " ++
            (host.uid who).repr = "to " ++ dst.text ++ " user " ++ who :=
          congrArg RuleKey.selector (Option.some.inj same)
        exact (String.append_right_inj _).mp selector
      · intro own
        rw [own]
        rfl

theorem mem_rules_darwin (darwin : inp.platform = "darwin")
    {routes : List ManagedRoute} {rules : List ManagedRule}
    (built : buildDesired inp = .ok (routes, rules)) :
    r ∈ rules ↔ r ∈ includedRules inp (planTunnels inp) := by
  obtain ⟨placed, _, _, rfl⟩ := buildDesired_ok built
  have kept : ((includedRules inp (planTunnels inp)).filter fun r =>
      ¬ (r.rule.table = bypassTable ∨ r.rule.priority = tailscaleRulePrio ∧ r.rule.table ≠ "")) =
      includedRules inp (planTunnels inp) :=
    filter_eq_self.mpr fun r member =>
      decide_eq_true (kept_includedRules member)
  rw [sortRules, mem_insertionSort, besideTailscale]
  rw [if_pos (.inr darwin), kept]

section Emitted

variable {routes : List ManagedRoute} {rules : List ManagedRule}
  (darwin : inp.platform = "darwin") (built : buildDesired inp = .ok (routes, rules))

include darwin built

theorem asked_of_mem_rules {r : ManagedRule} (member : r ∈ rules) :
    ∃ p ∈ inp.profiles, p.includes ∧ ∃ s, Asked inp (planTunnels inp) p s ∧ s.rule = r.rule := by
  rcases mem_foldl_addNew ((mem_rules_darwin darwin built).mp member) with
    held | listed
  · cases held
  obtain ⟨p, profile, own⟩ := mem_flatMap.mp listed
  unfold profileRules at own
  split at own
  case isFalse => cases own
  rename_i includes
  exact ⟨p, mem_sortProfiles.mp profile, includes, asked_of_mem darwin own⟩

theorem rule_of_asked (profile : p ∈ inp.profiles) (includes : p.includes) {s : Shape}
    (asked : Asked inp (planTunnels inp) p s) :
    ∃ r ∈ rules, r.key = ruleKey s.rule := by
  obtain ⟨made, own, rule⟩ := mem_of_asked darwin asked
  have listed : made ∈ (sortProfiles inp.profiles).flatMap
      (profileRules inp (planTunnels inp)) := by
    refine mem_flatMap.mpr ⟨p, mem_sortProfiles.mpr profile, ?_⟩
    rw [profileRules, if_pos includes]
    exact own
  obtain ⟨r, kept, same⟩ : ∃ r ∈ includedRules inp (planTunnels inp),
      r.key = made.key := exists_foldl_addNew listed
  refine ⟨r, (mem_rules_darwin darwin built).mpr kept, ?_⟩
  rw [same, key, rule]

variable (named : NamedByHost inp)

include named

theorem valid_of_built (profile : p ∈ inp.profiles) (includes : p.includes) {s : Shape}
    (asked : Asked inp (planTunnels inp) p s) : s.Valid :=
  valid_of_asked named (fun _ listed app =>
    (app_of_buildDesired darwin built profile includes listed app).1) asked

theorem shaped_of_built : ∀ r ∈ rules, Shaped r.rule := by
  intro r member
  obtain ⟨p, profile, includes, s, asked, same⟩ := asked_of_mem_rules darwin built member
  exact ⟨s, valid_of_built darwin built named profile includes asked, same⟩

theorem back_rules_iff :
    (∀ r ∈ rules, (host.back r.rule).map ruleKey = some r.key) ↔ SelectorsEchoed inp host := by
  constructor
  · intro all
    -- a shape that is asked for stands for one of the rules
    have echoed : ∀ {p}, p ∈ inp.profiles → p.includes → ∀ {s : Shape},
        Asked inp (planTunnels inp) p s → s.Echoed host := by
      intro p profile includes s asked
      have valid := valid_of_built darwin built named profile includes asked
      obtain ⟨r, member, same⟩ := rule_of_asked darwin built profile includes asked
      obtain ⟨t, tValid, rule⟩ := shaped_of_built darwin built named r member
      have alike : renderPFRule t.rule = renderPFRule s.rule :=
        renderPFRule_congr tValid valid (by rw [rule]; exact same)
      have own := all r member
      rw [← rule, PfListing.back, alike, same] at own
      exact (back_key_iff valid).mp own
    constructor
    · intro p profile includes fam b block
      have merged := mem_aggregate.mpr block
      obtain ⟨_, _, included⟩ := buildInclude_of_buildDesired built profile includes
      exact echoed profile includes (.dest merged (buildInclude_steered darwin included merged))
    · intro p profile includes r listed app
      obtain ⟨_, fam, up⟩ := app_of_buildDesired darwin built profile includes listed app
      have asked : Asked inp (planTunnels inp) p (.user fam (vpnFor fam inp).2
          (gatewayText inp fam) r.value) :=
        .user listed app up
      exact echoed profile includes asked
    · intro p profile includes r listed app n network up
      exact (echoed profile includes (.pass listed app network up)).1
  · intro echoed r member
    obtain ⟨p, profile, includes, s, asked, same⟩ := asked_of_mem_rules darwin built member
    have valid := valid_of_built darwin built named profile includes asked
    rw [key, ← same, back_key_iff valid]
    cases asked with
    | dest merged up =>
      exact echoed.proper p profile includes _ _ (mem_aggregate.mp merged)
    | user listed app up => exact echoed.users p profile includes _ listed app
    | pass listed app network up =>
      have some := echoed.passes p profile includes _ listed app _ network up
      exact ⟨some, echoed.users p profile includes _ listed app⟩

end Emitted

end Built

/-! ### Planning again -/

theorem tagged_of_shaped {r : PolicyRule} (shaped : Shaped r) :
    r.proto = "riftroute" ∧ (r.family = some .v4 ∨ r.family = some .v6) := by
  obtain ⟨s, _, rfl⟩ := shaped
  cases s with
  | dest fam iface gw dst | user fam iface gw who => cases fam <;> simp [Shape.rule, Shape.steer]
  | pass fam dst who => cases fam <;> simp [Shape.rule]

theorem key_mem_actualManagedRules {host : PfListing} {anchor : Anchor}
    (shaped : ∀ r ∈ host.readAnchor anchor, Shaped r) {k : RuleKey} :
    k ∈ (actualManagedRules (host.listRules anchor)).map key ↔
      k ∈ (host.readAnchor anchor).map ruleKey := by
  simp only [actualManagedRules, PfListing.listRules, map_map,
    mem_map, mem_filter, mem_append, decide_eq_true_eq]
  constructor
  · rintro ⟨r, ⟨⟨member, _⟩ | ⟨member, _⟩, _⟩, rfl⟩ <;>
      exact ⟨r, member, rfl⟩
  · rintro ⟨r, member, rfl⟩
    obtain ⟨tagged, v4 | v6⟩ := tagged_of_shaped (shaped r member)
    · exact ⟨r, ⟨.inl ⟨member, v4⟩, tagged⟩, rfl⟩
    · exact ⟨r, ⟨.inr ⟨member, v6⟩, tagged⟩, rfl⟩

theorem shaped_readAnchor {host : PfListing} (numbered : host.Numbered)
    {order : List ManagedRule} (each : ∀ r ∈ order.map rule, Shaped r)
    {anchor : Anchor} (ran : order.foldlM host.addRule [] = .ok anchor) :
    ∀ r ∈ host.readAnchor anchor, Shaped r := by
  have made : order.foldlM host.addRule [] = .ok _ :=
    foldlM_addRule numbered each (forall_mem_nil _)
  obtain rfl := Except.ok.inj (made.symm.trans ran)
  have held := shaped_foldl_add numbered each
  rw [readAnchor_eq held]
  exact good_listing (lawful_back numbered) held

/-- **The rules of a build are recognised again on macOS**, in whatever order
they are added, exactly when their selectors are listed as they were given:
then after each addition exactly the rules added so far are listed, and
planning the same state again has no rule operation. -/
theorem mac_rules_read_back_iff {inp : DesiredInput}
    {routes : List ManagedRoute} {rules : List ManagedRule}
    (darwin : inp.platform = "darwin")
    (built : buildDesired inp = .ok (routes, rules)) {host : PfListing}
    (numbered : host.Numbered) (named : NamedByHost inp)
    (actual : List ManagedRoute) :
    (∀ order : List ManagedRule, order.Perm rules →
      (∀ before after, order = before ++ after → host.Lists before) ∧
      ∀ anchor, order.foldlM host.addRule [] = .ok anchor →
        ∀ op ∈ (reconcile routes actual rules (actualManagedRules
          (host.listRules anchor)) inp.platform).ops, op.rule = none) ↔
      SelectorsEchoed inp host := by
  have shaped := shaped_of_built darwin built named
  rw [← back_rules_iff darwin built named]
  constructor
  · intro kept
    have lists := (kept rules (.refl rules)).1 rules [] (by simp)
    exact (lists_iff numbered (forall_mem_map.mpr shaped)).mp lists
  · intro all order same
    have each : ∀ mr ∈ order, Shaped mr.rule := fun mr member =>
      shaped mr (same.mem_iff.mp member)
    have every : ∀ r ∈ order.map rule, Shaped r := forall_mem_map.mpr each
    have own : ∀ mr ∈ order, (host.back mr.rule).map ruleKey = some mr.key :=
      fun mr member => all mr (same.mem_iff.mp member)
    refine ⟨fun before after cut => ?_, fun anchor ran => ?_⟩
    · have inside : ∀ mr ∈ before, mr ∈ order := fun mr member =>
        cut ▸ mem_append_left after member
      exact (lists_iff numbered (forall_mem_map.mpr fun mr member => each mr (inside mr member))).mpr
        fun mr member => own mr (inside mr member)
    · obtain ⟨_, again, keys⟩ := (lists_iff numbered every).mpr own
      obtain rfl := Except.ok.inj (again.symm.trans ran)
      rw [reconcile_rules_alone_iff]
      intro k
      rw [key_mem_actualManagedRules (shaped_readAnchor numbered every ran), keys k]
      exact (same.map key).mem_iff.symm

/-! ### A destination that is everything -/

/-- One include profile on macOS, with a VPN for IPv4. -/
def macOffice (rules : List Rule) : DesiredInput :=
  { tailscale := [], tailscaleTable := "", tailscaleExitNode := false
    platform := "darwin", now := GoTime.Time.zero
    profiles := [{ id := "office", mode := .modeInclude, rules := rules }]
    vpnIfaceV4 := "utun4", policyRouting := true }

/-- A host that knows users by their numbers, and alice by 501. -/
def macHost : PfListing :=
  { uid := fun who => (Netip.decimal who.toList).getD 501
    flags := .beforeLabel }

theorem macHost_numbered : macHost.Numbered := by
  intro n
  change (Netip.decimal n.repr.toList).getD 501 = n
  rw [Netip.repr_toList, Netip.decimal_toDigits]
  rfl

theorem macOffice_named (rules : List Rule) : NamedByHost (macOffice rules) where
  iface := by
    intro fam
    cases fam with
    | v4 =>
      have utun : MacInterface "utun4" := ⟨all_eq_true.mp (by decide), by decide, by decide⟩
      exact .inr utun
    | v6 => exact .inl rfl
  zone := by
    intro fam a member
    cases fam <;> cases member

def officeRule (s : Shape) : ManagedRule :=
  { rule := s.rule, profileID := "office", createdAt := GoTime.Time.zero }

def officeUser : Shape := .user .v4 "utun4" "" "501"

theorem officeUser_valid : officeUser.Valid :=
  ⟨⟨all_eq_true.mp (by decide), by decide, by decide⟩, forall_mem_nil _, by decide⟩

def macNetwork : DesiredInput :=
  macOffice [{ type := .cidr, value := "10.0.0.0/8" }, { type := .app, value := "501" }]

def officeNetwork : Shape :=
  .dest .v4 "utun4" "" { addr := .v4 0x0a000000, bits := 8, zoneFree := rfl, bitsLe := by decide }

theorem officeNetwork_valid : officeNetwork.Valid :=
  ⟨⟨all_eq_true.mp (by decide), by decide, by decide⟩, forall_mem_nil _⟩

theorem macNetwork_built : buildDesired macNetwork =
    .ok ([], [officeRule officeNetwork, officeRule officeUser]) := by
  decide +kernel

/-- A network and a user by number are recognised again. -/
theorem macNetwork_read_back : ∃ routes rules, buildDesired macNetwork = .ok (routes, rules) ∧
      rules ≠ [] ∧
      (∀ r ∈ rules, (macHost.back r.rule).map ruleKey = some r.key) ∧
      ((∀ order : List ManagedRule, order.Perm rules →
        (∀ before after, order = before ++ after → macHost.Lists before) ∧
        ∀ anchor, order.foldlM macHost.addRule [] = .ok anchor →
          ∀ op ∈ (reconcile routes [] rules (actualManagedRules
            (macHost.listRules anchor)) "darwin").ops, op.rule = none) ↔
        SelectorsEchoed macNetwork macHost) := by
  refine ⟨_, _, macNetwork_built, cons_ne_nil _ _, ?_,
    mac_rules_read_back_iff rfl macNetwork_built macHost_numbered (macOffice_named _) []⟩
  have network : officeNetwork.Echoed macHost := by
    change 0 < 8
    decide
  have user : officeUser.Echoed macHost := by
    change (macHost.uid "501").repr = "501"
    decide
  rw [forall_mem_cons, forall_mem_singleton]
  exact ⟨(back_key_iff officeNetwork_valid).mpr network, (back_key_iff officeUser_valid).mpr user⟩

def macEverything : DesiredInput :=
  macOffice [{ type := .cidr, value := "0.0.0.0/0" }, { type := .app, value := "501" }]

def officeEverything : Shape :=
  .dest .v4 "utun4" "" { addr := .v4 0, bits := 0, zoneFree := rfl, bitsLe := by decide }

theorem officeEverything_valid : officeEverything.Valid :=
  ⟨⟨all_eq_true.mp (by decide), by decide, by decide⟩, forall_mem_nil _⟩

theorem officeUser_kept : macHost.back officeUser.rule = some officeUser.rule := by
  have number : (macHost.uid "501").repr = "501" := by decide
  have listed : officeUser.listed macHost = some officeUser := by
    rw [officeUser, Shape.listed, number]
  rw [back_shape officeUser_valid, listed]
  rfl

theorem officeEverything_lost : macHost.back officeEverything.rule = none := by
  rw [back_shape officeEverything_valid]
  rfl

theorem officeUser_left : [officeRule officeEverything, officeRule officeUser].foldlM
      macHost.addRule [] = .ok [renderPFRule officeUser.rule] := by
  have shaped : ∀ r ∈ [officeEverything.rule, officeUser.rule], Shaped r := by
    rw [forall_mem_cons, forall_mem_singleton]
    exact ⟨⟨_, officeEverything_valid, rfl⟩, ⟨_, officeUser_valid, rfl⟩⟩
  have none : ∀ r ∈ ([] : List PolicyRule), Shaped r := forall_mem_nil _
  have made : [officeRule officeEverything, officeRule officeUser].foldlM macHost.addRule
      ([].map renderPFRule) = .ok _ := foldlM_addRule macHost_numbered shaped none
  have rules : [officeRule officeEverything, officeRule officeUser].map
      rule = [officeEverything.rule, officeUser.rule] := rfl
  have held : [officeEverything.rule, officeUser.rule].foldl
      (add ruleKey macHost.back sortByKey) [] = [officeUser.rule] := by
    simp [add, listing, firsts, sortByKey, officeEverything_lost]
  rw [rules, held] at made
  exact made

theorem officeUser_listed :
    macHost.readAnchor [renderPFRule officeUser.rule] = [officeUser.rule] := by
  have shaped : ∀ r ∈ [officeUser.rule], Shaped r :=
    forall_mem_singleton.mpr ⟨_, officeUser_valid, rfl⟩
  have listing : macHost.readAnchor ([officeUser.rule].map renderPFRule) = _ := readAnchor_eq shaped
  simp only [Rewritten.listing, filterMap_cons, officeUser_kept,
    filterMap_nil, firsts, not_mem_nil, if_false] at listing
  exact listing

/-- The rule for everything is listed without a destination, so that it is not
read back: adding the user's rule after it drops it, and planning the same
state again adds it anew. -/
theorem macEverything_dropped : ∃ routes everything user anchor,
      buildDesired macEverything = .ok (routes, [everything, user]) ∧
      [everything, user].foldlM macHost.addRule [] = .ok anchor ∧
      (macHost.readAnchor anchor).map ruleKey = [user.key] ∧
      user.key ≠ everything.key ∧
      (reconcile routes routes [everything, user] (actualManagedRules
        (macHost.listRules anchor)) "darwin").ops.map PlanOp.kind =
        [.addRule] := by
  refine ⟨[], officeRule officeEverything, officeRule officeUser,
    [renderPFRule officeUser.rule], by decide +kernel, officeUser_left, ?_,
    by decide, ?_⟩
  · rw [officeUser_listed]
    rfl
  · have families : macHost.listRules [renderPFRule officeUser.rule] =
        fun fam => [officeUser.rule].filter fun r => r.family = some fam := by
      funext fam
      rw [PfListing.listRules, officeUser_listed]
    rw [families]
    decide +kernel

end Mac

end RiftRoute
