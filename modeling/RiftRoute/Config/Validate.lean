/-
Module: RiftRoute.Config.Validate
Purpose: The configuration file as it is decoded, the checks it has to pass,
  and the profiles and lists it stands for.  The line an issue refers to is
  not modelled; what counts as a duration or an https URL is a parameter.
Trusted boundary: human-reviewed spec
-/
import RiftRoute.Domain.Types
import RiftRoute.Library.Netip

namespace RiftRoute

open List

open Texts (trimSpace)

/-! ### The file -/

structure RuleConfig where
  type : String
  value : String
  comment : String := ""

structure ProfileConfig where
  name : String
  description : String := ""
  enabled : Bool := false
  mode : String := ""
  gateway : String := ""
  priority : Int := 0
  rules : List RuleConfig := []
  lists : List String := []
  ipVersion : List String := []
  tunnel : String := ""

structure ListConfig where
  name : String
  static : List String := []
  source : String := ""
  refresh : String := ""

structure SplitDNSConfig where
  domain : String
  resolver : String

structure Settings where
  ipVersion : List String := []
  defaultMode : String := ""
  anchors : List String := []
  confirmTimeout : String := ""
  guardWindow : String := ""
  splitDNS : List SplitDNSConfig := []
  updates : String := ""
  telemetry : String := ""

structure ConfigFile where
  version : Int := 1
  settings : Settings := {}
  profiles : List ProfileConfig := []
  lists : List ListConfig := []

/-! ### The checks -/

inductive Severity where
  | error
  | warning
deriving DecidableEq, Repr

structure Issue where
  severity : Severity
  field : String
  msg : String
deriving DecidableEq, Repr

/-- The texts other packages recognise. -/
structure Formats where
  duration : String → Bool
  httpsURL : String → Bool

def require (holds : Bool) (field msg : String) : List Issue :=
  if holds then [] else [⟨.error, field, msg⟩]

variable (s : String)

def isBlank : Bool := trimSpace s = ""

def isCIDROrIP : Bool := (Netip.parsePrefix s).isSome || (Netip.parseAddr s).isSome

def isASN : Bool :=
  match s.toList with
  | a :: b :: digits =>
    (a = 'A' || a = 'a') && (b = 'S' || b = 's') && digits ≠ [] && digits.all Char.isDigit
  | _ => false

def isCountry : Bool := s.toList.length = 2 && s.toList.all Char.isAlpha

/-- A label of a domain name. -/
def isLabel (label : List Char) : Bool :=
  label.length ≤ 63 && label.head?.any Char.isAlphanum && label.getLast?.any Char.isAlphanum &&
    label.all fun c => c.isAlphanum || c = '-'

/-- At least two labels, after one optional wildcard. -/
def isValidDomain : Bool :=
  let text := if s.toList.getLast? = some '.' then s.toList.dropLast else s.toList
  let rest := if ['*', '.'].isPrefixOf text then text.drop 2 else text
  let labels := Texts.splitOn '.' rest
  text ≠ [] && (String.ofList text).utf8ByteSize ≤ 253 && 2 ≤ labels.length && labels.all isLabel

def checkDuration (f : Formats) (field v : String) : List Issue :=
  require (v = "" || f.duration v) field ("invalid duration " ++ v.quote)

def settingsIssues (f : Formats) (s : Settings) : List Issue :=
  (s.ipVersion.flatMap fun v =>
    require (v = "v4" || v = "v6") "settings.ip_version"
      ("invalid ip_version " ++ v.quote ++ " (expected v4 or v6)")) ++
  require (s.defaultMode ∈ ["", "exclude", "include"]) "settings.default_mode"
    ("invalid default_mode " ++ s.defaultMode.quote ++ " (expected exclude or include)") ++
  require (trimSpace s.updates ∈ ["", "auto", "notify", "off"])
    "settings.updates" ("invalid updates " ++ (trimSpace s.updates).quote ++
      " (expected auto, notify, or off)") ++
  require (trimSpace s.telemetry ∈ ["", "full", "basic", "off"])
    "settings.telemetry" ("invalid telemetry " ++
      (trimSpace s.telemetry).quote ++ " (expected full, basic, or off)") ++
  checkDuration f "confirm_timeout" s.confirmTimeout ++
  checkDuration f "guard_window" s.guardWindow ++
  (s.anchors.flatMap fun a =>
    require (a = "gateway" || (Netip.parseAddr a).isSome) "anchors"
      ("invalid anchor " ++ a.quote ++ " (expected \"gateway\" or an IP)")) ++
  s.splitDNS.flatMap fun sd =>
    require (isValidDomain sd.domain) "split_dns.domain" ("invalid domain " ++ sd.domain.quote) ++
    require (Netip.parseAddr sd.resolver).isSome "split_dns.resolver"
      ("resolver must be an IP, got " ++ sd.resolver.quote)

/-- The name of an entry is given, and not that of an earlier one. -/
def nameIssues (kind : String) (seen : List String) (name : String) : List Issue :=
  if isBlank name then
    [⟨.error, kind ++ "s.name", kind ++ " name is required"⟩]
  else
    require (name ∉ seen) (kind ++ "s.name") ("duplicate " ++ kind ++ " name " ++ name.quote)

/-- The names seen once an entry has been checked. -/
def seeName (seen : List String) (name : String) : List String :=
  if isBlank name then seen else name :: seen

def listIssues (f : Formats) (l : ListConfig) : List Issue :=
  require (l.source ≠ "" || l.static ≠ []) "lists" ("list " ++ l.name.quote ++
      " must have either static entries or a remote source") ++
  (l.static.flatMap fun e =>
    require (isCIDROrIP e) "lists.static" ("invalid CIDR/IP " ++ e.quote)) ++
  if l.source = "" then []
  else
    require (f.httpsURL l.source) "lists.source"
      ("remote list source must be an https URL, got " ++ l.source.quote) ++
    checkDuration f "lists.refresh" l.refresh

def allListIssues (f : Formats) (seen : List String) : List ListConfig → List Issue
  | [] => []
  | l :: rest =>
    nameIssues "list" seen l.name ++ listIssues f l ++ allListIssues f (seeName seen l.name) rest

/-- A tunnel-mode profile names its tunnel and carries destinations only, and
only such a profile names one. -/
def tunnelModeIssues (mode tunnel : String) (rules : List RuleConfig) : List Issue :=
  let named := ¬ isBlank tunnel
  (if mode = "tunnel" ∧ ¬ named then
    [⟨.error, "profiles.tunnel", "a tunnel-mode profile names the tunnel its destinations go into"⟩]
  else if mode ≠ "tunnel" ∧ named then
    [⟨.error, "profiles.tunnel",
      "only a tunnel-mode profile goes into a tunnel; set mode: tunnel, or remove tunnel"⟩]
  else []) ++
  if mode = "tunnel" then
    rules.zipIdx.flatMap fun (r, j) =>
      require (r.type ≠ "app") ("profiles.rules[" ++ toString j ++ "]")
        "per-app rules can't go through a tunnel yet — use include mode for them, or remove the app rule"
  else []

def ruleIssues (r : RuleConfig) : List Issue :=
  if isBlank r.value then
    [⟨.error, "rules.value", "rule value is required"⟩]
  else
    match r.type with
    | "cidr" => require (Netip.parsePrefix r.value).isSome "rules.value"
        ("invalid CIDR " ++ r.value.quote)
    | "ip" => require (Netip.parseAddr r.value).isSome "rules.value"
        ("invalid IP " ++ r.value.quote)
    | "domain" => require (isValidDomain r.value) "rules.value"
        ("invalid domain " ++ r.value.quote)
    | "asn" => require (isASN r.value) "rules.value"
        ("invalid ASN " ++ r.value.quote ++ " (expected form ASNNNN)")
    | "country" => require (isCountry r.value) "rules.value"
        ("invalid country code " ++ r.value.quote ++ " (expected 2 letters)")
    | "app" => []
    | "" => [⟨.error, "rules.type",
        "rule type is required (cidr|ip|domain|asn|country|app)"⟩]
    | other => [⟨.error, "rules.type", "unknown rule type " ++ other.quote⟩]

def profileIssues (platform : String) (known : List String) (p : ProfileConfig) : List Issue :=
  let mode := if p.mode = "" then "exclude" else p.mode
  require (mode ∈ ["exclude", "include", "tunnel"]) "profiles.mode"
    ("invalid mode " ++ p.mode.quote ++ " (expected exclude, include or tunnel)") ++
  tunnelModeIssues mode p.tunnel p.rules ++
  (if mode = "include" ∧ platform = "darwin" then
    p.rules.flatMap fun r =>
      require (r.type ≠ "app" || r.value = "" || isUIDLike r.value) "rules.value"
        ("on macOS, per-app rules match by uid/username (PF socket owner); " ++
          r.value.quote ++ " is not a uid/username")
  else []) ++
  (if mode = "exclude" then
    p.rules.flatMap fun r =>
      require (r.type ≠ "app") "rules.type"
        "per-app rules only take effect in include mode — switch the profile to include, or remove the app rule"
  else []) ++
  require (p.gateway = "" || p.gateway = "auto" ||
      (Netip.parseAddr p.gateway).isSome) "profiles.gateway"
    ("gateway must be \"auto\" or a valid IP, got " ++ p.gateway.quote) ++
  (p.lists.flatMap fun ref =>
    require (ref ∈ known) "profiles.lists"
      ("profile " ++ p.name.quote ++ " references unknown list " ++ ref.quote)) ++
  (if p.rules = [] ∧ p.lists = [] then
    [⟨.warning, "profiles", "profile " ++ p.name.quote ++
      " has no rules or lists; it will install nothing"⟩]
  else []) ++
  p.rules.flatMap ruleIssues

def allProfileIssues (platform : String) (known seen : List String) :
    List ProfileConfig → List Issue
  | [] => []
  | p :: rest =>
    nameIssues "profile" seen p.name ++ profileIssues platform known p ++
      allProfileIssues platform known (seeName seen p.name) rest

def validate (f : Formats) (c : ConfigFile) (platform : String) : List Issue :=
  let known := (c.lists.map ListConfig.name).filter fun name => ¬ isBlank name
  require (c.version = 1) "version" ("unsupported config version " ++
    toString c.version ++ " (expected 1)") ++
  settingsIssues f c.settings ++ allListIssues f [] c.lists ++
  allProfileIssues platform known [] c.profiles

def ConfigFile.Valid (c : ConfigFile) (f : Formats) (platform : String) : Prop :=
  ∀ i ∈ validate f c platform, i.severity ≠ .error

instance (c : ConfigFile) (f : Formats) (platform : String) : Decidable (c.Valid f platform) :=
  inferInstanceAs (Decidable (∀ i ∈ validate f c platform, _))

/-! ### What the file stands for -/

def modeOf : String → Mode
  | "exclude" => .modeExclude
  | "include" => .modeInclude
  | "tunnel" => .modeTunnel
  | text => .unknown text

def ruleTypeOf : String → RuleType
  | "cidr" => .cidr
  | "ip" => .ip
  | "domain" => .domain
  | "asn" => .asn
  | "country" => .country
  | "app" => .app
  | text => .unknown text

def orDefault (v default : String) : String := if isBlank v then default else v

/-- The start of the ids of profiles that come from a file. -/
def configIDPrefix : String := "cfg:"

def ProfileConfig.toProfile (pc : ProfileConfig) : Profile :=
  { id := configIDPrefix ++ pc.name
    name := pc.name
    description := pc.description
    enabled := pc.enabled
    mode := modeOf (orDefault pc.mode "exclude")
    gateway := orDefault pc.gateway "auto"
    priority := pc.priority
    rules := pc.rules.map fun rc =>
      { type := ruleTypeOf rc.type, value := rc.value, comment := rc.comment }
    lists := pc.lists
    ipVersion := pc.ipVersion
    tunnel := trimSpace pc.tunnel }

def ListConfig.toList (lc : ListConfig) : NamedList :=
  { name := lc.name, static := lc.static, source := lc.source
    refresh := lc.refresh }

def ConfigFile.domainProfiles (c : ConfigFile) : List Profile :=
  c.profiles.map ProfileConfig.toProfile

def ConfigFile.domainLists (c : ConfigFile) : List NamedList := c.lists.map ListConfig.toList

/-! ### A valid file names each profile once -/

theorem holds_of_require {holds : Bool} {field msg : String}
    (none : ∀ i ∈ require holds field msg, i.severity ≠ .error) :
    holds = true := by
  unfold require at none
  split at none
  case isTrue given => exact given
  case isFalse => exact absurd rfl (none _ mem_cons_self)

variable {seen : List String}

theorem fresh_of_nameIssues {kind : String} {name : String}
    (none : ∀ i ∈ nameIssues kind seen name, i.severity ≠ .error) :
    isBlank name = false ∧ name ∉ seen := by
  unfold nameIssues at none
  split at none
  case isTrue =>
    exact absurd rfl (none _ mem_cons_self)
  case isFalse given =>
    exact ⟨by simpa using given, of_decide_eq_true (holds_of_require none)⟩

theorem names_nodup_of_issues {α : Type} {name : α → String}
    (issues : List String → List α → List Issue) {kind : String}
    (one : ∀ seen a rest, ∀ i, i ∈ nameIssues kind seen (name a) ∨
      i ∈ issues (seeName seen (name a)) rest → i ∈ issues seen (a :: rest)) {items : List α}
    (none : ∀ i ∈ issues seen items, i.severity ≠ .error) :
    (items.map name).Nodup ∧ ∀ n ∈ items.map name, n ∉ seen := by
  induction items generalizing seen with
  | nil => simp
  | cons a rest ih =>
    obtain ⟨given, fresh⟩ := fresh_of_nameIssues fun i member =>
      none i (one seen a rest i (.inl member))
    obtain ⟨distinct, unseen⟩ := ih fun i member =>
      none i (one seen a rest i (.inr member))
    have next : seeName seen (name a) = name a :: seen := by
      simp [seeName, given]
    rw [next] at unseen
    rw [map_cons, nodup_cons]
    refine ⟨⟨fun repeated => unseen _ repeated mem_cons_self, distinct⟩, fun n member => ?_⟩
    rcases mem_cons.mp member with rfl | later
    · exact fresh
    · exact fun held => unseen n later (mem_cons_of_mem _ held)

variable {platform : String} {f : Formats} {c : ConfigFile}

theorem names_nodup_of_valid (valid : c.Valid f platform) :
    (c.domainProfiles.map Profile.name).Nodup := by
  have names : c.domainProfiles.map Profile.name = c.profiles.map ProfileConfig.name := by
    rw [ConfigFile.domainProfiles, map_map]
    rfl
  rw [names]
  apply And.left
  apply names_nodup_of_issues (allProfileIssues platform
    ((c.lists.map ListConfig.name).filter fun name => ¬ isBlank name))
  · intro seen p rest i member
    simp only [allProfileIssues, mem_append]
    exact member.imp_left .inl
  · intro i member
    exact valid i (mem_append_right _ member)

theorem list_names_nodup_of_valid (valid : c.Valid f platform) :
    (c.domainLists.map NamedList.name).Nodup := by
  have names : c.domainLists.map NamedList.name = c.lists.map ListConfig.name := by
    rw [ConfigFile.domainLists, map_map]
    rfl
  rw [names]
  apply And.left
  apply names_nodup_of_issues (allListIssues f)
  · intro seen l rest i member
    simp only [allListIssues, mem_append]
    exact member.imp_left .inl
  · intro i member
    exact valid i (mem_append_left _ (mem_append_right _ member))

theorem mem_allProfileIssues {known : List String}
    {ps : List ProfileConfig} {p : ProfileConfig} (member : p ∈ ps)
    {i : Issue} (found : i ∈ profileIssues platform known p) :
    i ∈ allProfileIssues platform known seen ps := by
  induction ps generalizing seen with
  | nil => simp at member
  | cons q rest ih =>
    rw [allProfileIssues, mem_append, mem_append]
    rcases mem_cons.mp member with rfl | later
    · exact .inl (.inr found)
    · exact .inr (ih later)

theorem list_known_of_valid (valid : c.Valid f platform) {p : Profile}
    (member : p ∈ c.domainProfiles) {l : String} (named : l ∈ p.lists) :
    ∃ lc ∈ c.lists, lc.name = l := by
  obtain ⟨pc, listed, rfl⟩ := mem_map.mp member
  have known : decide (l ∈ (c.lists.map ListConfig.name).filter
      fun name => ¬ isBlank name) = true := by
    apply holds_of_require
    intro i found
    apply valid i (mem_append_right _ (mem_allProfileIssues listed ?_))
    simp only [profileIssues, mem_append]
    exact .inl (.inl (.inr (mem_flatMap.mpr ⟨l, named, found⟩)))
  exact mem_map.mp (mem_of_mem_filter (of_decide_eq_true known))

theorem ids_of_domainProfiles (c : ConfigFile) : c.domainProfiles.map Profile.id =
      (c.domainProfiles.map Profile.name).map (configIDPrefix ++ ·) := by
  simp [ConfigFile.domainProfiles, ProfileConfig.toProfile, Function.comp_def]

theorem ids_nodup_of_valid (valid : c.Valid f platform) :
    (c.domainProfiles.map Profile.id).Nodup := by
  rw [ids_of_domainProfiles]
  apply List.Nodup.map ?_ (names_nodup_of_valid valid)
  intro first second same
  exact String.append_right_inj configIDPrefix |>.mp same

end RiftRoute
