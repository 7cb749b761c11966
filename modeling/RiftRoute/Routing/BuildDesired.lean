/-
Module: RiftRoute.Routing.BuildDesired
Purpose: The managed routes and rules the enabled profiles imply: bypass
  routes for exclude profiles, selecting rules for include profiles, the
  tunnels' routes, and what a Tailscale beside them needs; and the conflicts
  reported among managed routes.
Trusted boundary: human-reviewed spec
-/
import RiftRoute.Routing.TunnelTurns

namespace RiftRoute

open List

open Netip (Addr Prefix)

def modelBTable : String := "5252"

/-- The mark of per-app traffic steered into the table. -/
def modelBMark : String := "0x5252"

def modelBProfileTag : String := "model-b"

/-- The families in the order the builder is modelled to visit them.  The
source ranges over a map; a family's routes and rules carry it in their keys,
so the order shows in nothing but which of two errors is returned. -/
def families : List Family := [.v4, .v6]

/-- What the builder has gathered so far. -/
structure Build where
  routes : List ManagedRoute := []
  rules : List ManagedRule := []
  includeFamilies : List Family := []

variable (inp : DesiredInput) (tunnels : TunnelPlan) (p : Profile) (rules : List ManagedRule)
  (fam : Family)

def profileError (err : String) : String := "profile " ++ p.name.quote ++ ": " ++ err

/-! ### Exclude profiles -/

/-- The destinations of an exclude profile that no tunnel and no Tailscale
takes. -/
def excludePrefixes : List Prefix :=
  outsideTunnels (outsideTunnels (profilePrefixes p inp fam) tunnels.nets) inp.tailscale

def excludeRoute (gw : Addr) (iface : String) (pfx : Prefix) : ManagedRoute :=
  { route :=
      { dstCIDR := pfx.text, gateway := gw.text, iface := iface
        family := fam, owner := .riftRoute, proto := protoFor inp.platform
        profile := p.id }
    profileID := p.id
    createdAt := inp.now }

/-- The loop over an exclude profile's families. -/
structure Excluding where
  routes : List ManagedRoute
  families : Nat := 0
  skipped : Nat := 0
  skipErr : String := ""

def excludeFamily (st : Excluding) (fam : Family) : Except String Excluding :=
  let prefixes := excludePrefixes inp tunnels p fam
  if prefixes = [] then .ok st
  else
    let st := { st with families := st.families + 1 }
    match resolveGateway p.gateway fam inp with
    | .error err =>
      if (Netip.parseAddr p.gateway).isSome ∨ p.gateway = "" ∨ p.gateway = "auto" then
        .ok { st with skipped := st.skipped + 1, skipErr := err }
      else .error (profileError p err)
    | .ok (gw, iface) =>
      .ok { st with
        routes := ((aggregate prefixes).map
          (excludeRoute inp p fam gw iface)).foldl addRoute st.routes }

def buildExclude (b : Build)
    (p : Profile) : Except String Build := do
  let st ← families.foldlM (excludeFamily inp tunnels p) { routes := b.routes }
  if 0 < st.families ∧ st.skipped = st.families then
    .error (profileError p st.skipErr)
  else .ok { b with routes := st.routes }

/-! ### Include profiles -/

/-- The destinations of an include profile, cut around the tunnels' networks
and, on macOS, Tailscale's. -/
def includePrefixes : List Prefix :=
  let prefixes := aroundTunnels (profilePrefixes p inp fam) tunnels.nets
  if inp.platform = "darwin" then aroundTunnels prefixes inp.tailscale
  else prefixes

def includeRule (selector : String) : ManagedRule :=
  { rule :=
      { priority := modelBRulePrio, selector := selector, table := modelBTable
        family := some fam, proto := protoFor inp.platform }
    profileID := p.id
    createdAt := inp.now }

def tableRules :
    List (Family × ManagedRule) :=
  (families.flatMap fun fam =>
    (aggregate (includePrefixes inp tunnels p fam)).map fun pfx =>
      (fam, includeRule inp p fam ("to " ++ pfx.text))) ++
  if p.rules.any fun r => r.type = .app then
    [(.v4, includeRule inp p .v4 ("fwmark " ++ modelBMark))]
  else []

def addIncludeRule (b : Build) (entry : Family × ManagedRule) : Build :=
  if entry.2.key ∈ b.rules.map ManagedRule.key then b
  else
    { b with
      rules := b.rules ++ [entry.2]
      includeFamilies := entry.1 :: b.includeFamilies }

/-- A macOS rule into the active VPN, when the family has one. -/
def darwinRule (selector : String)
    (fam : Family) : Option ManagedRule :=
  let (vpnGW, vpnIface) := vpnFor fam inp
  if vpnIface = "" then none
  else
    some
      { rule :=
          { priority := modelBRulePrio, selector := selector
            family := some fam, proto := "riftroute", routeToIface := vpnIface
            routeToGW := vpnGW.elim "" Addr.text }
        profileID := p.id
        createdAt := inp.now }

/-- A user's traffic to one of Tailscale's networks passes first. -/
def tailscalePass (user : String)
    (fam : Family) (n : Prefix) : ManagedRule :=
  { rule :=
      { priority := tailscaleRulePrio
        selector := "to " ++ n.masked.text ++ " user " ++ user
        family := some fam, proto := "riftroute" }
    profileID := p.id
    createdAt := inp.now }

def darwinDestinations :
    Except String (List ManagedRule) :=
  (aggregate (includePrefixes inp tunnels p fam)).foldlM (fun rules pfx =>
    match darwinRule inp p ("to " ++ pfx.text) fam with
    | none => .error ("profile " ++ p.name.quote ++
        ": include mode has no active VPN tunnel for " ++ fam.text ++
        " to route into")
    | some r => .ok (addRule rules r)) rules

def darwinAppRules (user : String)
    (fam : Family) : List ManagedRule :=
  match darwinRule inp p ("user " ++ user) fam with
  | none => []
  | some r =>
    r :: (inp.tailscale.filter fun n => famOf n.addr = fam).map (tailscalePass inp p user fam)

def darwinApp (r : Rule) : Except String (List ManagedRule) :=
  if r.type ≠ .app then .ok rules
  else if ¬ isUIDLike r.value then
    .error ("profile " ++ p.name.quote ++
      ": on macOS, per-app rules match by uid/username (PF socket owner); " ++
      r.value.quote ++ " is not a uid/username")
  else
    let added := families.flatMap (darwinAppRules inp p r.value)
    if added = [] then
      .error ("profile " ++ p.name.quote ++ ": per-app include rule " ++
        r.value.quote ++ " has no active VPN tunnel to route into")
    else .ok (added.foldl addRule rules)

def buildDarwinInclude :
    Except String (List ManagedRule) := do
  let rules ← families.foldlM (darwinDestinations inp tunnels p) rules
  p.rules.foldlM (darwinApp inp p) rules

def buildInclude (b : Build)
    (p : Profile) : Except String Build :=
  if ¬ inp.policyRouting then
    .error ("profile " ++ p.name.quote ++
      ": include mode requires policy routing (Linux Model B / macOS PF " ++
      "route-to); unavailable on this platform")
  else if inp.platform = "darwin" then
    (buildDarwinInclude inp tunnels p b.rules).map fun rules =>
      { b with rules := rules }
  else .ok ((tableRules inp tunnels p).foldl addIncludeRule b)

/-! ### The whole set -/

def buildProfile (b : Build)
    (p : Profile) : Except String Build :=
  if ¬ p.enabled ∨ p.mode = .modeTunnel then .ok b
  else if p.mode = .modeInclude then buildInclude inp tunnels b p
  else buildExclude inp tunnels b p

/-- Higher priorities first. -/
def sortProfiles (profiles : List Profile) : List Profile :=
  insertionSort (fun a b => ¬ b.priority > a.priority) profiles

def tableDefault (routes : List ManagedRoute)
    (fam : Family) : Except String (List ManagedRoute) :=
  let (vpnGW, vpnIface) := vpnFor fam inp
  if vpnIface = "" then
    .error ("include mode: no active VPN tunnel for " ++ fam.text ++ " to route into")
  else
    .ok (addRoute routes
      { route :=
          { dstCIDR := if fam = .v6 then "::/0" else "0.0.0.0/0"
            gateway := vpnGW.elim "" Addr.text, iface := vpnIface
            family := fam, owner := .riftRoute
            proto := protoFor inp.platform, table := modelBTable
            profile := modelBProfileTag }
        profileID := modelBProfileTag
        createdAt := inp.now })

def sortRoutes (routes : List ManagedRoute) : List ManagedRoute :=
  insertionSort (fun a b => ¬ b.key.text < a.key.text) routes

def sortRules : List ManagedRule :=
  insertionSort (fun a b => ¬ b.key.text < a.key.text) rules

def buildDesired : Except String (List ManagedRoute × List ManagedRule) := do
  let tunnels := planTunnels inp
  let b ← (sortProfiles inp.profiles).foldlM (buildProfile inp tunnels) {}
  let routes ← (families.filter (· ∈ b.includeFamilies)).foldlM
    (tableDefault inp) (tunnels.place b.routes)
  let (routes, rules) := besideTailscale routes b.rules inp.toTailscaleInput
  .ok (sortRoutes routes, sortRules rules)

/-! ### What a build that succeeds comes to -/

def excludeRoutes : List ManagedRoute :=
  match resolveGateway p.gateway fam inp with
  | .error _ => []
  | .ok (gw, iface) =>
    (aggregate (excludePrefixes inp tunnels p fam)).map (excludeRoute inp p fam gw iface)

def includeRules : List ManagedRule :=
  if inp.platform = "darwin" then
    (families.flatMap fun fam =>
      (aggregate (includePrefixes inp tunnels p fam)).filterMap fun pfx =>
        darwinRule inp p ("to " ++ pfx.text) fam) ++
    p.rules.flatMap fun r =>
      if r.type = .app then families.flatMap (darwinAppRules inp p r.value)
      else []
  else (tableRules inp tunnels p).map Prod.snd

/-- The profile's destinations bypass the VPN. -/
def Profile.excludes : Bool :=
  p.enabled ∧ p.mode ≠ .modeTunnel ∧ p.mode ≠ .modeInclude

/-- The profile's destinations go into the VPN. -/
def Profile.includes : Bool := p.enabled ∧ p.mode = .modeInclude

def profileRoutes : List ManagedRoute :=
  if p.excludes then families.flatMap (excludeRoutes inp tunnels p) else []

def profileRules : List ManagedRule :=
  if p.includes then includeRules inp tunnels p else []

def excludedRoutes : List ManagedRoute :=
  ((sortProfiles inp.profiles).flatMap (profileRoutes inp tunnels)).foldl addRoute []

def includedRules : List ManagedRule :=
  ((sortProfiles inp.profiles).flatMap (profileRules inp tunnels)).foldl addRule []

theorem mem_sortProfiles {profiles : List Profile} {p : Profile} :
    p ∈ sortProfiles profiles ↔ p ∈ profiles :=
  mem_insertionSort _

section Outcome

variable {inp : DesiredInput} {tunnels : TunnelPlan} {p : Profile}

variable {fam : Family}

theorem excludeFamily_routes {st after : Excluding}
    (ended : excludeFamily inp tunnels p st fam = .ok after) :
    after.routes = (excludeRoutes inp tunnels p fam).foldl addRoute st.routes := by
  unfold excludeFamily at ended
  dsimp only at ended
  split at ended
  case isTrue none =>
    obtain rfl : st = after := Except.ok.inj ended
    have nothing : excludeRoutes inp tunnels p fam = [] := by
      unfold excludeRoutes
      rw [none]
      split <;> rfl
    rw [nothing]
    rfl
  case isFalse =>
    unfold excludeRoutes
    split at ended
    case h_1 =>
      split at ended
      case isTrue =>
        obtain rfl := Except.ok.inj ended
        rfl
      case isFalse => cases ended
    case h_2 =>
      obtain rfl := Except.ok.inj ended
      rfl

variable {b after : Build}

theorem buildExclude_ok (ended : buildExclude inp tunnels b p = .ok after) :
    after.routes = (families.flatMap (excludeRoutes inp tunnels p)).foldl addRoute b.routes ∧
      after.rules = b.rules := by
  obtain ⟨st, looped, ended⟩ := exists_of_bind_ok ended
  have routes := foldlM_output Excluding.routes addRoute (excludeRoutes inp tunnels p)
    (fun _ _ _ stepped => excludeFamily_routes stepped) looped
  split at ended
  case isTrue => cases ended
  obtain rfl := Except.ok.inj ended
  exact ⟨routes, rfl⟩

theorem addIncludeRule_foldl (entries : List (Family × ManagedRule)) (b : Build) :
    (entries.foldl addIncludeRule b).rules = (entries.map Prod.snd).foldl addRule b.rules ∧
      (entries.foldl addIncludeRule b).routes = b.routes := by
  induction entries generalizing b with
  | nil => exact ⟨rfl, rfl⟩
  | cons entry rest ih =>
    obtain ⟨rules, routes⟩ := ih (addIncludeRule b entry)
    have one : (addIncludeRule b entry).rules = addRule b.rules entry.2 ∧
        (addIncludeRule b entry).routes = b.routes := by
      unfold addIncludeRule addRule addNew
      split <;> exact ⟨rfl, rfl⟩
    rw [foldl_cons, rules, routes, one.1, one.2]
    exact ⟨rfl, rfl⟩

variable {rules : List ManagedRule}

section

variable {after : List ManagedRule} (ended : darwinDestinations inp tunnels p rules fam = .ok after)

include ended

theorem darwinDestinations_ok :
    after = ((aggregate (includePrefixes inp tunnels p fam)).filterMap fun pfx =>
        darwinRule inp p ("to " ++ pfx.text) fam).foldl addRule rules := by
  have output := foldlM_output id addRule
    (fun pfx : Prefix => (darwinRule inp p ("to " ++ pfx.text) fam).toList)
    (fun rules pfx after stepped => by
      split at stepped
      case h_1 => cases stepped
      rename_i r found
      obtain rfl := Except.ok.inj stepped
      simp [found]) ended
  rw [filterMap_eq_flatMap_toList]
  exact output

theorem darwinDestinations_steered
    {pfx : Prefix} (member : pfx ∈ aggregate (includePrefixes inp tunnels p fam)) :
    (vpnFor fam inp).2 ≠ "" := by
  obtain ⟨before, next, stepped⟩ := foldlM_step ended member
  intro down
  have none : darwinRule inp p ("to " ++ pfx.text) fam = none := by
    simp [darwinRule, down]
  rw [none] at stepped
  cases stepped

end

theorem darwinApp_ok {after : List ManagedRule} {r : Rule}
    (ended : darwinApp inp p rules r = .ok after) :
    after = (if r.type = .app then families.flatMap (darwinAppRules inp p r.value)
        else []).foldl addRule rules := by
  unfold darwinApp at ended
  split at ended
  case isTrue other =>
    obtain rfl := Except.ok.inj ended
    rw [if_neg other]
    rfl
  case isFalse app =>
    rw [if_pos (not_not.mp app)]
    split at ended
    case isTrue => cases ended
    dsimp only at ended
    split at ended
    case isTrue => cases ended
    case isFalse => exact (Except.ok.inj ended).symm

theorem buildInclude_ok (ended : buildInclude inp tunnels b p = .ok after) :
    after.rules = (includeRules inp tunnels p).foldl addRule b.rules ∧ after.routes = b.routes := by
  unfold buildInclude at ended
  split at ended
  case isTrue => cases ended
  unfold includeRules
  split at ended
  case isTrue darwin =>
    rw [if_pos darwin]
    obtain ⟨rules, built, ended⟩ := exists_of_bind_ok ended
    obtain rfl := Except.ok.inj ended
    refine ⟨?_, rfl⟩
    obtain ⟨middle, looped, built⟩ := exists_of_bind_ok built
    have first := foldlM_output id addRule _
      (fun _ _ _ stepped => darwinDestinations_ok stepped) looped
    have second := foldlM_output id addRule _
      (fun _ _ _ stepped => darwinApp_ok stepped) built
    rw [foldl_append]
    change rules = _ at second
    rw [second]
    rw [first]
    rfl
  case isFalse table =>
    rw [if_neg table]
    obtain rfl := Except.ok.inj ended
    exact addIncludeRule_foldl _ b

theorem buildInclude_steered (darwin : inp.platform = "darwin")
    (ended : buildInclude inp tunnels b p = .ok after)
    {pfx : Prefix} (member : pfx ∈ aggregate (includePrefixes inp tunnels p fam)) :
    (vpnFor fam inp).2 ≠ "" := by
  unfold buildInclude at ended
  split at ended
  case isTrue => cases ended
  obtain ⟨rules, built, -⟩ := exists_of_bind_ok ended
  obtain ⟨middle, looped, -⟩ := exists_of_bind_ok built
  have listed : fam ∈ families := by cases fam <;> simp [families]
  obtain ⟨before, next, stepped⟩ := foldlM_step looped listed
  exact darwinDestinations_steered stepped member

theorem buildProfile_ok (ended : buildProfile inp tunnels b p = .ok after) :
    after.routes = (profileRoutes inp tunnels p).foldl addRoute b.routes ∧
      after.rules = (profileRules inp tunnels p).foldl addRule b.rules := by
  unfold buildProfile at ended
  unfold profileRoutes profileRules
  split at ended
  case isTrue off =>
    obtain rfl := Except.ok.inj ended
    have neither : p.excludes = false ∧ p.includes = false := by
      rcases off with off | tunnel
      · simp [Profile.excludes, Profile.includes, off]
      · simp [Profile.excludes, Profile.includes, tunnel]
    simp [neither]
  case isFalse on =>
    rw [not_or, not_not] at on
    split at ended
    case isTrue include' =>
      obtain ⟨rules, routes⟩ := buildInclude_ok ended
      have kind : p.excludes = false ∧ p.includes = true := by
        simp [Profile.excludes, Profile.includes, include', on.1]
      simp [kind, rules, routes]
    case isFalse exclude =>
      obtain ⟨routes, rules⟩ := buildExclude_ok ended
      have kind : p.excludes = true ∧ p.includes = false := by
        simp [Profile.excludes, Profile.includes, exclude, on]
      simp [kind, rules, routes]

def tableRoute (inp : DesiredInput) (fam : Family) : ManagedRoute :=
  { route :=
      { dstCIDR := if fam = .v6 then "::/0" else "0.0.0.0/0"
        gateway := (vpnFor fam inp).1.elim "" Addr.text
        iface := (vpnFor fam inp).2
        family := fam, owner := .riftRoute
        proto := protoFor inp.platform, table := modelBTable
        profile := modelBProfileTag }
    profileID := modelBProfileTag
    createdAt := inp.now }

variable {routes : List ManagedRoute}

theorem tableDefault_ok_iff {after : List ManagedRoute} : tableDefault inp routes fam = .ok after ↔
      (vpnFor fam inp).2 ≠ "" ∧ after = addRoute routes (tableRoute inp fam) := by
  unfold tableDefault
  dsimp only
  split
  case isTrue down => simp [down]
  case isFalse up =>
    rw [Except.ok.injEq]
    exact ⟨fun same => ⟨up, same.symm⟩, fun found => found.2.symm⟩

theorem tableDefault_main {after : List ManagedRoute}
    (ended : tableDefault inp routes fam = .ok after) {r : ManagedRoute}
    (main : r.route.table = "") : r ∈ after ↔ r ∈ routes := by
  obtain ⟨_, rfl⟩ := tableDefault_ok_iff.mp ended
  refine ⟨fun member => ?_, mem_addNew_of_mem⟩
  rcases mem_addNew member with held | rfl
  · exact held
  · simp [tableRoute, modelBTable] at main

theorem buildDesired_stages :
    buildDesired inp = .ok (routes, rules) ↔ ∃ b placed, (sortProfiles inp.profiles).foldlM
          (buildProfile inp (planTunnels inp)) {} = .ok b ∧
        (families.filter (· ∈ b.includeFamilies)).foldlM (tableDefault inp)
          ((planTunnels inp).place b.routes) = .ok placed ∧
        routes = sortRoutes (besideTailscale placed b.rules inp.toTailscaleInput).1 ∧
        rules = sortRules (besideTailscale placed b.rules inp.toTailscaleInput).2 := by
  unfold buildDesired
  dsimp only
  constructor
  · intro built
    obtain ⟨b, looped, built⟩ := exists_of_bind_ok built
    obtain ⟨placed, defaults, built⟩ := exists_of_bind_ok built
    obtain ⟨rfl, rfl⟩ := Prod.mk.inj (Except.ok.inj built)
    exact ⟨b, placed, looped, defaults, rfl, rfl⟩
  · rintro ⟨b, placed, looped, defaults, rfl, rfl⟩
    rw [looped]
    change (foldlM (tableDefault inp) _ _ >>= _) = _
    rw [defaults]
    rfl

section

variable (looped : (sortProfiles inp.profiles).foldlM (buildProfile inp tunnels) {} = .ok b)

include looped

theorem routes_of_turns :
    b.routes = excludedRoutes inp tunnels :=
  foldlM_output Build.routes addRoute (profileRoutes inp tunnels)
    (fun _ _ _ stepped => (buildProfile_ok stepped).1) looped

theorem rules_of_turns :
    b.rules = includedRules inp tunnels :=
  foldlM_output Build.rules addRule (profileRules inp tunnels)
    (fun _ _ _ stepped => (buildProfile_ok stepped).2) looped

end

section

variable (built : buildDesired inp = .ok (routes, rules))

include built

theorem buildDesired_ok :
    ∃ placed : List ManagedRoute, (∀ r : ManagedRoute, r.route.table = "" →
        (r ∈ placed ↔ r ∈ (planTunnels inp).place (excludedRoutes inp (planTunnels inp)))) ∧
      routes = sortRoutes (besideTailscale placed
        (includedRules inp (planTunnels inp)) inp.toTailscaleInput).1 ∧
      rules = sortRules (besideTailscale placed
        (includedRules inp (planTunnels inp)) inp.toTailscaleInput).2 := by
  obtain ⟨b, placed, looped, defaults, rfl, rfl⟩ := buildDesired_stages.mp built
  rw [routes_of_turns looped] at defaults
  rw [rules_of_turns looped]
  refine ⟨placed, fun r main => ?_, rfl, rfl⟩
  exact foldlM_invariant (fun routes => r ∈ routes ↔ r ∈ (planTunnels inp).place
      (excludedRoutes inp (planTunnels inp)))
    (fun _ _ _ stepped held =>
      (tableDefault_main stepped main).trans held) Iff.rfl defaults

theorem buildInclude_of_buildDesired (member : p ∈ inp.profiles) (on : p.includes) :
    ∃ b after, buildInclude inp (planTunnels inp) b p = .ok after := by
  obtain ⟨b, _, looped, _⟩ := buildDesired_stages.mp built
  obtain ⟨b, after, made⟩ := foldlM_step looped (mem_sortProfiles.mpr member)
  obtain ⟨enabled, mode⟩ : p.enabled = true ∧ p.mode = .modeInclude := by
    simpa [Profile.includes] using on
  exact ⟨b, after, by simpa [buildProfile, enabled, mode] using made⟩

theorem mem_main_buildDesired {r : ManagedRoute} (main : r.route.table = "") :
    r ∈ routes ↔ r ∈ (planTunnels inp).place (excludedRoutes inp (planTunnels inp)) := by
  obtain ⟨placed, mains, rfl, _⟩ := buildDesired_ok built
  rw [sortRoutes, mem_insertionSort, ← mains r main]
  have kept : r ∈ placed.filter (fun r => ¬ r.route.table = bypassTable) ↔ r ∈ placed := by
    rw [mem_filter]
    exact and_iff_left (by rw [main]; decide)
  unfold besideTailscale
  split
  · exact kept
  · split
    · exact kept
    · rw [mem_append, kept, or_iff_left]
      intro copied
      obtain ⟨q, _, rfl⟩ := mem_map.mp copied
      exact absurd main (by simp [bypassCopy, bypassTable])

end

end Outcome

end RiftRoute

namespace RiftRoute.Conflicts

open Netip

/-- A route whose destination can be parsed, with that destination. -/
structure Entry where
  pfx : Prefix
  r : ManagedRoute

def entries (routes : List ManagedRoute) : List Entry :=
  routes.filterMap fun r => (parsePrefix r.route.dstCIDR).map fun p => ⟨p.masked, r⟩

/-- Every element with every later one. -/
def pairs {α : Type} : List α → List (α × α)
  | [] => []
  | a :: rest => rest.map (a, ·) ++ pairs rest

/-- `Prefix.Overlaps`. -/
def overlaps (p q : Prefix) : Bool := p.covers q || q.covers p

def Entry.nextHop (e : Entry) : String × String × Bool :=
  (e.r.route.gateway, e.r.route.iface, e.r.route.reject)

variable (e : Entry × Entry)

/-- The pair is reported. -/
def clashes : Bool :=
  e.1.pfx.addr.is6 = e.2.pfx.addr.is6 && overlaps e.1.pfx e.2.pfx && e.1.nextHop ≠ e.2.nextHop

structure Conflict where
  kind : String
  a : String
  b : String
  detail : String
deriving DecidableEq

def label (r : ManagedRoute) : String :=
  let prof := if r.profileID = "" then r.route.profile else r.profileID
  if r.route.reject then r.route.dstCIDR ++ " reject (" ++ prof ++ ")"
  else
    r.route.dstCIDR ++ " via " ++ r.route.gateway ++ " dev " ++ r.route.iface ++ " (" ++ prof ++ ")"

def conflict : Conflict :=
  let (kind, detail) : String × String :=
    if e.1.pfx.bits = e.2.pfx.bits then ("duplicate", "same destination routed two different ways")
    else ("shadowed", "the more-specific route wins (longest-prefix match); " ++
      "the broader one is partly shadowed")
  { kind, a := label e.1.r, b := label e.2.r, detail }

def detectConflicts (routes : List ManagedRoute) : List Conflict :=
  ((pairs (entries routes)).filter clashes).map conflict

theorem overlaps_iff {p q : Prefix} :
    overlaps p q = true ↔ ∃ x, p.contains x = true ∧ q.contains x = true := by
  rw [overlaps, Bool.or_eq_true]
  constructor
  · rintro (inner | inner)
    · exact ⟨q.addr, (Prefix.covers_iff.mp inner).2, q.contains_addr⟩
    · exact ⟨p.addr, p.contains_addr, (Prefix.covers_iff.mp inner).2⟩
  · rintro ⟨x, first, second⟩
    exact Prefix.covers_total first second

/-- Two routes of one family and one table that share an address and go
different ways. -/
def Real : Prop :=
  e.1.pfx.addr.is6 = e.2.pfx.addr.is6 ∧ e.1.r.route.table = e.2.r.route.table ∧
    (∃ x, e.1.pfx.contains x = true ∧ e.2.pfx.contains x = true) ∧ e.1.nextHop ≠ e.2.nextHop

theorem real_iff {e : Entry × Entry} :
    Real e ↔ clashes e = true ∧ e.1.r.route.table = e.2.r.route.table := by
  simp only [Real, clashes, Bool.and_eq_true, decide_eq_true_eq, overlaps_iff]
  constructor
  · rintro ⟨family, table, shared, apart⟩
    exact ⟨⟨⟨family, shared⟩, apart⟩, table⟩
  · rintro ⟨⟨⟨family, shared⟩, apart⟩, table⟩
    exact ⟨family, table, shared, apart⟩

instance : DecidablePred Real := fun _ => decidable_of_iff _ real_iff.symm

/-- What is reported is, pair by pair and once each, what is in conflict,
exactly when no two routes of different tables overlap with different next
hops. -/
theorem conflicts_real_iff (routes : List ManagedRoute) :
    detectConflicts routes = ((pairs (entries routes)).filter (decide <| Real ·)).map conflict ↔
      ∀ e ∈ pairs (entries routes), e.1.r.route.table ≠ e.2.r.route.table →
        (∃ x, e.1.pfx.contains x = true ∧ e.2.pfx.contains x = true) →
          e.1.nextHop = e.2.nextHop := by
  have narrower : (pairs (entries routes)).filter (decide <| Real ·) =
      ((pairs (entries routes)).filter clashes).filter
        fun e => e.1.r.route.table = e.2.r.route.table := by
    rw [List.filter_filter]
    refine List.filter_congr fun e _ => ?_
    rw [decide_eq_decide.mpr real_iff, Bool.decide_and, Bool.decide_eq_true, Bool.and_comm]
  rw [detectConflicts, narrower]
  constructor
  · intro same e member apart shared
    by_contra differ
    have lengths := congrArg List.length same.symm
    rw [List.length_map, List.length_map] at lengths
    have whole := List.length_filter_eq_length_iff.mp lengths
    refine apart (of_decide_eq_true (whole e (List.mem_filter.mpr ⟨member, ?_⟩)))
    obtain ⟨x, first, second⟩ := shared
    have family := (Prefix.family_of_contains first).symm.trans (Prefix.family_of_contains second)
    simp [clashes, family, overlaps_iff.mpr ⟨x, first, second⟩, differ]
  · intro single
    refine congrArg _ (List.filter_eq_self.mpr fun e member => ?_).symm
    obtain ⟨listed, clash⟩ := List.mem_filter.mp member
    simp only [clashes, Bool.and_eq_true, decide_eq_true_eq, overlaps_iff] at clash
    refine decide_eq_true (by_contra fun apart => ?_)
    exact clash.2 (single e listed apart clash.1.2)

/-- A server past the VPN, and another network into it by a table of its own. -/
def twoTables : DesiredInput :=
  { tailscale := [], tailscaleTable := "", tailscaleExitNode := false
    platform := "linux", now := GoTime.Time.zero
    profiles :=
      [{ id := "office", gateway := "auto", rules := [{ type := .ip, value := "203.0.113.7" }] },
        { id := "lab", mode := .modeInclude
          rules := [{ type := .cidr, value := "198.51.100.0/24" }] }]
    gatewayV4 := some (.v4 0xc0a80101#32), physIfaceV4 := "eth0"
    vpnIfaceV4 := "tun0", policyRouting := true }

/-- The table's default is reported against a main-table route. -/
theorem tables_reported_in_conflict :
    (buildDesired twoTables).toOption.map (fun built =>
      (built.1.map (fun r => (r.route.dstCIDR, r.route.table)),
        (detectConflicts built.1).map fun c => (c.kind, c.a, c.b))) =
      some ([("0.0.0.0/0", "5252"), ("203.0.113.7/32", "")],
        [("shadowed", "0.0.0.0/0 via  dev tun0 (model-b)",
          "203.0.113.7/32 via 192.168.1.1 dev eth0 (office)")]) := by
  decide +kernel

end RiftRoute.Conflicts
