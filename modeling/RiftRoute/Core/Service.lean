/-
Module: RiftRoute.Core.Service
Purpose: Which recorded routes and rules the profiles still route; how the
  service gathers the builder's input, and the desired sets built from it.
Trusted boundary: human-reviewed spec
-/
import RiftRoute.Routing.Selection
import RiftRoute.Library.KeyedTable

namespace RiftRoute

/-! ### The record -/

/-- A rule that was cut, with its pieces. -/
structure YieldedRule where
  rule : ManagedRule
  pieces : List ManagedRule

structure Yielded where
  routes : List ManagedRoute := []
  rules : List YieldedRule := []

/-- What gives way to the plan: routes that are not among those placed, and
rules the plan cuts. -/
def yieldedTo (tp : TunnelPlan) (routes : List ManagedRoute)
    (rules : List ManagedRule) (placed : List ManagedRoute) : Yielded :=
  { routes := routes.filter fun r =>
      r.key ∉ placed.map ManagedRoute.key ∧ r.profileID ≠ ""
    rules := rules.filterMap fun r =>
      let parts := tp.rulesBeside [r]
      if parts.map ManagedRule.key = [r.key] then none
      else some { rule := r, pieces := parts } }

open List
open Netip (Addr Prefix)

/-! ### The profiles' destinations -/

/-- Where the enabled profiles' destinations go, by family: past the VPN or
into it. -/
structure Destinations where
  excludeNets : Family → List Prefix
  includeNets : Family → List Prefix
  /-- The families a profile may route more of than is known. -/
  unsure : String → Family → Bool
  /-- The enabled profiles. -/
  mode : String → Option Mode

/-- A profile that routes past the main VPN or into it. -/
def Profile.counts (p : Profile) : Bool := p.enabled ∧ p.mode ≠ .modeTunnel

variable (inp : DesiredInput)

def Rule.lacks (fam : Family) (r : Rule) : Bool :=
  r.type = .domain ∧ ¬ (inp.domains r.value).any fun ip =>
      (entryToPrefix ip).any fun entry => entry.2 = fam

def destinationsOf (routes : Profile → Bool) (fam : Family) : List Prefix :=
  (inp.profiles.filter routes).flatMap fun p => profilePrefixes p inp fam

def profileDestinations : Destinations :=
  let counted := inp.profiles.filter Profile.counts
  { excludeNets := fun fam => aggregate (destinationsOf inp Profile.excludes fam)
    includeNets := fun fam => aggregate (destinationsOf inp Profile.includes fam)
    unsure := fun id fam => counted.any fun p =>
      p.id = id ∧ p.rules.any (Rule.lacks inp fam)
    -- a later profile of the same id replaces an earlier one
    mode := fun id => (counted.reverse.find? fun p => p.id = id).map Profile.mode }

/-! ### Judging -/

/-- The network lies inside one of the aggregated prefixes. -/
def within (pfx : Prefix) (aggregated : List Prefix) : Bool := aggregated.any fun a => a.covers pfx

/-- A destination rule's network, masked. -/
def ruleNet (r : PolicyRule) : Option Prefix :=
  (cutPrefix r.selector "to ").bind fun dst =>
    (Netip.parsePrefix dst).map Prefix.masked

namespace Destinations

variable (d : Destinations)

/-- An enabled profile, an include one or any other, that is unsure of the
family. -/
def unsureOf (profile : String) (inside : Bool) (fam : Family) : Bool :=
  (d.mode profile).any fun m =>
    decide (m = .modeInclude) = inside ∧ d.unsure profile fam

/-- An exclude profile still routes the route's whole destination.  A route
that can't be judged holds. -/
def holdsRoute (r : ManagedRoute) : Bool :=
  if r.route.table ≠ "" then true
  else
    match Netip.parsePrefix r.route.dstCIDR with
    | none => true
    | some pfx =>
      within pfx.masked (d.excludeNets r.route.family) ||
        d.unsureOf r.profileID false r.route.family

/-- An include profile still routes a destination rule's whole network.  A
rule that can't be judged holds; one of no family has no destinations. -/
def holdsRule (r : ManagedRule) : Bool :=
  match ruleNet r.rule with
  | none => true
  | some pfx =>
    r.rule.family.any fun fam =>
      within pfx (d.includeNets fam) || d.unsureOf r.profileID true fam

end Destinations

/-! ### What is routed -/

def RoutedBy (routes : Profile → Bool) (fam : Family) (x : Addr) : Prop :=
  ∃ p ∈ inp.profiles, routes p ∧ Netip.Covered (profilePrefixes p inp fam) x

section Judged

variable {inp : DesiredInput} {routes : Profile → Bool} {fam : Family}
  {pfx : Prefix}

theorem covered_destinationsOf {x : Addr} : Netip.Covered (destinationsOf inp routes fam) x ↔
      RoutedBy inp routes fam x := by
  constructor
  · rintro ⟨q, member, holds⟩
    obtain ⟨p, counted, own⟩ := mem_flatMap.mp member
    obtain ⟨listed, wanted⟩ := mem_filter.mp counted
    exact ⟨p, listed, wanted, q, own, holds⟩
  · rintro ⟨p, listed, wanted, q, own, holds⟩
    have counted := mem_filter.mpr ⟨listed, wanted⟩
    exact ⟨q, mem_flatMap.mpr ⟨p, counted, own⟩, holds⟩

theorem within_aggregate_iff {ps : List Prefix} : within pfx.masked (aggregate ps) ↔
      ∀ x, pfx.contains x → Netip.Covered ps x := by
  rw [within, any_eq_true]
  constructor
  · rintro ⟨a, member, around⟩ x holds
    rw [Prefix.covers_masked] at around
    exact (covered_aggregate ps x).mp ⟨a, member, Prefix.contains_of_covers around holds⟩
  · intro filled
    exact aggregate_maximal ps pfx.isMasked_masked fun x holds =>
      filled x (by simpa using holds)

theorem within_destinations_iff : within pfx.masked (aggregate (destinationsOf inp routes fam)) ↔
      ∀ x, pfx.contains x → RoutedBy inp routes fam x := by
  rw [within_aggregate_iff]
  exact forall_congr' fun x => imp_congr_right fun _ => covered_destinationsOf

theorem family_of_routedBy {x : Addr} (routed : RoutedBy inp routes fam x) : fam = famOf x := by
  obtain ⟨p, _, _, q, own, holds⟩ := routed
  rw [← family_profilePrefixes own, famOf_eq_iff]
  exact (Prefix.contains_iff.mp holds).2.1.symm

theorem holdsRoute_iff {r : ManagedRoute} (main : r.route.table = "")
    (parsed : Netip.parsePrefix r.route.dstCIDR = some pfx)
    (sure : (profileDestinations inp).unsureOf r.profileID false r.route.family = false) :
    (profileDestinations inp).holdsRoute r ↔
      ∀ x, pfx.contains x → RoutedBy inp Profile.excludes r.route.family x := by
  rw [Destinations.holdsRoute, if_neg (not_not.mpr main), parsed]
  dsimp only
  rw [sure, Bool.or_false]
  exact within_destinations_iff

theorem holdsRule_iff {r : ManagedRule} {dst : String}
    (destination : cutPrefix r.rule.selector "to " = some dst)
    (parsed : Netip.parsePrefix dst = some pfx)
    (sure : ∀ fam ∈ r.rule.family,
      (profileDestinations inp).unsureOf r.profileID true fam = false) :
    (profileDestinations inp).holdsRule r ↔ ∀ x, pfx.contains x →
        ∃ fam ∈ r.rule.family, RoutedBy inp Profile.includes fam x := by
  have net : ruleNet r.rule = some pfx.masked := by
    rw [ruleNet, destination, Option.bind_some, parsed, Option.map_some]
  rw [Destinations.holdsRule, net]
  dsimp only
  cases family : r.rule.family with
  | none =>
    constructor
    · intro held
      cases held
    · intro routed
      obtain ⟨fam, absent, _⟩ := routed pfx.addr pfx.contains_addr
      cases absent
  | some fam =>
    rw [Option.any_some, sure fam family, Bool.or_false]
    refine within_destinations_iff.trans (forall_congr' fun x => ?_)
    simp

/-- Put-backs are judged exactly: a main-table route holds when every address
of its network is routed by the exclude profiles together, and a destination
rule when every address of its network is routed, in its family, by the include
profiles together. -/
theorem put_backs_judged_exactly (inp : DesiredInput) :
    (∀ (r : ManagedRoute) (pfx : Prefix), r.route.table = "" →
        Netip.parsePrefix r.route.dstCIDR = some pfx →
        r.route.family = famOf pfx.addr →
        (profileDestinations inp).unsureOf r.profileID false r.route.family = false →
        ((profileDestinations inp).holdsRoute r ↔
          ∀ x, pfx.contains x → ∃ fam, RoutedBy inp Profile.excludes fam x)) ∧
      (∀ (r : ManagedRule) (dst : String) (pfx : Prefix),
        cutPrefix r.rule.selector "to " = some dst →
        Netip.parsePrefix dst = some pfx →
        (∀ fam ∈ r.rule.family, (profileDestinations inp).unsureOf r.profileID true fam = false) →
        ((profileDestinations inp).holdsRule r ↔ ∀ x, pfx.contains x →
            ∃ fam ∈ r.rule.family, RoutedBy inp Profile.includes fam x)) := by
  refine ⟨?_, fun r dst pfx destination parsed sure =>
    holdsRule_iff destination parsed sure⟩
  intro r pfx main parsed family sure
  refine (holdsRoute_iff main parsed sure).trans ?_
  refine forall_congr' fun x => imp_congr_right fun inside => ?_
  constructor
  · exact fun routed => ⟨r.route.family, routed⟩
  · rintro ⟨fam, routed⟩
    -- the address, its network and the route are of one family
    have sameFamily : famOf x = famOf pfx.addr :=
      famOf_eq_iff.mpr (Prefix.contains_iff.mp inside).2.1
    rwa [family, ← sameFamily, ← family_of_routedBy routed]

end Judged

/-! ### What the service reads -/

structure Iface where
  name : String
  addrs : List String

/-- A Tailscale beside RiftRoute, with the networks it routes. -/
structure TailscaleStatus where
  iface : String
  networks : List Prefix
  exitNode : Bool := false

/-- Answers to domain names: by host, and what was learnt under a wildcard. -/
structure Resolver where
  lookup : String → List Addr
  wildcardIPs : String → List String := fun _ => []

/-- Everything outside the store a desired set is derived from.  A read that
fails is `none`. -/
structure Network where
  platform : String
  now : GoTime.Time := GoTime.Time.zero
  policyRouting : Bool := false
  /-- The physical gateway of a family and its interface. -/
  defaultGateway : Family → Option (Addr × String) := fun _ => none
  interfaces : Option (List Iface) := none
  tailscale : Option TailscaleStatus := none
  /-- The provider can read a table beside main. -/
  listsTables : Bool := false
  listRoutes : Family → Option (List Route) := fun _ => some []
  listRules : Family → List PolicyRule := fun _ => []
  systemResolvers : List Addr := []
  /-- The active VPN's next hop and interface for a family. -/
  vpn : Family → Option Addr × String := fun _ => (none, "")
  resolver : Option Resolver := none
  tunnels : List TunnelInput := []

/-- The address of `tailscale.MagicDNS`. -/
def magicDNS : Addr := .v4 0x64646464

def tailscaleLinuxTable : String := "52"

def canaryAnchor : Addr := .v4 0x01010101

/-- The watchdog's anchors, as addresses. -/
def defaultAnchors (physGW : Option Addr) : List Addr := physGW.toList ++ [canaryAnchor]

/-- The network of an interface that holds its gateway. -/
def ifaceNet (ifaces : List Iface) (name : String) (gw : Option Addr) : Option Prefix :=
  match gw with
  | none => none
  | some gw =>
    if name = "" then none
    else
      ((ifaces.filter (·.name = name)).flatMap Iface.addrs).findSome? fun a =>
        (Netip.parsePrefix a).bind fun p =>
          if p.masked.contains gw ∧ p.bits < p.addr.bitLen then some p.masked
          else none

/-- A route as a table read lists it: the destination masked, the gateway in
one spelling. -/
def kernelKey (r : Route) : DstKey × String × String × Bool :=
  (maskedDstKey r, gatewayKey r.gateway, r.iface, r.reject)

def setEntry (entries : List (String × String)) (key value : String) : List (String × String) :=
  entries.filter (fun entry => ¬ entry.1 = key) ++ [(key, value)]

variable (n : Network) (lists : List NamedList) (owned : List ManagedRoute)
  (profiles : List Profile) (tunnels : List TunnelInput)

/-- The main-table destinations someone other than RiftRoute routes. -/
def occupied : List (String × String) :=
  let ours := owned.map fun o => kernelKey o.route
  ((n.listRoutes .v4).getD [] ++ (n.listRoutes .v6).getD []).foldl (fun out r =>
      if r.table ≠ "" ∨ r.cloned ∨ r.owner = .riftRoute ∨ kernelKey r ∈ ours then out
      else
        match Netip.parsePrefix r.dstCIDR with
        | none => out
        | some pfx =>
          if pfx.bits = 0 then out
          else
            setEntry out pfx.masked.text (if r.reject then "a reject route" else r.iface))
    []

/-- Tailscale's networks are someone else's routes too. -/
def occupyTailscale (entries : List (String × String))
    (ts : TailscaleStatus) : List (String × String) :=
  ts.networks.foldl (fun out net =>
      if (out.lookup net.masked.text).isSome then out
      else setEntry out net.masked.text (ts.iface ++ " (Tailscale)"))
    entries

/-- The network side of desired state.  What a tunnel route must leave alone
is read only when there are tunnels. -/
def networkInput (owned : List ManagedRoute) : DesiredInput :=
  let gatewayV4 := (n.defaultGateway .v4).map Prod.fst
  let gatewayV6 := (n.defaultGateway .v6).map Prod.fst
  let physIfaceV4 := ((n.defaultGateway .v4).map Prod.snd).getD ""
  let physIfaceV6 := ((n.defaultGateway .v6).map Prod.snd).getD ""
  let inp : DesiredInput :=
    { platform := n.platform, now := n.now, tunnels := tunnels
      gatewayV4 := gatewayV4, physIfaceV4 := physIfaceV4
      gatewayV6 := gatewayV6, physIfaceV6 := physIfaceV6
      tailscale := n.tailscale.elim [] TailscaleStatus.networks
      tailscaleTable :=
        if n.tailscale.isSome ∧ n.listsTables then tailscaleLinuxTable else ""
      tailscaleExitNode :=
        n.listsTables && n.tailscale.elim false TailscaleStatus.exitNode }
  if tunnels = [] then inp
  else
    { inp with
      physNetV4 := n.interfaces.bind (ifaceNet · physIfaceV4 gatewayV4)
      physNetV6 := n.interfaces.bind
        (ifaceNet · physIfaceV6 (gatewayV6.map Addr.withoutZone))
      occupied := n.tailscale.elim (occupied n owned)
        (occupyTailscale (occupied n owned))
      dnsServers :=
        if n.tailscale.isSome ∧ magicDNS ∉ n.systemResolvers then
          n.systemResolvers ++ [magicDNS]
        else n.systemResolvers
      anchors := defaultAnchors gatewayV4 }

/-! ### Domains and lists -/

def wildcard : String := "*."

def domainRuleHost (value : String) : String :=
  if hasPrefix value wildcard then
    String.ofList (value.toList.drop wildcard.length)
  else value

def Resolver.addresses (r : Resolver) (value : String) : List String :=
  let own := (r.lookup (domainRuleHost value)).map Addr.text
  if hasPrefix value wildcard then
    (r.wildcardIPs value).foldl (addNew id) own
  else own

/-- The value of a domain rule of an enabled profile. -/
def names (value : String) : Bool :=
  profiles.any fun p =>
    p.enabled ∧ p.rules.any fun r => r.type = .domain ∧ r.value = value

def lookupDomains (resolver : Option Resolver) (profiles : List Profile)
    (value : String) : List String :=
  if names profiles value then
    resolver.elim [] fun r => r.addresses value
  else []

/-- The effective entries of a stored list; unknown ones have none. -/
def listsMap (name : String) : List String :=
  ((lists.find? (·.name = name)).map NamedList.entries).getD []

/-! ### Tunnel-mode profiles -/

/-- A destination as a tunnel's own list holds it: a host as its address. -/
def routeText (p : Prefix) : String :=
  if p.bits = p.addr.bitLen then p.addr.text else p.text

/-- The destinations of the enabled tunnel-mode profiles that go into a
tunnel. -/
def tunnelPrefixes (inp : DesiredInput) (tunnel : String) : List Prefix :=
  (inp.profiles.filter fun p =>
    p.enabled ∧ p.mode = .modeTunnel ∧ p.tunnel ≠ "" ∧ p.tunnel = tunnel).flatMap fun p =>
    families.flatMap (profilePrefixes p inp)

def tunnelProfileRoutes (inp : DesiredInput) (tunnel : String) : List String :=
  (aggregate (tunnelPrefixes inp tunnel)).map routeText

/-- The tunnels with extra routes after their own, each once; a tunnel with
none keeps its list as it is. -/
def withRoutes (extra : String → List String) : List TunnelInput :=
  tunnels.map fun t =>
    if extra t.name = [] then t
    else { t with routes := firsts id [] (t.routes ++ extra t.name) }

/-! ### Desired sets -/

/-- The builder's input for a profile set, before the tunnel-mode profiles'
destinations are given to the tunnels. -/
def profileNetwork : DesiredInput :=
  { networkInput n n.tunnels owned with
    profiles := profiles
    policyRouting := n.policyRouting
    lists := listsMap lists
    domains := lookupDomains n.resolver profiles
    vpnGatewayV4 := (n.vpn .v4).1, vpnIfaceV4 := (n.vpn .v4).2
    vpnGatewayV6 := (n.vpn .v6).1, vpnIfaceV6 := (n.vpn .v6).2 }

/-- The builder's input for a profile set. -/
def profileInput : DesiredInput :=
  let inp := profileNetwork n lists owned profiles
  { inp with tunnels := withRoutes inp.tunnels (tunnelProfileRoutes inp) }

/-- A desired set as the service hands it over, with the physical gateway the
guardrails and the watchdog get. -/
structure DesiredSet where
  built : Except String (List ManagedRoute × List ManagedRule)
  gateway : Option Addr
  /-- What a committed apply records: what yielded, and the tunnel-mode
  profiles' routes. -/
  record : Option (Yielded × (String → List String)) := none

def desiredFromProfiles : DesiredSet :=
  let inp := profileInput n lists owned profiles
  { built := buildDesired inp, gateway := inp.gatewayV4 }

/-- The desired set of a full apply, from the stored profiles.  What yields to
the live tunnels is the difference to the set built as if none were up. -/
def desiredForApply : DesiredSet :=
  let inp := profileInput n lists owned profiles
  let built := buildDesired inp
  let bare := buildDesired { inp with tunnels := [], occupied := [] }
  { built := built
    gateway := inp.gatewayV4
    record :=
      match built, bare with
      | .ok (routes, _), .ok (bareRoutes, bareRules) =>
        some (yieldedTo (planTunnels inp) bareRoutes bareRules routes,
          tunnelProfileRoutes inp)
      | _, _ => none }

@[simp] theorem gatewayV4_networkInput (owned : List ManagedRoute) :
    (networkInput n tunnels owned).gatewayV4 = (n.defaultGateway .v4).map Prod.fst := by
  by_cases unused : tunnels = []
  · simp [networkInput, unused]
  · simp [networkInput, unused]

@[simp] theorem gateway_desiredForApply :
    (desiredForApply n lists owned profiles).gateway = (n.defaultGateway .v4).map Prod.fst :=
  gatewayV4_networkInput n n.tunnels owned

@[simp] theorem built_desiredForApply :
    (desiredForApply n lists owned profiles).built =
      (desiredFromProfiles n lists owned profiles).built :=
  rfl

end RiftRoute
