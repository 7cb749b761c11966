/-
Module: RiftRoute.Safety.Guardrails
Purpose: The checks that refuse an apply before anything is touched: gateway,
  next hops, one next hop per destination, and the peer of an SSH session.
Trusted boundary: human-reviewed spec
-/
import RiftRoute.Core.Service

namespace RiftRoute

open Netip (Addr)

/-! ### The checks -/

structure Violation where
  rule : String
  detail : String
deriving DecidableEq, Repr

/-- What the provider answers for the route to an address. -/
structure RouteDecision where
  reachable : Bool
  viaVPN : Bool

/-- What the checks read beside the desired set: the provider's route to an
address (`none` for a read error) and `SSH_CONNECTION`. -/
structure Surroundings where
  lookupRoute : Addr → Option RouteDecision := fun _ => none
  sshConnection : String := ""

variable (all : List ManagedRoute)

/-- The routes an unresolved gateway is checked against: all of them, or those
the vetted plan adds or removes. -/
def changedRoutes (plan : Option Plan) : List ManagedRoute :=
  plan.elim all fun p => p.ops.filterMap PlanOp.route

/-- A route the checks vet: every one, or those the vetted plan adds. -/
def vetted (plan : Option Plan) (d : ManagedRoute) : Bool :=
  plan.elim true fun p => p.ops.any fun op =>
    op.kind = .addRoute ∧ op.route.any fun r => r.key = d.key

def mainTable (d : ManagedRoute) : Bool := d.route.table = ""

def gatewayUnresolved (changes : List ManagedRoute) (physGW : Option Addr) : List Violation :=
  if physGW = none ∧ changes.any mainTable then
    [{ rule := "gateway-unresolved"
       detail := "cannot verify routing safety: the physical gateway is currently unreadable; refusing to change main-table routes" }]
  else []

/-- The main-table routes whose destination contains an address. -/
def capturing (desired : List ManagedRoute) (a : Addr) : List ManagedRoute :=
  desired.filter fun d =>
    mainTable d ∧ (Netip.parsePrefix d.route.dstCIDR).any fun p => p.contains a

def gatewayCapture (desired : List ManagedRoute) (physGW : Option Addr) : List Violation :=
  physGW.elim [] fun gw => (capturing desired gw).map fun d =>
    { rule := "gateway-capture"
      detail := "route " ++ d.route.dstCIDR ++
        " would capture the physical gateway " ++ gw.text }

def nextHopViolation (env : Surroundings) (gateway : String) : Option Violation :=
  match Netip.parseAddr gateway with
  | none =>
    some { rule := "bad-gateway", detail := "invalid gateway " ++ gateway.quote }
  | some gw =>
    match env.lookupRoute gw with
    | none => none
    | some dec =>
      if ¬ dec.reachable then
        some { rule := "unreachable-next-hop"
               detail := "gateway " ++ gateway ++ " is not reachable" }
      else if dec.viaVPN then
        some { rule := "next-hop-via-vpn"
               detail := "gateway " ++ gateway ++
                 " is not on-link (currently routed via the VPN)" }
      else none

/-- Each next hop of a main-table route is checked once. -/
def nextHops (env : Surroundings) (desired : List ManagedRoute) : List Violation :=
  (firsts id [] ((desired.filter fun d =>
    mainTable d ∧ d.route.gateway ≠ "").map fun d =>
      d.route.gateway)).filterMap (nextHopViolation env)

/-- The first next hop of a destination. -/
structure Hop where
  dst : DstKey
  nh : String
  /-- A vetted route goes to this destination. -/
  isVetted : Bool

def hopText (r : Route) : String :=
  if r.reject then "reject" else r.gateway ++ "|" ++ r.iface

/-- One turn of the loop that looks for a destination with two next hops. -/
def conflictTurn (plan : Option Plan) (s : List Hop × List Violation)
    (d : ManagedRoute) : List Hop × List Violation :=
  let nh := hopText d.route
  match s.1.find? (·.dst = d.dst) with
  | none => (s.1 ++ [{ dst := d.dst, nh := nh, isVetted := vetted plan d }], s.2)
  | some prev =>
    if prev.nh ≠ nh ∧ (prev.isVetted ∨ vetted plan d) then
      (s.1, s.2 ++ [{
        rule := "conflicting-route"
        detail := "destination " ++ d.route.dstCIDR ++
          " has conflicting next-hops (" ++ prev.nh ++ " vs " ++ nh ++ ")" }])
    else
      (s.1.map fun hop =>
        if hop.dst = d.dst then
          { hop with isVetted := hop.isVetted || vetted plan d }
        else hop, s.2)

def conflicts (plan : Option Plan) : List Violation :=
  (all.foldl (conflictTurn plan) ([], [])).2

/-- The client of an inbound SSH session. -/
def sshPeer (connection : String) : Option Addr :=
  (Texts.words connection).head?.bind Netip.parseAddr

def sshPeerCapture (env : Surroundings) (desired : List ManagedRoute) : List Violation :=
  (sshPeer env.sshConnection).elim [] fun peer =>
    (capturing desired peer).map fun _ =>
      { rule := "ssh-peer"
        detail := "change would alter the route to your active SSH peer " ++
          peer.text }

/-- The violations that block an apply.  With a plan only what it changes is
vetted. -/
def checkGuardrails (env : Surroundings) (all : List ManagedRoute)
    (plan : Option Plan) (physGW : Option Addr) : List Violation :=
  let desired := all.filter (vetted plan)
  gatewayUnresolved (changedRoutes all plan) physGW ++
    gatewayCapture desired physGW ++ nextHops env desired ++
    conflicts all plan ++ sshPeerCapture env desired

/-! ### What a full apply that is let through leaves alone -/

/-- A route's destination contains an address, whatever zone it carries. -/
def Captures (d : ManagedRoute) (gw : Addr) : Prop :=
  ∃ p, Netip.parsePrefix d.route.dstCIDR = some p ∧ p.contains gw.withoutZone

instance (d : ManagedRoute) (gw : Addr) : Decidable (Captures d gw) :=
  decidable_of_iff ((Netip.parsePrefix d.route.dstCIDR).any fun p => p.contains gw.withoutZone)
    (by simp [Captures, Option.any_eq_true])

def Network.physicalGateway (n : Network) (fam : Family) : Option Addr :=
  ((n.defaultGateway fam).map Prod.fst).filter fun gw => famOf gw = fam

@[simp] theorem filter_vetted_none : all.filter (vetted none) = all := by
  simp [vetted]

theorem gatewayCapture_of_passed {env : Surroundings}
    {all : List ManagedRoute} {physGW : Option Addr}
    (passed : checkGuardrails env all none physGW = []) :
    gatewayCapture all physGW = [] := by
  simp only [checkGuardrails, filter_vetted_none, List.append_eq_nil_iff] at passed
  exact passed.1.1.1.2

section

variable {desired : List ManagedRoute} {gw : Addr} (clear : gatewayCapture desired (some gw) = [])

include clear

theorem not_mem_capturing (d : ManagedRoute) :
    d ∉ capturing desired gw := by
  intro member
  have found : capturing desired gw = [] := List.map_eq_nil_iff.mp clear
  rw [found] at member
  exact List.not_mem_nil member

theorem not_captures_of_checked (family : famOf gw = .v4)
    {d : ManagedRoute} (member : d ∈ desired) (main : d.route.table = "") :
    ¬ Captures d gw := by
  rintro ⟨p, read, held⟩
  apply not_mem_capturing clear d
  have plain : gw.withoutZone = gw := by
    cases gw with
    | v4 bits => rfl
    | v6 bits zone => simp [famOf, Addr.is6] at family
  rw [plain] at held
  simp [capturing, member, mainTable, main, read, held]

end

/-- A full apply that is let through leaves the physical gateways alone in
exactly the sets no IPv6 main-table route of which contains the IPv6 one: the
IPv4 gateway is all the check is given. -/
theorem guardrails_spare_gateways (env : Surroundings) (n : Network)
    (lists : List NamedList) (owned : List ManagedRoute)
    (profiles : List Profile) (desired : List ManagedRoute)
    (passed : checkGuardrails env desired none
      (desiredForApply n lists owned profiles).gateway = []) :
    (∀ d ∈ desired, d.route.table = "" →
        ∀ gw, n.physicalGateway d.route.family = some gw → ¬ Captures d gw) ↔
      ∀ d ∈ desired, d.route.table = "" → d.route.family = .v6 →
        ∀ gw, n.physicalGateway .v6 = some gw → ¬ Captures d gw := by
  refine ⟨fun spared d member main family gw known => ?_, fun spared d member main gw known => ?_⟩
  · apply spared d member main gw
    rw [family]
    exact known
  · cases family : d.route.family with
    | v6 =>
      rw [family] at known
      exact spared d member main family gw known
    | v4 =>
      rw [family] at known
      obtain ⟨read, ofFamily⟩ := Option.filter_eq_some_iff.mp known
      rw [gateway_desiredForApply, read] at passed
      exact not_captures_of_checked (gatewayCapture_of_passed passed)
        (by simpa using ofFamily) member main

namespace DualStack

def gatewayV6 : Addr := .v6 0x20010db8000000000000000000000001 ""

/-- A network with a gateway of each family. -/
def lan : Network where
  platform := "linux"
  defaultGateway
    | .v4 => some (.v4 0xc0a80101, "eth0")
    | .v6 => some (gatewayV6, "eth0")

def office : Profile :=
  { id := "office", gateway := "auto"
    rules := [{ type := .cidr, value := "203.0.113.0/24" },
      { type := .cidr, value := "2001:db8:1::/48" }] }

/-- The network the IPv6 router itself is in. -/
def site : Profile :=
  { id := "site", gateway := "auto"
    rules := [{ type := .cidr, value := "2001:db8::/32" }] }

def routesOf (p : Profile) : List ManagedRoute :=
  match (desiredForApply lan [] [] [p]).built with
  | .ok (routes, _) => routes
  | .error _ => []

end DualStack

open DualStack

theorem office_spares_gateways : routesOf office ≠ [] ∧ ∀ d ∈ routesOf office, d.route.table = "" →
      ∀ gw, lan.physicalGateway d.route.family = some gw → ¬ Captures d gw := by
  refine ⟨by decide, ?_⟩
  apply (guardrails_spare_gateways {} lan [] [] [office] (routesOf office) (by decide)).mpr
  intro d member _ _ gw known
  obtain rfl : gatewayV6 = gw := Option.some.inj (by rw [← known]; decide)
  exact (by decide : ∀ d ∈ routesOf office, ¬ Captures d gatewayV6) d member

/-- A bypass for the site's own IPv6 network is let through, the router in
it. -/
theorem ipv6_gateway_captured : checkGuardrails {} (routesOf site) none
        (desiredForApply lan [] [] [site]).gateway = [] ∧
      ∃ d ∈ routesOf site, d.route.table = "" ∧
        lan.physicalGateway d.route.family = some gatewayV6 ∧ Captures d gatewayV6 := by
  decide

end RiftRoute
