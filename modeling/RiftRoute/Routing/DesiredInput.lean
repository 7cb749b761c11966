/-
Module: RiftRoute.Routing.DesiredInput
Purpose: The builder's input and how it reads the texts in it, and what a
  desired set needs beside a Tailscale on Linux.
Trusted boundary: human-reviewed spec
-/
import RiftRoute.Routing.Keys
import RiftRoute.Library.NetipTexts

namespace RiftRoute

def modelBRulePrio : Int := 5252

/-- Just before Model B's rules. -/
def tailscaleRulePrio : Int := modelBRulePrio - 1

def tailscaleTag : String := "tailscale"

def bypassTable : String := "5253"

def bypassRulePrio : Int := 5260

/-- What `BesideTailscale` reads of the builder's input. -/
structure TailscaleInput where
  tailscale : List Netip.Prefix
  tailscaleTable : String
  tailscaleExitNode : Bool
  platform : String
  now : GoTime.Time

def famOf (a : Netip.Addr) : Family := if a.is6 then .v6 else .v4

def protoFor (platform : String) : String :=
  if platform = "linux" then "riftroute" else ""

/-- The copy of a main-table route looked up before the exit node's
capture. -/
def bypassCopy (r : ManagedRoute) : ManagedRoute :=
  { r with route := { r.route with table := bypassTable } }

/-- One rule for each of the families given, in the order v4, v6. -/
def familyRules (families : List Family) (priority : Int)
    (selector table : String) (inp : TailscaleInput) : List ManagedRule :=
  ([Family.v4, Family.v6].filter (· ∈ families)).map fun fam =>
    { rule :=
        { priority := priority, selector := selector, table := table
          family := some fam, proto := protoFor inp.platform }
      profileID := tailscaleTag
      createdAt := inp.now }

def besideTailscale (routes : List ManagedRoute) (rules : List ManagedRule)
    (inp : TailscaleInput) : List ManagedRoute × List ManagedRule :=
  let routes := routes.filter fun r => ¬ r.route.table = bypassTable
  let rules := rules.filter fun r =>
    ¬ (r.rule.table = bypassTable ∨ r.rule.priority = tailscaleRulePrio ∧ r.rule.table ≠ "")
  if inp.tailscaleTable = "" ∨ inp.platform = "darwin" then (routes, rules)
  else
    let fams := inp.tailscale.map fun n => famOf n.addr
    let rules := rules ++ familyRules fams tailscaleRulePrio "from all suppress_prefixlength 0"
        inp.tailscaleTable inp
    if ¬ inp.tailscaleExitNode then (routes, rules)
    else
      let mains := routes.filter fun r => r.route.table = ""
      let families := mains.map fun r => r.route.family
      (routes ++ mains.map bypassCopy,
        rules ++ familyRules families bypassRulePrio "from all" bypassTable inp)

theorem bypassCopy_mem_besideTailscale {routes : List ManagedRoute}
    {rules : List ManagedRule} {inp : TailscaleInput} {r : ManagedRoute}
    (beside : inp.tailscaleTable ≠ "") (linux : inp.platform ≠ "darwin")
    (exitNode : inp.tailscaleExitNode) (member : r ∈ routes)
    (main : r.route.table = "") :
    r ∈ (besideTailscale routes rules inp).1 ∧
      bypassCopy r ∈ (besideTailscale routes rules inp).1 := by
  have kept : r ∈ routes.filter fun r => ¬ r.route.table = bypassTable := by
    rw [List.mem_filter]
    exact ⟨member, by rw [main]; decide⟩
  have neither : ¬ (inp.tailscaleTable = "" ∨ inp.platform = "darwin") :=
    fun either => either.elim beside linux
  simp only [besideTailscale, if_neg neither, exitNode, not_true_eq_false,
    if_false, List.mem_append]
  refine ⟨.inl kept, .inr ?_⟩
  rw [List.mem_map]
  exact ⟨r, List.mem_filter.mpr ⟨kept, by simp [main]⟩, rfl⟩

open List
open Netip (Addr Prefix)

/-- One managed tunnel's contribution to desired state. -/
structure TunnelInput where
  name : String
  /-- The tunnel's interface while it is connected; empty otherwise. -/
  iface : String := ""
  /-- The tunnel carries IPv6. -/
  v6 : Bool := false
  /-- The tunnel is set to block while it is down, and should be up. -/
  block : Bool := false
  /-- The CIDR or IP destinations sent into the tunnel. -/
  routes : List String := []
  /-- The tunnel's own servers, pinned to the physical gateway. -/
  bypass : List Addr := []
  /-- Every address the tunnel's connection may go to. -/
  servers : List Addr := []
deriving DecidableEq

/-- Everything the builder derives desired state from.  An address or network
that may be missing (the zero value of the source) is an `Option`; a map that
is only looked up is a function or its list of entries. -/
structure DesiredInput extends TailscaleInput where
  profiles : List Profile := []
  gatewayV4 : Option Addr := none
  gatewayV6 : Option Addr := none
  physIfaceV4 : String := ""
  physIfaceV6 : String := ""
  physNetV4 : Option Prefix := none
  physNetV6 : Option Prefix := none
  vpnGatewayV4 : Option Addr := none
  vpnGatewayV6 : Option Addr := none
  vpnIfaceV4 : String := ""
  vpnIfaceV6 : String := ""
  lists : String → List String := fun _ => []
  domains : String → List String := fun _ => []
  tunnels : List TunnelInput := []
  /-- Main-table destinations someone else routes: masked CIDR and
  interface. -/
  occupied : List (String × String) := []
  dnsServers : List Addr := []
  anchors : List Addr := []
  policyRouting : Bool := false

/-- A listed destination: a CIDR, or an address as its host prefix. -/
def entryToPrefix (s : String) : Option (Prefix × Family) :=
  match Netip.parsePrefix s with
  | some pfx => some (pfx, famOf pfx.addr)
  | none =>
    match Netip.parseAddr s with
    | some a => some (Prefix.host a, famOf a)
    | none => none

def ruleToPrefix (r : Rule) : Option (Prefix × Family) :=
  match r.type with
  | .cidr => (Netip.parsePrefix r.value).map fun pfx => (pfx, famOf pfx.addr)
  | .ip => (Netip.parseAddr r.value).map fun a => (Prefix.host a, famOf a)
  | _ => none

/-- The destinations one rule of a profile stands for: its own, or the
resolved addresses of its domain. -/
def rulePrefixes (r : Rule) (inp : DesiredInput) : List (Prefix × Family) :=
  match ruleToPrefix r with
  | some entry => [entry]
  | none =>
    if r.type = .domain then (inp.domains r.value).filterMap entryToPrefix
    else []

/-- The destinations a profile routes in a family: its rules', its domains'
and its lists'. -/
def profilePrefixes (p : Profile) (inp : DesiredInput) (fam : Family) : List Prefix :=
  let entries := (p.rules.flatMap fun r => rulePrefixes r inp) ++
    p.lists.flatMap fun l => (inp.lists l).filterMap entryToPrefix
  (entries.filter fun entry => entry.2 = fam).map Prod.fst

/-- The gateway and interface a profile's routes of a family go through. -/
def resolveGateway (profileGW : String) (fam : Family) (inp : DesiredInput) :
    Except String (Addr × String) :=
  let iface := if fam = .v6 then inp.physIfaceV6 else inp.physIfaceV4
  let auto := if fam = .v6 then inp.gatewayV6 else inp.gatewayV4
  if profileGW = "" ∨ profileGW = "auto" then
    match auto with
    | none => .error ("no physical gateway for " ++ fam.text ++
        " (cannot resolve gateway: auto)")
    | some gw => .ok (gw, iface)
  else
    match Netip.parseAddr profileGW with
    | none => .error ("invalid gateway " ++ profileGW.quote)
    | some a =>
      if famOf a ≠ fam then
        .error ("gateway " ++ profileGW ++ " family does not match rule family " ++ fam.text)
      else .ok (a, iface)

/-- The VPN's next hop and interface for a family. -/
def vpnFor (fam : Family) (inp : DesiredInput) : Option Addr × String :=
  if fam = .v6 then (inp.vpnGatewayV6, inp.vpnIfaceV6)
  else (inp.vpnGatewayV4, inp.vpnIfaceV4)

/-! ### Families -/

theorem famOf_eq_iff {a b : Addr} : famOf a = famOf b ↔ a.is6 = b.is6 := by
  unfold famOf
  cases a.is6 <;> cases b.is6 <;> simp

theorem family_entryToPrefix {s : String} {pfx : Prefix} {fam : Family}
    (read : entryToPrefix s = some (pfx, fam)) : fam = famOf pfx.addr := by
  unfold entryToPrefix at read
  split at read
  case h_1 found _ =>
    obtain ⟨rfl, rfl⟩ : found = pfx ∧ famOf found.addr = fam := by
      simpa using read
    rfl
  case h_2 =>
    split at read
    case h_1 a _ =>
      obtain ⟨rfl, rfl⟩ : Prefix.host a = pfx ∧ famOf a = fam := by
        simpa using read
      simp [famOf, Prefix.host]
    case h_2 => simp at read

theorem family_ruleToPrefix {r : Rule} {pfx : Prefix} {fam : Family}
    (read : ruleToPrefix r = some (pfx, fam)) : fam = famOf pfx.addr := by
  unfold ruleToPrefix at read
  split at read
  case h_1 =>
    obtain ⟨found, _, same⟩ := Option.map_eq_some_iff.mp read
    obtain ⟨rfl, rfl⟩ := Prod.mk.inj same
    rfl
  case h_2 =>
    obtain ⟨a, _, same⟩ := Option.map_eq_some_iff.mp read
    obtain ⟨rfl, rfl⟩ := Prod.mk.inj same
    simp [famOf, Prefix.host]
  case h_3 => simp at read

theorem family_profilePrefixes {p : Profile} {inp : DesiredInput}
    {fam : Family} {pfx : Prefix} (member : pfx ∈ profilePrefixes p inp fam) :
    famOf pfx.addr = fam := by
  obtain ⟨⟨found, other⟩, listed, rfl⟩ := mem_map.mp member
  obtain ⟨entry, family⟩ := mem_filter.mp listed
  obtain rfl : other = fam := by simpa using family
  rcases mem_append.mp entry with rule | list
  · obtain ⟨r, _, within⟩ := mem_flatMap.mp rule
    unfold rulePrefixes at within
    split at within
    case h_1 one read =>
      obtain rfl := mem_singleton.mp within
      exact (family_ruleToPrefix read).symm
    case h_2 =>
      split at within
      case isTrue =>
        obtain ⟨_, _, read⟩ := mem_filterMap.mp within
        exact (family_entryToPrefix read).symm
      case isFalse => simp at within
  · obtain ⟨_, _, within⟩ := mem_flatMap.mp list
    obtain ⟨_, _, read⟩ := mem_filterMap.mp within
    exact (family_entryToPrefix read).symm

end RiftRoute
