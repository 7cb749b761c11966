/-
Module: RiftRoute.Routing.Forwarding
Purpose: Which route of a main table an address takes: inside a plan's
  networks the plan decides, outside them it adds only pins.  So a tunnel-only
  apply forwards and selects every address like a full one.
Trusted boundary: human-reviewed spec
Main exports: longestMatch_place_iff, leadsTo_place_outside
-/
import RiftRoute.Routing.TunnelsSpec
import RiftRoute.Routing.Selection

namespace RiftRoute

open List

open Netip

/-! ### Longest prefix -/

/-- A main-table route leads to a prefix that holds the address. -/
structure Matches (r : ManagedRoute) (x : Addr) (p : Prefix) : Prop where
  main : r.route.table = ""
  read : parsePrefix r.route.dstCIDR = some p
  holds : p.contains x

/-- The route is one of those of the longest prefix that holds the
address. -/
structure LongestMatch (routes : List ManagedRoute) (x : Addr)
    (r : ManagedRoute) : Prop where
  member : r ∈ routes
  longest : ∃ p, Matches r x p ∧ ∀ other ∈ routes, ∀ q, Matches other x q → q.bits ≤ p.bits

/-- How a route leaves: gateway, interface, and whether it refuses. -/
def ManagedRoute.hop (r : ManagedRoute) : String × String × Bool :=
  (r.route.gateway, r.route.iface, r.route.reject)

/-- The longest prefix that holds the address leaves by this next hop. -/
def LeadsTo (routes : List ManagedRoute) (x : Addr) (hop : String × String × Bool) : Prop :=
  ∃ r, LongestMatch routes x r ∧ r.hop = hop

section Longest

variable {routes : List ManagedRoute} {r : ManagedRoute} {x : Addr}
  {p q : Prefix}

theorem Matches.unique (first : Matches r x p) (second : Matches r x q) : p = q :=
  Option.some.inj (first.read.symm.trans second.read)

theorem longestMatch_congr {others : List ManagedRoute}
    (same : ∀ r : ManagedRoute, r.route.table = "" → (r ∈ routes ↔ r ∈ others)) :
    LongestMatch routes x r ↔ LongestMatch others x r := by
  constructor
  · rintro ⟨member, p, found, longest⟩
    refine ⟨(same r found.main).mp member, p, found, fun o among q fit => ?_⟩
    exact longest o ((same o fit.main).mpr among) q fit
  · rintro ⟨member, p, found, longest⟩
    refine ⟨(same r found.main).mpr member, p, found, fun o among q fit => ?_⟩
    exact longest o ((same o fit.main).mp among) q fit

theorem exists_longestMatch (member : r ∈ routes) (found : Matches r x p) :
    ∃ best, LongestMatch routes x best := by
  induction routes generalizing r p with
  | nil => simp at member
  | cons head rest ih =>
    by_cases later : ∃ other ∈ rest, ∃ q, Matches other x q
    · obtain ⟨other, there, q, matching⟩ := later
      obtain ⟨best, held, p', fits, longest⟩ := ih there matching
      by_cases longer : ∃ q', Matches head x q' ∧ p'.bits < q'.bits
      · obtain ⟨q', here, less⟩ := longer
        refine ⟨head, mem_cons_self, q', here, fun o among o' fit => ?_⟩
        rcases mem_cons.mp among with rfl | after
        · rw [here.unique fit]
        · exact (longest o after o' fit).trans less.le
      · refine ⟨best, mem_cons_of_mem _ held, p', fits, fun o among o' fit => ?_⟩
        rcases mem_cons.mp among with rfl | after
        · exact not_lt.mp fun less => longer ⟨o', fit, less⟩
        · exact longest o after o' fit
    · rcases mem_cons.mp member with rfl | there
      · refine ⟨r, mem_cons_self, p, found, fun o among o' fit => ?_⟩
        rcases mem_cons.mp among with rfl | after
        · rw [found.unique fit]
        · exact (later ⟨o, after, o', fit⟩).elim
      · exact (later ⟨r, there, p, found⟩).elim

end Longest

/-! ### A plan beside other routes -/

/-- The main-table routes lead to masked prefixes, none inside the plan's
networks. -/
def OutsideNets (tp : TunnelPlan) (routes : List ManagedRoute) : Prop :=
  ∀ e ∈ routes, e.route.table = "" → ∃ q : Prefix, q.IsMasked ∧ e.dst = prefixKey q ∧
      ∀ n ∈ tp.nets, ¬ n.covers q

section Plan

variable {inp : DesiredInput} {routes : List ManagedRoute} {r : ManagedRoute}
  {x : Addr} {p q : Prefix}

theorem read_of_dst (masked : q.IsMasked) (dst : r.dst = prefixKey q) :
    parsePrefix r.route.dstCIDR = some q := by
  rw [prefixKey_of_isMasked masked] at dst
  rw [show r.route.dstCIDR = q.text from congrArg DstKey.dst dst, parsePrefix_text]

theorem mem_nets_iff : p ∈ (planTunnels inp).nets ↔
      ∃ turn ∈ planTurns inp, p ∈ claimsOf inp turn := by
  rw [planTunnels_nets, mem_flatMap]

theorem exists_route_of_net (member : p ∈ (planTunnels inp).nets) :
    p.IsMasked ∧ ∃ r ∈ (planTunnels inp).routes, r.route.gateway = "" ∧ r.dst = prefixKey p := by
  obtain ⟨turn, later, claimed⟩ := mem_nets_iff.mp member
  refine ⟨(turnNets_sound claimed).1, netRoute inp turn.2 p, ?_,
    netRoute_gateway .., netRoute_dst inp turn.2 (turnNets_sound claimed).1⟩
  exact mem_planTunnels_routes.mpr (.inr ⟨turn, later, p, claimed, rfl⟩)

theorem planRoute_cases (member : r ∈ (planTunnels inp).routes) :
    IsPin inp r ∨ ∃ p ∈ (planTunnels inp).nets, p.IsMasked ∧ r.dst = prefixKey p := by
  rcases mem_planTunnels_routes.mp member with pin | claimed
  · exact .inl ((pinned_pinned inp).pins r pin)
  · obtain ⟨turn, later, p, claim, rfl⟩ := claimed
    have masked := (turnNets_sound claim).1
    exact .inr ⟨p, mem_nets_iff.mpr ⟨turn, later, claim⟩, masked, netRoute_dst inp turn.2 masked⟩

theorem table_of_dst (dst : r.dst = prefixKey q) : r.route.table = "" := congrArg DstKey.table dst

theorem once_planTunnels (inp : DesiredInput) :
    ((planTunnels inp).routes.map ManagedRoute.dst).Nodup :=
  (planned_planTunnels inp).once

theorem IsPin.dst {r : ManagedRoute} (pin : IsPin inp r) :
    ∃ a : Addr, r.dst = prefixKey (Prefix.host a) := by
  obtain ⟨t, _, a, _, gw, iface, _, rfl⟩ := pin
  exact ⟨a, pinRoute_dst ..⟩

section

variable (outside : OutsideNets (planTunnels inp) routes) (net : p ∈ (planTunnels inp).nets)
  (holds : p.contains x)

include outside net holds

theorem mem_place_inside (member : r ∈ (planTunnels inp).routes) (found : Matches r x q) :
    r ∈ (planTunnels inp).place routes := by
  refine mem_place (once_planTunnels inp) member fun taken => ?_
  obtain ⟨e, held, same⟩ := mem_map.mp taken
  have main : e.route.table = "" := (congrArg DstKey.table same).trans found.main
  obtain ⟨q', masked, dst, apart⟩ := outside e held main
  have equal : q' = q := by
    have read := read_of_dst masked (same.symm.trans dst)
    exact Option.some.inj (read.symm.trans found.read)
  subst equal
  rcases planRoute_cases member with pin | ⟨p', net', masked', dst'⟩
  · obtain ⟨a, host⟩ := pin.dst
    have shape : q' = Prefix.host a := prefixKey_inj masked
      (Prefix.isMasked_host a) (dst.symm.trans (same.trans host))
    subst shape
    have alone := Prefix.eq_of_host_contains found.holds
    refine apart p net ?_
    refine Prefix.covers_of_shared ?_ holds found.holds
    have width := Addr.bitLen_eq (Prefix.family_of_contains holds)
    have host : (Prefix.host a).bits = x.bitLen := by
      rw [alone]
      simp [Prefix.host]
    rw [host, width]
    exact p.bitsLe
  · have shape : q' = p' := prefixKey_inj masked masked' (dst.symm.trans (same.trans dst'))
    subst shape
    exact apart q' net' q'.covers_refl

/-- **Inside the plan's networks the plan decides.** -/
theorem longestMatch_place_iff :
    LongestMatch ((planTunnels inp).place routes) x r ↔
      LongestMatch (planTunnels inp).routes x r := by
  obtain ⟨masked, n, route, _, dst⟩ := exists_route_of_net net
  have here : Matches n x p := ⟨table_of_dst dst, read_of_dst masked dst, holds⟩
  -- any other route that holds the address is shorter than the network
  have shorter : ∀ e ∈ routes, ∀ q, Matches e x q → q.bits < p.bits := by
    intro e held q found
    obtain ⟨q', maskedQ, dstQ, apart⟩ := outside e held found.main
    obtain rfl : q' = q := Option.some.inj ((read_of_dst maskedQ dstQ).symm.trans found.read)
    by_contra long
    exact apart p net (Prefix.covers_of_shared (not_lt.mp long) holds found.holds)
  constructor
  · rintro ⟨member, q, found, longest⟩
    have reach := longest n (mem_place_inside outside net holds route here) p here
    rcases mem_of_mem_place member with held | ⟨own, _⟩
    · exact absurd reach (not_le.mpr (shorter r held q found))
    · refine ⟨own, q, found, fun other among q' fit => ?_⟩
      exact longest other (mem_place_inside outside net holds among fit) q' fit
  · rintro ⟨own, q, found, longest⟩
    refine ⟨mem_place_inside outside net holds own found, q, found, ?_⟩
    intro other among q' fit
    rcases mem_of_mem_place among with held | ⟨planned, _⟩
    · exact (shorter other held q' fit).le.trans (longest n route p here)
    · exact longest other planned q' fit

end

end Plan

/-! ### Outside the plan's networks -/

section Outside

variable {inp : DesiredInput} {routes : List ManagedRoute} {r : ManagedRoute}
  {x : Addr} {p q : Prefix}

/-- The next hop of what leaves by the physical gateway. -/
def autoHop (inp : DesiredInput) (fam : Family) : Option (String × String × Bool) :=
  match resolveGateway "auto" fam inp with
  | .error _ => none
  | .ok (gw, iface) => some (gw.text, iface, false)

/-- Every main-table route leaves by the physical gateway of its family. -/
def ByAuto (inp : DesiredInput) (routes : List ManagedRoute) : Prop :=
  ∀ e ∈ routes, ∀ x q, Matches e x q → autoHop inp (famOf x) = some e.hop

theorem IsPin.hop (pin : IsPin inp r) (found : Matches r x q) :
    autoHop inp (famOf x) = some r.hop := by
  obtain ⟨t, _, a, _, gw, iface, resolved, rfl⟩ := pin
  have host := read_of_dst (Prefix.isMasked_host a) (pinRoute_dst inp t a gw iface)
  obtain rfl : Prefix.host a = q := Option.some.inj (host.symm.trans found.read)
  have family : famOf x = famOf a := by
    rw [famOf_eq_of_contains found.holds]
    exact famOf_eq_iff.mpr (by simp [Prefix.host])
  rw [autoHop, family, resolved]
  rfl

theorem Matches.of_key {other : ManagedRoute} (found : Matches r x p)
    (same : other.key = r.key) : Matches other x p := by
  have dst : other.dst = r.dst := ManagedRoute.dst_eq_of_key_eq same
  refine ⟨(congrArg DstKey.table dst).trans found.main, ?_, found.holds⟩
  rw [show other.route.dstCIDR = r.route.dstCIDR from congrArg DstKey.dst dst]
  exact found.read

/-- **Outside the plan's networks what is routed leaves by the physical
gateway.** -/
theorem leadsTo_place_outside (auto : ByAuto inp routes)
    (outside : ¬ Covered (planTunnels inp).nets x)
    {hop : String × String × Bool} :
    LeadsTo ((planTunnels inp).place routes) x hop ↔ autoHop inp (famOf x) = some hop ∧
        ((∃ e ∈ routes, ∃ q, Matches e x q) ∨
          ∃ e ∈ (planTunnels inp).routes, ∃ q, Matches e x q) := by
  have leaves : ∀ e ∈ (planTunnels inp).place routes, ∀ q, Matches e x q →
      autoHop inp (famOf x) = some e.hop := by
    intro e member q found
    rcases mem_of_mem_place member with held | ⟨planned, _⟩
    · exact auto e held x q found
    · rcases planRoute_cases planned with pin | ⟨p, net, masked, dst⟩
      · exact pin.hop found
      · obtain rfl : p = q := Option.some.inj ((read_of_dst masked dst).symm.trans found.read)
        exact (outside ⟨p, net, found.holds⟩).elim
  constructor
  · rintro ⟨e, ⟨member, q, found, _⟩, rfl⟩
    refine ⟨leaves e member q found, ?_⟩
    rcases mem_of_mem_place member with held | ⟨planned, _⟩
    · exact .inl ⟨e, held, q, found⟩
    · exact .inr ⟨e, planned, q, found⟩
  · rintro ⟨leads, present⟩
    obtain ⟨e, member, q, found⟩ : ∃ e ∈ (planTunnels inp).place routes, ∃ q, Matches e x q := by
      rcases present with ⟨e, held, q, found⟩ | ⟨e, planned, q, found⟩
      · exact ⟨e, mem_place_of_mem held, q, found⟩
      · by_cases taken : e.dst ∈ routes.map ManagedRoute.dst
        · obtain ⟨o, held, same⟩ := mem_map.mp taken
          refine ⟨o, mem_place_of_mem held, q, ?_, ?_, found.holds⟩
          · exact (congrArg DstKey.table same).trans found.main
          · rw [show o.route.dstCIDR = e.route.dstCIDR from
              congrArg DstKey.dst same]
            exact found.read
        · exact ⟨e, mem_place (once_planTunnels inp) planned taken, q, found⟩
    obtain ⟨best, longest⟩ := exists_longestMatch member found
    obtain ⟨q', fits, _⟩ := longest.longest
    refine ⟨best, longest, ?_⟩
    exact Option.some.inj ((leaves best longest.member q' fits).symm.trans leads)

end Outside

/-! ### Exclude profiles -/

section Excluded

variable {inp : DesiredInput} {tunnels : TunnelPlan} {r : ManagedRoute}

/-- Where an exclude profile's route comes from. -/
structure FromExclude (inp : DesiredInput) (tunnels : TunnelPlan)
    (r : ManagedRoute) (p : Profile) (fam : Family) (pfx : Prefix) : Prop where
  profile : p ∈ inp.profiles
  excludes : p.excludes
  merged : pfx ∈ aggregate (excludePrefixes inp tunnels p fam)
  route : ∃ gw iface, resolveGateway p.gateway fam inp = .ok (gw, iface) ∧
    r = excludeRoute inp p fam gw iface pfx

variable {p : Profile}

theorem mem_profileRoutes : r ∈ profileRoutes inp tunnels p ↔
      p.excludes ∧ ∃ fam pfx gw iface, resolveGateway p.gateway fam inp = .ok (gw, iface) ∧
        pfx ∈ aggregate (excludePrefixes inp tunnels p fam) ∧
        r = excludeRoute inp p fam gw iface pfx := by
  unfold profileRoutes
  split
  case isFalse off => simp [off]
  case isTrue on =>
    simp only [on, true_and, mem_flatMap]
    constructor
    · rintro ⟨fam, _, member⟩
      unfold excludeRoutes at member
      split at member
      case h_1 => simp at member
      rename_i gw iface resolved
      obtain ⟨pfx, merged, rfl⟩ := mem_map.mp member
      exact ⟨fam, pfx, gw, iface, resolved, merged, rfl⟩
    · rintro ⟨fam, pfx, gw, iface, resolved, merged, rfl⟩
      refine ⟨fam, by cases fam <;> simp [families], ?_⟩
      rw [excludeRoutes, resolved]
      exact mem_map_of_mem merged

theorem fromExclude_of_mem (member : r ∈ excludedRoutes inp tunnels) :
    ∃ p fam pfx, FromExclude inp tunnels r p fam pfx := by
  rcases mem_foldl_addNew member with held | listed
  · simp at held
  · obtain ⟨p, profile, route⟩ := mem_flatMap.mp listed
    obtain ⟨excludes, fam, pfx, gw, iface, resolved, merged, same⟩ := mem_profileRoutes.mp route
    exact ⟨p, fam, pfx, mem_sortProfiles.mp profile, excludes, merged, gw, iface, resolved, same⟩

variable {pfx : Prefix} {fam : Family}

theorem mem_excludePrefixes :
    pfx ∈ excludePrefixes inp tunnels p fam ↔ pfx ∈ profilePrefixes p inp fam ∧
        (∀ n ∈ tunnels.nets, ¬ n.covers pfx) ∧
        ∀ n ∈ inp.tailscale, ¬ n.covers pfx := by
  rw [excludePrefixes, mem_outsideTunnels, mem_outsideTunnels, and_assoc]

theorem aggregate_outside (merged : pfx ∈ aggregate (excludePrefixes inp tunnels p fam)) :
    famOf pfx.addr = fam ∧ ∀ n ∈ tunnels.nets, ¬ n.covers pfx := by
  obtain ⟨e, listed, inside⟩ := exists_covered_by_aggregate merged
  obtain ⟨own, apart, _⟩ := mem_excludePrefixes.mp listed
  refine ⟨?_, fun n net covers => apart n net (Prefix.covers_trans covers inside)⟩
  rw [← famOf_eq_of_covers inside]
  exact family_profilePrefixes own

theorem excludeRoute_dst {gw : Addr} {iface : String} (masked : pfx.IsMasked)
    (family : famOf pfx.addr = fam) :
    (excludeRoute inp p fam gw iface pfx).dst = prefixKey pfx := by
  rw [prefixKey_of_isMasked masked, family]
  rfl

theorem FromExclude.dst (from' : FromExclude inp tunnels r p fam pfx) : r.dst = prefixKey pfx := by
  obtain ⟨gw, iface, _, rfl⟩ := from'.route
  exact excludeRoute_dst (isMasked_aggregate from'.merged) (aggregate_outside from'.merged).1

theorem outsideNets_excludedRoutes : OutsideNets tunnels (excludedRoutes inp tunnels) := by
  intro e member _
  obtain ⟨p, fam, pfx, from'⟩ := fromExclude_of_mem member
  exact ⟨pfx, isMasked_aggregate from'.merged, from'.dst, (aggregate_outside from'.merged).2⟩

end Excluded

theorem isTunnelRoute_planTunnels {inp : DesiredInput} {r : ManagedRoute}
    (member : r ∈ (planTunnels inp).routes) : isTunnelRoute r := by
  have tag : ∃ t : TunnelInput, r.profileID = tunnelProfilePrefix ++ t.name := by
    rcases mem_planTunnels_routes.mp member with pin | ⟨turn, _, p, _, rfl⟩
    · obtain ⟨t, _, a, _, gw, iface, _, rfl⟩ := (pinned_pinned inp).pins r pin
      exact ⟨t, rfl⟩
    · exact ⟨turn.2, netRoute_profileID ..⟩
  obtain ⟨t, same⟩ := tag
  simp [isTunnelRoute, hasPrefix, same]

/-- **Tunnels win over exclude profiles.**  For an address inside a route of
the plan other than a pin, the longest match of a build that succeeds exists
and is a route of the plan, tagged as a tunnel's. -/
theorem tunnels_win_over_excludes {inp : DesiredInput}
    {routes : List ManagedRoute} {rules : List ManagedRule}
    (built : buildDesired inp = .ok (routes, rules)) {r : ManagedRoute}
    (planned : r ∈ (planTunnels inp).routes) (into : r.route.gateway = "")
    {p : Prefix} (read : parsePrefix r.route.dstCIDR = some p) {x : Addr}
    (holds : p.contains x) :
    (∃ best, LongestMatch routes x best) ∧ ∀ best, LongestMatch routes x best →
        best ∈ (planTunnels inp).routes ∧ isTunnelRoute best := by
  obtain ⟨turn, member, q, claimed, rfl⟩ := exists_turn_of_no_gateway planned into
  rw [netRoute_dstCIDR, parsePrefix_text] at read
  obtain rfl := Option.some.inj read
  have net : q ∈ (planTunnels inp).nets := mem_nets_iff.mpr ⟨turn, member, claimed⟩
  have masked := (turnNets_sound claimed).1
  have dst := netRoute_dst inp turn.2 masked
  have here : Matches (netRoute inp turn.2 q) x q :=
    ⟨table_of_dst dst, read_of_dst masked dst, holds⟩
  have outside : OutsideNets (planTunnels inp)
      (excludedRoutes inp (planTunnels inp)) := outsideNets_excludedRoutes
  have placed : ∀ best, LongestMatch routes x best ↔
      LongestMatch (planTunnels inp).routes x best := by
    intro best
    rw [← longestMatch_place_iff outside net holds]
    exact longestMatch_congr fun _ main => mem_main_buildDesired built main
  constructor
  · obtain ⟨best, longest⟩ := exists_longestMatch planned here
    exact ⟨best, (placed best).mpr longest⟩
  · intro best longest
    have own := ((placed best).mp longest).member
    exact ⟨own, isTunnelRoute_planTunnels own⟩

/-- An exclude profile around a network a tunnel that is up lists. -/
def excludeAround : DesiredInput :=
  { tailscale := [], tailscaleTable := "", tailscaleExitNode := false
    platform := "linux", now := GoTime.Time.zero
    profiles :=
      [{ id := "office", rules := [{ type := .cidr, value := "10.0.0.0/8" }] }]
    gatewayV4 := some (.v4 0xc0a80101#32), physIfaceV4 := "eth0"
    tunnels := [{ name := "work", iface := "tun0", routes := ["10.1.0.0/16"] }] }

/-- An address of the tunnel's network takes the tunnel. -/
theorem excludeAround_takes_tunnel :
    ∃ routes rules, buildDesired excludeAround = .ok (routes, rules) ∧
      (∃ best, LongestMatch routes (.v4 0x0a010203#32) best) ∧
      ∀ best, LongestMatch routes (.v4 0x0a010203#32) best →
        best ∈ (planTunnels excludeAround).routes ∧ isTunnelRoute best := by
  have succeeds : (buildDesired excludeAround).toBool = true := by
    decide +kernel
  cases built : buildDesired excludeAround with
  | error err =>
    rw [built] at succeeds
    cases succeeds
  | ok sets =>
    obtain ⟨routes, rules⟩ := sets
    have found : ∃ r ∈ (planTunnels excludeAround).routes,
        r.route.gateway = "" ∧ r.route.dstCIDR = "10.1.0.0/16" := by
      decide +kernel
    obtain ⟨r, planned, into, text⟩ := found
    have within : ∃ p, parsePrefix "10.1.0.0/16" = some p ∧ p.contains (.v4 0x0a010203#32) :=
      ⟨⟨.v4 0x0a010000#32, 16, by decide, by decide⟩, by decide +kernel, by decide +kernel⟩
    obtain ⟨p, read, holds⟩ := within
    rw [← text] at read
    exact ⟨routes, rules, rfl, tunnels_win_over_excludes built planned into read holds⟩

def DesiredInput.withoutTunnels (inp : DesiredInput) : DesiredInput := { inp with tunnels := [] }

section Excluded

variable {inp : DesiredInput} {tunnels : TunnelPlan} {x : Addr}

/-- Some exclude profile with a gateway for the address's family routes it. -/
def Bypassed (inp : DesiredInput) (tunnels : TunnelPlan) (x : Addr) : Prop :=
  ∃ p ∈ inp.profiles, p.excludes ∧ (∃ hop, resolveGateway p.gateway (famOf x) inp = .ok hop) ∧
    Covered (excludePrefixes inp tunnels p (famOf x)) x

theorem FromExclude.read {r : ManagedRoute} {p : Profile} {fam : Family}
    {pfx : Prefix} (made : FromExclude inp tunnels r p fam pfx) :
    parsePrefix r.route.dstCIDR = some pfx :=
  read_of_dst (isMasked_aggregate made.merged) made.dst

theorem exists_match_excluded_iff : (∃ e ∈ excludedRoutes inp tunnels, ∃ q, Matches e x q) ↔
      Bypassed inp tunnels x := by
  constructor
  · rintro ⟨e, member, q, found⟩
    obtain ⟨p, fam, pfx, made⟩ := fromExclude_of_mem member
    obtain rfl : pfx = q := Option.some.inj (made.read.symm.trans found.read)
    obtain rfl : famOf x = fam := by
      rw [famOf_eq_of_contains found.holds, (aggregate_outside made.merged).1]
    obtain ⟨gw, iface, resolved, _⟩ := made.route
    refine ⟨p, made.profile, made.excludes, ⟨_, resolved⟩, ?_⟩
    exact (covered_aggregate _ x).mp ⟨pfx, made.merged, found.holds⟩
  · rintro ⟨p, profile, excludes, ⟨⟨gw, iface⟩, resolved⟩, covered⟩
    obtain ⟨pfx, merged, holds⟩ := (covered_aggregate _ x).mpr covered
    have listed : excludeRoute inp p (famOf x) gw iface pfx ∈
        (sortProfiles inp.profiles).flatMap (profileRoutes inp tunnels) := by
      refine mem_flatMap.mpr ⟨p, mem_sortProfiles.mpr profile, ?_⟩
      exact mem_profileRoutes.mpr ⟨excludes, famOf x, pfx, gw, iface, resolved, merged, rfl⟩
    have dst : (excludeRoute inp p (famOf x) gw iface pfx).dst = prefixKey pfx :=
      excludeRoute_dst (isMasked_aggregate merged) (aggregate_outside merged).1
    obtain ⟨e, member, same⟩ : ∃ e ∈ excludedRoutes inp tunnels,
        e.key = (excludeRoute inp p (famOf x) gw iface pfx).key :=
      exists_foldl_addNew listed
    refine ⟨e, member, pfx, Matches.of_key ?_ same⟩
    exact ⟨table_of_dst dst, read_of_dst (isMasked_aggregate merged) dst, holds⟩

theorem byAuto_excludedRoutes (auto : ∀ p ∈ inp.profiles, p.excludes →
      p.gateway = "" ∨ p.gateway = "auto") :
    ByAuto inp (excludedRoutes inp tunnels) := by
  intro e member x q found
  obtain ⟨p, fam, pfx, made⟩ := fromExclude_of_mem member
  obtain rfl : pfx = q := Option.some.inj (made.read.symm.trans found.read)
  obtain rfl : famOf x = fam := by
    rw [famOf_eq_of_contains found.holds, (aggregate_outside made.merged).1]
  obtain ⟨gw, iface, resolved, rfl⟩ := made.route
  have same : resolveGateway "auto" (famOf x) inp = resolveGateway p.gateway (famOf x) inp := by
    have either := auto p made.profile made.excludes
    simp [resolveGateway, either]
  rw [autoHop, same, resolved]
  rfl

end Excluded

section TunnelsOnly

variable {inp : DesiredInput} {bareRoutes : List ManagedRoute}
  {bareRules : List ManagedRule} {x : Addr}

theorem mem_main_bare (bare : buildDesired inp.withoutTunnels = .ok (bareRoutes, bareRules))
    {r : ManagedRoute} (main : r.route.table = "") :
    r ∈ bareRoutes ↔ r ∈ excludedRoutes inp.withoutTunnels {} :=
  mem_main_buildDesired bare main

theorem mem_kept_beside {tp : TunnelPlan} {r : ManagedRoute}
    (member : r ∈ (bareRoutes.filter fun o => ¬ tp.yields o).foldl addRoute []) :
    r ∈ bareRoutes ∧ ¬ tp.yields r := by
  rcases mem_foldl_addNew member with held | listed
  · simp at held
  · obtain ⟨among, stays⟩ := mem_filter.mp listed
    exact ⟨among, of_decide_eq_true stays⟩

theorem apart_of_not_yields {tp : TunnelPlan} {r : ManagedRoute} {q : Prefix}
    (main : r.route.table = "") (read : parsePrefix r.route.dstCIDR = some q)
    (stays : ¬ tp.yields r) : ∀ n ∈ tp.nets, ¬ n.covers q := by
  intro n net covers
  refine stays ?_
  have gone : outsideTunnels [q] tp.nets = [] := by
    refine eq_nil_iff_forall_not_mem.mpr fun p member => ?_
    obtain ⟨listed, apart⟩ := mem_outsideTunnels.mp member
    obtain rfl := mem_singleton.mp listed
    exact apart n net covers
  simp [TunnelPlan.yields, main, read, gone]

theorem exists_match_beside_iff
    (bare : buildDesired inp.withoutTunnels = .ok (bareRoutes, bareRules))
    (outside : ¬ Covered (planTunnels inp).nets x) :
    (∃ e ∈ (bareRoutes.filter fun o => ¬ (planTunnels inp).yields o).foldl
        addRoute [], ∃ q, Matches e x q) ↔
      ∃ e ∈ excludedRoutes inp (planTunnels inp), ∃ q, Matches e x q := by
  have same : Bypassed inp.withoutTunnels {} x ↔ Bypassed inp (planTunnels inp) x := by
    refine exists_congr fun p => and_congr Iff.rfl (and_congr Iff.rfl (and_congr Iff.rfl ?_))
    refine covered_congr_at fun e holds => ?_
    rw [mem_excludePrefixes, mem_excludePrefixes]
    refine and_congr Iff.rfl (and_congr ?_ Iff.rfl)
    refine ⟨fun _ n net covers => outside
      ⟨n, net, Prefix.contains_of_covers covers holds⟩, fun _ => by simp⟩
  rw [exists_match_excluded_iff, ← same, ← exists_match_excluded_iff]
  constructor
  · rintro ⟨e, member, q, found⟩
    exact ⟨e, (mem_main_bare bare found.main).mp (mem_kept_beside member).1, q, found⟩
  · rintro ⟨e, member, q, found⟩
    have among := (mem_main_bare bare found.main).mpr member
    have stays : ¬ (planTunnels inp).yields e := by
      intro yields
      simp only [TunnelPlan.yields, found.main, found.read, true_and,
        Option.any_some, decide_eq_true_eq] at yields
      have kept : q ∈ outsideTunnels [q] (planTunnels inp).nets :=
        mem_outsideTunnels.mpr ⟨mem_singleton_self q, fun n net covers =>
          outside ⟨n, net, Prefix.contains_of_covers covers found.holds⟩⟩
      rw [yields] at kept
      simp at kept
    have listed : e ∈ bareRoutes.filter fun o =>
        ¬ (planTunnels inp).yields o :=
      mem_filter.mpr ⟨among, decide_eq_true stays⟩
    obtain ⟨o, kept, key⟩ : ∃ o ∈ (bareRoutes.filter fun o =>
        ¬ (planTunnels inp).yields o).foldl addRoute [], o.key = e.key :=
      exists_foldl_addNew listed
    exact ⟨o, kept, q, found.of_key key⟩

/-- **A tunnel-only apply decides like a full one.**  With exclude profiles of
gateway auto, and whether or not there is a Tailscale, placing the plan beside
the set built without tunnels forwards every address, and selects it by
include rules, as the set built with the tunnels does. -/
theorem tunnelsOnly_decides_like_build (auto : ∀ p ∈ inp.profiles, p.excludes →
      p.gateway = "" ∨ p.gateway = "auto")
    {routes : List ManagedRoute} {rules : List ManagedRule}
    (built : buildDesired inp = .ok (routes, rules))
    (bare : buildDesired inp.withoutTunnels = .ok (bareRoutes, bareRules)) :
    (∀ x hop, LeadsTo ((planTunnels inp).beside bareRoutes) x hop ↔ LeadsTo routes x hop) ∧
    ∀ x fam table target, Selects ((planTunnels inp).rulesBeside bareRules) fam table target x ↔
        Selects rules fam table target x := by
  constructor
  · intro x hop
    have full : LeadsTo routes x hop ↔ LeadsTo ((planTunnels inp).place
        (excludedRoutes inp (planTunnels inp))) x hop :=
      exists_congr fun r => and_congr (longestMatch_congr fun _ main =>
        mem_main_buildDesired built main) Iff.rfl
    rw [full]
    unfold TunnelPlan.beside
    by_cases inside : Covered (planTunnels inp).nets x
    · obtain ⟨p, net, holds⟩ := inside
      have apart : OutsideNets (planTunnels inp)
          ((bareRoutes.filter fun o => ¬ (planTunnels inp).yields o).foldl addRoute []) := by
        intro e member main
        obtain ⟨among, stays⟩ := mem_kept_beside member
        obtain ⟨_, _, pfx, made⟩ := fromExclude_of_mem ((mem_main_bare bare main).mp among)
        exact ⟨pfx, isMasked_aggregate made.merged, made.dst,
          apart_of_not_yields main made.read stays⟩
      refine exists_congr fun r => and_congr ?_ Iff.rfl
      rw [longestMatch_place_iff apart net holds,
        longestMatch_place_iff outsideNets_excludedRoutes net holds]
    · have bareAuto : ByAuto inp ((bareRoutes.filter fun o => ¬ (planTunnels inp).yields o).foldl
            addRoute []) := by
        intro e member y q found
        have among := (mem_main_bare bare found.main).mp (mem_kept_beside member).1
        have leaves : ByAuto inp.withoutTunnels (excludedRoutes inp.withoutTunnels {}) :=
          byAuto_excludedRoutes auto
        exact leaves e among y q found
      rw [leadsTo_place_outside bareAuto inside,
        leadsTo_place_outside (byAuto_excludedRoutes auto) inside,
        exists_match_beside_iff bare inside]
  · intro x fam table target
    rw [selects_rulesBeside, selects_buildDesired bare,
      selects_buildDesired built, selects_includedRules,
      selects_includedRules]
    have same : ∀ p f, Covered (includePrefixes inp (planTunnels inp) p f) x ↔
        Covered (includePrefixes inp.withoutTunnels (planTunnels inp.withoutTunnels) p f) x ∧
          ¬ Covered (planTunnels inp).nets x := by
      intro p f
      rw [covered_includePrefixes, covered_includePrefixes]
      constructor
      · rintro ⟨covered, outside, apart⟩
        exact ⟨⟨covered, covered_nil x, apart⟩, outside⟩
      · rintro ⟨⟨covered, _, apart⟩, outside⟩
        exact ⟨covered, outside, apart⟩
    constructor
    · rintro ⟨⟨f, family, steers, p, profile, on, covered⟩, outside⟩
      exact ⟨f, family, steers, p, profile, on, (same p f).mpr ⟨covered, outside⟩⟩
    · rintro ⟨f, family, steers, p, profile, on, covered⟩
      obtain ⟨whole, outside⟩ := (same p f).mp covered
      exact ⟨⟨f, family, steers, p, profile, on, whole⟩, outside⟩

end TunnelsOnly

/-- An exclude and an include profile around a network a tunnel lists. -/
def profilesAround : DesiredInput :=
  { tailscale := [], tailscaleTable := "", tailscaleExitNode := false
    platform := "linux", now := GoTime.Time.zero
    profiles :=
      [{ id := "office", gateway := "auto"
         rules := [{ type := .cidr, value := "10.0.0.0/8" }] },
       { id := "media", mode := .modeInclude
         rules := [{ type := .cidr, value := "10.0.0.0/12" }] }]
    gatewayV4 := some (.v4 0xc0a80101#32), physIfaceV4 := "eth0"
    vpnIfaceV4 := "wg0", policyRouting := true
    tunnels := [{ name := "work", iface := "tun0", routes := ["10.1.0.0/16"] }] }

/-- The two ways of placing its tunnel decide alike. -/
theorem profilesAround_decides_alike : ∃ routes rules bareRoutes bareRules,
      buildDesired profilesAround = .ok (routes, rules) ∧
      buildDesired profilesAround.withoutTunnels = .ok (bareRoutes, bareRules) ∧
      (∀ x hop, LeadsTo ((planTunnels profilesAround).beside bareRoutes) x hop ↔
          LeadsTo routes x hop) ∧
      ∀ x fam table target, Selects ((planTunnels profilesAround).rulesBeside bareRules) fam table
          target x ↔ Selects rules fam table target x := by
  have auto : ∀ p ∈ profilesAround.profiles, p.excludes → p.gateway = "" ∨ p.gateway = "auto" := by
    decide +kernel
  have succeeds : (buildDesired profilesAround).toBool = true := by
    decide +kernel
  have bareSucceeds : (buildDesired profilesAround.withoutTunnels).toBool = true := by
    decide +kernel
  cases built : buildDesired profilesAround with
  | error err =>
    rw [built] at succeeds
    cases succeeds
  | ok sets =>
    cases bare : buildDesired profilesAround.withoutTunnels with
    | error err =>
      rw [bare] at bareSucceeds
      cases bareSucceeds
    | ok bareSets =>
      exact ⟨sets.1, sets.2, bareSets.1, bareSets.2, rfl, rfl,
        tunnelsOnly_decides_like_build auto built bare⟩

end RiftRoute
