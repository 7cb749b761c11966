/-
Module: RiftRoute.Routing.TunnelsSpec
Purpose: What a tunnel plan promises: distinct destinations, what stays out of
  it, and where the addresses of a listed route go at a tunnel's turn.
Trusted boundary: none
-/
import RiftRoute.Routing.TunnelTurns

namespace RiftRoute

open List

open Netip

/-! ### Destinations -/

section Destinations

variable {inp : DesiredInput} {ts : List TunnelInput} {s : Planning}
  {t : TunnelInput} {v : String} {pfx p : Prefix} {fam : Family}

theorem exists_prefix_of_route {r : ManagedRoute} (member : r ∈ (planTunnels inp).routes) :
    ∃ p : Prefix, p.IsMasked ∧ r.dst = prefixKey p := by
  rcases mem_planTunnels_routes.mp member with pin | claimed
  · obtain ⟨t, _, a, _, gw, iface, _, rfl⟩ := (pinned_pinned inp).pins r pin
    exact ⟨Prefix.host a, Prefix.isMasked_host a, pinRoute_dst ..⟩
  · obtain ⟨turn, _, p, claim, rfl⟩ := claimed
    exact ⟨p, (turnNets_sound claim).1, netRoute_dst inp turn.2 (turnNets_sound claim).1⟩

theorem nodup_planTunnels (inp : DesiredInput) :
    ((planTunnels inp).routes.map fun r => r.route.dstCIDR).Nodup := by
  have once : ((planTunnels inp).routes.map ManagedRoute.dst).Nodup :=
    (planned_planTunnels inp).once
  rw [List.Nodup, pairwise_map] at once ⊢
  refine once.imp_of_mem fun {r q} first second differ same => differ ?_
  obtain ⟨p, masked, dst⟩ := exists_prefix_of_route first
  obtain ⟨p', masked', dst'⟩ := exists_prefix_of_route second
  have text : r.route.dstCIDR = p.text := by
    rw [prefixKey_of_isMasked masked] at dst
    exact congrArg DstKey.dst dst
  have text' : q.route.dstCIDR = p'.text := by
    rw [prefixKey_of_isMasked masked'] at dst'
    exact congrArg DstKey.dst dst'
  have equal : p = p' := Prefix.text_inj (by rw [← text, ← text', same])
  rw [dst, dst', equal]

theorem mem_othersInside {pfx : Prefix} {name : String}
    {ts : List TunnelInput} {occupied : List (String × String)}
    {o : RouteInside} :
    o ∈ othersInside pfx name ts occupied ↔
      o ∈ occupiedInside pfx occupied ∨ o ∈ listedInside pfx name ts := by
  rw [othersInside, mem_insertionSort, mem_append]

theorem isInside_of_covers {pfx q : Prefix} (inside : pfx.covers q)
    (longer : pfx.bits < q.bits) : isInside pfx q := by
  have family := is4_eq_of_family (Prefix.family_of_covers inside)
  simp [isInside, family, longer, (Prefix.covers_iff.mp inside).2]

/-- A part inside a destination someone else routes comes from a listed network
that is more specific than the destination: a less specific one is carved around
it. -/
theorem longer_of_part {o : Prefix} (masked : pfx.IsMasked) (isMasked : o.IsMasked)
    (occupied : inp.isOccupied o) (member : p ∈ (planPrefix inp ts s t v pfx fam).parts)
    (inside : o.covers p) : o.bits < pfx.bits := by
  obtain ⟨free, shape⟩ := mem_parts_planPrefix member
  have around := (parts_planPrefix masked member).2.1
  by_contra shorter
  have holds : pfx.covers o := Prefix.covers_of_shared (Nat.not_lt.mp shorter)
    (Prefix.covers_iff.mp around).2 (Prefix.covers_iff.mp inside).2
  obtain ⟨via, found⟩ := Option.isSome_iff_exists.mp occupied
  rcases (Nat.not_lt.mp shorter).eq_or_lt with same | longer
  · have unoccupied := unoccupied_of_leftOut free
    rw [show pfx.masked = pfx from masked,
      Prefix.eq_of_covers_of_bits masked isMasked same holds, found] at unoccupied
    cases unoccupied
  rcases shape with ⟨_, rfl⟩ | ⟨_, carved⟩
  · exact absurd (Prefix.covers_iff.mp inside).1 (by omega)
  · obtain ⟨essential, _, carved⟩ := mem_carveListed carved
    have listed : (o.text, via) ∈ inp.occupied := by
      obtain ⟨before, after, split, _⟩ := lookup_eq_some_iff.mp found
      rw [split]
      exact mem_append_right _ mem_cons_self
    refine (mem_carve.mp carved).2.1 { net := o, via := via } ?_ inside
    refine mem_othersInside.mpr (.inl (mem_filterMap.mpr ⟨_, listed, ?_⟩))
    simp [parsePrefix_text, isInside_of_covers holds longer, show o.masked = o from isMasked]

end Destinations

variable (inp : DesiredInput)

/-- No two routes of the plan have the same destination, and no route into a
tunnel or refused for one has exactly a destination someone else routes. -/
def NoCollision : Prop :=
  ((planTunnels inp).routes.map fun r => r.route.dstCIDR).Nodup ∧
    ∀ r ∈ (planTunnels inp).routes, r.route.gateway = "" →
      inp.occupied.lookup r.route.dstCIDR = none

/-- No destination someone else routes is filled by more specific networks that
one tunnel, up or set to block, lists. -/
def Unfilled : Prop :=
  ∀ t ∈ inp.tunnels, t.installs → ∀ o : Prefix, inp.isOccupied o →
    ∃ x, o.contains x ∧ ∀ v ∈ t.routes, ∀ pfx fam, entryToPrefix v = some (pfx, fam) →
      o.bits < pfx.bits → ¬ pfx.contains x

/-- A tunnel that is up lists the two halves of a network another VPN
routes. -/
def mergedHalves : DesiredInput :=
  { tailscale := [], tailscaleTable := "", tailscaleExitNode := false
    platform := "linux", now := GoTime.Time.zero
    tunnels :=
      [{ name := "work", iface := "tun0"
         routes := ["10.0.0.0/9", "10.128.0.0/9"] }]
    occupied := [("10.0.0.0/8", "utun3")] }

/-- Three quarters of the other VPN's network are listed. -/
def unfilledHalves : DesiredInput :=
  { mergedHalves with
    tunnels := [{ name := "work", iface := "tun0", routes := ["10.0.0.0/9", "10.128.0.0/10"] }] }

section Holes

variable {keep : List KeptOut} {others : List RouteInside}

/-- What is kept out for an address holds the address. -/
structure KeptOut.Sound (pfx : Prefix) (k : KeptOut) : Prop where
  inside : pfx.contains k.addr
  net : ∀ net, k.net = some net → net.contains k.addr

theorem holeFor_cases (k : KeptOut) (others : List RouteInside) :
    k.net = some (holeFor k others).1 ∨ k.net = none ∧ ((holeFor k others).1 = Prefix.host k.addr ∨
        ∃ o ∈ others, (holeFor k others).1 = o.net ∧ o.net.contains k.addr) := by
  unfold holeFor
  split
  case h_1 net found => exact .inl found
  case h_2 alone =>
    refine .inr ⟨alone, ?_⟩
    dsimp only
    split
    case h_1 => exact .inl rfl
    case h_2 o widened =>
      have holder : o ∈ others ∧ o.net.contains k.addr := by
        refine foldl_invariant (fun found : Option RouteInside =>
          ∀ o, found = some o → o ∈ others ∧ o.net.contains k.addr)
          (fun found other member start o same => ?_) (by simp) o widened
        split at same
        case isTrue => exact start o same
        case isFalse taken =>
          obtain rfl : other = o := Option.some.inj same
          exact ⟨member, not_not.mp fun missing => taken (.inl missing)⟩
      exact .inr ⟨o, holder.1, rfl, holder.2⟩

theorem holeFor_contains {pfx : Prefix} {k : KeptOut} (sound : k.Sound pfx) :
    (holeFor k others).1.contains k.addr := by
  rcases holeFor_cases k others with
    net | ⟨_, alone | ⟨o, _, same, holds⟩⟩
  · exact sound.net _ net
  · rw [alone]
    exact Prefix.contains_host (Prefix.contains_iff.mp sound.inside).1
  · rwa [same]

theorem keys_extend (reasons : Reasons) (hole : Prefix) (whys : List String) (h : Prefix) :
    h ∈ (reasons.extend hole whys).map Prod.fst ↔ h ∈ reasons.map Prod.fst ∨ h = hole := by
  unfold Reasons.extend
  split
  case isTrue present =>
    have keys : (reasons.map fun entry =>
        if entry.1 = hole then (entry.1, entry.2 ++ whys) else entry).map
          Prod.fst = reasons.map Prod.fst := by
      rw [map_map]
      refine map_congr_left fun entry _ => ?_
      dsimp only [Function.comp]
      split <;> rfl
    rw [keys, iff_self_or]
    rintro rfl
    obtain ⟨entry, member, same⟩ := any_eq_true.mp present
    exact mem_map.mpr ⟨entry, member, by simpa using same⟩
  case isFalse => simp

theorem mem_holes {h : Prefix} : h ∈ (holeReasons keep others).map Prod.fst ↔
      ∃ k ∈ keep, (holeFor k others).1 = h := by
  have folded : ∀ reasons : Reasons, h ∈ (keep.foldl (fun reasons k =>
        reasons.extend (holeFor k others).1 [(holeFor k others).2]) reasons).map Prod.fst ↔
        h ∈ reasons.map Prod.fst ∨ ∃ k ∈ keep, (holeFor k others).1 = h := by
    induction keep with
    | nil => simp
    | cons k rest ih =>
      intro reasons
      rw [foldl_cons, ih, keys_extend]
      simp only [exists_mem_cons_iff, or_assoc, eq_comm (a := h)]
  exact (folded []).trans (by simp)

theorem not_contains_of_mem_carve {pfx p : Prefix} {taken : List (DstKey × Claim)}
    (member : p ∈ (carve pfx keep others taken).1) {k : KeptOut}
    (kept : k ∈ keep) (sound : k.Sound pfx) : ¬ p.contains k.addr := by
  intro held
  have outside := (covered_subtractNets.mp ⟨p, (mem_carve.mp member).1, held⟩).2
  exact outside ⟨_, mem_holes.mpr ⟨k, kept, rfl⟩, holeFor_contains sound⟩

end Holes

/-! ### What stays out of tunnels -/

section StaysOut

variable {inp : DesiredInput} {ts : List TunnelInput} {held : List Addr}
  {t : TunnelInput} {pfx : Prefix} {essential : Bool}

def physicalGateway (inp : DesiredInput) (fam : Family) : Option Addr :=
  if fam = .v6 then inp.gatewayV6.map Addr.withoutZone else inp.gatewayV4

theorem physicalGateway_of_contains {a : Addr} (holds : pfx.contains a) :
    physicalGateway inp (famOf a) = if pfx.addr.is6 then inp.gatewayV6.map Addr.withoutZone
      else inp.gatewayV4 := by
  rw [famOf_eq_of_contains holds, physicalGateway, famOf]
  cases pfx.addr.is6 <;> simp

theorem mem_firstResolvers {servers : List Addr} {a : Addr} {v4 v6 : Nat} :
    (a ∈ (servers.filter fun a => famOf a = .v4).take v4 → a ∈ firstResolvers v4 v6 servers) ∧
      (a ∈ (servers.filter fun a => famOf a = .v6).take v6 → a ∈ firstResolvers v4 v6 servers) := by
  induction servers generalizing v4 v6 with
  | nil => simp
  | cons head rest ih =>
    cases family : head.is6 with
    | false =>
      have first : famOf head = .v4 := by simp [famOf, family]
      have shown : head.is4 := by simp [Addr.is4, family]
      cases v4 with
      | zero =>
        simp only [firstResolvers, shown, if_true, take_zero,
          filter_cons, first, decide_true, reduceCtorEq,
          decide_false, Bool.false_eq_true, if_false]
        exact ⟨by simp, ih.2⟩
      | succ v4 =>
        simp only [firstResolvers, shown, if_true, filter_cons,
          first, decide_true, reduceCtorEq, decide_false,
          Bool.false_eq_true, if_false, take_succ_cons,
          mem_cons]
        exact ⟨.imp_right ih.1, fun member => .inr (ih.2 member)⟩
    | true =>
      have second : famOf head = .v6 := by simp [famOf, family]
      have shown : ¬ head.is4 := by simp [Addr.is4, family]
      cases v6 with
      | zero =>
        simp only [firstResolvers, shown, if_false, take_zero,
          filter_cons, second, reduceCtorEq, decide_true,
          decide_false, Bool.false_eq_true]
        exact ⟨ih.1, by simp⟩
      | succ v6 =>
        simp only [firstResolvers, shown, if_false, filter_cons,
          second, reduceCtorEq, decide_true, decide_false,
          Bool.false_eq_true, if_true, take_succ_cons,
          mem_cons]
        exact ⟨fun member => .inr (ih.1 member), .imp_right ih.2⟩

theorem mem_firstResolvers_of_family {servers : List Addr} {a : Addr} {fam : Family} {n : Nat}
    (member : a ∈ (servers.filter fun a => famOf a = fam).take n) :
    a ∈ firstResolvers n n servers := by
  cases fam with
  | v4 => exact mem_firstResolvers.1 member
  | v6 => exact mem_firstResolvers.2 member

theorem sound_keepRouter {k : KeptOut} (member : k ∈ keepRouter pfx inp) : k.Sound pfx := by
  unfold keepRouter at member
  dsimp only at member
  split at member
  case h_1 => simp at member
  split at member
  case isFalse => simp at member
  rename_i inside
  split at member
  case h_1 =>
    obtain rfl := mem_singleton.mp member
    exact ⟨inside, by simp⟩
  case h_2 lan _ =>
    split at member
    case isFalse =>
      obtain rfl := mem_singleton.mp member
      exact ⟨inside, by simp⟩
    case isTrue near =>
      obtain rfl := mem_singleton.mp member
      refine ⟨inside, fun net same => ?_⟩
      obtain rfl := Option.some.inj same
      split
      · exact inside
      · simpa using near

theorem sound_keepOut {k : KeptOut}
    (member : k ∈ keepOut pfx t ts held inp essential) : k.Sound pfx := by
  have listed := mem_of_mem_firsts member
  simp only [keepOutReasons, mem_append, mem_flatMap] at listed
  rcases listed with ((router | dns) | anchor) | ⟨o, _, server⟩
  · exact sound_keepRouter router
  · split at dns
    · simp at dns
    obtain ⟨a, kept, rfl⟩ := mem_map.mp dns
    exact ⟨(mem_filter.mp kept).2, by simp⟩
  · split at anchor
    · simp at anchor
    obtain ⟨a, kept, rfl⟩ := mem_map.mp anchor
    exact ⟨(mem_filter.mp kept).2, by simp⟩
  · obtain ⟨a, kept, rfl⟩ := mem_map.mp server
    have both := (mem_filter.mp kept).2
    simp only [decide_eq_true_eq] at both
    exact ⟨both.1, by simp⟩

theorem exists_keepOut {k : KeptOut} (reason : k ∈ keepOutReasons pfx t ts held inp essential) :
    ∃ kept ∈ keepOut pfx t ts held inp essential, kept.addr = k.addr :=
  exists_firsts reason not_mem_nil

theorem router_kept {gw : Addr} (holds : pfx.contains gw)
    (physical : physicalGateway inp (famOf gw) = some gw) :
    ∃ k ∈ keepOut pfx t ts held inp essential, k.addr = gw := by
  rw [physicalGateway_of_contains holds] at physical
  obtain ⟨k, member, rfl⟩ : ∃ k ∈ keepRouter pfx inp, k.addr = gw := by
    unfold keepRouter
    simp only [physical, holds, if_true]
    split
    · exact ⟨_, mem_singleton_self _, rfl⟩
    · split
      · exact ⟨_, mem_singleton_self _, rfl⟩
      · exact ⟨_, mem_singleton_self _, rfl⟩
  refine exists_keepOut ?_
  simp [keepOutReasons, member]

theorem server_kept {o : TunnelInput} {a : Addr} (listed : o ∈ ts)
    (server : a ∈ servers o) (holds : pfx.contains a) (free : a ∉ held) :
    ∃ k ∈ keepOut pfx t ts held inp essential, k.addr = a := by
  obtain ⟨k, member, rfl⟩ : ∃ k ∈ keepServers pfx t held o, k.addr = a := by
    refine ⟨_, mem_map_of_mem (mem_filter.mpr ⟨server, ?_⟩), rfl⟩
    simp [holds, free]
  refine exists_keepOut (mem_append_right _ ?_)
  exact mem_flatMap.mpr ⟨o, listed, member⟩

theorem resolver_kept {a : Addr} (holds : pfx.contains a)
    (first : a ∈ firstResolvers maxKeptResolvers maxKeptResolvers inp.dnsServers) :
    ∃ k ∈ keepOut pfx t ts held inp false, k.addr = a := by
  have reason : { addr := a, why := "your DNS server " ++ a.text } ∈
      keepOutReasons pfx t ts held inp false := by
    simp [keepOutReasons, holds, first]
  exact exists_keepOut reason

theorem anchor_kept {a : Addr} (holds : pfx.contains a) (anchor : a ∈ inp.anchors) :
    ∃ k ∈ keepOut pfx t ts held inp false, k.addr = a := by
  have reason :
      { addr := a
        why := a.text ++
          ", which RiftRoute probes to check a change kept you online" } ∈
        keepOutReasons pfx t ts held inp false := by
    simp [keepOutReasons, holds, anchor]
  exact exists_keepOut reason

theorem parts_avoid {s : Planning} {v : String} {fam : Family} {p : Prefix}
    (member : p ∈ (planPrefix inp ts s t v pfx fam).parts) :
    ∃ essential : Bool, (essential → t.block) ∧
      ∀ k ∈ keepOut pfx t ts s.held inp essential, ¬ p.contains k.addr := by
  obtain ⟨_, ⟨none, _⟩ | ⟨_, carved⟩⟩ := mem_parts_planPrefix member
  · exact ⟨false, by simp, by simp [none]⟩
  · obtain ⟨essential, blocking, carved⟩ := mem_carveListed carved
    exact ⟨essential, blocking, fun k kept =>
      not_contains_of_mem_carve carved kept (sound_keepOut kept)⟩

end StaysOut

theorem claims_avoid {inp : DesiredInput} {turn : Planning × TunnelInput}
    {p : Prefix} {x : Addr} (claimed : p ∈ claimsOf inp turn)
    (holds : p.contains x) :
    ∃ (pfx : Prefix) (essential : Bool), pfx.contains x ∧ (essential → turn.2.block) ∧
      ∀ k ∈ keepOut pfx turn.2 (sortTunnels inp.tunnels) turn.1.held inp essential, k.addr ≠ x := by
  obtain ⟨_, part, listed, inside⟩ := covered_turnNets.mp ⟨p, claimed, holds⟩
  obtain ⟨v, _, pfx, _, planned⟩ := mem_partsOf listed
  obtain ⟨essential, blocking, avoids⟩ := parts_avoid planned
  obtain ⟨_, around, _⟩ := parts_planPrefix pfx.isMasked_masked planned
  refine ⟨pfx.masked, essential, Prefix.contains_of_covers around inside, blocking, ?_⟩
  rintro k kept rfl
  exact avoids k kept inside

/-- What must stay out of tunnels stays out.  A route of the plan other than a
pin holds neither the physical gateway of its family nor a server that
nothing holds off the tunnels; and, unless its tunnel is set to block, none of
the first resolvers of its family and no address the watchdog probes. -/
theorem planTunnels_keeps_out (inp : DesiredInput) {r : ManagedRoute}
    (route : r ∈ (planTunnels inp).routes) (into : r.route.gateway = "")
    {p : Prefix} (read : parsePrefix r.route.dstCIDR = some p) :
    (∀ gw, physicalGateway inp r.route.family = some gw → ¬ p.contains gw) ∧
      (∀ t ∈ inp.tunnels, ∀ a ∈ servers t, p.contains a → HeldOff inp (planTunnels inp).routes a) ∧
      ((∀ t ∈ inp.tunnels, r.profileID = tunnelProfilePrefix ++ t.name → t.block = false) →
        (∀ a ∈ (inp.dnsServers.filter fun a =>
            famOf a = r.route.family).take 8, ¬ p.contains a) ∧
          ∀ a ∈ inp.anchors, ¬ p.contains a) := by
  obtain ⟨turn, member, q, claimed, rfl⟩ := exists_turn_of_no_gateway route into
  rw [netRoute_dstCIDR, parsePrefix_text] at read
  obtain rfl := Option.some.inj read
  have family : (netRoute inp turn.2 q).route.family = famOf q.addr :=
    congrArg DstKey.family (netRoute_dst inp turn.2 (turnNets_sound claimed).1)
  refine ⟨?_, ?_, ?_⟩
  · intro gw physical holds
    rw [family, ← famOf_eq_of_contains holds] at physical
    obtain ⟨pfx, essential, around, _, avoids⟩ := claims_avoid claimed holds
    obtain ⟨k, kept, same⟩ := router_kept around physical
    exact avoids k kept same
  · intro t listed a server holds
    obtain ⟨pfx, essential, around, _, avoids⟩ := claims_avoid claimed holds
    by_cases held : a ∈ turn.1.held
    · have off := (planned_turn member).held a held
      exact off.mono fun r earlier => routes_before_turn member earlier
    · obtain ⟨k, kept, same⟩ := server_kept (mem_sortTunnels.mpr listed) server around held
      exact (avoids k kept same).elim
  · intro unblocked
    have open' := unblocked turn.2 (mem_tunnels_of_turn member) (netRoute_profileID ..)
    constructor
    · intro a first holds
      obtain ⟨pfx, essential, around, blocking, avoids⟩ := claims_avoid claimed holds
      obtain rfl : essential = false := by
        by_contra essential
        simp [blocking (by simpa using essential)] at open'
      obtain ⟨k, kept, same⟩ := resolver_kept around (mem_firstResolvers_of_family first)
      exact avoids k kept same
    · intro a anchor holds
      obtain ⟨pfx, essential, around, blocking, avoids⟩ := claims_avoid claimed holds
      obtain rfl : essential = false := by
        by_contra essential
        simp [blocking (by simpa using essential)] at open'
      obtain ⟨k, kept, same⟩ := anchor_kept around anchor
      exact avoids k kept same

/-- A listed network that holds the router, a resolver and the tunnel's
server. -/
def crowdedNetwork : DesiredInput :=
  { tailscale := [], tailscaleTable := "", tailscaleExitNode := false
    platform := "linux", now := GoTime.Time.zero
    gatewayV4 := some (.v4 0x0a000001#32)
    dnsServers := [.v4 0x0a000002#32]
    tunnels :=
      [{ name := "work", iface := "tun0", routes := ["10.0.0.0/29"]
         servers := [.v4 0x0a000003#32] }] }

/-- Its upper half goes into the tunnel, without any of them. -/
theorem crowdedNetwork_keeps_out : ∃ r ∈ (planTunnels crowdedNetwork).routes,
      r.route.dstCIDR = "10.0.0.4/30" ∧ ∃ p, parsePrefix r.route.dstCIDR = some p ∧
          (∀ gw, physicalGateway crowdedNetwork r.route.family = some gw → ¬ p.contains gw) ∧
          (∀ a ∈ (crowdedNetwork.dnsServers.filter fun a =>
            famOf a = r.route.family).take 8, ¬ p.contains a) := by
  have found : ∃ r ∈ (planTunnels crowdedNetwork).routes,
      r.route.gateway = "" ∧ r.route.dstCIDR = "10.0.0.4/30" := by
    decide +kernel
  obtain ⟨r, route, into, text⟩ := found
  obtain ⟨p, read⟩ : ∃ p, parsePrefix r.route.dstCIDR = some p := by
    rw [text]
    exact Option.isSome_iff_exists.mp (by decide +kernel)
  obtain ⟨router, _, rest⟩ := planTunnels_keeps_out crowdedNetwork route into read
  refine ⟨r, route, text, p, read, router, (rest ?_).1⟩
  intro t tunnel _
  obtain rfl := mem_singleton.mp tunnel
  rfl

/-! ### What carving keeps out -/

section Holes

variable {inp : DesiredInput} {ts : List TunnelInput} {s : Planning}
  {t : TunnelInput} {v : String} {pfx : Prefix} {fam : Family} {x : Addr}

/-- What a listed route keeps out: less for a tunnel set to block, when the
rest leaves too little or takes too many routes. -/
def carveKeep (inp : DesiredInput) (ts : List TunnelInput) (s : Planning)
    (t : TunnelInput) (pfx : Prefix) : List KeptOut :=
  let carved := carve pfx (keepOut pfx t ts s.held inp false)
    (othersInside pfx t.name ts inp.occupied) s.taken
  if t.block ∧ (carved.1 = [] ∨ maxCarved < carved.1.length) then
    keepOut pfx t ts s.held inp true
  else keepOut pfx t ts s.held inp false

theorem carveListed_eq : carveListed inp ts s t pfx = carve pfx (carveKeep inp ts s t pfx)
        (othersInside pfx t.name ts inp.occupied) s.taken := by
  unfold carveListed carveKeep
  dsimp only
  split <;> rfl

/-- The networks kept out of a listed route at its turn. -/
def holesOf (inp : DesiredInput) (ts : List TunnelInput) (s : Planning)
    (t : TunnelInput) (pfx : Prefix) : List Prefix :=
  (holeReasons (carveKeep inp ts s t pfx) (othersInside pfx t.name ts inp.occupied)).map Prod.fst

end Holes

/-! ### What is said about the holes -/

section Except

variable {x : Addr} {p : Prefix} {holes : List Prefix} {reasons : Reasons}

theorem foldl_outermost (holes : List Prefix) (top : Prefix) (a : Addr) :
    let last := holes.foldl (fun top o =>
      if o.bits < top.bits ∧ o.contains a then o else top) top
    (last = top ∨ last ∈ holes ∧ last.bits < top.bits) ∧ (top.contains a → last.contains a) ∧
      ∀ o ∈ holes, o.contains a → last.bits ≤ o.bits := by
  induction holes generalizing top with
  | nil => simp
  | cons o rest ih =>
    rw [foldl_cons]
    by_cases wider : o.bits < top.bits ∧ o.contains a
    · rw [if_pos wider]
      obtain ⟨last, holds, least⟩ := ih o
      refine ⟨.inr ?_, fun _ => holds wider.2, ?_⟩
      · rcases last with same | ⟨member, shorter⟩
        · exact ⟨by rw [same]; exact mem_cons_self, by rw [same]; exact wider.1⟩
        · exact ⟨mem_cons_of_mem _ member, shorter.trans wider.1⟩
      · intro q member around
        rcases mem_cons.mp member with rfl | later
        · rcases last with same | ⟨_, shorter⟩
          · rw [same]
          · exact shorter.le
        · exact least q later around
    · rw [if_neg wider]
      obtain ⟨last, holds, least⟩ := ih top
      refine ⟨last.imp_right (.imp_left (mem_cons_of_mem _)), holds, ?_⟩
      intro q member around
      rcases mem_cons.mp member with rfl | later
      · have start : top.bits ≤ q.bits := not_lt.mp fun shorter => wider ⟨shorter, around⟩
        rcases last with same | ⟨_, shorter⟩
        · rw [same]
          exact start
        · exact shorter.le.trans start
      · exact least q later around

theorem outermost_spec (member : p ∈ holes) :
    outermost holes p ∈ holes ∧ (outermost holes p).covers p ∧
      outermost holes (outermost holes p) = outermost holes p := by
  obtain ⟨last, holds, least⟩ := foldl_outermost holes p p.addr
  have hole : outermost holes p ∈ holes := by
    rcases last with same | ⟨found, _⟩
    · rw [show outermost holes p = p from same]
      exact member
    · exact found
  have inside : (outermost holes p).covers p := by
    refine Prefix.covers_iff.mpr ⟨?_, holds p.contains_addr⟩
    exact least p member p.contains_addr
  refine ⟨hole, inside, ?_⟩
  obtain ⟨again, around, _⟩ := foldl_outermost holes (outermost holes p) (outermost holes p).addr
  rcases again with same | ⟨found, shorter⟩
  · exact same
  · have outer : (outermost holes (outermost holes p)).covers (outermost holes p) :=
      Prefix.covers_iff.mpr ⟨shorter.le, around (outermost holes p).contains_addr⟩
    have reached := least _ found (Prefix.covers_iff.mp (Prefix.covers_trans outer inside)).2
    exact absurd shorter (not_lt.mpr reached)

/-- The network an exception names holds an address. -/
def TunnelExcept.Holds (e : TunnelExcept) (x : Addr) : Prop :=
  ∃ net fam, entryToPrefix e.net = some (net, fam) ∧ net.contains x

theorem entryToPrefix_hole (p : Prefix) :
    entryToPrefix (if p.isSingleIP then p.addr.text else p.text) = some (p, famOf p.addr) := by
  split
  case isTrue single =>
    have full : p.bits = p.addr.bitLen := by simpa [Prefix.isSingleIP] using single
    have host : Prefix.host p.addr = p :=
      Prefix.eq_of_addr_eq (Addr.withoutZone_eq_self p.zoneFree) full.symm
    simp [entryToPrefix, parsePrefix_addr p.zoneFree, parseAddr_text, host]
  case isFalse => simp [entryToPrefix, parsePrefix_text]

theorem except_holds_iff :
    (∃ e ∈ exceptOf reasons, e.Holds x) ↔ Covered (reasons.map Prod.fst) x := by
  have sorted : ∀ q, q ∈ insertionSort
      (fun a b : Prefix => ¬ addrLess b.addr a.addr) (reasons.map Prod.fst) ↔
        q ∈ reasons.map Prod.fst := fun q => mem_insertionSort _
  constructor
  · rintro ⟨e, member, net, fam, read, holds⟩
    obtain ⟨q, outer, rfl⟩ := mem_map.mp member
    rw [entryToPrefix_hole q] at read
    obtain rfl : q = net := congrArg Prod.fst (Option.some.inj read)
    exact ⟨q, (sorted q).mp (mem_filter.mp outer).1, holds⟩
  · rintro ⟨q, member, holds⟩
    obtain ⟨hole, inside, top⟩ := outermost_spec ((sorted q).mpr member)
    refine ⟨_, mem_map_of_mem (mem_filter.mpr ⟨hole, ?_⟩), ?_⟩
    · simpa using top
    · exact ⟨_, _, entryToPrefix_hole _, Prefix.contains_of_covers inside holds⟩

end Except

/-! ### One listed route -/

section Turn

variable {inp : DesiredInput} {ts : List TunnelInput} {s : Planning}
  {t : TunnelInput} {v : String} {pfx : Prefix} {fam : Family} {x : Addr}

theorem planPrefix_of_unblocked (unblocked : (planPrefix inp ts s t v pfx fam).blocked = none) :
    (planPrefix inp ts s t v pfx fam).parts = [pfx] ∨ keepOut pfx t ts s.held inp false ≠ [] ∧
        (planPrefix inp ts s t v pfx fam).parts = (carveListed inp ts s t pfx).1 ∧
        (planPrefix inp ts s t v pfx fam).narrowed =
          some { route := v, except := (carveListed inp ts s t pfx).2 } := by
  unfold planPrefix at unblocked ⊢
  dsimp only at unblocked ⊢
  split at unblocked
  case h_1 => simp at unblocked
  split at unblocked
  case isTrue none =>
    rw [if_pos none]
    exact .inl rfl
  case isFalse some =>
    split at unblocked
    case isTrue => simp at unblocked
    rename_i someLeft
    split at unblocked
    case isTrue => simp at unblocked
    rename_i few
    rw [if_neg some, if_neg someLeft, if_neg few]
    exact .inr ⟨some, rfl, rfl⟩

/-- A network another tunnel lists takes the part of the route an address is
in. -/
def LeftToTunnel (inp : DesiredInput) (ts : List TunnelInput) (s : Planning)
    (t : TunnelInput) (pfx : Prefix) (x : Addr) : Prop :=
  ∃ p ∈ subtractNets pfx (holesOf inp ts s t pfx), p.contains x ∧
    ∃ o ∈ listedInside pfx t.name ts, o.net.covers p

/-- An address lies in a destination of another owner more specific than the
route. -/
def InOccupied (inp : DesiredInput) (pfx : Prefix) (x : Addr) : Prop :=
  ∃ entry ∈ inp.occupied, ∃ q, parsePrefix entry.1 = some q ∧ pfx.bits < q.bits ∧ q.contains x

theorem inOccupied_of_covers {o : RouteInside} {p : Prefix}
    (member : o ∈ occupiedInside pfx inp.occupied) (covers : o.net.covers p)
    (holds : p.contains x) : InOccupied inp pfx x := by
  obtain ⟨entry, listed, found⟩ := mem_filterMap.mp member
  obtain ⟨q, read, inside⟩ := Option.bind_eq_some_iff.mp found
  split at inside
  case isFalse => simp at inside
  rename_i within
  obtain rfl := Option.some.inj inside
  have longer : pfx.bits < q.masked.bits := by
    simp only [isInside, decide_eq_true_eq] at within
    exact within.2.1
  refine ⟨entry, listed, q, read, longer, ?_⟩
  simpa using Prefix.contains_of_covers covers holds

theorem planPrefix_accounts (unblocked : (planPrefix inp ts s t v pfx fam).blocked = none)
    (holds : pfx.contains x) :
    Covered (planPrefix inp ts s t v pfx fam).parts x ∨
      (∃ n, (planPrefix inp ts s t v pfx fam).narrowed = some n ∧
        n.route = v ∧ ∃ e ∈ n.except, e.Holds x) ∨
      (∃ p : Prefix, p.contains x ∧ (pfx.IsMasked → p.IsMasked) ∧
        (s.taken.lookup (prefixKey p)).isSome) ∨
      InOccupied inp pfx x ∨
      keepOut pfx t ts s.held inp false ≠ [] ∧ LeftToTunnel inp ts s t pfx x := by
  rcases planPrefix_of_unblocked unblocked with whole | ⟨keeps, parts, narrowed⟩
  · exact .inl ⟨pfx, by simp [whole], holds⟩
  · rw [carveListed_eq] at parts narrowed
    by_cases hole : Covered (holesOf inp ts s t pfx) x
    · exact .inr (.inl ⟨_, narrowed, rfl, except_holds_iff.mpr hole⟩)
    · obtain ⟨p, part, inside⟩ := covered_subtractNets.mpr ⟨holds, hole⟩
      by_cases theirs : ∃ o ∈ othersInside pfx t.name ts inp.occupied, o.net.covers p
      · obtain ⟨o, other, covers⟩ := theirs
        refine .inr (.inr (.inr ?_))
        rcases mem_othersInside.mp other with occupied | listed
        · exact .inl (inOccupied_of_covers occupied covers inside)
        · exact .inr ⟨keeps, p, part, inside, o, listed, covers⟩
      · cases claimed : s.taken.lookup (prefixKey p) with
        | none =>
          refine .inl ⟨p, ?_, inside⟩
          rw [parts]
          refine mem_carve.mpr ⟨part, fun o other covers => ?_, claimed⟩
          exact theirs ⟨o, other, covers⟩
        | some c =>
          refine .inr (.inr (.inl ⟨p, inside, ?_, by simp [claimed]⟩))
          exact fun masked => isMasked_of_mem_subtractNets masked part

end Turn

/-! ### The whole plan -/

/-- Every address of a listed route of a tunnel that is up or set to block,
unless the plan reports the route, lies in a destination of the plan, in an
exception of the route's narrowing, or in another owner's more specific
destination. -/
def Accounted : Prop :=
  ∀ t ∈ inp.tunnels, t.installs → ∀ v ∈ t.routes, ∀ pfx fam, entryToPrefix v = some (pfx, fam) →
    (∀ b, (t.name, b) ∈ (planTunnels inp).blocked → b.route ≠ v) →
    ∀ x, pfx.contains x → (∃ r ∈ (planTunnels inp).routes, ∃ p,
        parsePrefix r.route.dstCIDR = some p ∧ p.contains x) ∨
      (∃ n, (t.name, n) ∈ (planTunnels inp).narrowed ∧ n.route = v ∧ ∃ e ∈ n.except, e.Holds x) ∨
      InOccupied inp pfx x

/-- The addresses a tunnel may have to keep out: the routers, the resolvers, what
is probed, and the tunnels' servers. -/
def protectedAddrs : List Addr :=
  inp.gatewayV4.toList ++ (inp.gatewayV6.map Addr.withoutZone).toList ++ inp.dnsServers ++
    inp.anchors ++ inp.tunnels.flatMap servers

/-- Nothing keeps a tunnel from routing, or refusing, a network it lists as a
whole, except that someone routes exactly the network already. -/
structure TakesWhole (o : TunnelInput) (q : Prefix) (fam : Family) : Prop where
  installs : o.installs
  free : ∀ a ∈ protectedAddrs inp, q.contains a = false
  family : fam = .v6 → o.iface ≠ "" → o.v6 ∨ o.block
  notTailscale : ∀ n ∈ inp.tailscale, n.covers q.masked = false

/-- Where a listed route has to be carved, the other tunnels take whole what they
list inside it. -/
def NestedTaken : Prop :=
  ∀ t ∈ inp.tunnels, t.installs → ∀ v ∈ t.routes, ∀ pfx fam, entryToPrefix v = some (pfx, fam) →
    (∃ a ∈ protectedAddrs inp, pfx.contains a) → ∀ o ∈ inp.tunnels, o.name ≠ t.name →
      ∀ w ∈ o.routes, ∀ q fam, entryToPrefix w = some (q, fam) →
        isInside pfx.masked q.masked → TakesWhole inp o q fam

section Plan

variable {inp : DesiredInput} {x : Addr}

def Routed (inp : DesiredInput) (x : Addr) : Prop :=
  ∃ r ∈ (planTunnels inp).routes, ∃ p, parsePrefix r.route.dstCIDR = some p ∧ p.contains x

theorem routed_of_part {turn : Planning × TunnelInput} {v : String} {pfx p : Prefix}
    {fam : Family} (member : turn ∈ planTurns inp) (installs : turn.2.installs)
    (listed : v ∈ turn.2.routes) (read : entryToPrefix v = some (pfx, fam))
    (part : p ∈ (planPrefix inp (sortTunnels inp.tunnels) turn.1 turn.2 v pfx.masked fam).parts)
    (holds : p.contains x) : Routed inp x := by
  have inside := (parts_planPrefix pfx.isMasked_masked part).2.1
  have inPfx : pfx.contains x := by simpa using Prefix.contains_of_covers inside holds
  have family : fam = famOf x := by rw [family_entryToPrefix read, famOf_eq_of_contains inPfx]
  have covered : Covered (partsOf (listedAt inp turn) (famOf x)) x :=
    ⟨p, family ▸ mem_partsOf_of_planPrefix listed read part, holds⟩
  obtain ⟨q, claim, inClaim⟩ : Covered (claimsOf inp turn) x :=
    covered_turnNets.mpr ⟨installs, covered⟩
  refine ⟨netRoute inp turn.2 q, mem_planTunnels_routes.mpr
    (.inr ⟨turn, member, q, claim, rfl⟩), q, ?_, inClaim⟩
  rw [netRoute_dstCIDR, parsePrefix_text]

theorem mem_planTunnels_blocked {name : String} {b : TunnelBlocked} :
    (name, b) ∈ (planTunnels inp).blocked ↔ ∃ turn ∈ planTurns inp, turn.2.name = name ∧
        ∃ l ∈ listedAt inp turn, l.blocked = some b := by
  rw [planTunnels_blocked, mem_flatMap]
  refine exists_congr fun turn => and_congr Iff.rfl ?_
  simp only [mem_map, mem_filterMap, Prod.mk.injEq]
  constructor
  · rintro ⟨_, found, rfl, rfl⟩
    exact ⟨rfl, found⟩
  · rintro ⟨rfl, found⟩
    exact ⟨b, found, rfl, rfl⟩

theorem mem_planTunnels_narrowed {name : String} {n : TunnelNarrowed} :
    (name, n) ∈ (planTunnels inp).narrowed ↔ ∃ turn ∈ planTurns inp, turn.2.name = name ∧
        ∃ l ∈ listedAt inp turn, l.narrowed = some n := by
  rw [planTunnels_narrowed, mem_flatMap]
  refine exists_congr fun turn => and_congr Iff.rfl ?_
  simp only [mem_map, mem_filterMap, Prod.mk.injEq]
  constructor
  · rintro ⟨_, found, rfl, rfl⟩
    exact ⟨rfl, found⟩
  · rintro ⟨rfl, found⟩
    exact ⟨n, found, rfl, rfl⟩

theorem mem_listedAt (inp : DesiredInput) (turn : Planning × TunnelInput)
    {v : String} {pfx : Prefix} {fam : Family} (listed : v ∈ turn.2.routes)
    (read : entryToPrefix v = some (pfx, fam)) :
    planPrefix inp (sortTunnels inp.tunnels) turn.1 turn.2 v pfx.masked fam ∈ listedAt inp turn :=
  mem_filterMap.mpr ⟨v, listed, by simp [planRoute, read]⟩

theorem blocked_route_planPrefix {ts : List TunnelInput} {s : Planning}
    {t : TunnelInput} {v : String} {pfx : Prefix} {fam : Family}
    {b : TunnelBlocked}
    (blocked : (planPrefix inp ts s t v pfx fam).blocked = some b) :
    b.route = v := by
  unfold planPrefix at blocked
  dsimp only at blocked
  split at blocked
  case h_1 => exact (Option.some.inj blocked) ▸ rfl
  case h_2 =>
    split at blocked
    case isTrue =>
      split at blocked
      case isTrue => exact (Option.some.inj blocked) ▸ rfl
      case isFalse => cases blocked
    case isFalse =>
      split at blocked
      case isTrue => exact (Option.some.inj blocked) ▸ rfl
      case isFalse =>
        split at blocked
        case isTrue => exact (Option.some.inj blocked) ▸ rfl
        case isFalse =>
          split at blocked
          case isTrue => exact (Option.some.inj blocked) ▸ rfl
          case isFalse => cases blocked

theorem routed_of_claimed {turn : Planning × TunnelInput}
    (member : turn ∈ planTurns inp) {p : Prefix} (masked : p.IsMasked)
    (claimed : (turn.1.taken.lookup (prefixKey p)).isSome)
    (holds : p.contains x) : Routed inp x := by
  obtain ⟨r, earlier, dst⟩ := (planned_turn member).route_of_claimed claimed
  rw [prefixKey_of_isMasked masked] at dst
  have text : r.route.dstCIDR = p.text := congrArg DstKey.dst dst
  exact ⟨r, routes_before_turn member earlier, p, by
    rw [text, parsePrefix_text], holds⟩

theorem mem_of_mem_firstResolvers {a : Addr} {servers : List Addr} {v4 v6 : Nat}
    (member : a ∈ firstResolvers v4 v6 servers) : a ∈ servers := by
  fun_induction firstResolvers v4 v6 servers with
  | case1 => cases member
  | case2 _ _ _ _ ih | case4 _ _ _ _ ih => exact mem_cons_of_mem _ (ih member)
  | case3 _ _ _ _ _ ih | case5 _ _ _ _ _ ih =>
    rcases mem_cons.mp member with rfl | later
    · exact mem_cons_self
    · exact mem_cons_of_mem _ (ih later)

theorem protected_of_keepOut {pfx : Prefix} {t : TunnelInput} {held : List Addr}
    {essential : Bool} {k : KeptOut}
    (member : k ∈ keepOut pfx t (sortTunnels inp.tunnels) held inp essential) :
    k.addr ∈ protectedAddrs inp := by
  have listed := mem_of_mem_firsts member
  simp only [keepOutReasons, mem_append, mem_flatMap] at listed
  rcases listed with ((router | dns) | anchor) | ⟨o, tunnel, server⟩
  · have gateway : k.addr ∈ if pfx.addr.is6 then inp.gatewayV6.map Addr.withoutZone
        else inp.gatewayV4 := by
      unfold keepRouter at router
      grind
    simp only [protectedAddrs, mem_append, Option.mem_toList]
    split at gateway
    · exact .inl (.inl (.inl (.inr gateway)))
    · exact .inl (.inl (.inl (.inl gateway)))
  · split at dns
    · cases dns
    obtain ⟨a, kept, rfl⟩ := mem_map.mp dns
    have resolver := mem_of_mem_firstResolvers (mem_filter.mp kept).1
    simp [protectedAddrs, resolver]
  · split at anchor
    · cases anchor
    obtain ⟨a, kept, rfl⟩ := mem_map.mp anchor
    simp [protectedAddrs, (mem_filter.mp kept).1]
  · obtain ⟨a, kept, rfl⟩ := mem_map.mp server
    have own : ∃ o ∈ inp.tunnels, a ∈ servers o :=
      ⟨o, mem_sortTunnels.mp tunnel, (mem_filter.mp kept).1⟩
    simp [protectedAddrs, own]

theorem TakesWhole.accounts {o : TunnelInput} {w : String} {pfx q : Prefix} {fam : Family}
    (takes : TakesWhole inp o q fam) (tunnel : o ∈ inp.tunnels) (listed : w ∈ o.routes)
    (read : entryToPrefix w = some (q, fam)) (longer : pfx.bits < q.bits) (holds : q.contains x) :
    Routed inp x ∨ InOccupied inp pfx x := by
  obtain ⟨s, member⟩ := exists_planTurn tunnel
  have inMasked : q.masked.contains x := by simpa using holds
  have keepsNone : keepOut q.masked o (sortTunnels inp.tunnels) s.held inp false = [] := by
    refine eq_nil_iff_forall_not_mem.mpr fun k kept => ?_
    have inside : q.contains k.addr := by simpa using (sound_keepOut kept).inside
    rw [takes.free k.addr (protected_of_keepOut kept)] at inside
    cases inside
  cases left : leftOut inp s o q.masked (o.iface ≠ "" ∧ fam = .v6 ∧ ¬ o.v6) with
  | none =>
    refine .inl (routed_of_part member takes.installs listed read (p := q.masked) ?_ inMasked)
    unfold planPrefix
    dsimp only
    rw [left]
    dsimp only
    rw [if_pos keepsNone]
    exact mem_singleton_self _
  | some why =>
    have noV6 : ¬ ((o.iface ≠ "" ∧ fam = .v6 ∧ ¬ o.v6) ∧ ¬ o.block) := by
      rintro ⟨⟨up, six, without⟩, unblocked⟩
      exact (takes.family six up).elim without unblocked
    have noTailscale : tailscaleBlock q.masked inp = none := by
      simp only [tailscaleBlock, Option.map_eq_none_iff, find?_eq_none]
      intro n beside
      simp [takes.notTailscale n beside]
    cases claimed : s.taken.lookup (prefixKey q.masked) with
    | some c =>
      exact .inl (routed_of_claimed member q.isMasked_masked (by simp [claimed]) inMasked)
    | none =>
      cases occupied : inp.occupied.lookup q.masked.masked.text with
      | some via =>
        obtain ⟨before, after, split, _⟩ := lookup_eq_some_iff.mp occupied
        refine .inr ⟨(q.masked.masked.text, via), by simp [split], q.masked.masked,
          parsePrefix_text _, by simpa using longer, by simpa using holds⟩
      | none =>
        simp only [leftOut, tunnelRouteBlock, claimed, occupied, noTailscale] at left
        rw [if_neg (by simpa using noV6)] at left
        cases left

end Plan

/-- A tunnel that is up lists a network with the router in it; one that is
down lists the rest of the network. -/
def downInside : DesiredInput :=
  { tailscale := [], tailscaleTable := "", tailscaleExitNode := false
    platform := "linux", now := GoTime.Time.zero
    gatewayV4 := some (.v4 0x0a000001#32)
    tunnels :=
      [{ name := "work", iface := "tun0", routes := ["10.0.0.0/30"] },
       { name := "lab", routes := ["10.0.0.2/31"] }] }

def upInside : DesiredInput :=
  { downInside with
    tunnels :=
      [{ name := "work", iface := "tun0", routes := ["10.0.0.0/30"] },
       { name := "lab", iface := "tun1", routes := ["10.0.0.2/31"] }] }

end RiftRoute
