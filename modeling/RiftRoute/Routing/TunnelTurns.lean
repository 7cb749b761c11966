/-
Module: RiftRoute.Routing.TunnelTurns
Purpose: What the planner's loops come to.  The plan is the server pins
  followed by what each tunnel's turn claims, and a turn claims an aggregate
  of the parts its listed routes leave, never a destination already claimed.
Trusted boundary: none
-/
import RiftRoute.Routing.Tunnels

namespace RiftRoute

open List

open Netip

/-! ### Keys -/

variable {p : Prefix}

theorem prefixKey_of_isMasked (masked : p.IsMasked) :
    prefixKey p = { family := famOf p.addr, table := "", dst := p.text } := by
  rw [prefixKey, show p.masked = p from masked]

theorem prefixKey_inj {q : Prefix} (first : p.IsMasked)
    (second : q.IsMasked) (same : prefixKey p = prefixKey q) : p = q := by
  rw [prefixKey_of_isMasked first, prefixKey_of_isMasked second] at same
  exact Prefix.text_inj (DstKey.mk.injEq .. ▸ same).2.2

theorem famOf_eq_of_covers {q : Prefix} (inside : p.covers q) : famOf q.addr = famOf p.addr :=
  famOf_eq_iff.mpr (Prefix.family_of_covers inside)

theorem famOf_eq_of_contains {x : Addr} (held : p.contains x) : famOf x = famOf p.addr :=
  famOf_eq_iff.mpr (Prefix.family_of_contains held)

/-! ### The routes a plan adds -/

def tagged (rt : Route) (t : TunnelInput) (inp : DesiredInput) : ManagedRoute :=
  { route :=
      { rt with
        owner := .riftRoute, proto := protoFor inp.platform
        profile := tunnelProfilePrefix ++ t.name }
    profileID := tunnelProfilePrefix ++ t.name
    createdAt := inp.now }

variable (inp : DesiredInput) (t : TunnelInput)

def pinRoute (a gw : Addr) (iface : String) : ManagedRoute :=
  tagged
    { dstCIDR := (Prefix.host a).text, gateway := gw.text, iface := iface
      family := famOf a } t inp

def TunnelInput.refuses (fam : Family) : Bool := t.iface = "" ∨ fam = .v6 ∧ ¬ t.v6

def netRoute (p : Prefix) : ManagedRoute :=
  if t.refuses (famOf p.addr) then
    tagged { dstCIDR := p.text, family := famOf p.addr, reject := true } t inp
  else
    tagged { dstCIDR := p.text, iface := t.iface, family := famOf p.addr } t inp

def netClaim (p : Prefix) : DstKey × Claim :=
  (prefixKey p, { tunnel := t.name, refuse := t.refuses (famOf p.addr) })

@[simp] theorem netRoute_dstCIDR (p : Prefix) : (netRoute inp t p).route.dstCIDR = p.text := by
  unfold netRoute
  split <;> rfl

@[simp] theorem netRoute_gateway (p : Prefix) : (netRoute inp t p).route.gateway = "" := by
  unfold netRoute
  split <;> rfl

@[simp] theorem netRoute_profileID (p : Prefix) :
    (netRoute inp t p).profileID = tunnelProfilePrefix ++ t.name := by
  unfold netRoute
  split <;> rfl

theorem netRoute_dst (masked : p.IsMasked) : (netRoute inp t p).dst = prefixKey p := by
  rw [prefixKey_of_isMasked masked]
  unfold netRoute
  split <;> rfl

theorem pinRoute_dst (a gw : Addr) (iface : String) :
    (pinRoute inp t a gw iface).dst = prefixKey (Prefix.host a) := by
  rw [prefixKey_of_isMasked (Prefix.isMasked_host a)]
  have family : famOf (Prefix.host a).addr = famOf a := famOf_eq_iff.mpr (by simp [Prefix.host])
  rw [family]
  rfl

/-! ### Listed routes -/

section Listed

variable {inp : DesiredInput} {ts : List TunnelInput} {s : Planning}
  {t : TunnelInput} {v : String} {pfx : Prefix} {fam : Family} {l : Listed}

theorem mem_parts_planPrefix {p : Prefix} (member : p ∈ (planPrefix inp ts s t v pfx fam).parts) :
    leftOut inp s t pfx (t.iface ≠ "" ∧ fam = .v6 ∧ ¬ t.v6) = none ∧
      (keepOut pfx t ts s.held inp false = [] ∧ p = pfx ∨ keepOut pfx t ts s.held inp false ≠ [] ∧
          p ∈ (carveListed inp ts s t pfx).1) := by
  unfold planPrefix at member
  dsimp only at member
  split at member
  case h_1 => simp at member
  rename_i free
  refine ⟨free, ?_⟩
  split at member
  case isTrue none => exact .inl ⟨none, by simpa using member⟩
  case isFalse some =>
    refine .inr ⟨some, ?_⟩
    split at member
    case isTrue => simp at member
    split at member
    case isTrue => simp at member
    case isFalse => exact member

theorem mem_carve {keep : List KeptOut} {others : List RouteInside}
    {taken : List (DstKey × Claim)} {p : Prefix} :
    p ∈ (carve pfx keep others taken).1 ↔
      p ∈ subtractNets pfx ((holeReasons keep others).map Prod.fst) ∧
        (∀ o ∈ others, ¬ o.net.covers p) ∧
        taken.lookup (prefixKey p) = none := by
  simp [carve]

theorem mem_carveListed {p : Prefix} (member : p ∈ (carveListed inp ts s t pfx).1) :
    ∃ essential : Bool, (essential → t.block) ∧
      p ∈ (carve pfx (keepOut pfx t ts s.held inp essential)
        (othersInside pfx t.name ts inp.occupied) s.taken).1 := by
  unfold carveListed at member
  dsimp only at member
  split at member
  case isTrue second => exact ⟨true, fun _ => second.1, member⟩
  case isFalse => exact ⟨false, by simp, member⟩

theorem unclaimed_of_leftOut {noV6 : Bool} (free : leftOut inp s t pfx noV6 = none) :
    s.taken.lookup (prefixKey pfx) = none := by
  simp only [leftOut, Option.orElse_eq_orElse, Option.orElse_eq_or,
    Option.or_eq_none_iff, Option.map_eq_none_iff] at free
  exact free.2.2.1

theorem unoccupied_of_leftOut {noV6 : Bool} (free : leftOut inp s t pfx noV6 = none) :
    inp.occupied.lookup pfx.masked.text = none := by
  simp only [leftOut, Option.orElse_eq_orElse, Option.orElse_eq_or,
    Option.or_eq_none_iff, tunnelRouteBlock, Option.map_eq_none_iff] at free
  exact free.2.1

theorem parts_planPrefix (masked : pfx.IsMasked) {p : Prefix}
    (member : p ∈ (planPrefix inp ts s t v pfx fam).parts) :
    p.IsMasked ∧ pfx.covers p ∧ s.taken.lookup (prefixKey p) = none := by
  obtain ⟨free, ⟨_, rfl⟩ | ⟨_, carved⟩⟩ := mem_parts_planPrefix member
  · exact ⟨masked, p.covers_refl, unclaimed_of_leftOut free⟩
  · obtain ⟨essential, _, carved⟩ := mem_carveListed carved
    obtain ⟨part, _, unclaimed⟩ := mem_carve.mp carved
    exact ⟨isMasked_of_mem_subtractNets masked part, covers_of_mem_subtractNets part, unclaimed⟩

theorem family_planPrefix : (planPrefix inp ts s t v pfx fam).family = fam := by
  unfold planPrefix
  dsimp only
  split
  · rfl
  · split
    · rfl
    · split
      · rfl
      · split <;> rfl

theorem mem_partsOf {p : Prefix} (member : p ∈ partsOf (listedOf inp ts s t) fam) :
    ∃ v ∈ t.routes, ∃ pfx, entryToPrefix v = some (pfx, fam) ∧
      p ∈ (planPrefix inp ts s t v pfx.masked fam).parts := by
  obtain ⟨l, listed, part⟩ := mem_flatMap.mp member
  obtain ⟨found, family⟩ := mem_filter.mp listed
  obtain ⟨v, route, planned⟩ := mem_filterMap.mp found
  obtain ⟨⟨pfx, other⟩, read, rfl⟩ := Option.map_eq_some_iff.mp planned
  obtain rfl : other = fam := by simpa [family_planPrefix] using family
  exact ⟨v, route, pfx, read, part⟩

theorem mem_partsOf_of_planPrefix {p : Prefix} (route : v ∈ t.routes)
    (read : entryToPrefix v = some (pfx, fam))
    (part : p ∈ (planPrefix inp ts s t v pfx.masked fam).parts) :
    p ∈ partsOf (listedOf inp ts s t) fam := by
  refine mem_flatMap.mpr ⟨planPrefix inp ts s t v pfx.masked fam, ?_, part⟩
  refine mem_filter.mpr ⟨?_, by simp [family_planPrefix]⟩
  exact mem_filterMap.mpr ⟨v, route, by simp [planRoute, read]⟩

theorem partsOf_sound {p : Prefix} (member : p ∈ partsOf (listedOf inp ts s t) fam) :
    p.IsMasked ∧ famOf p.addr = fam ∧ s.taken.lookup (prefixKey p) = none := by
  obtain ⟨v, _, pfx, read, part⟩ := mem_partsOf member
  obtain ⟨masked, inside, unclaimed⟩ := parts_planPrefix pfx.isMasked_masked part
  refine ⟨masked, ?_, unclaimed⟩
  rw [famOf_eq_of_covers (by simpa using inside), family_entryToPrefix read]

end Listed

/-! ### Aggregating what is not claimed -/

section Aggregating

variable {ps : List Prefix} {taken : List (DstKey × Claim)}

theorem mem_unclaimedAggregate : p ∈ unclaimedAggregate ps taken ↔
      p ∈ aggregate ps ∧ taken.lookup (prefixKey p) = none ∨ p ∈ ps ∧ ∃ agg ∈ aggregate ps,
          (taken.lookup (prefixKey agg)).isSome ∧ agg.covers p := by
  rw [unclaimedAggregate, mem_firsts_id, mem_flatMap]
  constructor
  · rintro ⟨agg, merged, member⟩
    split at member
    case isTrue claimed =>
      obtain ⟨listed, inside⟩ := mem_filter.mp member
      exact .inr ⟨listed, agg, merged, claimed, inside⟩
    case isFalse unclaimed =>
      obtain rfl := mem_singleton.mp member
      exact .inl ⟨merged, Option.not_isSome_iff_eq_none.mp unclaimed⟩
  · rintro (⟨merged, unclaimed⟩ | ⟨listed, agg, merged, claimed, inside⟩)
    · exact ⟨p, merged, by simp [unclaimed]⟩
    · exact ⟨agg, merged, by
        rw [if_pos claimed]
        exact mem_filter.mpr ⟨listed, inside⟩⟩

theorem covered_unclaimedAggregate {x : Addr} :
    Covered (unclaimedAggregate ps taken) x ↔ Covered ps x := by
  constructor
  · rintro ⟨p, member, held⟩
    rcases mem_unclaimedAggregate.mp member with ⟨merged, _⟩ | ⟨listed, _⟩
    · exact (covered_aggregate ps x).mp ⟨p, merged, held⟩
    · exact ⟨p, listed, held⟩
  · rintro ⟨p, listed, held⟩
    obtain ⟨agg, merged, inside⟩ := exists_aggregate_covers listed
    cases claimed : (taken.lookup (prefixKey agg)).isSome with
    | true =>
      refine ⟨p, mem_unclaimedAggregate.mpr (.inr ?_), held⟩
      exact ⟨listed, agg, merged, claimed, inside⟩
    | false =>
      refine ⟨agg, mem_unclaimedAggregate.mpr (.inl ⟨merged, ?_⟩),
        Prefix.contains_of_covers inside held⟩
      simpa using claimed

theorem unclaimedAggregate_congr {others : List (DstKey × Claim)} (same : ∀ agg ∈ aggregate ps,
      others.lookup (prefixKey agg) = taken.lookup (prefixKey agg)) :
    unclaimedAggregate ps others = unclaimedAggregate ps taken := by
  have equal : ∀ agg ∈ aggregate ps, (if (others.lookup (prefixKey agg)).isSome then
        ps.filter fun p => agg.covers p else [agg]) =
      (if (taken.lookup (prefixKey agg)).isSome then
        ps.filter fun p => agg.covers p else [agg]) := by
    intro agg merged
    rw [same agg merged]
  rw [unclaimedAggregate, unclaimedAggregate, flatMap_def,
    flatMap_def, map_congr_left equal]

theorem nodup_unclaimedAggregate : (unclaimedAggregate ps taken).Nodup := by
  rw [← map_id (unclaimedAggregate ps taken)]
  exact nodup_firsts

end Aggregating

/-! ### Turns -/

section Turns

variable {inp : DesiredInput} {ts : List TunnelInput} {s : Planning} {t : TunnelInput}
  {fam : Family}

/-- The destinations a tunnel claims in a family, from the state before its
turn. -/
def familyNets (inp : DesiredInput) (ts : List TunnelInput) (s : Planning)
    (t : TunnelInput) (fam : Family) : List Prefix :=
  unclaimedAggregate (partsOf (listedOf inp ts s t) fam) s.taken

def turnNets (inp : DesiredInput) (ts : List TunnelInput) (s : Planning)
    (t : TunnelInput) : List Prefix :=
  if t.installs then familyNets inp ts s t .v4 ++ familyNets inp ts s t .v6
  else []

theorem familyNets_sound (member : p ∈ familyNets inp ts s t fam) :
    p.IsMasked ∧ famOf p.addr = fam ∧ s.taken.lookup (prefixKey p) = none := by
  rcases mem_unclaimedAggregate.mp member with
    ⟨merged, unclaimed⟩ | ⟨listed, _⟩
  · obtain ⟨q, listed, inside⟩ := exists_covered_by_aggregate merged
    refine ⟨isMasked_aggregate merged, ?_, unclaimed⟩
    rw [← famOf_eq_of_covers inside]
    exact (partsOf_sound listed).2.1
  · exact partsOf_sound listed

theorem turnNets_sound (member : p ∈ turnNets inp ts s t) :
    p.IsMasked ∧ s.taken.lookup (prefixKey p) = none := by
  unfold turnNets at member
  split at member
  case isTrue =>
    rcases mem_append.mp member with first | second
    · exact ⟨(familyNets_sound first).1, (familyNets_sound first).2.2⟩
    · exact ⟨(familyNets_sound second).1, (familyNets_sound second).2.2⟩
  case isFalse => simp at member

theorem mem_turnNets : p ∈ turnNets inp ts s t ↔
      t.installs ∧ p ∈ familyNets inp ts s t (famOf p.addr) := by
  unfold turnNets
  split
  case isTrue up =>
    simp only [up, true_and, mem_append]
    constructor
    · rintro (first | second)
      · rwa [(familyNets_sound first).2.1]
      · rwa [(familyNets_sound second).2.1]
    · cases famOf p.addr with
      | v4 => exact .inl
      | v6 => exact .inr
  case isFalse down => simp [down]

theorem nodup_turnNets : (turnNets inp ts s t).Nodup := by
  unfold turnNets
  split
  case isTrue =>
    refine nodup_append.mpr ⟨nodup_unclaimedAggregate, nodup_unclaimedAggregate, ?_⟩
    rintro p first q second rfl
    have v4 := (familyNets_sound first).2.1
    have v6 := (familyNets_sound second).2.1
    exact absurd (v4.symm.trans v6) (by decide)
  case isFalse => exact nodup_nil

theorem covered_turnNets {x : Addr} : Covered (turnNets inp ts s t) x ↔
      t.installs ∧ Covered (partsOf (listedOf inp ts s t) (famOf x)) x := by
  constructor
  · rintro ⟨p, member, held⟩
    obtain ⟨up, claimed⟩ := mem_turnNets.mp member
    rw [← famOf_eq_of_contains held] at claimed
    exact ⟨up, covered_unclaimedAggregate.mp ⟨p, claimed, held⟩⟩
  · rintro ⟨up, covered⟩
    obtain ⟨p, claimed, held⟩ : Covered (familyNets inp ts s t (famOf x)) x :=
      covered_unclaimedAggregate.mpr covered
    refine ⟨p, mem_turnNets.mpr ⟨up, ?_⟩, held⟩
    rw [← famOf_eq_of_contains held]
    exact claimed

theorem foldl_claimNet {nets : List Prefix} (family : ∀ p ∈ nets, famOf p.addr = fam) :
    nets.foldl (claimNet inp t fam (t.refuses fam)) s =
      { s with
        taken := (nets.map (netClaim t)).reverse ++ s.taken
        plan :=
          { s.plan with
            routes := s.plan.routes ++ nets.map (netRoute inp t)
            nets := s.plan.nets ++ nets } } := by
  induction nets generalizing s with
  | nil => simp
  | cons p nets ih =>
    obtain rfl := family p mem_cons_self
    have claimed : claimNet inp t (famOf p.addr) (t.refuses (famOf p.addr)) s p =
        { s with
          taken := netClaim t p :: s.taken
          plan :=
            { s.plan with
              routes := s.plan.routes ++ [netRoute inp t p]
              nets := s.plan.nets ++ [p] } } := by
      unfold claimNet netRoute
      split <;> rfl
    rw [foldl_cons, claimed, ih fun q member =>
      family q (mem_cons_of_mem _ member)]
    simp

theorem lookup_append_of_family {claims : List (DstKey × Claim)} {k : DstKey}
    (other : ∀ c ∈ claims, c.1.family ≠ k.family)
    (taken : List (DstKey × Claim)) :
    (claims ++ taken).lookup k = taken.lookup k := by
  have free : claims.lookup k = none := by
    refine lookup_eq_none_iff.mpr fun c member => ?_
    have differ := other c member
    simp only [bne_iff_ne, ne_eq]
    rintro rfl
    exact differ rfl
  rw [lookup_append, free, Option.none_or]

theorem claimFamily_eq (met : Planning)
    (same : unclaimedAggregate (partsOf (listedOf inp ts s t) fam) met.taken =
      familyNets inp ts s t fam) :
    claimFamily inp t (listedOf inp ts s t) met fam =
      { met with
        taken := ((familyNets inp ts s t fam).map (netClaim t)).reverse ++
          met.taken
        plan :=
          { met.plan with
            routes := met.plan.routes ++
              (familyNets inp ts s t fam).map (netRoute inp t)
            nets := met.plan.nets ++ familyNets inp ts s t fam } } := by
  rw [claimFamily, same]
  exact foldl_claimNet fun p member => (familyNets_sound member).2.1

theorem unclaimedAggregate_second : unclaimedAggregate (partsOf (listedOf inp ts s t) .v6)
        (((familyNets inp ts s t .v4).map (netClaim t)).reverse ++ s.taken) =
      familyNets inp ts s t .v6 := by
  refine unclaimedAggregate_congr fun agg merged => ?_
  refine lookup_append_of_family (fun c member => ?_) s.taken
  obtain ⟨p, claimed, rfl⟩ := mem_map.mp (mem_reverse.mp member)
  obtain ⟨q, listed, inside⟩ := exists_covered_by_aggregate merged
  have family : famOf agg.addr = .v6 := by
    rw [← famOf_eq_of_covers inside]
    exact (partsOf_sound listed).2.1
  simp [netClaim, prefixKey, (familyNets_sound claimed).2.1, family]

theorem planTunnel_eq : planTunnel inp ts s t =
      { s with
        taken := ((turnNets inp ts s t).map (netClaim t)).reverse ++ s.taken
        plan :=
          { routes := s.plan.routes ++
              (turnNets inp ts s t).map (netRoute inp t)
            blocked := (report t (listedOf inp ts s t) s.plan).blocked
            narrowed := (report t (listedOf inp ts s t) s.plan).narrowed
            nets := s.plan.nets ++ turnNets inp ts s t } } := by
  unfold planTunnel turnNets
  dsimp only
  split
  case isFalse => simp [report]
  case isTrue =>
    have first : unclaimedAggregate (partsOf (listedOf inp ts s t) .v4)
        s.taken = familyNets inp ts s t .v4 := rfl
    simp only [foldl_cons, foldl_nil]
    rw [claimFamily_eq { s with plan := report t (listedOf inp ts s t) s.plan } first,
      claimFamily_eq]
    · simp [report]
    · exact unclaimedAggregate_second

end Turns

/-! ### Pins -/

/-- Something holds a server off the tunnels: another owner's host route, or
a pin. -/
def HeldOff (routes : List ManagedRoute) (a : Addr) : Prop :=
  inp.isOccupied (Prefix.host a) ∨ ∃ r ∈ routes, r.route.gateway ≠ "" ∧
      r.route.dstCIDR = (Prefix.host a).text

theorem HeldOff.mono {inp : DesiredInput} {routes more : List ManagedRoute}
    {a : Addr} (held : HeldOff inp routes a)
    (subset : ∀ r ∈ routes, r ∈ more) : HeldOff inp more a := by
  rcases held with occupied | ⟨r, member, pin⟩
  · exact .inl occupied
  · exact .inr ⟨r, subset r member, pin⟩

/-- What holds throughout planning: the claims are those of the plan's routes,
each once, and what is held is held off. -/
structure Planned (inp : DesiredInput) (s : Planning) : Prop where
  claims : s.taken.map Prod.fst = (s.plan.routes.map ManagedRoute.dst).reverse
  once : (s.plan.routes.map ManagedRoute.dst).Nodup
  held : ∀ a ∈ s.held, HeldOff inp s.plan.routes a

/-- A pin of a tunnel's server to the physical gateway. -/
def IsPin (r : ManagedRoute) : Prop :=
  ∃ t ∈ inp.tunnels, ∃ a ∈ t.bypass, ∃ gw iface,
    resolveGateway "auto" (famOf a) inp = .ok (gw, iface) ∧ r = pinRoute inp t a gw iface

/-- While servers are pinned, the plan holds pins alone. -/
structure Pinned (inp : DesiredInput) (s : Planning) : Prop
    extends Planned inp s where
  pins : ∀ r ∈ s.plan.routes, IsPin inp r
  nets : s.plan.nets = []
  blocked : s.plan.blocked = []
  narrowed : s.plan.narrowed = []

section Pins

variable {inp : DesiredInput} {s : Planning} {t : TunnelInput}

theorem IsPin.gateway_ne {r : ManagedRoute} (pin : IsPin inp r) : r.route.gateway ≠ "" := by
  obtain ⟨t, _, a, _, gw, iface, _, rfl⟩ := pin
  exact gw.text_ne_empty

theorem Planned.route_of_claimed (planned : Planned inp s) {k : DstKey}
    (claimed : (s.taken.lookup k).isSome) :
    ∃ r ∈ s.plan.routes, r.dst = k := by
  have member : k ∈ s.taken.map Prod.fst := by
    by_contra missing
    have free : s.taken.lookup k = none := by
      refine lookup_eq_none_iff.mpr fun c listed => ?_
      simp only [bne_iff_ne, ne_eq]
      rintro rfl
      exact missing (mem_map_of_mem listed)
    rw [free] at claimed
    simp at claimed
  rw [planned.claims, mem_reverse] at member
  exact mem_map.mp member

theorem Planned.not_mem_of_unclaimed (planned : Planned inp s) {k : DstKey}
    (free : s.taken.lookup k = none) :
    k ∉ s.plan.routes.map ManagedRoute.dst := by
  intro member
  rw [← mem_reverse, ← planned.claims] at member
  obtain ⟨c, listed, rfl⟩ := mem_map.mp member
  have differ := lookup_eq_none_iff.mp free c listed
  simp at differ

theorem pinned_hold (pinned : Pinned inp s) {a : Addr} (off : HeldOff inp s.plan.routes a) :
    Pinned inp { s with held := a :: s.held } where
  claims := pinned.claims
  once := pinned.once
  held := by
    intro b member
    rcases mem_cons.mp member with rfl | later
    · exact off
    · exact pinned.held b later
  pins := pinned.pins
  nets := pinned.nets
  blocked := pinned.blocked
  narrowed := pinned.narrowed

theorem pinned_pinServer (listed : t ∈ inp.tunnels) (pinned : Pinned inp s)
    {a : Addr} (server : a ∈ t.bypass) : Pinned inp (pinServer inp t s a) := by
  unfold pinServer
  split
  case h_1 => exact pinned
  case h_2 gw iface resolved =>
    dsimp only
    split
    case isTrue => exact pinned
    case isFalse =>
      split
      case isTrue claimed =>
        obtain ⟨r, member, same⟩ := pinned.toPlanned.route_of_claimed claimed
        refine pinned_hold pinned (.inr ⟨r, member, ?_, ?_⟩)
        · exact (pinned.pins r member).gateway_ne
        · rw [prefixKey_of_isMasked (Prefix.isMasked_host a)] at same
          exact congrArg DstKey.dst same
      case isFalse unclaimed =>
        have free := pinned.toPlanned.not_mem_of_unclaimed
          (Option.not_isSome_iff_eq_none.mp unclaimed)
        have dst := pinRoute_dst inp t a gw iface
        have added : (s.plan.add
            { dstCIDR := (Prefix.host a).text, gateway := gw.text
              iface := iface, family := famOf a }
            (tunnelProfilePrefix ++ t.name) inp).routes =
            s.plan.routes ++ [pinRoute inp t a gw iface] := rfl
        constructor
        · constructor
          · simp [added, dst, pinned.claims]
          · simp only [added, map_append, map_cons, map_nil, dst]
            rw [nodup_append]
            refine ⟨pinned.once, by simp, ?_⟩
            rintro k member _ last rfl
            obtain rfl := mem_singleton.mp last
            exact free member
          · intro b member
            rcases mem_cons.mp member with rfl | later
            · refine .inr ⟨pinRoute inp t b gw iface, ?_, gw.text_ne_empty, rfl⟩
              simp [added]
            · refine (pinned.held b later).mono fun r member => ?_
              exact mem_append_left _ member
        · intro r member
          rcases mem_append.mp member with earlier | last
          · exact pinned.pins r earlier
          · obtain rfl := mem_singleton.mp last
            exact ⟨t, listed, a, server, gw, iface, resolved, rfl⟩
        · exact pinned.nets
        · exact pinned.blocked
        · exact pinned.narrowed

theorem pinned_holdServer (pinned : Pinned inp s) (a : Addr) : Pinned inp (holdServer inp s a) := by
  unfold holdServer
  split
  case isTrue occupied => exact pinned_hold pinned (.inl occupied)
  case isFalse => exact pinned

theorem mem_sortTunnels {ts : List TunnelInput} : t ∈ sortTunnels ts ↔ t ∈ ts :=
  mem_insertionSort _

theorem pinned_pinned (inp : DesiredInput) : Pinned inp (pinned inp) := by
  refine foldl_invariant (Pinned inp) (fun s t listed pinned => ?_) ?_
  · have pins : Pinned inp (t.bypass.foldl (pinServer inp t) s) :=
      foldl_invariant (Pinned inp) (fun s a server pinned =>
        pinned_pinServer (mem_sortTunnels.mp listed) pinned server) pinned
    exact foldl_invariant (Pinned inp) (fun s a _ pinned => pinned_holdServer pinned a) pins
  · exact ⟨⟨rfl, by simp, by simp⟩, by simp, rfl, rfl, rfl⟩

end Pins

/-! ### The whole plan -/

/-- The tunnels in the order of their turns, each with the state it meets. -/
def planTurns : List (Planning × TunnelInput) :=
  turns (planTunnel inp (sortTunnels inp.tunnels)) (pinned inp) (sortTunnels inp.tunnels)

def claimsOf (turn : Planning × TunnelInput) : List Prefix :=
  turnNets inp (sortTunnels inp.tunnels) turn.1 turn.2

def listedAt (turn : Planning × TunnelInput) : List Listed :=
  listedOf inp (sortTunnels inp.tunnels) turn.1 turn.2

section Plan

variable {inp : DesiredInput} {ts : List TunnelInput} {s : Planning}
  {t : TunnelInput} {turn : Planning × TunnelInput}

theorem nodup_turnKeys : ((turnNets inp ts s t).map prefixKey).Nodup := by
  refine List.Nodup.map_on (fun p first q second same => ?_) nodup_turnNets
  exact prefixKey_inj (turnNets_sound first).1 (turnNets_sound second).1 same

theorem turnRoutes_dst : ((turnNets inp ts s t).map (netRoute inp t)).map ManagedRoute.dst =
      (turnNets inp ts s t).map prefixKey := by
  rw [map_map]
  exact map_congr_left fun p member =>
    netRoute_dst inp t (turnNets_sound member).1

theorem planned_planTunnel (planned : Planned inp s) : Planned inp (planTunnel inp ts s t) := by
  rw [planTunnel_eq]
  constructor
  · have keys : ((turnNets inp ts s t).map (netClaim t)).map Prod.fst =
        (turnNets inp ts s t).map prefixKey := by
      rw [map_map]
      rfl
    simp only [map_append, map_reverse, keys, turnRoutes_dst,
      planned.claims, reverse_append]
  · simp only [map_append, turnRoutes_dst]
    refine nodup_append.mpr ⟨planned.once, nodup_turnKeys, ?_⟩
    rintro k earlier _ later rfl
    obtain ⟨p, member, rfl⟩ := mem_map.mp later
    exact planned.not_mem_of_unclaimed (turnNets_sound member).2 earlier
  · intro a held
    exact (planned.held a held).mono fun r member =>
      mem_append_left _ member

theorem planned_turn (member : turn ∈ planTurns inp) : Planned inp turn.1 :=
  turns_invariant (Planned inp) (fun _ _ _ planned => planned_planTunnel planned)
    (pinned_pinned inp).toPlanned member

theorem planned_planTunnels (inp : DesiredInput) : Planned inp ((sortTunnels inp.tunnels).foldl
      (planTunnel inp (sortTunnels inp.tunnels)) (pinned inp)) :=
  foldl_invariant (Planned inp) (fun _ _ _ planned => planned_planTunnel planned)
    (pinned_pinned inp).toPlanned

theorem planTunnels_output {β : Type} (out : TunnelPlan → List β)
    (adds : Planning × TunnelInput → List β)
    (grows : ∀ s t, out (planTunnel inp (sortTunnels inp.tunnels) s t).plan =
        out s.plan ++ adds (s, t)) :
    out (planTunnels inp) = out (pinned inp).plan ++ (planTurns inp).flatMap adds :=
  foldl_output (fun s => out s.plan) (fun s t => adds (s, t)) grows _ _

theorem planTunnels_routes (inp : DesiredInput) : (planTunnels inp).routes =
      (pinned inp).plan.routes ++ (planTurns inp).flatMap fun turn =>
          (claimsOf inp turn).map (netRoute inp turn.2) :=
  planTunnels_output TunnelPlan.routes _ fun s t => by
    rw [planTunnel_eq]
    rfl

theorem planTunnels_nets (inp : DesiredInput) :
    (planTunnels inp).nets = (planTurns inp).flatMap (claimsOf inp) := by
  rw [planTunnels_output TunnelPlan.nets (claimsOf inp), (pinned_pinned inp).nets, nil_append]
  intro s t
  rw [planTunnel_eq]
  rfl

theorem planTunnels_blocked (inp : DesiredInput) : (planTunnels inp).blocked =
      (planTurns inp).flatMap fun turn =>
        ((listedAt inp turn).filterMap Listed.blocked).map fun b =>
          (turn.2.name, b) := by
  rw [planTunnels_output TunnelPlan.blocked, (pinned_pinned inp).blocked, nil_append]
  intro s t
  rw [planTunnel_eq]
  rfl

theorem planTunnels_narrowed (inp : DesiredInput) : (planTunnels inp).narrowed =
      (planTurns inp).flatMap fun turn =>
        ((listedAt inp turn).filterMap Listed.narrowed).map fun n =>
          (turn.2.name, n) := by
  rw [planTunnels_output TunnelPlan.narrowed, (pinned_pinned inp).narrowed, nil_append]
  intro s t
  rw [planTunnel_eq]
  rfl

variable {r : ManagedRoute}

theorem mem_planTunnels_routes : r ∈ (planTunnels inp).routes ↔
      r ∈ (pinned inp).plan.routes ∨ ∃ turn ∈ planTurns inp, ∃ p ∈ claimsOf inp turn,
          r = netRoute inp turn.2 p := by
  rw [planTunnels_routes, mem_append, mem_flatMap]
  refine or_congr Iff.rfl (exists_congr fun turn => and_congr Iff.rfl ?_)
  rw [mem_map]
  exact exists_congr fun p => and_congr Iff.rfl eq_comm

theorem routes_before_turn (member : turn ∈ planTurns inp)
    (earlier : r ∈ turn.1.plan.routes) : r ∈ (planTunnels inp).routes :=
  output_before_turn (fun s => s.plan.routes)
    (fun s t => (claimsOf inp (s, t)).map (netRoute inp t))
    (fun s t => by rw [planTunnel_eq]; rfl) member earlier

theorem exists_turn_of_no_gateway
    (member : r ∈ (planTunnels inp).routes) (into : r.route.gateway = "") :
    ∃ turn ∈ planTurns inp, ∃ p ∈ claimsOf inp turn, r = netRoute inp turn.2 p := by
  rcases mem_planTunnels_routes.mp member with pin | claimed
  · exact absurd into ((pinned_pinned inp).pins r pin).gateway_ne
  · exact claimed

theorem mem_tunnels_of_turn (member : turn ∈ planTurns inp) : turn.2 ∈ inp.tunnels :=
  mem_sortTunnels.mp (mem_of_mem_turns member)

theorem exists_planTurn (listed : t ∈ inp.tunnels) : ∃ s, (s, t) ∈ planTurns inp :=
  exists_turn (mem_sortTunnels.mpr listed)

end Plan

end RiftRoute
