/-
Module: RiftRoute.Routing.Tunnels
Purpose: The tunnel planner: server pins first, then each tunnel's listed
  networks, cut around what must stay out of tunnels and around what others
  route, aggregated, and claimed once per destination; then how a plan is
  placed beside the rest of a desired set.
Trusted boundary: human-reviewed spec
-/
import RiftRoute.Library.Folds
import RiftRoute.Routing.Aggregate
import RiftRoute.Routing.DesiredInput
import RiftRoute.Routing.Installed

namespace RiftRoute

open List

open Netip

/-- What the networks do to a prefix: one holds all of it, one lies strictly
inside it, or none meets it. -/
inductive Verdict where
  | inside
  | split
  | apart
deriving DecidableEq, Repr

/-- The loop of `subtractNets`: the first network that meets `p` decides. -/
def verdict (p : Prefix) : List Prefix → Verdict
  | [] => .apart
  | n :: nets =>
    if n.addr.is4 ≠ p.addr.is4 then verdict p nets
    else if n.covers p then .inside
    else if p.bits < n.bits ∧ p.contains n.addr then .split
    else verdict p nets

/-- The recursion of `subtractNets`; `fuel` bounds the splits by the bits the
prefix leaves open. -/
def subtractFrom : Nat → Prefix → List Prefix → List Prefix
  | fuel, p, nets =>
    match verdict p nets with
    | .inside => []
    | .apart => [p]
    | .split =>
      match fuel with
      | 0 => []
      | fuel + 1 =>
        if splits : p.bits < p.addr.bitLen then
          subtractFrom fuel (p.lowHalf splits) nets ++ subtractFrom fuel (p.highHalf splits) nets
        else []

/-- The part of `p` outside every one of the networks, as prefixes. -/
def subtractNets (p : Prefix) (nets : List Prefix) : List Prefix :=
  subtractFrom (p.addr.bitLen - p.bits) p nets

/-- Drop the prefixes that lie inside a network. -/
def outsideTunnels (prefixes nets : List Prefix) : List Prefix :=
  if nets = [] then prefixes
  else prefixes.filter fun p => ¬ nets.any fun n => n.covers p

def aroundTunnels (prefixes nets : List Prefix) : List Prefix :=
  if nets = [] then prefixes
  else prefixes.flatMap fun p => subtractNets p.masked nets

/-! ### The verdict -/

variable {p : Prefix} {nets : List Prefix} {x : Addr}

theorem is4_eq_of_family {a b : Addr} (family : a.is6 = b.is6) : a.is4 = b.is4 := by
  rw [Addr.is4, Addr.is4, family]

theorem verdict_inside (found : verdict p nets = .inside) : ∃ n ∈ nets, n.covers p := by
  induction nets with
  | nil => simp [verdict] at found
  | cons n nets ih =>
    rw [verdict] at found
    have later : verdict p nets = .inside → ∃ m ∈ n :: nets, m.covers p := by
      intro found
      obtain ⟨m, member, covers⟩ := ih found
      exact ⟨m, mem_cons_of_mem _ member, covers⟩
    split at found
    case isTrue => exact later found
    case isFalse =>
      split at found
      case isTrue covers => exact ⟨n, mem_cons_self, covers⟩
      case isFalse =>
        split at found
        case isTrue => simp at found
        case isFalse => exact later found

theorem verdict_split (found : verdict p nets = .split) :
    ∃ n ∈ nets, p.bits < n.bits ∧ p.contains n.addr := by
  induction nets with
  | nil => simp [verdict] at found
  | cons n nets ih =>
    rw [verdict] at found
    have later : verdict p nets = .split →
        ∃ m ∈ n :: nets, p.bits < m.bits ∧ p.contains m.addr := by
      intro found
      obtain ⟨m, member, inner⟩ := ih found
      exact ⟨m, mem_cons_of_mem _ member, inner⟩
    split at found
    case isTrue => exact later found
    case isFalse =>
      split at found
      case isTrue => simp at found
      split at found
      case isTrue inner => exact ⟨n, mem_cons_self, inner⟩
      case isFalse => exact later found

theorem verdict_apart (found : verdict p nets = .apart) : ∀ n ∈ nets, p.Disjoint n := by
  induction nets with
  | nil => simp
  | cons n nets ih =>
    rw [verdict] at found
    intro m member
    split at found
    case isTrue family =>
      rcases mem_cons.mp member with rfl | later
      · intro x held other
        have same := (Prefix.family_of_contains other).symm.trans (Prefix.family_of_contains held)
        exact family (is4_eq_of_family same)
      · exact ih found m later
    case isFalse =>
      split at found
      case isTrue => simp at found
      rename_i outside
      split at found
      case isTrue => simp at found
      rename_i apart
      rcases mem_cons.mp member with rfl | later
      · refine Prefix.disjoint_of_not_covers ?_ outside
        intro covers
        obtain ⟨le, held⟩ := Prefix.covers_iff.mp covers
        rcases le.lt_or_eq with less | same
        · exact apart ⟨less, held⟩
        · exact outside (Prefix.covers_of_shared same.ge m.contains_addr held)
      · exact ih found m later

theorem splits_of_verdict (found : verdict p nets = .split) : p.bits < p.addr.bitLen := by
  obtain ⟨n, _, less, held⟩ := verdict_split found
  have width := Addr.bitLen_eq (Prefix.family_of_contains held)
  have bound := n.bitsLe
  omega

/-! ### What is left -/

/-- The runs of the source's recursion.  A prefix that is split is not of full
length. -/
inductive Subtracts (nets : List Prefix) : Prefix → List Prefix → Prop where
  | inside {p : Prefix} (found : verdict p nets = .inside) : Subtracts nets p []
  | apart {p : Prefix} (found : verdict p nets = .apart) : Subtracts nets p [p]
  | split {p : Prefix} {low high : List Prefix} (found : verdict p nets = .split)
      (splits : p.bits < p.addr.bitLen) (left : Subtracts nets (p.lowHalf splits) low)
      (right : Subtracts nets (p.highHalf splits) high) : Subtracts nets p (low ++ high)

theorem subtracts_subtractFrom {fuel : Nat} (enough : p.addr.bitLen - p.bits ≤ fuel) :
    Subtracts nets p (subtractFrom fuel p nets) := by
  induction fuel generalizing p with
  | zero =>
    rw [subtractFrom]
    cases found : verdict p nets with
    | inside => exact .inside found
    | apart => exact .apart found
    | split =>
      have splits := splits_of_verdict found
      omega
  | succ fuel ih =>
    rw [subtractFrom]
    cases found : verdict p nets with
    | inside => exact .inside found
    | apart => exact .apart found
    | split =>
      have splits := splits_of_verdict found
      dsimp only
      rw [dif_pos splits]
      refine .split found splits (ih ?_) (ih ?_)
      · simp only [Prefix.lowHalf, Prefix.addr_masked, Prefix.bitLen_maskedAddr]
        omega
      · simp only [Prefix.highHalf, Addr.bitLen_setBit,
          Prefix.addr_masked, Prefix.bitLen_maskedAddr]
        omega

theorem subtracts_subtractNets (p : Prefix) (nets : List Prefix) :
    Subtracts nets p (subtractNets p nets) :=
  subtracts_subtractFrom le_rfl

namespace Subtracts

variable {q : Prefix} {left : List Prefix}

section

variable (ran : Subtracts nets p left)

include ran

theorem covers (member : q ∈ left) : p.covers q := by
  induction ran with
  | inside => cases member
  | apart =>
    obtain rfl := mem_singleton.mp member
    exact q.covers_refl
  | split _ splits _ _ low high =>
    rcases mem_append.mp member with here | here
    · exact Prefix.covers_trans (Prefix.covers_lowHalf splits) (low here)
    · exact Prefix.covers_trans (Prefix.covers_highHalf splits) (high here)

theorem isMasked (masked : p.IsMasked) (member : q ∈ left) :
    q.IsMasked := by
  induction ran with
  | inside => cases member
  | apart =>
    obtain rfl := mem_singleton.mp member
    exact masked
  | split _ splits _ _ low high =>
    rcases mem_append.mp member with here | here
    · exact low (Prefix.isMasked_lowHalf splits) here
    · exact high (Prefix.isMasked_highHalf splits) here

theorem covered_iff :
    Covered left x ↔ p.contains x ∧ ¬ Covered nets x := by
  induction ran with
  | inside found =>
    obtain ⟨n, member, covers⟩ := verdict_inside found
    simp only [covered_nil, false_iff, not_and, not_not]
    exact fun held => ⟨n, member, Prefix.contains_of_covers covers held⟩
  | apart found =>
    have free := verdict_apart found
    simp only [covered_cons, covered_nil, or_false, iff_self_and]
    rintro held ⟨n, member, other⟩
    exact free n member x held other
  | split _ splits _ _ low high =>
    simp only [covered_append, low, high, Prefix.contains_iff_halves splits]
    exact or_and_right.symm

theorem pairwise_disjoint : left.Pairwise Prefix.Disjoint := by
  induction ran with
  | inside => exact .nil
  | apart => exact pairwise_singleton _ _
  | split _ splits lows highs low high =>
    refine pairwise_append.mpr ⟨low, high, fun q here r there x first second => ?_⟩
    exact Prefix.not_both_halves splits (Prefix.contains_of_covers (lows.covers here) first)
      (Prefix.contains_of_covers (highs.covers there) second)

end

/-- A half's part whose parent lies in the whole is that half, or its parent
lies in the half. -/
theorem meets_of_half {half n : Prefix} (bits : half.bits = p.bits + 1) (inside : half.covers q)
    (within : p.covers q.parent) (longer : p.bits < n.bits ∧ p.contains n.addr)
    (later : half.covers q.parent → ∃ n ∈ nets, ¬ q.parent.Disjoint n) (member : n ∈ nets) :
    ∃ n ∈ nets, ¬ q.parent.Disjoint n := by
  have around := (Prefix.covers_iff.mp q.parent_covers).2
  obtain ⟨le, held⟩ := Prefix.covers_iff.mp inside
  by_cases deeper : half.bits < q.bits
  · refine later (Prefix.covers_of_shared ?_ held around)
    rw [Prefix.bits_parent]
    omega
  · refine ⟨n, member, fun apart => apart n.addr ?_ n.contains_addr⟩
    have same : q.parent.covers p := by
      refine Prefix.covers_of_shared ?_ around (Prefix.contains_of_covers within around)
      rw [Prefix.bits_parent]
      omega
    exact Prefix.contains_of_covers same longer.2

theorem parent_meets (ran : Subtracts nets p left) (member : q ∈ left) (some : 0 < q.bits)
    (within : p.covers q.parent) : ∃ n ∈ nets, ¬ q.parent.Disjoint n := by
  induction ran with
  | inside => cases member
  | apart =>
    obtain rfl := mem_singleton.mp member
    have le := (Prefix.covers_iff.mp within).1
    rw [Prefix.bits_parent] at le
    omega
  | split found splits lows highs low high =>
    obtain ⟨n, listed, longer⟩ := verdict_split found
    rcases mem_append.mp member with here | here
    · exact meets_of_half rfl (lows.covers here) within longer (low here) listed
    · exact meets_of_half rfl (highs.covers here) within longer (high here) listed

end Subtracts

theorem covers_of_mem_subtractNets {q : Prefix} (member : q ∈ subtractNets p nets) : p.covers q :=
  (subtracts_subtractNets p nets).covers member

theorem isMasked_of_mem_subtractNets {q : Prefix} (masked : p.IsMasked)
    (member : q ∈ subtractNets p nets) : q.IsMasked :=
  (subtracts_subtractNets p nets).isMasked masked member

theorem covered_subtractNets : Covered (subtractNets p nets) x ↔ p.contains x ∧ ¬ Covered nets x :=
  (subtracts_subtractNets p nets).covered_iff

/-- **What `subtractNets` leaves is a partition of the addresses outside the
networks** into prefixes inside `p` that cannot be widened: the next wider one
leaves `p` or meets a network.  The recursion ends. -/
theorem subtractNets_partition (p : Prefix) (nets : List Prefix) :
    Subtracts nets p (subtractNets p nets) ∧
    (subtractNets p nets).Pairwise Prefix.Disjoint ∧
    (∀ q ∈ subtractNets p nets, p.covers q) ∧
    (∀ x, Covered (subtractNets p nets) x ↔ p.contains x ∧ ¬ Covered nets x) ∧
    ∀ q ∈ subtractNets p nets, 0 < q.bits → p.covers q.parent →
      ∃ n ∈ nets, ¬ q.parent.Disjoint n :=
  have ran := subtracts_subtractNets p nets
  ⟨ran, ran.pairwise_disjoint, fun _ => ran.covers, fun _ => ran.covered_iff,
    fun _ => ran.parent_meets⟩

variable (inp : DesiredInput) (pfx : Prefix) (t : TunnelInput) (ts : List TunnelInput)
  (s : Planning) (tp : TunnelPlan) {prefixes : List Prefix}

theorem covered_aroundTunnels : Covered (aroundTunnels prefixes nets) x ↔
      Covered prefixes x ∧ ¬ Covered nets x := by
  unfold aroundTunnels
  split
  case isTrue none => simp [none]
  case isFalse =>
    constructor
    · rintro ⟨q, member, held⟩
      obtain ⟨p, listed, part⟩ := mem_flatMap.mp member
      obtain ⟨inside, outside⟩ := covered_subtractNets.mp ⟨q, part, held⟩
      exact ⟨⟨p, listed, by simpa using inside⟩, outside⟩
    · rintro ⟨⟨p, listed, held⟩, outside⟩
      obtain ⟨q, part, inside⟩ :=
        covered_subtractNets.mpr ⟨(p.contains_masked x).symm ▸ held, outside⟩
      exact ⟨q, mem_flatMap.mpr ⟨p, listed, part⟩, inside⟩

theorem mem_outsideTunnels : p ∈ outsideTunnels prefixes nets ↔
      p ∈ prefixes ∧ ∀ n ∈ nets, ¬ n.covers p := by
  unfold outsideTunnels
  split
  case isTrue none => simp [none]
  case isFalse => simp

def prefixKey (p : Prefix) : DstKey := { family := famOf p.addr, table := "", dst := p.masked.text }

/-- What the managed tunnels contribute on the current network.  The maps by
tunnel name are lists of their entries. -/
structure TunnelPlan where
  routes : List ManagedRoute := []
  blocked : List (String × TunnelBlocked) := []
  narrowed : List (String × TunnelNarrowed) := []
  /-- The destinations live tunnels route or blocking tunnels refuse. -/
  nets : List Prefix := []

/-- What routes a destination the tunnels hand out. -/
structure Claim where
  tunnel : String
  pin : Bool := false
  refuse : Bool := false
deriving DecidableEq

def Claim.reason (c : Claim) (tunnel : String) : String :=
  if c.pin ∧ c.tunnel = tunnel then
    "it's the tunnel's own server, pinned to your physical gateway"
  else if c.pin then
    "it's tunnel " ++ c.tunnel ++ "'s server, pinned to your physical gateway"
  else if c.refuse then
    "already blocked for tunnel " ++ c.tunnel ++ " while it's down"
  else "already routed into tunnel " ++ c.tunnel

/-- The addresses a tunnel's connection may go to. -/
def servers (t : TunnelInput) : List Addr := t.bypass ++ t.servers

def TunnelPlan.add (rt : Route) (tag : String)
    (inp : DesiredInput) : TunnelPlan :=
  { tp with
    routes := tp.routes ++
      [{ route :=
          { rt with
            owner := .riftRoute, proto := protoFor inp.platform
            profile := tag }
         profileID := tag
         createdAt := inp.now }] }

/-! ### What a listed route must keep out -/

/-- Another owner routes exactly this destination. -/
def tunnelRouteBlock (inp : DesiredInput) : Option String :=
  (inp.occupied.lookup pfx.masked.text).map fun iface =>
    "already routed via " ++ iface ++ " by something else (another VPN or the system)"

/-- An address a tunnel route mustn't carry, and why; `net` is the network
kept out with it, on an interface. -/
structure KeptOut where
  addr : Addr
  why : String
  net : Option Prefix := none
  on : String := ""
deriving DecidableEq

def maxCarved : Nat := 1024

def maxKeptResolvers : Nat := 8

def firstResolvers : Nat → Nat → List Addr → List Addr
  | _, _, [] => []
  | v4, v6, a :: rest =>
    if a.is4 then
      match v4 with
      | 0 => firstResolvers 0 v6 rest
      | v4 + 1 => a :: firstResolvers v4 v6 rest
    else
      match v6 with
      | 0 => firstResolvers v4 0 rest
      | v6 + 1 => a :: firstResolvers v4 v6 rest

/-- The router, with its network, when the prefix holds it. -/
def keepRouter (inp : DesiredInput) : List KeptOut :=
  let gateway := if pfx.addr.is6 then inp.gatewayV6.map Addr.withoutZone
    else inp.gatewayV4
  let lan := if pfx.addr.is6 then inp.physNetV6 else inp.physNetV4
  let on := if pfx.addr.is6 then inp.physIfaceV6 else inp.physIfaceV4
  match gateway with
  | none => []
  | some gw =>
    if pfx.contains gw then
      let k : KeptOut := { addr := gw, why := "your router " ++ gw.text }
      match lan with
      | none => [k]
      | some lan =>
        if lan.contains gw then
          [{ k with
              net := some (if lan.bits ≤ pfx.bits then pfx else lan.masked)
              on := on }]
        else [k]
    else []

/-- The servers of one tunnel that the prefix holds and nothing holds off the
tunnels. -/
def keepServers (held : List Addr)
    (o : TunnelInput) : List KeptOut :=
  ((servers o).filter fun a => pfx.contains a ∧ a ∉ held).map fun a =>
    { addr := a
      why :=
        if o.name = t.name then "the tunnel's own server " ++ a.text
        else "tunnel " ++ o.name ++ "'s server " ++ a.text }

/-- Every reason to keep an address of a prefix out of a tunnel; `essential`
leaves resolvers and anchors aside. -/
def keepOutReasons (held : List Addr) (inp : DesiredInput) (essential : Bool) :
    List KeptOut :=
  let resolvers := firstResolvers maxKeptResolvers maxKeptResolvers inp.dnsServers
  keepRouter pfx inp ++ (if essential then [] else
      (resolvers.filter fun a => pfx.contains a).map fun a =>
        { addr := a, why := "your DNS server " ++ a.text }) ++
    (if essential then [] else
      (inp.anchors.filter fun a => pfx.contains a).map fun a =>
        { addr := a
          why := a.text ++
            ", which RiftRoute probes to check a change kept you online" }) ++
    ts.flatMap (keepServers pfx t held)

/-- What a prefix holds that mustn't go into a tunnel: one address, said once,
with the first reason. -/
def keepOut (held : List Addr) (inp : DesiredInput) (essential : Bool) :
    List KeptOut :=
  firsts KeptOut.addr [] (keepOutReasons pfx t ts held inp essential)

/-- A route someone else has inside a tunnel destination. -/
structure RouteInside where
  net : Prefix
  via : String
deriving DecidableEq

/-- One prefix lies inside another and is more specific. -/
def isInside (pfx q : Prefix) : Bool :=
  q.addr.is4 = pfx.addr.is4 ∧ pfx.bits < q.bits ∧ pfx.contains q.addr

/-- The other owners' routes inside a prefix. -/
def occupiedInside (occupied : List (String × String)) : List RouteInside :=
  occupied.filterMap fun entry =>
    (Netip.parsePrefix entry.1).bind fun q =>
      if isInside pfx q.masked then some { net := q.masked, via := entry.2 }
      else none

def listedInside (name : String) (ts : List TunnelInput) : List RouteInside :=
  (ts.filter fun o => o.name ≠ name).flatMap fun o =>
    o.routes.filterMap fun v =>
      (entryToPrefix v).bind fun entry =>
        if isInside pfx entry.1.masked then
          some { net := entry.1.masked, via := "tunnel " ++ o.name }
        else none

def othersInside (name : String) (ts : List TunnelInput)
    (occupied : List (String × String)) : List RouteInside :=
  List.insertionSort (fun a b => ¬ b.net.text < a.net.text)
    (occupiedInside pfx occupied ++ listedInside pfx name ts)

/-! ### Carving -/

/-- What is kept out for one address: its network, the narrowest route that
holds it, or the address alone; and why. -/
def holeFor (k : KeptOut) (others : List RouteInside) : Prefix × String :=
  match k.net with
  | some net => (net, "the network of " ++ k.why ++ ", on " ++ k.on)
  | none =>
    let widened := others.foldl (fun found o =>
      if ¬ o.net.contains k.addr ∨ found.any fun hole => o.net.bits ≤ hole.net.bits then found
      else some o) (none : Option RouteInside)
    match widened with
    | none => (Prefix.host k.addr, k.why)
    | some o =>
      (o.net, if o.net.isSingleIP then k.why ++ ", routed via " ++ o.via
        else "the network of " ++ k.why ++ ", via " ++ o.via)

/-- The reasons given for each hole, the holes in the order met. -/
abbrev Reasons := List (Prefix × List String)

def Reasons.extend (reasons : Reasons) (hole : Prefix) (whys : List String) : Reasons :=
  if reasons.any fun entry => entry.1 = hole then
    reasons.map fun entry =>
      if entry.1 = hole then (entry.1, entry.2 ++ whys) else entry
  else reasons ++ [(hole, whys)]

def holeReasons (keep : List KeptOut) (others : List RouteInside) : Reasons :=
  keep.foldl (fun reasons k =>
    let hole := holeFor k others
    reasons.extend hole.1 [hole.2]) []

/-- The outermost hole a hole lies in. -/
def outermost (holes : List Prefix) (h : Prefix) : Prefix :=
  holes.foldl (fun top o =>
    if o.bits < top.bits ∧ o.contains h.addr then o else top) h

/-- The order of addresses: by family, then by value. -/
def addrLess (a b : Addr) : Bool :=
  if a.bitLen = b.bitLen then a.toNat < b.toNat else a.bitLen < b.bitLen

/-- A hole inside another is said with the outermost. -/
def exceptOf (reasons : Reasons) : List TunnelExcept :=
  let holes := List.insertionSort (fun a b => ¬ addrLess b.addr a.addr) (reasons.map Prod.fst)
  let said := holes.foldl (fun (said : Reasons) h =>
    let top := outermost holes h
    if top ≠ h then said.extend top ((said.lookup h).getD []) else said) reasons
  (holes.filter fun h => outermost holes h = h).map fun h =>
    { net := if h.isSingleIP then h.addr.text else h.text
      reason := "; ".intercalate ((said.lookup h).getD []) }

/-- The prefix without what is kept out, and what was kept out.  Parts inside
another's route, or claimed by a tunnel, stay theirs. -/
def carve (keep : List KeptOut) (others : List RouteInside)
    (taken : List (DstKey × Claim)) : List Prefix × List TunnelExcept :=
  let reasons := holeReasons keep others
  let parts := (subtractNets pfx (reasons.map Prod.fst)).filter fun p =>
    ¬ (others.any fun o => o.net.covers p) ∧ (taken.lookup (prefixKey p)).isNone
  (parts, exceptOf reasons)

def exceptText (except : List TunnelExcept) : String :=
  ", ".intercalate (except.map fun e => e.net ++ " (" ++ e.reason ++ ")")

/-! ### Planning -/

/-- What the planner has handed out so far: the claims by destination, the
servers a host route keeps out of the tunnels, and the plan. -/
structure Planning where
  taken : List (DstKey × Claim) := []
  held : List Addr := []
  plan : TunnelPlan := {}

/-- A main-table destination someone else routes. -/
def DesiredInput.isOccupied (p : Prefix) : Bool :=
  (inp.occupied.lookup p.text).isSome

/-- Live tunnels first, each group in name order. -/
def tunnelLess (a b : TunnelInput) : Bool :=
  if (a.iface ≠ "") ≠ (b.iface ≠ "") then a.iface ≠ "" else a.name < b.name

def sortTunnels : List TunnelInput :=
  List.insertionSort (fun a b => ¬ tunnelLess b a) ts

def pinServer (a : Addr) : Planning :=
  match resolveGateway "auto" (famOf a) inp with
  | .error _ => s
  | .ok (gw, iface) =>
    let host := Prefix.host a
    if inp.isOccupied host then s
    else
      let s := { s with held := a :: s.held }
      if (s.taken.lookup (prefixKey host)).isSome then s
      else
        { s with
          taken := (prefixKey host, { tunnel := t.name, pin := true }) ::
            s.taken
          plan := s.plan.add
            { dstCIDR := host.text, gateway := gw.text, iface := iface
              family := famOf a } (tunnelProfilePrefix ++ t.name) inp }

def holdServer (a : Addr) : Planning :=
  if inp.isOccupied (Prefix.host a) then { s with held := a :: s.held } else s

def pinTunnel (t : TunnelInput) : Planning :=
  (servers t).foldl (holdServer inp) (t.bypass.foldl (pinServer inp t) s)

/-- What becomes of one listed route: the parts of it to install and what is
reported about it. -/
structure Listed where
  family : Family
  parts : List Prefix := []
  blocked : Option TunnelBlocked := none
  narrowed : Option TunnelNarrowed := none

/-- The network a Tailscale beside RiftRoute routes the prefix in. -/
def tailscaleBlock (inp : DesiredInput) : Option String :=
  (inp.tailscale.find? fun n =>
    n.addr.is4 = pfx.addr.is4 ∧ n.covers pfx).map fun n =>
      "it's inside " ++ n.text ++ ", which Tailscale routes — left to it"

/-- Why a listed route is left out before anything is carved; `none` is the
source's empty text. -/
def leftOut (t : TunnelInput)
    (pfx : Prefix) (noV6 : Bool) : Option String :=
  (if noV6 ∧ ¬ t.block then some "the tunnel has no IPv6 address" else none)
    <|> tunnelRouteBlock pfx inp
    <|> (s.taken.lookup (prefixKey pfx)).map (fun c => c.reason t.name)
    <|> tailscaleBlock pfx inp

/-- The parts of a listed route around what must stay out of tunnels.  A
tunnel set to block keeps out only what keeps the connection when the rest
leaves too little or takes too many routes. -/
def carveListed (t : TunnelInput) (pfx : Prefix) : List Prefix × List TunnelExcept :=
  let others := othersInside pfx t.name ts inp.occupied
  let carved := carve pfx (keepOut pfx t ts s.held inp false) others s.taken
  if t.block ∧ (carved.1 = [] ∨ maxCarved < carved.1.length) then
    carve pfx (keepOut pfx t ts s.held inp true) others s.taken
  else carved

/-- The turn of one listed route, a masked prefix. -/
def planPrefix (t : TunnelInput) (v : String) (pfx : Prefix) (fam : Family) : Listed :=
  let noV6 : Bool := t.iface ≠ "" ∧ fam = .v6 ∧ ¬ t.v6
  let refused := some
    { route := v
      reason := "the tunnel has no IPv6 address, so it's refused " ++
        "(block when down)" }
  match leftOut inp s t pfx noV6 with
  | some why => { family := fam, blocked := some { route := v, reason := why } }
  | none =>
    if keepOut pfx t ts s.held inp false = [] then
      { family := fam, parts := [pfx]
        blocked := if noV6 then refused else none }
    else
      let carved := carveListed inp ts s t pfx
      if carved.1 = [] then
        { family := fam
          blocked := some
            { route := v
              reason := "nothing would be left once these are kept out: " ++
                exceptText carved.2 } }
      else if maxCarved < carved.1.length then
        { family := fam
          blocked := some
            { route := v
              reason := "it would take " ++ toString carved.1.length ++
                " routes to go around " ++ exceptText carved.2 ++
                "; list narrower networks" } }
      else
        { family := fam, parts := carved.1
          blocked := if noV6 then refused else none
          narrowed := some { route := v, except := carved.2 } }

/-- The turn of one listed route; one that is no destination is passed
over. -/
def planRoute (t : TunnelInput) (v : String) : Option Listed :=
  (entryToPrefix v).map fun entry =>
    planPrefix inp ts s t v entry.1.masked entry.2

/-- A tunnel's destinations aggregated, never into a claimed prefix. -/
def unclaimedAggregate (prefixes : List Prefix) (taken : List (DstKey × Claim)) : List Prefix :=
  firsts id [] ((aggregate prefixes).flatMap fun agg =>
    if (taken.lookup (prefixKey agg)).isSome then
      prefixes.filter fun p => agg.covers p
    else [agg])

def claimNet (fam : Family)
    (refuse : Bool) (s : Planning) (pfx : Prefix) : Planning :=
  let tag := tunnelProfilePrefix ++ t.name
  let plan := { s.plan with nets := s.plan.nets ++ [pfx] }
  { s with
    taken := (prefixKey pfx, { tunnel := t.name, refuse := refuse }) :: s.taken
    plan :=
      if refuse then
        plan.add { dstCIDR := pfx.text, family := fam, reject := true } tag inp
      else
        plan.add { dstCIDR := pfx.text, iface := t.iface, family := fam } tag
          inp }

/-- The parts a tunnel's listed routes leave in a family. -/
def partsOf (listed : List Listed) (fam : Family) : List Prefix :=
  (listed.filter fun l => l.family = fam).flatMap Listed.parts

def claimFamily (listed : List Listed)
    (s : Planning) (fam : Family) : Planning :=
  let refuse : Bool := t.iface = "" ∨ fam = .v6 ∧ ¬ t.v6
  (unclaimedAggregate (partsOf listed fam) s.taken).foldl (claimNet inp t fam refuse) s

def listedOf (t : TunnelInput) : List Listed :=
  t.routes.filterMap (planRoute inp ts s t)

def TunnelInput.installs : Bool := t.iface ≠ "" ∨ t.block

def report (listed : List Listed) (plan : TunnelPlan) : TunnelPlan :=
  { plan with
    blocked := plan.blocked ++
      (listed.filterMap Listed.blocked).map fun b => (t.name, b)
    narrowed := plan.narrowed ++
      (listed.filterMap Listed.narrowed).map fun n => (t.name, n) }

def planTunnel (t : TunnelInput) : Planning :=
  let listed := listedOf inp ts s t
  let reported := { s with plan := report t listed s.plan }
  if t.installs then
    [Family.v4, Family.v6].foldl (claimFamily inp t listed) reported
  else reported

/-- The state after every server is pinned. -/
def pinned : Planning := (sortTunnels inp.tunnels).foldl (pinTunnel inp) {}

def planTunnels : TunnelPlan :=
  let ts := sortTunnels inp.tunnels
  (ts.foldl (planTunnel inp ts) (pinned inp)).plan

/-- Add a route to a desired set, unless one with its key is in it.  The
source keeps the keys of the set beside it. -/
abbrev addRoute : List ManagedRoute → ManagedRoute → List ManagedRoute := addNew ManagedRoute.key

abbrev addRule : List ManagedRule → ManagedRule → List ManagedRule := addNew ManagedRule.key

/-- One route of a plan: left out when its destination is taken. -/
def placeRoute (state : List DstKey × List ManagedRoute) (r : ManagedRoute) :
    List DstKey × List ManagedRoute :=
  if r.dst ∈ state.1 then state else (r.dst :: state.1, addRoute state.2 r)

/-- Add the plan's routes to a desired set, leaving out any whose exact
destination the set already routes. -/
def TunnelPlan.place (routes : List ManagedRoute) : List ManagedRoute :=
  (tp.routes.foldl placeRoute (routes.map ManagedRoute.dst, routes)).2

/-- A main-table route inside the plan's networks yields to them. -/
def TunnelPlan.yields (o : ManagedRoute) : Bool :=
  o.route.table = "" ∧ (Netip.parsePrefix o.route.dstCIDR).any fun pfx =>
      outsideTunnels [pfx] tp.nets = []

/-- The rest of a desired set with the plan's routes added. -/
def TunnelPlan.beside (others : List ManagedRoute) : List ManagedRoute :=
  tp.place ((others.filter fun o => ¬ tp.yields o).foldl addRoute [])

/-- `strings.CutPrefix`. -/
def cutPrefix (s start : String) : Option String :=
  if hasPrefix s start then
    some (String.ofList (s.toList.drop start.toList.length))
  else none

def ruleDestination (r : PolicyRule) : Option Prefix :=
  (cutPrefix r.selector "to ").bind fun dst =>
    if ' ' ∈ dst.toList then none else (entryToPrefix dst).map Prod.fst

def ManagedRule.withDestination (r : ManagedRule) (p : Prefix) : ManagedRule :=
  { r with rule := { r.rule with selector := "to " ++ p.text } }

/-- What is left of a rule around networks. -/
def rulePieces (nets : List Prefix) (r : ManagedRule) : List ManagedRule :=
  match ruleDestination r.rule with
  | none => [r]
  | some pfx =>
    let parts := aroundTunnels [pfx] nets
    if parts = [pfx.masked] then [r]
    else parts.map r.withDestination

/-- The rules include profiles installed, placed beside the tunnels. -/
def TunnelPlan.rulesBeside (rules : List ManagedRule) : List ManagedRule :=
  if tp.nets = [] then rules
  else (rules.flatMap (rulePieces tp.nets)).foldl addRule []

/-! ### What placing does -/

section Placing

variable {planned routes : List ManagedRoute} {r : ManagedRoute}
  {taken : List DstKey}

theorem mem_of_placeRoute (member : r ∈ (planned.foldl placeRoute (taken, routes)).2) :
    r ∈ routes ∨ r ∈ planned ∧ r.dst ∉ taken := by
  induction planned generalizing taken routes with
  | nil => exact .inl member
  | cons q rest ih =>
    rw [foldl_cons, placeRoute] at member
    split at member
    case isTrue =>
      exact (ih member).imp_right (.imp_left (mem_cons_of_mem _))
    case isFalse free =>
      rcases ih member with held | ⟨later, apart⟩
      · refine (mem_addNew held).imp_right ?_
        rintro rfl
        exact ⟨mem_cons_self, free⟩
      · exact .inr ⟨mem_cons_of_mem _ later, fun held => apart (mem_cons_of_mem _ held)⟩

theorem mem_placeRoute_of_mem (held : r ∈ routes) :
    r ∈ (planned.foldl placeRoute (taken, routes)).2 := by
  induction planned generalizing taken routes with
  | nil => exact held
  | cons q rest ih =>
    rw [foldl_cons, placeRoute]
    split
    · exact ih held
    · exact ih (mem_addNew_of_mem held)

theorem mem_placeRoute (known : ∀ q ∈ routes, q.dst ∈ taken)
    (once : (planned.map ManagedRoute.dst).Nodup) (member : r ∈ planned)
    (free : r.dst ∉ taken) :
    r ∈ (planned.foldl placeRoute (taken, routes)).2 := by
  induction planned generalizing taken routes with
  | nil => simp at member
  | cons q rest ih =>
    rw [map_cons, nodup_cons] at once
    rw [foldl_cons, placeRoute]
    rcases mem_cons.mp member with rfl | later
    · rw [if_neg free]
      refine mem_placeRoute_of_mem ?_
      have fresh : r.key ∉ routes.map ManagedRoute.key := by
        intro present
        obtain ⟨q, held, same⟩ := mem_map.mp present
        exact free (ManagedRoute.dst_eq_of_key_eq same ▸ known q held)
      simp [addNew, fresh]
    · have apart : r.dst ≠ q.dst := by
        intro same
        exact once.1 (same ▸ mem_map_of_mem later)
      split
      case isTrue => exact ih known once.2 later free
      case isFalse =>
        refine ih ?_ once.2 later ?_
        · intro o held
          rcases mem_addNew held with before | rfl
          · exact mem_cons_of_mem _ (known o before)
          · exact mem_cons_self
        · rw [mem_cons, not_or]
          exact ⟨apart, free⟩

variable {tp : TunnelPlan}

theorem mem_of_mem_place (member : r ∈ tp.place routes) :
    r ∈ routes ∨ r ∈ tp.routes ∧ r.dst ∉ routes.map ManagedRoute.dst :=
  mem_of_placeRoute member

theorem mem_place_of_mem (held : r ∈ routes) : r ∈ tp.place routes :=
  mem_placeRoute_of_mem held

theorem mem_place (once : (tp.routes.map ManagedRoute.dst).Nodup) (member : r ∈ tp.routes)
    (free : r.dst ∉ routes.map ManagedRoute.dst) : r ∈ tp.place routes :=
  mem_placeRoute (fun _ held => mem_map_of_mem held) once member free

end Placing

end RiftRoute
