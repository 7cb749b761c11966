/-
Module: RiftRoute.Routing.Installed
Purpose: Which owned routes the kernel really holds.  A table read is indexed
  by masked destination and next hop, a gateway in one spelling whichever
  source it came from; `verifyRoutes` compares the ownership records with it.
Trusted boundary: human-reviewed spec
-/
import RiftRoute.Routing.Reconcile

namespace RiftRoute

open List

/-- Spell a gateway one way: a link-local one may carry a zone, or its scope
embedded in the address. -/
def gatewayKey (s : String) : String :=
  match Netip.parseAddr s with
  | none => s
  | some addr =>
    let addr := addr.unmap.withoutZone
    match addr with
    | .v4 _ => addr.text
    | .v6 bits zone =>
      if addr.isLinkLocalUnicast then
        (Netip.Addr.v6 (bits &&& ~~~(0xffff#128 <<< 96)) zone).text
      else addr.text

variable (r : Route)

/-- `dstKey` with the destination masked, as kernels list it. -/
def maskedDstKey : DstKey :=
  match Netip.parsePrefix r.dstCIDR with
  | none => dstKey r
  | some pfx => dstKey { r with dstCIDR := pfx.masked.text }

/-- How a route leaves: what an index tells routes of one destination apart
by. -/
inductive NextHop where
  | reject
  | dev (iface : String)
  | via (gateway : String)
deriving DecidableEq, Repr

/-- A table read, indexed.  `lowest` is the lowest metric of a destination's
routes, interface-scoped ones aside. -/
structure Installed where
  routes : DstKey → NextHop → Bool
  lowest : DstKey → Option Int

def Route.nextHops : List NextHop :=
  if r.reject then [.reject]
  else
    .dev r.iface :: if r.gateway ≠ "" then [.via (gatewayKey r.gateway)] else []

def Route.nextHop : NextHop :=
  if r.reject then .reject
  else if r.gateway ≠ "" then .via (gatewayKey r.gateway)
  else .dev r.iface

namespace Installed

/-- Index one kernel route.  Clone entries do not count. -/
def add (i : Installed) (r : Route) : Installed :=
  if r.cloned then i
  else
    { routes := fun dst hop =>
        i.routes dst hop ||
          decide (dst = maskedDstKey r) && decide (hop ∈ r.nextHops)
      lowest := fun dst =>
        if dst = maskedDstKey r ∧ ¬ r.isScoped then
          match i.lowest dst with
          | none => some r.metric
          | some lowest => if r.metric < lowest then some r.metric else some lowest
        else i.lowest dst }

end Installed

def indexInstalled (kernel : List Route) : Installed :=
  kernel.foldl Installed.add { routes := fun _ _ => false, lowest := fun _ => none }

def effectiveMetric : Int :=
  if r.metric > 0 then r.metric else if r.family = .v6 then 1024 else 0

namespace Installed

/-- Whether the kernel holds a route. -/
def has (i : Installed) (r : Route) : Bool := i.routes (maskedDstKey r) r.nextHop

/-- Whether a route to the destination leaves this one no place. -/
def outranked (i : Installed) (r : Route) : Bool :=
  (i.lowest (maskedDstKey r)).any fun lowest => lowest ≤ effectiveMetric r

end Installed

def tunnelProfilePrefix : String := "tunnel:"

def isTunnelRoute (mr : ManagedRoute) : Bool := hasPrefix mr.profileID tunnelProfilePrefix

/-- What `verifyRoutes` found: the owned routes as the kernel really holds
them, those to put back, and those whose destination another route holds. -/
structure Verified where
  kept : List ManagedRoute := []
  missing : List ManagedRoute := []
  taken : List ManagedRoute := []

section Verify

variable (desired : List ManagedRoute) (read : Family → Option (List Route))
  (held : RouteKey → Bool) (only : ManagedRoute → Bool)

/-- Check one owned route.  A failed read changes nothing. -/
def verifyRoute (v : Verified) (o : ManagedRoute) : Verified :=
  let index :=
    if (indexRoutes desired o.key).isSome && only o then
      (read o.route.family).map indexInstalled
    else none
  match index with
  | none => { v with kept := v.kept ++ [o] }
  | some i =>
    if i.has o.route then { v with kept := v.kept ++ [o] }
    else if i.outranked o.route then
      { v with kept := v.kept ++ [o], taken := v.taken ++ [o] }
    else if held o.key && !isTunnelRoute o then
      { v with kept := v.kept ++ [o] }
    else { v with missing := v.missing ++ [o] }

/-- Compare the owned routes with the kernel's tables. -/
def verifyRoutes (owned : List ManagedRoute) : Verified :=
  owned.foldl (verifyRoute desired read held only) {}

end Verify

/-! ### What the index and the check find -/

open Installed

theorem Installed.routes_foldl (kernel : List Route) (i : Installed)
    (dst : DstKey) (hop : NextHop) :
    (kernel.foldl add i).routes dst hop ↔
      i.routes dst hop ∨ ∃ r ∈ kernel, r.cloned = false ∧
        dst = maskedDstKey r ∧ hop ∈ r.nextHops := by
  induction kernel generalizing i with
  | nil => simp
  | cons r kernel ih =>
    rw [foldl_cons, ih]
    cases cloned : r.cloned with
    | true => simp [add, cloned]
    | false => simp [add, cloned, or_assoc]

theorem nextHop_mem_nextHops : r.nextHop ∈ r.nextHops := by
  unfold Route.nextHop Route.nextHops
  split
  · simp
  · split <;> simp

theorem nextHop_eq_of_key_eq {first second : Route} (same : routeKey first = routeKey second) :
    maskedDstKey first = maskedDstKey second ∧ first.nextHop = second.nextHop := by
  have gateway : first.gateway = second.gateway := congrArg RouteKey.gateway same
  have iface : first.iface = second.iface := congrArg RouteKey.iface same
  have reject : first.reject = second.reject := congrArg RouteKey.reject same
  have dst : dstKey first = dstKey second := congrArg RouteKey.dst same
  have family : first.family = second.family := congrArg DstKey.family dst
  have table : first.table = second.table := congrArg DstKey.table dst
  have cidr : first.dstCIDR = second.dstCIDR := congrArg DstKey.dst dst
  constructor
  · simp [maskedDstKey, dstKey, family, table, cidr]
  · simp [Route.nextHop, gateway, iface, reject]

theorem Installed.lowest_foldl (kernel : List Route) (i : Installed) (dst : DstKey) (bound : Int) :
    ((kernel.foldl add i).lowest dst).any (· ≤ bound) ↔
      (i.lowest dst).any (· ≤ bound) ∨ ∃ r ∈ kernel, r.cloned = false ∧
        r.isScoped = false ∧ dst = maskedDstKey r ∧ r.metric ≤ bound := by
  induction kernel generalizing i with
  | nil => simp
  | cons r kernel ih =>
    have one : ((i.add r).lowest dst).any (· ≤ bound) ↔
        (i.lowest dst).any (· ≤ bound) ∨ r.cloned = false ∧
          r.isScoped = false ∧ dst = maskedDstKey r ∧ r.metric ≤ bound := by
      unfold add
      cases cloned : r.cloned with
      | true => simp
      | false =>
        by_cases counts : dst = maskedDstKey r ∧ ¬ r.isScoped
        · obtain ⟨here, unscoped⟩ := counts
          cases lowest : i.lowest dst with
          | none => simp [← here, unscoped, lowest]
          | some least =>
            have either : (if r.metric < least then some r.metric
                else some least).any (· ≤ bound) ↔ least ≤ bound ∨ r.metric ≤ bound := by
              split
              · simp only [Option.any_some, decide_eq_true_eq]
                omega
              · simp only [Option.any_some, decide_eq_true_eq]
                omega
            simpa [← here, unscoped, lowest] using either
        · have skipped : ¬ (r.isScoped = false ∧ dst = maskedDstKey r ∧ r.metric ≤ bound) :=
            fun ⟨unscoped, here, _⟩ => counts ⟨here, by simp [unscoped]⟩
          simp only [Bool.false_eq_true, if_false, if_neg counts, true_and, skipped, or_false]
    rw [foldl_cons, ih, one, or_assoc]
    simp only [mem_cons, exists_eq_or_imp]

theorem outranked_iff {kernel : List Route} {r : Route} :
    (indexInstalled kernel).outranked r ↔ ∃ e ∈ kernel, e.cloned = false ∧
      e.isScoped = false ∧ maskedDstKey r = maskedDstKey e ∧
      e.metric ≤ effectiveMetric r := by
  rw [outranked, indexInstalled, lowest_foldl]
  simp

theorem has_iff {kernel : List Route} {r : Route} :
    (indexInstalled kernel).has r ↔ ∃ e ∈ kernel, e.cloned = false ∧
      maskedDstKey r = maskedDstKey e ∧ r.nextHop ∈ e.nextHops := by
  rw [has, indexInstalled, routes_foldl]
  simp

theorem has_of_mem {kernel : List Route} {entry r : Route}
    (member : entry ∈ kernel) (real : entry.cloned = false)
    (same : routeKey entry = routeKey r) : (indexInstalled kernel).has r := by
  obtain ⟨dst, hop⟩ := nextHop_eq_of_key_eq same
  apply has_iff.mpr
  exact ⟨entry, member, real, dst.symm, hop ▸ nextHop_mem_nextHops entry⟩

section Verify

variable (desired : List ManagedRoute) (read : Family → Option (List Route))
  (held : RouteKey → Bool) (only : ManagedRoute → Bool)

/-- Whether the check keeps a recorded route: it is not wanted, not checked,
not missing, or held. -/
def keepsRoute (o : ManagedRoute) : Bool :=
  if (indexRoutes desired o.key).isSome && only o then
    (read o.route.family).all fun rows =>
      (indexInstalled rows).has o.route || ((indexInstalled rows).outranked o.route ||
          held o.key && !isTunnelRoute o)
  else true

theorem verifyRoute_eq (v : Verified) (o : ManagedRoute) :
    (verifyRoute desired read held only v o).kept =
        (if keepsRoute desired read held only o then v.kept ++ [o] else v.kept) ∧
      (verifyRoute desired read held only v o).missing =
        if keepsRoute desired read held only o then v.missing else v.missing ++ [o] := by
  unfold verifyRoute keepsRoute
  cases (indexRoutes desired o.key).isSome && only o with
  | false => exact ⟨rfl, rfl⟩
  | true =>
    cases read o.route.family with
    | none => exact ⟨rfl, rfl⟩
    | some rows =>
      simp only [if_true, Option.map_some, Option.all_some]
      cases (indexInstalled rows).has o.route with
      | true => exact ⟨rfl, rfl⟩
      | false =>
        cases (indexInstalled rows).outranked o.route with
        | true => exact ⟨rfl, rfl⟩
        | false => cases held o.key && !isTunnelRoute o <;> exact ⟨rfl, rfl⟩

variable (owned : List ManagedRoute)

theorem verifyRoutes_eq :
    (verifyRoutes desired read held only owned).kept =
        owned.filter (keepsRoute desired read held only) ∧
      (verifyRoutes desired read held only owned).missing =
        owned.filter fun o => !keepsRoute desired read held only o := by
  have fold : ∀ v : Verified, (owned.foldl (verifyRoute desired read held only) v).kept =
        v.kept ++ owned.filter (keepsRoute desired read held only) ∧
      (owned.foldl (verifyRoute desired read held only) v).missing =
        v.missing ++ owned.filter fun o => !keepsRoute desired read held only o := by
    induction owned with
    | nil => simp
    | cons o owned ih =>
      intro v
      obtain ⟨kept, missing⟩ := verifyRoute_eq desired read held only v o
      rw [foldl_cons, (ih _).1, (ih _).2, kept, missing]
      cases keeps : keepsRoute desired read held only o <;> simp [keeps]
  exact fold {}

theorem verifyRoutes_kept :
    (verifyRoutes desired read held only owned).kept =
      owned.filter (keepsRoute desired read held only) :=
  (verifyRoutes_eq desired read held only owned).1

variable {desired read held only}

theorem kept_sublist :
    (verifyRoutes desired read held only owned).kept.Sublist owned := by
  rw [verifyRoutes_kept]
  exact filter_sublist

theorem mem_kept_of_unwanted {owned : List ManagedRoute} {o : ManagedRoute}
    (member : o ∈ owned) (unwanted : o.key ∉ desired.map ManagedRoute.key) :
    o ∈ (verifyRoutes desired read held only owned).kept := by
  rw [verifyRoutes_kept]
  refine mem_filter.mpr ⟨member, ?_⟩
  have absent : (indexRoutes desired o.key).isSome = false := by
    rw [Bool.eq_false_iff]
    exact fun found => unwanted (indexBy_isSome.mp found)
  simp [keepsRoute, absent]

end Verify

end RiftRoute
