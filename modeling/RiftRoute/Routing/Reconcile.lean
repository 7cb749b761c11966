/-
Module: RiftRoute.Routing.Reconcile
Purpose: The reconciler as the engine computes it, and what its plan does to
  one destination (`reconcile_effectsAt`) and to one rule, whatever the order
  of the lists, and what the plan's inverse does (`effects_invert`).
Trusted boundary: human-reviewed spec
-/
import RiftRoute.Routing.Keys
import RiftRoute.Library.Netip

namespace RiftRoute

open Netip (parsePrefix)

/-! ### How an operation is shown -/

def isHostPrefix (r : Route) : Bool :=
  match parsePrefix r.dstCIDR with
  | none => false
  | some pfx => pfx.bits = pfx.addr.bitLen

/-- The gateway a macOS reject route takes. -/
def loopbackFor (r : Route) : String :=
  if r.family = .v6 then "::1" else "127.0.0.1"

variable (kind : OpKind) (mr : ManagedRoute) (dr : RouteKey → Option ManagedRoute)

/-- The `route(8)` command line of macOS; other kinds have none. -/
def darwinCommandForRoute (r : Route) : Option (List String) :=
  let scope := if isHostPrefix r then "-host" else "-net"
  match kind with
  | .addRoute =>
    some <| if r.reject then
        ["route", "-n", "add", scope, r.dstCIDR, loopbackFor r, "-reject"]
      else if r.gateway = "" then
        ["route", "-n", "add", scope, r.dstCIDR, "-interface", r.iface]
      else ["route", "-n", "add", scope, r.dstCIDR, r.gateway]
  | .delRoute =>
    some <| if r.gateway = "" then ["route", "-n", "delete", scope, r.dstCIDR]
      else ["route", "-n", "delete", scope, r.dstCIDR, r.gateway]
  | _ => none

/-- The `ip route` command line. -/
def linuxCommandForRoute (r : Route) : List String :=
  let proto := if r.proto = "" then "riftroute" else r.proto
  let args :=
    match kind with
    | .addRoute =>
      if r.reject then ["add", "unreachable", r.dstCIDR, "proto", proto]
      else
        ["add", r.dstCIDR] ++ (if r.gateway ≠ "" then ["via", r.gateway] else []) ++
          ["dev", r.iface, "proto", proto]
    | .delRoute => ["del", r.dstCIDR, "proto", proto]
    | _ => []
  ["ip", "route"] ++ args ++ (if r.table ≠ "" then ["table", r.table] else [])

def commandForRoute (r : Route) (platform : String) : List String :=
  if platform = "darwin" then
    (darwinCommandForRoute kind r).getD (linuxCommandForRoute kind r)
  else linuxCommandForRoute kind r

/-- `ip`'s family flag: the rule's family, else its selector address's, else
IPv4. -/
def ruleFamilyFlag (r : PolicyRule) : String :=
  let fam :=
    r.family.getD <| if (Texts.words r.selector).any fun word =>
          ((parsePrefix word).map (·.addr.is6)).getD false
      then .v6 else .v4
  if fam = .v6 then "-6" else "-4"

def commandForRule (r : PolicyRule) : List String :=
  if r.routeToIface ≠ "" then
    let target :=
      if r.routeToGW ≠ "" then r.routeToIface ++ " " ++ r.routeToGW
      else r.routeToIface
    if kind = .delRule then ["pf", "anchor", "riftroute:", "remove", r.selector]
    else
      ["pf", "anchor", "riftroute:", "pass", "out", "route-to", "(" ++ target ++ ")", r.selector]
  else
    let verb := if kind = .delRule then "del" else "add"
    ["ip", ruleFamilyFlag r, "rule", verb] ++ Texts.words r.selector ++
      ["lookup", r.table, "priority", r.priority.repr, "protocol", "riftroute"]

def humanForRoute (r : Route) : String :=
  let verb := if kind = .delRoute then "del" else "add"
  let t := if r.table ≠ "" then " table " ++ r.table else ""
  if r.reject then verb ++ " " ++ r.dstCIDR ++ " reject" ++ t
  else if r.gateway = "" then verb ++ " " ++ r.dstCIDR ++ " dev " ++ r.iface ++ t
  else
    verb ++ " " ++ r.dstCIDR ++ " via " ++ r.gateway ++ " dev " ++ r.iface ++ t

def humanForRule (r : PolicyRule) : String :=
  if r.routeToIface ≠ "" then
    (if kind = .delRule then "remove route-to" else "route-to") ++ " " ++
      r.selector ++ " → " ++ r.routeToIface ++ " (pf)"
  else
    (if kind = .delRule then "del rule" else "add rule") ++ " " ++ r.selector ++
      " lookup " ++ r.table ++ " priority " ++ r.priority.repr

variable (platform : String) (desired actual : List ManagedRoute)

def makeRouteOp : PlanOp :=
  { kind := kind
    route := some mr
    command := commandForRoute kind mr.route platform
    human := humanForRoute kind mr.route }

def makeRuleOp (mr : ManagedRule) : PlanOp :=
  { kind := kind
    rule := some mr
    command := commandForRule kind mr.rule
    human := humanForRule kind mr.rule }

/-! ### The plan -/

/-- A map filled from a list: the last value of a key stays. -/
def indexBy {α κ : Type} [DecidableEq κ] (key : α → κ) (rs : List α) (k : κ) : Option α :=
  rs.foldl (fun found r => if key r = k then some r else found) none

def indexRoutes (rs : List ManagedRoute) : RouteKey → Option ManagedRoute :=
  indexBy ManagedRoute.key rs

def indexRules (rs : List ManagedRule) : RuleKey → Option ManagedRule := indexBy ManagedRule.key rs

/-- The actual routes that are not desired, by destination. -/
def byDst (actual : List ManagedRoute) :
    DstKey → List ManagedRoute :=
  actual.foldl (fun found a =>
      if (dr a.key).isNone then
        fun dst => if dst = a.dst then found dst ++ [a] else found dst
      else found)
    fun _ => []

/-- What the loop over the desired routes accumulates: the keys of the actual
routes deleted as a replacement, and the operations. -/
structure AddLoop where
  replaced : List RouteKey := []
  routeAdds : List PlanOp := []

/-- Delete an old route of the destination, once. -/
def AddLoop.replaceOld (s : AddLoop) (old : ManagedRoute) : AddLoop :=
  if old.key ∈ s.replaced then s
  else
    { replaced := old.key :: s.replaced
      routeAdds := s.routeAdds ++ [makeRouteOp .delRoute old platform] }

/-- One round of the loop: a desired route that is not there is added, after
the old routes of its destination are deleted. -/
def AddLoop.addDesired (ar : RouteKey → Option ManagedRoute)
    (olds : DstKey → List ManagedRoute) (s : AddLoop) (d : ManagedRoute) :
    AddLoop :=
  if (ar d.key).isSome then s
  else
    let s := (olds d.dst).foldl (AddLoop.replaceOld platform) s
    { s with routeAdds := s.routeAdds ++ [makeRouteOp .addRoute d platform] }

/-- The operation that undoes an operation, made afresh. -/
def invertOp (op : PlanOp) : Option PlanOp :=
  match op.kind with
  | .addRoute => op.route.map fun mr => makeRouteOp .delRoute mr platform
  | .delRoute => op.route.map fun mr => makeRouteOp .addRoute mr platform
  | .addRule => op.rule.map fun mr => makeRuleOp .delRule mr
  | .delRule => op.rule.map fun mr => makeRuleOp .addRule mr
  | .unknown _ => none

def invert (ops : List PlanOp) (platform : String) : List PlanOp :=
  ops.reverse.filterMap (invertOp platform)

/-- The ordered plan from the actual to the desired routes and rules: route
adds and next-hop replacements, rule adds, rule deletes, route deletes. -/
def reconcile (desiredRoutes actualRoutes : List ManagedRoute)
    (desiredRules actualRules : List ManagedRule) (platform : String) : Plan :=
  let dr := indexRoutes desiredRoutes
  let ar := indexRoutes actualRoutes
  let drl := indexRules desiredRules
  let arl := indexRules actualRules
  let loop := desiredRoutes.foldl (AddLoop.addDesired platform ar (byDst dr actualRoutes)) {}
  let routeDels :=
    (actualRoutes.filter fun a =>
      (dr a.key).isNone && !decide (a.key ∈ loop.replaced)).map
      fun a => makeRouteOp .delRoute a platform
  let ruleAdds := (desiredRules.filter fun d => (arl d.key).isNone).map (makeRuleOp .addRule)
  let ruleDels := (actualRules.filter fun a => (drl a.key).isNone).map (makeRuleOp .delRule)
  let ops := loop.routeAdds ++ ruleAdds ++ ruleDels ++ routeDels
  { ops := ops, inverse := invert ops platform }

/-- Removes a route RiftRoute does not manage, with its add as the inverse. -/
def deleteRoutePlan (r : Route) (platform : String) : Plan :=
  let ops := [makeRouteOp .delRoute { route := r } platform]
  { ops := ops, inverse := invert ops platform }

/-- Swaps a route RiftRoute does not manage for another, delete first. -/
def replaceRoutePlan (old updated : Route) (platform : String) : Plan :=
  let ops :=
    [makeRouteOp .delRoute { route := old } platform,
      makeRouteOp .addRoute { route := updated } platform]
  { ops := ops, inverse := invert ops platform }

open List ManagedRoute AddLoop

/-! ### Effects of made operations -/

@[simp] theorem effect_makeRouteOp_add :
    (makeRouteOp .addRoute mr platform).effect = some (.addRoute mr) := rfl

@[simp] theorem effect_makeRouteOp_del :
    (makeRouteOp .delRoute mr platform).effect = some (.delRoute mr) := rfl

@[simp] theorem effect_makeRuleOp_add (mr : ManagedRule) :
    (makeRuleOp .addRule mr).effect = some (.addRule mr) := rfl

@[simp] theorem effect_makeRuleOp_del (mr : ManagedRule) :
    (makeRuleOp .delRule mr).effect = some (.delRule mr) := rfl

theorem effect_invertOp (op : PlanOp) (platform : String) :
    (invertOp platform op).bind PlanOp.effect = op.effect.map Effect.inverse := by
  obtain ⟨kind, route, rule, _, _⟩ := op
  cases kind <;> cases route <;> cases rule <;> rfl

theorem effects_invert (ops : List PlanOp) (platform : String) : effects (invert ops platform) =
      (effects ops).reverse.map Effect.inverse := by
  unfold effects invert
  rw [filterMap_filterMap, ← filterMap_reverse, map_filterMap]
  congr 1
  funext op
  exact effect_invertOp op platform

theorem effects_map_delRoute (rs : List ManagedRoute) (platform : String) :
    effects (rs.map fun r => makeRouteOp .delRoute r platform) = rs.map .delRoute := by
  simp [effects, filterMap_map, Function.comp_def]

theorem effects_map_addRule (rs : List ManagedRule) :
    effects (rs.map (makeRuleOp .addRule)) = rs.map .addRule := by
  simp [effects, filterMap_map, Function.comp_def]

theorem effects_map_delRule (rs : List ManagedRule) :
    effects (rs.map (makeRuleOp .delRule)) = rs.map .delRule := by
  simp [effects, filterMap_map, Function.comp_def]

theorem effectsAt_map_addRule (dst : DstKey) (rs : List ManagedRule) :
    effectsAt dst (rs.map .addRule) = [] := by
  simp [effectsAt, Effect.dst, Effect.route]

theorem effectsAt_map_delRule (dst : DstKey) (rs : List ManagedRule) :
    effectsAt dst (rs.map .delRule) = [] := by
  simp [effectsAt, Effect.dst, Effect.route]

theorem effectsAt_map_delRoute (dst : DstKey) (rs : List ManagedRoute) :
    effectsAt dst (rs.map .delRoute) = (rs.filter fun r => r.dst = dst).map .delRoute := by
  simp [effectsAt, filter_map, Function.comp_def, Effect.dst, Effect.route]

/-! ### The indexes -/

theorem indexBy_foldl_isNone {α κ : Type} [DecidableEq κ] (key : α → κ)
    (rs : List α) (k : κ) (found : Option α) :
    (rs.foldl (fun found r => if key r = k then some r else found)
      found).isNone ↔ found.isNone ∧ k ∉ rs.map key := by
  induction rs generalizing found with
  | nil => simp
  | cons r rs ih =>
    rw [foldl_cons, ih]
    by_cases hit : key r = k
    · simp [hit]
    · have miss : ¬ k = key r := fun equal => hit equal.symm
      simp [hit, miss]

section

variable {α κ : Type} [DecidableEq κ] {key : α → κ} {rs : List α} {k : κ}

theorem indexBy_isNone : (indexBy key rs k).isNone ↔ k ∉ rs.map key := by
  rw [indexBy, indexBy_foldl_isNone]
  exact and_iff_right rfl

theorem indexBy_isSome : (indexBy key rs k).isSome ↔ k ∈ rs.map key := by
  rw [← not_iff_not, ← indexBy_isNone]
  cases indexBy key rs k <;> simp

end

/-! ### One destination's share of the plan -/

def oldsAt (dst : DstKey) : List ManagedRoute :=
  actual.filter fun a => a.dst = dst ∧ a.key ∉ desired.map ManagedRoute.key

/-- The desired routes of a destination that are not there. -/
def newsAt (dst : DstKey) : List ManagedRoute :=
  desired.filter fun d => d.dst = dst ∧ d.key ∉ actual.map ManagedRoute.key

section

variable {desired actual : List ManagedRoute} {dst : DstKey} {r : ManagedRoute}

theorem mem_oldsAt :
    r ∈ oldsAt desired actual dst ↔
      r ∈ actual ∧ r.dst = dst ∧ r.key ∉ desired.map key := by
  rw [oldsAt, mem_filter, decide_eq_true_iff]

theorem mem_newsAt :
    r ∈ newsAt desired actual dst ↔
      r ∈ desired ∧ r.dst = dst ∧ r.key ∉ actual.map key :=
  mem_oldsAt

end

theorem byDst_foldl (actual : List ManagedRoute) (found : DstKey → List ManagedRoute)
    (dst : DstKey) :
    actual.foldl (fun found a =>
        if (dr a.key).isNone then
          fun dst => if dst = a.dst then found dst ++ [a] else found dst
        else found) found dst =
      found dst ++ actual.filter fun a => a.dst = dst ∧ (dr a.key).isNone := by
  induction actual generalizing found with
  | nil => simp
  | cons a actual ih =>
    rw [foldl_cons, ih, filter_cons]
    by_cases undesired : (dr a.key).isNone
    · by_cases here : a.dst = dst
      · simp [undesired, here]
      · have elsewhere : ¬ dst = a.dst := fun equal => here equal.symm
        simp [undesired, here, elsewhere]
    · simp [undesired]

theorem byDst_eq (dst : DstKey) :
    byDst (indexRoutes desired) actual dst = oldsAt desired actual dst := by
  rw [byDst, byDst_foldl, nil_append, oldsAt]
  congr 1
  funext a
  rw [decide_eq_decide, indexRoutes, indexBy_isNone]

/-! ### The loop over the desired routes -/

namespace AddLoop

variable (platform : String)

theorem foldl_replaceOld_fresh (olds : List ManagedRoute) (s : AddLoop)
    (nodup : (olds.map key).Nodup)
    (fresh : ∀ old ∈ olds, old.key ∉ s.replaced) :
    olds.foldl (replaceOld platform) s =
      { replaced := (olds.map key).reverse ++ s.replaced
        routeAdds := s.routeAdds ++
          olds.map fun old => makeRouteOp .delRoute old platform } := by
  induction olds generalizing s with
  | nil => simp
  | cons old olds ih =>
    rw [map_cons, nodup_cons] at nodup
    have first : replaceOld platform s old =
        { replaced := old.key :: s.replaced
          routeAdds :=
            s.routeAdds ++ [makeRouteOp .delRoute old platform] } :=
      if_neg (fresh old mem_cons_self)
    rw [foldl_cons, first, ih _ nodup.2]
    · simp
    · intro other member replaced
      rcases mem_cons.mp replaced with same | before
      · exact nodup.1 (same ▸ mem_map_of_mem member)
      · exact fresh other (mem_cons_of_mem _ member) before

theorem foldl_replaceOld_done (olds : List ManagedRoute) (s : AddLoop)
    (done : ∀ old ∈ olds, old.key ∈ s.replaced) :
    olds.foldl (replaceOld platform) s = s := by
  induction olds with
  | nil => rfl
  | cons old olds ih =>
    have first : replaceOld platform s old = s :=
      if_pos (done old mem_cons_self)
    rw [foldl_cons, first]
    exact ih fun other member =>
      done other (mem_cons_of_mem _ member)

end AddLoop

section Loop

variable (desired actual : List ManagedRoute) (platform : String)

/-- What the loop has done once it has read the desired routes `done`: the
old routes of a destination are replaced as soon as one of its new routes is
read, and each destination's operations are in delete-first order. -/
structure LoopInvariant (done : List ManagedRoute) (s : AddLoop) : Prop where
  replaced : ∀ k, k ∈ s.replaced ↔ k ∈ (oldsAt desired actual k.dst).map ManagedRoute.key ∧
      newsAt done actual k.dst ≠ []
  effectsAt : ∀ dst, RiftRoute.effectsAt dst (effects s.routeAdds) =
    if newsAt done actual dst = [] then []
    else (oldsAt desired actual dst).map .delRoute ++ (newsAt done actual dst).map .addRoute
  routesOnly : ∀ op ∈ s.routeAdds, ∃ e, op.effect = some e ∧ e.rule = none

theorem LoopInvariant.init : LoopInvariant desired actual [] {} where
  replaced := by
    simp [newsAt]
  effectsAt := by
    simp [newsAt, RiftRoute.effectsAt]
  routesOnly := by
    intro op member
    exact absurd member not_mem_nil

theorem newsAt_append_singleton (done : List ManagedRoute) (d : ManagedRoute) (dst : DstKey) :
    newsAt (done ++ [d]) actual dst = newsAt done actual dst ++
        if d.dst = dst ∧ d.key ∉ actual.map key then [d]
        else [] := by
  rw [newsAt, filter_append, ← newsAt, filter_singleton, Bool.cond_decide]

variable {desired actual}

theorem nodup_key_oldsAt (nodup : (actual.map key).Nodup)
    (dst : DstKey) : ((oldsAt desired actual dst).map key).Nodup :=
  (filter_sublist.map _).nodup nodup

theorem dst_of_mem_oldsAt {dst : DstKey} {old : ManagedRoute}
    (member : old ∈ oldsAt desired actual dst) : old.dst = dst :=
  (mem_oldsAt.mp member).2.1

theorem LoopInvariant.foldl_olds {done : List ManagedRoute} {s : AddLoop}
    (nodup : (actual.map key).Nodup)
    (invariant : LoopInvariant desired actual done s) (dst : DstKey) :
    (oldsAt desired actual dst).foldl (replaceOld platform) s =
      if newsAt done actual dst = [] then
        { replaced :=
            ((oldsAt desired actual dst).map key).reverse ++
              s.replaced
          routeAdds := s.routeAdds ++
            (oldsAt desired actual dst).map fun old =>
              makeRouteOp .delRoute old platform }
      else s := by
  by_cases first : newsAt done actual dst = []
  · rw [if_pos first]
    apply foldl_replaceOld_fresh platform _ _ (nodup_key_oldsAt nodup dst)
    intro old member replaced
    have news := ((invariant.replaced old.key).mp replaced).2
    rw [dst_key, dst_of_mem_oldsAt member] at news
    exact news first
  · rw [if_neg first]
    apply foldl_replaceOld_done
    intro old member
    rw [invariant.replaced, dst_key, dst_of_mem_oldsAt member]
    exact ⟨mem_map_of_mem member, first⟩

theorem effectsAt_map_of_dst (rs : List ManagedRoute) {dst other : DstKey}
    (make : ManagedRoute → Effect) (about : ∀ r, (make r).dst = some r.dst)
    (allAt : ∀ r ∈ rs, r.dst = dst) :
    effectsAt other (rs.map make) = if dst = other then rs.map make else [] := by
  by_cases same : dst = other
  · rw [if_pos same, effectsAt, filter_eq_self]
    intro e member
    obtain ⟨r, inRs, rfl⟩ := mem_map.mp member
    simp [about, allAt r inRs, same]
  · rw [if_neg same, effectsAt, filter_eq_nil_iff]
    intro e member
    obtain ⟨r, inRs, rfl⟩ := mem_map.mp member
    simp [about, allAt r inRs, same]

theorem addDesired_of_present {s : AddLoop} {d : ManagedRoute}
    (present : d.key ∈ actual.map key) :
    s.addDesired platform (indexRoutes actual) (byDst (indexRoutes desired) actual) d = s :=
  if_pos (indexBy_isSome.mpr present)

theorem addDesired_of_absent {s : AddLoop} {d : ManagedRoute}
    (absent : d.key ∉ actual.map key) :
    s.addDesired platform (indexRoutes actual) (byDst (indexRoutes desired) actual) d =
      let s := (oldsAt desired actual d.dst).foldl (replaceOld platform) s
      { s with
        routeAdds := s.routeAdds ++ [makeRouteOp .addRoute d platform] } := by
  rw [addDesired, byDst_eq]
  exact if_neg fun found => absent (indexBy_isSome.mp found)

section Step

variable {done : List ManagedRoute} {s : AddLoop} {d : ManagedRoute}

theorem newsAt_snoc_of_present (present : d.key ∈ actual.map key) (dst : DstKey) :
    newsAt (done ++ [d]) actual dst = newsAt done actual dst := by
  rw [newsAt_append_singleton, if_neg (fun new => new.2 present), append_nil]

theorem newsAt_snoc_here (absent : d.key ∉ actual.map key) :
    newsAt (done ++ [d]) actual d.dst = newsAt done actual d.dst ++ [d] := by
  rw [newsAt_append_singleton, if_pos ⟨rfl, absent⟩]

theorem newsAt_snoc_elsewhere {dst : DstKey} (elsewhere : d.dst ≠ dst) :
    newsAt (done ++ [d]) actual dst = newsAt done actual dst := by
  rw [newsAt_append_singleton, if_neg (fun new => elsewhere new.1), append_nil]

section

variable (nodup : (actual.map ManagedRoute.key).Nodup)
  (invariant : LoopInvariant desired actual done s)

include nodup invariant

theorem LoopInvariant.step_replaced (absent : d.key ∉ actual.map key) (k : RouteKey) :
    k ∈ ((oldsAt desired actual d.dst).foldl (replaceOld platform) s).replaced ↔
      k ∈ (oldsAt desired actual k.dst).map key ∧
        newsAt (done ++ [d]) actual k.dst ≠ [] := by
  rw [invariant.foldl_olds platform nodup]
  have before := invariant.replaced k
  by_cases here : d.dst = k.dst
  · rw [← here] at before ⊢
    rw [newsAt_snoc_here absent]
    by_cases first : newsAt done actual d.dst = []
    · simp [first, before]
    · simp [first, before]
  · rw [newsAt_snoc_elsewhere here, ← before]
    have other : k ∉ (oldsAt desired actual d.dst).map key := by
      intro member
      obtain ⟨old, inOlds, rfl⟩ := mem_map.mp member
      exact here (dst_of_mem_oldsAt inOlds).symm
    by_cases first : newsAt done actual d.dst = []
    · simp only [first, if_true, mem_append, mem_reverse, other, false_or]
    · simp only [first, if_false]

theorem LoopInvariant.step_effectsAt (absent : d.key ∉ actual.map key) (dst : DstKey) :
    RiftRoute.effectsAt dst (effects (((oldsAt desired actual d.dst).foldl
          (replaceOld platform) s).routeAdds ++ [makeRouteOp .addRoute d platform])) =
      if newsAt (done ++ [d]) actual dst = [] then []
      else (oldsAt desired actual dst).map .delRoute ++
        (newsAt (done ++ [d]) actual dst).map .addRoute := by
  rw [invariant.foldl_olds platform nodup]
  have before := invariant.effectsAt dst
  have dels : RiftRoute.effectsAt dst ((oldsAt desired actual d.dst).map Effect.delRoute) =
        if d.dst = dst then (oldsAt desired actual d.dst).map .delRoute
        else [] :=
    effectsAt_map_of_dst _ _ (fun _ => rfl) fun _ => dst_of_mem_oldsAt
  have add : RiftRoute.effectsAt dst (effects [makeRouteOp .addRoute d platform]) =
        if d.dst = dst then [.addRoute d] else [] :=
    effectsAt_map_of_dst [d] Effect.addRoute (fun _ => rfl) (by simp)
  by_cases here : d.dst = dst
  · subst here
    rw [newsAt_snoc_here absent]
    by_cases first : newsAt done actual d.dst = []
    · simp [first, effects_map_delRoute, dels, add, before]
    · simp [first, add, before]
  · rw [newsAt_snoc_elsewhere here]
    by_cases first : newsAt done actual d.dst = []
    · simp [first, effects_map_delRoute, dels, add, before, here]
    · simp [first, add, before, here]

theorem LoopInvariant.step_routesOnly :
    ∀ op ∈ ((oldsAt desired actual d.dst).foldl (replaceOld platform) s).routeAdds ++
            [makeRouteOp .addRoute d platform],
      ∃ e, op.effect = some e ∧ e.rule = none := by
  rw [invariant.foldl_olds platform nodup]
  intro op member
  rcases mem_append.mp member with before | added
  · by_cases first : newsAt done actual d.dst = []
    · rw [if_pos first] at before
      rcases mem_append.mp before with before | deleted
      · exact invariant.routesOnly op before
      · obtain ⟨old, _, rfl⟩ := mem_map.mp deleted
        exact ⟨.delRoute old, rfl, rfl⟩
    · rw [if_neg first] at before
      exact invariant.routesOnly op before
  · obtain rfl := mem_singleton.mp added
    exact ⟨.addRoute d, rfl, rfl⟩

end

end Step

theorem LoopInvariant.step {done : List ManagedRoute} {s : AddLoop}
    (nodup : (actual.map key).Nodup)
    (invariant : LoopInvariant desired actual done s) (d : ManagedRoute) :
    LoopInvariant desired actual (done ++ [d]) (s.addDesired platform (indexRoutes actual)
        (byDst (indexRoutes desired) actual) d) := by
  by_cases present : d.key ∈ actual.map key
  · -- the route is there: the round does nothing
    rw [addDesired_of_present platform present]
    refine ⟨fun k => ?_, fun dst => ?_, invariant.routesOnly⟩
    · rw [newsAt_snoc_of_present present]
      exact invariant.replaced k
    · rw [newsAt_snoc_of_present present]
      exact invariant.effectsAt dst
  · rw [addDesired_of_absent platform present]
    exact ⟨invariant.step_replaced platform nodup present,
      invariant.step_effectsAt platform nodup present,
      invariant.step_routesOnly platform nodup⟩

theorem LoopInvariant.run (nodup : (actual.map key).Nodup) (done : List ManagedRoute) :
    LoopInvariant desired actual done (done.foldl (addDesired platform (indexRoutes actual)
        (byDst (indexRoutes desired) actual)) {}) := by
  induction done using reverseRecOn with
  | nil => exact LoopInvariant.init desired actual
  | append_singleton done d ih =>
    rw [foldl_append]
    exact ih.step platform nodup d

end Loop

/-! ### The whole plan -/

def newRulesAt (desired actual : List ManagedRule) (k : RuleKey) : List ManagedRule :=
  desired.filter fun d => d.key = k ∧ d.key ∉ actual.map ManagedRule.key

def oldRulesAt (desired actual : List ManagedRule) (k : RuleKey) : List ManagedRule :=
  actual.filter fun a => a.key = k ∧ a.key ∉ desired.map ManagedRule.key

section Plan

variable {desired actual : List ManagedRoute}
  {desiredRules actualRules : List ManagedRule} {platform : String}

theorem routeDels_at {s : AddLoop}
    (invariant : LoopInvariant desired actual desired s) (dst : DstKey) :
    ((actual.filter fun a => (indexRoutes desired a.key).isNone &&
        !decide (a.key ∈ s.replaced)).filter fun a => a.dst = dst) =
      if newsAt desired actual dst = [] then oldsAt desired actual dst
      else [] := by
  rw [filter_filter]
  by_cases first : newsAt desired actual dst = []
  · rw [if_pos first, oldsAt]
    apply filter_congr
    intro a member
    by_cases here : a.dst = dst
    · have kept : a.key ∉ s.replaced := by
        rw [invariant.replaced, dst_key, here]
        exact fun replaced => replaced.2 first
      rw [Bool.eq_iff_iff]
      simp only [here, kept, indexRoutes, indexBy_isNone, Bool.and_eq_true,
        decide_eq_true_eq, decide_false, Bool.not_false, and_true]
    · simp [here]
  · rw [if_neg first, filter_eq_nil_iff]
    intro a member hit
    simp only [Bool.and_eq_true, decide_eq_true_eq, Bool.not_eq_true',
      decide_eq_false_iff_not, indexRoutes, indexBy_isNone] at hit
    obtain ⟨here, undesired, kept⟩ := hit
    apply kept
    rw [invariant.replaced, dst_key, here]
    exact ⟨mem_map_of_mem (mem_oldsAt.mpr ⟨member, here, undesired⟩), first⟩

section

variable (nodup : (actual.map ManagedRoute.key).Nodup)

include nodup

theorem reconcile_effectsAt (dst : DstKey) :
    effectsAt dst (effects (reconcile desired actual desiredRules actualRules platform).ops) =
      (oldsAt desired actual dst).map .delRoute ++ (newsAt desired actual dst).map .addRoute := by
  have invariant : LoopInvariant desired actual desired _ :=
    LoopInvariant.run platform nodup desired
  simp only [reconcile, effects_append, effectsAt_append, effects_map_addRule,
    effects_map_delRule, effects_map_delRoute, effectsAt_map_addRule,
    effectsAt_map_delRule, effectsAt_map_delRoute, append_nil,
    invariant.effectsAt, routeDels_at invariant]
  by_cases first : newsAt desired actual dst = []
  · simp [first]
  · simp [first]

theorem delRoute_mem_reconcile {a : ManagedRoute} :
    .delRoute a ∈ effects (reconcile desired actual desiredRules actualRules platform).ops ↔
      a ∈ actual ∧ a.key ∉ desired.map key := by
  have here : .delRoute a ∈ effects
        (reconcile desired actual desiredRules actualRules platform).ops ↔
      .delRoute a ∈ effectsAt a.dst (effects
        (reconcile desired actual desiredRules actualRules platform).ops) := by
    simp [effectsAt, Effect.dst, Effect.route]
  rw [here, reconcile_effectsAt nodup]
  simp [mem_oldsAt]

theorem addRoute_mem_reconcile {d : ManagedRoute} :
    .addRoute d ∈ effects (reconcile desired actual desiredRules actualRules platform).ops ↔
      d ∈ desired ∧ d.key ∉ actual.map key := by
  have here : .addRoute d ∈ effects
        (reconcile desired actual desiredRules actualRules platform).ops ↔
      .addRoute d ∈ effectsAt d.dst (effects
        (reconcile desired actual desiredRules actualRules platform).ops) := by
    simp [effectsAt, Effect.dst, Effect.route]
  rw [here, reconcile_effectsAt nodup]
  simp [mem_newsAt]

end

theorem ruleEffectsAt_of_routesOnly {ops : List PlanOp} (k : RuleKey)
    (routesOnly : ∀ op ∈ ops, ∃ e, op.effect = some e ∧ e.rule = none) :
    ruleEffectsAt k (effects ops) = [] := by
  rw [ruleEffectsAt, filter_eq_nil_iff]
  intro e member
  obtain ⟨op, inOps, effect⟩ := mem_filterMap.mp member
  obtain ⟨other, same, routeOnly⟩ := routesOnly op inOps
  obtain rfl := Option.some.inj (effect.symm.trans same)
  simp [Effect.ruleKey, routeOnly]

theorem ruleEffectsAt_map_of_key (rs : List ManagedRule) (k : RuleKey)
    (make : ManagedRule → Effect) (about : ∀ r, (make r).rule = some r) :
    ruleEffectsAt k (rs.map make) = (rs.filter fun r => r.key = k).map make := by
  simp [ruleEffectsAt, filter_map, Function.comp_def, Effect.ruleKey, about]

theorem reconcile_ruleEffectsAt (nodup : (actual.map key).Nodup) (k : RuleKey) :
    ruleEffectsAt k (effects (reconcile desired actual desiredRules actualRules platform).ops) =
      (newRulesAt desiredRules actualRules k).map .addRule ++
        (oldRulesAt desiredRules actualRules k).map .delRule := by
  have invariant : LoopInvariant desired actual desired _ :=
    LoopInvariant.run platform nodup desired
  have routeDels : ∀ rs : List ManagedRoute, ruleEffectsAt k (rs.map .delRoute) = [] := by
    simp [ruleEffectsAt, Effect.ruleKey, Effect.rule]
  simp only [reconcile, effects_append, ruleEffectsAt_append,
    effects_map_addRule, effects_map_delRule, effects_map_delRoute, routeDels,
    ruleEffectsAt_of_routesOnly k invariant.routesOnly, append_nil,
    nil_append, ruleEffectsAt_map_of_key _ _ Effect.addRule fun _ => rfl,
    ruleEffectsAt_map_of_key _ _ Effect.delRule fun _ => rfl,
    filter_filter]
  congr 2
  · apply filter_congr
    intro d _
    rw [Bool.eq_iff_iff]
    simp only [indexRules, indexBy_isNone, Bool.and_eq_true, decide_eq_true_eq]
  · apply filter_congr
    intro a _
    rw [Bool.eq_iff_iff]
    simp only [indexRules, indexBy_isNone, Bool.and_eq_true, decide_eq_true_eq]

theorem reconcile_effect_isSome (nodup : (actual.map key).Nodup)
    {op : PlanOp} (member : op ∈ (reconcile desired actual desiredRules actualRules platform).ops) :
    op.effect.isSome := by
  have invariant : LoopInvariant desired actual desired _ :=
    LoopInvariant.run platform nodup desired
  simp only [reconcile, mem_append, mem_map] at member
  rcases member with ((added | ⟨d, _, rfl⟩) | ⟨a, _, rfl⟩) | ⟨a, _, rfl⟩
  · obtain ⟨e, effect, _⟩ := invariant.routesOnly op added
    exact Option.isSome_of_mem effect
  · rfl
  · rfl
  · rfl

theorem rule_eq_none_of_mem_routeAdds (platform : String)
    (ar : RouteKey → Option ManagedRoute) (olds : DstKey → List ManagedRoute)
    (routes : List ManagedRoute) :
    ∀ op ∈ (routes.foldl (addDesired platform ar olds) {}).routeAdds, op.rule = none := by
  have replacing : ∀ (s : AddLoop) (old : ManagedRoute), (∀ op ∈ s.routeAdds, op.rule = none) →
      ∀ op ∈ (s.replaceOld platform old).routeAdds, op.rule = none := by
    intro s old held op member
    unfold replaceOld at member
    split at member
    · exact held op member
    · rcases mem_append.mp member with before | last
      · exact held op before
      · rw [mem_singleton.mp last]
        rfl
  refine foldlRecOn routes (addDesired platform ar olds)
    (motive := fun s => ∀ op ∈ s.routeAdds, op.rule = none)
    ?_ ?_
  · simp
  · intro s held d _ op member
    unfold addDesired at member
    split at member
    · exact held op member
    · rcases mem_append.mp member with before | last
      · exact foldlRecOn (olds d.dst) (replaceOld platform)
          (motive := fun s => ∀ op ∈ s.routeAdds, op.rule = none) held
          (fun s held old _ => replacing s old held) op before
      · rw [mem_singleton.mp last]
        rfl

theorem reconcile_rules_alone_iff :
    (∀ op ∈ (reconcile desired actual desiredRules actualRules platform).ops, op.rule = none) ↔
      ∀ k, k ∈ desiredRules.map ManagedRule.key ↔ k ∈ actualRules.map ManagedRule.key := by
  have loop := rule_eq_none_of_mem_routeAdds platform (indexRoutes actual)
    (byDst (indexRoutes desired) actual) desired
  constructor
  · intro alone k
    constructor
    · intro wanted
      obtain ⟨d, member, rfl⟩ := mem_map.mp wanted
      by_contra missing
      have added : makeRuleOp .addRule d ∈
          (reconcile desired actual desiredRules actualRules platform).ops := by
        simp only [reconcile, mem_append, mem_map, mem_filter]
        exact .inl (.inl (.inr ⟨d, ⟨member, indexBy_isNone.mpr missing⟩, rfl⟩))
      exact absurd (alone _ added) (by simp [makeRuleOp])
    · intro held
      obtain ⟨a, member, rfl⟩ := mem_map.mp held
      by_contra unwanted
      have deleted : makeRuleOp .delRule a ∈
          (reconcile desired actual desiredRules actualRules platform).ops := by
        simp only [reconcile, mem_append, mem_map, mem_filter]
        exact .inl (.inr ⟨a, ⟨member, indexBy_isNone.mpr unwanted⟩, rfl⟩)
      exact absurd (alone _ deleted) (by simp [makeRuleOp])
  · intro same op member
    simp only [reconcile, mem_append, mem_map, mem_filter] at member
    rcases member with ((added | ⟨d, ⟨wanted, new⟩, _⟩) | ⟨a, ⟨held, old⟩, _⟩) | ⟨a, _, rfl⟩
    · exact loop op added
    · exact absurd ((same _).mp (mem_map_of_mem wanted)) (indexBy_isNone.mp new)
    · exact absurd ((same _).mpr (mem_map_of_mem held)) (indexBy_isNone.mp old)
    · rfl

theorem newRulesAt_eq_nil_or_oldRulesAt_eq_nil
    (desiredRules actualRules : List ManagedRule) (k : RuleKey) :
    newRulesAt desiredRules actualRules k = [] ∨ oldRulesAt desiredRules actualRules k = [] := by
  by_cases there : k ∈ actualRules.map ManagedRule.key
  · left
    rw [newRulesAt, filter_eq_nil_iff]
    intro d _ new
    obtain ⟨rfl, absent⟩ := decide_eq_true_iff.mp new
    exact absent there
  · right
    rw [oldRulesAt, filter_eq_nil_iff]
    intro a member old
    obtain ⟨rfl, _⟩ := decide_eq_true_iff.mp old
    exact there (mem_map_of_mem member)

end Plan

end RiftRoute
