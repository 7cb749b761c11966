/-
Module: RiftRoute.Provider.Kernel
Purpose: The kernel as the providers change it: one route per family, table and
  destination, one rule per identity.  Which entry a managed delete takes is a
  parameter with one law.
Trusted boundary: human-reviewed spec
-/
import RiftRoute.Routing.Keys
import RiftRoute.Library.KeyedTable
import RiftRoute.Library.Cells

namespace RiftRoute

open List Effect

/-- The routes and policy rules in the kernel. -/
structure Kernel where
  routes : KeyedTable dstKey
  rules : KeyedTable ruleKey

variable (mr : ManagedRoute)

/-- A route as the kernel lists it once it is added.  A policy route is tagged
RiftRoute's; an external one keeps its own identity. -/
def installed : Route :=
  let policy := mr.profileID ≠ ""
  { mr.route with
    owner :=
      if policy then .riftRoute
      else if mr.route.owner = .unset then .system
      else mr.route.owner
    proto := if policy then "riftroute" else mr.route.proto
    profile := if policy then mr.profileID else mr.route.profile
    cloned := false
    isScoped := false }

/-- A rule as the kernel lists it once it is added. -/
def installedRule (mr : ManagedRule) : PolicyRule := { mr.rule with proto := "riftroute" }

@[simp] theorem routeKey_installed : routeKey (installed mr) = mr.key := rfl

@[simp] theorem dstKey_installed : dstKey (installed mr) = mr.dst := rfl

@[simp] theorem ruleKey_installedRule (mr : ManagedRule) :
    ruleKey (installedRule mr) = mr.key := rfl

/-- A route RiftRoute manages carries its profile; a user's edit of a system
route carries none. -/
def ManagedRoute.IsManaged : Prop := mr.profileID ≠ ""

instance (mr : ManagedRoute) : Decidable mr.IsManaged := inferInstanceAs (Decidable (_ ≠ _))

theorem owner_installed {mr : ManagedRoute} (managed : mr.IsManaged) :
    (installed mr).owner = .riftRoute :=
  if_pos managed

/-- Which entry of its destination a delete takes: at least an entry of its own
identity.  What else it takes is the provider's. -/
structure Matching where
  takes : ManagedRoute → Route → Bool
  takes_same : ∀ mr entry, (mr.IsManaged → entry.owner = .riftRoute) →
    routeKey entry = mr.key → takes mr entry = true

namespace Matching

theorem takes_installed (M : Matching) (mr : ManagedRoute) : M.takes mr (installed mr) = true :=
  M.takes_same mr (installed mr) owner_installed (routeKey_installed mr)

/-- A managed delete takes the entry only if it is that route; an external one
takes the route of its destination. -/
def exact : Matching where
  takes mr entry := mr.profileID = "" ∨ entry.owner = .riftRoute ∧ routeKey entry = mr.key
  takes_same := by
    intro mr entry ours same
    by_cases managed : mr.IsManaged
    · simp [ours managed, same]
    · simp [not_not.mp managed]

/-- Linux: a managed delete matches the destination and RiftRoute's tag, a
reject route's delete reject routes only. -/
def byTag : Matching where
  takes mr entry := mr.profileID = "" ∨ entry.owner = .riftRoute ∧ (mr.route.reject → entry.reject)
  takes_same := by
    intro mr entry ours same
    have sameReject : entry.reject = mr.route.reject := congrArg RouteKey.reject same
    by_cases managed : mr.IsManaged
    · simp [ours managed, sameReject]
    · simp [not_not.mp managed]

end Matching

namespace Kernel

variable (M : Matching) (k : Kernel)

def addRoute (mr : ManagedRoute) : Kernel :=
  { k with routes := k.routes.insertNew (installed mr) }

def delRoute (mr : ManagedRoute) : Kernel :=
  { k with routes := k.routes.eraseIf mr.dst (M.takes mr) }

def addRule (mr : ManagedRule) : Kernel :=
  { k with rules := k.rules.insertNew (installedRule mr) }

def delRule (mr : ManagedRule) : Kernel := { k with rules := k.rules.erase mr.key }

/-- A provider call that goes through. -/
def apply : Effect → Kernel
  | .addRoute mr => k.addRoute mr
  | .delRoute mr => k.delRoute M mr
  | .addRule mr => k.addRule mr
  | .delRule mr => k.delRule mr

/-- Provider calls that all go through. -/
def run (es : List Effect) : Kernel := es.foldl (apply M) k

@[simp] theorem run_nil : k.run M [] = k := rfl

@[simp] theorem run_cons (e : Effect)
    (es : List Effect) : k.run M (e :: es) = (k.apply M e).run M es := rfl

theorem run_append (first second : List Effect) :
    k.run M (first ++ second) = (k.run M first).run M second :=
  foldl_append

def listRoutes (family : Family) : List Route :=
  k.routes.rows.filter fun r => r.family = family

def listRules (family : Family) : List PolicyRule :=
  k.rules.rows.filter fun r => r.family = some family

/-- The same route at every destination and the same rule of every
identity. -/
structure Same (first second : Kernel) : Prop where
  routes : ∀ dst, first.routes.find dst = second.routes.find dst
  rules : ∀ k, first.rules.find k = second.rules.find k

end Kernel

/-! ### One destination, one rule -/

variable (M : Matching)

/-- What an effect does to the entry of its destination. -/
def Effect.slotOp : Effect → Option (SlotOp Route)
  | .addRoute mr => some (.fill (installed mr))
  | .delRoute mr => some (.clear (M.takes mr))
  | .addRule _ => none
  | .delRule _ => none

def Effect.ruleSlotOp : Effect → Option (SlotOp PolicyRule)
  | .addRoute _ => none
  | .delRoute _ => none
  | .addRule mr => some (.fill (installedRule mr))
  | .delRule _ => some (.clear fun _ => true)

/-- The kernel's routes as independent destinations. -/
def routeCells : CellSystem Kernel Effect DstKey (Option Route) where
  step := Kernel.apply M
  view k := k.routes.find
  cell := Effect.dst
  act e entry := (e.slotOp M).elim entry fun op => op.act entry
  view_step := by
    intro k e dst
    cases e with
    | addRoute mr =>
      simp [Kernel.apply, Kernel.addRoute, Effect.dst, Effect.route, Effect.slotOp, SlotOp.act]
    | delRoute mr =>
      simp [Kernel.apply, Kernel.delRoute, Effect.dst, Effect.route, Effect.slotOp, SlotOp.act]
    | addRule mr =>
      simp [Kernel.apply, Kernel.addRule, Effect.dst, Effect.route]
    | delRule mr =>
      simp [Kernel.apply, Kernel.delRule, Effect.dst, Effect.route]

/-- The kernel's rules as independent identities. -/
def ruleCells : CellSystem Kernel Effect RuleKey (Option PolicyRule) where
  step := Kernel.apply M
  view k := k.rules.find
  cell := Effect.ruleKey
  act e entry := e.ruleSlotOp.elim entry fun op => op.act entry
  view_step := by
    intro k e key
    cases e with
    | addRoute mr =>
      simp [Kernel.apply, Kernel.addRoute, Effect.ruleKey, Effect.rule]
    | delRoute mr =>
      simp [Kernel.apply, Kernel.delRoute, Effect.ruleKey, Effect.rule]
    | addRule mr =>
      simp [Kernel.apply, Kernel.addRule, Effect.ruleKey, Effect.rule,
        Effect.ruleSlotOp, SlotOp.act]
    | delRule mr =>
      simp [Kernel.apply, Kernel.delRule, Effect.ruleKey, Effect.rule,
        Effect.ruleSlotOp, SlotOp.act]

theorem routeCells_runAt (entry : Option Route) (es : List Effect) :
    (routeCells M).runAt entry es = SlotOp.run entry (es.filterMap (slotOp M)) := by
  induction es generalizing entry with
  | nil => rfl
  | cons e es ih =>
    have step : (routeCells M).runAt entry (e :: es) =
        (routeCells M).runAt ((routeCells M).act e entry) es := rfl
    rw [step, ih, filterMap_cons]
    cases e <;> rfl

theorem ruleCells_runAt (entry : Option PolicyRule) (es : List Effect) :
    (ruleCells M).runAt entry es = SlotOp.run entry (es.filterMap ruleSlotOp) := by
  induction es generalizing entry with
  | nil => rfl
  | cons e es ih =>
    have step : (ruleCells M).runAt entry (e :: es) =
        (ruleCells M).runAt ((ruleCells M).act e entry) es := rfl
    rw [step, ih, filterMap_cons]
    cases e <;> rfl

namespace Kernel

theorem find_run (M : Matching) (k : Kernel) (es : List Effect) (dst : DstKey) :
    (k.run M es).routes.find dst = SlotOp.run (k.routes.find dst)
        ((effectsAt dst es).filterMap (slotOp M)) := by
  rw [← routeCells_runAt]
  exact (routeCells M).view_run k es dst

theorem find_rule_run (M : Matching) (k : Kernel) (es : List Effect) (key : RuleKey) :
    (k.run M es).rules.find key = SlotOp.run (k.rules.find key)
        ((ruleEffectsAt key es).filterMap ruleSlotOp) := by
  rw [← ruleCells_runAt M]
  exact (ruleCells M).view_run k es key

end Kernel

/-! ### Effects as slot operations -/

section SlotOps

variable (rs : List ManagedRoute) (rules : List ManagedRule)

@[simp] theorem filterMap_slotOp_add : (rs.map addRoute).filterMap (slotOp M) =
      rs.map fun r => .fill (installed r) := by
  simp [filterMap_map, Function.comp_def, slotOp]

@[simp] theorem filterMap_slotOp_del : (rs.map delRoute).filterMap (slotOp M) =
      rs.map fun r => .clear (M.takes r) := by
  simp [filterMap_map, Function.comp_def, slotOp]

@[simp] theorem filterMap_ruleSlotOp_add : (rules.map addRule).filterMap ruleSlotOp =
      rules.map fun r => .fill (installedRule r) := by
  simp [filterMap_map, Function.comp_def, ruleSlotOp]

@[simp] theorem filterMap_ruleSlotOp_del : (rules.map delRule).filterMap ruleSlotOp =
      rules.map fun _ => .clear fun _ => true := by
  simp [filterMap_map, Function.comp_def, ruleSlotOp]

end SlotOps

end RiftRoute
