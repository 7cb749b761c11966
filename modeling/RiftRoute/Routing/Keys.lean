/-
Module: RiftRoute.Routing.Keys
Purpose: The identities the engine works with, as tuples of fields; `text` is
  the source's spelling with `|`, which identifies the same as long as no field
  holds one.
Trusted boundary: human-reviewed spec
-/
import RiftRoute.Domain.Types
import RiftRoute.Library.Texts

namespace RiftRoute

open List

/-- `family|table|dst`: what the kernel keeps one route per. -/
structure DstKey where
  family : Family
  table : String
  dst : String
deriving DecidableEq, Repr

/-- `family|table|dst|gateway|iface`, and `|reject` for a reject route. -/
structure RouteKey where
  dst : DstKey
  gateway : String
  iface : String
  reject : Bool
deriving DecidableEq, Repr

def dstKey (r : Route) : DstKey := { family := r.family, table := r.table, dst := r.dstCIDR }

def routeKey (r : Route) : RouteKey :=
  { dst := dstKey r, gateway := r.gateway, iface := r.iface, reject := r.reject }

/-- `priority|selector|table|family`, and `|iface|gateway` of the route-to
target when there is one. -/
structure RuleKey where
  priority : Int
  selector : String
  table : String
  family : Option Family
  routeTo : Option (String × String)
deriving DecidableEq, Repr

def ruleKey (r : PolicyRule) : RuleKey :=
  { priority := r.priority
    selector := r.selector
    table := r.table
    family := r.family
    routeTo :=
      if r.routeToIface ≠ "" then some (r.routeToIface, r.routeToGW) else none }

namespace ManagedRoute

variable (mr : ManagedRoute)

def key : RouteKey := routeKey mr.route

def dst : DstKey := dstKey mr.route

@[simp] theorem dst_key : mr.key.dst = mr.dst := rfl

theorem dst_eq_of_key_eq {first second : ManagedRoute}
    (same : first.key = second.key) : first.dst = second.dst :=
  congrArg RouteKey.dst same

end ManagedRoute

def ManagedRule.key (mr : ManagedRule) : RuleKey := ruleKey mr.rule

/-- The destination an effect changes; a rule's effect changes none. -/
def Effect.dst (e : Effect) : Option DstKey := e.route.map ManagedRoute.dst

variable (k : RuleKey) (e : Effect)

/-- The rule identity an effect changes; a route's effect changes none. -/
def Effect.ruleKey : Option RuleKey := e.rule.map ManagedRule.key

@[simp] theorem Effect.dst_inverse : e.inverse.dst = e.dst := by
  simp [Effect.dst]

@[simp] theorem Effect.ruleKey_inverse : e.inverse.ruleKey = e.ruleKey := by
  simp [Effect.ruleKey]

/-- The effects on one destination, in order. -/
def effectsAt (dst : DstKey) (es : List Effect) : List Effect := es.filter fun e => e.dst = some dst

def ruleEffectsAt (es : List Effect) : List Effect :=
  es.filter fun e => e.ruleKey = some k

@[simp] theorem effectsAt_append (dst : DstKey) (first second : List Effect) :
    effectsAt dst (first ++ second) = effectsAt dst first ++ effectsAt dst second :=
  filter_append ..

@[simp] theorem ruleEffectsAt_append (first second : List Effect) :
    ruleEffectsAt k (first ++ second) = ruleEffectsAt k first ++ ruleEffectsAt k second :=
  filter_append ..

theorem effectsAt_reverse_inverse (dst : DstKey) (es : List Effect) :
    effectsAt dst (es.reverse.map Effect.inverse) =
      (effectsAt dst es).reverse.map Effect.inverse := by
  simp [effectsAt, filter_map, Function.comp_def, filter_reverse]

theorem ruleEffectsAt_reverse_inverse (es : List Effect) :
    ruleEffectsAt k (es.reverse.map Effect.inverse) =
      (ruleEffectsAt k es).reverse.map Effect.inverse := by
  simp [ruleEffectsAt, filter_map, Function.comp_def, filter_reverse]

/-! ### The source's spelling -/

def DstKey.text (k : DstKey) : String := k.family.text ++ "|" ++ k.table ++ "|" ++ k.dst

def RouteKey.text (k : RouteKey) : String :=
  k.dst.text ++ "|" ++ k.gateway ++ "|" ++ k.iface ++ (if k.reject then "|reject" else "")

def RuleKey.text (k : RuleKey) : String :=
  k.priority.repr ++ "|" ++ k.selector ++ "|" ++ k.table ++ "|" ++ (k.family.elim "" Family.text) ++
    (k.routeTo.elim "" fun target => "|" ++ target.1 ++ "|" ++ target.2)

end RiftRoute
