/-
Module: RiftRoute.Domain.Types
Purpose: The routes, rules, operations and plans the routing engine, the
  Apply Protocol and the store exchange, and profiles with their rules.
Trusted boundary: human-reviewed spec
-/
import Mathlib.Data.List.Basic
import RiftRoute.Library.GoTime

namespace RiftRoute

open GoTime (Time)

/-- An IP address family. -/
inductive Family where
  | v4
  | v6
deriving DecidableEq, Repr

/-- A family as the source spells it. -/
def Family.text : Family → String
  | .v4 => "v4"
  | .v6 => "v6"

/-- Who installed a route.  `unset` is the empty string of a route the
provider has not classified. -/
inductive Owner where
  | system
  | riftRoute
  | vpn
  | unknown
  | unset
deriving DecidableEq, Repr

/-- A kernel route as read from the routing table. -/
structure Route where
  dstCIDR : String
  gateway : String := ""
  iface : String := ""
  metric : Int := 0
  family : Family := .v4
  owner : Owner := .unset
  /-- Linux route protocol tag. -/
  proto : String := ""
  /-- Linux routing table; empty for main. -/
  table : String := ""
  /-- Owning profile of a managed route. -/
  profile : String := ""
  /-- Kernel cache entry cloned from another route. -/
  cloned : Bool := false
  /-- Interface-scoped route. -/
  isScoped : Bool := false
  /-- The route refuses its destination. -/
  reject : Bool := false
deriving DecidableEq, Repr

/-- A route RiftRoute intends to own. -/
structure ManagedRoute where
  route : Route
  profileID : String := ""
  createdAt : Time := Time.zero
deriving DecidableEq, Repr

/-- A policy-routing selector: a Linux `ip rule` or a macOS PF `route-to`
rule.  A rule's family may be left empty. -/
structure PolicyRule where
  priority : Int
  selector : String
  table : String := ""
  family : Option Family := none
  proto : String := ""
  routeToIface : String := ""
  routeToGW : String := ""
deriving DecidableEq, Repr

/-- A rule RiftRoute intends to own. -/
structure ManagedRule where
  rule : PolicyRule
  profileID : String := ""
  createdAt : Time := Time.zero
deriving DecidableEq, Repr

/-- The kind of a single plan operation.  A journal written by another build
may hold a kind this one does not know. -/
inductive OpKind where
  | addRoute
  | delRoute
  | addRule
  | delRule
  | unknown (text : String)
deriving DecidableEq, Repr

/-- One ordered operation of a transaction; `command` is the argument vector
shown for it. -/
structure PlanOp where
  kind : OpKind
  route : Option ManagedRoute := none
  rule : Option ManagedRule := none
  command : List String := []
  human : String := ""
deriving DecidableEq, Repr

/-- An ordered set of operations and its precomputed inverse. -/
structure Plan where
  ops : List PlanOp := []
  inverse : List PlanOp := []
deriving DecidableEq, Repr

def OpKind.inverse : OpKind → OpKind
  | .addRoute => .delRoute
  | .delRoute => .addRoute
  | .addRule => .delRule
  | .delRule => .addRule
  | .unknown text => .unknown text

/-- The operation with its kind turned round; what it shows stays. -/
def inverseOp (op : PlanOp) : PlanOp := { op with kind := op.kind.inverse }

/-- What an operation asks the provider for. -/
inductive Effect where
  | addRoute (mr : ManagedRoute)
  | delRoute (mr : ManagedRoute)
  | addRule (mr : ManagedRule)
  | delRule (mr : ManagedRule)
deriving DecidableEq, Repr

namespace Effect

def inverse : Effect → Effect
  | .addRoute mr => .delRoute mr
  | .delRoute mr => .addRoute mr
  | .addRule mr => .delRule mr
  | .delRule mr => .addRule mr

@[simp] theorem inverse_inverse (e : Effect) : e.inverse.inverse = e := by
  cases e <;> rfl

def route : Effect → Option ManagedRoute
  | .addRoute mr => some mr
  | .delRoute mr => some mr
  | .addRule _ => none
  | .delRule _ => none

def rule : Effect → Option ManagedRule
  | .addRoute _ => none
  | .delRoute _ => none
  | .addRule mr => some mr
  | .delRule mr => some mr

@[simp] theorem route_inverse (e : Effect) : e.inverse.route = e.route := by
  cases e <;> rfl

@[simp] theorem rule_inverse (e : Effect) : e.inverse.rule = e.rule := by
  cases e <;> rfl

end Effect

namespace PlanOp

/-- The effect of an operation; an operation that lacks what its kind names,
or is of an unknown kind, has none. -/
def effect (op : PlanOp) : Option Effect :=
  match op.kind with
  | .addRoute => op.route.map .addRoute
  | .delRoute => op.route.map .delRoute
  | .addRule => op.rule.map .addRule
  | .delRule => op.rule.map .delRule
  | .unknown _ => none

@[simp] theorem effect_inverseOp (op : PlanOp) :
    (inverseOp op).effect = op.effect.map Effect.inverse := by
  obtain ⟨kind, route, rule, _, _⟩ := op
  cases kind <;> cases route <;> cases rule <;> rfl

end PlanOp

def effects (ops : List PlanOp) : List Effect := ops.filterMap PlanOp.effect

@[simp] theorem effects_nil : effects [] = [] := rfl

@[simp] theorem effects_append (first second : List PlanOp) :
    effects (first ++ second) = effects first ++ effects second :=
  List.filterMap_append ..

theorem effects_reverse_inverseOp (ops : List PlanOp) : effects (ops.reverse.map inverseOp) =
      (effects ops).reverse.map Effect.inverse := by
  unfold effects
  rw [List.filterMap_map, ← List.filterMap_reverse, List.map_filterMap]
  congr 1
  funext op
  exact op.effect_inverseOp

/-- Whether a text starts with another. -/
def hasPrefix (s start : String) : Bool := start.toList.isPrefixOf s.toList

/-- A profile's mode.  `unknown` is any text the source names no mode for. -/
inductive Mode where
  | modeExclude
  | modeInclude
  | modeTunnel
  | unknown (text : String)
deriving DecidableEq, Repr

/-- The kind of a profile rule. -/
inductive RuleType where
  | cidr
  | ip
  | domain
  | asn
  | country
  | app
  | unknown (text : String)
deriving DecidableEq, Repr

/-- One rule of a profile. -/
structure Rule where
  type : RuleType
  value : String
  comment : String := ""
deriving DecidableEq, Repr

/-- The unit a user toggles. -/
structure Profile where
  id : String
  name : String := ""
  description : String := ""
  enabled : Bool := true
  mode : Mode := .modeExclude
  /-- `auto`, empty or a literal address. -/
  gateway : String := ""
  priority : Int := 0
  rules : List Rule := []
  /-- Names of the lists whose entries the profile routes. -/
  lists : List String := []
  /-- The families as they are written; the engine does not read them. -/
  ipVersion : List String := []
  /-- The tunnel a tunnel-mode profile's destinations go into. -/
  tunnel : String := ""
deriving DecidableEq, Repr

/-- A named, reusable set of destinations, inline or fetched from a source. -/
structure NamedList where
  name : String
  static : List String := []
  source : String := ""
  refresh : String := ""
  lastFetched : Option GoTime.Time := none
  checksum : String := ""
  /-- The entries last fetched from the source. -/
  resolved : List String := []
deriving DecidableEq, Repr

def NamedList.entries (l : NamedList) : List String := l.static ++ l.resolved

/-- A listed tunnel route left out, and why. -/
structure TunnelBlocked where
  route : String
  reason : String
deriving DecidableEq, Repr

/-- A network kept out of a listed tunnel route, and why. -/
structure TunnelExcept where
  net : String
  reason : String
deriving DecidableEq, Repr

/-- A listed tunnel route installed with parts kept out. -/
structure TunnelNarrowed where
  route : String
  except : List TunnelExcept
deriving DecidableEq, Repr

/-- A text that may name a user in a PF rule. -/
def isUIDLike (s : String) : Bool :=
  s ≠ "" ∧ s.toList.all fun c =>
    c.isAlphanum ∨ c = '_' ∨ c = '-' ∨ c = '.'

end RiftRoute
