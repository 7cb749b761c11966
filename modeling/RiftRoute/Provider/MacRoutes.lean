/-
Module: RiftRoute.Provider.MacRoutes
Purpose: Managed route changes on macOS: a delete reads the table first,
  through its batch's cache, and leaves a route that is no longer the recorded
  one.
Trusted boundary: human-reviewed spec
-/
import RiftRoute.Provider.Kernel
import RiftRoute.Library.Machine
import RiftRoute.Routing.Installed
import RiftRoute.Routing.DesiredInput

namespace RiftRoute

open List

open Netip (Prefix)

/-! ### The commands -/

/-- An interface name fit for an argument vector. -/
def validIfaceName (s : String) : Bool :=
  s ≠ "" && s.utf8ByteSize ≤ 32 && s.toList.all fun c => c.isAlphanum || c = '.' || c = '-'

inductive MacAction where
  | add
  | delete
deriving DecidableEq, Repr

def MacAction.text : MacAction → String
  | .add => "add"
  | .delete => "delete"

/-- The next hop's arguments of a command. -/
def nextHopArgs (action : MacAction) (r : Route) (v6 : Bool) : Except String (List String) :=
  let gw := Netip.parseAddr r.gateway
  if action = .delete ∧ r.reject then .ok []
  else if r.reject then
    if gw.isSome ∨ r.iface ≠ "" then
      .error "macos: a reject route has no gateway or interface"
    else .ok [if v6 then "::1" else "127.0.0.1", "-reject"]
  else
    match gw with
    | some gw => .ok [gw.text]
    | none =>
      if action = .delete then .ok []
      else if ¬ validIfaceName r.iface then
        .error ("macos: route without a gateway needs a valid interface, got " ++ r.iface.quote)
      else .ok ["-interface", r.iface]

/-- The validated arguments of `route -n <action>`. -/
def macRouteArgs (action : MacAction) (mr : ManagedRoute) : Except String (List String) :=
  match Netip.parsePrefix mr.route.dstCIDR with
  | none =>
    .error ("macos: invalid destination CIDR " ++ mr.route.dstCIDR.quote)
  | some pfx =>
    if (Netip.parseAddr mr.route.gateway).any fun gw =>
        pfx.addr.is6 ≠ gw.is6 then
      .error "macos: gateway/destination family mismatch"
    else do
      let hop ← nextHopArgs action mr.route pfx.addr.is6
      .ok (["-n", action.text] ++ (if pfx.addr.is6 then ["-inet6"] else []) ++
        (if pfx.bits = pfx.addr.bitLen then ["-host", pfx.addr.text]
          else ["-net", pfx.masked.text]) ++ hop)

/-! ### The kernel and the caches -/

def maskedDst (r : Route) : Option Prefix := (Netip.parsePrefix r.dstCIDR).map Prefix.masked

/-- A route in the kernel's table, as it is listed, and whether RiftRoute
added it. -/
structure MacEntry where
  route : Route
  ours : Bool
deriving DecidableEq

def MacEntry.dst (e : MacEntry) : Option Prefix := maskedDst e.route

/-- The table: one unscoped route per destination.  Listed beside them are
interface-scoped routes and clone entries, which `route delete` does not
take. -/
structure MacKernel where
  routes : KeyedTable MacEntry.dst
  beside : List Route
  besideKind : ∀ k ∈ beside, k.cloned ∨ k.isScoped

/-- The family of a masked destination. -/
def dstFamily (d : Option Prefix) : Family :=
  match d with
  | some pfx => famOf pfx.addr
  | none => .v4

def MacKernel.listRoutes (k : MacKernel) (fam : Family) : List Route :=
  (k.routes.rows.map MacEntry.route ++ k.beside).filter fun r =>
    dstFamily (maskedDst r) = fam

/-- A batch's copies of the tables it has read. -/
structure TableCache where
  batch : Nat
  fams : Family → Option (List Route) := fun _ => none

def TableCache.set (c : TableCache) (fam : Family) (rs : List Route) : TableCache :=
  { c with fams := fun f => if f = fam then some rs else c.fams f }

structure MacState where
  kernel : MacKernel
  caches : KeyedTable TableCache.batch

variable (s : MacState) (batch : Option Nat)

/-- The cache a call carries, if any. -/
def MacState.cacheOf : Option TableCache :=
  batch.bind s.caches.find

/-- The cache a call carries, changed. -/
def MacState.setTable (fam : Family)
    (rs : List Route) : MacState :=
  match s.cacheOf batch with
  | none => s
  | some c => { s with caches := s.caches.put (c.set fam rs) }

/-- A family's table: the cache's copy, or a read, which the cache then
keeps. -/
def cachedRoutes (fam : Family) : List Route × MacState :=
  match (s.cacheOf batch).bind (·.fams fam) with
  | some rs => (rs, s)
  | none =>
    let rs := s.kernel.listRoutes fam
    (rs, s.setTable batch fam rs)

def routeAdded (r : Route) : MacState :=
  match Netip.parsePrefix r.dstCIDR with
  | none => s
  | some dst =>
    let fam := famOf dst.addr
    match (s.cacheOf batch).bind (·.fams fam) with
    | none => s
    | some rs =>
      s.setTable batch fam (rs ++ [{ r with dstCIDR := dst.masked.text }])

/-- Record that a destination's route was just deleted, or found gone. -/
def routeDeleted (r : Route) : MacState :=
  match Netip.parsePrefix r.dstCIDR with
  | none => s
  | some dst =>
    let fam := famOf dst.addr
    match (s.cacheOf batch).bind (·.fams fam) with
    | none => s
    | some rs =>
      s.setTable batch fam (rs.filter fun k =>
        ¬ (k.table = r.table ∧ maskedDst k = some dst.masked))

theorem kernel_setTable (fam : Family)
    (rs : List Route) : (s.setTable batch fam rs).kernel = s.kernel := by
  unfold MacState.setTable
  split <;> rfl

theorem kernel_cachedRoutes (fam : Family) : (cachedRoutes s batch fam).2.kernel = s.kernel := by
  unfold cachedRoutes
  split
  · rfl
  · exact kernel_setTable s batch fam _

theorem kernel_routeDeleted (r : Route) :
    (routeDeleted s batch r).kernel = s.kernel := by
  unfold routeDeleted
  split
  · rfl
  · dsimp only
    split
    · rfl
    · exact kernel_setTable s batch _ _

/-! ### Managed changes -/

/-- The kernel's route is the recorded one, as far as a delete checks: a
reject route for a reject route, else the same gateway or, on-link, the same
interface. -/
def agrees (r k : Route) : Bool :=
  maskedDst k = maskedDst r && if r.reject || k.reject then r.reject && k.reject
    else if r.gateway ≠ "" then
      k.gateway ≠ "" && gatewayKey k.gateway = gatewayKey r.gateway
    else k.iface = r.iface

/-- Two routes leave the same way: both refuse, or neither does and they have
one gateway or, where the first has none, one interface. -/
def SameHop (r k : Route) : Prop :=
  k.reject = r.reject ∧ (r.reject = false → if r.gateway ≠ "" then
        k.gateway ≠ "" ∧ gatewayKey k.gateway = gatewayKey r.gateway
      else k.iface = r.iface)

theorem agrees_iff {r k : Route} : agrees r k ↔ maskedDst k = maskedDst r ∧ SameHop r k := by
  cases refuses : r.reject <;> cases other : k.reject <;>
    by_cases via : r.gateway = "" <;>
    simp [agrees, SameHop, refuses, other, via]

/-- A managed delete in the kernel model.  Routes carry no tag on macOS, so
another program's route of the same next hop is taken as well. -/
def Matching.byNextHop : Matching where
  takes mr entry := mr.profileID = "" ∨ agrees mr.route entry
  takes_same := by
    intro mr entry _ same
    have dst : entry.dstCIDR = mr.route.dstCIDR := congrArg (·.dst.dst) same
    have gateway : entry.gateway = mr.route.gateway := congrArg RouteKey.gateway same
    have iface : entry.iface = mr.route.iface := congrArg RouteKey.iface same
    have reject : entry.reject = mr.route.reject := congrArg RouteKey.reject same
    have sameRoute : agrees mr.route entry :=
      agrees_iff.mpr ⟨by simp [maskedDst, dst], reject, by simp [gateway, iface]⟩
    simp [sameRoute]

/-- Whether a listed table holds the recorded route. -/
def stillOurs (r : Route) (kernel : List Route) : Bool :=
  kernel.any fun k => ¬ k.cloned && agrees r k

/-- What `route add` answers. -/
inductive AddAnswer where
  /-- The destination was free; the new route is listed so. -/
  | added (listed : Route)
  | failed

/-- A managed add.  "File exists" is a success that changes nothing. -/
def addRouteMac (mr : ManagedRoute)
    (answer : AddAnswer) : Option MacState :=
  match macRouteArgs .add mr with
  | .error _ => some s
  | .ok _ =>
    if (s.kernel.routes.find (maskedDst mr.route)).isSome then some s
    else
      match answer with
      | .failed => some s
      | .added listed =>
        if maskedDst listed = maskedDst mr.route then
          some (routeAdded
            { s with
              kernel :=
                { s.kernel with
                  routes := s.kernel.routes.put
                    { route := listed, ours := true } } }
            batch mr.route)
        else none

/-- A managed delete: the table is read (`readFails` when it cannot be), and
the route is deleted while it is still ours (`fails` when the command fails).
-/
def delRouteMac (mr : ManagedRoute)
    (readFails fails : Bool) : MacState :=
  match macRouteArgs .delete mr with
  | .error _ => s
  | .ok _ =>
    let cached := (s.cacheOf batch).bind (·.fams (dstFamily (maskedDst mr.route)))
    if cached.isNone && readFails then s
    else
      let (table, s) := cachedRoutes s batch (dstFamily (maskedDst mr.route))
      if stillOurs mr.route table && !fails then
        routeDeleted
          { s with
            kernel :=
              { s.kernel with
                routes := s.kernel.routes.erase (maskedDst mr.route) } }
          batch mr.route
      else s

inductive MacEvent where
  /-- Something else changes the table. -/
  | outside (kernel : MacKernel)
  | openBatch (batch : Nat)
  | closeBatch (batch : Nat)
  | add (batch : Option Nat) (mr : ManagedRoute) (answer : AddAnswer)
  | del (batch : Option Nat) (mr : ManagedRoute) (readFails fails : Bool)

/-- Only managed changes are made, nothing else changes the table during a
batch with a cache, and what something else adds is not RiftRoute's. -/
def macStep : MacEvent → Option MacState
  | .outside kernel =>
    if s.caches.rows.isEmpty ∧ ∀ e ∈ kernel.routes.rows, e.ours → e ∈ s.kernel.routes.rows then
      some { s with kernel := kernel }
    else none
  | .openBatch batch =>
    if (s.caches.find batch).isSome then none
    else some { s with caches := s.caches.put { batch := batch } }
  | .closeBatch batch => some { s with caches := s.caches.erase batch }
  | .add batch mr answer =>
    if mr.profileID = "" then none else addRouteMac s batch mr answer
  | .del batch mr readFails fails =>
    if mr.profileID = "" then none
    else some (delRouteMac s batch mr readFails fails)

def macMachine : Machine MacState MacEvent where
  step := macStep

/-! ### What a copy of the table says of other programs' routes -/

/-- Where another program holds a destination, a copy lists that route there,
beside interface-scoped ones and clones. -/
def Faithful (kernel : MacKernel) (rs : List Route) : Prop :=
  ∀ k ∈ rs, k.cloned = false → ∀ e ∈ kernel.routes.rows, e.ours = false →
    maskedDst k = e.dst → k = e.route ∨ k ∈ kernel.beside ∧ k.isScoped

theorem faithful_listRoutes (kernel : MacKernel) (fam : Family) :
    Faithful kernel (kernel.listRoutes fam) := by
  intro k listed real e member _ same
  rcases mem_append.mp (mem_of_mem_filter listed) with row | extra
  · obtain ⟨other, otherMember, rfl⟩ := mem_map.mp row
    left
    rw [KeyedTable.key_injOn otherMember member same]
  · right
    refine ⟨extra, ?_⟩
    have kind := kernel.besideKind k extra
    rw [real] at kind
    exact kind.resolve_left (by simp)

theorem Faithful.mono {kernel after : MacKernel} {rs kept : List Route}
    (faithful : Faithful kernel rs) (fewer : ∀ k ∈ kept, k ∈ rs)
    (foreign : ∀ e ∈ after.routes.rows, e.ours = false → e ∈ kernel.routes.rows)
    (beside : after.beside = kernel.beside) : Faithful after kept := by
  intro k listed real e member theirs same
  rw [beside]
  exact faithful k (fewer k listed) real e (foreign e member theirs) theirs same

/-- The copies of the batches under way are faithful. -/
def Coherent : Prop :=
  ∀ c ∈ s.caches.rows, ∀ fam rs, c.fams fam = some rs → Faithful s.kernel rs

namespace Coherent

variable {s : MacState}

section

variable (coherent : Coherent s)

include coherent

variable {batch : Option Nat}

theorem cached {fam : Family} {rs : List Route}
    (found : (s.cacheOf batch).bind (·.fams fam) = some rs) :
    Faithful s.kernel rs := by
  obtain ⟨c, carried, listed⟩ := Option.bind_eq_some_iff.mp found
  obtain ⟨b, _, known⟩ := Option.bind_eq_some_iff.mp carried
  exact coherent c (KeyedTable.mem_of_find known) fam rs listed

theorem setTable {fam : Family}
    {rs : List Route} (faithful : Faithful s.kernel rs) :
    Coherent (s.setTable batch fam rs) := by
  unfold MacState.setTable
  split
  case h_1 => exact coherent
  case h_2 c carried =>
    obtain ⟨b, _, known⟩ := Option.bind_eq_some_iff.mp carried
    intro other member f listed set
    rcases KeyedTable.mem_put.mp member with rfl | ⟨before, _⟩
    · simp only [TableCache.set] at set
      split at set
      case isTrue => exact Option.some.inj set ▸ faithful
      case isFalse =>
        exact coherent c (KeyedTable.mem_of_find known) f listed set
    · exact coherent other before f listed set

theorem cachedRoutes (batch : Option Nat) (fam : Family) :
    Faithful s.kernel (RiftRoute.cachedRoutes s batch fam).1 ∧
      Coherent (RiftRoute.cachedRoutes s batch fam).2 := by
  have read := faithful_listRoutes s.kernel fam
  unfold RiftRoute.cachedRoutes
  split
  case h_1 rs found => exact ⟨coherent.cached found, coherent⟩
  case h_2 => exact ⟨read, coherent.setTable read⟩

theorem withKernel {kernel : MacKernel}
    (foreign : ∀ e ∈ kernel.routes.rows, e.ours = false → e ∈ s.kernel.routes.rows)
    (beside : kernel.beside = s.kernel.beside) :
    Coherent { s with kernel := kernel } := by
  intro c member fam rs listed
  exact (coherent c member fam rs listed).mono (fun _ held => held) foreign beside

theorem routeDeleted (batch : Option Nat)
    (r : Route) : Coherent (RiftRoute.routeDeleted s batch r) := by
  unfold RiftRoute.routeDeleted
  split
  case h_1 => exact coherent
  case h_2 dst _ =>
    dsimp only
    split
    case h_1 => exact coherent
    case h_2 rs found =>
      apply coherent.setTable
      exact (coherent.cached found).mono
        (fun _ kept => mem_of_mem_filter kept) (fun _ held _ => held) rfl

theorem routeAdded {r : Route}
    (ours : ∀ e ∈ s.kernel.routes.rows, e.dst = maskedDst r → e.ours) :
    Coherent (RiftRoute.routeAdded s batch r) := by
  unfold RiftRoute.routeAdded
  split
  case h_1 => exact coherent
  case h_2 dst read =>
    dsimp only
    split
    case h_1 => exact coherent
    case h_2 rs found =>
      apply coherent.setTable
      intro k listed real e member theirs same
      rcases mem_append.mp listed with before | last
      · exact coherent.cached found k before real e member theirs same
      · obtain rfl := mem_singleton.mp last
        have here : e.dst = maskedDst r := by
          rw [← same]
          simp only [maskedDst, Netip.parsePrefix_text, read, Option.map_some]
          exact congrArg some dst.isMasked_masked
        rw [ours e member here] at theirs
        cases theirs

theorem addRouteMac {mr : ManagedRoute} {answer : AddAnswer} {next : MacState}
    (stepped : RiftRoute.addRouteMac s batch mr answer = some next) :
    Coherent next := by
  unfold RiftRoute.addRouteMac at stepped
  split at stepped
  case h_1 => exact Option.some.inj stepped ▸ coherent
  case h_2 =>
    split at stepped
    case isTrue => exact Option.some.inj stepped ▸ coherent
    case isFalse free =>
      split at stepped
      case h_1 => exact Option.some.inj stepped ▸ coherent
      case h_2 listed =>
        split at stepped
        case isFalse => cases stepped
        rename_i placed
        obtain rfl := Option.some.inj stepped
        apply routeAdded
        · apply coherent.withKernel
          · intro e member theirs
            rcases KeyedTable.mem_put.mp member with rfl | ⟨before, _⟩
            · cases theirs
            · exact before
          · rfl
        · intro e member same
          rcases KeyedTable.mem_put.mp member with rfl | ⟨_, apart⟩
          · rfl
          · exact absurd (same.trans placed.symm) apart

theorem delRouteMac (batch : Option Nat)
    (mr : ManagedRoute) (readFails fails : Bool) :
    Coherent (RiftRoute.delRouteMac s batch mr readFails fails) := by
  obtain ⟨_, after⟩ := coherent.cachedRoutes batch (dstFamily (maskedDst mr.route))
  unfold RiftRoute.delRouteMac
  split
  case h_1 => exact coherent
  case h_2 =>
    dsimp only
    split
    · exact coherent
    · split
      · apply routeDeleted
        apply after.withKernel
        · intro e member _
          exact mem_of_mem_filter member
        · rfl
      · exact after

theorem step {event : MacEvent} {next : MacState}
    (stepped : macStep s event = some next) : Coherent next := by
  cases event with
  | outside kernel =>
    simp only [macStep] at stepped
    split at stepped
    case isTrue quiet =>
      obtain rfl := Option.some.inj stepped
      intro c member
      have none : s.caches.rows = [] := List.isEmpty_iff.mp quiet.1
      rw [show c ∈ s.caches.rows ↔ c ∈ [] from none ▸ Iff.rfl] at member
      cases member
    case isFalse => cases stepped
  | openBatch batch =>
    simp only [macStep] at stepped
    split at stepped
    case isTrue => cases stepped
    obtain rfl := Option.some.inj stepped
    intro c member fam rs listed
    rcases KeyedTable.mem_put.mp member with rfl | ⟨before, _⟩
    · cases listed
    · exact coherent c before fam rs listed
  | closeBatch batch =>
    obtain rfl := Option.some.inj stepped
    intro c member
    exact coherent c (mem_of_mem_filter member)
  | add batch mr answer =>
    simp only [macStep] at stepped
    split at stepped
    case isTrue => cases stepped
    case isFalse => exact coherent.addRouteMac stepped
  | del batch mr readFails fails =>
    simp only [macStep] at stepped
    split at stepped
    case isTrue => cases stepped
    obtain rfl := Option.some.inj stepped
    exact coherent.delRouteMac batch mr readFails fails

end

end Coherent

/-! ### Deletes -/

theorem stillOurs_of_removed {s : MacState} {batch : Option Nat}
    {mr : ManagedRoute} {readFails fails : Bool} {e : MacEntry}
    (before : e ∈ s.kernel.routes.rows)
    (removed : e ∉ (delRouteMac s batch mr readFails fails).kernel.routes.rows) :
    e.dst = maskedDst mr.route ∧ stillOurs mr.route
      (cachedRoutes s batch (dstFamily (maskedDst mr.route))).1 := by
  unfold delRouteMac at removed
  split at removed
  case h_1 => exact absurd before removed
  dsimp only at removed
  split at removed
  case isTrue => exact absurd before removed
  have same := kernel_cachedRoutes s batch (dstFamily (maskedDst mr.route))
  split at removed
  case isFalse =>
    rw [same] at removed
    exact absurd before removed
  case isTrue checked =>
    refine ⟨?_, (Bool.and_eq_true_iff.mp checked).1⟩
    by_contra apart
    apply removed
    rw [kernel_routeDeleted]
    refine mem_filter.mpr ⟨?_, by simpa using apart⟩
    rw [same]
    exact before

theorem Faithful.agrees_of_stillOurs {kernel : MacKernel} {rs : List Route}
    (faithful : Faithful kernel rs) {r : Route} (ours : stillOurs r rs)
    {e : MacEntry} (member : e ∈ kernel.routes.rows)
    (theirs : e.ours = false) (same : e.dst = maskedDst r) :
    agrees r e.route ∨ ∃ k ∈ kernel.beside, k.isScoped ∧ agrees r k := by
  obtain ⟨k, listed, matched⟩ := any_eq_true.mp ours
  obtain ⟨real, agreed⟩ := Bool.and_eq_true_iff.mp matched
  have sameDst : maskedDst k = e.dst := by
    have := (Bool.and_eq_true_iff.mp agreed).1
    rw [same]
    exact of_decide_eq_true this
  rcases faithful k listed (by simpa using real) e member theirs sameDst with
    rfl | ⟨extra, bound⟩
  · exact Or.inl agreed
  · exact Or.inr ⟨k, extra, bound, agreed⟩

/-- Deletes spare other programs' routes: in a run of managed changes that
starts with no batch under way, a delete that removes a route RiftRoute did
not add removes one that agrees with the record as far as the check goes.  A
destination with an agreeing interface-scoped route beside it is left out. -/
theorem foreign_routes_spared {s₀ s s' : MacState} {es : List MacEvent}
    {batch : Option Nat} {mr : ManagedRoute} {readFails fails : Bool}
    (idle : s₀.caches.rows = [])
    (ran : macMachine.run s₀ es = some s)
    (stepped : macMachine.step s (.del batch mr readFails fails) = some s')
    (unscoped : ∀ k ∈ s.kernel.beside, k.isScoped → agrees mr.route k = false)
    (e : MacEntry) (before : e ∈ s.kernel.routes.rows)
    (theirs : e.ours = false) (removed : e ∉ s'.kernel.routes.rows) :
    e.dst = maskedDst mr.route ∧ SameHop mr.route e.route := by
  have start : Coherent s₀ := by
    intro c member
    rw [idle] at member
    cases member
  have coherent : Coherent s :=
    Machine.invariant Coherent (fun _ _ _ held _ => held.step) start
      (Machine.Along.of_forall (fun _ _ _ => trivial) s₀) ran
  simp only [macMachine, macStep] at stepped
  split at stepped
  case isTrue => cases stepped
  obtain rfl := Option.some.inj stepped
  obtain ⟨same, ours⟩ := stillOurs_of_removed before removed
  have faithful := (coherent.cachedRoutes batch (dstFamily (maskedDst mr.route))).1
  rcases faithful.agrees_of_stillOurs ours before theirs same with
    agreed | ⟨k, extra, bound, agreed⟩
  · exact agrees_iff.mp agreed
  · rw [unscoped k extra bound] at agreed
    cases agreed

namespace SharedDestination

variable (r : Route) (gateway iface : String)

/-- A destination another program routes. -/
def foreign : MacEntry where
  route := r
  ours := false

/-- Its route, with nothing else in the table. -/
def held : MacState where
  kernel :=
    { routes := KeyedTable.empty.put (foreign r)
      beside := []
      besideKind := by simp }
  caches := KeyedTable.empty

def record : ManagedRoute where
  route := { dstCIDR := "10.0.0.0/8", gateway := gateway, iface := iface }
  profileID := "office"

def theirs : Route where
  dstCIDR := "10.0.0.0/8"
  gateway := gateway
  iface := iface

/-- The table after a delete of the record. -/
def rowsAfter (mr : ManagedRoute) : Option (List MacEntry) :=
  (macMachine.run (held r) [.del none mr false false]).map (·.kernel.routes.rows)

def inBatch : MacState where
  kernel := (held r).kernel
  caches := KeyedTable.empty.put { batch := 1 }

end SharedDestination

open SharedDestination

/-- A route with the record's gateway is deleted, as one that cannot be told
apart. -/
theorem same_gateway_deleted : foreign (theirs "192.168.1.1" "en0") ∉
        (delRouteMac (inBatch (theirs "192.168.1.1" "en0")) (some 1)
          (record "192.168.1.1" "en0") false false).kernel.routes.rows ∧
      SameHop (record "192.168.1.1" "en0").route (theirs "192.168.1.1" "en0") := by
  have removed : foreign (theirs "192.168.1.1" "en0") ∉
      (delRouteMac (inBatch (theirs "192.168.1.1" "en0")) (some 1)
        (record "192.168.1.1" "en0") false false).kernel.routes.rows := by
    decide +kernel
  have opened : macMachine.run (held (theirs "192.168.1.1" "en0"))
      [.openBatch 1] = some (inBatch (theirs "192.168.1.1" "en0")) := rfl
  have deleted : macMachine.step (inBatch (theirs "192.168.1.1" "en0"))
      (.del (some 1) (record "192.168.1.1" "en0") false false) =
        some (delRouteMac (inBatch (theirs "192.168.1.1" "en0")) (some 1)
          (record "192.168.1.1" "en0") false false) := rfl
  have same := foreign_routes_spared rfl opened deleted
    (fun _ extra => absurd extra not_mem_nil)
    (foreign (theirs "192.168.1.1" "en0")) (by decide +kernel) rfl removed
  exact ⟨removed, same.2⟩

/-- The check looks at the gateway alone, at the interface alone for a record
without one, and at neither between reject routes: each of these routes
differs from the record in one of them and goes. -/
theorem differing_routes_deleted :
    rowsAfter (theirs "192.168.1.1" "en1") (record "192.168.1.1" "en0") = some [] ∧
      rowsAfter (theirs "10.8.0.1" "utun3") (record "" "utun3") = some [] ∧
      rowsAfter { theirs "127.0.0.1" "lo0" with reject := true }
        { record "" "" with
          route := { (record "" "").route with reject := true } } =
        some [] := by
  decide +kernel

end RiftRoute
