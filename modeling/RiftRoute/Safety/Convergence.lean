/-
Module: RiftRoute.Safety.Convergence
Purpose: What converges.  Applying: every desired route is in the kernel, or
  its destination is another's or held, and planning again plans nothing.  The
  repair after a crash: missing recorded routes are added, then unrecorded
  tagged ones deleted, unless a leftover holds a recorded destination.
Trusted boundary: human-reviewed spec
Main exports: reconcileOwnership, Converged
-/
import RiftRoute.Safety.Protocol

namespace RiftRoute

open List KeyedTable

/-- Each destination is spelled one way, as kernels list it. -/
def OneSpelling (rs : List Route) : Prop :=
  ∀ a ∈ rs, ∀ b ∈ rs, maskedDstKey a = maskedDstKey b → dstKey a = dstKey b

instance (rs : List Route) : Decidable (OneSpelling rs) := inferInstanceAs (Decidable (∀ a ∈ rs, _))

/-- The kernel's tables, read without a failure. -/
def readFrom (k : Kernel) (fam : Family) : Option (List Route) := some (k.listRoutes fam)

/-- The recorded routes a full apply takes for installed. -/
def keptOf (k : Kernel) (owned desired : List ManagedRoute)
    (held : RouteKey → Bool) : List ManagedRoute :=
  (verifyRoutes desired (readFrom k) held (fun _ => true) owned).kept

/-- The plan of a full apply: the records, as far as the kernel bears them
out, to the desired routes. -/
def planFrom (k : Kernel) (owned desired : List ManagedRoute)
    (held : RouteKey → Bool) (desiredRules actualRules : List ManagedRule)
    (platform : String) : Plan :=
  reconcile desired (keptOf k owned desired held) desiredRules actualRules platform

/-- No managed delete of a recorded route takes the entry: it is not
RiftRoute's. -/
def Unrecorded (M : Matching) (owned : List ManagedRoute) (entry : Route) : Prop :=
  ∀ o ∈ owned, M.takes o entry = false

instance (M : Matching) (owned : List ManagedRoute) (entry : Route) :
    Decidable (Unrecorded M owned entry) :=
  inferInstanceAs (Decidable (∀ o ∈ owned, _))

/-! ### Planning what is there -/

theorem reconcile_ops_nil {desired actual : List ManagedRoute}
    {rules : List ManagedRule} {platform : String}
    (present : ∀ d ∈ desired, d.key ∈ actual.map ManagedRoute.key)
    (wanted : ∀ a ∈ actual, a.key ∈ desired.map ManagedRoute.key) :
    (reconcile desired actual rules rules platform).ops = [] := by
  have loop : ∀ (ds : List ManagedRoute) (s : AddLoop), (∀ d ∈ ds, d ∈ desired) →
      ds.foldl (AddLoop.addDesired platform (indexRoutes actual)
        (byDst (indexRoutes desired) actual)) s = s := by
    intro ds
    induction ds with
    | nil => exact fun _ _ => rfl
    | cons d ds ih =>
      intro s members
      have here := present d (members d mem_cons_self)
      rw [foldl_cons, addDesired_of_present platform here]
      exact ih s fun e later =>
        members e (mem_cons_of_mem _ later)
  have dels : (actual.filter fun a => (indexRoutes desired a.key).isNone &&
      !decide (a.key ∈ ({} : AddLoop).replaced)) = [] := by
    apply filter_eq_nil_iff.mpr
    intro a member gone
    rw [Bool.and_eq_true] at gone
    exact indexBy_isNone.mp gone.1 (wanted a member)
  have adds : (rules.filter fun d => (indexRules rules d.key).isNone) = [] := by
    apply filter_eq_nil_iff.mpr
    intro d member gone
    exact indexBy_isNone.mp gone (mem_map_of_mem member)
  unfold reconcile
  dsimp only
  rw [loop desired {} fun _ member => member, dels, adds]
  rfl

/-! ### What the kernel holds of a destination -/

section Spelled

variable {k : Kernel} {r : Route}

theorem mem_listRoutes_of_find {entry : Route} (found : k.routes.find (dstKey r) = some entry) :
    entry ∈ k.listRoutes r.family := by
  have same := key_of_find found
  apply mem_filter.mpr
  exact ⟨mem_of_find found, decide_eq_true (congrArg DstKey.family same)⟩

theorem maskedDstKey_eq_of_dstKey {a b : Route} (same : dstKey a = dstKey b) :
    maskedDstKey a = maskedDstKey b := by
  have cidr : a.dstCIDR = b.dstCIDR := congrArg DstKey.dst same
  have family : a.family = b.family := congrArg DstKey.family same
  have table : a.table = b.table := congrArg DstKey.table same
  simp [maskedDstKey, dstKey, cidr, family, table]

theorem has_iff_find (spelled : ∀ e ∈ k.routes.rows, maskedDstKey r = maskedDstKey e →
      dstKey e = dstKey r) :
    (indexInstalled (k.listRoutes r.family)).has r ↔
      ∃ entry, k.routes.find (dstKey r) = some entry ∧
        entry.cloned = false ∧ r.nextHop ∈ entry.nextHops := by
  rw [has_iff]
  constructor
  · rintro ⟨entry, listed, real, same, hop⟩
    have row := (mem_filter.mp listed).1
    refine ⟨entry, ?_, real, hop⟩
    rw [← spelled entry row same]
    exact find_of_mem row
  · rintro ⟨entry, found, real, hop⟩
    exact ⟨entry, mem_listRoutes_of_find found, real,
      (maskedDstKey_eq_of_dstKey (key_of_find found)).symm, hop⟩

theorem outranked_of_find {entry : Route} (found : k.routes.find (dstKey r) = some entry)
    (real : entry.cloned = false) (unscoped : entry.isScoped = false)
    (ranks : entry.metric ≤ effectiveMetric r) :
    (indexInstalled (k.listRoutes r.family)).outranked r := by
  apply outranked_iff.mpr
  exact ⟨entry, mem_listRoutes_of_find found, real, unscoped,
    (maskedDstKey_eq_of_dstKey (key_of_find found)).symm, ranks⟩

end Spelled

/-! ### One apply -/

section Apply

variable {M : Matching} {k : Kernel} {owned desired : List ManagedRoute}
  {held : RouteKey → Bool} {desiredRules actualRules : List ManagedRule}
  {platform : String}

theorem keepsRoute_wanted {o : ManagedRoute} (wanted : o.key ∈ desired.map ManagedRoute.key) :
    keepsRoute desired (readFrom k) held (fun _ => true) o = true ↔
      (indexInstalled (k.listRoutes o.route.family)).has o.route ∨
        (indexInstalled (k.listRoutes o.route.family)).outranked o.route ∨
        held o.key ∧ ¬ isTunnelRoute o := by
  have index : (indexRoutes desired o.key).isSome := indexBy_isSome.mpr wanted
  simp [keepsRoute, index, readFrom]

/-- What an apply asks of the kernel, the records and the desired set. -/
structure Settles (M : Matching) (k : Kernel)
    (owned desired : List ManagedRoute) (held : RouteKey → Bool) : Prop where
  oneOwned : OnePerDst owned
  oneDesired : OnePerDst desired
  /-- A managed delete removes only the recorded route. -/
  exact : ∀ o ∈ owned, ∀ entry, M.takes o entry → routeKey entry = o.key
  spelling : OneSpelling (k.routes.rows ++ (owned ++ desired).map ManagedRoute.route)
  /-- The kernel's cache is none of its routes. -/
  real : ∀ entry ∈ k.routes.rows, entry.cloned = false
  /-- Another program's route at a desired destination leaves no place beside
  it. -/
  ranked : ∀ d ∈ desired, ∀ entry, k.routes.find d.dst = some entry → Unrecorded M owned entry →
      entry.isScoped = false ∧ entry.metric ≤ effectiveMetric d.route
  /-- A held tunnel route is recorded as a tunnel's. -/
  tunnels : ∀ o ∈ owned, ∀ d ∈ desired, o.key = d.key → held d.key →
    isTunnelRoute d → isTunnelRoute o

def afterApply (M : Matching) (k : Kernel) (owned desired : List ManagedRoute)
    (held : RouteKey → Bool) (desiredRules actualRules : List ManagedRule)
    (platform : String) : Kernel :=
  k.run M (effects (planFrom k owned desired held desiredRules actualRules platform).ops)

namespace Settles

section

variable (s : Settles M k owned desired held)

include s

theorem oneKept : OnePerDst (keptOf k owned desired held) :=
  List.Nodup.sublist ((kept_sublist owned).map _) s.oneOwned

variable {d : ManagedRoute}

theorem unrecorded_of_not_has (member : d ∈ desired) {entry : Route}
    (found : k.routes.find d.dst = some entry)
    (missing : d.route.nextHop ∉ entry.nextHops)
    (spared : ∀ a ∈ oldsAt desired (keptOf k owned desired held) d.dst,
      M.takes a entry = false) : Unrecorded M owned entry := by
  intro o recorded
  cases takes : M.takes o entry with
  | false => rfl
  | true =>
    have key := s.exact o recorded entry takes
    have here : o.dst = d.dst := by
      rw [← key_of_find found]
      exact (congrArg RouteKey.dst key).symm
    have other : o.key ≠ d.key := by
      intro same
      apply missing
      rw [← (nextHop_eq_of_key_eq (key.trans same)).2]
      exact nextHop_mem_nextHops entry
    have unwanted : o.key ∉ desired.map ManagedRoute.key := by
      intro wanted
      obtain ⟨d', member', same⟩ := mem_map.mp wanted
      have dst := (ManagedRoute.dst_eq_of_key_eq same).trans here
      rw [s.oneDesired.eq_of_dst member' member dst] at same
      exact other same.symm
    have kept : o ∈ keptOf k owned desired held := mem_kept_of_unwanted recorded unwanted
    rw [spared o (mem_oldsAt.mpr ⟨kept, here, unwanted⟩)] at takes
    cases takes

theorem find_afterApply (dst : DstKey) :
    (afterApply M k owned desired held desiredRules actualRules platform).routes.find dst =
      ((k.routes.find dst).filter fun entry =>
        (oldsAt desired (keptOf k owned desired held) dst).all fun a =>
          !M.takes a entry).or
      ((newsAt desired (keptOf k owned desired held) dst).head?.map installed) := by
  rw [afterApply, planFrom, find_after_plan s.oneKept, SlotOp.run_clear_fill]

theorem row_afterApply {entry : Route}
    (row : entry ∈ (afterApply M k owned desired held desiredRules actualRules
      platform).routes.rows) :
    entry ∈ k.routes.rows ∨ ∃ d ∈ desired, entry = installed d := by
  have found := find_of_mem row
  rw [s.find_afterApply] at found
  rcases Option.or_eq_some_iff.mp found with stays | ⟨_, added⟩
  · exact .inl (mem_of_find (Option.filter_eq_some_iff.mp stays).1)
  · obtain ⟨d, first, rfl⟩ := Option.map_eq_some_iff.mp added
    have new := mem_of_head? first
    exact .inr ⟨d, (mem_newsAt.mp new).1, rfl⟩

theorem spelled_before {r : ManagedRoute}
    (member : r ∈ owned ++ desired) :
    ∀ e ∈ k.routes.rows, maskedDstKey r.route = maskedDstKey e → dstKey e = dstKey r.route := by
  intro e row same
  apply s.spelling e (mem_append_left _ row) r.route
    (mem_append_right _ (mem_map_of_mem member))
  exact same.symm

theorem spelled_after (member : d ∈ desired) :
    ∀ e ∈ (afterApply M k owned desired held desiredRules actualRules platform).routes.rows,
      maskedDstKey d.route = maskedDstKey e → dstKey e = dstKey d.route := by
  have listed := mem_append_right owned member
  intro e row same
  rcases s.row_afterApply row with before | ⟨other, wanted, rfl⟩
  · exact s.spelled_before listed e before same
  · have others := mem_append_right owned wanted
    have spelled := s.spelling other.route
      (mem_append_right _ (mem_map_of_mem others)) d.route
      (mem_append_right _ (mem_map_of_mem listed))
    exact spelled same.symm

theorem held_of_kept {o : ManagedRoute}
    (kept : o ∈ keptOf k owned desired held)
    (wanted : o.key ∈ desired.map ManagedRoute.key)
    (empty : k.routes.find o.dst = none) : held o.key ∧ ¬ isTunnelRoute o := by
  rw [keptOf, verifyRoutes_kept] at kept
  obtain ⟨recorded, keeps⟩ := mem_filter.mp kept
  have spelled := s.spelled_before (mem_append_left desired recorded)
  rcases (keepsRoute_wanted wanted).mp keeps with has | outranked | kept
  · obtain ⟨entry, found, _⟩ := (has_iff_find spelled).mp has
    cases empty.symm.trans found
  · obtain ⟨entry, listed, _, _, same, _⟩ := outranked_iff.mp outranked
    have row := (mem_filter.mp listed).1
    have found := find_of_mem row
    rw [spelled entry row same] at found
    cases empty.symm.trans found
  · exact kept

theorem outcome (member : d ∈ desired) :
    (∃ entry, (afterApply M k owned desired held desiredRules actualRules
        platform).routes.find d.dst = some entry ∧ entry.cloned = false ∧
        d.route.nextHop ∈ entry.nextHops) ∨
      (∃ entry, (afterApply M k owned desired held desiredRules actualRules
        platform).routes.find d.dst = some entry ∧
        k.routes.find d.dst = some entry ∧ Unrecorded M owned entry) ∨
      held d.key ∧ ¬ isTunnelRoute d := by
  rw [s.find_afterApply]
  -- an entry that stays is the desired route's, or nobody recorded it
  have stays : ∀ entry, k.routes.find d.dst = some entry →
      (∀ a ∈ oldsAt desired (keptOf k owned desired held) d.dst, M.takes a entry = false) →
      entry.cloned = false ∧ d.route.nextHop ∈ entry.nextHops ∨ Unrecorded M owned entry := by
    intro entry found spared
    by_cases hop : d.route.nextHop ∈ entry.nextHops
    · exact .inl ⟨s.real entry (mem_of_find found), hop⟩
    · exact .inr (s.unrecorded_of_not_has member found hop spared)
  by_cases present : d.key ∈ (keptOf k owned desired held).map ManagedRoute.key
  · obtain ⟨o, kept, same⟩ := mem_map.mp present
    have here := ManagedRoute.dst_eq_of_key_eq same
    have wanted : o.key ∈ desired.map ManagedRoute.key := same ▸ mem_map_of_mem member
    have olds : oldsAt desired (keptOf k owned desired held) d.dst = [] :=
      here ▸ oldsAt_eq_nil_of_kept s.oneKept kept wanted
    rw [newsAt_eq_nil_of_present s.oneDesired member present, olds]
    cases found : k.routes.find d.dst with
    | none =>
      obtain ⟨isHeld, untagged⟩ := s.held_of_kept kept wanted (here ▸ found)
      rw [same] at isHeld
      have recorded := (kept_sublist owned).subset kept
      refine .inr (.inr ⟨isHeld, fun tunnel => untagged ?_⟩)
      exact s.tunnels o recorded d member same isHeld tunnel
    | some entry =>
      rcases stays entry found (by simp [olds]) with ⟨real, hop⟩ | foreign
      · exact .inl ⟨entry, rfl, real, hop⟩
      · exact .inr (.inl ⟨entry, rfl, rfl, foreign⟩)
  · rw [newsAt_eq_singleton s.oneDesired member present]
    cases left : (k.routes.find d.dst).filter fun entry =>
        (oldsAt desired (keptOf k owned desired held) d.dst).all fun a =>
          !M.takes a entry with
    | none =>
      refine .inl ⟨installed d, rfl, rfl, ?_⟩
      exact nextHop_mem_nextHops (installed d)
    | some entry =>
      obtain ⟨found, spared⟩ := Option.filter_eq_some_iff.mp left
      have spares : ∀ a ∈ oldsAt desired (keptOf k owned desired held) d.dst,
          M.takes a entry = false := by
        intro a old
        simpa using all_eq_true.mp spared a old
      rcases stays entry found spares with ⟨real, hop⟩ | foreign
      · exact .inl ⟨entry, rfl, real, hop⟩
      · exact .inr (.inl ⟨entry, rfl, found, foreign⟩)

theorem kept_again (member : d ∈ desired) :
    keepsRoute desired (readFrom (afterApply M k owned desired held
      desiredRules actualRules platform)) held (fun _ => true) d = true := by
  apply (keepsRoute_wanted (mem_map_of_mem member)).mpr
  rcases s.outcome member with there | ⟨entry, found, before, foreign⟩ | kept
  · exact .inl ((has_iff_find (s.spelled_after member)).mpr there)
  · obtain ⟨unscoped, ranks⟩ := s.ranked d member entry before foreign
    have real := s.real entry (mem_of_find before)
    exact .inr (.inl (outranked_of_find found real unscoped ranks))
  · exact .inr (.inr kept)

end

end Settles

/-- **Applying converges**: after a full apply every desired route is in the
kernel, or another program's route holds its destination as before, or it is
a held route of no tunnel; and verifying and planning again from there, with
the desired set recorded, plans nothing. -/
theorem apply_converges (s : Settles M k owned desired held) : (∀ d ∈ desired,
      (indexInstalled ((afterApply M k owned desired held desiredRules
          actualRules platform).listRoutes d.route.family)).has d.route ∨
        (∃ entry, k.routes.find d.dst = some entry ∧ Unrecorded M owned entry ∧
          (afterApply M k owned desired held desiredRules actualRules
            platform).routes.find d.dst = some entry) ∨
        held d.key ∧ ¬ isTunnelRoute d) ∧
      (planFrom (afterApply M k owned desired held desiredRules actualRules
        platform) desired desired held desiredRules desiredRules
        platform).ops = [] := by
  constructor
  · intro d member
    rcases s.outcome member with there | ⟨entry, found, before, foreign⟩ | kept
    · exact .inl ((has_iff_find (s.spelled_after member)).mpr there)
    · exact .inr (.inl ⟨entry, before, foreign, found⟩)
    · exact .inr (.inr kept)
  · apply reconcile_ops_nil
    · intro d member
      rw [keptOf, verifyRoutes_kept]
      exact mem_map_of_mem (mem_filter.mpr ⟨member, s.kept_again member⟩)
    · intro a kept
      exact mem_map_of_mem ((kept_sublist desired).subset kept)

end Apply

-- A next hop that changes, beside a destination another program routes.
namespace TakenDestination

def wanted : ManagedRoute :=
  { route :=
      { dstCIDR := "203.0.113.0/24", gateway := "192.168.1.1", iface := "eth0" }
    profileID := "work" }

def theirs (metric : Int) : Route :=
  { dstCIDR := "203.0.113.0/24", gateway := "192.168.1.9", iface := "eth0"
    owner := .system, proto := "dhcp", metric := metric }

def kernel : Kernel where
  routes := ⟨[theirs 0, installed NextHopChange.old], by decide⟩
  rules := .empty

theorem settles : Settles .exact kernel [NextHopChange.old] [NextHopChange.new, wanted]
      fun _ => false where
  oneOwned := by decide
  oneDesired := by decide
  exact := by
    intro o recorded entry takes
    obtain rfl := mem_singleton.mp recorded
    simpa [Matching.exact, NextHopChange.old] using And.right
      (of_decide_eq_true takes |>.resolve_left (by decide))
  spelling := by decide +kernel
  real := by decide
  ranked := by
    intro d member entry found _
    have row := mem_of_find found
    revert d entry
    decide
  tunnels := by decide

end TakenDestination

/-- The changed next hop is installed, the other program keeps its route, and
nothing is left to plan. -/
theorem takenDestination_converges :
    let after := afterApply .exact TakenDestination.kernel [NextHopChange.old]
      [NextHopChange.new, TakenDestination.wanted] (fun _ => false) [] []
      "linux"
    after.routes.find TakenDestination.wanted.dst = some (TakenDestination.theirs 0) ∧
      (planFrom after [NextHopChange.new, TakenDestination.wanted]
        [NextHopChange.new, TakenDestination.wanted] (fun _ => false) [] []
        "linux").ops = [] :=
  ⟨by decide +kernel, (apply_converges TakenDestination.settles).2⟩

-- A tunnel's pin where a profile's route was recorded.
namespace PinnedServer

def recorded : ManagedRoute :=
  { route :=
      { dstCIDR := "203.0.113.7/32", gateway := "192.168.1.1", iface := "eth0" }
    profileID := "office" }

def pin : ManagedRoute := { recorded with profileID := "tunnel:home" }

end PinnedServer

/-- A foreign route with a higher metric leaves room on the kernels that rank
by metrics, so that a desired route it keeps out is planned again and again;
and a tunnel's pin that is recorded as a profile's route is held like one, then
planned as the tunnel's. -/
theorem plans_not_empty : (let kernel : Kernel :=
        { routes := ⟨[TakenDestination.theirs 100], by decide⟩, rules := .empty }
      let after := afterApply .exact kernel [] [TakenDestination.wanted]
        (fun _ => false) [] [] "linux"
      (planFrom after [TakenDestination.wanted] [TakenDestination.wanted]
        (fun _ => false) [] [] "linux").ops.map PlanOp.kind = [.addRoute]) ∧
    (let kernel : Kernel := { routes := .empty, rules := .empty }
      let after := afterApply .exact kernel [PinnedServer.recorded]
        [PinnedServer.pin] (fun _ => true) [] [] "linux"
      after.routes.find PinnedServer.pin.dst = none ∧ isTunnelRoute PinnedServer.pin = true ∧
        (planFrom after [PinnedServer.pin] [PinnedServer.pin] (fun _ => true)
          [] [] "linux").ops.map PlanOp.kind = [.addRoute]) := by
  decide +kernel

/-! ### The repair -/

/-- The repair so far: the kernel, the provider calls made, and those of them
that went through. -/
structure Repair where
  kernel : Kernel
  calls : Nat := 0
  added : Nat := 0
  removed : Nat := 0

namespace Repair

def addOwned (M : Matching) (faults : Faults) (s : Repair) (o : ManagedRoute) : Repair :=
  match call M (faults s.calls) s.kernel (.addRoute o) with
  | .ok kernel =>
    { s with kernel := kernel, calls := s.calls + 1, added := s.added + 1 }
  | .error _ => { s with calls := s.calls + 1 }

def delUnowned (M : Matching) (faults : Faults) (s : Repair) (a : ManagedRoute) : Repair :=
  match call M (faults s.calls) s.kernel (.delRoute a) with
  | .ok kernel =>
    { s with
      kernel := kernel, calls := s.calls + 1, removed := s.removed + 1 }
  | .error _ => { s with calls := s.calls + 1 }

end Repair

def missing (owned : List ManagedRoute) (k : Kernel) : List ManagedRoute :=
  owned.filter fun o => o.key ∉ (providerManaged k).map ManagedRoute.key

/-- The routes tagged RiftRoute's that are not recorded. -/
def leftovers (owned : List ManagedRoute) (k : Kernel) : List ManagedRoute :=
  (providerManaged k).filter fun a => a.key ∉ owned.map ManagedRoute.key

/-- Make the kernel's managed routes match the records: how many routes were
added and removed, and the kernel left.  `store` is absent, fails to list its
records, or lists them. -/
def reconcileOwnership (M : Matching) (faults : Faults)
    (store : Option (Except String (List ManagedRoute))) (k : Kernel) :
    Except String (Nat × Nat) × Kernel :=
  match store with
  | none => (.ok (0, 0), k)
  | some (.error err) => (.error err, k)
  | some (.ok owned) =>
    let s := (missing owned k).foldl (Repair.addOwned M faults) { kernel := k }
    let s := (leftovers owned k).foldl (Repair.delUnowned M faults) s
    (.ok (s.added, s.removed), s.kernel)

/-- Every recorded route is in the kernel unless a foreign route holds its
destination, and every managed route there is recorded. -/
structure Converged (owned : List ManagedRoute) (k : Kernel) : Prop where
  kept : ∀ o ∈ owned, ∃ entry, k.routes.find o.dst = some entry ∧
    (routeKey entry = o.key ∨ entry.owner ≠ .riftRoute)
  only : ∀ entry ∈ k.routes.rows, entry.owner = .riftRoute →
    routeKey entry ∈ owned.map ManagedRoute.key

/-! ### What the repair leaves at a destination -/

section Repaired

variable {M : Matching} {owned : List ManagedRoute} {k : Kernel}

theorem mem_providerManaged {a : ManagedRoute} : a ∈ providerManaged k ↔ ∃ entry ∈ k.routes.rows,
      entry.owner = .riftRoute ∧ a = { route := entry, profileID := entry.profile } := by
  simp only [providerManaged, mem_map, mem_filter, decide_eq_true_eq]
  constructor
  · rintro ⟨entry, ⟨member, ours⟩, rfl⟩
    refine ⟨entry, ?_, ours, rfl⟩
    rcases mem_append.mp member with v4 | v6
    · exact (mem_filter.mp v4).1
    · exact (mem_filter.mp v6).1
  · rintro ⟨entry, member, ours, rfl⟩
    exact ⟨entry, ⟨mem_listRoutes member, ours⟩, rfl⟩

theorem mem_leftovers {a : ManagedRoute} : a ∈ leftovers owned k ↔ ∃ entry ∈ k.routes.rows,
      entry.owner = .riftRoute ∧ routeKey entry ∉ owned.map ManagedRoute.key ∧
        a = { route := entry, profileID := entry.profile } := by
  rw [leftovers, mem_filter, mem_providerManaged, decide_eq_true_eq]
  constructor
  · rintro ⟨⟨entry, member, ours, rfl⟩, unowned⟩
    exact ⟨entry, member, ours, unowned, rfl⟩
  · rintro ⟨entry, member, ours, unowned, rfl⟩
    exact ⟨⟨entry, member, ours, rfl⟩, unowned⟩

theorem reconcileOwnership_run : (reconcileOwnership M noFaults (some (.ok owned)) k).2 =
      k.run M ((missing owned k).map .addRoute ++ (leftovers owned k).map .delRoute) := by
  have adds : ∀ (rs : List ManagedRoute) (s : Repair),
      (rs.foldl (Repair.addOwned M noFaults) s).kernel = s.kernel.run M (rs.map .addRoute) := by
    intro rs
    induction rs with
    | nil => exact fun s => rfl
    | cons r rs ih =>
      exact fun s => ih (s.addOwned M noFaults r)
  have dels : ∀ (rs : List ManagedRoute) (s : Repair),
      (rs.foldl (Repair.delUnowned M noFaults) s).kernel = s.kernel.run M (rs.map .delRoute) := by
    intro rs
    induction rs with
    | nil => exact fun s => rfl
    | cons r rs ih =>
      exact fun s => ih (s.delUnowned M noFaults r)
  rw [Kernel.run_append, ← adds _ { kernel := k }, ← dels]
  rfl

theorem find_repaired (dst : DstKey) :
    (reconcileOwnership M noFaults (some (.ok owned)) k).2.routes.find dst = ((k.routes.find dst).or
        (((missing owned k).filter fun o => o.dst = dst).head?.map installed)).filter fun entry =>
          ((leftovers owned k).filter fun a => a.dst = dst).all fun a => !M.takes a entry := by
  have adds : effectsAt dst ((missing owned k).map .addRoute) =
      ((missing owned k).filter fun o => o.dst = dst).map .addRoute := by
    simp [effectsAt, filter_map, Function.comp_def, Effect.dst, Effect.route]
  rw [reconcileOwnership_run, Kernel.find_run, effectsAt_append, adds,
    effectsAt_map_delRoute, filterMap_append, filterMap_slotOp_add,
    filterMap_slotOp_del, SlotOp.run_append, SlotOp.run_fill, SlotOp.run_clear]

theorem leftover_eq {dst : DstKey} {entry : Route} {a : ManagedRoute}
    (held : k.routes.find dst = some entry) (leftover : a ∈ leftovers owned k)
    (here : a.dst = dst) :
    a.route = entry ∧ entry.owner = .riftRoute ∧ routeKey entry ∉ owned.map ManagedRoute.key := by
  obtain ⟨other, member, ours, unowned, rfl⟩ := mem_leftovers.mp leftover
  obtain rfl : other = entry := key_injOn member (mem_of_find held)
    (here.trans (key_of_find held).symm)
  exact ⟨rfl, ours, unowned⟩

theorem find_repaired_of_taken {dst : DstKey} {entry : Route}
    (held : k.routes.find dst = some entry) :
    (reconcileOwnership M noFaults (some (.ok owned)) k).2.routes.find dst =
      if entry.owner = .riftRoute ∧ routeKey entry ∉ owned.map ManagedRoute.key
      then none else some entry := by
  rw [find_repaired, held, Option.some_or, Option.filter_some]
  split
  case isTrue spared =>
    rw [if_neg]
    rintro ⟨ours, unowned⟩
    have leftover : { route := entry, profileID := entry.profile } ∈ leftovers owned k :=
      mem_leftovers.mpr ⟨entry, mem_of_find held, ours, unowned, rfl⟩
    have taken : M.takes { route := entry, profileID := entry.profile } entry =
        true := M.takes_same _ entry (fun _ => ours) rfl
    have here : dstKey entry = dst := key_of_find held
    have kept := all_eq_true.mp spared _ (mem_filter.mpr ⟨leftover, decide_eq_true here⟩)
    rw [taken] at kept
    cases kept
  case isFalse taken =>
    rw [if_pos]
    by_contra spared
    refine taken (all_eq_true.mpr fun a listed => ?_)
    obtain ⟨leftover, here⟩ := mem_filter.mp listed
    exact absurd (leftover_eq held leftover (of_decide_eq_true here)).2 spared

theorem find_repaired_of_free {dst : DstKey} (free : k.routes.find dst = none) :
    (reconcileOwnership M noFaults (some (.ok owned)) k).2.routes.find dst =
      ((owned.filter fun o => o.dst = dst).map installed).head? := by
  have unlisted : ∀ a ∈ providerManaged k, a.dst ≠ dst := by
    intro a managed
    obtain ⟨entry, member, _, rfl⟩ := mem_providerManaged.mp managed
    exact find_eq_none_iff.mp free entry member
  have all : ((missing owned k).filter fun o => o.dst = dst) =
      owned.filter fun o => o.dst = dst := by
    rw [missing, filter_filter]
    refine filter_congr fun o _ => ?_
    by_cases here : o.dst = dst
    · have fresh : o.key ∉ (providerManaged k).map ManagedRoute.key := by
        intro listed
        obtain ⟨a, managed, same⟩ := mem_map.mp listed
        exact unlisted a managed ((ManagedRoute.dst_eq_of_key_eq same).trans here)
      simp [here, fresh]
    · simp [here]
  have none : ((leftovers owned k).filter fun a => a.dst = dst) = [] := by
    refine filter_eq_nil_iff.mpr fun a leftover here => ?_
    exact unlisted a (mem_of_mem_filter leftover) (of_decide_eq_true here)
  rw [find_repaired, free, all, none, Option.none_or, ← head?_map]
  cases ((owned.filter fun o => o.dst = dst).map installed).head? <;> rfl

/-- **The repair converges exactly when no leftover stands at a recorded
destination.**  At such a destination the add is a silent success, and the
delete that follows leaves it empty. -/
theorem reconcileOwnership_converges_iff (one : OnePerDst owned) :
    Converged owned (reconcileOwnership M noFaults (some (.ok owned)) k).2 ↔
      ∀ entry ∈ k.routes.rows, entry.owner = .riftRoute →
        routeKey entry ∉ owned.map ManagedRoute.key →
          dstKey entry ∉ owned.map ManagedRoute.dst := by
  constructor
  · intro converged entry member ours unowned recorded
    obtain ⟨o, listed, here⟩ := mem_map.mp recorded
    obtain ⟨left, found, _⟩ := converged.kept o listed
    rw [here, find_repaired_of_taken (find_of_mem member),
      if_pos ⟨ours, unowned⟩] at found
    cases found
  · intro apart
    constructor
    · intro o listed
      cases held : k.routes.find o.dst with
      | none =>
        refine ⟨installed o, ?_, .inl rfl⟩
        have alone : (owned.filter fun r => r.dst = o.dst) = [o] :=
          one.filter_dst _ (mem_filter.mpr ⟨listed, decide_eq_true rfl⟩)
            fun _ member => of_decide_eq_true (mem_filter.mp member).2
        rw [find_repaired_of_free held, alone]
        rfl
      | some entry =>
        have here : dstKey entry = o.dst := key_of_find held
        have stays : ¬ (entry.owner = .riftRoute ∧
            routeKey entry ∉ owned.map ManagedRoute.key) := by
          rintro ⟨ours, unowned⟩
          exact apart entry (mem_of_find held) ours unowned
            (here ▸ mem_map_of_mem listed)
        refine ⟨entry, by rw [find_repaired_of_taken held, if_neg stays], ?_⟩
        by_cases ours : entry.owner = .riftRoute
        · obtain ⟨r, recorded, same⟩ := mem_map.mp
            (not_not.mp fun unowned => stays ⟨ours, unowned⟩)
          have dst : r.dst = o.dst := (congrArg RouteKey.dst same).trans here
          obtain rfl := one.eq_of_dst recorded listed dst
          exact .inl same.symm
        · exact .inr ours
    · intro entry member ours
      have found := find_of_mem member
      cases held : k.routes.find (dstKey entry) with
      | none =>
        rw [find_repaired_of_free held] at found
        obtain ⟨o, listed, rfl⟩ := mem_map.mp
          (mem_of_mem_head? (Option.mem_def.mpr found))
        exact mem_map_of_mem (mem_of_mem_filter listed)
      | some before =>
        rw [find_repaired_of_taken held] at found
        split at found
        case isTrue => cases found
        rename_i stays
        obtain rfl := Option.some.inj found
        exact not_not.mp fun unowned => stays ⟨ours, unowned⟩

end Repaired

def officeVia (gateway : String) : ManagedRoute :=
  { route :=
      { dstCIDR := "10.0.0.0/8", gateway := gateway, iface := "eth0"
        family := .v4, owner := .riftRoute, proto := "riftroute"
        profile := "office" }
    profileID := "office" }

def oneRoute (r : ManagedRoute) : Kernel :=
  { routes := KeyedTable.empty.put (installed r), rules := .empty }

def labRoute : ManagedRoute :=
  { officeVia "10.0.0.1" with route := { (officeVia "10.0.0.1").route with
      dstCIDR := "172.16.0.0/12" } }

/-- A kernel with one recorded route, a leftover and the machine's own default. -/
def lostRoute : Kernel :=
  { routes := (KeyedTable.empty.put (installed labRoute)).put (installed
        { labRoute with route := { labRoute.route with dstCIDR := "192.168.0.0/16" } }) |>.put
      { labRoute.route with dstCIDR := "0.0.0.0/0", owner := .system, proto := "static" }
    rules := .empty }

/-- A kernel that lost a recorded route is repaired. -/
theorem lostRoute_repaired : lostRoute.routes.rows.length = 3 ∧
    Converged [officeVia "10.0.0.1", labRoute] (reconcileOwnership .byTag noFaults
        (some (.ok [officeVia "10.0.0.1", labRoute])) lostRoute).2 ∧
    (reconcileOwnership .byTag noFaults
        (some (.ok [officeVia "10.0.0.1", labRoute])) lostRoute).1 = .ok (1, 1) := by
  refine ⟨by decide, (reconcileOwnership_converges_iff (by decide)).mpr ?_, by decide +kernel⟩
  decide +kernel

/-- A recorded route whose destination a leftover holds is lost: its add does
nothing, and the leftover is deleted after it. -/
theorem leftover_loses_record : OnePerDst [officeVia "10.0.0.1"] ∧
    (reconcileOwnership .byTag noFaults (some (.ok [officeVia "10.0.0.1"]))
      (oneRoute (officeVia "10.0.0.2"))).1 = .ok (1, 1) ∧
    (reconcileOwnership .byTag noFaults (some (.ok [officeVia "10.0.0.1"]))
      (oneRoute (officeVia "10.0.0.2"))).2.routes.rows = [] ∧
    ¬ Converged [officeVia "10.0.0.1"]
      (reconcileOwnership .byTag noFaults (some (.ok [officeVia "10.0.0.1"]))
        (oneRoute (officeVia "10.0.0.2"))).2 := by
  have empty : (reconcileOwnership .byTag noFaults (some (.ok [officeVia "10.0.0.1"]))
      (oneRoute (officeVia "10.0.0.2"))).2.routes.rows = [] := by
    decide +kernel
  refine ⟨by decide, rfl, empty, fun converged => ?_⟩
  obtain ⟨entry, found, _⟩ := converged.kept _ (mem_singleton_self _)
  have member := mem_of_find found
  cases member

end RiftRoute
