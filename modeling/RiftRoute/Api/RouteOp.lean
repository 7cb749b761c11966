/-
Module: RiftRoute.Api.RouteOp
Purpose: A user's edit of a route RiftRoute does not manage, and which accepted
  edits leave every managed route in place, however they end.
Trusted boundary: human-reviewed spec
Main exports: handleRouteOp, Ends
-/
import RiftRoute.Safety.Executor
import RiftRoute.Safety.Guardrails

namespace RiftRoute

open List

open Netip (Prefix parsePrefix parseAddr)
open Texts (trimSpace)

/-! ### The handler -/

structure RouteOpReq where
  action : String
  route : Route
  newRoute : Option Route := none
deriving DecidableEq, Repr

/-- The routes address the same kernel entry. -/
def sameDest (a b : Route) : Bool :=
  match parsePrefix a.dstCIDR, parsePrefix b.dstCIDR with
  | some pa, some pb => pa.masked = pb.masked && a.table = b.table
  | _, _ => a.dstCIDR = b.dstCIDR && a.table = b.table

/-- A refusal: the status and the text. -/
abbrev HttpError := Nat × String

def badRequest : Nat := 400

def conflict : Nat := 409

/-- The destination in its masked form. -/
def canonicalDst (label : String) (r : Route) : Except HttpError Route :=
  match parsePrefix r.dstCIDR with
  | none => .error (badRequest, "invalid " ++ label ++ " " ++ quote r.dstCIDR)
  | some p => .ok { r with dstCIDR := p.masked.text }

/-- The checks of the route that goes. -/
def vetOld (listed : Option (List ManagedRoute)) (r : Route) : Except HttpError Route := do
  let r ← canonicalDst "destination" r
  if r.proto = "riftroute" ∨ r.owner = .riftRoute then
    .error (conflict, "this route is managed by RiftRoute — edit the owning profile instead")
  else
    -- a store that cannot be read refuses nothing
    match (listed.getD []).find? fun mr => sameDest mr.route r with
    | some mr => .error (conflict, "this route is managed by profile " ++
        quote mr.profileID ++ " — edit that profile instead")
    | none => .ok r

/-- The checks of the route that comes, which keeps the protocol, the table and
the family of the one it replaces. -/
def vetNew (old : Route) (new : Option Route) : Except HttpError Route :=
  match new with
  | none => .error (badRequest, "replace needs new_route")
  | some new => do
      let new ← canonicalDst "new destination" new
      if new.gateway ≠ "" ∧ (parseAddr new.gateway).isNone then
        .error (badRequest, "invalid gateway " ++ quote new.gateway ++
          " (use an IP address, or leave empty for on-link)")
      else if trimSpace new.iface = "" then
        .error (badRequest, "new route needs an interface")
      else
        .ok { new with proto := old.proto, table := old.table, family := old.family }

/-- The plan of a request, before it is applied. -/
def handleRouteOp (listed : Option (List ManagedRoute)) (platform : String)
    (req : RouteOpReq) : Except HttpError Plan :=
  if req.action ≠ "delete" ∧ req.action ≠ "replace" then
    .error (badRequest, "unknown action " ++ quote req.action ++ " (want delete or replace)")
  else do
    let old ← vetOld listed req.route
    if req.action = "delete" then .ok (deleteRoutePlan old platform)
    else
      let new ← vetNew old req.newRoute
      .ok (replaceRoutePlan old new platform)

/-! ### The guardrail of `ApplyPlan` -/

def defaultFamily (r : Route) : Option Family :=
  if r.table ≠ "" then none
  else
    (parsePrefix r.dstCIDR).bind fun p =>
      if p.bits ≠ 0 then none else some (if p.addr.is6 then .v6 else .v4)

def removedDefaults (ops : List PlanOp) : List Family :=
  ops.foldl (fun removed op =>
    match op.route.bind fun mr => defaultFamily mr.route with
    | none => removed
    | some fam =>
      match op.kind with
      | .delRoute => if fam ∈ removed then removed else removed ++ [fam]
      | .addRoute => removed.filter (· ≠ fam)
      | _ => removed) []

def checkPlanGuardrails (plan : Plan) : List Violation :=
  (removedDefaults plan.ops).map fun fam =>
    { rule := "keep-default-route"
      detail := "refusing to remove the " ++ fam.text ++ " default route (" ++
        (if fam = .v6 then "::/0" else "0.0.0.0/0") ++
        ") without a replacement — edit it instead" }

/-! ### The kernel

One route per table and destination.  An add to a taken destination succeeds
and does nothing; an unmanaged delete removes what holds the destination. -/

/-- A destination, however it is spelled. -/
inductive FibDst where
  | net (p : Prefix)
  | other (text : String)
deriving DecidableEq

def fibDst (text : String) : FibDst :=
  match parsePrefix text with
  | some p => .net p.masked
  | none => .other text

structure FibKey where
  table : String
  dst : FibDst
deriving DecidableEq

def fibKey (r : Route) : FibKey := ⟨r.table, fibDst r.dstCIDR⟩

abbrev Fib := KeyedTable fibKey

namespace Fib

def apply (fib : Fib) : Effect → Fib
  | .addRoute mr => fib.insertNew (installed mr)
  | .delRoute mr => fib.erase (fibKey mr.route)
  | .addRule _ => fib
  | .delRule _ => fib

def run (fib : Fib) (es : List Effect) : Fib := es.foldl apply fib

def Present (fib : Fib) (mr : ManagedRoute) : Prop :=
  ∃ entry ∈ fib.find (fibKey mr.route), routeKey entry = mr.key

instance (fib : Fib) (mr : ManagedRoute) : Decidable (fib.Present mr) :=
  inferInstanceAs (Decidable (∃ entry ∈ fib.find (fibKey mr.route), _))

theorem find_apply {fib : Fib} {e : Effect} {key : FibKey}
    (apart : ∀ mr ∈ e.route, fibKey mr.route ≠ key) :
    (fib.apply e).find key = fib.find key := by
  cases e with
  | addRoute mr =>
    have differs : fibKey (installed mr) ≠ key := apart mr rfl
    rw [apply, KeyedTable.find_insertNew, if_neg differs]
  | delRoute mr =>
    rw [apply, KeyedTable.find_erase, if_neg (apart mr rfl)]
  | addRule | delRule => rfl

theorem find_run {fib : Fib} {es : List Effect} {key : FibKey}
    (apart : ∀ e ∈ es, ∀ mr ∈ e.route, fibKey mr.route ≠ key) :
    (fib.run es).find key = fib.find key := by
  induction es generalizing fib with
  | nil => rfl
  | cons e es ih =>
    obtain ⟨here, later⟩ := forall_mem_cons.mp apart
    exact (ih later).trans (find_apply here)

end Fib

/-- The edit was applied in whole or, when it failed or the daemon died, in
part, and then any calls of its inverse were made: none when it is confirmed,
all when it is rolled back, some or several times when calls fail and are
retried.  A plan the guardrail refuses is not run. -/
def Ends (plan : Plan) (fib after : Fib) : Prop :=
  checkPlanGuardrails plan = [] ∧ ∃ n calls, (∀ e ∈ calls, e ∈ effects plan.inverse) ∧
      after = fib.run (effects (plan.ops.take n) ++ calls)

/-! ### What the handler accepts -/

theorem sameDest_iff {a b : Route} : sameDest a b ↔ fibKey a = fibKey b := by
  unfold sameDest fibKey fibDst
  cases first : parsePrefix a.dstCIDR with
  | none =>
    cases second : parsePrefix b.dstCIDR with
    | none => simp [and_comm]
    | some q =>
      have differs : a.dstCIDR ≠ b.dstCIDR := by
        intro same
        rw [same, second] at first
        cases first
      simp [differs]
  | some p =>
    cases second : parsePrefix b.dstCIDR with
    | none =>
      have differs : a.dstCIDR ≠ b.dstCIDR := by
        intro same
        rw [same, second] at first
        cases first
      simp [differs]
    | some q => simp [and_comm]

theorem fibDst_of_canonicalDst {label : String} {r canonical : Route}
    (read : canonicalDst label r = .ok canonical) :
    fibDst canonical.dstCIDR = fibDst r.dstCIDR ∧ canonical.table = r.table := by
  unfold canonicalDst at read
  split at read
  case h_1 => cases read
  rename_i p parsed
  cases read
  have again : p.masked.masked = p.masked := Prefix.isMasked_masked p
  simp only [fibDst, Netip.parsePrefix_text, parsed, again, and_self]

theorem not_owned_of_vetOld {owned : List ManagedRoute} {r old : Route}
    (vetted : vetOld (some owned) r = .ok old) :
    old.table = r.table ∧ ∀ mr ∈ owned, fibKey mr.route ≠ fibKey old := by
  obtain ⟨canonical, read, checked⟩ := exists_of_bind_ok vetted
  split at checked
  case isTrue => cases checked
  split at checked
  case h_1 => cases checked
  rename_i absent
  cases checked
  refine ⟨(fibDst_of_canonicalDst read).2, ?_⟩
  intro mr member same
  have none := find?_eq_none.mp absent mr member
  exact none (sameDest_iff.mpr same)

/-- Where a request puts a route. -/
def RouteOpReq.newKey (req : RouteOpReq) : Option FibKey :=
  if req.action = "replace" then
    req.newRoute.map fun new => ⟨req.route.table, fibDst new.dstCIDR⟩
  else none

theorem newKey_of_vetNew {req : RouteOpReq} {old new : Route}
    (replaces : req.action = "replace") (table : old.table = req.route.table)
    (vetted : vetNew old req.newRoute = .ok new) :
    req.newKey = some (fibKey new) := by
  unfold vetNew at vetted
  split at vetted
  case h_1 => cases vetted
  rename_i given is
  obtain ⟨canonical, read, checked⟩ := exists_of_bind_ok vetted
  split at checked
  case isTrue => cases checked
  split at checked
  case isTrue => cases checked
  cases checked
  rw [RouteOpReq.newKey, if_pos replaces, is, Option.map_some, fibKey,
    (fibDst_of_canonicalDst read).1, ← table]

theorem accepted_cases {owned : List ManagedRoute} {platform : String}
    {req : RouteOpReq} {plan : Plan}
    (accepted : handleRouteOp (some owned) platform req = .ok plan) :
    ∃ old, (∀ mr ∈ owned, fibKey mr.route ≠ fibKey old) ∧
      (req.newKey = none ∧ plan = deleteRoutePlan old platform ∨
        ∃ new, req.newKey = some (fibKey new) ∧ plan = replaceRoutePlan old new platform) := by
  unfold handleRouteOp at accepted
  split at accepted
  case isTrue => cases accepted
  rename_i known
  obtain ⟨old, vetted, rest⟩ := exists_of_bind_ok accepted
  obtain ⟨table, apart⟩ := not_owned_of_vetOld vetted
  refine ⟨old, apart, ?_⟩
  split at rest
  case isTrue deletes =>
    cases rest
    refine .inl ⟨?_, rfl⟩
    rw [RouteOpReq.newKey, if_neg (by rw [deletes]; decide)]
  case isFalse other =>
    have replaces : req.action = "replace" := by
      by_contra neither
      exact known ⟨other, neither⟩
    obtain ⟨new, checked, built⟩ := exists_of_bind_ok rest
    cases built
    exact .inr ⟨new, newKey_of_vetNew replaces table checked, rfl⟩

/-! ### What an edit leaves -/

theorem find_of_ends {plan : Plan} {fib after : Fib} {key : FibKey}
    (apart : ∀ e ∈ effects plan.ops ++ effects plan.inverse, ∀ mr ∈ e.route, fibKey mr.route ≠ key)
    (ends : Ends plan fib after) : after.find key = fib.find key := by
  obtain ⟨-, n, calls, inverse, rfl⟩ := ends
  apply Fib.find_run
  intro e member
  apply apart e
  rcases mem_append.mp member with made | undone
  · obtain ⟨op, inside, effect⟩ := mem_filterMap.mp made
    exact mem_append_left _ (mem_filterMap.mpr ⟨op, mem_of_mem_take inside, effect⟩)
  · exact mem_append_right _ (inverse e undone)

theorem mem_effects_delete {old : Route} {platform : String} {e : Effect}
    (member : e ∈ effects (deleteRoutePlan old platform).ops ++
      effects (deleteRoutePlan old platform).inverse)
    {mr : ManagedRoute} (is : mr ∈ e.route) : mr.route = old := by
  rcases mem_pair.mp member with rfl | rfl <;> cases is <;> rfl

theorem mem_effects_replace {old new : Route} {platform : String} {e : Effect}
    (member : e ∈ effects (replaceRoutePlan old new platform).ops ++
      effects (replaceRoutePlan old new platform).inverse)
    {mr : ManagedRoute} (is : mr ∈ e.route) :
    mr.route = old ∨ mr.route = new := by
  change e ∈ [Effect.delRoute { route := old }, .addRoute { route := new },
    .delRoute { route := new }, .addRoute { route := old }] at member
  simp only [mem_cons, not_mem_nil, or_false] at member
  rcases member with rfl | rfl | rfl | rfl <;> cases is
  · exact .inl rfl
  · exact .inr rfl
  · exact .inr rfl
  · exact .inl rfl

theorem empty_of_rolledBack {old new : Route} {platform : String} {fib : Fib}
    (apart : fibKey old ≠ fibKey new) :
    (fib.run (effects (replaceRoutePlan old new platform).ops ++
      effects (replaceRoutePlan old new platform).inverse)).find (fibKey new) =
      none := by
  change (fib.run [.delRoute { route := old }, .addRoute { route := new },
    .delRoute { route := new }, .addRoute { route := old }]).find _ = none
  have deleted : ∀ before : Fib,
      (before.apply (.delRoute { route := new })).find (fibKey new) = none := by
    intro before
    rw [Fib.apply, KeyedTable.find_erase, if_pos rfl]
  have back : ∀ before : Fib, (before.apply (.addRoute { route := old })).find (fibKey new) =
        before.find (fibKey new) := by
    intro before
    apply Fib.find_apply
    rintro mr ⟨⟩
    exact apart
  simp only [Fib.run, foldl_cons, foldl_nil, back, deleted]

/-- However an accepted edit ends, every managed route is still there, exactly
when no managed route has the destination it puts a route on. -/
theorem route_op_spares_owned_iff (owned : List ManagedRoute)
    (platform : String) (req : RouteOpReq) (plan : Plan)
    (accepted : handleRouteOp (some owned) platform req = .ok plan)
    (passed : checkPlanGuardrails plan = []) (fib : Fib)
    (present : ∀ mr ∈ owned, fib.Present mr) :
    (∀ after, Ends plan fib after → ∀ mr ∈ owned, after.Present mr) ↔
      ∀ key ∈ req.newKey, ∀ mr ∈ owned, fibKey mr.route ≠ key := by
  obtain ⟨old, apart, deletes | replaces⟩ := accepted_cases accepted
  · obtain ⟨none, rfl⟩ := deletes
    refine iff_of_true ?_ (by simp [none])
    intro after ends mr member
    have same := find_of_ends (fun e inside other is => by
      rw [mem_effects_delete inside is]
      exact Ne.symm (apart mr member)) ends
    rw [Fib.Present, same]
    exact present mr member
  · obtain ⟨new, aims, rfl⟩ := replaces
    rw [aims]
    constructor
    · rintro spared _ ⟨⟩ mr member same
      have ends : Ends (replaceRoutePlan old new platform) fib _ :=
        ⟨passed, 2, effects (replaceRoutePlan old new platform).inverse,
          fun _ inside => inside, rfl⟩
      obtain ⟨entry, found, -⟩ := spared _ ends mr member
      have gone := @empty_of_rolledBack old new platform fib (same ▸ Ne.symm (apart mr member))
      rw [same, Option.mem_def] at found
      exact absurd (gone.symm.trans found) (by simp)
    · intro free after ends mr member
      have same := find_of_ends (fun e inside other is => by
        rcases mem_effects_replace inside is with here | here <;> rw [here]
        · exact Ne.symm (apart mr member)
        · exact Ne.symm (free (fibKey new) rfl mr member)) ends
      rw [Fib.Present, same]
      exact present mr member

def officeRoute : ManagedRoute :=
  { route := { dstCIDR := "10.1.0.0/16", gateway := "192.168.1.1", iface := "en0" }
    profileID := "office" }

def ownRoute : Route := { dstCIDR := "10.2.0.0/16", gateway := "192.168.1.1", iface := "en0" }

def officeFib : Fib := (KeyedTable.empty.insertNew (installed officeRoute)).insertNew ownRoute

def moveTo (dst : String) : RouteOpReq :=
  { action := "replace", route := ownRoute
    newRoute := some { dstCIDR := dst, iface := "en0" } }

def movePlan (dst : String) : Plan :=
  replaceRoutePlan ownRoute { dstCIDR := dst, iface := "en0" } "darwin"

theorem move_spares_office : handleRouteOp (some [officeRoute]) "darwin" (moveTo "10.3.0.0/16") =
        .ok (movePlan "10.3.0.0/16") ∧
      ∀ after, Ends (movePlan "10.3.0.0/16") officeFib after →
        ∀ mr ∈ [officeRoute], after.Present mr := by
  have accepted : handleRouteOp (some [officeRoute]) "darwin"
      (moveTo "10.3.0.0/16") = .ok (movePlan "10.3.0.0/16") := by
    decide
  refine ⟨accepted, (route_op_spares_owned_iff [officeRoute] "darwin" _ _
    accepted (by decide) officeFib (by decide)).mpr ?_⟩
  decide

/-- The user's route is moved onto the managed one's destination and the move
rolled back. -/
theorem move_onto_office_lost : handleRouteOp (some [officeRoute]) "darwin" (moveTo "10.1.0.0/16") =
        .ok (movePlan "10.1.0.0/16") ∧
      officeFib.Present officeRoute ∧
      ∃ after, Ends (movePlan "10.1.0.0/16") officeFib after ∧ ¬ after.Present officeRoute := by
  refine ⟨by decide, by decide, _, ⟨by decide, 2, effects (movePlan "10.1.0.0/16").inverse,
      fun _ member => member, rfl⟩, ?_⟩
  rintro ⟨entry, found, -⟩
  have gone := @empty_of_rolledBack ownRoute
    { dstCIDR := "10.1.0.0/16", iface := "en0" } "darwin" officeFib
    (by decide)
  exact absurd (gone.symm.trans found) (by simp)

end RiftRoute
