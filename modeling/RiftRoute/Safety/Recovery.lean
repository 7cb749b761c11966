/-
Module: RiftRoute.Safety.Recovery
Purpose: Crash recovery: every readable journal entry is undone, which gives
  the ownership table back exactly when no added route lands in another's row.
  The panic flush, which keeps the records of routes it could not remove.
Trusted boundary: human-reviewed spec
-/
import RiftRoute.Safety.Executor
import RiftRoute.Routing.Installed
import RiftRoute.Store.Tables

namespace RiftRoute

open List NextHopChange

/-! ### Transaction ids -/

/-- `strings.TrimPrefix`. -/
def trimPrefix (s start : String) : String :=
  if hasPrefix s start then String.ofList (s.toList.drop start.toList.length)
  else s

/-- Marks journal entries of plan-level route operations. -/
def routeOpTxPrefix : String := "routeop-"

variable (owned : Ownership) (n : Nat) (ops : List PlanOp)

/-- The id of the `n`-th transaction of a process. -/
def txID : String := "tx-" ++ n.repr

/-- The id of the `n`-th transaction when it is a route operation. -/
def routeOpTxID : String := routeOpTxPrefix ++ trimPrefix (txID n) "tx-"

theorem hasPrefix_append (start rest : String) : hasPrefix (start ++ rest) start := by
  simp [hasPrefix]

theorem routeOpTxID_eq : routeOpTxID n = "routeop-" ++ n.repr := by
  have trimmed : trimPrefix (txID n) "tx-" = n.repr := by
    rw [trimPrefix, txID, if_pos (hasPrefix_append "tx-" n.repr),
      String.toList_append, drop_left, String.ofList_toList]
  rw [routeOpTxID, trimmed]
  rfl

theorem isRouteOp_routeOpTxID : hasPrefix (routeOpTxID n) routeOpTxPrefix :=
  hasPrefix_append _ _

theorem not_isRouteOp_txID : hasPrefix (txID n) routeOpTxPrefix = false := by
  have chars : (txID n).toList = 't' :: 'x' :: '-' :: n.repr.toList := by
    rw [txID, String.toList_append]
    rfl
  have start : routeOpTxPrefix.toList = ['r', 'o', 'u', 't', 'e', 'o', 'p', '-'] := rfl
  rw [hasPrefix, chars, start]
  rfl

/-! ### What recovery does -/

/-- What outlives a process: the kernel, the ownership table and the
journal. -/
structure World where
  kernel : Kernel
  owned : Ownership
  journal : Journal

/-- Record what a route operation that went through did. -/
def recordOwnership (op : PlanOp) : Ownership :=
  match op.route with
  | none => owned
  | some mr =>
    match op.kind with
    | .addRoute => owned.addOwned mr
    | .delRoute => owned.delOwned mr
    | _ => owned

/-- Record a plan's operations, or undo the records it wrote; either way the
operations are walked forwards. -/
def applyOwnership (plan : Plan) (undo : Bool) : Ownership :=
  plan.ops.foldl (fun owned op =>
      recordOwnership owned (if undo then inverseOp op else op))
    owned

/-- A tunnel's route into its interface, which may be another's by now. -/
def ManagedRoute.isTunnelLink (mr : ManagedRoute) : Bool :=
  mr.route.gateway = "" && !mr.route.reject && hasPrefix mr.profileID tunnelProfilePrefix

/-- Drop the re-adds of tunnel on-link routes. -/
def withoutTunnelLinks : List PlanOp :=
  ops.filter fun op =>
    !(decide (op.kind = .addRoute) && op.route.any ManagedRoute.isTunnelLink)

/-- Undo one journal entry. -/
def recoverEntry (M : Matching) (faults : Faults) (w : World) (id : String) (plan : Plan) : World :=
  { kernel :=
      (Executor.runOps M faults (withoutTunnelLinks plan.inverse)
        { kernel := w.kernel }).2.kernel
    owned :=
      if hasPrefix id routeOpTxPrefix then w.owned
      else applyOwnership w.owned plan true
    journal := w.journal.clearPendingTx id }

/-- Undo the journal entries in the order they are visited; `faults` are each
entry's failing calls. -/
def recoverPending (M : Matching) (faults : String → Faults)
    (visited : List (String × Plan)) (w : World) : World :=
  visited.foldl (fun w entry => recoverEntry M (faults entry.1) w entry.1 entry.2) w

/-! ### Ownership records as effects -/

def Effect.record : Effect → Ownership
  | .addRoute mr => owned.addOwned mr
  | .delRoute mr => owned.delOwned mr
  | .addRule _ => owned
  | .delRule _ => owned

theorem recordOwnership_eq (op : PlanOp) :
    recordOwnership owned op = op.effect.elim owned (Effect.record owned) := by
  obtain ⟨kind, route, rule, _, _⟩ := op
  cases kind <;> cases route <;> cases rule <;> rfl

def Effect.row (e : Effect) : Option OwnKey := e.route.map ownKey

def Effect.rowAfter : Effect → Option ManagedRoute
  | .addRoute mr => some mr
  | _ => none

/-- The ownership table as independent rows. -/
def ownershipCells : CellSystem Ownership Effect OwnKey (Option ManagedRoute) where
  step := Effect.record
  view := Ownership.docAt
  cell := Effect.row
  act e _ := e.rowAfter
  view_step := by
    intro owned e k
    cases e <;> simp [Effect.record, Effect.row, Effect.route, Effect.rowAfter]

def Ownership.record (owned : Ownership) (es : List Effect) : Ownership :=
  es.foldl Effect.record owned

theorem foldl_recordOwnership :
    ops.foldl recordOwnership owned = owned.record (effects ops) := by
  induction ops generalizing owned with
  | nil => rfl
  | cons op ops ih =>
    rw [foldl_cons, ih, recordOwnership_eq]
    cases effect : op.effect <;>
      simp [effects, effect, Ownership.record]

theorem applyOwnership_forward (plan : Plan) :
    applyOwnership owned plan false = owned.record (effects plan.ops) :=
  foldl_recordOwnership owned plan.ops

theorem applyOwnership_undo (plan : Plan) : applyOwnership owned plan true =
      owned.record ((effects plan.ops).map Effect.inverse) := by
  have walked : applyOwnership owned plan true =
      (plan.ops.map inverseOp).foldl recordOwnership owned := by
    rw [foldl_map]
    rfl
  have inverted : effects (plan.ops.map inverseOp) = (effects plan.ops).map Effect.inverse := by
    rw [effects, effects, filterMap_map, map_filterMap]
    congr 1
    funext op
    exact op.effect_inverseOp
  rw [walked, foldl_recordOwnership, inverted]

theorem Ownership.docAt_record (es : List Effect) (row : OwnKey) :
    (owned.record es).docAt row = (ownershipCells.opsAt row es).getLast?.elim (owned.docAt row)
        Effect.rowAfter :=
  ownershipCells.view_run_overwrite (fun _ _ => rfl) owned es row

theorem opsAt_map_inverse (row : OwnKey) (es : List Effect) :
    ownershipCells.opsAt row (es.map Effect.inverse) =
      (ownershipCells.opsAt row es).map Effect.inverse := by
  simp [CellSystem.opsAt, ownershipCells, Effect.row, filter_map, Function.comp_def]

theorem effects_sublist {first second : List PlanOp} (sublist : first.Sublist second) :
    (effects first).Sublist (effects second) :=
  sublist.filterMap _

theorem effects_subset {first second : List PlanOp} (subset : first ⊆ second) :
    effects first ⊆ effects second :=
  filterMap_subset _ subset

/-! ### Recovery is exact, or not -/

/-- Every route the effects add finds its row empty, or a later effect
deletes a route of that row. -/
def UndoSafe (es : List Effect) : Prop :=
  ∀ before x after, es = before ++ .addRoute x :: after → owned.docAt (ownKey x) = none ∨
      ∃ y, .delRoute y ∈ after ∧ ownKey y = ownKey x

theorem undo_ownership_iff {owned : Ownership} {es recorded : List Effect}
    (sublist : recorded.Sublist es)
    (heldDeleted : ∀ y, .delRoute y ∈ es → y ∈ owned.listOwned) :
    (∀ row, ((owned.record recorded).record (es.map Effect.inverse)).docAt row =
      owned.docAt row) ↔ UndoSafe owned es := by
  constructor
  · intro restored before x after split
    by_cases later : ∃ y, .delRoute y ∈ after ∧ ownKey y = ownKey x
    · exact .inr later
    · -- the last effect of the row is an add, whose undo empties the row
      left
      rw [← restored (ownKey x), Ownership.docAt_record, opsAt_map_inverse, getLast?_map]
      have here : .addRoute x ∈ ownershipCells.opsAt (ownKey x) es := by
        simp [CellSystem.opsAt, ownershipCells, Effect.row, Effect.route, split]
      obtain ⟨last, lastEq⟩ := Option.isSome_iff_exists.mp
        (getLast?_isSome.mpr (ne_nil_of_mem here))
      rw [lastEq]
      cases last with
      | addRoute | addRule | delRule => rfl
      | delRoute y =>
        obtain ⟨front, rest, split', atRow, none⟩ :=
          ownershipCells.getLast?_opsAt_eq_some_iff.mp lastEq
        have sameRow : ownKey y = ownKey x := Option.some.inj atRow
        rw [split] at split'
        rcases append_eq_append_iff.mp split' with
          ⟨between, _, tail⟩ | ⟨between, _, tail⟩
        · cases between with
          | nil => cases tail
          | cons first between =>
            obtain ⟨_, rfl⟩ := List.cons.inj tail
            exact absurd ⟨y, by simp, sameRow⟩ later
        · cases between with
          | nil => cases tail
          | cons first between =>
            obtain ⟨_, rfl⟩ := List.cons.inj tail
            exact absurd rfl (none (.addRoute x) (by simp))
  · intro safe row
    rw [Ownership.docAt_record, opsAt_map_inverse, getLast?_map]
    cases lastEq : (ownershipCells.opsAt row es).getLast? with
    | none =>
      -- no effect reaches the row, so none was recorded in it either
      have untouched : ownershipCells.opsAt row recorded = [] := by
        have none := getLast?_eq_none_iff.mp lastEq
        have sub : (ownershipCells.opsAt row recorded).Sublist
            (ownershipCells.opsAt row es) := sublist.filter _
        rw [none] at sub
        exact sublist_nil.mp sub
      rw [Option.map_none, Option.elim_none, Ownership.docAt_record, untouched]
      rfl
    | some last =>
      obtain ⟨before, after, split, atRow, none⟩ :=
        ownershipCells.getLast?_opsAt_eq_some_iff.mp lastEq
      cases last with
      | addRoute x =>
        obtain rfl : ownKey x = row := Option.some.inj atRow
        rcases safe before x after split with empty | ⟨y, member, same⟩
        · rw [empty]
          rfl
        · exact absurd (congrArg some same) (none _ member)
      | delRoute y =>
        obtain rfl : ownKey y = row := Option.some.inj atRow
        have held := heldDeleted y (by simp [split])
        rw [Ownership.mem_listOwned.mp held]
        rfl
      | addRule | delRule => cases atRow

def Effect.isTunnelLinkAdd : Effect → Bool
  | .addRoute mr => mr.isTunnelLink
  | _ => false

theorem effects_withoutTunnelLinks : effects (withoutTunnelLinks ops) =
      (effects ops).filter fun e => !e.isTunnelLinkAdd := by
  rw [effects, effects, withoutTunnelLinks, filterMap_filter, filter_filterMap]
  congr 1
  funext op
  obtain ⟨kind, route, rule, _, _⟩ := op
  cases route with
  | none => cases kind <;> cases rule <;> rfl
  | some mr =>
    cases kind with
    | addRoute =>
      cases link : mr.isTunnelLink <;>
        simp [PlanOp.effect, Effect.isTunnelLinkAdd, link, Option.filter_some]
    | delRoute | unknown => rfl
    | addRule | delRule => cases rule <;> rfl

section Recover

variable {M : Matching} {k : Kernel} {desired actual : List ManagedRoute}
  {desiredRules actualRules : List ManagedRule} {platform : String}

theorem effects_inverse_withoutTunnelLinks (one : OnePerDst actual)
    (noLinks : ∀ a ∈ actual, a.key ∉ desired.map ManagedRoute.key → a.isTunnelLink = false) :
    effects (withoutTunnelLinks (reconcile desired actual desiredRules
        actualRules platform).inverse) =
      (effects (reconcile desired actual desiredRules actualRules
        platform).ops).reverse.map Effect.inverse := by
  rw [effects_withoutTunnelLinks, effects_reconcile_inverse, filter_eq_self]
  intro e member
  obtain ⟨undone, inPlan, rfl⟩ := mem_map.mp member
  cases undone with
  | addRoute | addRule | delRule => rfl
  | delRoute mr =>
    obtain ⟨inActual, gone⟩ := (delRoute_mem_reconcile one.nodup_key).mp
      (mem_reverse.mp inPlan)
    simp [Effect.inverse, Effect.isTunnelLinkAdd, noLinks mr inActual gone]

end Recover

def Kernel.hasRoute (k : Kernel) (r : ManagedRoute) : Bool :=
  (k.routes.find r.dst).any fun entry =>
    entry.owner = .riftRoute && !entry.cloned && routeKey entry = r.key

/-- The calls of a panic that fail. -/
structure PanicFaults where
  listOwned : Bool := false
  /-- By the number of the call. -/
  delRoute : Faults := noFaults
  listRoutes : Family → Bool := fun _ => false
  delOwned : ManagedRoute → Bool := fun _ => false
  clearOwned : Option String := none

/-- The deletes of a panic so far. -/
structure Sweep where
  kernel : Kernel
  tried : Nat := 0
  failed : List ManagedRoute := []
  firstErr : Option String := none

/-- Delete one recorded route, best-effort. -/
def Sweep.step (M : Matching) (faults : Faults) (s : Sweep) (mr : ManagedRoute) : Sweep :=
  match faults s.tried with
  | none =>
    { s with kernel := s.kernel.delRoute M mr, tried := s.tried + 1 }
  | some e =>
    { s with
      tried := s.tried + 1
      failed := s.failed ++ [mr]
      firstErr := s.firstErr.or (some e) }

/-- The routes the kernel still holds, all of them when a table cannot be
read. -/
def stillInstalled (kernel : Kernel) (fails : Family → Bool)
    (rs : List ManagedRoute) : List ManagedRoute :=
  if rs = [] then []
  else if fails .v4 || fails .v6 then rs
  else
    let index := indexInstalled (kernel.listRoutes .v4 ++ kernel.listRoutes .v6)
    rs.filter fun r => index.has r.route

/-- Remove all managed routes and clear the ownership table.  `flush` is the
provider's sweep. -/
def panic (M : Matching) (faults : PanicFaults) (flush : Kernel → Kernel)
    (w : World) : Option String × World :=
  let owned := if faults.listOwned then [] else w.owned.listOwned
  let swept := owned.foldl (Sweep.step M faults.delRoute) { kernel := w.kernel }
  let kernel := flush swept.kernel
  let failed := stillInstalled kernel faults.listRoutes swept.failed
  if failed = [] then
    match faults.clearOwned with
    | some e => (some e, { w with kernel := kernel })
    | none => (none, { w with kernel := kernel, owned := w.owned.clearOwned })
  else
    let keep := failed.map ManagedRoute.key
    let dropped := owned.filter fun mr => mr.key ∉ keep && !faults.delOwned mr
    (some (toString failed.length ++
        " managed route(s) could not be removed and stay recorded for a retry: "
        ++ swept.firstErr.getD "%!w(<nil>)"),
      { w with
        kernel := kernel
        owned := dropped.foldl Ownership.delOwned w.owned })

@[simp] theorem panic_journal (M : Matching) (faults : PanicFaults)
    (flush : Kernel → Kernel) (w : World) :
    (panic M faults flush w).2.journal = w.journal := by
  unfold panic
  cases faults.clearOwned <;> dsimp only <;> split_ifs <;> rfl

/-! ### What the sweep leaves -/

section Sweep

variable {M : Matching}

theorem Kernel.find_delRoute (k : Kernel) (mr : ManagedRoute) (dst : DstKey) :
    (k.delRoute M mr).routes.find dst = if mr.dst = dst then
        (k.routes.find dst).filter fun entry => !M.takes mr entry
      else k.routes.find dst :=
  KeyedTable.find_eraseIf k.routes mr.dst (M.takes mr) dst

theorem hasRoute_delRoute_self (k : Kernel) (r : ManagedRoute) :
    (k.delRoute M r).hasRoute r = false := by
  rw [Kernel.hasRoute, Kernel.find_delRoute, if_pos rfl]
  cases found : k.routes.find r.dst with
  | none => rfl
  | some entry =>
    by_cases same : entry.owner = .riftRoute ∧ routeKey entry = r.key
    · have taken := M.takes_same r entry (fun _ => same.1) same.2
      simp [Option.filter_some, taken]
    · rw [Option.filter_some]
      split
      · simp only [Option.any_some, Bool.and_eq_false_iff, decide_eq_false_iff_not]
        by_cases ours : entry.owner = .riftRoute
        · exact .inr fun key => same ⟨ours, key⟩
        · exact .inl (.inl ours)
      · rfl

theorem hasRoute_of_delRoute {k : Kernel} {mr r : ManagedRoute}
    (there : (k.delRoute M mr).hasRoute r) : k.hasRoute r := by
  rw [Kernel.hasRoute, Kernel.find_delRoute] at there
  split at there
  · obtain ⟨entry, found, held⟩ := (Option.any_eq_true _ _).mp there
    obtain ⟨before, _⟩ := Option.filter_eq_some_iff.mp found
    exact (Option.any_eq_true _ _).mpr ⟨entry, before, held⟩
  · exact there

theorem Sweep.foldl_spec (faults : Faults) (rs : List ManagedRoute) (s : Sweep) :
    ∃ failed, (rs.foldl (Sweep.step M faults) s).failed = s.failed ++ failed ∧ failed ⊆ rs ∧
      (∀ r ∈ rs, r ∈ failed ∨ (rs.foldl (Sweep.step M faults) s).kernel.hasRoute r = false) ∧
      ∀ r, (rs.foldl (Sweep.step M faults) s).kernel.hasRoute r → s.kernel.hasRoute r := by
  induction rs generalizing s with
  | nil => exact ⟨[], by simp, by simp, by simp, fun _ there => there⟩
  | cons mr rs ih =>
    obtain ⟨failed, failedIs, subset, all, shrinks⟩ := ih (s.step M faults mr)
    rw [foldl_cons]
    cases fault : faults s.tried with
    | none =>
      have stepped : s.step M faults mr =
          { s with kernel := s.kernel.delRoute M mr
                   tried := s.tried + 1 } := by
        simp [Sweep.step, fault]
      rw [stepped] at failedIs all shrinks ⊢
      refine ⟨failed, failedIs, subset_cons_of_subset mr subset,
        ?_, fun r there => hasRoute_of_delRoute (shrinks r there)⟩
      intro r member
      rcases mem_cons.mp member with rfl | member
      · refine .inr ?_
        rw [Bool.eq_false_iff]
        intro there
        have after := shrinks r there
        rw [hasRoute_delRoute_self] at after
        exact absurd after (by simp)
      · exact all r member
    | some e =>
      have stepped : s.step M faults mr =
          { s with tried := s.tried + 1, failed := s.failed ++ [mr]
                   firstErr := s.firstErr.or (some e) } := by
        simp [Sweep.step, fault]
      rw [stepped] at failedIs all shrinks ⊢
      refine ⟨mr :: failed, by rw [failedIs, append_assoc]; rfl,
        cons_subset_cons mr subset, ?_, shrinks⟩
      intro r member
      rcases mem_cons.mp member with rfl | member
      · exact .inl mem_cons_self
      · exact (all r member).imp_left (mem_cons_of_mem _)

end Sweep

theorem mem_listRoutes {k : Kernel} {entry : Route} (member : entry ∈ k.routes.rows) :
    entry ∈ k.listRoutes .v4 ++ k.listRoutes .v6 := by
  rw [mem_append]
  cases family : entry.family with
  | v4 => exact .inl (mem_filter.mpr ⟨member, decide_eq_true family⟩)
  | v6 => exact .inr (mem_filter.mpr ⟨member, decide_eq_true family⟩)

theorem mem_stillInstalled {k : Kernel} {fails : Family → Bool}
    {rs : List ManagedRoute} {r : ManagedRoute} (member : r ∈ rs)
    (there : k.hasRoute r) : r ∈ stillInstalled k fails rs := by
  rw [stillInstalled, if_neg (ne_nil_of_mem member)]
  split
  · exact member
  · obtain ⟨entry, found, held⟩ := (Option.any_eq_true _ _).mp there
    simp only [Bool.and_eq_true, decide_eq_true_eq, Bool.not_eq_true'] at held
    obtain ⟨⟨_, real⟩, same⟩ := held
    refine mem_filter.mpr ⟨member, ?_⟩
    exact has_of_mem (mem_listRoutes (KeyedTable.mem_of_find found)) real same

theorem mem_listOwned_of_dropped {owned : Ownership} {r : ManagedRoute}
    (listed : r ∈ owned.listOwned) {dropped : List ManagedRoute}
    (others : ∀ mr ∈ dropped, ownKey mr ≠ ownKey r) :
    r ∈ (dropped.foldl Ownership.delOwned owned).listOwned := by
  induction dropped generalizing owned with
  | nil => exact listed
  | cons mr dropped ih =>
    apply ih
    · rw [Ownership.mem_listOwned] at listed ⊢
      rw [Ownership.docAt_delOwned, if_neg (others mr mem_cons_self)]
      exact listed
    · intro other member
      exact others other (mem_cons_of_mem _ member)

/-! ### Panic loses track of nothing, or not -/

/-- Every recorded route that is still in the kernel is still recorded, and
after a success none is in the kernel. -/
def Tracked (before : World) (err : Option String) (after : World) : Prop :=
  (∀ r ∈ before.owned.listOwned, after.kernel.hasRoute r → r ∈ after.owned.listOwned) ∧
  (err = none → ∀ r ∈ before.owned.listOwned, after.kernel.hasRoute r = false)

section Panic

variable {M : Matching} {faults : PanicFaults} {flush : Kernel → Kernel}
  {w : World}

theorem hasRoute_flush (flushKeeps : ∀ k, (flush k).routes = k.routes)
    (k : Kernel) (r : ManagedRoute) : (flush k).hasRoute r = k.hasRoute r := by
  rw [Kernel.hasRoute, flushKeeps, Kernel.hasRoute]

theorem tracked_of_read (flushKeeps : ∀ k, (flush k).routes = k.routes)
    (read : faults.listOwned = false) :
    Tracked w (panic M faults flush w).1 (panic M faults flush w).2 := by
  obtain ⟨failed, failedIs, _, all, _⟩ := Sweep.foldl_spec (M := M)
    faults.delRoute w.owned.listOwned { kernel := w.kernel }
  rw [nil_append] at failedIs
  -- a route still there after the flush is among those found still there
  have found : ∀ r ∈ w.owned.listOwned,
      (flush (w.owned.listOwned.foldl (Sweep.step M faults.delRoute)
        { kernel := w.kernel }).kernel).hasRoute r →
      r ∈ stillInstalled (flush (w.owned.listOwned.foldl
        (Sweep.step M faults.delRoute) { kernel := w.kernel }).kernel)
        faults.listRoutes failed := by
    intro r listed there
    refine mem_stillInstalled ?_ there
    rcases all r listed with failure | gone
    · exact failure
    · rw [hasRoute_flush flushKeeps, gone] at there
      exact absurd there (by simp)
  simp only [panic, read, Bool.false_eq_true, if_false, failedIs]
  split
  · rename_i none
    rw [none] at found
    have gone : ∀ r ∈ w.owned.listOwned, _ = false := fun r listed =>
      Bool.eq_false_iff.mpr fun there =>
        absurd (found r listed there) not_mem_nil
    split
    · exact ⟨fun r listed _ => listed, fun ok => absurd ok (by simp)⟩
    · refine ⟨?_, fun _ => gone⟩
      intro r listed there
      exact absurd (found r listed there) not_mem_nil
  · refine ⟨?_, fun ok => absurd ok (by simp)⟩
    intro r listed there
    apply mem_listOwned_of_dropped listed
    intro mr member sameRow
    obtain ⟨mrListed, dropped⟩ := mem_filter.mp member
    -- the records have different rows, so `mr` is the kept route itself
    have same : mr = r := inj_on_of_nodup_map w.owned.nodup_listOwned mrListed listed sameRow
    simp only [Bool.and_eq_true, decide_eq_true_eq] at dropped
    exact dropped.1 (same ▸ mem_map_of_mem (found r listed there))

/-- Panic loses track of nothing exactly when the recorded routes can be read,
or the records cannot be cleared either, or none of the routes is there. -/
theorem panic_tracks_iff (flushKeeps : ∀ k, (flush k).routes = k.routes) :
    Tracked w (panic M faults flush w).1 (panic M faults flush w).2 ↔
      faults.listOwned = false ∨ faults.clearOwned ≠ none ∨
        ∀ r ∈ w.owned.listOwned, w.kernel.hasRoute r = false := by
  cases read : faults.listOwned with
  | false =>
    simp only [true_or, iff_true]
    exact tracked_of_read flushKeeps read
  | true =>
    have noneFailed : stillInstalled (flush w.kernel) faults.listRoutes [] = [] := rfl
    cases clear : faults.clearOwned with
    | some e =>
      have outcome : panic M faults flush w = (some e, { w with kernel := flush w.kernel }) := by
        simp [panic, read, clear, noneFailed]
      rw [outcome]
      simp only [ne_eq, reduceCtorEq, not_false_eq_true, true_or, or_true, iff_true]
      exact ⟨fun r listed _ => listed, fun ok => absurd ok (by simp)⟩
    | none =>
      have outcome : panic M faults flush w =
          (none, { w with kernel := flush w.kernel
                          owned := w.owned.clearOwned }) := by
        simp [panic, read, clear, noneFailed]
      rw [outcome]
      constructor
      · intro tracked
        refine .inr (.inr fun r listed => ?_)
        rw [← hasRoute_flush flushKeeps]
        exact tracked.2 rfl r listed
      · rintro (absurdRead | absurdClear | gone)
        · exact absurd absurdRead (by simp)
        · exact absurd rfl absurdClear
        · refine ⟨fun r listed there => ?_, fun _ r listed => ?_⟩
          · rw [hasRoute_flush flushKeeps, gone r listed] at there
            exact absurd there (by simp)
          · rw [hasRoute_flush flushKeeps]
            exact gone r listed

end Panic

/-- A delete that fails keeps its record. -/
theorem failed_delete_tracked : let w : World :=
      { kernel := NextHopChange.kernel
        owned := Ownership.after [.put NextHopChange.old]
        journal := .empty }
    let outcome := panic Matching.exact
      { delRoute := faultAt 0 "operation not permitted" } (fun k => k) w
    Tracked w outcome.1 outcome.2 :=
  (panic_tracks_iff fun _ => rfl).mpr (.inl rfl)

/-- The ownership table cannot be read: nothing is deleted, yet the records are
cleared and the panic reports success with the route still in the kernel. -/
theorem unread_records_cleared : let w : World :=
      { kernel := NextHopChange.kernel
        owned := Ownership.after [.put NextHopChange.old]
        journal := .empty }
    let outcome := panic Matching.exact { listOwned := true } (fun k => k) w
    outcome.1 = none ∧ NextHopChange.old ∈ w.owned.listOwned ∧
      outcome.2.kernel.hasRoute NextHopChange.old ∧
      outcome.2.owned.listOwned = [] ∧ ¬ Tracked w outcome.1 outcome.2 := by
  intro w outcome
  have listed : NextHopChange.old ∈ w.owned.listOwned := by decide
  have there : outcome.2.kernel.hasRoute NextHopChange.old := by decide
  have ok : outcome.1 = none := by decide
  refine ⟨ok, listed, there, by decide, ?_⟩
  intro tracked
  have gone := tracked.2 ok NextHopChange.old listed
  rw [there] at gone
  exact absurd gone (by simp)

/-! ### Recovering again -/

theorem find_recoverPending (M : Matching) (faults : String → Faults)
    (visited : List (String × Plan)) (w : World) (id : String) :
    (recoverPending M faults visited w).journal.find id =
      if id ∈ visited.map Prod.fst then none else w.journal.find id := by
  induction visited generalizing w with
  | nil => rfl
  | cons entry visited ih =>
    have cleared : (recoverPending M faults (entry :: visited) w).journal.find id = _ :=
      ih (recoverEntry M (faults entry.1) w entry.1 entry.2)
    rw [cleared, recoverEntry, Journal.find_clearPendingTx]
    by_cases later : id ∈ visited.map Prod.fst
    · simp [later]
    · rcases eq_or_ne entry.1 id with rfl | other
      · simp
      · simp [later, other, other.symm]

/-- **Recovery completes, and may be run again.**  In whatever order the entries
are visited and whichever provider calls fail, it clears every entry this build
can read and leaves the others; a second recovery changes nothing. -/
theorem recovery_completes (M : Matching) (faults again : String → Faults) {w recovered : World}
    {visited : List (String × Plan)} (all : visited.Perm w.journal.listPendingTx)
    (ran : recoverPending M faults visited w = recovered) :
    (∀ id, recovered.journal.find id =
      (w.journal.find id).filter fun row => row.readable.isNone) ∧
    recoverPending M again recovered.journal.listPendingTx recovered = recovered := by
  have left : ∀ id, recovered.journal.find id =
      (w.journal.find id).filter fun row => row.readable.isNone := by
    intro id
    have listed : id ∈ visited.map Prod.fst ↔
        ∃ plan row, w.journal.find id = some row ∧ row.readable = some plan := by
      rw [(all.map Prod.fst).mem_iff]
      simp [← Journal.mem_listPendingTx]
    rw [← ran, find_recoverPending]
    cases found : w.journal.find id with
    | none => simp
    | some row => cases readable : row.readable <;> simp_all [Option.filter]
  refine ⟨left, ?_⟩
  have nothing : recovered.journal.listPendingTx = [] := by
    refine eq_nil_iff_forall_not_mem.mpr ?_
    rintro ⟨id, plan⟩ listed
    obtain ⟨row, found, readable⟩ := Journal.mem_listPendingTx.mp listed
    rw [left id] at found
    simp [readable, Option.filter_eq_some_iff] at found
  rw [nothing]
  rfl

/-- An unreadable entry stays. -/
theorem newer_entry_left :
    ∃ w : World, (w.journal.find "new").isSome ∧ w.journal.listPendingTx ≠ [] ∧ ∃ recovered : World,
      (∀ id, recovered.journal.find id =
        (w.journal.find id).filter fun row => row.readable.isNone) ∧
      recoverPending Matching.exact (fun _ => noFaults) recovered.journal.listPendingTx recovered =
        recovered :=
  ⟨{ kernel := ⟨.empty, .empty⟩, owned := .empty
     journal := .put (Journal.putPendingTx .empty "old" {}) ⟨"new", some (walFormat + 1), .plan {}⟩ },
    by decide, by decide, _, recovery_completes .exact (fun _ => faultAt 0 "busy") _ (.refl _) rfl⟩

end RiftRoute
