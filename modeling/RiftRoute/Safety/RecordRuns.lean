/-
Module: RiftRoute.Safety.RecordRuns
Purpose: The applies' records along the protocol's runs: what an apply that
  changes nothing finds beside it, what each end of an apply leaves of the
  records, and from both that they follow what the kernel keeps.
Trusted boundary: none
Main exports: Recording.Kept, Records.KeptAfter
-/
import RiftRoute.Safety.JournalRuns
import RiftRoute.Safety.Records

namespace RiftRoute

open List Recording Serving

variable {M : Matching} {platform : String}

/-! ### What an apply is built beside -/

/-- What a step makes of the transactions an apply was built beside. -/
inductive Prepare.BesideBy (p : Serving) (q' : Prepare) : Prop where
  | same {q : Prepare} (holds : p.holder = .preparing q)
      (sameOwnership : q'.ownership = q.ownership)
      (sameBeside : q'.beside = q.beside)
      (ready : q'.stage = .ready → (q.stage = .ready ∧ q'.builtOnRecord = q.builtOnRecord) ∨
          (q'.builtOnRecord = true → q'.beside = []))
  /-- It is built again, now that they are settled. -/
  | again {q : Prepare} (holds : p.holder = .preparing q)
      (settled : q.stage = .superseding { ids := [] })
      (none : q'.beside = []) (stage : q'.stage = .locked)
  | locked (beside : q'.beside =
        (p.pending.rows.filter PendingTx.ownership).map PendingTx.id)
      (stage : q'.stage = .locked)
  | routeOp (notPolicy : q'.ownership = false) (none : q'.beside = [])

variable {q q' : Prepare} {p : Serving}

theorem Prepare.besideBy_of_step {w : World} {e : PrepareEvent} (holds : p.holder = .preparing q)
    (stepped : q.step platform w p.pending e = some q') :
    Prepare.BesideBy p q' := by
  cases e with
  | superseded =>
    simp only [Prepare.step] at stepped
    split at stepped
    · rename_i settled
      split at stepped
      · cases stepped
        exact .again holds settled rfl rfl
      · rename_i notAgain
        cases stepped
        refine .same holds rfl rfl fun _ => .inr fun onRecord => ?_
        by_contra some
        exact notAgain ⟨some, onRecord⟩
    · cases stepped
  | supersede | readOwned | build | plan =>
    simp only [Prepare.step] at stepped
    split at stepped <;> cases stepped
    exact .same holds rfl rfl (by simp)
  | readRoutes | readRules =>
    simp only [Prepare.step] at stepped
    split at stepped <;> cases stepped
    exact .same holds rfl rfl fun ready => .inl ⟨ready, rfl⟩

theorem Serving.besideBy_of_settle
    {settling next : Settling} (waits : p.holder.settling = some settling)
    (settled : p.holder.settle next = .preparing q') :
    Prepare.BesideBy p q' := by
  obtain ⟨q, holds, rfl⟩ := Holder.settle_preparing waits settled
  exact .same holds rfl rfl (by simp)

variable {e : Event}

theorem Serving.besideBy_of_step {w w' : World} {p' : Serving}
    (stepped : p.step M platform w e = some (w', p'))
    (holds' : p'.holder = .preparing q') : Prepare.BesideBy p q' := by
  cases moves_of_step stepped with
  | lockApply interactive unguarded builtOnRecord beside free =>
    simp only [step, free] at stepped
    split at stepped
    · obtain ⟨_, same⟩ := Prod.mk.inj (Option.some.inj stepped)
      rw [← same] at holds'
      obtain rfl := Holder.preparing.inj holds'
      exact .locked rfl rfl
    · cases stepped
  | lockRouteOp _ _ _ _ _ _ =>
    obtain rfl := Holder.preparing.inj holds'
    exact .routeOp rfl rfl
  | prepare e holds moved =>
    obtain rfl := Holder.preparing.inj holds'
    exact Prepare.besideBy_of_step holds moved
  | ask waits | await waits _ => exact besideBy_of_settle waits holds'
  | decide | resolver | finishTx | panicStart =>
    exact .same holds' rfl rfl fun ready => .inl ⟨ready, rfl⟩
  | giveUp | journal | execute | undone | finishUnguarded | finishGuarded | panicLock
  | panicFlush => cases holds'

/-- What an apply was built beside has a slot and holds every policy
transaction that is still pending; built on a record, it goes ahead only with
nothing beside it. -/
structure BesideKept (p : Serving) (r : Records) : Prop where
  known : ∀ q, p.holder = .preparing q → ∀ id ∈ q.beside, r.stateOf id ≠ none
  all : ∀ q, p.holder = .preparing q → q.ownership = true → ∀ id t,
    p.pending.find id = some t → t.ownership = true → id ∈ q.beside
  policy : ∀ q, p.holder = .preparing q → ∀ id ∈ q.beside, ∀ t,
    p.pending.find id = some t → t.ownership = true
  ready : ∀ q, p.holder = .preparing q → q.stage = .ready → q.builtOnRecord = true → q.beside = []
  executing : ∀ x, p.holder = .executing x →
    x.prepared.builtOnRecord = true → x.prepared.beside = []

variable {r : Records}

theorem BesideKept.of_free (free : p.holder = .free) : BesideKept p r where
  known _ holds := by rw [free] at holds; cases holds
  all _ holds := by rw [free] at holds; cases holds
  policy _ holds := by rw [free] at holds; cases holds
  ready _ holds := by rw [free] at holds; cases holds
  executing _ holds := by rw [free] at holds; cases holds

theorem BesideKept.mono {r' : Records} (held : BesideKept p r)
    (keeps : ∀ id, r.stateOf id ≠ none → r'.stateOf id ≠ none) :
    BesideKept p r' where
  known q holds id member := keeps id (held.known q holds id member)
  all := held.all
  policy := held.policy
  ready := held.ready
  executing := held.executing

variable {t : PendingTx} {id : String}

theorem mem_policyIDs {pending : Pending}
    (found : pending.find id = some t) (policy : t.ownership = true) :
    id ∈ (pending.rows.filter PendingTx.ownership).map PendingTx.id := by
  refine mem_map.mpr ⟨t, ?_, KeyedTable.key_of_find found⟩
  exact mem_filter.mpr ⟨KeyedTable.mem_of_find found, policy⟩

theorem policy_of_mem_policyIDs {pending : Pending}
    (member : id ∈ (pending.rows.filter PendingTx.ownership).map PendingTx.id)
    (found : pending.find id = some t) : t.ownership = true := by
  obtain ⟨row, isRow, rfl⟩ := mem_map.mp member
  obtain ⟨listed, ofPolicy⟩ := mem_filter.mp isRow
  have isFound := (KeyedTable.find_of_mem listed).symm.trans found
  exact Option.some.inj isFound ▸ ofPolicy

theorem Serving.pending_of_preparing {w w' : World} {p' : Serving}
    (moves : p.Moves M platform w e w' p')
    (holds' : p'.holder = .preparing q')
    (found : p'.pending.find id = some t) :
    ∃ before, p.pending.find id = some before ∧ t.ownership = before.ownership := by
  rcases pending_of_moves moves found with
    ⟨before, wasThere, _, sameOwnership⟩ | ⟨freed, _⟩
  · exact ⟨before, wasThere, sameOwnership⟩
  · rw [holds'] at freed
    cases freed

variable {resolved : List (String × Outcome)} {started : List String}

theorem BesideKept.step {w w' : World} {p' : Serving} {r' : Records} (held : BesideKept p r)
    (one : p.OneUnresolved) (slots : SlotsKept p r started resolved)
    (keeps : ∀ id, r.stateOf id ≠ none → r'.stateOf id ≠ none)
    (stepped : p.step M platform w e = some (w', p')) : BesideKept p' r' := by
  have moves := moves_of_step stepped
  constructor
  · intro q' holds' id member
    cases besideBy_of_step stepped holds' with
    | same holds _ sameBeside _ =>
      exact keeps id (held.known _ holds id (sameBeside ▸ member))
    | again _ _ none _ | routeOp _ none =>
      rw [none] at member
      cases member
    | locked beside _ =>
      rw [beside] at member
      obtain ⟨t, isRow, rfl⟩ := mem_map.mp member
      have found := KeyedTable.find_of_mem (mem_filter.mp isRow).1
      exact keeps _ (slots.pending t.id t found)
  · intro q' holds' policy id t found ofPolicy
    obtain ⟨before, wasThere, sameOwnership⟩ := pending_of_preparing moves holds' found
    rw [sameOwnership] at ofPolicy
    cases besideBy_of_step stepped holds' with
    | same holds sameOwnership sameBeside _ =>
      rw [sameBeside]
      exact held.all _ holds (sameOwnership ▸ policy) id before wasThere ofPolicy
    | again holds settled _ _ =>
      have listed := one.superseding _ _ holds settled id before wasThere
      cases listed
    | locked beside _ =>
      rw [beside]
      exact mem_policyIDs wasThere ofPolicy
    | routeOp notPolicy _ =>
      rw [notPolicy] at policy
      cases policy
  · intro q' holds' id member t found
    obtain ⟨before, wasThere, sameOwnership⟩ := pending_of_preparing moves holds' found
    rw [sameOwnership]
    cases besideBy_of_step stepped holds' with
    | same holds _ sameBeside _ =>
      exact held.policy _ holds id (sameBeside ▸ member) before wasThere
    | again _ _ none _ | routeOp _ none =>
      rw [none] at member
      cases member
    | locked beside _ =>
      rw [beside] at member
      exact policy_of_mem_policyIDs member wasThere
  · intro q' holds' stage onRecord
    cases besideBy_of_step stepped holds' with
    | same holds _ sameBeside ready =>
      rcases ready stage with ⟨wasReady, sameBuilt⟩ | built
      · rw [sameBeside]
        exact held.ready _ holds wasReady (sameBuilt ▸ onRecord)
      · exact built onRecord
    | again _ _ none _ | routeOp _ none => exact none
    | locked _ isLocked =>
      rw [isLocked] at stage
      cases stage
  · intro x' holds' onRecord
    cases executedBy_of_moves moves holds' with
    | same wasExecuting => exact held.executing x' wasExecuting onRecord
    | stepped wasExecuting samePrepared _ =>
      rw [samePrepared] at onRecord ⊢
      exact held.executing _ wasExecuting onRecord
    | started _ _ wasPreparing ready _ =>
      exact held.ready _ wasPreparing ready onRecord

/-! ### Along a run -/

/-- What every run keeps. -/
structure Recording.Kept (s : Recording) : Prop where
  accounted : TxAccounted s.serving s.started s.resolved
  slots : SlotsKept s.serving s.records s.started s.resolved
  beside : BesideKept s.serving s.records
  carries : s.records.carries = true → s.serving.holder.policy = true
  records : s.records.Kept (s.serving.holder.policy = true)

theorem Records.Kept.imp {busy busy' : Prop}
    (held : r.Kept busy) (weaker : busy' → busy) : r.Kept busy' where
  sorted := held.sorted
  bound := held.bound
  before isBusy := held.before (weaker isBusy)
  distinct := held.distinct
  stands := held.stands
  carried := held.carried

theorem Records.Kept.setCarries {busy : Prop} (held : r.Kept busy) (carries : Bool) :
    ({ r with carries := carries } : Records).Kept busy where
  sorted := held.sorted
  bound := held.bound
  before := held.before
  distinct := held.distinct
  stands := held.stands
  carried := held.carried

/-- What a step leaves of the records, with whether an apply holds the lock
then. -/
structure Records.KeptAfter (r : Records) (holder : Holder) : Prop where
  kept : r.Kept (holder.policy = true)
  carries : r.carries = true → holder.policy = true

theorem Records.close_of_routeOp (routeOp : q.ownership = false)
    (r : Records) (fate : Fate) : r.close q fate = r := by
  rw [Records.close, if_neg (by simp [routeOp])]

theorem Records.close_carries (policy : q.ownership = true)
    (r : Records) (fate : Fate) : (r.close q fate).carries = false := by
  rw [Records.close, if_pos policy]

section Steps

variable {w w' : World} {p p' : Serving}

theorem Records.KeptAfter.freed {r' : Records} {q : Prepare} {fate : Fate}
    (policy : q.ownership = true)
    (kept : (r'.close q fate).Kept False) :
    (r'.close q fate).KeptAfter .free where
  kept := kept.imp (by simp [Holder.policy])
  carries carries := by
    rw [Records.close_carries policy] at carries
    cases carries

theorem Records.KeptAfter.routeOp (held : r.Kept False)
    (none : r.carries = false) : r.KeptAfter .free where
  kept := held.imp (by simp [Holder.policy])
  carries carries := by
    rw [none] at carries
    cases carries

variable {s : Recording}

section

variable (held : s.Kept)

include held

theorem Recording.Kept.carries_eq_false (notPolicy : s.serving.holder.policy = false) :
    s.records.carries = false := by
  cases carries : s.records.carries with
  | false => rfl
  | true =>
    have policy := held.carries carries
    rw [notPolicy] at policy
    cases policy

namespace Records

theorem keptAfter_leave {q : Prepare}
    (isPolicy : s.serving.holder.policy = q.ownership) (fate : Fate) :
    (s.records.close q fate).KeptAfter .free := by
  cases policy : q.ownership with
  | true =>
    rw [policy] at isPolicy
    exact .freed policy ((held.records.imp fun _ => isPolicy).close policy fate)
  | false =>
    rw [close_of_routeOp policy]
    rw [policy] at isPolicy
    exact .routeOp (held.records.imp False.elim) (held.carries_eq_false isPolicy)

theorem keptAfter_finish
    {x : Execution} (holds : s.serving.holder = .executing x) {fails : Bool} :
    (s.records.after s.serving (.finish fails)).KeptAfter .free := by
  have isPolicy : s.serving.holder.policy = x.prepared.ownership := by
    rw [holds]
    rfl
  have noSlot : s.records.slots.find x.id = none := by
    have none := held.slots.executing x holds
    rw [stateOf, Option.map_eq_none_iff] at none
    exact none
  have noneCarried : ∀ id k, ¬ s.records.Carries id k := fun id k carried =>
    held.slots.isPending id carried.isOpen (held.accounted.one.executing x holds id)
  have built := held.beside.executing x holds
  simp only [after, holds]
  cases policy : x.prepared.ownership with
  | true =>
    rw [policy] at isPolicy
    have kept := held.records.imp (fun _ : True => isPolicy)
    split
    · exact .freed policy (kept.commitNow policy built noneCarried)
    · exact .freed policy (kept.probation policy built noSlot)
  | false =>
    rw [policy] at isPolicy
    have none := held.carries_eq_false isPolicy
    have kept : s.records.Kept False := held.records.imp False.elim
    rw [close_of_routeOp policy, close_of_routeOp policy]
    split
    · rw [recordNow, if_neg (by simp [none])]
      exact .routeOp kept none
    · exact .routeOp (kept.registerNone none noSlot) none

theorem keptAfter_same {holder : Holder} (same : holder.policy = s.serving.holder.policy) :
    s.records.KeptAfter holder where
  kept := by
    rw [same]
    exact held.records
  carries := by
    rw [same]
    exact held.carries

theorem keptAfter_prepare {q q' : Prepare} {e : PrepareEvent}
    (holds : s.serving.holder = .preparing q)
    (stepped : q.step platform s.world s.serving.pending e = some q') :
    (s.records.after s.serving (.prepare e)).KeptAfter (.preparing q') := by
  have same : (Holder.preparing q').policy = s.serving.holder.policy := by
    rw [holds]
    exact Prepare.step_ownership stepped
  cases e with
  | superseded =>
    simp only [after, holds]
    split
    · refine ⟨?_, by simp⟩
      rw [same]
      exact held.records.setCarries false
    · exact keptAfter_same held same
  | _ => exact keptAfter_same held same

theorem keptAfter_of_step (stepped : s.serving.step M platform s.world e = some (w', p')) :
    (s.records.after s.serving e).KeptAfter p'.holder := by
  cases moves_of_step stepped with
  | lockApply _ _ _ _ free =>
    have idle : s.records.Kept False := held.records.imp False.elim
    exact ⟨idle.lock.imp fun _ => trivial, by simp [after, lock]⟩
  | lockRouteOp _ _ _ _ free _ | panicLock free =>
    exact keptAfter_same held (by rw [free]; rfl)
  | prepare e holds moved => exact keptAfter_prepare held holds moved
  | giveUp holds =>
    simp only [after, holds]
    exact keptAfter_leave held (by rw [holds]; rfl) .refused
  | undone _ holds =>
    simp only [after, holds]
    exact keptAfter_leave held (by rw [holds]; rfl) .failed
  | finishUnguarded _ holds | finishGuarded _ holds => exact keptAfter_finish held holds
  | ask settling | await settling _ =>
    exact keptAfter_same held (Holder.policy_settle settling)
  | journal _ holds _ | panicFlush _ _ holds =>
    exact keptAfter_same held (by rw [holds]; rfl)
  | execute _ holds moved =>
    refine keptAfter_same held ?_
    rw [holds]
    exact congrArg Prepare.ownership (Execution.step_keeps moved).1
  | decide | resolver | finishTx | panicStart => exact keptAfter_same held rfl

end Records

end

end Steps

theorem Recording.Kept.start (w : World) : ({ world := w } : Recording).Kept where
  accounted := .start
  slots := .start
  beside := .of_free rfl
  carries carries := by cases carries
  records := Records.Kept.start.imp (by simp [Holder.policy])

variable {s s' : Recording}

theorem Recording.Kept.step_serving (held : s.Kept)
    (stepped : s.step M platform (.serving e) = some s') : s'.Kept := by
  simp only [step] at stepped
  split at stepped
  · cases stepped
  rename_i notBlocked
  obtain ⟨⟨w, p⟩, moved, rfl⟩ := Option.map_eq_some_iff.mp stepped
  have one := held.accounted.one
  have closes : ∀ id, closesFirst e = some id →
      s.records.stateOf id ≠ some .recOpen := by
    intro id isFirst isOpen
    simp [isFirst, isOpen] at notBlocked
  have after := Records.keptAfter_of_step held moved
  exact
    { accounted := held.accounted.step (moves_of_step moved)
        (flight_of_step one moved)
      slots := held.slots.step held.accounted held.carries closes moved
      beside := held.beside.step one held.slots
        (fun _ => s.records.known_after moved) moved
      carries := after.carries
      records := after.kept }

theorem Recording.Kept.step_setOnCommit (held : s.Kept)
    (stepped : s.step M platform .setOnCommit = some s') : s'.Kept := by
  simp only [step] at stepped
  split at stepped
  · rename_i q holds
    split at stepped
    · rename_i guards
      cases stepped
      have slots : ({ s.records with carries := true } : Records).slots = s.records.slots := rfl
      exact
        { accounted := held.accounted
          slots := held.slots.keep slots
            (fun _ t found => ⟨t, found, rfl, fun settled _ => .inl settled⟩)
            (fun _ _ isPending => isPending) held.slots.executing
            (fun _ same => same) fun _ same => same
          beside := held.beside.mono fun _ known => known
          carries := fun _ => by
            rw [holds]
            exact guards.1
          records := held.records.setCarries true }
    · cases stepped
  · cases stepped

theorem Serving.OneUnresolved.setBeside (held : p.OneUnresolved) (holds : p.holder = .preparing q)
    (beside : List String) :
    ({ p with holder := .preparing { q with beside := beside } } : Serving).OneUnresolved where
  executing _ holds' := by cases holds'
  ready q' holds' stage := by
    obtain rfl := Holder.preparing.inj holds'
    exact held.ready q holds stage
  superseding q' settling holds' stage := by
    obtain rfl := Holder.preparing.inj holds'
    exact held.superseding q settling holds stage
  alone := held.alone

theorem TxAccounted.setBeside (held : TxAccounted p started resolved)
    (holds : p.holder = .preparing q) (beside : List String) :
    TxAccounted { p with holder := .preparing { q with beside := beside } } started resolved := by
  have same : ({ p with holder := .preparing { q with beside := beside } } :
      Serving).inFlight = p.inFlight :=
    inFlight_congr (by rw [holds]; rfl) rfl
  exact
    { one := held.one.setBeside holds beside
      issued := held.issued
      distinct := held.distinct
      account := by rw [same]; exact held.account
      apart := by rw [same]; exact held.apart
      once := held.once }

theorem BesideKept.onProbation (slots : SlotsKept p r started resolved)
    (notBuilt : q.builtOnRecord = false) :
    BesideKept { p with holder := .preparing { q with
      beside := (p.pending.rows.filter PendingTx.ownership).map
        PendingTx.id } } r where
  known q' holds' id member := by
    obtain rfl := Holder.preparing.inj holds'
    obtain ⟨t, isRow, rfl⟩ := mem_map.mp member
    exact slots.pending t.id t (KeyedTable.find_of_mem (mem_filter.mp isRow).1)
  all q' holds' _ id t found ofPolicy := by
    obtain rfl := Holder.preparing.inj holds'
    exact mem_policyIDs found ofPolicy
  policy q' holds' id member t found := by
    obtain rfl := Holder.preparing.inj holds'
    exact policy_of_mem_policyIDs member found
  ready q' holds' _ onRecord := by
    obtain rfl := Holder.preparing.inj holds'
    rw [notBuilt] at onRecord
    cases onRecord
  executing _ holds' := by cases holds'

theorem Recording.Kept.step_onProbation (held : s.Kept)
    (stepped : s.step M platform .onProbation = some s') : s'.Kept := by
  simp only [step] at stepped
  split at stepped
  · rename_i q holds
    split at stepped
    · rename_i guards
      cases stepped
      have after : s.records.KeptAfter (.preparing q) := Records.keptAfter_same held (by rw [holds])
      exact
        { accounted := held.accounted.setBeside holds _
          slots := held.slots.keep rfl
            (fun _ t found => ⟨t, found, rfl, fun settled _ => .inl settled⟩)
            (fun _ _ isPending => isPending)
            (fun _ executes => by cases executes) (fun _ same => same)
            fun _ same => same
          beside := .onProbation held.slots guards.2.1
          carries := after.carries
          records := after.kept }
    · cases stepped
  · cases stepped

theorem Recording.Kept.step_settleRecord (held : s.Kept)
    (stepped : s.step M platform (.settleRecord id) = some s') : s'.Kept := by
  -- what carries a record is the one pending transaction
  have alone : ∀ t, s.serving.pending.find id = some t →
      ∀ other k, s.records.Carries other k → other = id := by
    intro t found other k carries
    cases atOther : s.serving.pending.find other with
    | none => exact absurd atOther (held.slots.isPending other carries.isOpen)
    | some u => exact held.accounted.one.alone other id u t atOther found
  have settle : ∀ (t : PendingTx) (commit : Bool), s.serving.pending.find id = some t →
      (commit = true → t.phase = .settled) →
      Kept { s with records := s.records.settleRecord id commit } := by
    intro t commit found settled
    refine
      { accounted := held.accounted
        slots := held.slots.settleRecord found settled
        beside := held.beside.mono ?_
        carries := ?_
        records := held.records.settleRecord (alone t found) }
    · intro other known
      rw [Records.stateOf_settleRecord]
      split
      · simp
      · exact known
    · rw [(Records.ended_settleRecord s.records id commit).2.2]
      exact held.carries
  simp only [step] at stepped
  split at stepped
  · rename_i t found
    split at stepped
    · rename_i settled
      cases stepped
      exact settle t true found fun _ => settled
    · cases stepped
      exact settle t false found (by simp)
    · cases stepped
  · cases stepped

theorem Records.stateOf_recordUnchanged (r : Records) (builtOnRecord : Bool)
    (beside : List String) (id : String) :
    (r.recordUnchanged builtOnRecord beside).stateOf id = r.stateOf id := by
  have shape := Records.unchanged_recordUnchanged r builtOnRecord beside
  generalize r.recordUnchanged builtOnRecord beside = next at shape ⊢
  cases shape with
  | dropped | ran => rfl
  | taken _ => exact Records.stateOf_takePlaces _ _ _ _

theorem Records.carries_recordUnchanged {builtOnRecord : Bool} {beside : List String} {k : Nat}
    (carried : (r.recordUnchanged builtOnRecord beside).Carries id k) :
    r.Carries id k ∨ id ∈ beside := by
  have shape := Records.unchanged_recordUnchanged r builtOnRecord beside
  generalize r.recordUnchanged builtOnRecord beside = next at shape carried
  cases shape with
  | dropped | ran => exact .inl carried
  | taken _ =>
    rcases Records.carries_takePlaces carried with old | ⟨_, taken, _⟩
    · exact .inl old
    · exact .inr (mem_filter.mp taken).1

theorem SlotsKept.unchanged
    (held : SlotsKept p r started resolved) (beside : BesideKept p r)
    (holds : p.holder = .preparing q) :
    SlotsKept { p with holder := .free }
      ((r.recordUnchanged q.builtOnRecord q.beside).close q .unchanged) started
      resolved := by
  have sameState : ∀ id, ((r.recordUnchanged q.builtOnRecord q.beside).close q
      .unchanged).stateOf id = r.stateOf id := by
    intro id
    rw [← r.stateOf_recordUnchanged q.builtOnRecord q.beside, Records.stateOf,
      Records.stateOf, Records.close_slots]
  constructor
  · intro id t found
    rw [sameState]
    exact held.pending id t found
  · intro id isOpen
    rw [sameState] at isOpen
    exact held.isPending id isOpen
  · intro id k t carried found
    rcases Records.carries_recordUnchanged ((Records.carries_congr
      (Records.close_slots _ _ _)).mp carried) with old | taken
    · exact held.policy id k t old found
    · exact beside.policy q holds id taken t found
  · intro id t isOpen found
    rw [sameState] at isOpen
    exact held.settled id t isOpen found
  · intro id committed
    rw [Records.HasCommitted, sameState] at committed
    exact held.committed id committed
  · intro id known
    rw [sameState] at known
    exact held.issued id known
  · intro x holds
    cases holds

theorem Recording.Kept.step_unchanged (held : s.Kept)
    (stepped : s.step M platform .unchanged = some s') : s'.Kept := by
  simp only [step] at stepped
  split at stepped
  · rename_i q holds
    split at stepped
    · rename_i guards
      cases stepped
      have one := held.accounted.one
      have isPolicy : s.serving.holder.policy = true := by
        rw [holds]
        exact guards.1
      have moves : s.serving.Moves M platform s.world .giveUp s.world
          { s.serving with holder := .free } := .giveUp holds
      have accounted := held.accounted.step moves
        (.idle rfl rfl (congrArg Holder.executes holds) rfl rfl rfl)
      -- the one transaction that is pending carries what is carried
      have beside : ∀ id k, s.records.Carries id k → id ∈ q.beside := by
        intro id k carried
        cases found : s.serving.pending.find id with
        | none => exact absurd found (held.slots.isPending id carried.isOpen)
        | some t =>
          exact held.beside.all q holds guards.1 id t found (held.slots.policy id k t carried found)
      have alone : ∀ id other, s.records.stateOf id = some .recOpen →
          s.records.stateOf other = some .recOpen → id = other := by
        intro id other isOpen otherOpen
        obtain ⟨t, found⟩ := Option.ne_none_iff_exists'.mp (held.slots.isPending id isOpen)
        obtain ⟨u, foundOther⟩ := Option.ne_none_iff_exists'.mp
          (held.slots.isPending other otherOpen)
        exact one.alone id other t u found foundOther
      have kept := (held.records.imp fun _ => isPolicy).unchanged guards.1
        (held.beside.known q holds) beside alone
      have after := Records.KeptAfter.freed guards.1 kept
      exact
        { accounted := by simpa [starts, resolves] using accounted
          slots := held.slots.unchanged held.beside holds
          beside := .of_free rfl
          carries := after.carries
          records := after.kept }
    · cases stepped
  · cases stepped

theorem Recording.Kept.step {e : RecordEvent} (held : s.Kept)
    (stepped : (recording M platform).step s e = some s') : s'.Kept := by
  simp only [recording] at stepped
  cases e with
  | serving e => exact held.step_serving stepped
  | onProbation => exact held.step_onProbation stepped
  | setOnCommit => exact held.step_setOnCommit stepped
  | unchanged => exact held.step_unchanged stepped
  | settleRecord id => exact held.step_settleRecord stepped

theorem Recording.Kept.committed (held : s.Kept)
    (committed : s.records.HasCommitted id) : Committed s.resolved id := by
  have isResolved := held.slots.committed id committed
  refine ⟨isResolved, fun rolledBack => ?_⟩
  have same := inj_on_of_nodup_map held.accounted.once isResolved rolledBack rfl
  cases same

theorem Recording.Kept.follows (held : s.Kept) : s.Follows where
  once := held.records.sorted.imp Nat.ne_of_lt
  order := held.records.sorted
  stands a isEnded ran := by
    obtain ⟨b, member, sameNumber, stands⟩ := held.records.stands a.number ran
    obtain rfl := inj_on_of_nodup_map held.records.distinct member isEnded sameNumber
    exact stands.mono fun _ => held.committed
  ended k ran := by
    obtain ⟨a, member, isNumber, _⟩ := held.records.stands k ran
    exact ⟨a, member, isNumber⟩

/-- In every state of every run of a process, the records that have run are
those of changes that stand, each run once and in the order in which their
applies took the lock. -/
theorem records_follow_kernel {w : World} {es : List RecordEvent} {s : Recording}
    (ran : (recording M platform).run { world := w } es = some s) :
    s.Follows := by
  have always : (recording M platform).Along (fun _ _ => True) { world := w }
      es := .of_forall (by simp) _
  refine Kept.follows ?_
  refine Machine.invariant Kept ?_ (.start w) always ran
  intro s e next held _ stepped
  exact held.step stepped

-- Three applies: one on probation, one that changes nothing, one unguarded.
namespace RecordedApplies

def world : World :=
  { kernel := NextHopChange.kernel
    owned := Ownership.after [.put NextHopChange.old]
    journal := .empty }

def planned (unguarded builtOnRecord : Bool) (desired : List ManagedRoute) : List RecordEvent :=
  [.serving (.lockApply false unguarded builtOnRecord), .serving (.prepare (.readOwned false)),
    .serving (.prepare (.build desired [])), .setOnCommit,
    .serving (.prepare (.readRoutes .v4 false)),
    .serving (.prepare (.plan (fun _ => false) false))]

def execution : List RecordEvent :=
  [.serving (.prepare .superseded), .serving (.journal false),
    .serving (.execute (.exec none)), .serving (.execute .executed),
    .serving (.execute (.record false)), .serving (.finish false)]

/-- The first apply goes on probation, and the second changes nothing. -/
def beside : List RecordEvent :=
  planned false false [NextHopChange.old, FailedRollback.added] ++
    [.serving (.prepare .supersede)] ++ execution ++
    planned false false [NextHopChange.old, FailedRollback.added] ++
    [.unchanged]

/-- The third one settles the first. -/
def third : List RecordEvent :=
  planned true false [NextHopChange.old] ++ [.serving (.prepare .supersede), .serving .ask,
      .serving (.resolver (txID 1) .takeDecision),
      .serving (.resolver (txID 1) (.commit false)),
      .settleRecord (txID 1), .serving (.finishTx (txID 1)),
      .serving .await] ++ execution

end RecordedApplies

/-- The second apply's record runs in the place of the first one's, and the
third one's after it. -/
theorem unchanged_takes_place : ∃ s, (recording Matching.exact "linux").run
        { world := RecordedApplies.world }
        (RecordedApplies.beside ++ RecordedApplies.third) = some s ∧
      s.records.ran = [2, 3] ∧ s.Follows := by
  obtain ⟨s, ran, inOrder⟩ : ∃ s, (recording Matching.exact "linux").run
          { world := RecordedApplies.world }
          (RecordedApplies.beside ++ RecordedApplies.third) = some s ∧
        s.records.ran = [2, 3] :=
    ⟨_, rfl, by decide⟩
  exact ⟨s, ran, inOrder, records_follow_kernel ran⟩

end RiftRoute
