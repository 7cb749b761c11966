/-
Module: RiftRoute.Safety.PanicRuns
Purpose: What a restart does after a panic: the entries a run leaves are
  harmless as long as a policy transaction's rollback fails in deletes only.
Trusted boundary: none
Main exports: PanicSettles, PanicSafe
-/
import RiftRoute.Safety.JournalRuns

namespace RiftRoute

open List Serving KeyedTable

variable {M : Matching} {platform : String}

/-! ### Harmless entries -/

def Effect.isAdd : Effect → Bool
  | .addRoute _ => true
  | .addRule _ => true
  | _ => false

def Effect.isManagedAdd : Effect → Bool
  | .addRoute mr => (installed mr).owner = .riftRoute
  | .addRule _ => true
  | _ => false

/-- Undoing the entry adds nothing of RiftRoute's and records nothing. -/
structure Harmless (id : String) (plan : Plan) : Prop where
  kernel : ∀ e ∈ effects (withoutTunnelLinks plan.inverse), e.isManagedAdd = false
  records : hasPrefix id routeOpTxPrefix ∨ ∀ r, .delRoute r ∉ effects plan.ops

/-- Nothing of RiftRoute's is in the kernel or recorded that was not before. -/
structure NothingAdded (before after : World) : Prop where
  routes : ∀ dst entry, after.kernel.routes.find dst = some entry →
    entry.owner = .riftRoute → before.kernel.routes.find dst = some entry
  rules : ∀ key rule, after.kernel.rules.find key = some rule →
    before.kernel.rules.find key = some rule
  owned : ∀ r ∈ after.owned.listOwned, r ∈ before.owned.listOwned

theorem NothingAdded.refl (w : World) : NothingAdded w w where
  routes _ _ found _ := found
  rules _ _ found := found
  owned _ listed := listed

theorem NothingAdded.trans {first second third : World}
    (early : NothingAdded first second) (late : NothingAdded second third) :
    NothingAdded first third where
  routes dst entry found ours := early.routes dst entry (late.routes dst entry found ours) ours
  rules key rule found := early.rules key rule (late.rules key rule found)
  owned r listed := early.owned r (late.owned r listed)

theorem nothingAdded_apply {w : World} {e : Effect} (harmless : e.isManagedAdd = false) :
    NothingAdded w { w with kernel := w.kernel.apply M e } := by
  refine ⟨?_, ?_, fun _ listed => listed⟩
  · intro dst entry found ours
    cases e with
    | addRoute mr =>
      have inserted : (w.kernel.routes.insertNew (installed mr)).find dst = some entry := found
      rw [find_insertNew] at inserted
      split at inserted
      · rename_i here
        cases held : w.kernel.routes.find dst with
        | some old =>
          rw [held] at inserted
          exact inserted
        | none =>
          rw [held] at inserted
          obtain rfl := Option.some.inj inserted
          simp [Effect.isManagedAdd, ours] at harmless
      · exact inserted
    | delRoute mr =>
      have deleted : (w.kernel.delRoute M mr).routes.find dst = some entry := found
      rw [Kernel.find_delRoute] at deleted
      split at deleted
      · exact (Option.filter_eq_some_iff.mp deleted).1
      · exact deleted
    | addRule | delRule => exact found
  · intro key rule found
    cases e with
    | addRoute | delRoute => exact found
    | addRule mr => simp [Effect.isManagedAdd] at harmless
    | delRule mr =>
      have deleted : (w.kernel.rules.erase mr.key).find key = some rule := found
      rw [find_erase] at deleted
      split at deleted
      · cases deleted
      exact deleted

theorem nothingAdded_runOps (w : World) (faults : Faults)
    {ops : List PlanOp} (harmless : ∀ e ∈ effects ops, e.isManagedAdd = false) :
    NothingAdded w
      { w with
        kernel := (Executor.runOps M faults ops
          { kernel := w.kernel }).2.kernel } := by
  have onward : ∀ (ops : List PlanOp) (h : Host), (∀ e ∈ effects ops, e.isManagedAdd = false) →
      NothingAdded { w with kernel := h.kernel }
        { w with
          kernel := (ops.foldl (fun h op => (h.doOp M faults op).2) h).kernel } := by
    intro ops
    induction ops with
    | nil => exact fun _ _ => .refl _
    | cons op ops ih =>
      intro h harmless
      have rest := ih (h.doOp M faults op).2 fun e member =>
        harmless e ((effects_sublist (sublist_cons_self op ops)).subset member)
      refine NothingAdded.trans ?_ rest
      cases outcome : doOp M (faults h.tried) h.kernel op with
      | error err =>
        simp only [Host.doOp, outcome]
        exact .refl _
      | ok kernel =>
        obtain ⟨e, effect, rfl⟩ := doOp_ok outcome
        simp only [Host.doOp, outcome]
        exact nothingAdded_apply (w := { w with kernel := h.kernel })
          (harmless e (mem_filterMap.mpr ⟨op, by simp, effect⟩))
  rw [Executor.runOps_host]
  exact onward ops { kernel := w.kernel } harmless

theorem nothingAdded_forget (w : World) (rs : List Effect) (forgets : ∀ r, .addRoute r ∉ rs) :
    NothingAdded w { w with owned := w.owned.record rs } := by
  refine ⟨fun _ _ found _ => found, fun _ _ found => found, ?_⟩
  intro r listed
  rw [Ownership.mem_listOwned] at listed ⊢
  rw [Ownership.docAt_record] at listed
  cases last : (ownershipCells.opsAt (ownKey r) rs).getLast? with
  | none =>
    rw [last] at listed
    exact listed
  | some e =>
    rw [last] at listed
    have member : e ∈ rs := mem_of_mem_filter (mem_of_getLast? last)
    cases e with
    | addRoute mr => exact absurd member (forgets mr)
    | delRoute | addRule | delRule => cases listed

theorem nothingAdded_recoverEntry (w : World) (faults : Faults) {id : String}
    {plan : Plan} (harmless : Harmless id plan) :
    NothingAdded w (recoverEntry M faults w id plan) := by
  refine (nothingAdded_runOps (M := M) w faults harmless.kernel).trans ?_
  cases isRouteOp : hasPrefix id routeOpTxPrefix with
  | true =>
    simp only [recoverEntry, isRouteOp, if_true]
    exact ⟨fun _ _ found _ => found, fun _ _ found => found, fun _ listed => listed⟩
  | false =>
    have forgets : ∀ r, .addRoute r ∉ (effects plan.ops).map Effect.inverse := by
      intro r member
      obtain ⟨e, inOps, inverse⟩ := mem_map.mp member
      rcases harmless.records with routeOp | noDeletes
      · rw [isRouteOp] at routeOp
        cases routeOp
      · have isDelete : e = .delRoute r := by
          rw [← e.inverse_inverse, inverse]
          rfl
        exact noDeletes r (isDelete ▸ inOps)
    have forgot := nothingAdded_forget
      { w with
        kernel := (Executor.runOps M faults (withoutTunnelLinks plan.inverse)
          { kernel := w.kernel }).2.kernel } _ forgets
    simp only [recoverEntry, isRouteOp, Bool.false_eq_true, if_false, applyOwnership_undo]
    exact ⟨forgot.routes, forgot.rules, forgot.owned⟩

theorem nothingAdded_recoverPending {faults : String → Faults} {visited : List (String × Plan)}
    (harmless : ∀ entry ∈ visited, Harmless entry.1 entry.2) (w : World) :
    NothingAdded w (recoverPending M faults visited w) := by
  induction visited generalizing w with
  | nil => exact .refl w
  | cons entry visited ih =>
    refine (nothingAdded_recoverEntry (M := M) w (faults entry.1)
      (harmless entry mem_cons_self)).trans ?_
    exact ih (fun other member =>
      harmless other (mem_cons_of_mem _ member)) _

/-! ### Route operations are external -/

/-- Undoing the plan adds no route or rule of RiftRoute's. -/
def ExternalUndo (plan : Plan) : Prop := ∀ e ∈ effects plan.inverse, e.isManagedAdd = false

theorem isManagedAdd_external {r : Route} (external : r.owner ≠ .riftRoute) :
    (Effect.addRoute { route := r }).isManagedAdd = false := by
  have unset : (if r.owner = .unset then Owner.system else r.owner) ≠ .riftRoute := by
    split
    · exact Owner.noConfusion
    · exact external
  simpa [Effect.isManagedAdd, installed] using unset

theorem externalUndo_routeOpPlan {old : Route}
    (external : old.owner ≠ .riftRoute) (updated : Option Route)
    (platform : String) : ExternalUndo (routeOpPlan old updated platform) := by
  have putBack := isManagedAdd_external external
  cases updated with
  | none =>
    intro e member
    have only : e ∈ [Effect.addRoute { route := old }] := member
    rw [mem_singleton.mp only]
    exact putBack
  | some updated =>
    intro e member
    have either : e ∈ [Effect.delRoute { route := updated },
        Effect.addRoute { route := old }] := member
    rcases mem_cons.mp either with rfl | only
    · rfl
    · rw [mem_singleton.mp only]
      exact putBack

/-- A route operation that is being prepared. -/
structure Prepare.External (q : Prepare) : Prop where
  undo : ExternalUndo q.plan
  alone : q.beside = []
  late : q.stage ≠ .locked ∧ q.stage ≠ .read ∧ q.stage ≠ .built

theorem Prepare.External.step {w : World} {pending : Pending} {q q' : Prepare}
    {e : PrepareEvent} (external : q.External)
    (stepped : q.step platform w pending e = some q') : q'.External := by
  obtain ⟨undo, alone, notLocked, notRead, notBuilt⟩ := external
  cases e with
  | supersede =>
    simp only [Prepare.step] at stepped
    split at stepped
    · cases stepped
      exact ⟨undo, alone, by simp⟩
    · cases stepped
  | superseded =>
    simp only [Prepare.step] at stepped
    split at stepped
    · split at stepped
      · rename_i beside
        exact absurd alone beside.1
      · cases stepped
        exact ⟨undo, alone, by simp⟩
    · cases stepped
  | readOwned fails => simp [Prepare.step, notLocked] at stepped
  | build desired desiredRules => simp [Prepare.step, notRead] at stepped
  | readRoutes | readRules | plan => simp [Prepare.step, notBuilt] at stepped

/-- Every route operation of the process is external. -/
structure RouteOpsExternal (p : Serving) : Prop where
  preparing : ∀ q, p.holder = .preparing q → q.ownership = false → q.External
  live : ∀ id plan, p.Live id plan false → ExternalUndo plan ∧ hasPrefix id routeOpTxPrefix

variable {e : Event} {p : Serving}

theorem RouteOpsExternal.step {w w' : World} {p' : Serving}
    (held : RouteOpsExternal p) (moves : p.Moves M platform w e w' p') :
    RouteOpsExternal p' := by
  constructor
  · intro q' holds notOwned
    cases preparedBy_of_moves moves holds with
    | same wasPreparing => exact held.preparing q' wasPreparing notOwned
    | locked policy _ =>
      rw [policy] at notOwned
      cases notOwned
    | routeOp old updated external plan alone stage =>
      refine ⟨?_, alone, by simp [stage]⟩
      rw [plan]
      exact externalUndo_routeOpPlan external updated platform
    | stepped _ wasPreparing stepped =>
      rw [Prepare.step_ownership stepped] at notOwned
      exact (held.preparing _ wasPreparing notOwned).step stepped
    | settled wasPreparing _ _ =>
      have external := held.preparing _ wasPreparing notOwned
      exact ⟨external.undo, external.alone, by simp⟩
  · intro id plan live
    rcases live_of_moves moves live with old | ⟨_, starts⟩
    · exact held.live id plan old
    · obtain ⟨⟨q, holds, _, rfl, notOwned⟩, rfl⟩ := starts
      exact ⟨(held.preparing q holds notOwned).undo, isRouteOp_routeOpTxID _⟩

/-! ### What a panic leaves in the journal -/

/-- A policy transaction that is not settled. -/
inductive Serving.Unsettled (p : Serving) (id : String) : Prop where
  | executing (x : Execution) (holds : p.holder = .executing x)
      (idIs : x.id = id) (policy : x.prepared.ownership = true)
  | pending (t : PendingTx) (found : p.pending.find id = some t)
      (policy : t.ownership = true) (unsettled : t.phase ≠ .settled)

/-- Every entry is harmless, or that of an unsettled policy transaction. -/
def EntriesHarmless (journal : Journal) (p : Serving) : Prop :=
  ∀ id plan, (id, plan) ∈ journal.listPendingTx → Harmless id plan ∨ p.Unsettled id

/-- A panic waits for every policy transaction on probation. -/
def PanicSettles (p : Serving) : Prop :=
  ∀ settling, p.holder = .panicking settling → ∀ id t,
    p.pending.find id = some t → t.ownership = true → id ∈ settling.ids

/-- What failed of a policy transaction's rollback are deletes. -/
def PendingTx.LeavesDeletes (t : PendingTx) : Prop :=
  ∀ todo left recording, t.phase = .rollingBack todo left recording →
    t.ownership = true → ∀ op ∈ left, ∀ e, op.effect = some e → e.isAdd = false

def Event.journalFails : Event → Bool
  | .journal fails => fails
  | .undone fails => fails
  | .finish fails => fails
  | .resolver _ (.commit fails) => fails
  | .resolver _ (.rollbackEnd fails) => fails
  | _ => false

/-- A step in which the store works and, if an operation of a policy
transaction's rollback fails, it is a delete. -/
structure FailsInDeletes (M : Matching) (s : State) (e : Event) : Prop where
  stored : e.journalFails = false
  deletes : ∀ p id fault t op todo left err,
    s.process = .serving p → e = .resolver id (.rollbackOp fault) →
    p.pending.find id = some t → t.ownership = true →
    t.phase = .rollingBack (op :: todo) left none →
    doOp M fault s.world.kernel op = .error err →
    ∀ e, op.effect = some e → e.isAdd = false

/-- What such steps preserve while the process serves. -/
structure PanicSafe (journal : Journal) (p : Serving) : Prop where
  one : p.OneUnresolved
  external : RouteOpsExternal p
  replays : p.EachPending PendingTx.Replays
  deletes : p.EachPending PendingTx.LeavesDeletes
  settles : PanicSettles p
  entries : EntriesHarmless journal p

theorem leavesDeletes_step {s : State} {w' : World} {p' : Serving}
    (held : p.EachPending PendingTx.LeavesDeletes)
    (serves : s.process = .serving p)
    (moves : p.Moves M platform s.world e w' p') (ok : FailsInDeletes M s e) :
    p'.EachPending PendingTx.LeavesDeletes := by
  refine held.step moves ?_ ?_ ?_
  · intro t t' _ _ sameOwnership samePhase deletes todo left recording phase policy
    exact deletes todo left recording (samePhase ▸ phase) (sameOwnership ▸ policy)
  · intro x todo left recording phase
    cases phase
  · intro id t t' r isEvent found resolves deletes todo left recording phase policy op member
    cases resolves with
    | commitTaken | commit | complete | incomplete => cases phase
    | rollbackTaken _ =>
      cases phase
      exact absurd member not_mem_nil
    | opDone _ replays _ =>
      cases phase
      exact deletes _ _ _ replays policy op member
    | opFailed fault replays failed =>
      cases phase
      rcases mem_append.mp member with earlier | now
      · exact deletes _ _ _ replays policy op earlier
      · rw [mem_singleton.mp now]
        exact ok.deletes p id fault t _ _ _ _ serves isEvent found policy replays failed
    | record _ records =>
      cases phase
      exact deletes _ _ _ records policy op member

theorem PanicSettles.step {w w' : World} {p' : Serving}
    (held : PanicSettles p) (moves : p.Moves M platform w e w' p') :
    PanicSettles p' := by
  intro settling' holds id t found policy
  -- nothing gets pending while a panic holds the lock
  have earlier : ∃ before, p.pending.find id = some before ∧ before.ownership = true := by
    rcases pending_of_moves moves found with
      ⟨before, atId, _, sameOwnership⟩ | ⟨freed, _⟩
    · exact ⟨before, atId, sameOwnership ▸ policy⟩
    · rw [holds] at freed
      cases freed
  obtain ⟨before, atId, wasPolicy⟩ := earlier
  -- the transactions the panic waits for, before and after
  have waited : ∀ {settling next : Settling}, p.holder.settling = some settling →
      p.holder.settle next = .panicking settling' →
      id ∈ settling.ids ∧ settling' = next := by
    intro settling next waits settled
    cases holder : p.holder with
    | free | executing => simp [Holder.settling, holder] at waits
    | preparing q => simp [Holder.settle, holder] at settled
    | panicking now =>
      rw [holder] at waits settled
      obtain rfl := Option.some.inj waits
      exact ⟨held now holder id before atId wasPolicy, (Holder.panicking.inj settled).symm⟩
  cases moves with
  | panicLock _ =>
    obtain rfl := Holder.panicking.inj holds
    have keyEq : before.id = id := key_of_find atId
    rw [← keyEq]
    exact mem_map_of_mem (mem_filter.mpr ⟨mem_of_find atId, wasPolicy⟩)
  | ask waits =>
    obtain ⟨listed, rfl⟩ := waited waits holds
    exact listed
  | await waits gone =>
    obtain ⟨listed, rfl⟩ := waited waits holds
    rcases mem_cons.mp listed with rfl | later
    · rw [gone] at atId
      cases atId
    · exact later
  | panicStart | decide | resolver | finishTx => exact held settling' holds id before atId wasPolicy
  | lockApply | lockRouteOp | prepare | giveUp | journal | execute | undone | finishUnguarded
  | finishGuarded | panicFlush => cases holds

theorem isManagedAdd_of_not_add {e : Effect} (noAdd : e.isAdd = false) :
    e.isManagedAdd = false := by
  cases e with
  | addRoute | addRule => cases noAdd
  | delRoute | delRule => rfl

theorem harmless_external {id : String} {plan : Plan}
    (undo : ExternalUndo plan) (routeOp : hasPrefix id routeOpTxPrefix) :
    Harmless id plan where
  kernel e member := undo e (effects_subset (filter_subset_self _) member)
  records := .inl routeOp

theorem harmless_leftPlan {journal : Journal} {t : PendingTx}
    {left : List PlanOp} (held : PanicSafe journal p)
    (found : p.pending.find t.id = some t)
    (ends : t.phase = .rollingBack [] left none) :
    Harmless t.id (leftPlan left) := by
  cases policy : t.ownership with
  | false =>
    obtain ⟨undo, routeOp⟩ := held.external.live t.id t.plan (.pending t found rfl policy)
    refine harmless_external ?_ routeOp
    intro e member
    apply undo e
    refine effects_subset ?_ member
    intro op inLeft
    have replayed := held.replays t.id t found _ _ _ ends op (mem_append_left _ inLeft)
    exact mem_of_mem_filter replayed
  | true =>
    have noAdds : ∀ e ∈ effects left, e.isAdd = false := by
      intro e member
      obtain ⟨op, inLeft, effect⟩ := mem_filterMap.mp member
      exact held.deletes t.id t found _ _ _ ends policy op inLeft e effect
    constructor
    · intro e member
      exact isManagedAdd_of_not_add (noAdds e (effects_subset (filter_subset_self _) member))
    · refine .inr ?_
      intro r member
      have undo : .delRoute r ∈ (effects left).reverse.map Effect.inverse := by
        rw [← effects_reverse_inverseOp]
        exact member
      obtain ⟨e, inLeft, inverse⟩ := mem_map.mp undo
      have isAdd : e = .addRoute r := by
        rw [← e.inverse_inverse, inverse]
        rfl
      have noAdd := noAdds e (mem_reverse.mp inLeft)
      rw [isAdd] at noAdd
      cases noAdd

/-! ### Entries stay harmless -/

section Entries

variable {w w' : World} {p p' : Serving} {id : String}

theorem Serving.Unsettled.idle (unsettled : p.Unsettled id)
    (notExecuting : ∀ x, p.holder ≠ .executing x)
    (samePending : p'.pending = p.pending) : p'.Unsettled id := by
  cases unsettled with
  | executing x holds => exact absurd holds (notExecuting x)
  | pending t found policy phase =>
    exact .pending t (samePending ▸ found) policy phase

theorem Serving.Unsettled.onward (unsettled : p.Unsettled id)
    (executing : ∀ x, p.holder = .executing x → ∃ x', p'.holder = .executing x' ∧ x'.id = x.id ∧
        x'.prepared.ownership = x.prepared.ownership)
    (still : ∀ t, p.pending.find id = some t → t.phase ≠ .settled →
      ∃ t', p'.pending.find id = some t' ∧ t'.ownership = t.ownership ∧
        t'.phase ≠ .settled) : p'.Unsettled id := by
  cases unsettled with
  | executing x holds idIs policy =>
    obtain ⟨x', holds', sameId, sameOwnership⟩ := executing x holds
    exact .executing x' holds' (sameId.trans idIs) (sameOwnership.trans policy)
  | pending t found policy phase =>
    obtain ⟨t', found', sameOwnership, phase'⟩ := still t found phase
    exact .pending t' found' (sameOwnership.trans policy) phase'

variable {x : Execution}

theorem Serving.Unsettled.eq_of_executing (unsettled : p.Unsettled id) (one : p.OneUnresolved)
    (holds : p.holder = .executing x) :
    x.id = id ∧ x.prepared.ownership = true := by
  cases unsettled with
  | executing y holds' idIs policy =>
    obtain rfl := Holder.executing.inj (holds.symm.trans holds')
    exact ⟨idIs, policy⟩
  | pending t found _ _ =>
    rw [one.executing x holds id] at found
    cases found

theorem Pending.find_decide_unsettled {pending : Pending} (other : String)
    (decision : Decision) {t : PendingTx} (found : pending.find id = some t)
    (phase : t.phase ≠ .settled) :
    ∃ t', (pending.decide other decision).find id = some t' ∧
      t'.ownership = t.ownership ∧ t'.phase ≠ .settled := by
  obtain ⟨t', found', sameOwnership, samePhase⟩ := Pending.find_decide_some other decision found
  exact ⟨t', found', sameOwnership, samePhase ▸ phase⟩

theorem Serving.find_put_unsettled {t t' u : PendingTx} (sameId : t'.id = t.id) (apart : t.id ≠ id)
    (found : p.pending.find id = some u) :
    (p.pending.put t').find id = some u := by
  rw [find_put, if_neg (sameId ▸ apart), found]

namespace EntriesHarmless

theorem step_resolver {t t' : PendingTx} {r : ResolveEvent}
    (held : PanicSafe w.journal p) (found : p.pending.find t.id = some t)
    (stepped : t.step M w r = some (w', t'))
    (stored : (Event.resolver t.id r).journalFails = false) :
    EntriesHarmless w'.journal { p with pending := p.pending.put t' } := by
  obtain ⟨sameId, _, sameOwnership⟩ := PendingTx.step_keeps stepped
  intro id plan listed
  -- a step that leaves the transaction unsettled
  have goesOn : w'.journal = w.journal → t'.phase ≠ .settled → Harmless id plan ∨
        { p with pending := p.pending.put t' : Serving }.Unsettled id := by
    intro sameJournal unsettled
    rw [sameJournal] at listed
    refine (held.entries id plan listed).imp_right fun before => ?_
    refine before.onward (fun x holds => ⟨x, holds, rfl, rfl⟩) ?_
    intro u atId phase
    by_cases here : t.id = id
    · subst here
      obtain rfl := Option.some.inj (found.symm.trans atId)
      refine ⟨t', ?_, sameOwnership, unsettled⟩
      rw [find_put, if_pos sameId]
    · exact ⟨u, find_put_unsettled sameId here atId, rfl, phase⟩
  -- a step that settles it and rewrites its entry
  have others : t.id ≠ id → (id, plan) ∈ w.journal.listPendingTx → Harmless id plan ∨
        { p with pending := p.pending.put t' : Serving }.Unsettled id := by
    intro apart earlier
    refine (held.entries id plan earlier).imp_right fun before => ?_
    refine before.onward (fun x holds => ⟨x, holds, rfl, rfl⟩) ?_
    exact fun u atId phase =>
      ⟨u, find_put_unsettled sameId apart atId, rfl, phase⟩
  cases PendingTx.moves_of_step stepped with
  | commitTaken | rollbackTaken | opDone | opFailed | record =>
    exact goesOn rfl ResolvePhase.noConfusion
  | commit fails _ | complete fails _ =>
    obtain rfl : fails = false := stored
    obtain ⟨apart, earlier⟩ := Journal.mem_listPendingTx_clear.mp listed
    exact others apart earlier
  | incomplete fails _ ends =>
    obtain rfl : fails = false := stored
    rcases Journal.mem_listPendingTx_put.mp listed with
      ⟨rfl, rfl⟩ | ⟨apart, earlier⟩
    · exact .inl (harmless_leftPlan held found ends)
    · exact others apart earlier

theorem step_journal {q : Prepare}
    (held : PanicSafe w.journal p) (holds : p.holder = .preparing q) (prepared : x.prepared = q)
    (issued : x.id = p.nextTxID q.ownership) {idseq : Nat} :
    EntriesHarmless (w.journal.putPendingTx (p.nextTxID q.ownership) q.plan)
      { p with idseq := idseq, holder := .executing x } := by
  intro id plan listed
  rcases Journal.mem_listPendingTx_put.mp listed with ⟨rfl, rfl⟩ | ⟨_, earlier⟩
  · cases policy : q.ownership with
    | true =>
      exact .inr (.executing x rfl (by rw [issued, policy]) (by rw [prepared, policy]))
    | false =>
      have external := held.external.preparing q holds policy
      exact .inl (harmless_external external.undo
        (by simpa [nextTxID] using isRouteOp_routeOpTxID _))
  · refine (held.entries id plan earlier).imp_right fun unsettled => ?_
    cases unsettled with
    | executing x holds' => exact absurd (holds.symm.trans holds') (by simp)
    | pending t found policy phase => exact .pending t found policy phase

theorem step_cleared {holder : Holder}
    (held : PanicSafe w.journal p) (holds : p.holder = .executing x) :
    EntriesHarmless (w.journal.clearPendingTx x.id) { p with holder := holder } := by
  intro id plan cleared
  obtain ⟨apart, earlier⟩ := Journal.mem_listPendingTx_clear.mp cleared
  refine (held.entries id plan earlier).imp_right fun unsettled => ?_
  exact absurd (unsettled.eq_of_executing held.one holds).1 apart

theorem step {e : Event}
    (held : PanicSafe w.journal p) (moves : p.Moves M platform w e w' p')
    (stored : e.journalFails = false) : EntriesHarmless w'.journal p' := by
  -- a step that leaves the journal
  have keep : w'.journal = w.journal → (∀ id, p.Unsettled id → p'.Unsettled id) →
      EntriesHarmless w'.journal p' := by
    intro sameJournal unsettled id plan listed
    rw [sameJournal] at listed
    exact (held.entries id plan listed).imp_right (unsettled id)
  have idle : w'.journal = w.journal → p'.pending = p.pending →
      (∀ x, p.holder ≠ .executing x) → EntriesHarmless w'.journal p' :=
    fun sameJournal samePending notExecuting =>
      keep sameJournal fun _ before => before.idle notExecuting samePending
  cases moves with
  | lockApply _ _ _ _ free | lockRouteOp _ _ _ _ free _ | panicLock free =>
    exact idle rfl rfl (fun x => free ▸ Holder.noConfusion)
  | prepare _ holds _ | giveUp holds =>
    exact idle rfl rfl (fun x => holds ▸ Holder.noConfusion)
  | panicFlush faults flush holds =>
    exact idle (panic_journal M faults flush w) rfl (fun x => holds ▸ Holder.noConfusion)
  | await waits _ =>
    refine idle rfl rfl ?_
    rintro x holds
    rw [holds] at waits
    cases waits
  | ask waits =>
    refine keep rfl fun id before => before.onward ?_ ?_
    · intro x holds
      rw [holds] at waits
      cases waits
    · exact fun t => Pending.find_decide_unsettled _ .commit
  | panicStart =>
    exact keep rfl fun id before =>
      before.onward (fun x holds => ⟨x, holds, rfl, rfl⟩)
        fun t found phase => ⟨t, found, rfl, phase⟩
  | decide other decision =>
    exact keep rfl fun id before =>
      before.onward (fun x holds => ⟨x, holds, rfl, rfl⟩)
        fun t => Pending.find_decide_unsettled other decision
  | finishTx found settled =>
    refine keep rfl fun id before =>
      before.onward (fun x holds => ⟨x, holds, rfl, rfl⟩) ?_
    refine fun t atId phase => ⟨t, ?_, rfl, phase⟩
    rw [find_erase, if_neg, atId]
    rintro rfl
    obtain rfl := Option.some.inj (found.symm.trans atId)
    exact phase settled
  | @execute x x' _ e holds stepped =>
    obtain ⟨samePrepared, sameId, sameJournal⟩ := Execution.step_keeps stepped
    refine keep sameJournal fun id before => before.onward ?_
      fun t found phase => ⟨t, found, rfl, phase⟩
    intro y holds'
    obtain rfl := Holder.executing.inj (holds.symm.trans holds')
    exact ⟨x', rfl, sameId, congrArg Prepare.ownership samePrepared⟩
  | @journal q fails holds ready =>
    obtain rfl : fails = false := stored
    exact step_journal held holds rfl rfl
  | @undone x fails holds | @finishUnguarded x fails holds =>
    obtain rfl : fails = false := stored
    exact step_cleared held holds
  | @finishGuarded x fails holds =>
    refine keep rfl fun id before => ?_
    obtain ⟨idIs, policy⟩ := before.eq_of_executing held.one holds
    refine .pending x.pendingTx ?_ policy ResolvePhase.noConfusion
    exact (find_put _ _ _).trans (if_pos idIs)
  | @resolver other t t' _ r found stepped =>
    have keyEq : t.id = other := key_of_find found
    subst keyEq
    exact step_resolver held found stepped stored

end EntriesHarmless

end Entries

theorem PanicSafe.start {journal : Journal}
    (recovered : journal.listPendingTx = []) : PanicSafe journal {} where
  one := .start
  external := by
    refine ⟨nofun, ?_⟩
    exact fun _ _ live => absurd live not_live_start
  replays _ _ found := by cases found
  deletes _ _ found := by cases found
  settles := nofun
  entries := by
    intro id plan listed
    rw [recovered] at listed
    exact absurd listed not_mem_nil

theorem PanicSafe.step {s : State} {w' : World} {p' : Serving}
    (held : PanicSafe s.world.journal p) (serves : s.process = .serving p)
    (moves : p.Moves M platform s.world e w' p') (ok : FailsInDeletes M s e) :
    PanicSafe w'.journal p' where
  one := held.one.step moves
  external := held.external.step moves
  replays := replays_step held.replays moves
  deletes := leavesDeletes_step held.deletes serves moves ok
  settles := held.settles.step moves
  entries := EntriesHarmless.step held moves ok.stored

theorem panicSafe_of_run {s₀ s : State} {es : List Event} (boots : s₀.process = .booting)
    (along : (protocol M platform).Along (FailsInDeletes M) s₀ es)
    (ran : (protocol M platform).run s₀ es = some s) :
    ∀ p, s.process = .serving p → PanicSafe s.world.journal p := by
  refine Machine.invariant (fun s => ∀ p, s.process = .serving p → PanicSafe s.world.journal p)
    ?_ ?_ along ran
  · intro s e next held ok stepped p' serves'
    rcases State.serving_of_moves (State.moves_of_step stepped) serves' with
      ⟨rfl, sameWorld, recovered⟩ | ⟨p, serves, moves⟩
    · rw [sameWorld]
      exact PanicSafe.start recovered
    · exact (held p serves).step serves moves ok
  · intro p serves
    exact absurd (boots.symm.trans serves) (by simp)

/-- A restart does not undo a panic: after any run from a start of the daemon
in which the store works and a policy transaction's rollback fails in deletes
only, what recovery undoes adds no managed route and no rule and records
none, in whatever order it visits the entries and whatever fails in it. -/
theorem panic_not_undone {s₀ s after : State} {es : List Event}
    {faults : PanicFaults} {flush : Kernel → Kernel}
    (boots : s₀.process = .booting)
    (along : (protocol M platform).Along (FailsInDeletes M) s₀ es)
    (ran : (protocol M platform).run s₀ es = some s)
    (panics : (protocol M platform).step s (.panicFlush faults flush) = some after)
    (visited : List (String × Plan))
    (visits : ∀ entry ∈ visited, entry ∈ after.world.journal.listPendingTx)
    (undoFaults : String → Faults) :
    NothingAdded after.world (recoverPending M undoFaults visited after.world) := by
  refine nothingAdded_recoverPending ?_ after.world
  rintro ⟨id, plan⟩ member
  have listed := visits (id, plan) member
  cases State.moves_of_step panics with
  | @serving p _ _ _ serves moves =>
    have held := panicSafe_of_run boots along ran p serves
    cases moves with
    | panicFlush _ _ holds =>
      rw [panic_journal] at listed
      rcases held.entries id plan listed with harmless | unsettled
      · exact harmless
      -- the panic has waited for every policy transaction
      · cases unsettled with
        | executing x holds' => exact absurd (holds.symm.trans holds') (by simp)
        | pending t found policy _ =>
          exact absurd (held.settles _ holds id t found policy) not_mem_nil

-- A panic after a rollback that did not go through.
namespace PanicAfterRollback

def run (desired : List ManagedRoute) : List Event :=
  FailedRollback.run desired ++ [.panicStart, .panicLock]

end PanicAfterRollback

/-- The delete of a route that was just added is left to the next start. -/
theorem leftover_delete_adds_nothing :
    ∃ s after, (protocol Matching.exact "linux").run FailedRollback.boot (PanicAfterRollback.run
          [NextHopChange.old, FailedRollback.added]) = some s ∧
      (protocol Matching.exact "linux").step s (.panicFlush {} id) = some after ∧
      after.world.journal.listPendingTx ≠ [] ∧
      NothingAdded after.world (recoverPending Matching.exact
        (fun _ => noFaults) after.world.journal.listPendingTx after.world) := by
  have along : (protocol Matching.exact "linux").Along
      (FailsInDeletes Matching.exact) FailedRollback.boot
      (PanicAfterRollback.run [NextHopChange.old, FailedRollback.added]) := by
    iterate 14 refine .cons rfl ⟨rfl, by simp⟩ ?_
    refine .cons rfl ⟨rfl, ?_⟩ ?_
    -- the one call that fails
    · intro p id fault t op todo left err serves isEvent found _ phase _ e effect
      obtain rfl := Process.serving.inj serves
      obtain ⟨rfl, _⟩ := Event.resolver.inj isEvent
      obtain rfl := Option.some.inj found
      obtain ⟨ops, _, _⟩ := ResolvePhase.rollingBack.inj phase
      obtain ⟨rfl, _⟩ := List.cons.inj ops
      obtain rfl := Option.some.inj effect
      rfl
    iterate 4 refine .cons rfl ⟨rfl, by simp⟩ ?_
    trivial
  exact ⟨_, _, rfl, rfl, by decide, panic_not_undone rfl along rfl rfl _ (fun _ member => member) _⟩

/-- A panic that returns no error, after a rollback whose re-add failed: the
next start puts the route back and records it. -/
theorem panic_undone : ∃ s after, (protocol Matching.exact "linux").run FailedRollback.boot
        (PanicAfterRollback.run []) = some s ∧
      (panic Matching.exact {} id s.world).1 = none ∧
      (protocol Matching.exact "linux").step s (.panicFlush {} id) = some after ∧
      after.world.owned.listOwned = [] ∧
      after.world.kernel.hasRoute NextHopChange.old = false ∧
      (recoverPending Matching.exact (fun _ => noFaults)
        after.world.journal.listPendingTx after.world).owned.listOwned = [NextHopChange.old] ∧
      (recoverPending Matching.exact (fun _ => noFaults)
        after.world.journal.listPendingTx after.world).kernel.hasRoute
          NextHopChange.old = true := by
  exact ⟨_, _, rfl, by decide, rfl, by decide, by decide, by decide, by decide⟩

end RiftRoute
