/-
Module: RiftRoute.Safety.Refinement
Purpose: The protocol's small steps against the functions they take apart:
  alone, an execution or a resolver does what the one call does.
Trusted boundary: none
Main exports: executions_run_apply, protocol_run_resolver
-/
import RiftRoute.Safety.Protocol

namespace RiftRoute

open Machine Executor

variable {M : Matching}

/-! ### Executing -/

def executions (M : Matching) : Machine (World × Execution) ExecuteEvent where
  step s e := s.2.step M s.1 e

variable (faults : Faults) (w : World)

theorem executions_run_undo (x : Execution) (ops : List PlanOp) (h : Host) :
    ∃ es, (executions M).run
        ({ w with kernel := h.kernel }, { x with phase := .undoing ops }) es =
      some ({ w with kernel := (ops.foldl (fun h op => (h.doOp M faults op).2) h).kernel },
        { x with phase := .undoing [] }) := by
  refine run_foldl (fun ops (h : Host) =>
    (({ w with kernel := h.kernel } : World), { x with phase := .undoing ops })) _ ?_ ops h
  intro op rest h
  refine ⟨[.undo (faults h.tried)], run_cons.mpr ⟨_, ?_, rfl⟩⟩
  simp only [executions, Execution.step]
  cases outcome : doOp M (faults h.tried) h.kernel op with
  | ok | error => simp [Host.doOp, outcome]

theorem executions_run_applyFrom (x : Execution) (todo applied : List PlanOp) (h : Host) :
    ∃ es, (executions M).run
        ({ w with kernel := h.kernel }, { x with phase := .executing applied todo }) es =
      some ({ w with kernel := (applyFrom M faults applied todo h).2.kernel },
        { x with
          phase :=
            if (applyFrom M faults applied todo h).1 = none then
              .executing (applied ++ todo) []
            else .undoing [] }) := by
  induction todo generalizing applied h with
  | nil => exact ⟨[], by simp [run, applyFrom]⟩
  | cons op todo ih =>
    cases outcome : doOp M (faults h.tried) h.kernel op with
    | ok kernel =>
      obtain ⟨es, rest⟩ := ih (applied ++ [op]) { kernel := kernel, tried := h.tried + 1 }
      refine ⟨.exec (faults h.tried) :: es, run_cons.mpr ⟨_, ?_, rest.trans ?_⟩⟩
      · simp [executions, Execution.step, outcome]
      · simp [applyFrom, Host.doOp, outcome]
    | error err =>
      obtain ⟨es, rest⟩ := executions_run_undo (M := M) faults w x (applied.reverse.map inverseOp)
        { kernel := h.kernel, tried := h.tried + 1 }
      refine ⟨.exec (faults h.tried) :: es, run_cons.mpr ⟨_, ?_, rest.trans ?_⟩⟩
      · simp [executions, Execution.step, outcome]
      · simp [applyFrom, rollback, Host.doOp, outcome]

theorem executions_run_apply (x : Execution)
    (starts : x.phase = .executing [] x.prepared.plan.ops) :
    ∃ es, (executions M).run (w, x) es =
      some ({ w with kernel :=
          (apply M faults x.prepared.plan w.kernel).2.kernel },
        { x with
          phase :=
            if (apply M faults x.prepared.plan w.kernel).1 = none then
              .recording
                (if x.prepared.ownership then x.prepared.plan.ops else [])
            else .undoing [] }) := by
  obtain ⟨es, ran⟩ := executions_run_applyFrom (M := M) faults w x
    x.prepared.plan.ops [] { kernel := w.kernel }
  rw [← starts] at ran
  rw [apply]
  by_cases done : (applyFrom M faults [] x.prepared.plan.ops
      { kernel := w.kernel }).1 = none
  · refine ⟨es ++ [.executed], run_append.mpr ⟨_, ran, ?_⟩⟩
    simp [done, run, executions, Execution.step]
  · refine ⟨es, ran.trans ?_⟩
    simp [done]

theorem executions_run_record (x : Execution) (todo : List PlanOp) :
    ∃ es, (executions M).run (w, { x with phase := .recording todo }) es =
      some ({ w with owned := todo.foldl recordOwnership w.owned },
        { x with phase := .recording [] }) := by
  refine run_foldl (fun todo owned =>
    (({ w with owned := owned } : World), { x with phase := .recording todo })) _ ?_ todo w.owned
  intro op rest owned
  exact ⟨[.record false], by simp [run, executions, Execution.step]⟩

/-! ### Resolving -/

def resolutions (M : Matching) : Machine (World × PendingTx) ResolveEvent where
  step s e := s.2.step M s.1 e

theorem RollBack.err_isSome_iff (ownership : Bool)
    (ops : List PlanOp) (r : RollBack) (agree : r.err.isSome ↔ r.left ≠ []) :
    (ops.foldl (RollBack.step M faults ownership) r).err.isSome ↔
      (ops.foldl (RollBack.step M faults ownership) r).left ≠ [] := by
  induction ops generalizing r with
  | nil => exact agree
  | cons op ops ih =>
    apply ih
    unfold RollBack.step
    split
    · cases r.err <;> simp
    · exact agree

theorem resolutions_run_replay (t : PendingTx) (ops : List PlanOp) (r : RollBack) :
    ∃ es, (resolutions M).run
        ({ w with kernel := r.host.kernel, owned := r.owned },
          { t with phase := .rollingBack ops r.left none }) es =
      some ({ w with
          kernel := (ops.foldl (RollBack.step M faults t.ownership) r).host.kernel
          owned := (ops.foldl (RollBack.step M faults t.ownership) r).owned },
        { t with
          phase := .rollingBack []
            (ops.foldl (RollBack.step M faults t.ownership) r).left none }) := by
  refine run_foldl (fun ops (r : RollBack) =>
    (({ w with kernel := r.host.kernel, owned := r.owned } : World),
      { t with phase := .rollingBack ops r.left none })) _ ?_ ops r
  intro op rest r
  cases outcome : doOp M (faults r.host.tried) r.host.kernel op with
  | error err =>
    refine ⟨[.rollbackOp (faults r.host.tried)], ?_⟩
    simp [run, resolutions, PendingTx.step, RollBack.step, Host.doOp, outcome]
  | ok kernel =>
    -- with ownership, the record follows as a step of its own
    cases owns : t.ownership with
    | false =>
      refine ⟨[.rollbackOp (faults r.host.tried)], ?_⟩
      simp [run, resolutions, PendingTx.step, RollBack.step, Host.doOp, outcome]
    | true =>
      refine ⟨[.rollbackOp (faults r.host.tried), .rollbackRecord false], ?_⟩
      simp [run, resolutions, PendingTx.step, RollBack.step, Host.doOp, outcome]

theorem resolutions_run_rollBack (t : PendingTx)
    {decision : Decision} (waits : t.phase = .probation)
    (decided : t.decided = some decision) (rollsBack : decision ≠ .commit) :
    ∃ es, (resolutions M).run (w, t) es = some (resolveRollback M faults t.id t.plan t.ownership w,
        { t with phase := .settled }) := by
  have taken : (resolutions M).step (w, t) .takeDecision =
      some (w, { t with
        phase := .rollingBack (withoutTunnelLinks t.plan.inverse) [] none }) := by
    cases decision with
    | commit => exact absurd rfl rollsBack
    | _ => simp [resolutions, PendingTx.step, waits, decided]
  obtain ⟨es, replayed⟩ := resolutions_run_replay (M := M) faults w t
    (withoutTunnelLinks t.plan.inverse) { host := { kernel := w.kernel }, owned := w.owned }
  have failed := RollBack.err_isSome_iff (M := M) faults t.ownership
    (withoutTunnelLinks t.plan.inverse)
    { host := { kernel := w.kernel }, owned := w.owned } (by simp)
  rw [resolveRollback]
  generalize rolled : rollBack M faults t.plan t.ownership w.kernel w.owned = result
  rw [rollBack] at rolled
  rw [rolled] at replayed failed
  have ended : (resolutions M).step ({ w with kernel := result.host.kernel, owned := result.owned },
        { t with phase := .rollingBack [] result.left none })
      (.rollbackEnd false) =
        some ({ kernel := result.host.kernel, owned := result.owned
                journal :=
                  if result.err.isSome then
                    w.journal.putPendingTx t.id (leftPlan result.left)
                  else w.journal.clearPendingTx t.id },
          { t with phase := .settled }) := by
    by_cases none : result.left = []
    · have clean := Bool.eq_false_iff.mpr (failed.not.mpr (not_not.mpr none))
      simp [resolutions, PendingTx.step, none, clean]
    · simp [resolutions, PendingTx.step, none, failed.mpr none]
  exact ⟨.takeDecision :: (es ++ [.rollbackEnd false]), run_cons.mpr ⟨_, taken,
      run_append.mpr ⟨_, replayed, run_cons.mpr ⟨_, ended, rfl⟩⟩⟩⟩

/-! ### As runs of the protocol -/

variable {platform : String}

variable {p : Serving} {s : State}

theorem protocol_run_execute {x x' : Execution}
    {w' : World} {es : List ExecuteEvent} (serves : s.process = .serving p)
    (holds : p.holder = .executing x)
    (ran : (executions M).run (s.world, x) es = some (w', x')) :
    (protocol M platform).run s (es.map .execute) =
      some { world := w'
             process := .serving { p with holder := .executing x' } } := by
  have start : s = ⟨s.world, .serving { p with holder := .executing x }⟩ := by
    rw [← holds, ← serves]
  obtain ⟨_, lifted, rfl⟩ := run_map (protocol M platform) .execute (fun pair s =>
    s = ⟨pair.1, .serving { p with holder := .executing pair.2 }⟩) (by
      rintro ⟨w, x⟩ _ e ⟨w₁, x₁⟩ rfl stepped
      have one : x.step M w e = some (w₁, x₁) := stepped
      exact ⟨_, by simp [protocol, State.step, Serving.step, one], rfl⟩) start ran
  exact lifted

theorem protocol_run_resolver {t t' : PendingTx} {w' : World} {es : List ResolveEvent} {id : String}
    (serves : s.process = .serving p) (found : p.pending.find id = some t)
    (ran : (resolutions M).run (s.world, t) es = some (w', t')) :
    ∃ p', (protocol M platform).run s (es.map (.resolver id)) =
        some { world := w', process := .serving p' } ∧
      p'.pending.find id = some t' ∧ p'.holder = p.holder := by
  have start : ∃ p', s = ⟨s.world, .serving p'⟩ ∧ p'.pending.find id = some t ∧
      p'.holder = p.holder := ⟨p, by rw [← serves], found, rfl⟩
  obtain ⟨_, lifted, p', rfl, ended⟩ := run_map (protocol M platform) (.resolver id)
    (fun pair s => ∃ p', s = ⟨pair.1, .serving p'⟩ ∧ p'.pending.find id = some pair.2 ∧
      p'.holder = p.holder) (by
      rintro ⟨w, t⟩ _ e ⟨w₁, t₁⟩ ⟨p, rfl, found, sameHolder⟩ stepped
      have one : t.step M w e = some (w₁, t₁) := stepped
      have keyEq : t₁.id = id := (PendingTx.step_keeps one).1.trans (KeyedTable.key_of_find found)
      refine ⟨_, ?_, { p with pending := p.pending.put t₁ }, rfl, ?_, sameHolder⟩
      · simp [protocol, State.step, Serving.step, found, one]
      · rw [KeyedTable.find_put, if_pos keyEq]) start ran
  exact ⟨p', lifted, ended⟩

/-- **An execution does what `Apply` does**: alone, its steps and the records
that follow leave what the one call leaves. -/
theorem protocol_run_apply {x : Execution} (serves : s.process = .serving p)
    (holds : p.holder = .executing x) (policy : x.prepared.ownership = true)
    (starts : x.phase = .executing [] x.prepared.plan.ops)
    (succeeds : (apply M faults x.prepared.plan s.world.kernel).1 = none) :
    ∃ es : List ExecuteEvent, (protocol M platform).run s (es.map .execute) = some
        { world :=
            { s.world with
              kernel :=
                (apply M faults x.prepared.plan
                  s.world.kernel).2.kernel
              owned := applyOwnership s.world.owned x.prepared.plan false }
          process := .serving
            { p with
              holder := .executing { x with phase := .recording [] } } } := by
  obtain ⟨first, executed⟩ := executions_run_apply (M := M) faults s.world x starts
  rw [succeeds, policy] at executed
  obtain ⟨second, recorded⟩ := executions_run_record (M := M)
    { s.world with kernel := (apply M faults x.prepared.plan s.world.kernel).2.kernel }
    x x.prepared.plan.ops
  refine ⟨first ++ second, protocol_run_execute serves holds ?_⟩
  exact run_append.mpr ⟨_, executed, recorded⟩

/-- **A resolver does what a rollback does**, whichever of its calls fail. -/
theorem protocol_run_rollBack {t : PendingTx} {id : String} {decision : Decision}
    (serves : s.process = .serving p) (found : p.pending.find id = some t)
    (waits : t.phase = .probation) (decided : t.decided = some decision)
    (rollsBack : decision ≠ .commit) :
    ∃ (es : List ResolveEvent) (p' : Serving), (protocol M platform).run s (es.map (.resolver id)) =
        some { world := resolveRollback M faults id t.plan t.ownership s.world
               process := .serving p' } ∧
      p'.holder = p.holder := by
  obtain ⟨es, ran⟩ := resolutions_run_rollBack (M := M) faults s.world t waits decided rollsBack
  have keyEq : t.id = id := KeyedTable.key_of_find found
  rw [keyEq] at ran
  obtain ⟨p', lifted, _, sameHolder⟩ := protocol_run_resolver serves found ran
  exact ⟨es, p', lifted, sameHolder⟩

namespace NextHopChange

def execution : Execution :=
  let plan := reconcile [new] [old] [] [] "linux"
  { prepared := { ownership := true, interactive := false, unguarded := true, plan := plan }
    id := "one"
    phase := .executing [] plan.ops }

def world : World := { kernel := kernel, owned := .empty, journal := .empty }

def executing : Serving := { holder := .executing execution }

def undone : PendingTx := { execution.pendingTx with decided := some .rollback }

def undoing : Serving := { pending := .put .empty undone }

end NextHopChange

open NextHopChange

theorem nextHopChange_runs_as_apply :
    ∃ es : List ExecuteEvent, (protocol Matching.exact "linux").run ⟨world, .serving executing⟩
        (es.map .execute) = some
      { world :=
          { world with
            kernel := (apply Matching.exact noFaults execution.prepared.plan world.kernel).2.kernel
            owned := applyOwnership world.owned execution.prepared.plan false }
        process := .serving
          { executing with holder := .executing { execution with phase := .recording [] } } } := by
  refine protocol_run_apply (s := ⟨world, _⟩) (p := executing) noFaults rfl rfl rfl rfl ?_
  decide

theorem nextHopChange_rolls_back :
    ∃ (es : List ResolveEvent) (p' : Serving), (protocol Matching.exact "linux").run
        ⟨world, .serving undoing⟩ (es.map (.resolver "one")) = some
      { world := resolveRollback Matching.exact (faultAt 0 "busy") "one" undone.plan true world
        process := .serving p' } ∧ p'.holder = .free :=
  protocol_run_rollBack (s := ⟨world, _⟩) (p := undoing) (t := undone) (faultAt 0 "busy")
    rfl rfl rfl rfl (by decide)

end RiftRoute
