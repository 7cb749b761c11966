/-
Module: RiftRoute.Safety.Protocol
Purpose: The Apply Protocol as a machine: applies and panics under the apply
  lock, a resolver for each guarded transaction, crashes between any two steps.
  `Moves` says once what a step can do.
Trusted boundary: human-reviewed spec
-/
import RiftRoute.Library.Machine
import RiftRoute.Safety.Rollback

namespace RiftRoute

/-- A transaction's fate, and for a rollback, why. -/
inductive Decision where
  | commit
  | rollback
  | rollbackWatchdog
  | rollbackUnconfirmed
  | rollbackShutdown
deriving DecidableEq, Repr

/-- How far a transaction's resolver is. -/
inductive ResolvePhase where
  /-- Waiting for a decision. -/
  | probation
  /-- Decided to commit; the journal entry is to be cleared. -/
  | committing
  /-- Replaying the inverse: `left` failed, and `recording` went through and
  is to be recorded. -/
  | rollingBack (todo left : List PlanOp) (recording : Option PlanOp)
  /-- Resolved; to be taken from the pending transactions. -/
  | settled
deriving DecidableEq

/-- A transaction on probation. -/
structure PendingTx where
  id : String
  plan : Plan
  interactive : Bool
  /-- Whether its operations are recorded in the ownership table. -/
  ownership : Bool
  /-- The first decision sent; later ones are never read. -/
  decided : Option Decision := none
  phase : ResolvePhase := .probation
deriving DecidableEq

/-- Transactions the lock's holder commits and waits for, one after the
other; `asked` says that the first was sent its decision. -/
structure Settling where
  ids : List String
  asked : Bool := false
deriving DecidableEq

/-- How far an apply is before it executes. -/
inductive PrepareStage where
  | locked
  | read
  | built
  | planned
  | superseding (settling : Settling)
  | ready
deriving DecidableEq

/-- An apply, or a plan-level route operation, before it executes. -/
structure Prepare where
  ownership : Bool
  interactive : Bool
  unguarded : Bool
  /-- Built from a record that a change on probation is about to replace. -/
  builtOnRecord : Bool := false
  /-- The policy transactions on probation when the build started. -/
  beside : List String := []
  owned : List ManagedRoute := []
  desired : List ManagedRoute := []
  desiredRules : List ManagedRule := []
  /-- The tables and rules read so far, by family. -/
  routesRead : Family → Option (List Route) := fun _ => none
  rulesRead : Family → List PolicyRule := fun _ => []
  plan : Plan := {}
  stage : PrepareStage := .locked

/-- How far an execution is. -/
inductive ExecutePhase where
  | executing (applied todo : List PlanOp)
  | undoing (todo : List PlanOp)
  | recording (todo : List PlanOp)
deriving DecidableEq

/-- A journaled plan that is being executed. -/
structure Execution where
  prepared : Prepare
  id : String
  phase : ExecutePhase

/-- What the holder of the apply lock does. -/
inductive Holder where
  | free
  | preparing (p : Prepare)
  | executing (x : Execution)
  | panicking (settling : Settling)

abbrev Pending := KeyedTable PendingTx.id

/-- A process that serves requests. -/
structure Serving where
  idseq : Nat := 0
  pending : Pending := .empty
  holder : Holder := .free
  /-- Panics in progress: applies are refused. -/
  panics : Nat := 0

/-- The daemon: recovering the journal, or serving. -/
inductive Process where
  | booting
  | serving (p : Serving)

structure State where
  world : World
  process : Process

/-! ### Before the plan executes -/

/-- The steps of an apply from the lock to the end of supersession. -/
inductive PrepareEvent where
  | readOwned (fails : Bool)
  | build (desired : List ManagedRoute) (desiredRules : List ManagedRule)
  | readRoutes (family : Family) (fails : Bool)
  | readRules (family : Family) (fails : Bool)
  | plan (held : RouteKey → Bool) (tunnelsOnly : Bool)
  | supersede
  | superseded

/-- The kernel's routes tagged RiftRoute's. -/
def providerManaged (k : Kernel) : List ManagedRoute :=
  ((k.listRoutes .v4 ++ k.listRoutes .v6).filter fun r => r.owner = .riftRoute).map
      fun r => { route := r, profileID := r.profile }

/-- The owned routes: the records, or the kernel's own when these cannot be
read. -/
def actualManaged (w : World) (fails : Bool) : List ManagedRoute :=
  if fails then providerManaged w.kernel else w.owned.listOwned

def actualManagedRules (read : Family → List PolicyRule) : List ManagedRule :=
  ((read .v4 ++ read .v6).filter fun r => r.proto = "riftroute").map fun r => { rule := r }

namespace Prepare

/-- The actual side of the reconcile. -/
def installed (p : Prepare) (held : RouteKey → Bool) (tunnelsOnly : Bool) : List ManagedRoute :=
  (verifyRoutes p.desired p.routesRead held
    (if tunnelsOnly then isTunnelRoute else fun _ => true) p.owned).kept

def step (platform : String) (w : World) (pending : Pending) (p : Prepare) :
    PrepareEvent → Option Prepare
  | .readOwned fails =>
    if p.stage = .locked then
      some { p with owned := actualManaged w fails, stage := .read }
    else none
  | .build desired desiredRules =>
    if p.stage = .read then
      some { p with
        desired := desired, desiredRules := desiredRules
        routesRead := fun _ => none, rulesRead := fun _ => []
        stage := .built }
    else none
  | .readRoutes family fails =>
    if p.stage = .built then
      some { p with
        routesRead := fun f =>
          if f = family then
            if fails then none else some (w.kernel.listRoutes family)
          else p.routesRead f }
    else none
  | .readRules family fails =>
    if p.stage = .built then
      some { p with
        rulesRead := fun f =>
          if f = family then
            if fails then [] else w.kernel.listRules family
          else p.rulesRead f }
    else none
  | .plan held tunnelsOnly =>
    if p.stage = .built then
      some { p with
        plan := reconcile p.desired (p.installed held tunnelsOnly)
          p.desiredRules (actualManagedRules p.rulesRead) platform
        stage := .planned }
    else none
  | .supersede =>
    if p.stage = .planned ∧ p.plan.ops ≠ [] ∧ pending.rows.all fun t => !t.interactive then
      some { p with
        stage := .superseding { ids := pending.rows.map PendingTx.id } }
    else none
  | .superseded =>
    if p.stage = .superseding { ids := [] } then
      -- built on a record the transactions beside replaced: build again
      if p.beside ≠ [] ∧ p.builtOnRecord then
        some { p with beside := [], stage := .locked }
      else some { p with stage := .ready }
    else none

end Prepare

/-! ### Executing -/

/-- The steps of `executePlan` between its journal write and its end. -/
inductive ExecuteEvent where
  | exec (fault : Option String)
  | executed
  | undo (fault : Option String)
  | record (fails : Bool)

namespace Execution

def step (M : Matching) (w : World) (x : Execution) : ExecuteEvent → Option (World × Execution)
  | .exec fault =>
    match x.phase with
    | .executing applied (op :: todo) =>
      match doOp M fault w.kernel op with
      | .ok kernel =>
        some ({ w with kernel := kernel }, { x with phase := .executing (applied ++ [op]) todo })
      | .error _ =>
        some (w, { x with phase := .undoing (applied.reverse.map inverseOp) })
    | _ => none
  | .executed =>
    match x.phase with
    | .executing _ [] =>
      let todo := if x.prepared.ownership then x.prepared.plan.ops else []
      some (w, { x with phase := .recording todo })
    | _ => none
  | .undo fault =>
    match x.phase with
    | .undoing (op :: todo) =>
      let kernel :=
        match doOp M fault w.kernel op with
        | .ok kernel => kernel
        | .error _ => w.kernel
      some ({ w with kernel := kernel }, { x with phase := .undoing todo })
    | _ => none
  | .record fails =>
    match x.phase with
    | .recording (op :: todo) =>
      let owned := if fails then w.owned else recordOwnership w.owned op
      some ({ w with owned := owned }, { x with phase := .recording todo })
    | _ => none

/-- The transaction an execution puts on probation. -/
def pendingTx (x : Execution) : PendingTx :=
  { id := x.id, plan := x.prepared.plan, interactive := x.prepared.interactive
    ownership := x.prepared.ownership }

end Execution

/-! ### Resolving -/

/-- The steps of `resolve`. -/
inductive ResolveEvent where
  | takeDecision
  | commit (fails : Bool)
  | rollbackOp (fault : Option String)
  | rollbackRecord (fails : Bool)
  | rollbackEnd (fails : Bool)

namespace PendingTx

def step (M : Matching) (w : World) (t : PendingTx) : ResolveEvent → Option (World × PendingTx)
  | .takeDecision =>
    match t.phase, t.decided with
    | .probation, some .commit => some (w, { t with phase := .committing })
    | .probation, some _ =>
      some (w, { t with
        phase := .rollingBack (withoutTunnelLinks t.plan.inverse) [] none })
    | _, _ => none
  | .commit fails =>
    match t.phase with
    | .committing =>
      let journal :=
        if fails then w.journal else w.journal.clearPendingTx t.id
      some ({ w with journal := journal }, { t with phase := .settled })
    | _ => none
  | .rollbackOp fault =>
    match t.phase with
    | .rollingBack (op :: todo) left none =>
      match doOp M fault w.kernel op with
      | .ok kernel =>
        let recording := if t.ownership then some op else none
        some ({ w with kernel := kernel }, { t with phase := .rollingBack todo left recording })
      | .error _ =>
        some (w, { t with phase := .rollingBack todo (left ++ [op]) none })
    | _ => none
  | .rollbackRecord fails =>
    match t.phase with
    | .rollingBack todo left (some op) =>
      let owned := if fails then w.owned else recordOwnership w.owned op
      some ({ w with owned := owned }, { t with phase := .rollingBack todo left none })
    | _ => none
  | .rollbackEnd fails =>
    match t.phase with
    | .rollingBack [] left none =>
      let journal :=
        if fails then w.journal
        else if left = [] then w.journal.clearPendingTx t.id
        else w.journal.putPendingTx t.id (leftPlan left)
      some ({ w with journal := journal }, { t with phase := .settled })
    | _ => none

end PendingTx

/-- Send a decision; only the first one counts. -/
def Pending.decide (pending : Pending) (id : String) (decision : Decision) : Pending :=
  match pending.find id with
  | some t =>
    if t.decided.isNone then pending.put { t with decided := some decision }
    else pending
  | none => pending

/-! ### The process -/

/-- What happens next. -/
inductive Event where
  /-- The process dies and is started again. -/
  | crash
  /-- Recovery undoes one journal entry. -/
  | recoverEntry (id : String) (faults : Faults)
  /-- Recovery is over. -/
  | serve
  | lockApply (interactive unguarded builtOnRecord : Bool)
  | lockRouteOp (old : Route) (updated : Option Route)
      (interactive unguarded : Bool)
  | prepare (e : PrepareEvent)
  /-- A build error, a guardrail, an empty plan or a change that awaits
  confirmation ends the apply. -/
  | giveUp
  | ask
  | await
  | journal (fails : Bool)
  | execute (e : ExecuteEvent)
  | undone (fails : Bool)
  | finish (fails : Bool)
  | decide (id : String) (decision : Decision)
  | resolver (id : String) (e : ResolveEvent)
  | finishTx (id : String)
  | panicStart
  | panicLock
  | panicFlush (faults : PanicFaults) (flush : Kernel → Kernel)

namespace Holder

/-- The transactions the holder commits and waits for. -/
def settling : Holder → Option Settling
  | .preparing p =>
    match p.stage with
    | .superseding settling => some settling
    | _ => none
  | .panicking settling => some settling
  | _ => none

def settle (settling : Settling) : Holder → Holder
  | .preparing p => .preparing { p with stage := .superseding settling }
  | .panicking _ => .panicking settling
  | holder => holder

end Holder

/-- The plan of a route operation: the old route goes, and the updated one
comes in its place. -/
def routeOpPlan (old : Route) (updated : Option Route) (platform : String) : Plan :=
  match updated with
  | none => deleteRoutePlan old platform
  | some updated => replaceRoutePlan old updated platform

namespace Serving

def nextTxID (s : Serving) (ownership : Bool) : String :=
  if ownership then txID (s.idseq + 1) else routeOpTxID (s.idseq + 1)

def step (M : Matching) (platform : String) (w : World) (s : Serving) :
    Event → Option (World × Serving)
  | .lockApply interactive unguarded builtOnRecord =>
    match s.holder with
    | .free =>
      if s.panics = 0 then
        let beside := s.pending.rows.filter PendingTx.ownership
        let p : Prepare :=
          { ownership := true, interactive := interactive
            unguarded := unguarded, builtOnRecord := builtOnRecord
            beside := beside.map PendingTx.id }
        some (w, { s with holder := .preparing p })
      else none
    | _ => none
  | .lockRouteOp old updated interactive unguarded =>
    match s.holder with
    | .free =>
      -- managed routes are refused: their profile is the thing to edit
      if s.panics = 0 ∧ old.owner ≠ .riftRoute ∧ old.proto ≠ "riftroute" then
        let p : Prepare :=
          { ownership := false, interactive := interactive
            unguarded := unguarded
            plan := routeOpPlan old updated platform
            stage := .planned }
        some (w, { s with holder := .preparing p })
      else none
    | _ => none
  | .prepare e =>
    match s.holder with
    | .preparing p =>
      (p.step platform w s.pending e).map fun p =>
        (w, { s with holder := .preparing p })
    | _ => none
  | .giveUp =>
    match s.holder with
    | .preparing p =>
      if p.stage = .read ∨ p.stage = .planned then
        some (w, { s with holder := .free })
      else none
    | _ => none
  | .ask =>
    match s.holder.settling with
    | some { ids := id :: rest, asked := false } =>
      some (w, { s with
        pending := s.pending.decide id .commit
        holder := s.holder.settle { ids := id :: rest, asked := true } })
    | _ => none
  | .await =>
    match s.holder.settling with
    | some { ids := id :: rest, asked := true } =>
      if s.pending.find id = none then
        some (w, { s with holder := s.holder.settle { ids := rest } })
      else none
    | _ => none
  | .journal fails =>
    match s.holder with
    | .preparing p =>
      if p.stage = .ready then
        let id := s.nextTxID p.ownership
        let journal :=
          if fails then w.journal else w.journal.putPendingTx id p.plan
        let x : Execution := { prepared := p, id := id, phase := .executing [] p.plan.ops }
        some ({ w with journal := journal },
          { s with idseq := s.idseq + 1, holder := .executing x })
      else none
    | _ => none
  | .execute e =>
    match s.holder with
    | .executing x =>
      (x.step M w e).map fun (w, x) => (w, { s with holder := .executing x })
    | _ => none
  | .undone fails =>
    match s.holder with
    | .executing x =>
      if x.phase = .undoing [] then
        let journal :=
          if fails then w.journal else w.journal.clearPendingTx x.id
        some ({ w with journal := journal }, { s with holder := .free })
      else none
    | _ => none
  | .finish fails =>
    match s.holder with
    | .executing x =>
      if x.phase = .recording [] then
        if x.prepared.unguarded then
          let journal :=
            if fails then w.journal else w.journal.clearPendingTx x.id
          some ({ w with journal := journal }, { s with holder := .free })
        else
          some (w, { s with
            pending := s.pending.put x.pendingTx, holder := .free })
      else none
    | _ => none
  | .decide id decision =>
    some (w, { s with pending := s.pending.decide id decision })
  | .resolver id e =>
    match s.pending.find id with
    | some t =>
      (t.step M w e).map fun (w, t) =>
        (w, { s with pending := s.pending.put t })
    | none => none
  | .finishTx id =>
    match s.pending.find id with
    | some t =>
      if t.phase = .settled then
        some (w, { s with pending := s.pending.erase id })
      else none
    | none => none
  | .panicStart => some (w, { s with panics := s.panics + 1 })
  | .panicLock =>
    match s.holder with
    | .free =>
      if s.panics ≠ 0 then
        let settle := s.pending.rows.filter PendingTx.ownership
        some (w, { s with
          holder := .panicking { ids := settle.map PendingTx.id } })
      else none
    | _ => none
  | .panicFlush faults flush =>
    match s.holder with
    | .panicking { ids := [], asked := false } =>
      some ((panic M faults flush w).2, { s with holder := .free, panics := s.panics - 1 })
    | _ => none
  | _ => none

end Serving

/-- One step of the daemon and its environment. -/
def State.step (M : Matching) (platform : String) (s : State) : Event → Option State
  | .crash => some { world := s.world, process := .booting }
  | .recoverEntry id faults =>
    match s.process, (s.world.journal.find id).bind PendingRow.readable with
    | .booting, some plan =>
      some { s with world := recoverEntry M faults s.world id plan }
    | _, _ => none
  | .serve =>
    match s.process with
    | .booting =>
      -- every readable entry was undone and cleared
      if s.world.journal.listPendingTx = [] then
        some { s with process := .serving {} }
      else none
    | .serving _ => none
  | e =>
    match s.process with
    | .serving p =>
      (p.step M platform s.world e).map fun (w, p) =>
        { world := w, process := .serving p }
    | .booting => none

/-- The Apply Protocol over a provider. -/
def protocol (M : Matching) (platform : String) : Machine State Event where
  step := State.step M platform

open List KeyedTable

variable {M : Matching} {platform : String}

/-- The steps of a serving process. -/
inductive Serving.Moves (M : Matching) (platform : String) (w : World)
    (s : Serving) : Event → World → Serving → Prop where
  | lockApply (interactive unguarded builtOnRecord : Bool)
      (beside : List String) (free : s.holder = .free) :
      Moves M platform w s (.lockApply interactive unguarded builtOnRecord) w
        { s with
          holder := .preparing
            { ownership := true, interactive := interactive
              unguarded := unguarded, builtOnRecord := builtOnRecord
              beside := beside } }
  | lockRouteOp (old : Route) (updated : Option Route)
      (interactive unguarded : Bool) (free : s.holder = .free)
      (external : old.owner ≠ .riftRoute) :
      Moves M platform w s (.lockRouteOp old updated interactive unguarded) w
        { s with
          holder := .preparing
            { ownership := false, interactive := interactive
              unguarded := unguarded, plan := routeOpPlan old updated platform
              stage := .planned } }
  | prepare {p p' : Prepare} (e : PrepareEvent) (holds : s.holder = .preparing p)
      (stepped : p.step platform w s.pending e = some p') :
      Moves M platform w s (.prepare e) w { s with holder := .preparing p' }
  | giveUp {p : Prepare} (holds : s.holder = .preparing p) :
      Moves M platform w s .giveUp w { s with holder := .free }
  | ask {id : String} {rest : List String}
      (settling : s.holder.settling = some { ids := id :: rest }) :
      Moves M platform w s .ask w
        { s with
          pending := s.pending.decide id .commit
          holder := s.holder.settle { ids := id :: rest, asked := true } }
  | await {id : String} {rest : List String}
      (settling : s.holder.settling = some { ids := id :: rest, asked := true })
      (gone : s.pending.find id = none) :
      Moves M platform w s .await w { s with holder := s.holder.settle { ids := rest } }
  | journal {p : Prepare} (fails : Bool) (holds : s.holder = .preparing p)
      (ready : p.stage = .ready) :
      Moves M platform w s (.journal fails)
        { w with
          journal := if fails then w.journal
            else w.journal.putPendingTx (s.nextTxID p.ownership) p.plan }
        { s with
          idseq := s.idseq + 1
          holder := .executing
            { prepared := p, id := s.nextTxID p.ownership
              phase := .executing [] p.plan.ops } }
  | execute {x x' : Execution} {w' : World} (e : ExecuteEvent)
      (holds : s.holder = .executing x)
      (stepped : x.step M w e = some (w', x')) :
      Moves M platform w s (.execute e) w' { s with holder := .executing x' }
  | undone {x : Execution} (fails : Bool) (holds : s.holder = .executing x) :
      Moves M platform w s (.undone fails)
        { w with journal := if fails then w.journal
            else w.journal.clearPendingTx x.id }
        { s with holder := .free }
  | finishUnguarded {x : Execution} (fails : Bool)
      (holds : s.holder = .executing x) :
      Moves M platform w s (.finish fails)
        { w with journal := if fails then w.journal
            else w.journal.clearPendingTx x.id }
        { s with holder := .free }
  | finishGuarded {x : Execution} (fails : Bool)
      (holds : s.holder = .executing x) :
      Moves M platform w s (.finish fails) w
        { s with pending := s.pending.put x.pendingTx, holder := .free }
  | decide (id : String) (decision : Decision) :
      Moves M platform w s (.decide id decision) w
        { s with pending := s.pending.decide id decision }
  | resolver {id : String} {t t' : PendingTx} {w' : World} (e : ResolveEvent)
      (found : s.pending.find id = some t)
      (stepped : t.step M w e = some (w', t')) :
      Moves M platform w s (.resolver id e) w' { s with pending := s.pending.put t' }
  | finishTx {id : String} {t : PendingTx} (found : s.pending.find id = some t)
      (settled : t.phase = .settled) :
      Moves M platform w s (.finishTx id) w { s with pending := s.pending.erase id }
  | panicStart :
      Moves M platform w s .panicStart w { s with panics := s.panics + 1 }
  | panicLock (free : s.holder = .free) :
      Moves M platform w s .panicLock w
        { s with
          holder := .panicking
            { ids := (s.pending.rows.filter PendingTx.ownership).map
                PendingTx.id } }
  | panicFlush (faults : PanicFaults) (flush : Kernel → Kernel)
      (holds : s.holder = .panicking { ids := [] }) :
      Moves M platform w s (.panicFlush faults flush) (panic M faults flush w).2
        { s with holder := .free, panics := s.panics - 1 }

variable {e : Event} {w w' : World}

theorem Serving.moves_of_step {s s' : Serving} (stepped : s.step M platform w e = some (w', s')) :
    s.Moves M platform w e w' s' := by
  revert stepped
  fun_cases Serving.step with
  | case1 interactive unguarded builtOnRecord free =>
    rintro ⟨⟩
    exact .lockApply _ _ _ _ free
  | case4 old updated interactive unguarded free guards =>
    rintro ⟨⟩
    exact .lockRouteOp _ _ _ _ free guards.2.1
  | case7 e p holds =>
    intro stepped
    obtain ⟨p', moved, ⟨⟩⟩ := Option.map_eq_some_iff.mp stepped
    exact .prepare e holds moved
  | case9 p holds =>
    rintro ⟨⟩
    exact .giveUp holds
  | case12 id rest settling =>
    rintro ⟨⟩
    exact .ask settling
  | case14 id rest settling gone =>
    rintro ⟨⟩
    exact .await settling gone
  | case17 fails p holds ready =>
    rintro ⟨⟩
    exact .journal fails holds ready
  | case20 e x holds =>
    intro stepped
    obtain ⟨⟨w', x'⟩, moved, ⟨⟩⟩ := Option.map_eq_some_iff.mp stepped
    exact .execute e holds moved
  | case22 fails x holds =>
    rintro ⟨⟩
    exact .undone fails holds
  | case25 fails x holds =>
    rintro ⟨⟩
    exact .finishUnguarded fails holds
  | case26 fails x holds =>
    rintro ⟨⟩
    exact .finishGuarded fails holds
  | case29 id decision =>
    rintro ⟨⟩
    exact .decide id decision
  | case30 id e t found =>
    intro stepped
    obtain ⟨⟨w', t'⟩, moved, ⟨⟩⟩ := Option.map_eq_some_iff.mp stepped
    exact .resolver e found moved
  | case32 id t found settled =>
    rintro ⟨⟩
    exact .finishTx found settled
  | case35 =>
    rintro ⟨⟩
    exact .panicStart
  | case36 free =>
    rintro ⟨⟩
    exact .panicLock free
  | case39 faults flush holds =>
    rintro ⟨⟩
    exact .panicFlush faults flush holds
  | _ => rintro ⟨⟩

/-- The steps of the daemon. -/
inductive State.Moves (M : Matching) (platform : String) (s : State) :
    Event → State → Prop where
  | crash : Moves M platform s .crash { s with process := .booting }
  | recoverEntry {id : String} {plan : Plan} (faults : Faults)
      (boots : s.process = .booting)
      (readable : (s.world.journal.find id).bind PendingRow.readable = some plan) :
      Moves M platform s (.recoverEntry id faults)
        { s with world := RiftRoute.recoverEntry M faults s.world id plan }
  | serve (boots : s.process = .booting)
      (recovered : s.world.journal.listPendingTx = []) :
      Moves M platform s .serve { s with process := .serving {} }
  | serving {p p' : Serving} {w' : World} {e : Event}
      (serves : s.process = .serving p)
      (moves : p.Moves M platform s.world e w' p') :
      Moves M platform s e { world := w', process := .serving p' }

theorem State.moves_of_step {s s' : State} (stepped : (protocol M platform).step s e = some s') :
    s.Moves M platform e s' := by
  revert stepped
  change s.step M platform e = some s' → _
  fun_cases State.step with
  | case1 =>
    rintro ⟨⟩
    exact .crash
  | case2 id faults plan readable boots =>
    rintro ⟨⟩
    exact .recoverEntry faults boots readable
  | case4 boots recovered =>
    rintro ⟨⟩
    exact .serve boots recovered
  | case7 e _ _ _ p serves =>
    intro stepped
    obtain ⟨⟨w', p'⟩, moved, rfl⟩ := Option.map_eq_some_iff.mp stepped
    exact .serving serves (Serving.moves_of_step moved)
  | _ => rintro ⟨⟩

theorem State.serving_of_moves {s next : State} {p' : Serving}
    (moves : s.Moves M platform e next) (serves' : next.process = .serving p') :
    (p' = {} ∧ next.world = s.world ∧ s.world.journal.listPendingTx = []) ∨
      ∃ p, s.process = .serving p ∧ p.Moves M platform s.world e next.world p' := by
  cases moves with
  | crash => cases serves'
  | recoverEntry _ boots _ => exact absurd (boots.symm.trans serves') (by simp)
  | serve _ recovered =>
    obtain rfl := Process.serving.inj serves'
    exact .inl ⟨rfl, rfl, recovered⟩
  | @serving p _ _ _ serves moves =>
    obtain rfl := Process.serving.inj serves'
    exact .inr ⟨p, serves, moves⟩

/-! ### What the actors' own steps keep -/

theorem Execution.step_keeps {x x' : Execution}
    {e : ExecuteEvent} (stepped : x.step M w e = some (w', x')) :
    x'.prepared = x.prepared ∧ x'.id = x.id ∧ w'.journal = w.journal := by
  revert stepped
  fun_cases Execution.step <;> rintro ⟨⟩ <;> exact ⟨rfl, rfl, rfl⟩

/-- The steps of a transaction's resolver. -/
inductive PendingTx.Moves (M : Matching) (w : World) (t : PendingTx) :
    ResolveEvent → World → PendingTx → Prop where
  | commitTaken (waits : t.phase = .probation) :
      Moves M w t .takeDecision w { t with phase := .committing }
  | rollbackTaken (waits : t.phase = .probation) :
      Moves M w t .takeDecision w
        { t with
          phase := .rollingBack (withoutTunnelLinks t.plan.inverse) [] none }
  | commit (fails : Bool) (commits : t.phase = .committing) :
      Moves M w t (.commit fails)
        { w with journal := if fails then w.journal
            else w.journal.clearPendingTx t.id }
        { t with phase := .settled }
  | opDone {op : PlanOp} {todo left : List PlanOp} {kernel : Kernel}
      (fault : Option String)
      (replays : t.phase = .rollingBack (op :: todo) left none)
      (done : doOp M fault w.kernel op = .ok kernel) :
      Moves M w t (.rollbackOp fault) { w with kernel := kernel }
        { t with
          phase := .rollingBack todo left
            (if t.ownership then some op else none) }
  | opFailed {op : PlanOp} {todo left : List PlanOp} {err : String}
      (fault : Option String)
      (replays : t.phase = .rollingBack (op :: todo) left none)
      (failed : doOp M fault w.kernel op = .error err) :
      Moves M w t (.rollbackOp fault) w { t with phase := .rollingBack todo (left ++ [op]) none }
  | record {op : PlanOp} {todo left : List PlanOp} (fails : Bool)
      (records : t.phase = .rollingBack todo left (some op)) :
      Moves M w t (.rollbackRecord fails)
        { w with owned := if fails then w.owned
            else recordOwnership w.owned op }
        { t with phase := .rollingBack todo left none }
  | complete (fails : Bool) (ends : t.phase = .rollingBack [] [] none) :
      Moves M w t (.rollbackEnd fails)
        { w with journal := if fails then w.journal
            else w.journal.clearPendingTx t.id }
        { t with phase := .settled }
  | incomplete {left : List PlanOp} (fails : Bool) (some : left ≠ [])
      (ends : t.phase = .rollingBack [] left none) :
      Moves M w t (.rollbackEnd fails)
        { w with journal := if fails then w.journal
            else w.journal.putPendingTx t.id (leftPlan left) }
        { t with phase := .settled }

variable {t : PendingTx}

section

variable {t' : PendingTx} {e : ResolveEvent}

theorem PendingTx.moves_of_step (stepped : t.step M w e = some (w', t')) :
    t.Moves M w e w' t' := by
  revert stepped
  fun_cases PendingTx.step with
  | case1 _ waits =>
    rintro ⟨⟩
    exact .commitTaken waits
  | case2 _ _ _ waits =>
    rintro ⟨⟩
    exact .rollbackTaken waits
  | case4 fails commits =>
    rintro ⟨⟩
    exact .commit fails commits
  | case6 fault op todo left replays kernel done =>
    rintro ⟨⟩
    exact .opDone fault replays done
  | case7 fault op todo left replays err failed =>
    rintro ⟨⟩
    exact .opFailed fault replays failed
  | case9 fails todo left op records =>
    rintro ⟨⟩
    exact .record fails records
  | case11 fails left ends journal =>
    rintro ⟨⟩
    subst journal
    by_cases none : left = []
    · subst none
      exact .complete fails ends
    · rw [if_neg none]
      exact .incomplete fails none ends
  | _ => rintro ⟨⟩

theorem PendingTx.Moves.keeps (moves : t.Moves M w e w' t') :
    t'.id = t.id ∧ t'.plan = t.plan ∧ t'.ownership = t.ownership := by
  cases moves <;> exact ⟨rfl, rfl, rfl⟩

theorem PendingTx.step_keeps (stepped : t.step M w e = some (w', t')) :
    t'.id = t.id ∧ t'.plan = t.plan ∧ t'.ownership = t.ownership :=
  (PendingTx.moves_of_step stepped).keeps

end

theorem Pending.find_decide_eq (pending : Pending) (id other : String) (decision : Decision) :
    (pending.decide id decision).find other = (pending.find other).map fun t =>
        if id = other ∧ t.decided.isNone then
          { t with decided := some decision }
        else t := by
  unfold Pending.decide
  cases atId : pending.find id with
  | none =>
    by_cases here : id = other
    · subst here
      simp [atId]
    · simp [here]
  | some t =>
    have keyEq : t.id = id := key_of_find atId
    dsimp only
    by_cases here : id = other
    · subst here
      cases undecided : t.decided <;>
        simp [find_put, keyEq, undecided, atId]
    · cases undecided : t.decided <;>
        simp [find_put, keyEq, here]

variable {pending : Pending}

theorem Pending.find_decide {id other : String} {decision : Decision}
    (found : (pending.decide id decision).find other = some t) :
    ∃ before, pending.find other = some before ∧ t.id = before.id ∧
      t.plan = before.plan ∧ t.ownership = before.ownership ∧
      t.phase = before.phase := by
  rw [Pending.find_decide_eq] at found
  obtain ⟨before, atOther, rfl⟩ := Option.map_eq_some_iff.mp found
  refine ⟨before, atOther, ?_⟩
  split <;> exact ⟨rfl, rfl, rfl, rfl⟩

theorem Pending.find_decide_some (id : String) (decision : Decision) {other : String}
    (found : pending.find other = some t) :
    ∃ after, (pending.decide id decision).find other = some after ∧
      after.ownership = t.ownership ∧ after.phase = t.phase := by
  rw [Pending.find_decide_eq, found]
  refine ⟨_, rfl, ?_⟩
  dsimp only
  split <;> exact ⟨rfl, rfl⟩

/-- How a transaction came to be pending as it is after a step. -/
inductive Serving.PendingBy (M : Matching) (w w' : World) (p p' : Serving)
    (e : Event) (id : String) (t : PendingTx) : Prop where
  | same (found : p.pending.find id = some t)
  | decided {before : PendingTx} (found : p.pending.find id = some before)
      (sameId : t.id = before.id) (samePlan : t.plan = before.plan)
      (sameOwnership : t.ownership = before.ownership)
      (samePhase : t.phase = before.phase)
  | resolved {before : PendingTx} (r : ResolveEvent)
      (isEvent : e = .resolver id r) (found : p.pending.find id = some before)
      (moves : before.Moves M w r w' t)
  | started {x : Execution} (holds : p.holder = .executing x)
      (freed : p'.holder = .free) (idIs : x.id = id) (fresh : t = x.pendingTx)

variable {p : Serving}

section

variable {p' : Serving} (moves : p.Moves M platform w e w' p') {id : String}
  (found : p'.pending.find id = some t)

include moves found

theorem Serving.pendingBy_of_moves :
    Serving.PendingBy M w w' p p' e id t := by
  cases moves with
  | lockApply | lockRouteOp | prepare | giveUp | await | journal | execute | undone
  | finishUnguarded | panicStart | panicLock | panicFlush => exact .same found
  | ask | decide =>
    obtain ⟨before, atId, sameId, samePlan, sameOwnership, samePhase⟩ := Pending.find_decide found
    exact .decided atId sameId samePlan sameOwnership samePhase
  | finishGuarded _ holds =>
    rw [find_put] at found
    split at found
    · rename_i here
      exact .started holds rfl here (Option.some.inj found).symm
    · exact .same found
  | @resolver other before t' _ r atId stepped =>
    rw [find_put] at found
    split at found
    · rename_i here
      obtain rfl := Option.some.inj found
      have keyEq : before.id = other := key_of_find atId
      have sameId := (PendingTx.step_keeps stepped).1
      obtain rfl : other = id := keyEq.symm.trans (sameId.symm.trans here)
      exact .resolved r rfl atId (PendingTx.moves_of_step stepped)
    · exact .same found
  | finishTx _ _ =>
    rw [find_erase] at found
    split at found
    · cases found
    exact .same found

theorem Serving.pending_of_moves :
    (∃ before, p.pending.find id = some before ∧ t.plan = before.plan ∧
      t.ownership = before.ownership) ∨
      p'.holder = .free ∧ ∃ x, p.holder = .executing x ∧ x.id = id ∧ t = x.pendingTx := by
  cases Serving.pendingBy_of_moves moves found with
  | same atId => exact .inl ⟨t, atId, rfl, rfl⟩
  | decided atId _ samePlan sameOwnership _ =>
    exact .inl ⟨_, atId, samePlan, sameOwnership⟩
  | resolved r _ atId resolves =>
    obtain ⟨_, samePlan, sameOwnership⟩ := resolves.keeps
    exact .inl ⟨_, atId, samePlan, sameOwnership⟩
  | started holds freed idIs fresh => exact .inr ⟨freed, _, holds, idIs, fresh⟩

end

theorem Holder.settle_ne_executing {holder : Holder} {settling next : Settling}
    {x : Execution} (waits : holder.settling = some settling) :
    holder.settle next ≠ .executing x := by
  cases holder with
  | free | executing => cases waits
  | preparing | panicking => exact Holder.noConfusion

theorem Holder.settle_preparing {holder : Holder} {settling next : Settling}
    {q : Prepare} (waits : holder.settling = some settling)
    (settled : holder.settle next = .preparing q) :
    ∃ before, holder = .preparing before ∧ q = { before with stage := .superseding next } := by
  cases holder with
  | free | executing => cases waits
  | panicking _ => cases settled
  | preparing before =>
    obtain rfl := Holder.preparing.inj settled
    exact ⟨before, rfl, rfl⟩

variable {q' : Prepare}

section

variable {q : Prepare} {e : PrepareEvent} (stepped : q.step platform w pending e = some q')

include stepped

theorem Prepare.step_ownership :
    q'.ownership = q.ownership := by
  revert stepped
  fun_cases Prepare.step <;> rintro ⟨⟩ <;> rfl

theorem Prepare.stage_of_step :
    (q'.stage = .ready → q.stage = .superseding { ids := [] }) ∧
      ∀ settling, q'.stage = .superseding settling →
        settling.ids = pending.rows.map PendingTx.id := by
  revert stepped
  fun_cases Prepare.step with
  | case5 family fails built | case7 family fails built =>
    rintro ⟨⟩
    exact ⟨by simp [built], by simp [built]⟩
  | case11 =>
    rintro ⟨⟩
    refine ⟨by simp, ?_⟩
    intro settling stage
    obtain rfl := PrepareStage.superseding.inj stage
    rfl
  | case13 settled | case14 settled =>
    rintro ⟨⟩
    exact ⟨fun _ => settled, by simp⟩
  | _ =>
    rintro ⟨⟩
    try exact ⟨by simp, by simp⟩

end

/-! ### Who held the lock before a step -/

/-- How an apply came to be as it is after a step. -/
inductive Serving.PreparedBy (platform : String) (w : World) (p : Serving) :
    Prepare → Prop where
  | same {q : Prepare} (holds : p.holder = .preparing q) :
      PreparedBy platform w p q
  | locked {q : Prepare} (policy : q.ownership = true)
      (stage : q.stage = .locked) : PreparedBy platform w p q
  | routeOp {q : Prepare} (old : Route) (updated : Option Route)
      (external : old.owner ≠ .riftRoute)
      (plan : q.plan = routeOpPlan old updated platform)
      (alone : q.beside = []) (stage : q.stage = .planned) :
      PreparedBy platform w p q
  | stepped {q q' : Prepare} (e : PrepareEvent) (holds : p.holder = .preparing q)
      (stepped : q.step platform w p.pending e = some q') :
      PreparedBy platform w p q'
  | settled {q : Prepare} {settling next : Settling}
      (holds : p.holder = .preparing q) (stage : q.stage = .superseding settling)
      (waits : ∀ id ∈ settling.ids, p.pending.find id ≠ none → id ∈ next.ids) :
      PreparedBy platform w p { q with stage := .superseding next }

theorem Serving.preparedBy_of_settle
    {settling next : Settling} (waits : p.holder.settling = some settling)
    (settled : p.holder.settle next = .preparing q')
    (still : ∀ id ∈ settling.ids, p.pending.find id ≠ none → id ∈ next.ids) :
    p.PreparedBy platform w q' := by
  obtain ⟨q, holds, rfl⟩ := Holder.settle_preparing waits settled
  rw [holds] at waits
  simp only [Holder.settling] at waits
  split at waits
  · rename_i waiting stage
    obtain rfl := Option.some.inj waits
    exact .settled holds stage still
  · cases waits

variable {p' : Serving}

theorem Serving.preparedBy_of_moves (moves : p.Moves M platform w e w' p')
    (holds : p'.holder = .preparing q') : p.PreparedBy platform w q' := by
  cases moves with
  | lockApply _ _ _ _ _ =>
    obtain rfl := Holder.preparing.inj holds
    exact .locked rfl rfl
  | lockRouteOp old updated _ _ _ external =>
    obtain rfl := Holder.preparing.inj holds
    exact .routeOp old updated external rfl rfl rfl
  | prepare e wasPreparing stepped =>
    obtain rfl := Holder.preparing.inj holds
    exact .stepped e wasPreparing stepped
  | ask waits =>
    exact Serving.preparedBy_of_settle waits holds fun _ listed _ => listed
  | await waits gone =>
    refine Serving.preparedBy_of_settle waits holds ?_
    intro id listed pending
    rcases mem_cons.mp listed with rfl | later
    · exact absurd gone pending
    · exact later
  | decide | resolver | finishTx | panicStart => exact .same holds
  | giveUp | journal | execute | undone | finishUnguarded | finishGuarded | panicLock
  | panicFlush => cases holds

/-- How an execution came to be as it is after a step. -/
inductive Serving.ExecutedBy (p : Serving) (e : Event) (x' : Execution) :
    Prop where
  | same (holds : p.holder = .executing x')
  | stepped {x : Execution} (holds : p.holder = .executing x)
      (samePrepared : x'.prepared = x.prepared) (sameId : x'.id = x.id)
  | started (fails : Bool) (isEvent : e = .journal fails)
      (holds : p.holder = .preparing x'.prepared)
      (ready : x'.prepared.stage = .ready)
      (idIs : x'.id = p.nextTxID x'.prepared.ownership)

theorem Serving.executedBy_of_moves {x' : Execution} (moves : p.Moves M platform w e w' p')
    (holds : p'.holder = .executing x') : p.ExecutedBy e x' := by
  cases moves with
  | journal fails wasPreparing ready =>
    obtain rfl := Holder.executing.inj holds
    exact .started fails rfl wasPreparing ready rfl
  | execute _ wasExecuting stepped =>
    obtain rfl := Holder.executing.inj holds
    obtain ⟨samePrepared, sameId, _⟩ := Execution.step_keeps stepped
    exact .stepped wasExecuting samePrepared sameId
  | decide | resolver | finishTx | panicStart => exact .same holds
  | ask waits | await waits _ => exact absurd holds (Holder.settle_ne_executing waits)
  | lockApply | lockRouteOp | prepare | giveUp | undone | finishUnguarded | finishGuarded
  | panicLock | panicFlush => cases holds

/-- Only one transaction is unresolved: what was pending is settled before
another plan executes. -/
structure Serving.OneUnresolved (p : Serving) : Prop where
  executing : ∀ x, p.holder = .executing x → ∀ id, p.pending.find id = none
  ready : ∀ q, p.holder = .preparing q → q.stage = .ready → ∀ id, p.pending.find id = none
  superseding : ∀ q settling, p.holder = .preparing q → q.stage = .superseding settling →
    ∀ id t, p.pending.find id = some t → id ∈ settling.ids
  alone : ∀ id other t u, p.pending.find id = some t → p.pending.find other = some u → id = other

theorem Serving.OneUnresolved.step (held : p.OneUnresolved) (moves : p.Moves M platform w e w' p') :
    p'.OneUnresolved := by
  -- nothing gets pending while the lock stays held
  have none : (∀ id, p.pending.find id = none) → p'.holder ≠ .free →
      ∀ id, p'.pending.find id = none := by
    intro nonePending stays id
    cases found : p'.pending.find id with
    | none => rfl
    | some t =>
      rcases Serving.pending_of_moves moves found with
        ⟨before, atId, _⟩ | ⟨freed, _⟩
      · rw [nonePending id] at atId
        cases atId
      · exact absurd freed stays
  constructor
  · intro x' holds
    have stays : p'.holder ≠ .free := by
      rw [holds]
      exact Holder.noConfusion
    cases Serving.executedBy_of_moves moves holds with
    | same wasExecuting => exact none (held.executing x' wasExecuting) stays
    | stepped wasExecuting _ _ => exact none (held.executing _ wasExecuting) stays
    | started _ _ wasPreparing ready _ =>
      exact none (held.ready _ wasPreparing ready) stays
  · intro q' holds ready
    have stays : p'.holder ≠ .free := by
      rw [holds]
      exact Holder.noConfusion
    cases Serving.preparedBy_of_moves moves holds with
    | same wasPreparing => exact none (held.ready q' wasPreparing ready) stays
    | locked _ stage | routeOp _ _ _ _ _ stage =>
      rw [stage] at ready
      cases ready
    | settled _ _ _ => cases ready
    | stepped _ wasPreparing stepped =>
      have settled := (Prepare.stage_of_step stepped).1 ready
      refine none ?_ stays
      intro id
      cases found : p.pending.find id with
      | none => rfl
      | some t =>
        have listed := held.superseding _ _ wasPreparing settled id t found
        exact absurd listed not_mem_nil
  · intro q' settling' holds stage id t found
    -- what is pending now was pending before
    have earlier : ∃ before, p.pending.find id = some before := by
      rcases Serving.pending_of_moves moves found with
        ⟨before, atId, _⟩ | ⟨freed, _⟩
      · exact ⟨before, atId⟩
      · rw [holds] at freed
        cases freed
    obtain ⟨before, atId⟩ := earlier
    cases Serving.preparedBy_of_moves moves holds with
    | same wasPreparing =>
      exact held.superseding q' settling' wasPreparing stage id before atId
    | locked _ stageIs | routeOp _ _ _ _ _ stageIs =>
      rw [stageIs] at stage
      cases stage
    | stepped _ _ stepped =>
      rw [(Prepare.stage_of_step stepped).2 settling' stage]
      have keyEq : before.id = id := key_of_find atId
      exact keyEq ▸ mem_map_of_mem (mem_of_find atId)
    | settled wasPreparing wasStage waits =>
      obtain rfl := PrepareStage.superseding.inj stage
      refine waits id ?_ (by simp [atId])
      exact held.superseding _ _ wasPreparing wasStage id before atId
  · intro id other t u atId atOther
    rcases Serving.pending_of_moves moves atId with
      ⟨before, wasAtId, _⟩ | ⟨_, x, executes, idIs, _⟩
    · rcases Serving.pending_of_moves moves atOther with
        ⟨before', wasAtOther, _⟩ | ⟨_, x, executes, _, _⟩
      · exact held.alone id other before before' wasAtId wasAtOther
      · rw [held.executing x executes id] at wasAtId
        cases wasAtId
    · rcases Serving.pending_of_moves moves atOther with
        ⟨before', wasAtOther, _⟩ | ⟨_, y, executes', idIs', _⟩
      · rw [held.executing x executes other] at wasAtOther
        cases wasAtOther
      · obtain rfl := Holder.executing.inj (executes.symm.trans executes')
        exact idIs.symm.trans idIs'

theorem Serving.OneUnresolved.start : ({} : Serving).OneUnresolved where
  executing := nofun
  ready := nofun
  superseding := nofun
  alone _ _ _ _ found := by cases found

/-- A property of every pending transaction's plan and phase. -/
def Serving.EachPending (P : PendingTx → Prop) (p : Serving) : Prop :=
  ∀ id t, p.pending.find id = some t → P t

theorem Serving.EachPending.step {P : PendingTx → Prop} {p' : Serving} (held : p.EachPending P)
    (moves : p.Moves M platform w e w' p')
    (decided : ∀ t t' : PendingTx, t'.id = t.id → t'.plan = t.plan →
      t'.ownership = t.ownership → t'.phase = t.phase → P t → P t')
    (fresh : ∀ x : Execution, P x.pendingTx)
    (resolved : ∀ id t t' r, e = .resolver id r →
      p.pending.find id = some t → t.Moves M w r w' t' → P t → P t') :
    p'.EachPending P := by
  intro id t found
  cases Serving.pendingBy_of_moves moves found with
  | same atId => exact held id t atId
  | decided atId sameId samePlan sameOwnership samePhase =>
    exact decided _ t sameId samePlan sameOwnership samePhase (held id _ atId)
  | resolved r isEvent atId resolves =>
    exact resolved id _ t r isEvent atId resolves (held id _ atId)
  | started _ _ _ isFresh =>
    rw [isFresh]
    exact fresh _

/-- What a rollback still has to do, and what failed of it, is from the
transaction's inverse. -/
def PendingTx.Replays (t : PendingTx) : Prop :=
  ∀ todo left recording, t.phase = .rollingBack todo left recording →
    ∀ op ∈ left ++ todo, op ∈ withoutTunnelLinks t.plan.inverse

theorem PendingTx.Replays.step {t' : PendingTx}
    {r : ResolveEvent} (held : t.Replays) (moves : t.Moves M w r w' t') :
    t'.Replays := by
  intro todo left recording phase op member
  cases moves with
  | commitTaken | commit | complete | incomplete => cases phase
  | rollbackTaken _ =>
    cases phase
    exact member
  | opDone _ replays _ =>
    cases phase
    refine held _ _ _ replays op ?_
    rcases mem_append.mp member with inLeft | inTodo
    · exact mem_append_left _ inLeft
    · exact mem_append_right _ (mem_cons_of_mem _ inTodo)
  | opFailed _ replays _ =>
    cases phase
    refine held _ _ _ replays op ?_
    rw [append_assoc] at member
    exact member
  | record _ records =>
    cases phase
    exact held _ _ _ records op member

theorem Serving.replays_step (held : p.EachPending PendingTx.Replays)
    (moves : p.Moves M platform w e w' p') :
    p'.EachPending PendingTx.Replays := by
  refine held.step moves ?_ ?_ ?_
  · intro t t' _ samePlan _ samePhase replays todo left recording phase
    rw [samePlan]
    exact replays todo left recording (samePhase ▸ phase)
  · intro x todo left recording phase
    cases phase
  · intro id t t' r _ _ moves replays
    exact replays.step moves

end RiftRoute
