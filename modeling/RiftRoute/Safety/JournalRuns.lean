/-
Module: RiftRoute.Safety.JournalRuns
Purpose: The journal along the protocol's runs: which entries of earlier
  processes survive, and when the order in which recovery visits the entries
  does not matter.
Trusted boundary: none
-/
import RiftRoute.Safety.Protocol

namespace RiftRoute

variable {M : Matching} {platform : String}

/-! ### Live transactions -/

/-- A transaction of the serving process that executes or is on probation. -/
inductive Serving.Live (p : Serving) (id : String) (plan : Plan)
    (ownership : Bool) : Prop where
  | executing (x : Execution) (holds : p.holder = .executing x)
      (idIs : x.id = id) (planIs : x.prepared.plan = plan)
      (ownershipIs : x.prepared.ownership = ownership)
  | pending (t : PendingTx) (found : p.pending.find id = some t)
      (planIs : t.plan = plan) (ownershipIs : t.ownership = ownership)

/-- The transaction a journal step starts. -/
structure Serving.Starts (p : Serving) (id : String) (plan : Plan)
    (ownership : Bool) : Prop where
  prepared : ∃ q, p.holder = .preparing q ∧ q.stage = .ready ∧
    q.plan = plan ∧ q.ownership = ownership
  idIs : p.nextTxID ownership = id

theorem Serving.live_of_moves {w w' : World} {p p' : Serving} {e : Event}
    (moves : p.Moves M platform w e w' p') {id : String} {plan : Plan}
    {ownership : Bool} (live : p'.Live id plan ownership) :
    p.Live id plan ownership ∨ (∃ fails, e = .journal fails) ∧ p.Starts id plan ownership := by
  cases live with
  | executing x' holds idIs planIs ownershipIs =>
    cases Serving.executedBy_of_moves moves holds with
    | same wasExecuting =>
      exact .inl (.executing x' wasExecuting idIs planIs ownershipIs)
    | stepped wasExecuting samePrepared sameId =>
      rw [samePrepared] at planIs ownershipIs
      exact .inl (.executing _ wasExecuting (sameId ▸ idIs) planIs ownershipIs)
    | started fails isEvent wasPreparing ready issued =>
      refine .inr ⟨⟨fails, isEvent⟩, ⟨_, wasPreparing, ready, planIs, ownershipIs⟩, ?_⟩
      rw [← ownershipIs, ← issued]
      exact idIs
  | pending t found planIs ownershipIs =>
    rcases Serving.pending_of_moves moves found with
      ⟨before, atId, samePlan, sameOwnership⟩ | ⟨_, x, executes, idIs, rfl⟩
    · exact .inl (.pending before atId (samePlan ▸ planIs) (sameOwnership ▸ ownershipIs))
    · exact .inl (.executing x executes idIs planIs ownershipIs)

theorem Serving.not_live_start {id : String} {plan : Plan} {ownership : Bool} :
    ¬ ({} : Serving).Live id plan ownership := by
  intro live
  cases live with
  | executing _ holds => cases holds
  | pending _ found => cases found

/-! ### What a step does to the journal -/

/-- The journal after a step. -/
inductive JournalStep (s : State) (e : Event) (journal : Journal) : Prop where
  | same (unchanged : journal = s.world.journal)
  | recovered {id : String} {plan : Plan} {faults : Faults}
      (isEvent : e = .recoverEntry id faults)
      (readable : (s.world.journal.find id).bind PendingRow.readable = some plan)
      (cleared : journal = s.world.journal.clearPendingTx id)
  | started {p : Serving} {id : String} {plan : Plan} {ownership : Bool}
      (serves : s.process = .serving p) (isEvent : ∃ fails, e = .journal fails)
      (starts : p.Starts id plan ownership)
      (written : journal = s.world.journal.putPendingTx id plan)
  | cleared {p : Serving} {id : String} {plan : Plan} {ownership : Bool}
      (serves : s.process = .serving p) (live : p.Live id plan ownership)
      (cleared : journal = s.world.journal.clearPendingTx id)
  | narrowed {p : Serving} {t : PendingTx} {left : List PlanOp}
      (serves : s.process = .serving p)
      (found : p.pending.find t.id = some t)
      (ends : t.phase = .rollingBack [] left none)
      (written : journal = s.world.journal.putPendingTx t.id (leftPlan left))

theorem journalStep_of_moves {s s' : State} {e : Event}
    (moves : s.Moves M platform e s') : JournalStep s e s'.world.journal := by
  cases moves with
  | crash | serve => exact .same rfl
  | recoverEntry faults _ readable => exact .recovered rfl readable rfl
  | @serving p p' w' e serves moves =>
    cases moves with
    | lockApply | lockRouteOp | prepare | giveUp | ask | await | decide | finishGuarded
    | finishTx | panicStart | panicLock => exact .same rfl
    | panicFlush faults flush _ => exact .same (panic_journal M faults flush _)
    | execute e _ stepped => exact .same (Execution.step_keeps stepped).2.2
    | @journal q fails holds ready =>
      cases fails with
      | true => exact .same rfl
      | false =>
        exact .started serves ⟨false, rfl⟩ ⟨⟨q, holds, ready, rfl, rfl⟩, rfl⟩ rfl
    | @undone x fails holds | @finishUnguarded x fails holds =>
      cases fails with
      | true => exact .same rfl
      | false => exact .cleared serves (.executing x holds rfl rfl rfl) rfl
    | @resolver id t t' w' e found stepped =>
      have keyEq : t.id = id := KeyedTable.key_of_find found
      subst keyEq
      cases PendingTx.moves_of_step stepped with
      | commitTaken | rollbackTaken | opDone | opFailed | record => exact .same rfl
      | commit fails _ | complete fails _ =>
        cases fails with
        | true => exact .same rfl
        | false => exact .cleared serves (.pending t found rfl rfl) rfl
      | incomplete fails _ ends =>
        cases fails with
        | true => exact .same rfl
        | false => exact .narrowed serves found ends rfl

/-! ### Entries of earlier processes -/

/-- In the run, recovery has undone an entry, every operation going through. -/
def UndoneIn (M : Matching) (platform : String) (s₀ : State)
    (es : List Event) (id : String) : Prop :=
  ∃ before faults after s plan, es = before ++ .recoverEntry id faults :: after ∧
      (protocol M platform).run s₀ before = some s ∧
      (s.world.journal.find id).bind PendingRow.readable = some plan ∧
      (Executor.runOps M faults (withoutTunnelLinks plan.inverse)
        { kernel := s.world.kernel }).1 = none

theorem UndoneIn.append {s₀ : State} {es : List Event} {id : String}
    (undone : UndoneIn M platform s₀ es id) (more : List Event) :
    UndoneIn M platform s₀ (es ++ more) id := by
  obtain ⟨before, faults, after, s, plan, rfl, rest⟩ := undone
  exact ⟨before, faults, after ++ more, s, plan, by simp, rest⟩

/-- A step that takes no other process's entry: the id it issues is not in the
journal, and what recovery undoes goes through. -/
structure SparesEarlier (M : Matching) (s : State) (e : Event) : Prop where
  freshID : ∀ fails p q, e = .journal fails → s.process = .serving p → p.holder = .preparing q →
    s.world.journal.find (p.nextTxID q.ownership) = none
  undone : ∀ id faults plan, e = .recoverEntry id faults →
    (s.world.journal.find id).bind PendingRow.readable = some plan →
    (Executor.runOps M faults (withoutTunnelLinks plan.inverse)
      { kernel := s.world.kernel }).1 = none

theorem SparesEarlier.journal {s : State} {fails : Bool} {p : Serving}
    {q : Prepare} (serves : s.process = .serving p)
    (holds : p.holder = .preparing q)
    (gone : s.world.journal.find (p.nextTxID q.ownership) = none) :
    SparesEarlier M s (.journal fails) where
  freshID _ p' q' _ serves' holds' := by
    obtain rfl := Process.serving.inj (serves.symm.trans serves')
    obtain rfl := Holder.preparing.inj (holds.symm.trans holds')
    exact gone
  undone _ _ _ isEvent := by cases isEvent

/-- What such steps preserve: an entry of an earlier process is kept or undone,
and the entries of live transactions are not among those kept. -/
structure EarlierKept (M : Matching) (platform : String) (s₀ : State)
    (past : List Event) (s : State) : Prop where
  kept : ∀ id row, s₀.world.journal.find id = some row →
    s.world.journal.find id = some row ∨ UndoneIn M platform s₀ past id
  liveIDs : ∀ p, s.process = .serving p → ∀ id plan ownership,
    p.Live id plan ownership → ∀ row, s₀.world.journal.find id = some row →
      UndoneIn M platform s₀ past id

theorem EarlierKept.step {s₀ s next : State} {past : List Event} {e : Event}
    (before : (protocol M platform).run s₀ past = some s)
    (held : EarlierKept M platform s₀ past s) (spares : SparesEarlier M s e)
    (stepped : (protocol M platform).step s e = some next) :
    EarlierKept M platform s₀ (past ++ [e]) next := by
  have moves := State.moves_of_step stepped
  -- an entry not of this id is as before
  have other : ∀ {id : String} {row : PendingRow}, s₀.world.journal.find id = some row →
      next.world.journal.find id = s.world.journal.find id →
      next.world.journal.find id = some row ∨
        UndoneIn M platform s₀ (past ++ [e]) id := by
    intro id row earlier unchanged
    rw [unchanged]
    exact (held.kept id row earlier).imp_right (UndoneIn.append · [e])
  -- an id that is not in the journal any more was undone
  have fresh : ∀ {p : Serving} {id : String} {plan : Plan} {ownership : Bool},
      s.process = .serving p → (∃ fails, e = .journal fails) →
      p.Starts id plan ownership →
      ∀ row, s₀.world.journal.find id = some row → UndoneIn M platform s₀ past id := by
    intro p id plan ownership serves isEvent starts row earlier
    obtain ⟨⟨q, holds, _, _, rfl⟩, rfl⟩ := starts
    obtain ⟨fails, isJournal⟩ := isEvent
    have gone := spares.freshID fails p q isJournal serves holds
    rcases held.kept _ row earlier with found | undone
    · rw [gone] at found
      cases found
    · exact undone
  constructor
  · intro id row earlier
    cases journalStep_of_moves moves with
    | same unchanged => exact other earlier (by rw [unchanged])
    | @recovered gone plan faults isEvent readable cleared =>
      by_cases here : gone = id
      · subst here
        refine .inr ⟨past, faults, [], s, plan, by rw [isEvent], before, readable, ?_⟩
        exact spares.undone gone faults plan isEvent readable
      · exact other earlier (by simp [cleared, here])
    | @started p new plan ownership serves isEvent starts written =>
      by_cases here : new = id
      · subst here
        exact .inr ((fresh serves isEvent starts row earlier).append [e])
      · exact other earlier (by simp [written, here])
    | @cleared p live plan ownership serves isLive cleared =>
      by_cases here : live = id
      · subst here
        exact .inr ((held.liveIDs p serves live plan ownership isLive row earlier).append [e])
      · exact other earlier (by simp [cleared, here])
    | @narrowed p t left serves found ends written =>
      by_cases here : t.id = id
      · subst here
        exact .inr ((held.liveIDs p serves t.id t.plan t.ownership
          (.pending t found rfl rfl) row earlier).append [e])
      · exact other earlier (by simp [written, here])
  · intro p' serves' id plan ownership live row earlier
    rcases State.serving_of_moves moves serves' with
      ⟨rfl, _, _⟩ | ⟨p, serves, inner⟩
    · exact absurd live Serving.not_live_start
    · rcases Serving.live_of_moves inner live with old | ⟨isEvent, starts⟩
      · exact (held.liveIDs p serves id plan ownership old row earlier).append [e]
      · exact (fresh serves isEvent starts row earlier).append [e]

/-- An entry that was in the journal when the process started is there
unchanged until recovery has undone it, in every run that issues no id that is
in the journal and whose recovery goes through. -/
theorem earlier_entries_kept {s₀ reached : State} {es : List Event} (boots : s₀.process = .booting)
    (along : (protocol M platform).Along (SparesEarlier M) s₀ es)
    (ran : (protocol M platform).run s₀ es = some reached) :
    ∀ id row, s₀.world.journal.find id = some row → reached.world.journal.find id = some row ∨
        UndoneIn M platform s₀ es id := by
  have start : EarlierKept M platform s₀ [] s₀ :=
    { kept := fun _ _ found => .inl found
      liveIDs := fun _ serves => absurd (boots.symm.trans serves) (by simp) }
  exact (Machine.invariant_past (EarlierKept M platform s₀)
    (fun _ _ _ _ before held spares stepped =>
      held.step before spares stepped) start along ran).kept

theorem UndoneIn.mem {s₀ : State} {es : List Event} {id : String}
    (undone : UndoneIn M platform s₀ es id) :
    ∃ faults, .recoverEntry id faults ∈ es := by
  obtain ⟨before, faults, after, _, _, rfl, _⟩ := undone
  exact ⟨faults, by simp⟩

-- An apply that is rolled back, where an operation of the inverse fails.
namespace FailedRollback

def added : ManagedRoute :=
  { route :=
      { dstCIDR := "172.16.0.0/12", gateway := "192.168.1.1", iface := "eth0" }
    profileID := "work" }

def boot : State :=
  { world :=
      { kernel := NextHopChange.kernel
        owned := Ownership.after [.put NextHopChange.old]
        journal := .empty }
    process := .booting }

/-- An apply of this set that executes one operation, up to its probation. -/
def apply (desired : List ManagedRoute) : List Event :=
  [.lockApply false false false, .prepare (.readOwned false),
    .prepare (.build desired []), .prepare (.plan (fun _ => false) false),
    .prepare .supersede, .prepare .superseded, .journal false,
    .execute (.exec none), .execute .executed, .execute (.record false),
    .finish false]

/-- The process starts, and its first apply is rolled back. -/
def run (desired : List ManagedRoute) : List Event :=
  .serve :: apply desired ++ [.decide (txID 1) .rollback, .resolver (txID 1) .takeDecision,
      .resolver (txID 1) (.rollbackOp (some "operation not permitted")),
      .resolver (txID 1) (.rollbackEnd false), .finishTx (txID 1)]

end FailedRollback

-- A process started over a journal another one left.
namespace EarlierEntry

/-- Written by a newer build. -/
def newer : PendingRow := { id := txID 1, format := some 2, doc := .corrupt "plan v2" }

def readable : PendingRow :=
  Journal.entry (txID 7) (reconcile [NextHopChange.new] [NextHopChange.old] [] [] "linux")

def boot (row : PendingRow) : State :=
  { world :=
      { kernel := NextHopChange.kernel
        owned := Ownership.after [.put NextHopChange.old]
        journal := ⟨[row], List.nodup_singleton _⟩ }
    process := .booting }

/-- The first apply of the new process, up to its journal entry. -/
def firstApply : List Event :=
  [.serve, .lockApply false false false, .prepare (.readOwned false),
    .prepare (.build [NextHopChange.new] []),
    .prepare (.plan (fun _ => false) false), .prepare .supersede,
    .prepare .superseded, .journal false]

end EarlierEntry

/-- A process undoes the entry it found and starts its own first one. -/
theorem readable_entry_undone : ∃ reached, (protocol Matching.exact "linux").run
        (EarlierEntry.boot EarlierEntry.readable)
        (.recoverEntry (txID 7) noFaults :: EarlierEntry.firstApply) = some reached ∧
      (reached.world.journal.find (txID 7) = some EarlierEntry.readable ∨
        UndoneIn Matching.exact "linux" (EarlierEntry.boot EarlierEntry.readable)
          (.recoverEntry (txID 7) noFaults :: EarlierEntry.firstApply)
          (txID 7)) := by
  refine ⟨_, rfl, earlier_entries_kept rfl ?_ rfl (txID 7) _ rfl⟩
  refine .cons rfl ⟨by simp, ?_⟩ ?_
  · intro other faults plan isEvent isReadable
    obtain ⟨rfl, rfl⟩ := Event.recoverEntry.inj isEvent
    obtain rfl := Option.some.inj isReadable
    decide
  iterate 7 refine .cons rfl ⟨by simp, by simp⟩ ?_
  exact .cons rfl (.journal rfl rfl (by decide)) trivial

/-- A journal entry of an earlier process that is lost in two ways: a process
counts its ids from one again and writes over an entry it cannot read; and
recovery clears an entry it failed to undo. -/
theorem earlier_entry_lost : (∃ reached, (protocol Matching.exact "linux").run
        (EarlierEntry.boot EarlierEntry.newer) EarlierEntry.firstApply = some reached ∧
      reached.world.journal.find (txID 1) ≠ some EarlierEntry.newer ∧
      ¬ UndoneIn Matching.exact "linux" (EarlierEntry.boot EarlierEntry.newer)
        EarlierEntry.firstApply (txID 1)) ∧
    ∃ reached, (protocol Matching.exact "linux").run (EarlierEntry.boot EarlierEntry.readable)
        [.recoverEntry (txID 7) (faultAt 0 "operation not permitted")] = some reached ∧
      reached.world.journal.find (txID 7) = none ∧
      ¬ UndoneIn Matching.exact "linux" (EarlierEntry.boot EarlierEntry.readable)
        [.recoverEntry (txID 7) (faultAt 0 "operation not permitted")]
        (txID 7) := by
  constructor
  · refine ⟨_, rfl, by decide, ?_⟩
    intro undone
    obtain ⟨faults, member⟩ := undone.mem
    simp [EarlierEntry.firstApply] at member
  · refine ⟨_, rfl, by decide, ?_⟩
    rintro ⟨before, faults, after, s, plan, split, ran, isReadable, clean⟩
    cases before with
    | cons _ before => simp at split
    | nil =>
      obtain ⟨isEvent, _⟩ := List.cons.inj split
      obtain ⟨_, rfl⟩ := Event.recoverEntry.inj isEvent
      obtain rfl := Option.some.inj ran
      obtain rfl := Option.some.inj isReadable
      revert clean
      decide

open List

/-! ### Plans that name nothing in common -/

/-- The effects change no common destination, rule or ownership row. -/
structure Effect.Apart (first second : Effect) : Prop where
  dst : first.dst = none ∨ first.dst ≠ second.dst
  rule : first.ruleKey = none ∨ first.ruleKey ≠ second.ruleKey
  row : first.row = none ∨ first.row ≠ second.row

instance (first second : Effect) : Decidable (first.Apart second) :=
  decidable_of_iff ((first.dst = none ∨ first.dst ≠ second.dst) ∧
      (first.ruleKey = none ∨ first.ruleKey ≠ second.ruleKey) ∧
      (first.row = none ∨ first.row ≠ second.row))
    ⟨fun ⟨dst, rule, row⟩ => ⟨dst, rule, row⟩, fun ⟨dst, rule, row⟩ => ⟨dst, rule, row⟩⟩

theorem none_or_ne_comm {α : Type} {first second : Option α}
    (apart : first = none ∨ first ≠ second) :
    second = none ∨ second ≠ first := by
  rcases apart with rfl | differ
  · cases second <;> simp
  · exact .inr differ.symm

theorem Effect.Apart.symm {first second : Effect} (apart : first.Apart second) :
    second.Apart first :=
  ⟨none_or_ne_comm apart.dst, none_or_ne_comm apart.rule, none_or_ne_comm apart.row⟩

@[simp] theorem Effect.row_inverse (e : Effect) : e.inverse.row = e.row := by
  simp [Effect.row]

@[simp] theorem Effect.inverse_apart {first second : Effect} :
    first.inverse.Apart second ↔ first.Apart second := by
  constructor <;> rintro ⟨dst, rule, row⟩ <;>
    exact ⟨by simpa using dst, by simpa using rule, by simpa using row⟩

def Plan.named (plan : Plan) : List Effect := effects (plan.ops ++ plan.inverse)

/-- The plans name no common destination, rule or ownership row. -/
def Plan.Apart (first second : Plan) : Prop :=
  ∀ e ∈ first.named, ∀ other ∈ second.named, e.Apart other

instance (first second : Plan) : Decidable (first.Apart second) :=
  inferInstanceAs (Decidable (∀ e ∈ _, ∀ other ∈ _, _))

theorem Plan.Apart.symm {first second : Plan} (apart : first.Apart second) : second.Apart first :=
  fun e member other otherMember => (apart other otherMember e member).symm

variable {plan : Plan}

theorem Plan.Apart.leftPlan {other : Plan} (apart : plan.Apart other)
    {left : List PlanOp} (replayed : ∀ op ∈ left, op ∈ plan.inverse) :
    (leftPlan left).Apart other := by
  have leftApart : ∀ e ∈ effects left, ∀ e' ∈ other.named, e.Apart e' := by
    intro e member
    refine apart e (effects_subset ?_ member)
    exact fun op inLeft => mem_append_right _ (replayed op inLeft)
  intro e member e' otherMember
  rw [Plan.named, effects_append, mem_append] at member
  rcases member with inOps | inInverse
  · have undo : e ∈ (effects left).reverse.map Effect.inverse := by
      rw [← effects_reverse_inverseOp]
      exact inOps
    obtain ⟨was, inLeft, rfl⟩ := mem_map.mp undo
    exact Effect.inverse_apart.mpr (leftApart was (mem_reverse.mp inLeft) e' otherMember)
  · exact leftApart e inInverse e' otherMember

/-! ### Undoing entries in any order -/

/-- What undoing an entry does to the kernel when every call succeeds. -/
def undoEffects (entry : String × Plan) : List Effect :=
  effects (withoutTunnelLinks entry.2.inverse)

def undoRecords (entry : String × Plan) : List Effect :=
  if hasPrefix entry.1 routeOpTxPrefix then []
  else (effects entry.2.ops).map Effect.inverse

theorem recoverPending_kernel (visited : List (String × Plan)) (w : World) :
    (recoverPending M (fun _ => noFaults) visited w).kernel =
      w.kernel.run M (visited.map undoEffects).flatten := by
  induction visited generalizing w with
  | nil => rfl
  | cons entry visited ih =>
    have first : (recoverEntry M noFaults w entry.1 entry.2).kernel =
        w.kernel.run M (undoEffects entry) :=
      Executor.runOps_noFaults _ _
    rw [map_cons, flatten_cons, Kernel.run_append, ← first]
    exact ih _

theorem recoverPending_owned (visited : List (String × Plan)) (w : World) :
    (recoverPending M (fun _ => noFaults) visited w).owned =
      w.owned.record (visited.map undoRecords).flatten := by
  induction visited generalizing w with
  | nil => rfl
  | cons entry visited ih =>
    have first : (recoverEntry M noFaults w entry.1 entry.2).owned =
        w.owned.record (undoRecords entry) := by
      unfold recoverEntry undoRecords
      split
      · rfl
      · exact applyOwnership_undo _ _
    rw [map_cons, flatten_cons, Ownership.record, foldl_append]
    have rest := ih (recoverEntry M noFaults w entry.1 entry.2)
    rw [first] at rest
    exact rest

theorem undoEffects_subset (entry : String × Plan) : undoEffects entry ⊆ entry.2.named := by
  refine effects_subset ?_
  intro op member
  exact mem_append_right _ (mem_of_mem_filter member)

theorem mem_undoRecords {entry : String × Plan} {e : Effect} (member : e ∈ undoRecords entry) :
    ∃ was ∈ entry.2.named, was.inverse = e := by
  unfold undoRecords at member
  split at member
  · exact absurd member not_mem_nil
  obtain ⟨was, inOps, rfl⟩ := mem_map.mp member
  refine ⟨was, effects_subset ?_ inOps, rfl⟩
  exact fun op => mem_append_left _

theorem recoverPending_perm {first second : List (String × Plan)} (perm : first.Perm second)
    (apart : first.Pairwise fun a b => a.2.Apart b.2) (w : World) :
    (recoverPending M (fun _ => noFaults) first w).kernel.Same
        (recoverPending M (fun _ => noFaults) second w).kernel ∧
      ∀ row, (recoverPending M (fun _ => noFaults) first w).owned.docAt row =
        (recoverPending M (fun _ => noFaults) second w).owned.docAt row := by
  rw [recoverPending_kernel, recoverPending_kernel, recoverPending_owned, recoverPending_owned]
  refine ⟨⟨?_, ?_⟩, ?_⟩
  · refine (routeCells M).view_run_perm (perm.map undoEffects) ?_ w.kernel
    refine pairwise_map.mpr (apart.imp fun {a b} plans => ?_)
    refine (routeCells M).separated_of_cells fun e member other there => ?_
    exact (plans e (undoEffects_subset a member) other (undoEffects_subset b there)).dst
  · refine (ruleCells M).view_run_perm (perm.map undoEffects) ?_ w.kernel
    refine pairwise_map.mpr (apart.imp fun {a b} plans => ?_)
    refine (ruleCells M).separated_of_cells fun e member other there => ?_
    exact (plans e (undoEffects_subset a member) other (undoEffects_subset b there)).rule
  · refine ownershipCells.view_run_perm (perm.map undoRecords) ?_ w.owned
    refine pairwise_map.mpr (apart.imp fun {a b} plans => ?_)
    refine ownershipCells.separated_of_cells fun e member other there => ?_
    obtain ⟨was, named, rfl⟩ := mem_undoRecords member
    obtain ⟨was', named', rfl⟩ := mem_undoRecords there
    have rows := (plans was named was' named').row
    simpa [ownershipCells] using rows

/-! ### The entries of a run -/

/-- A step that, if it journals a plan, journals one that is apart from every
other entry this build would undo. -/
def JournalsApart (s : State) (e : Event) : Prop :=
  ∀ fails p q, e = .journal fails → s.process = .serving p → p.holder = .preparing q →
    ∀ id plan, (id, plan) ∈ s.world.journal.listPendingTx →
      p.nextTxID q.ownership ≠ id → q.plan.Apart plan

def EntriesApart (journal : Journal) : Prop :=
  ∀ id plan, (id, plan) ∈ journal.listPendingTx →
    ∀ other plan', (other, plan') ∈ journal.listPendingTx → id ≠ other → plan.Apart plan'

theorem EntriesApart.put {journal : Journal} {new : String} {written : Plan}
    (held : EntriesApart journal)
    (apart : ∀ id plan, (id, plan) ∈ journal.listPendingTx → new ≠ id → written.Apart plan) :
    EntriesApart (journal.putPendingTx new written) := by
  intro id plan listed other plan' listed' differ
  rcases Journal.mem_listPendingTx_put.mp listed with
    ⟨rfl, rfl⟩ | ⟨notNew, earlier⟩
  · rcases Journal.mem_listPendingTx_put.mp listed' with
      ⟨rfl, rfl⟩ | ⟨notNew', earlier'⟩
    · exact absurd rfl differ
    · exact apart other plan' earlier' notNew'
  · rcases Journal.mem_listPendingTx_put.mp listed' with
      ⟨rfl, rfl⟩ | ⟨notNew', earlier'⟩
    · exact (apart id plan earlier notNew).symm
    · exact held id plan earlier other plan' earlier' differ

theorem EntriesApart.clear {journal : Journal} (held : EntriesApart journal)
    (gone : String) : EntriesApart (journal.clearPendingTx gone) := by
  intro id plan listed other plan' listed' differ
  exact held id plan (Journal.mem_listPendingTx_clear.mp listed).2 other plan'
    (Journal.mem_listPendingTx_clear.mp listed').2 differ

/-- Every live transaction's plan is apart from the other entries. -/
def LiveApart (journal : Journal) (p : Serving) : Prop :=
  ∀ id plan ownership, p.Live id plan ownership →
    ∀ other plan', (other, plan') ∈ journal.listPendingTx → id ≠ other → plan.Apart plan'

/-- What such steps preserve. -/
structure OrderFree (s : State) : Prop where
  entries : EntriesApart s.world.journal
  one : ∀ p, s.process = .serving p → p.OneUnresolved
  replays : ∀ p, s.process = .serving p → p.EachPending PendingTx.Replays
  live : ∀ p, s.process = .serving p → LiveApart s.world.journal p

variable {p : Serving} {s : State}

theorem OrderFree.leftPlan_apart (held : OrderFree s)
    (serves : s.process = .serving p) {t : PendingTx} {left : List PlanOp}
    (found : p.pending.find t.id = some t)
    (ends : t.phase = .rollingBack [] left none) {id : String}
    (listed : (id, plan) ∈ s.world.journal.listPendingTx)
    (differ : t.id ≠ id) : (leftPlan left).Apart plan := by
  have apart := held.live p serves t.id t.plan t.ownership
    (.pending t found rfl rfl) id plan listed differ
  refine apart.leftPlan fun op inLeft => ?_
  have replayed := held.replays p serves t.id t found _ _ _ ends op (mem_append_left _ inLeft)
  exact mem_of_mem_filter replayed

theorem Serving.OneUnresolved.live_id (held : p.OneUnresolved)
    {id other : String} {plan' : Plan} {ownership ownership' : Bool}
    (live : p.Live id plan ownership) (live' : p.Live other plan' ownership') :
    id = other := by
  cases live with
  | executing x holds idIs =>
    cases live' with
    | executing y holds' idIs' =>
      obtain rfl := Holder.executing.inj (holds.symm.trans holds')
      exact idIs.symm.trans idIs'
    | pending t found =>
      rw [held.executing x holds other] at found
      cases found
  | pending t found =>
    cases live' with
    | executing y holds' =>
      rw [held.executing y holds' id] at found
      cases found
    | pending u found' => exact held.alone id other t u found found'

theorem Serving.OneUnresolved.not_live_of_starts
    (held : p.OneUnresolved) {new : String} {written : Plan} {owned : Bool}
    (starts : p.Starts new written owned) {id : String}
    {ownership : Bool} : ¬ p.Live id plan ownership := by
  obtain ⟨⟨q, holds, ready, _, _⟩, _⟩ := starts
  intro live
  cases live with
  | executing x holds' => exact absurd (holds.symm.trans holds') (by simp)
  | pending t found =>
    rw [held.ready q holds ready id] at found
    cases found

variable {e : Event}

theorem OrderFree.entries_step {next : State} (held : OrderFree s) (ok : JournalsApart s e)
    (moves : s.Moves M platform e next) : EntriesApart next.world.journal := by
  cases journalStep_of_moves moves with
  | same unchanged =>
    rw [unchanged]
    exact held.entries
  | recovered _ _ cleared | cleared _ _ cleared =>
    rw [cleared]
    exact held.entries.clear _
  | started serves isEvent starts written =>
    obtain ⟨⟨q, holds, _, rfl, rfl⟩, rfl⟩ := starts
    obtain ⟨fails, isJournal⟩ := isEvent
    rw [written]
    exact held.entries.put (ok fails _ q isJournal serves holds)
  | narrowed serves found ends written =>
    rw [written]
    exact held.entries.put fun id plan listed differ =>
      held.leftPlan_apart serves found ends listed differ

theorem OrderFree.live_step {next : State} (held : OrderFree s) (moves : s.Moves M platform e next)
    (serves : s.process = .serving p) : LiveApart next.world.journal p := by
  intro id plan ownership live other plan' listed differ
  have apart := held.live p serves id plan ownership live other plan'
  cases journalStep_of_moves moves with
  | same unchanged =>
    rw [unchanged] at listed
    exact apart listed differ
  | recovered _ _ cleared | cleared _ _ cleared =>
    rw [cleared] at listed
    exact apart (Journal.mem_listPendingTx_clear.mp listed).2 differ
  | started serves' _ starts _ =>
    obtain rfl := Process.serving.inj (serves.symm.trans serves')
    exact absurd live ((held.one p serves).not_live_of_starts starts)
  | @narrowed _ t _ serves' found _ written =>
    obtain rfl := Process.serving.inj (serves.symm.trans serves')
    rw [written] at listed
    rcases Journal.mem_listPendingTx_put.mp listed with
      ⟨rfl, rfl⟩ | ⟨_, earlier⟩
    · exact absurd ((held.one p serves).live_id live (.pending t found rfl rfl)) differ
    · exact apart earlier differ

theorem OrderFree.step {next : State} (held : OrderFree s) (ok : JournalsApart s e)
    (stepped : (protocol M platform).step s e = some next) :
    OrderFree next := by
  have moves := State.moves_of_step stepped
  refine ⟨held.entries_step ok moves, ?_, ?_, ?_⟩ <;> intro p' serves' <;>
    rcases State.serving_of_moves moves serves' with
      ⟨rfl, _, _⟩ | ⟨p, serves, inner⟩
  · exact .start
  · exact (held.one p serves).step inner
  · exact fun _ _ found => by cases found
  · exact Serving.replays_step (held.replays p serves) inner
  · exact fun _ _ _ live => absurd live Serving.not_live_start
  · intro id plan ownership live
    rcases Serving.live_of_moves inner live with old | ⟨⟨fails, rfl⟩, starts⟩
    · exact held.live_step moves serves id plan ownership old
    · obtain ⟨⟨q, holds, _, rfl, rfl⟩, rfl⟩ := starts
      intro other plan' listed differ
      refine ok fails p q rfl serves holds other plan' ?_ differ
      -- the step adds no entry but the transaction's own
      generalize next.world = w' at inner listed
      cases inner with
      | journal _ holds' _ =>
        obtain rfl := Holder.preparing.inj (holds.symm.trans holds')
        cases fails with
        | true => exact listed
        | false =>
          rcases Journal.mem_listPendingTx_put.mp listed with
            ⟨same, _⟩ | ⟨_, earlier⟩
          · exact absurd same differ
          · exact earlier

/-- In whatever order a start of the daemon visits the journal's entries, it
leaves the same routes, rules and ownership records, after any run from an
empty journal in which no plan is journaled that names a destination, a rule
or an ownership row of an entry still in the journal. -/
theorem recovery_order_irrelevant {s₀ s : State} {es : List Event} (boots : s₀.process = .booting)
    (empty : s₀.world.journal.listPendingTx = [])
    (along : (protocol M platform).Along JournalsApart s₀ es)
    (ran : (protocol M platform).run s₀ es = some s)
    {first second : List (String × Plan)}
    (firstVisits : first.Perm s.world.journal.listPendingTx)
    (secondVisits : second.Perm s.world.journal.listPendingTx) :
    (recoverPending M (fun _ => noFaults) first s.world).kernel.Same
        (recoverPending M (fun _ => noFaults) second s.world).kernel ∧
      ∀ row, (recoverPending M (fun _ => noFaults) first s.world).owned.docAt row =
          (recoverPending M (fun _ => noFaults) second s.world).owned.docAt row := by
  have start : OrderFree s₀ := by
    refine ⟨?_, ?_, ?_, ?_⟩
    · intro id plan listed
      rw [empty] at listed
      exact absurd listed not_mem_nil
    all_goals
      intro p serves
      exact absurd (boots.symm.trans serves) (by simp)
  have held : OrderFree s :=
    Machine.invariant OrderFree (fun _ _ _ held ok stepped =>
      held.step ok stepped) start along ran
  refine recoverPending_perm (firstVisits.trans secondVisits.symm) ?_ s.world
  have ids : (first.map Prod.fst).Nodup :=
    (firstVisits.map Prod.fst).nodup_iff.mpr (Journal.nodup_listPendingTx s.world.journal)
  refine (pairwise_map.mp ids).imp_of_mem ?_
  rintro ⟨id, plan⟩ ⟨other, plan'⟩ member member' differ
  exact held.entries id plan (firstVisits.mem_iff.mp member) other plan'
    (firstVisits.mem_iff.mp member') differ

theorem JournalsApart.of_holder {q : Prepare} (serves : s.process = .serving p)
    (holds : p.holder = .preparing q)
    (apart : ∀ entry ∈ s.world.journal.listPendingTx,
      p.nextTxID q.ownership ≠ entry.1 → q.plan.Apart entry.2) :
    JournalsApart s e := by
  intro _ p' q' _ serves' holds' id plan listed
  obtain rfl := Process.serving.inj (serves.symm.trans serves')
  obtain rfl := Holder.preparing.inj (holds.symm.trans holds')
  exact apart (id, plan) listed

-- A second apply, over what a failed rollback left, and a crash after it.
namespace CrashOverLeftover

def other : ManagedRoute :=
  { route :=
      { dstCIDR := "192.168.0.0/16", gateway := "192.168.1.1", iface := "eth0" }
    profileID := "work" }

def run (first second : List ManagedRoute) : List Event :=
  FailedRollback.run first ++ FailedRollback.apply second ++ [.crash]

end CrashOverLeftover

/-- The second apply adds a route elsewhere: two entries, in either order. -/
theorem leftover_apart_order : ∃ s, (protocol Matching.exact "linux").run FailedRollback.boot
        (CrashOverLeftover.run [NextHopChange.old, FailedRollback.added]
          [NextHopChange.old, FailedRollback.added, CrashOverLeftover.other]) =
          some s ∧
      s.world.journal.listPendingTx.length = 2 ∧
      (recoverPending Matching.exact (fun _ => noFaults)
        s.world.journal.listPendingTx s.world).kernel.Same
        (recoverPending Matching.exact (fun _ => noFaults)
          s.world.journal.listPendingTx.reverse s.world).kernel := by
  have along : (protocol Matching.exact "linux").Along JournalsApart FailedRollback.boot
      (CrashOverLeftover.run [NextHopChange.old, FailedRollback.added]
        [NextHopChange.old, FailedRollback.added, CrashOverLeftover.other]) := by
    iterate 7 refine .cons rfl (fun _ _ _ isEvent => by cases isEvent) ?_
    refine .cons rfl (.of_holder rfl rfl (by decide)) ?_
    iterate 15 refine .cons rfl (fun _ _ _ isEvent => by cases isEvent) ?_
    -- the leftover entry and the new plan
    refine .cons rfl (.of_holder rfl rfl (by decide)) ?_
    iterate 5 refine .cons rfl (fun _ _ _ isEvent => by cases isEvent) ?_
    trivial
  exact ⟨_, rfl, by decide, (recovery_order_irrelevant rfl rfl along rfl
    (List.Perm.refl _) (reverse_perm _)).1⟩

/-- The second apply takes the destination whose route the rollback failed to
put back.  Undone last, the apply takes its route away and leaves nothing
there; undone first, it makes room for the old route. -/
theorem recovery_order_matters : ∃ s, (protocol Matching.exact "linux").run FailedRollback.boot
        (CrashOverLeftover.run [] [NextHopChange.new]) = some s ∧
      (recoverPending Matching.exact (fun _ => noFaults)
        s.world.journal.listPendingTx s.world).kernel.routes.find NextHopChange.old.dst ≠
        (recoverPending Matching.exact (fun _ => noFaults)
          s.world.journal.listPendingTx.reverse s.world).kernel.routes.find NextHopChange.old.dst :=
  ⟨_, rfl, by decide⟩

end RiftRoute
