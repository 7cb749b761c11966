/-
Module: RiftRoute.Safety.Resolutions
Purpose: Transactions from their journal entry to their resolution: what a step
  does to those in flight and to their entries.
Trusted boundary: none
-/
import RiftRoute.Safety.Protocol

namespace RiftRoute

open List Serving KeyedTable Holder

variable {M : Matching} {platform : String}

/-- How a transaction ends. -/
inductive Outcome where
  | committed
  | rolledBack
deriving DecidableEq, Repr

/-- The transaction a step writes the journal entry of. -/
def Serving.starts (s : Serving) : Event → Option String
  | .journal _ =>
    match s.holder with
    | .preparing p => some (s.nextTxID p.ownership)
    | _ => none
  | _ => none

/-- The transaction a step resolves.  One whose execution fails is undone
before its apply returns. -/
def Serving.resolves (s : Serving) : Event → Option (String × Outcome)
  | .undone _ =>
    match s.holder with
    | .executing x => some (x.id, .rolledBack)
    | _ => none
  | .finish _ =>
    match s.holder with
    | .executing x =>
      if x.prepared.unguarded then some (x.id, .committed) else none
    | _ => none
  | .resolver id (.commit _) => some (id, .committed)
  | .resolver id (.rollbackEnd _) => some (id, .rolledBack)
  | _ => none

/-! ### Transactions in flight -/

def Holder.executes : Holder → List (String × Plan)
  | .executing x => [(x.id, x.prepared.plan)]
  | _ => []

/-- The transactions whose resolver is not done. -/
def Serving.unsettled (s : Serving) : List (String × Plan) :=
  (s.pending.rows.filter fun t => t.phase ≠ .settled).map fun t => (t.id, t.plan)

/-- The transactions that are started and not resolved. -/
def Serving.inFlight (s : Serving) : List (String × Plan) := s.holder.executes ++ s.unsettled

variable {plan : Plan} {id : String} {holder : Holder}

theorem Holder.mem_executes : (id, plan) ∈ holder.executes ↔
      ∃ x, holder = .executing x ∧ x.id = id ∧ x.prepared.plan = plan := by
  cases holder with
  | executing x =>
    simp only [executes, mem_singleton, Prod.mk.injEq,
      executing.injEq, exists_eq_left']
    constructor <;> rintro ⟨rfl, rfl⟩ <;> exact ⟨rfl, rfl⟩
  | free | preparing | panicking => simp [executes]

variable {s : Serving}

theorem Serving.mem_unsettled : (id, plan) ∈ s.unsettled ↔
      ∃ t, s.pending.find id = some t ∧ t.phase ≠ .settled ∧ t.plan = plan := by
  simp only [unsettled, mem_map, mem_filter, decide_eq_true_eq, Prod.mk.injEq]
  constructor
  · rintro ⟨t, ⟨member, unsettled⟩, rfl, rfl⟩
    exact ⟨t, find_of_mem member, unsettled, rfl⟩
  · rintro ⟨t, found, unsettled, planIs⟩
    exact ⟨t, ⟨mem_of_find found, unsettled⟩, key_of_find found, planIs⟩

theorem Serving.mem_inFlight : (id, plan) ∈ s.inFlight ↔
      (∃ x, s.holder = .executing x ∧ x.id = id ∧ x.prepared.plan = plan) ∨
        ∃ t, s.pending.find id = some t ∧ t.phase ≠ .settled ∧ t.plan = plan := by
  rw [inFlight, mem_append, mem_executes, mem_unsettled]

theorem Serving.inFlight_start : ({} : Serving).inFlight = [] := rfl

theorem Serving.mem_inFlight_of_none_pending (none : ∀ id, s.pending.find id = .none) :
    (id, plan) ∈ s.inFlight ↔
      ∃ x, s.holder = .executing x ∧ x.id = id ∧ x.prepared.plan = plan := by
  rw [mem_inFlight]
  simp [none]

theorem Serving.mem_inFlight_of_not_executing (idle : ∀ x, s.holder ≠ .executing x) :
    (id, plan) ∈ s.inFlight ↔ ∃ t, s.pending.find id = some t ∧ t.phase ≠ .settled ∧
        t.plan = plan := by
  rw [mem_inFlight]
  simp [idle]

/-- What a step does to the transactions in flight. -/
inductive Serving.Flight (w w' : World) (p p' : Serving) (e : Event) :
    Prop where
  | same (startsNone : p.starts e = none) (resolvesNone : p.resolves e = none)
      (same : ∀ tx, tx ∈ p'.inFlight ↔ tx ∈ p.inFlight)
      (journal : w'.journal = w.journal)
  | started {id : String} {plan : Plan} {ownership : Bool}
      (issued : p.nextTxID ownership = id) (next : p'.idseq = p.idseq + 1)
      (starts : p.starts e = some id)
      (resolvesNone : p.resolves e = none) (before : ∀ tx, tx ∉ p.inFlight)
      (after : ∀ tx, tx ∈ p'.inFlight ↔ tx = (id, plan))
      (journal : e ≠ .journal true → w'.journal = w.journal.putPendingTx id plan)
  | resolved {id : String} {plan : Plan} {outcome : Outcome}
      (startsNone : p.starts e = none)
      (resolves : p.resolves e = some (id, outcome))
      (before : ∀ tx, tx ∈ p.inFlight ↔ tx = (id, plan))
      (after : ∀ tx, tx ∉ p'.inFlight)

variable {p p' : Serving}

theorem Serving.inFlight_congr (executes : p'.holder.executes = p.holder.executes)
    (pending : p'.pending = p.pending) : p'.inFlight = p.inFlight := by
  rw [inFlight, inFlight, unsettled, unsettled, executes, pending]

theorem Serving.mem_inFlight_decide (executes : holder.executes = p.holder.executes) (id : String)
    (decision : Decision) (tx : String × Plan) :
    tx ∈ ({ p with
        pending := p.pending.decide id decision, holder := holder } :
          Serving).inFlight ↔ tx ∈ p.inFlight := by
  rw [inFlight, inFlight, mem_append, mem_append, executes]
  refine or_congr_right ?_
  rw [mem_unsettled, mem_unsettled]
  constructor
  · rintro ⟨t, found, unsettled, planIs⟩
    obtain ⟨before, atOther, _, samePlan, _, samePhase⟩ := Pending.find_decide found
    exact ⟨before, atOther, samePhase ▸ unsettled, samePlan ▸ planIs⟩
  · rintro ⟨t, found, unsettled, planIs⟩
    obtain ⟨after, atOther, _, samePhase⟩ := Pending.find_decide_some id decision found
    obtain ⟨before, wasAtOther, _, samePlan, _, _⟩ := Pending.find_decide atOther
    obtain rfl := Option.some.inj (found.symm.trans wasAtOther)
    exact ⟨after, atOther, samePhase ▸ unsettled, samePlan ▸ planIs⟩

theorem Holder.executes_settle {settling next : Settling}
    (waits : holder.settling = some settling) :
    (holder.settle next).executes = holder.executes := by
  cases holder with
  | free | executing => cases waits
  | preparing | panicking => rfl

theorem Holder.executes_of_settling {settling : Settling}
    (waits : holder.settling = some settling) : holder.executes = [] := by
  cases holder with
  | free | executing => cases waits
  | preparing | panicking => rfl

variable {w w' : World} {e : Event}

theorem Serving.finish_of_step {fails : Bool}
    (stepped : p.step M platform w (.finish fails) = some (w', p')) :
    ∃ x, p.holder = .executing x ∧
      ((x.prepared.unguarded = true ∧ p' = { p with holder := .free }) ∨
        x.prepared.unguarded = false ∧ w' = w ∧
          p' = { p with pending := p.pending.put x.pendingTx
                        holder := .free }) := by
  simp only [step] at stepped
  split at stepped
  · rename_i x holds
    split at stepped
    · split at stepped
      · rename_i unguarded
        cases stepped
        exact ⟨x, holds, .inl ⟨unguarded, rfl⟩⟩
      · rename_i guarded
        cases stepped
        exact ⟨x, holds, .inr ⟨Bool.eq_false_iff.mpr guarded, rfl, rfl⟩⟩
    · cases stepped
  · cases stepped

theorem Serving.OneUnresolved.inFlight_executing
    (held : p.OneUnresolved) {x : Execution} (holds : p.holder = .executing x)
    (tx : String × Plan) :
    tx ∈ p.inFlight ↔ tx = (x.id, x.prepared.plan) := by
  obtain ⟨id, plan⟩ := tx
  rw [mem_inFlight_of_none_pending (held.executing x holds), holds, Prod.mk.injEq]
  simp only [executing.injEq, exists_eq_left']
  constructor <;> rintro ⟨rfl, rfl⟩ <;> exact ⟨rfl, rfl⟩

variable {t : PendingTx}

theorem Serving.OneUnresolved.inFlight_pending (held : p.OneUnresolved)
    (found : p.pending.find id = some t) (unsettled : t.phase ≠ .settled)
    (tx : String × Plan) : tx ∈ p.inFlight ↔ tx = (id, t.plan) := by
  obtain ⟨other, plan⟩ := tx
  have idle : ∀ x, p.holder ≠ .executing x := by
    intro x holds
    rw [held.executing x holds id] at found
    cases found
  rw [mem_inFlight_of_not_executing idle, Prod.mk.injEq]
  constructor
  · rintro ⟨u, atOther, _, planIs⟩
    obtain rfl := held.alone id other t u found atOther
    obtain rfl := Option.some.inj (found.symm.trans atOther)
    exact ⟨rfl, planIs.symm⟩
  · rintro ⟨rfl, rfl⟩
    exact ⟨t, found, unsettled, rfl⟩

theorem Serving.OneUnresolved.inFlight_settled (held : p.OneUnresolved)
    (found : p.pending.find id = some t) (settled : t.phase = .settled)
    (tx : String × Plan) : tx ∉ p.inFlight := by
  obtain ⟨other, plan⟩ := tx
  intro member
  rcases mem_inFlight.mp member with
    ⟨x, holds, _, _⟩ | ⟨u, atOther, unsettled, _⟩
  · rw [held.executing x holds id] at found
    cases found
  · obtain rfl := held.alone id other t u found atOther
    obtain rfl := Option.some.inj (found.symm.trans atOther)
    exact unsettled settled

theorem PendingTx.Moves.settles {t' : PendingTx}
    {r : ResolveEvent} (moves : t.Moves M w r w' t') :
    t.phase ≠ .settled ∧ ((t'.phase ≠ .settled ∧ w'.journal = w.journal ∧
          (∀ fails, r ≠ .commit fails) ∧ ∀ fails, r ≠ .rollbackEnd fails) ∨
        t'.phase = .settled ∧
          ((∃ fails, r = .commit fails) ∨ ∃ fails, r = .rollbackEnd fails)) := by
  cases moves with
  | commitTaken waits | rollbackTaken waits =>
    exact ⟨by simp [waits], .inl ⟨by simp, rfl, by simp, by simp⟩⟩
  | commit fails commits => exact ⟨by simp [commits], .inr ⟨rfl, .inl ⟨fails, rfl⟩⟩⟩
  | opDone _ replays _ | opFailed _ replays _ =>
    exact ⟨by simp [replays], .inl ⟨by simp, rfl, by simp, by simp⟩⟩
  | record _ records => exact ⟨by simp [records], .inl ⟨by simp, rfl, by simp, by simp⟩⟩
  | complete fails ends | incomplete fails _ ends =>
    exact ⟨by simp [ends], .inr ⟨rfl, .inr ⟨fails, rfl⟩⟩⟩

theorem Serving.resolves_commit (p : Serving) (id : String) (fails : Bool) :
    p.resolves (.resolver id (.commit fails)) = some (id, .committed) := rfl

theorem Serving.resolves_rollbackEnd (p : Serving) (id : String) (fails : Bool) :
    p.resolves (.resolver id (.rollbackEnd fails)) = some (id, .rolledBack) :=
  rfl

theorem Serving.resolves_resolver_eq_none
    {r : ResolveEvent} (notCommit : ∀ fails, r ≠ .commit fails)
    (notEnd : ∀ fails, r ≠ .rollbackEnd fails) :
    p.resolves (.resolver id r) = none := by
  cases r with
  | commit fails => exact absurd rfl (notCommit fails)
  | rollbackEnd fails => exact absurd rfl (notEnd fails)
  | takeDecision | rollbackOp | rollbackRecord => rfl

theorem Serving.flight_of_resolver {t' : PendingTx} {r : ResolveEvent}
    (held : p.OneUnresolved) (held' : p'.OneUnresolved)
    (found : p.pending.find id = some t)
    (found' : p'.pending.find id = some t') (moves : t.Moves M w r w' t') :
    Flight w w' p p' (.resolver id r) := by
  obtain ⟨unsettled, rest⟩ := moves.settles
  have before := held.inFlight_pending found unsettled
  rcases rest with ⟨unsettled', journal, notCommit, notEnd⟩ | ⟨settled, ends⟩
  · have after := held'.inFlight_pending found' unsettled'
    rw [moves.keeps.2.1] at after
    exact .same rfl (resolves_resolver_eq_none notCommit notEnd)
      (fun tx => (after tx).trans (before tx).symm) journal
  · have after := held'.inFlight_settled found' settled
    rcases ends with ⟨fails, rfl⟩ | ⟨fails, rfl⟩
    · exact .resolved rfl (p.resolves_commit id fails) before after
    · exact .resolved rfl (p.resolves_rollbackEnd id fails) before after

theorem Serving.OneUnresolved.not_mem_inFlight_erase (held : p.OneUnresolved)
    (found : p.pending.find id = some t) (tx : String × Plan) :
    tx ∉ ({ p with pending := p.pending.erase id } : Serving).inFlight := by
  obtain ⟨other, plan⟩ := tx
  intro member
  rcases mem_inFlight.mp member with
    ⟨x, holds, _, _⟩ | ⟨u, atOther, _, _⟩
  · rw [held.executing x holds id] at found
    cases found
  · rw [find_erase] at atOther
    split at atOther
    · cases atOther
    rename_i apart
    exact apart (held.alone id other t u found atOther)

theorem Serving.Flight.idle (startsNone : p.starts e = none) (resolvesNone : p.resolves e = none)
    (before : p.holder.executes = []) (after : p'.holder.executes = [])
    (pending : p'.pending = p.pending) (journal : w'.journal = w.journal) :
    Flight w w' p p' e := by
  refine .same startsNone resolvesNone (fun tx => ?_) journal
  rw [inFlight_congr (after.trans before.symm) pending]

theorem Serving.OneUnresolved.not_mem_inFlight_freed
    (held : p.OneUnresolved) {x : Execution} (holds : p.holder = .executing x)
    (tx : String × Plan) :
    tx ∉ ({ p with holder := .free } : Serving).inFlight := by
  intro member
  rcases mem_inFlight.mp member with ⟨_, executes, _⟩ | ⟨_, found, _⟩
  · cases executes
  · exact absurd found (by simp [held.executing x holds])

theorem Serving.flight_of_finish {fails : Bool}
    (held : p.OneUnresolved) (held' : p'.OneUnresolved)
    (stepped : p.step M platform w (.finish fails) = some (w', p')) :
    Flight w w' p p' (.finish fails) := by
  obtain ⟨x, holds, ⟨unguarded, rfl⟩ | ⟨guarded, rfl, rfl⟩⟩ := finish_of_step stepped
  · have resolves : p.resolves (.finish fails) = some (x.id, .committed) := by
      simp [resolves, holds, unguarded]
    exact .resolved rfl resolves (held.inFlight_executing holds) (held.not_mem_inFlight_freed holds)
  · refine .same rfl (by simp [resolves, holds, guarded]) (fun tx => ?_) rfl
    have found : (p.pending.put x.pendingTx).find x.id = some x.pendingTx := by
      rw [find_put]
      exact if_pos rfl
    rw [held.inFlight_executing holds, held'.inFlight_pending found (by simp [Execution.pendingTx])]
    rfl

theorem Serving.flight_of_step (held : p.OneUnresolved)
    (stepped : p.step M platform w e = some (w', p')) :
    Flight w w' p p' e := by
  have moves := moves_of_step stepped
  have held' := held.step moves
  cases moves with
  | lockApply _ _ _ _ free | lockRouteOp _ _ _ _ free _ | panicLock free =>
    exact .idle rfl rfl (congrArg executes free) rfl rfl rfl
  | prepare _ holds _ | giveUp holds =>
    exact .idle rfl rfl (congrArg executes holds) rfl rfl rfl
  | panicFlush faults flush holds =>
    exact .idle rfl rfl (congrArg executes holds) rfl rfl (panic_journal M faults flush w)
  | await settling _ =>
    have idle := executes_of_settling settling
    exact .idle rfl rfl idle ((executes_settle settling).trans idle) rfl rfl
  | ask settling =>
    exact .same rfl rfl (mem_inFlight_decide (executes_settle settling) _ _) rfl
  | decide id decision =>
    exact .same rfl rfl (mem_inFlight_decide rfl id decision) rfl
  | panicStart => exact .same rfl rfl (fun _ => Iff.rfl) rfl
  | @journal q fails holds ready =>
    refine .started rfl rfl (by simp [starts, holds]) rfl ?_
      (held'.inFlight_executing rfl) ?_
    · rintro ⟨id, plan⟩ member
      obtain ⟨x, executes, _⟩ := (mem_inFlight_of_none_pending
        (held.ready q holds ready)).mp member
      rw [holds] at executes
      cases executes
    · intro journals
      cases fails with
      | false => rfl
      | true => exact absurd rfl journals
  | execute _ holds executed =>
    obtain ⟨samePrepared, sameId, journal⟩ := Execution.step_keeps executed
    refine .same rfl rfl (fun tx => ?_) journal
    rw [held.inFlight_executing holds, held'.inFlight_executing rfl, sameId, samePrepared]
  | @undone x fails holds =>
    have resolves : p.resolves (.undone fails) = some (x.id, .rolledBack) := by
      simp [resolves, holds]
    exact .resolved rfl resolves (held.inFlight_executing holds) (held.not_mem_inFlight_freed holds)
  | finishUnguarded | finishGuarded =>
    exact flight_of_finish held held' stepped
  | resolver r found resolved =>
    have moved := PendingTx.moves_of_step resolved
    have keyEq := moved.keeps.1.trans (key_of_find found)
    refine flight_of_resolver held held' found ?_ moved
    rw [find_put, if_pos keyEq]
  | finishTx found settled =>
    refine .same rfl rfl (fun tx => ?_) rfl
    exact iff_of_false (held.not_mem_inFlight_erase found tx)
      (held.inFlight_settled found settled tx)

/-! ### Ids -/

/-- An id that one of the first `n` transactions of a process has. -/
def IssuedBy (n : Nat) (id : String) : Prop := ∃ k ≤ n, id = txID k ∨ id = routeOpTxID k

theorem IssuedBy.mono {n m : Nat} (issued : IssuedBy n id) (le : n ≤ m) : IssuedBy m id := by
  obtain ⟨k, bound, isID⟩ := issued
  exact ⟨k, bound.trans le, isID⟩

theorem txID_inj {n m : Nat} (same : txID n = txID m) : n = m := by
  refine Texts.natRepr_inj (String.toList_inj.mp ?_)
  have chars := String.toList_inj.mpr same
  rw [txID, txID, String.toList_append, String.toList_append] at chars
  exact append_cancel_left chars

theorem routeOpTxID_inj {n m : Nat} (same : routeOpTxID n = routeOpTxID m) : n = m := by
  rw [routeOpTxID_eq, routeOpTxID_eq] at same
  refine Texts.natRepr_inj (String.toList_inj.mp ?_)
  have chars := String.toList_inj.mpr same
  rw [String.toList_append, String.toList_append] at chars
  exact append_cancel_left chars

theorem txID_ne_routeOpTxID (n m : Nat) : txID n ≠ routeOpTxID m := by
  intro same
  have notRouteOp := not_isRouteOp_txID n
  rw [same, isRouteOp_routeOpTxID] at notRouteOp
  cases notRouteOp

theorem Serving.issued_nextTxID (s : Serving) (ownership : Bool) :
    IssuedBy (s.idseq + 1) (s.nextTxID ownership) := by
  refine ⟨s.idseq + 1, le_rfl, ?_⟩
  cases ownership with
  | true => exact .inl rfl
  | false => exact .inr rfl

theorem Serving.nextTxID_fresh (s : Serving) (ownership : Bool) :
    ¬ IssuedBy s.idseq (s.nextTxID ownership) := by
  rintro ⟨k, bound, isID⟩
  have later : k ≠ s.idseq + 1 := by omega
  cases ownership with
  | true =>
    rcases isID with isTx | isRouteOp
    · exact later (txID_inj isTx).symm
    · exact txID_ne_routeOpTxID _ _ isRouteOp
  | false =>
    rcases isID with isTx | isRouteOp
    · exact txID_ne_routeOpTxID _ _ isTx.symm
    · exact later (routeOpTxID_inj isRouteOp).symm

theorem Serving.idseq_le_of_moves (moves : p.Moves M platform w e w' p') : p.idseq ≤ p'.idseq := by
  cases moves with
  | journal _ _ _ => exact Nat.le_succ _
  | _ => exact le_rfl

/-! ### The account of every transaction -/

/-- What holds of the transactions started and resolved so far: each of them
is in flight or was resolved, once. -/
structure TxAccounted (p : Serving) (started : List String)
    (resolved : List (String × Outcome)) : Prop where
  one : p.OneUnresolved
  issued : ∀ id ∈ started, IssuedBy p.idseq id
  distinct : started.Nodup
  account : ∀ id, id ∈ started ↔ (∃ plan, (id, plan) ∈ p.inFlight) ∨ id ∈ resolved.map Prod.fst
  apart : ∀ id plan, (id, plan) ∈ p.inFlight → id ∉ resolved.map Prod.fst
  once : (resolved.map Prod.fst).Nodup

theorem TxAccounted.start : TxAccounted {} [] [] where
  one := .start
  issued _ member := absurd member not_mem_nil
  distinct := nodup_nil
  account id := by simp [inFlight_start]
  apart id plan member := by simp [inFlight_start] at member
  once := nodup_nil

variable {resolved : List (String × Outcome)} {started : List String}

theorem TxAccounted.startTx (held : TxAccounted p started resolved) (one : p'.OneUnresolved)
    (fresh : id ∉ started) (issued : ∀ other ∈ started ++ [id], IssuedBy p'.idseq other)
    (before : ∀ tx, tx ∉ p.inFlight)
    (after : ∀ tx, tx ∈ p'.inFlight ↔ tx = (id, plan)) :
    TxAccounted p' (started ++ [id]) resolved where
  one := one
  issued := issued
  distinct := concat_eq_append ▸ held.distinct.concat fresh
  account other := by
    rw [mem_append, held.account, mem_singleton]
    simp only [before, after, Prod.mk.injEq, exists_false, false_or,
      exists_and_left, exists_eq, and_true]
    exact or_comm
  apart other otherPlan member := by
    obtain ⟨rfl, rfl⟩ := Prod.mk.inj ((after _).mp member)
    exact fun resolved => fresh ((held.account _).mpr (.inr resolved))
  once := held.once

theorem TxAccounted.resolveTx {outcome : Outcome}
    (held : TxAccounted p started resolved) (one : p'.OneUnresolved)
    (issued : ∀ other ∈ started, IssuedBy p'.idseq other)
    (before : ∀ tx, tx ∈ p.inFlight ↔ tx = (id, plan))
    (after : ∀ tx, tx ∉ p'.inFlight) :
    TxAccounted p' started (resolved ++ [(id, outcome)]) where
  one := one
  issued := issued
  distinct := held.distinct
  account other := by
    rw [held.account, map_append, mem_append]
    simp only [before, after, Prod.mk.injEq, exists_false, false_or,
      exists_and_left, exists_eq, and_true, map_cons, map_nil,
      mem_singleton]
    exact or_comm
  apart other otherPlan member := absurd member (after _)
  once := by
    rw [map_append]
    exact concat_eq_append ▸ held.once.concat (held.apart id plan ((before _).mpr rfl))

theorem TxAccounted.step (held : TxAccounted p started resolved)
    (moves : p.Moves M platform w e w' p') (flight : Flight w w' p p' e) :
    TxAccounted p' (started ++ (p.starts e).toList) (resolved ++ (p.resolves e).toList) := by
  have one := held.one.step moves
  have issued : ∀ id ∈ started, IssuedBy p'.idseq id := fun id member =>
    (held.issued id member).mono (idseq_le_of_moves moves)
  cases flight with
  | same startsNone resolvesNone same _ =>
    simp only [startsNone, resolvesNone, Option.toList_none, append_nil]
    exact
      { one := one, issued := issued, distinct := held.distinct
        account := by simpa only [same] using held.account
        apart := by simpa only [same] using held.apart
        once := held.once }
  | @started id plan ownership isNext next starts resolvesNone before after
      _ =>
      simp only [starts, resolvesNone, Option.toList_none, Option.toList_some, append_nil]
      have fresh : id ∉ started := by
        intro member
        refine p.nextTxID_fresh ownership ?_
        rw [isNext]
        exact held.issued id member
      refine held.startTx one fresh ?_ before after
      intro other member
      rcases mem_append.mp member with old | new
      · exact issued other old
      · rw [mem_singleton.mp new, next, ← isNext]
        exact p.issued_nextTxID ownership
  | resolved startsNone resolves before after =>
    simp only [startsNone, resolves, Option.toList_none, Option.toList_some, append_nil]
    exact held.resolveTx one issued before after

def Serving.Journaled (w : World) (p : Serving) : Prop :=
  ∀ id plan, (id, plan) ∈ p.inFlight → w.journal.find id = some (Journal.entry id plan)

theorem Serving.Journaled.step (held : p.Journaled w) (journals : e ≠ .journal true)
    (flight : Flight w w' p p' e) : p'.Journaled w' := by
  intro id plan member
  cases flight with
  | same _ _ same journal =>
    rw [journal]
    exact held id plan ((same _).mp member)
  | started _ _ _ _ _ after journal =>
    obtain ⟨rfl, rfl⟩ := Prod.mk.inj ((after _).mp member)
    rw [journal journals, Journal.find_putPendingTx, if_pos rfl]
  | resolved _ _ _ after => exact absurd member (after _)

/-! ### Every transaction in flight can be resolved -/

/-- Whether an event is a step of a transaction's execution or of its
resolver, or a decision about one. -/
def Event.advances : Event → Bool
  | .execute _ => true
  | .undone _ => true
  | .finish _ => true
  | .decide _ _ => true
  | .resolver _ _ => true
  | _ => false

/-- Such events lead on to the resolution of a transaction. -/
inductive Serving.Resolvable (M : Matching) (platform : String) (id : String) :
    World → Serving → Prop where
  | now {w w' : World} {p p' : Serving} {e : Event} {outcome : Outcome}
      (advances : e.advances = true)
      (stepped : p.step M platform w e = some (w', p'))
      (resolves : p.resolves e = some (id, outcome)) :
      Resolvable M platform id w p
  | later {w w' : World} {p p' : Serving} {e : Event}
      (advances : e.advances = true)
      (stepped : p.step M platform w e = some (w', p'))
      (rest : Resolvable M platform id w' p') : Resolvable M platform id w p

section Resolvable

variable {p : Serving} {t t' : PendingTx}

variable {r : ResolveEvent}

section

variable (found : p.pending.find id = some t) (moved : t.step M w r = some (w', t'))

include found moved

theorem Serving.step_resolver :
    p.step M platform w (.resolver id r) = some (w', { p with pending := p.pending.put t' }) := by
  simp [step, found, moved]

theorem Serving.find_put_resolver :
    (p.pending.put t').find id = some t' := by
  have keyEq := (PendingTx.step_keeps moved).1.trans (key_of_find found)
  rw [find_put, if_pos keyEq]

theorem Serving.Resolvable.resolver (rest : ∀ p' : Serving, p'.pending.find id = some t' →
      Resolvable M platform id w' p') : Resolvable M platform id w p :=
  .later rfl (step_resolver found moved) (rest _ (find_put_resolver found moved))

end

theorem Serving.resolvable_committing (found : p.pending.find id = some t)
    (phase : t.phase = .committing) : Resolvable M platform id w p := by
  have moved : t.step M w (.commit true) = some (w, { t with phase := .settled }) := by
    simp [PendingTx.step, phase]
  exact .now rfl (step_resolver found moved) rfl

theorem Serving.resolvable_rollingBack {todo left : List PlanOp}
    (found : p.pending.find id = some t)
    (phase : t.phase = .rollingBack todo left none) :
    Resolvable M platform id w p := by
  induction todo generalizing w p t left with
  | nil =>
    have moved : t.step M w (.rollbackEnd true) = some (w, { t with phase := .settled }) := by
      simp [PendingTx.step, phase]
    exact .now rfl (step_resolver found moved) rfl
  | cons op todo ih =>
    cases done : doOp M none w.kernel op with
    | error err =>
      have moved : t.step M w (.rollbackOp none) = some (w,
          { t with phase := .rollingBack todo (left ++ [op]) none }) := by
        simp [PendingTx.step, phase, done]
      exact .resolver found moved fun _ found' =>
        ih found' rfl
    | ok kernel =>
      have moved : t.step M w (.rollbackOp none) = some ({ w with kernel := kernel },
            { t with phase := .rollingBack todo left
                      (if t.ownership then some op else none) }) := by
        simp [PendingTx.step, phase, done]
      refine .resolver found moved fun q found' => ?_
      cases owns : t.ownership with
      | false =>
        rw [owns] at found'
        exact ih found' rfl
      | true =>
        rw [owns] at found'
        refine .resolver (r := .rollbackRecord true) found' rfl ?_
        exact fun _ found'' => ih found'' rfl

theorem Serving.resolvable_decided {decision : Decision}
    (found : p.pending.find id = some t) (phase : t.phase = .probation)
    (decided : t.decided = some decision) : Resolvable M platform id w p := by
  by_cases commits : decision = .commit
  · have moved : t.step M w .takeDecision = some (w, { t with phase := .committing }) := by
      simp [PendingTx.step, phase, decided, commits]
    exact .resolver found moved fun _ found' =>
      resolvable_committing found' rfl
  · have moved : t.step M w .takeDecision = some (w, { t with
        phase := .rollingBack (withoutTunnelLinks t.plan.inverse) [] none }) := by
      cases decision with
      | commit => exact absurd rfl commits
      | _ => simp [PendingTx.step, phase, decided]
    exact .resolver found moved fun _ found' =>
      resolvable_rollingBack found' rfl

theorem Serving.resolvable_pending (found : p.pending.find id = some t)
    (unsettled : t.phase ≠ .settled) : Resolvable M platform id w p := by
  cases phase : t.phase with
  | settled => exact absurd phase unsettled
  | committing => exact resolvable_committing found phase
  | rollingBack todo left recording =>
    cases recording with
    | none => exact resolvable_rollingBack found phase
    | some op =>
      have moved : t.step M w (.rollbackRecord true) = some (w,
          { t with phase := .rollingBack todo left none }) := by
        simp [PendingTx.step, phase]
      exact .resolver found moved fun _ found' =>
        resolvable_rollingBack found' rfl
  | probation =>
    cases decided : t.decided with
    | some decision => exact resolvable_decided found phase decided
    | none =>
      refine .later (e := .decide id .commit) rfl rfl ?_
      have found' : (p.pending.decide id .commit).find id =
          some { t with decided := some .commit } := by
        simp [Pending.find_decide_eq, found, decided]
      exact resolvable_decided found' phase rfl

variable {x : Execution}

theorem Serving.Resolvable.execute {x' : Execution} {e : ExecuteEvent}
    (holds : p.holder = .executing x)
    (moved : x.step M w e = some (w', x'))
    (rest : ∀ p' : Serving, p'.holder = .executing x' →
      Resolvable M platform id w' p') : Resolvable M platform id w p := by
  have stepped : p.step M platform w (.execute e) =
      some (w', { p with holder := .executing x' }) := by
    simp [step, holds, moved]
  exact .later rfl stepped (rest _ rfl)

theorem Serving.resolvable_undoing {todo : List PlanOp}
    (holds : p.holder = .executing x) (idIs : x.id = id)
    (phase : x.phase = .undoing todo) : Resolvable M platform id w p := by
  induction todo generalizing w p x with
  | nil =>
    have stepped : p.step M platform w (.undone true) = some (w, { p with holder := .free }) := by
      simp [step, holds, phase]
    have resolves : p.resolves (.undone true) = some (id, .rolledBack) := by
      simp [resolves, holds, idIs]
    exact .now rfl stepped resolves
  | cons op todo ih =>
    obtain ⟨next, moved⟩ : ∃ next, x.step M w (.undo none) =
        some (next, { x with phase := .undoing todo }) := by
      simp [Execution.step, phase]
    exact .execute holds moved fun _ holds' =>
      ih holds' idIs rfl

theorem Serving.resolvable_recording {todo : List PlanOp}
    (holds : p.holder = .executing x) (idIs : x.id = id)
    (phase : x.phase = .recording todo) : Resolvable M platform id w p := by
  induction todo generalizing w p x with
  | nil =>
    cases guards : x.prepared.unguarded with
    | true =>
      have stepped : p.step M platform w (.finish true) = some (w, { p with holder := .free }) := by
        simp [step, holds, phase, guards]
      have resolves : p.resolves (.finish true) = some (id, .committed) := by
        simp [resolves, holds, idIs, guards]
      exact .now rfl stepped resolves
    | false =>
      have stepped : p.step M platform w (.finish true) = some (w,
          { p with pending := p.pending.put x.pendingTx
                   holder := .free }) := by
        simp [step, holds, phase, guards]
      have found : (p.pending.put x.pendingTx).find id = some x.pendingTx := by
        rw [find_put]
        exact if_pos idIs
      refine .later rfl stepped (resolvable_pending found ?_)
      simp [Execution.pendingTx]
  | cons op todo ih =>
    have moved : x.step M w (.record true) = some (w, { x with phase := .recording todo }) := by
      simp [Execution.step, phase]
    exact .execute holds moved fun _ holds' =>
      ih holds' idIs rfl

theorem Serving.resolvable_executing {applied todo : List PlanOp} (holds : p.holder = .executing x)
    (idIs : x.id = id) (phase : x.phase = .executing applied todo) :
    Resolvable M platform id w p := by
  induction todo generalizing w p x applied with
  | nil =>
    obtain ⟨ops, moved⟩ : ∃ ops, x.step M w .executed =
        some (w, { x with phase := .recording ops }) := by
      simp [Execution.step, phase]
    exact .execute holds moved fun _ holds' =>
      resolvable_recording holds' idIs rfl
  | cons op todo ih =>
    cases done : doOp M none w.kernel op with
    | ok kernel =>
      have moved : x.step M w (.exec none) = some ({ w with kernel := kernel },
            { x with phase := .executing (applied ++ [op]) todo }) := by
        simp [Execution.step, phase, done]
      exact .execute holds moved fun _ holds' =>
        ih holds' idIs rfl
    | error err =>
      have moved : x.step M w (.exec none) = some (w,
          { x with phase := .undoing (applied.reverse.map inverseOp) }) := by
        simp [Execution.step, phase, done]
      exact .execute holds moved fun _ holds' =>
        resolvable_undoing holds' idIs rfl

theorem Serving.resolvable_of_inFlight {plan : Plan}
    (member : (id, plan) ∈ p.inFlight) : Resolvable M platform id w p := by
  rcases mem_inFlight.mp member with
    ⟨x, holds, idIs, _⟩ | ⟨t, found, unsettled, _⟩
  · cases phase : x.phase with
    | executing applied todo => exact resolvable_executing holds idIs phase
    | undoing todo => exact resolvable_undoing holds idIs phase
    | recording todo => exact resolvable_recording holds idIs phase
  · exact resolvable_pending found unsettled

end Resolvable

end RiftRoute
