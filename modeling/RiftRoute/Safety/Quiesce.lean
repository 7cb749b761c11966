/-
Module: RiftRoute.Safety.Quiesce
Purpose: One process of the daemon with the updater's hold on the apply lock,
  and what the journal and the transactions keep to along its runs.
Trusted boundary: human-reviewed spec
Main exports: Session.Quiet, Session.Covered.step
-/
import RiftRoute.Safety.JournalRuns
import RiftRoute.Safety.Resolutions

namespace RiftRoute

open List

/-- A serving process, its quiesce holder and the applies this one lets
through. -/
structure Session where
  world : World
  serving : Serving := {}
  /-- The quiesce holder has the apply lock. -/
  quiesced : Bool := false
  /-- `LendQuiesce` calls that saw `quiesced` and have not stored `lent`. -/
  lending : Nat := 0
  lent : Bool := false
  /-- Lendable applies that saw `lent` and wait for their turn. -/
  admitted : Nat := 0
  /-- What the lendable apply whose turn it is does. -/
  borrower : Holder := .free
  /-- The transactions journaled so far. -/
  started : List String := []
  /-- The resolutions so far. -/
  resolved : List (String × Outcome) := []

/-- What happens next in a process. -/
inductive SessionEvent where
  | serving (e : Event)
  /-- `TryQuiesce` finds the daemon quiet. -/
  | tryQuiesce
  /-- `LendQuiesce` reads `quiesced`. -/
  | lendCheck
  /-- `LendQuiesce` stores `lent`. -/
  | lendStore
  | release
  /-- `ApplyBuilt` reads `lent` for a lendable apply. -/
  | letIn
  /-- An admitted apply takes its turn. -/
  | lentLock (interactive unguarded builtOnRecord : Bool)
  /-- A step of the lendable apply whose turn it is. -/
  | lent (e : Event)

def Event.takesLock : Event → Bool
  | .lockApply _ _ _ => true
  | .lockRouteOp _ _ _ _ => true
  | .panicLock => true
  | _ => false

/-- Whether an event is one of a resolver, or of what does not wait for the
lock. -/
def Event.ofResolver : Event → Bool
  | .decide _ _ => true
  | .resolver _ _ => true
  | .finishTx _ => true
  | .panicStart => true
  | _ => false

def Event.ofApply : Event → Bool
  | .prepare _ => true
  | .giveUp => true
  | .ask => true
  | .await => true
  | .journal _ => true
  | .execute _ => true
  | .undone _ => true
  | .finish _ => true
  | _ => false

namespace Session

variable (s : Session)

/-- The process as a lendable apply sees it. -/
def borrowing : Serving := { s.serving with holder := s.borrower }

/-- Note what an event starts and resolves. -/
def logged (p : Serving) (e : Event) : Session :=
  { s with
    started := s.started ++ (p.starts e).toList
    resolved := s.resolved ++ (p.resolves e).toList }

def step (M : Matching) (platform : String) (s : Session) : SessionEvent → Option Session
  | .serving e =>
    if e.takesLock ∧ s.quiesced then none
    else
      (s.serving.step M platform s.world e).map fun (w, p) =>
        { s.logged s.serving e with world := w, serving := p }
  | .tryQuiesce =>
    match s.serving.holder with
    | .free =>
      if s.quiesced = false ∧ s.serving.pending.rows = [] then
        some { s with quiesced := true }
      else none
    | _ => none
  | .lendCheck =>
    if s.quiesced then some { s with lending := s.lending + 1 } else none
  | .lendStore =>
    if s.lending = 0 then none
    else some { s with lending := s.lending - 1, lent := true }
  | .release =>
    if s.quiesced then some { s with lent := false, quiesced := false }
    else none
  | .letIn =>
    if s.lent ∧ s.serving.panics = 0 then
      some { s with admitted := s.admitted + 1 }
    else none
  | .lentLock interactive unguarded builtOnRecord =>
    match s.borrower with
    | .free =>
      if s.admitted = 0 then none
      else
        -- it takes nothing to be on probation beside it
        let p : Prepare :=
          { ownership := true, interactive := interactive
            unguarded := unguarded, builtOnRecord := builtOnRecord }
        some { s with
          admitted := s.admitted - 1, borrower := .preparing p }
    | _ => none
  | .lent e =>
    if e.ofApply then
      (s.borrowing.step M platform s.world e).map fun (w, p) =>
        { s.logged s.borrowing e with
          world := w
          serving := { p with holder := s.serving.holder }
          borrower := p.holder }
    else none

/-- The transactions that execute or are on probation. -/
def unresolved : List String :=
  (s.serving.holder.executes ++ s.borrower.executes).map Prod.fst ++
    s.serving.pending.rows.map PendingTx.id

/-- The transactions whose resolution is not finished, with their plans. -/
def inFlight : List (String × Plan) :=
  s.serving.holder.executes ++ s.borrower.executes ++ s.serving.unsettled

end Session

/-- One process over a provider. -/
def sessions (M : Matching) (platform : String) : Machine Session SessionEvent where
  step := Session.step M platform

/-- The discipline of the journal: one transaction at most is unresolved; each
one started is in flight or was resolved, once and one way; and while it is in
flight its entry is in the journal. -/
structure Session.Disciplined (s : Session) : Prop where
  one : s.unresolved.length ≤ 1
  distinct : s.started.Nodup
  account : ∀ id, id ∈ s.started ↔
    (∃ plan, (id, plan) ∈ s.inFlight) ∨ ∃ outcome, (id, outcome) ∈ s.resolved
  apart : ∀ id plan outcome, (id, plan) ∈ s.inFlight → (id, outcome) ∉ s.resolved
  once : (s.resolved.map Prod.fst).Nodup
  journaled : ∀ id plan, (id, plan) ∈ s.inFlight →
    s.world.journal.find id = some (Journal.entry id plan)

/-- Every `PutPendingTx` of a new transaction succeeds. -/
def SessionEvent.Journals (e : SessionEvent) : Prop :=
  e ≠ .serving (.journal true) ∧ e ≠ .lent (.journal true)

/-- The lock is released only while no apply runs under it, waits to, or can
still be let in by a call under way. -/
def Session.ReleasesIdle (s : Session) (e : SessionEvent) : Prop :=
  e = .release → s.lending = 0 ∧ s.admitted = 0 ∧ s.borrower = .free

/-! ### Who has the lock -/

section Turns

variable {M : Matching} {platform : String}

/-- The process with the one apply that may run in it. -/
def Session.active (s : Session) : Serving :=
  if s.quiesced then s.borrowing else s.serving

/-- The quiesce holder lets through under the lock, and only while it has
it. -/
structure Session.Covered (s : Session) : Prop where
  main : s.quiesced = true → s.serving.holder = .free
  lent : s.quiesced = false → s.lent = false ∧ s.lending = 0 ∧ s.admitted = 0 ∧ s.borrower = .free

/-- A step of a process, as one of the apply that may run in it. -/
inductive Session.Turn (M : Matching) (platform : String) (s s' : Session) :
    Prop where
  | idle (active : s'.active = s.active) (world : s'.world = s.world)
      (started : s'.started = s.started) (resolved : s'.resolved = s.resolved)
  | moved (e : Event) (journals : e ≠ .journal true)
      (moves : s.active.Moves M platform s.world e s'.world s'.active)
      (flight : Serving.Flight s.world s'.world s.active s'.active e)
      (started : s'.started = s.started ++ (s.active.starts e).toList)
      (resolved : s'.resolved = s.resolved ++ (s.active.resolves e).toList)

variable {s : Session}

theorem Session.active_of_quiesced (quiesced : s.quiesced = true) : s.active = s.borrowing := by
  rw [Session.active, if_pos quiesced]

theorem Session.active_of_not_quiesced (open_ : s.quiesced = false) : s.active = s.serving := by
  rw [Session.active, if_neg (by simp [open_])]

theorem Session.borrowing_of_free (main : s.serving.holder = .free) (lent : s.borrower = .free) :
    s.borrowing = s.serving := by
  rw [Session.borrowing, lent, ← main]

namespace Serving

theorem ofResolver_of_free {w : World} {p : Serving} {e : Event}
    {next : World × Serving} (free : p.holder = .free)
    (locks : e.takesLock = false)
    (stepped : p.step M platform w e = some next) : e.ofResolver = true := by
  cases e with
  | lockApply | lockRouteOp | panicLock => cases locks
  | crash | recoverEntry | serve => cases stepped
  | prepare | giveUp | journal | execute | undone | finish | panicFlush =>
    simp [step, free] at stepped
  | ask | await => simp [step, free, Holder.settling] at stepped
  | decide | panicStart | resolver | finishTx => rfl

theorem step_beside {w w' : World} {p p' : Serving} {e : Event}
    (ofResolver : e.ofResolver = true)
    (stepped : p.step M platform w e = some (w', p')) (beside : Holder) :
    p'.holder = p.holder ∧ ({ p with holder := beside } : Serving).step M platform w e =
        some (w', { p' with holder := beside }) ∧
      ({ p with holder := beside } : Serving).starts e = p.starts e ∧
      ({ p with holder := beside } : Serving).resolves e = p.resolves e := by
  revert stepped
  fun_cases step M platform w p e with
  | case29 | case35 =>
    rintro ⟨⟩
    exact ⟨rfl, rfl, rfl, rfl⟩
  | case30 id r t found =>
    intro stepped
    obtain ⟨⟨w', t'⟩, moved, ⟨⟩⟩ := Option.map_eq_some_iff.mp stepped
    refine ⟨rfl, ?_, rfl, by cases r <;> rfl⟩
    simp [step, found, moved]
  | case32 id t found settled =>
    rintro ⟨⟩
    refine ⟨rfl, ?_, rfl, rfl⟩
    simp [step, found, settled]
  | case31 | case33 | case34 | case41 => rintro ⟨⟩
  | _ => cases ofResolver

theorem step_ofApply_free {w : World} {p : Serving} {e : Event}
    (ofApply : e.ofApply = true) (free : p.holder = .free) :
    p.step M platform w e = none := by
  cases e with
  | prepare | giveUp | journal | execute | undone | finish => simp [step, free]
  | ask | await => simp [step, free, Holder.settling]
  | _ => cases ofApply

end Serving

variable {s' : Session}

section

variable {e : Event} (covered : s.Covered) (one : s.active.OneUnresolved)
  (journals : e ≠ .journal true)

include covered one journals

theorem Session.turn_of_serving (stepped : s.step M platform (.serving e) = some s') :
    s.Turn M platform s' := by
  simp only [Session.step] at stepped
  split at stepped
  · cases stepped
  rename_i notBlocked
  obtain ⟨⟨w, p⟩, moved, rfl⟩ := Option.map_eq_some_iff.mp stepped
  cases quiesced : s.quiesced with
  | true =>
    have locks : e.takesLock = false := by
      simpa [quiesced] using notBlocked
    have free := covered.main quiesced
    obtain ⟨_, besideStep, sameStarts, sameResolves⟩ :=
      Serving.step_beside (Serving.ofResolver_of_free free locks moved) moved s.borrower
    have active := Session.active_of_quiesced quiesced
    have active' : Session.active { s.logged s.serving e with world := w, serving := p } =
          { p with holder := s.borrower } := by
      simp [Session.active, Session.logged, quiesced, Session.borrowing]
    refine .moved e journals ?_ ?_ ?_ ?_
    · rw [active, active']
      exact Serving.moves_of_step besideStep
    · rw [active] at one
      rw [active, active']
      exact Serving.flight_of_step one besideStep
    · rw [active, Session.borrowing, sameStarts]
      rfl
    · rw [active, Session.borrowing, sameResolves]
      rfl
  | false =>
    have active := Session.active_of_not_quiesced quiesced
    have active' : Session.active { s.logged s.serving e with world := w, serving := p } = p := by
      simp [Session.active, Session.logged, quiesced]
    rw [active] at one
    refine .moved e journals ?_ ?_ (by rw [active]; rfl) (by rw [active]; rfl)
    · rw [active, active']
      exact Serving.moves_of_step moved
    · rw [active, active']
      exact Serving.flight_of_step one moved

theorem Session.turn_of_lent (stepped : s.step M platform (.lent e) = some s') :
    s.Turn M platform s' := by
  simp only [Session.step] at stepped
  split at stepped
  · rename_i ofApply
    obtain ⟨⟨w, p⟩, moved, rfl⟩ := Option.map_eq_some_iff.mp stepped
    cases quiesced : s.quiesced with
    | true =>
      have active := Session.active_of_quiesced quiesced
      have active' : Session.active
          { s.logged s.borrowing e with
            world := w
            serving := { p with holder := s.serving.holder }
            borrower := p.holder } = p := by
        simp [Session.active, Session.logged, quiesced, Session.borrowing]
      rw [active] at one
      refine .moved e journals ?_ ?_ (by rw [active]; rfl) (by rw [active]; rfl)
      · rw [active, active']
        exact Serving.moves_of_step moved
      · rw [active, active']
        exact Serving.flight_of_step one moved
    | false =>
      obtain ⟨_, _, _, free⟩ := covered.lent quiesced
      rw [Serving.step_ofApply_free ofApply free] at moved
      cases moved
  · cases stepped

end

theorem Session.Covered.quiesced (covered : s.Covered)
    (some : s.lent = true ∨ s.lending ≠ 0 ∨ s.admitted ≠ 0) :
    s.quiesced = true := by
  cases quiesced : s.quiesced with
  | true => rfl
  | false =>
    obtain ⟨notLent, noLending, noAdmitted, _⟩ := covered.lent quiesced
    simp [notLent, noLending, noAdmitted] at some

/-- The lock covers what is let in, whatever is journaled. -/
theorem Session.Covered.step {e : SessionEvent} (covered : s.Covered) (releases : s.ReleasesIdle e)
    (stepped : (sessions M platform).step s e = some s') : s'.Covered := by
  simp only [sessions] at stepped
  cases e with
  | serving e =>
    simp only [Session.step, Option.ite_none_left_eq_some] at stepped
    obtain ⟨notBlocked, stepped⟩ := stepped
    obtain ⟨⟨w, p⟩, moved, rfl⟩ := Option.map_eq_some_iff.mp stepped
    refine ⟨fun quiesced => ?_, covered.lent⟩
    have free := covered.main quiesced
    have locks : e.takesLock = false := by
      have stillQuiesced : s.quiesced = true := quiesced
      simpa [stillQuiesced] using notBlocked
    have ofResolver := Serving.ofResolver_of_free free locks moved
    exact (Serving.step_beside ofResolver moved s.borrower).1.trans free
  | lent e =>
    simp only [Session.step, Option.ite_none_right_eq_some] at stepped
    obtain ⟨ofApply, stepped⟩ := stepped
    obtain ⟨⟨w, p⟩, moved, rfl⟩ := Option.map_eq_some_iff.mp stepped
    refine ⟨covered.main, fun opened => ?_⟩
    rw [Serving.step_ofApply_free ofApply (covered.lent opened).2.2.2] at moved
    cases moved
  | tryQuiesce =>
    simp only [Session.step] at stepped
    split at stepped
    · rename_i free
      obtain ⟨_, ⟨⟩⟩ := Option.ite_none_right_eq_some.mp stepped
      exact ⟨fun _ => free, by simp⟩
    · cases stepped
  | lendCheck =>
    obtain ⟨quiesced, ⟨⟩⟩ := Option.ite_none_right_eq_some.mp stepped
    exact ⟨covered.main, by simp [quiesced]⟩
  | lendStore =>
    obtain ⟨lending, ⟨⟩⟩ := Option.ite_none_left_eq_some.mp stepped
    exact ⟨covered.main, by simp [covered.quiesced (.inr (.inl lending))]⟩
  | release =>
    obtain ⟨_, ⟨⟩⟩ := Option.ite_none_right_eq_some.mp stepped
    exact ⟨by simp, fun _ => ⟨rfl, releases rfl⟩⟩
  | letIn =>
    obtain ⟨guards, ⟨⟩⟩ := Option.ite_none_right_eq_some.mp stepped
    exact ⟨covered.main, by simp [covered.quiesced (.inl guards.1)]⟩
  | lentLock =>
    simp only [Session.step] at stepped
    split at stepped
    · split at stepped
      · cases stepped
      rename_i admitted
      obtain rfl := Option.some.inj stepped
      exact ⟨covered.main, by simp [covered.quiesced (.inr (.inr admitted))]⟩
    · cases stepped

theorem Session.turn_of_lentLock {interactive unguarded builtOnRecord : Bool} (covered : s.Covered)
    (stepped : s.step M platform (.lentLock interactive unguarded builtOnRecord) = some s') :
    s.Turn M platform s' := by
  simp only [Session.step] at stepped
  split at stepped
  · rename_i free
    split at stepped
    · cases stepped
    rename_i admitted
    have quiesced := covered.quiesced (.inr (.inr admitted))
    have active := Session.active_of_quiesced quiesced
    obtain rfl := Option.some.inj stepped
    have active' := Session.active_of_quiesced (s := { s with
      admitted := s.admitted - 1
      borrower := .preparing
        { ownership := true, interactive := interactive
          unguarded := unguarded, builtOnRecord := builtOnRecord } })
      quiesced
    refine .moved (.lockApply interactive unguarded builtOnRecord) (by simp) ?_ ?_
      (append_nil _).symm (append_nil _).symm
    · rw [active, active']
      exact .lockApply (s := s.borrowing) _ _ _ [] free
    · rw [active, active']
      exact .idle rfl rfl (congrArg Holder.executes free) rfl rfl rfl
  · cases stepped

theorem Session.turn_of_step {e : SessionEvent} (covered : s.Covered) (one : s.active.OneUnresolved)
    (journals : e.Journals) (releases : s.ReleasesIdle e)
    (stepped : (sessions M platform).step s e = some s') :
    s.Turn M platform s' := by
  simp only [sessions] at stepped
  cases e with
  | serving e =>
    exact Session.turn_of_serving covered one (fun same => journals.1 (by rw [same])) stepped
  | lent e =>
    exact Session.turn_of_lent covered one (fun same => journals.2 (by rw [same])) stepped
  | tryQuiesce =>
    simp only [Session.step] at stepped
    split at stepped
    · rename_i free
      obtain ⟨quiet, ⟨⟩⟩ := Option.ite_none_right_eq_some.mp stepped
      obtain ⟨_, _, _, noBorrower⟩ := covered.lent quiet.1
      refine .idle ?_ rfl rfl rfl
      rw [Session.active_of_not_quiesced quiet.1]
      exact Session.borrowing_of_free free noBorrower
    · cases stepped
  | lendCheck =>
    obtain ⟨_, ⟨⟩⟩ := Option.ite_none_right_eq_some.mp stepped
    exact .idle rfl rfl rfl rfl
  | lendStore =>
    obtain ⟨_, ⟨⟩⟩ := Option.ite_none_left_eq_some.mp stepped
    exact .idle rfl rfl rfl rfl
  | release =>
    obtain ⟨quiesced, ⟨⟩⟩ := Option.ite_none_right_eq_some.mp stepped
    refine .idle ?_ rfl rfl rfl
    rw [Session.active_of_quiesced quiesced]
    exact (Session.borrowing_of_free (covered.main quiesced) (releases rfl).2.2).symm
  | letIn =>
    obtain ⟨_, ⟨⟩⟩ := Option.ite_none_right_eq_some.mp stepped
    exact .idle rfl rfl rfl rfl
  | lentLock interactive unguarded builtOnRecord =>
    exact Session.turn_of_lentLock covered stepped

/-! ### Along a run -/

/-- What every run keeps whose releases find nothing let in. -/
structure Session.Kept (s : Session) : Prop where
  covered : s.Covered
  accounted : TxAccounted s.active s.started s.resolved
  journaled : s.active.Journaled s.world

theorem Session.Kept.start (w : World) : ({ world := w } : Session).Kept where
  covered := ⟨by simp, by simp⟩
  accounted := .start
  journaled id plan member := by
    cases member

theorem Session.Kept.step {e : SessionEvent} (held : s.Kept)
    (journals : e.Journals) (releases : s.ReleasesIdle e)
    (stepped : (sessions M platform).step s e = some s') : s'.Kept := by
  have covered := held.covered.step releases stepped
  cases Session.turn_of_step held.covered held.accounted.one journals releases stepped with
  | idle active world started resolved =>
    refine ⟨covered, ?_, ?_⟩
    · rw [active, started, resolved]
      exact held.accounted
    · rw [active, world]
      exact held.journaled
  | moved e journals moves flight started resolved =>
    refine ⟨covered, ?_, held.journaled.step journals flight⟩
    rw [started, resolved]
    exact held.accounted.step moves flight

theorem Session.Covered.executes (covered : s.Covered) :
    s.serving.holder.executes ++ s.borrower.executes = s.active.holder.executes := by
  cases quiesced : s.quiesced with
  | true =>
    rw [Session.active_of_quiesced quiesced, covered.main quiesced]
    rfl
  | false =>
    rw [Session.active_of_not_quiesced quiesced, (covered.lent quiesced).2.2.2]
    exact append_nil _

theorem Session.pending_active (s : Session) : s.active.pending = s.serving.pending := by
  cases quiesced : s.quiesced with
  | true => rw [Session.active_of_quiesced quiesced, Session.borrowing]
  | false => rw [Session.active_of_not_quiesced quiesced]

theorem Session.Covered.inFlight (covered : s.Covered) : s.inFlight = s.active.inFlight := by
  rw [Session.inFlight, covered.executes, Serving.inFlight,
    Serving.unsettled, Serving.unsettled, s.pending_active]

theorem Serving.OneUnresolved.rows_length_le {p : Serving}
    (held : p.OneUnresolved) : p.pending.rows.length ≤ 1 := by
  have distinct := p.pending.nodup
  have alone : ∀ t ∈ p.pending.rows, ∀ u ∈ p.pending.rows, t.id = u.id :=
    fun t first u second => held.alone t.id u.id t u
      (KeyedTable.find_of_mem first) (KeyedTable.find_of_mem second)
  cases rows : p.pending.rows with
  | nil => exact Nat.zero_le 1
  | cons t rest =>
    cases rest with
    | nil => exact le_rfl
    | cons u rest =>
      rw [rows] at distinct alone
      have same := alone t (by simp) u (by simp)
      simp [same] at distinct

theorem Serving.OneUnresolved.length_le {p : Serving} (held : p.OneUnresolved) :
    (p.holder.executes.map Prod.fst ++ p.pending.rows.map PendingTx.id).length ≤ 1 := by
  cases holds : p.holder with
  | executing x =>
    have none : p.pending.rows = [] := by
      refine eq_nil_iff_forall_not_mem.mpr fun t member => ?_
      have found := KeyedTable.find_of_mem member
      rw [held.executing x holds] at found
      cases found
    simp [none, Holder.executes]
  | _ =>
    simp only [Holder.executes, map_nil, nil_append, length_map]
    exact held.rows_length_le

theorem Session.Kept.disciplined (held : s.Kept) : s.Disciplined where
  one := by
    rw [Session.unresolved, held.covered.executes, ← s.pending_active]
    exact held.accounted.one.length_le
  distinct := held.accounted.distinct
  account id := by
    rw [held.covered.inFlight, held.accounted.account]
    simp
  apart id plan outcome member resolved := by
    rw [held.covered.inFlight] at member
    exact held.accounted.apart id plan member (mem_map.mpr ⟨_, resolved, rfl⟩)
  once := held.accounted.once
  journaled := by
    rw [held.covered.inFlight]
    exact held.journaled

/-- A step that resolves or advances a transaction, as an event of the
process. -/
structure Session.Advances (M : Matching) (platform : String) (s : Session)
    (e : Event) (w : World) (p : Serving) (next : SessionEvent)
    (s' : Session) : Prop where
  stepped : (sessions M platform).step s next = some s'
  journals : next.Journals
  releases : s.ReleasesIdle next
  world : s'.world = w
  active : s'.active = p
  resolved : s'.resolved = s.resolved ++ (s.active.resolves e).toList

section

variable {e : Event} {w : World} {p : Serving}

theorem Session.advances_of_quiesced (quiesced : s.quiesced = true) (advances : e.advances = true)
    (stepped : s.borrowing.step M platform s.world e = some (w, p)) :
    ∃ next s', s.Advances M platform e w p next s' := by
  have active := Session.active_of_quiesced quiesced
  cases ofApply : e.ofApply with
  | true =>
    have asLent : (sessions M platform).step s (.lent e) = some
        { s.logged s.borrowing e with
          world := w
          serving := { p with holder := s.serving.holder }
          borrower := p.holder } := by
      simp [sessions, Session.step, ofApply, stepped]
    refine ⟨.lent e, _, asLent, ⟨by simp, ?_⟩, by simp [ReleasesIdle], rfl, ?_, by rw [active]; rfl⟩
    · intro isJournal
      cases isJournal
      cases advances
    · simp [Session.active, Session.logged, quiesced, Session.borrowing]
  | false =>
    have ofResolver : e.ofResolver = true := by
      cases e with
      | decide | resolver => rfl
      | execute | undone | finish => cases ofApply
      | _ => cases advances
    obtain ⟨keeps, besideStep, _, sameResolves⟩ :=
      Serving.step_beside ofResolver stepped s.serving.holder
    have locks : e.takesLock = false := by
      cases e <;> first | rfl | cases ofResolver
    have asServing : (sessions M platform).step s (.serving e) = some
        { s.logged s.serving e with
          world := w, serving := { p with holder := s.serving.holder } } := by
      simp only [sessions, Session.step, locks, Bool.false_eq_true, false_and, if_false]
      exact congrArg (Option.map _) besideStep
    refine ⟨.serving e, _, asServing, ⟨?_, by simp⟩, by simp [ReleasesIdle], rfl, ?_, ?_⟩
    · intro isJournal
      cases isJournal
      cases advances
    · have holderIs : p.holder = s.borrower := keeps
      simp [Session.active, Session.logged, quiesced, Session.borrowing, ← holderIs]
    · rw [active, ← sameResolves]
      rfl

theorem Session.advances_of_open (quiesced : s.quiesced = false) (advances : e.advances = true)
    (stepped : s.serving.step M platform s.world e = some (w, p)) :
    ∃ next s', s.Advances M platform e w p next s' := by
  have asServing : (sessions M platform).step s (.serving e) = some
      { s.logged s.serving e with world := w, serving := p } := by
    simp [sessions, Session.step, quiesced, stepped]
  refine ⟨.serving e, _, asServing, ⟨?_, by simp⟩, by simp [ReleasesIdle], rfl, ?_, ?_⟩
  · intro isJournal
    cases isJournal
    cases advances
  · simp [Session.active, Session.logged, quiesced]
  · rw [Session.active_of_not_quiesced quiesced]
    rfl

theorem Session.advances (advances : e.advances = true)
    (stepped : s.active.step M platform s.world e = some (w, p)) :
    ∃ next s', s.Advances M platform e w p next s' := by
  cases quiesced : s.quiesced with
  | true =>
    rw [Session.active_of_quiesced quiesced] at stepped
    exact Session.advances_of_quiesced quiesced advances stepped
  | false =>
    rw [Session.active_of_not_quiesced quiesced] at stepped
    exact Session.advances_of_open quiesced advances stepped

end

theorem Session.resolved_of_resolvable {w : World} {p : Serving}
    {id : String} (resolvable : Serving.Resolvable M platform id w p)
    (worldIs : s.world = w) (activeIs : s.active = p) :
    ∃ more reached outcome, (∀ e ∈ more, e.Journals) ∧
      (sessions M platform).Along Session.ReleasesIdle s more ∧
      (sessions M platform).run s more = some reached ∧
      (id, outcome) ∈ reached.resolved := by
  induction resolvable generalizing s with
  | @now w w' p p' e outcome advances stepped resolves =>
    subst worldIs activeIs
    obtain ⟨next, s', moved⟩ := Session.advances advances stepped
    refine ⟨[next], s', outcome, ?_, .cons moved.stepped moved.releases trivial,
      Machine.run_cons.mpr ⟨s', moved.stepped, rfl⟩, ?_⟩
    · simpa using moved.journals
    · simp [moved.resolved, resolves]
  | later advances stepped _ ih =>
    subst worldIs activeIs
    obtain ⟨next, s', moved⟩ := Session.advances advances stepped
    obtain ⟨more, reached, outcome, journals, releases, ran, resolved⟩ :=
      ih moved.world moved.active
    refine ⟨next :: more, reached, outcome, ?_, .cons moved.stepped moved.releases releases,
      Machine.run_cons.mpr ⟨s', moved.stepped, ran⟩, resolved⟩
    exact forall_mem_cons.mpr ⟨moved.journals, journals⟩

/-- The discipline holds in every state of every run of one process that
journals what it starts and releases the lock while nothing is let in; and
from there each transaction in flight can be resolved. -/
theorem journal_discipline {w : World} {es : List SessionEvent} {s : Session}
    (journals : ∀ e ∈ es, e.Journals)
    (releases : (sessions M platform).Along Session.ReleasesIdle { world := w } es)
    (ran : (sessions M platform).run { world := w } es = some s) :
    s.Disciplined ∧ ∀ id plan, (id, plan) ∈ s.inFlight →
      ∃ more reached outcome, (∀ e ∈ more, e.Journals) ∧
        (sessions M platform).Along Session.ReleasesIdle s more ∧
        (sessions M platform).run s more = some reached ∧
        (id, outcome) ∈ reached.resolved := by
  have kept : s.Kept := by
    refine Machine.invariant Session.Kept ?_ (.start w) (releases.and_forall journals) ran
    intro s e next held allowed stepped
    exact held.step allowed.1 allowed.2 stepped
  refine ⟨kept.disciplined, ?_⟩
  intro id plan member
  rw [kept.covered.inFlight] at member
  exact Session.resolved_of_resolvable (Serving.resolvable_of_inFlight member) rfl rfl

end Turns

-- A tunnel apply under the lock the updater keeps.
namespace LentLock

def world : World :=
  { kernel := NextHopChange.kernel
    owned := Ownership.after [.put NextHopChange.old]
    journal := .empty }

/-- An apply of this set from its turn to its journal entry. -/
def steps (desired : List ManagedRoute) : List Event :=
  [.prepare (.readOwned false), .prepare (.build desired []),
    .prepare (.plan (fun _ => false) false), .prepare .supersede,
    .prepare .superseded, .journal false]

def execution : List Event :=
  [.execute (.exec none), .execute .executed, .execute (.record false), .finish false]

/-- The lock is kept and lent, and a tunnel apply is let in. -/
def lent : List SessionEvent := [.tryQuiesce, .lendCheck, .lendStore, .letIn]

def tunnelApply : List SessionEvent :=
  .lentLock false true true :: ((steps [NextHopChange.old,
    FailedRollback.added] ++ execution).map .lent)

/-- Another apply, up to its probation. -/
def fullApply : List SessionEvent :=
  (.lockApply false false false :: steps [NextHopChange.old] ++ execution).map .serving

/-- Two applies at once, up to their journal entries. -/
def both : List SessionEvent :=
  .lentLock false true true :: ((steps [NextHopChange.old, FailedRollback.added]).map .lent ++
      (.lockApply false false false :: steps []).map .serving)

end LentLock

open LentLock

/-- An update that does not restart the daemon after all: the tunnel apply it
let in is done when the lock is released, and the next apply is alone on
probation. -/
theorem lent_apply_disciplined :
    ∃ s, (sessions Matching.exact "linux").run { world := LentLock.world }
        (LentLock.lent ++ LentLock.tunnelApply ++ [.release] ++ LentLock.fullApply) = some s ∧
      s.unresolved = [txID 2] ∧ s.resolved = [(txID 1, .committed)] ∧
      s.Disciplined := by
  have idle : ∀ es : List SessionEvent, .release ∉ es → ∀ e ∈ es,
      ∀ s : Session, s.ReleasesIdle e := by
    intro es none e member s isRelease
    exact absurd (isRelease ▸ member) none
  have before : (sessions Matching.exact "linux").Along Session.ReleasesIdle
      { world := world } (lent ++ tunnelApply) :=
    .of_forall (idle _ (by simp [lent, tunnelApply])) _
  have after : ∀ s, (sessions Matching.exact "linux").Along
      Session.ReleasesIdle s fullApply :=
    .of_forall (idle _ (by simp [fullApply]))
  obtain ⟨s, ran, unresolved, resolved⟩ :
      ∃ s, (sessions Matching.exact "linux").run { world := world }
        (lent ++ tunnelApply ++ [.release] ++ fullApply) = some s ∧
        s.unresolved = [txID 2] ∧ s.resolved = [(txID 1, .committed)] :=
    ⟨_, rfl, by decide, by decide⟩
  refine ⟨s, ran, unresolved, resolved, (journal_discipline ?_ ?_ ran).1⟩
  · simp [lent, tunnelApply, fullApply,
      steps, execution, SessionEvent.Journals]
  · refine .append (.append before rfl ?_) rfl (after _)
    exact .cons rfl (fun _ => ⟨rfl, rfl, rfl⟩) trivial

/-- The lock is released after a tunnel apply was let in: two transactions
execute at once. -/
theorem released_under_lent_apply :
    ∃ s, (∀ e ∈ LentLock.lent ++ [.release] ++ LentLock.both, e.Journals) ∧
      (sessions Matching.exact "linux").run { world := LentLock.world }
        (LentLock.lent ++ [.release] ++ LentLock.both) = some s ∧
      s.unresolved = [txID 2, txID 1] ∧ ¬ s.Disciplined := by
  refine ⟨_, ?_, rfl, by decide, ?_⟩
  · simp [lent, both, steps, SessionEvent.Journals]
  · intro disciplined
    have one := disciplined.one
    revert one
    decide

/-! ### While the lock is held -/

/-- The lock is held by who quiesced the engine, and lent to no one. -/
structure Session.Quiet (w : World) (s : Session) : Prop where
  same : s.world = w
  quiesced : s.quiesced = true
  main : s.serving.holder = .free
  settled : s.serving.pending.rows = []
  unlent : s.lent = false ∧ s.lending = 0 ∧ s.admitted = 0 ∧ s.borrower = .free

theorem Session.Quiet.step {w : World} {s s' : Session} {e : SessionEvent} (quiet : s.Quiet w)
    (keeps : e ≠ .release ∧ e ≠ .lendCheck)
    (stepped : (sessions M platform).step s e = some s') : s'.Quiet w := by
  obtain ⟨same, quiesced, main, settled, lent, lending, admitted, borrower⟩ := quiet
  have none : ∀ id, s.serving.pending.find id = none := fun id => by
    simp [KeyedTable.find, settled]
  cases e with
  | serving e =>
    simp only [sessions, Session.step, quiesced, and_true, Option.ite_none_left_eq_some] at stepped
    obtain ⟨locks, stepped⟩ := stepped
    obtain ⟨⟨w, p⟩, served, rfl⟩ := Option.map_eq_some_iff.mp stepped
    have ofResolver := Serving.ofResolver_of_free main (by simpa using locks) served
    cases e with
    | decide id decision =>
      obtain ⟨rfl, rfl⟩ := Prod.mk.inj (Option.some.inj served)
      exact ⟨same, quiesced, main, by simp [Pending.decide, none, settled], lent, lending, admitted,
        borrower⟩
    | panicStart =>
      obtain ⟨rfl, rfl⟩ := Prod.mk.inj (Option.some.inj served)
      exact ⟨same, quiesced, main, settled, lent, lending, admitted, borrower⟩
    | resolver | finishTx => simp [Serving.step, none] at served
    | _ => cases ofResolver
  | tryQuiesce => simp [sessions, Session.step, main, quiesced] at stepped
  | lendCheck => exact absurd rfl keeps.2
  | release => exact absurd rfl keeps.1
  | lendStore => simp [sessions, Session.step, lending] at stepped
  | letIn => simp [sessions, Session.step, lent] at stepped
  | lentLock => simp [sessions, Session.step, borrower, admitted] at stepped
  | lent e =>
    simp only [sessions, Session.step, Option.ite_none_right_eq_some] at stepped
    simp [Serving.step_ofApply_free (p := s.borrowing) stepped.1 borrower] at stepped

end RiftRoute
