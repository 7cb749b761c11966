/-
Module: RiftRoute.Api.KillSwitch
Purpose: The kill switch and the user's recorded choice, under one lock: what
  requests, panics and the re-sync make of the wanted state, the stored setting
  and the firewall; and the firewall's cached status, beside the changes.
Trusted boundary: human-reviewed spec
Main exports: Shared.Current, Poll.Current
-/
import Mathlib.Data.List.Sort
import RiftRoute.Library.Machine
import RiftRoute.Library.Texts

namespace RiftRoute

open List

namespace KillSwitch

/-! ### The rules and the state -/

/-- What the kill switch guards and lets through. -/
structure Config where
  physIfaces : List String := []
  gateway : String := ""
  lanSubnets : List String := []
  bypass : List String := []
deriving DecidableEq, Repr

def Config.empty (c : Config) : Bool := c.physIfaces = []

def sorted (v : List String) : List String := v.insertionSort (· ≤ ·)

def sameSet (a b : List String) : Bool := sorted a = sorted b

/-- The two render the same rules. -/
def Config.equal (c o : Config) : Bool :=
  c.gateway = o.gateway && sameSet c.physIfaces o.physIfaces &&
    sameSet c.lanSubnets o.lanSubnets && sameSet c.bypass o.bypass

/-- The server's fields under the lock, and its two settings in the store. -/
structure State where
  want : Bool := false
  last : Config := {}
  blocked : Nat := 0
  strikes : Nat := 0
  setting : Option String := none
  notice : String := ""
deriving DecidableEq, Repr

/-- The choice that a start of the daemon reads. -/
def State.chosen (s : State) : Bool := s.setting = some "true"

def State.Agrees (s : State) : Prop := s.want = s.chosen

instance (s : State) : Decidable s.Agrees := inferInstanceAs (Decidable (_ = _))

/-- What the firewall is asked for. -/
inductive Call where
  | enable (cfg : Config)
  | disable
deriving DecidableEq, Repr

/-- What the system answers while an operation holds the lock. -/
structure Answers where
  /-- The configuration derived from live state. -/
  cfg : Config := {}
  enableOk : Bool := true
  disableOk : Bool := true
  /-- The rules are in force. -/
  effective : Bool := true
  tunnelUp : Bool := false
  /-- The caller went away before the counters were read. -/
  gone : Bool := false
  /-- The counter of blocked packets, if it can be read. -/
  blocked : Option Nat := some 0
deriving DecidableEq, Repr

inductive Reply where
  | done
  | badRequest
  | failed
  | refused
deriving DecidableEq, Repr

structure Outcome where
  state : State
  calls : List Call := []
  reply : Reply := .done

/-! ### The operations -/

def ksCutNotice : String :=
  "Turned the kill switch off: your VPN's own connection runs as your user " ++
  "account (for example Windscribe in WireGuard mode), so the kill switch was cutting it. " ++
  "Use your VPN app's own kill switch or firewall, or a VPN protocol whose connection runs " ++
  "as administrator (such as IKEv2)."

def Answers.cutsVPN (a : Answers) : Bool := a.tunnelUp && !a.gone && a.blocked.any (0 < ·)

def setKillSwitchNotice (s : State) (v : String) : State := { s with notice := v }

def persistKillSwitch (s : State) (on : Bool) : State :=
  { s with setting := some (if on then "true" else "false") }

def giveWayToVPN (s : State) : Outcome :=
  { state := setKillSwitchNotice
      (persistKillSwitch { s with want := false } false) ksCutNotice
    calls := [.disable] }

/-- A request that turns the switch on. -/
def handleEnable (s : State) (a : Answers) : Outcome :=
  if a.enableOk then
    if a.cutsVPN then
      -- the wanted state stays what it was
      { state := persistKillSwitch s false
        calls := [.enable a.cfg, .disable]
        reply := .refused }
    else
      { state := persistKillSwitch
          { s with want := true, last := a.cfg, blocked := 0, strikes := 0 } true
        calls := [.enable a.cfg] }
  else { state := s, calls := [.enable a.cfg], reply := .failed }

/-- A request that turns the switch off. -/
def handleDisable (s : State) (a : Answers) : Outcome :=
  if a.disableOk then
    { state := persistKillSwitch { s with want := false } false
      calls := [.disable] }
  else { state := s, calls := [.disable], reply := .failed }

/-- A request as it is decoded, if it can be. -/
def handleKillSwitch (s : State) (enabled : Option Bool) (a : Answers) : Outcome :=
  match enabled with
  | none => { state := s, reply := .badRequest }
  | some true => handleEnable (setKillSwitchNotice s "") a
  | some false => handleDisable (setKillSwitchNotice s "") a

def ksStrikesToYield : Nat := 2

def watchForVPNCut (s : State) (a : Answers) : Outcome :=
  match a.blocked with
  | none => { state := s }
  | some n =>
    let counted := { s with blocked := n }
    if ¬ n > s.blocked ∨ ¬ a.tunnelUp then
      { state := { counted with strikes := 0 } }
    else
      let struck := { counted with strikes := s.strikes + 1 }
      if struck.strikes ≥ ksStrikesToYield then giveWayToVPN struck
      else { state := struck }

def syncKillSwitch (s : State) (a : Answers) : Outcome :=
  if ¬ s.want then { state := s }
  else if a.cfg.empty then { state := s }
  else if a.cfg.equal s.last ∧ a.effective then watchForVPNCut s a
  else if a.enableOk then
    { state := { s with last := a.cfg, blocked := 0, strikes := 0 }
      calls := [.enable a.cfg] }
  else { state := s, calls := [.enable a.cfg] }

/-- A panic. -/
def disableKillSwitch (s : State) (a : Answers) : Outcome :=
  { state := persistKillSwitch { s with want := false } false
    calls := [.disable]
    reply := if a.disableOk then .done else .failed }

/-! ### Runs -/

/-- What takes the lock. -/
inductive Op where
  | request (enabled : Option Bool)
  | panic
  | sync
deriving DecidableEq, Repr

/-- An operation and what the system answers it. -/
structure Event where
  op : Op
  answers : Answers := {}
deriving DecidableEq, Repr

def step (s : State) (e : Event) : Outcome :=
  match e.op with
  | .request enabled => handleKillSwitch s enabled e.answers
  | .panic => disableKillSwitch s e.answers
  | .sync => syncKillSwitch s e.answers

def trace (s : State) : List Event → List (State × Event)
  | [] => []
  | e :: es => (s, e) :: trace (step s e).state es

/-- The state a run ends in. -/
def final (s : State) (es : List Event) : State := es.foldl (fun s e => (step s e).state) s

variable (backend : Backend) (e : Event)

def Event.RefusedEnable : Prop :=
  e.op = .request (some true) ∧ e.answers.enableOk ∧ e.answers.cutsVPN

instance (e : Event) : Decidable e.RefusedEnable := inferInstanceAs (Decidable (_ ∧ _))

def Event.Disables : Prop := e.op = .request (some false) ∧ e.answers.disableOk

def Event.AsksOn : Prop := e.op = .request (some true)

/-- After a refused enable or a successful disable no re-sync turns the switch
on before another enable request. -/
def NeverRevived (s : State) (es : List Event) : Prop :=
  ∀ past off between sync rest, es = past ++ off :: (between ++ sync :: rest) →
    off.RefusedEnable ∨ off.Disables →
    (∀ e ∈ between, ¬ e.AsksOn) → sync.op = .sync →
    ∀ cfg, .enable cfg ∉ (step (final s (past ++ off :: between)) sync).calls

theorem agrees_persist (s : State) (on : Bool) : (persistKillSwitch s on).Agrees ↔ s.want = on := by
  cases on <;> simp [State.Agrees, State.chosen, persistKillSwitch]

variable {s : State}

theorem agrees_notice (v : String) : (setKillSwitchNotice s v).Agrees ↔ s.Agrees := Iff.rfl

theorem agrees_giveWayToVPN (s : State) : (giveWayToVPN s).state.Agrees := by
  rw [giveWayToVPN, agrees_notice, agrees_persist]

theorem agrees_watchForVPNCut (agrees : s.Agrees) (a : Answers) :
    (watchForVPNCut s a).state.Agrees := by
  unfold watchForVPNCut
  split
  · exact agrees
  · dsimp only
    split
    · exact agrees
    · split
      · exact agrees_giveWayToVPN _
      · exact agrees

theorem agrees_syncKillSwitch (agrees : s.Agrees) (a : Answers) :
    (syncKillSwitch s a).state.Agrees := by
  unfold syncKillSwitch
  split
  · exact agrees
  split
  · exact agrees
  split
  · exact agrees_watchForVPNCut agrees a
  split
  · exact agrees
  · exact agrees

theorem agrees_step_iff (agrees : s.Agrees) (e : Event) :
    (step s e).state.Agrees ↔ ¬ (s.want ∧ e.RefusedEnable) := by
  obtain ⟨op, a⟩ := e
  cases op with
  | panic =>
    simp [step, disableKillSwitch, agrees_persist, Event.RefusedEnable]
  | sync =>
    simp [step, agrees_syncKillSwitch agrees a, Event.RefusedEnable]
  | request enabled =>
    match enabled with
    | none => simp [step, handleKillSwitch, agrees, Event.RefusedEnable]
    | some false =>
      have cleared : (setKillSwitchNotice s "").Agrees := agrees
      cases ok : a.disableOk <;>
        simp [step, handleKillSwitch, handleDisable, ok, agrees_persist,
          cleared, Event.RefusedEnable]
    | some true =>
      have cleared : (setKillSwitchNotice s "").Agrees := agrees
      have same : (setKillSwitchNotice s "").want = s.want := rfl
      cases ok : a.enableOk <;> cases cuts : a.cutsVPN <;>
        simp [step, handleKillSwitch, handleEnable, ok, cuts,
          agrees_persist, cleared, same, Event.RefusedEnable]

theorem trace_append (s : State) (first second : List Event) :
    trace s (first ++ second) = trace s first ++ trace (final s first) second := by
  induction first generalizing s with
  | nil => rfl
  | cons e first ih =>
    rw [cons_append, trace, trace, ih]
    rfl

/-! ### A switch that is not wanted -/

theorem not_want_step (off : s.want = false) {e : Event}
    (quiet : ¬ e.AsksOn) : (step s e).state.want = false := by
  obtain ⟨op, a⟩ := e
  cases op with
  | panic => rfl
  | sync =>
    have idle : syncKillSwitch s a = { state := s } := if_pos (by simp [off])
    rw [step]
    rw [idle]
    exact off
  | request enabled =>
    match enabled with
    | none => exact off
    | some true => exact absurd rfl quiet
    | some false =>
      cases ok : a.disableOk <;>
        simp [step, handleKillSwitch, handleDisable, ok, persistKillSwitch,
          setKillSwitchNotice, off]

theorem not_want_final (off : s.want = false) {es : List Event}
    (quiet : ∀ e ∈ es, ¬ e.AsksOn) : (final s es).want = false := by
  induction es generalizing s with
  | nil => exact off
  | cons e es ih =>
    obtain ⟨here, later⟩ := forall_mem_cons.mp quiet
    exact ih (not_want_step off here) later

theorem calls_sync_off (off : s.want = false) {e : Event}
    (is : e.op = .sync) : (step s e).calls = [] := by
  have idle : syncKillSwitch s e.answers = { state := s } :=
    if_pos (by simp [off])
  rw [step, is]
  rw [idle]

theorem not_want_of_off {e : Event} (ends : e.RefusedEnable ∨ e.Disables)
    (unwanted : e.RefusedEnable → s.want = false) :
    (step s e).state.want = false := by
  obtain ⟨op, a⟩ := e
  rcases ends with refused | ⟨is, ok⟩
  · obtain ⟨is, ok, cuts⟩ := refused
    have off := unwanted ⟨is, ok, cuts⟩
    dsimp only at is ok cuts
    subst is
    simp [step, handleKillSwitch, handleEnable, ok, cuts, persistKillSwitch,
      setKillSwitchNotice, off]
  · dsimp only at is ok
    subst is
    simp [step, handleKillSwitch, handleDisable, ok, persistKillSwitch]

/-! ### Whole runs -/

theorem agrees_run_iff (agrees : s.Agrees) (es : List Event) :
    (∀ past rest, es = past ++ rest → (final s past).Agrees) ↔
      ∀ p ∈ trace s es, ¬ (p.1.want ∧ p.2.RefusedEnable) := by
  induction es generalizing s with
  | nil =>
    constructor
    · intro _ p member
      cases member
    · intro _ past rest whole
      obtain ⟨rfl, -⟩ := append_eq_nil_iff.mp whole.symm
      exact agrees
  | cons e es ih =>
    rw [trace, forall_mem_cons, ← agrees_step_iff agrees e]
    constructor
    · intro all
      have next : (step s e).state.Agrees := all [e] es rfl
      refine ⟨next, (ih next).mp ?_⟩
      intro past rest whole
      exact all (e :: past) rest (by rw [whole, cons_append])
    · rintro ⟨next, later⟩ past rest whole
      cases past with
      | nil => exact agrees
      | cons first past =>
        obtain ⟨rfl, more⟩ := List.cons.inj whole
        exact (ih next).mpr later past rest more

theorem neverRevived_of_allowed {es : List Event}
    (allowed : ∀ p ∈ trace s es, ¬ (p.1.want ∧ p.2.RefusedEnable)) :
    NeverRevived s es := by
  rintro past off between sync rest rfl ends quiet is cfg
  have found : (final s past, off) ∈ trace s (past ++ off :: (between ++ sync :: rest)) := by
    rw [trace_append, trace]
    exact mem_append_right _ mem_cons_self
  have dropped : (step (final s past) off).state.want = false := by
    refine not_want_of_off ends fun refused => ?_
    by_contra wanted
    exact allowed _ found ⟨by simpa using wanted, refused⟩
  have still : (final s (past ++ off :: between)).want = false := by
    rw [final, foldl_append]
    exact not_want_final dropped quiet
  rw [calls_sync_off still is]
  exact not_mem_nil

/-- The wanted state follows the recorded choice through a run, and no re-sync
brings a switch back that was refused or turned off, exactly when no enable
request is refused while the switch is wanted. -/
theorem follows_choice_iff (s : State) (agrees : s.Agrees) (es : List Event) :
    ((∀ past rest, es = past ++ rest → (final s past).Agrees) ∧ NeverRevived s es) ↔
      ∀ p ∈ trace s es, ¬ (p.1.want ∧ p.2.RefusedEnable) := by
  constructor
  · rintro ⟨all, -⟩
    exact (agrees_run_iff agrees es).mp all
  · intro allowed
    exact ⟨(agrees_run_iff agrees es).mpr allowed, neverRevived_of_allowed allowed⟩

def uplink : Config := { physIfaces := ["en0"] }

/-- The user turns the switch on, and an hour later off again. -/
def onAndOff : List Event :=
  [⟨.request (some true), { cfg := uplink }⟩, ⟨.sync, { cfg := uplink }⟩,
    ⟨.request (some false), {}⟩, ⟨.sync, { cfg := uplink }⟩]

theorem onAndOff_followed : (∀ past rest, onAndOff = past ++ rest →
      (final {} past).Agrees) ∧ NeverRevived {} onAndOff :=
  (follows_choice_iff {} (by decide) onAndOff).mpr (by decide)

/-- With the switch on, the user asks for it again and is refused. -/
def refusedAgain : List Event :=
  [⟨.request (some true), { cfg := uplink }⟩, ⟨.request (some true),
      { cfg := uplink, tunnelUp := true, blocked := some 5 }⟩]

theorem refusedAgain_revived : State.Agrees {} ∧ ¬ (final {} refusedAgain).Agrees ∧
      .enable uplink ∈ (step (final {} refusedAgain)
        ⟨.sync, { cfg := uplink, effective := false }⟩).calls := by
  decide

/-! ### The cached status -/

open Texts (contains lines trimSpace)

inductive Backend where
  | nftables
  | pf
  | other
deriving DecidableEq, Repr

structure Status where
  loaded : Bool := false
  effective : Bool := false
deriving DecidableEq, Repr

def pfHooked (mainRules : String) : Bool :=
  contains "anchor \"riftroute_ks\"".toList mainRules.toList

def pfRunning (info : String) : Bool :=
  ((lines info).find? fun line : String => "Status:".toList.isPrefixOf (trimSpace line).toList).any
    fun line : String => contains "Enabled".toList line.toList

/-- A status with the times its system reads began. -/
structure Reading where
  status : Status := {}
  began : List Nat := []
deriving DecidableEq, Repr

/-- A call of `Status` after its look at the cache: the generation it saw, and
the last change of the calls that had returned by then. -/
structure Poll where
  gen : Nat
  settled : Nat
  reading : Reading := {}
deriving DecidableEq, Repr

/-- What the calls share.  The clock counts the sections they have run. -/
structure Shared where
  cached : Reading := {}
  /-- The zero time is none. -/
  cachedAt : Option Int := none
  gen : Nat := 0
  clock : Nat := 0
  /-- The last change of an Enable or Disable that has returned. -/
  settled : Nat := 0
  /-- What each `Status` reported, with the last settled change at its look at
  the cache. -/
  reports : List (Nat × Reading) := []

/-- The steps of Enable and Disable, some of which run several commands. -/
inductive Step where
  | loadTable
  | deleteTable
  | ensureHook
  | loadAnchor
  | ensurePFEnabled
  | flushAnchor
  | dropHook
  | releasePF
deriving DecidableEq, Repr

/-- The steps of a call; after a step that must succeed a failure ends it. -/
def Call.steps : Backend → Call → List (Step × Bool)
  | .nftables, .enable cfg => if cfg.empty then [] else [(.loadTable, true)]
  | .pf, .enable cfg =>
    if cfg.empty then []
    else [(.ensureHook, true), (.loadAnchor, true), (.ensurePFEnabled, false)]
  | .nftables, .disable => [(.deleteTable, false)]
  | .pf, .disable => [(.flushAnchor, false), (.dropHook, false), (.releasePF, false)]
  | .other, _ => []

inductive Query where
  | rules
  | main
  | info
deriving DecidableEq, Repr

inductive Task where
  | status
  | ask (query : Query) (poll : Poll)
  | wait (query : Query) (poll : Poll)
  | store (poll : Poll)
  | call (call : Call)
  | change (left : List (Step × Bool)) (made : Nat)
deriving DecidableEq

def Task.isCall : Task → Bool
  | .status | .call _ => true
  | _ => false

/-- The wall clock and what a command answers. -/
structure Told where
  now : Int := 0
  ok : Bool := true
  out : String := ""
  /-- The step runs another command. -/
  more : Bool := false

def statusTTL : Int := 3000000000

variable (m : Shared)

def Shared.fresh (now : Int) : Bool := m.cachedAt.any (now - · < statusTTL)

def Shared.report (settled : Nat) (r : Reading) : Shared :=
  { m with reports := (settled, r) :: m.reports }

/-- An Enable or Disable since the call began would make its reading stale. -/
def Shared.keep (poll : Poll) (now : Int) : Shared :=
  if m.gen = poll.gen then { m with cached := poll.reading, cachedAt := some now } else m

def Shared.invalidate (made : Nat) : Shared :=
  { m with cachedAt := none, gen := m.gen + 1, settled := max m.settled made }

def Shared.tick : Shared := { m with clock := m.clock + 1 }

def Poll.begins (poll : Poll) (t : Nat) : Poll :=
  { poll with reading := { poll.reading with began := poll.reading.began ++ [t] } }

def Poll.with (poll : Poll) (status : Status) : Poll :=
  { poll with reading := { poll.reading with status } }

/-- What follows a command's answer. -/
def Poll.next (query : Query) (poll : Poll) (told : Told) : Task :=
  let old := poll.reading.status
  match backend, query with
  | .pf, .rules =>
    if told.ok ∧ trimSpace told.out ≠ "" then .ask .main (poll.with { loaded := true })
    else .store poll
  | .pf, .main => .ask .info (poll.with { old with effective := pfHooked told.out })
  | .pf, .info =>
    .store (poll.with { old with effective := old.effective && pfRunning told.out })
  | _, _ => .store (poll.with ⟨told.ok, told.ok⟩)

/-- One section: what a call does under the lock, or one command's beginning or
end. -/
def run (task : Task) (told : Told) : Shared × List Task :=
  match task with
  | .status =>
    if m.fresh told.now then (m.tick.report m.settled m.cached, [])
    else if backend = .other then (m.tick, [.store { gen := m.gen, settled := m.settled }])
    else (m.tick, [.ask .rules { gen := m.gen, settled := m.settled }])
  | .ask query poll => (m.tick, [.wait query (poll.begins m.tick.clock)])
  | .wait query poll => (m.tick, [poll.next backend query told])
  | .store poll => ((m.tick.keep poll told.now).report poll.settled poll.reading, [])
  | .call call => (m.tick, [.change (call.steps backend) 0])
  | .change ((step, must) :: left) _ =>
    (m.tick, [.change (if told.more then (step, must) :: left
      else if told.ok ∨ ¬ must then left else []) m.tick.clock])
  -- the deferred invalidation, after which the call returns
  | .change [] made => (m.tick.invalidate made, [])

def calls : Machine (Pool Shared Task) (Act Task Told) :=
  Pool.machine Task.isCall fun m task told => some (run backend m task told)

/-- Every read began after a change. -/
def Reading.Since (r : Reading) (change : Nat) : Prop := ∀ t ∈ r.began, change < t

/-- The changes made are in the past, and what is cached or was reported began
after those that were settled. -/
structure Shared.Current (m : Shared) : Prop where
  past : m.settled ≤ m.clock
  cached : m.cachedAt.isSome → m.cached.Since m.settled
  reports : ∀ report ∈ m.reports, report.2.Since report.1

/-- While the generation is the one the call saw, nothing was settled since. -/
structure Poll.Current (m : Shared) (poll : Poll) : Prop where
  seen : poll.gen ≤ m.gen
  past : poll.settled ≤ m.clock
  same : poll.gen = m.gen → poll.settled = m.settled
  reads : poll.reading.Since poll.settled

def Task.Current (m : Shared) : Task → Prop
  | .status | .call _ => True
  | .ask _ poll | .wait _ poll | .store poll => poll.Current m
  | .change _ made => made ≤ m.clock

section Sections

variable {m : Shared} {poll : Poll}

theorem Shared.Current.tick (current : m.Current) : m.tick.Current :=
  ⟨Nat.le_succ_of_le current.past, current.cached, current.reports⟩

theorem Shared.Current.report (current : m.Current) {settled : Nat} {r : Reading}
    (since : r.Since settled) : (m.report settled r).Current :=
  ⟨current.past, current.cached, forall_mem_cons.mpr ⟨since, current.reports⟩⟩

theorem Shared.Current.keep (current : m.Current) (own : poll.Current m) (now : Int) :
    (m.keep poll now).Current := by
  unfold Shared.keep
  split
  case isTrue same =>
    exact ⟨current.past, fun _ => own.same same.symm ▸ own.reads, current.reports⟩
  case isFalse => exact current

theorem Shared.Current.invalidate (current : m.Current) {made : Nat} (past : made ≤ m.clock) :
    (m.invalidate made).Current :=
  ⟨Nat.max_le.mpr ⟨current.past, past⟩, nofun, current.reports⟩

theorem Poll.Current.begins (current : poll.Current m) :
    (poll.begins m.tick.clock).Current m.tick := by
  refine ⟨current.seen, Nat.le_succ_of_le current.past, current.same, ?_⟩
  refine forall_mem_append.mpr ⟨current.reads, ?_⟩
  rw [forall_mem_singleton]
  exact Nat.lt_succ_of_le current.past

theorem Poll.Current.next (current : poll.Current m) (backend : Backend)
    (query : Query) (told : Told) : (poll.next backend query told).Current m := by
  have keeps : ∀ status, (poll.with status).Current m := fun _ =>
    ⟨current.seen, current.past, current.same, current.reads⟩
  unfold Poll.next
  split
  · split
    · exact keeps _
    · exact current
  all_goals exact keeps _

/-- The generation changes with every settled change. -/
structure Shared.Later (m after : Shared) : Prop where
  clock : m.clock ≤ after.clock
  gen : after.gen = m.gen ∧ after.settled = m.settled ∨ m.gen < after.gen

theorem Task.Current.later {task : Task} {after : Shared} (current : task.Current m)
    (later : m.Later after) : task.Current after := by
  have polls : ∀ {poll : Poll}, poll.Current m → poll.Current after := by
    intro poll own
    refine ⟨?_, own.past.trans later.clock, fun same => ?_, own.reads⟩
    · rcases later.gen with ⟨gen, _⟩ | gen
      · exact gen ▸ own.seen
      · exact own.seen.trans gen.le
    · rcases later.gen with ⟨gen, settled⟩ | gen
      · exact (own.same (same.trans gen)).trans settled.symm
      · exact absurd (same ▸ own.seen) (Nat.not_le_of_lt gen)
  cases task with
  | status | call => trivial
  | ask | wait | store => exact polls current
  | change => exact Nat.le_trans current later.clock

theorem later_run (backend : Backend) (m : Shared) (task : Task) (told : Told) :
    m.Later (run backend m task told).1 := by
  have ticks : m.Later m.tick := ⟨Nat.le_succ _, .inl ⟨rfl, rfl⟩⟩
  unfold run
  split
  · split
    · exact ⟨ticks.clock, ticks.gen⟩
    · split <;> exact ticks
  case h_4 poll =>
    unfold Shared.keep
    split <;> exact ⟨ticks.clock, ticks.gen⟩
  case h_7 => exact ⟨ticks.clock, .inr (Nat.lt_succ_self _)⟩
  all_goals exact ticks

theorem current_run {task : Task} (current : m.Current) (own : task.Current m)
    (backend : Backend) (told : Told) : (run backend m task told).1.Current ∧
      ∀ next ∈ (run backend m task told).2, next.Current (run backend m task told).1 := by
  have ticked := current.tick
  have mine : task.Current m.tick := own.later ⟨Nat.le_succ _, .inl ⟨rfl, rfl⟩⟩
  unfold run
  split
  · split
    case isTrue fresh =>
      obtain ⟨at_, kept, _⟩ := (Option.any_eq_true _ _).mp fresh
      exact ⟨ticked.report (current.cached (kept ▸ rfl)), by simp⟩
    · have poll : Poll.Current m.tick { gen := m.gen, settled := m.settled } :=
        ⟨Nat.le_refl _, ticked.past, fun _ => rfl, by simp [Reading.Since]⟩
      split <;> exact ⟨ticked, forall_mem_singleton.mpr poll⟩
  case h_2 query poll =>
    exact ⟨ticked, forall_mem_singleton.mpr (Poll.Current.begins own)⟩
  case h_3 query poll =>
    exact ⟨ticked, forall_mem_singleton.mpr (Poll.Current.next mine backend query told)⟩
  case h_4 poll => exact ⟨(ticked.keep mine _).report mine.reads, by simp⟩
  case h_5 => exact ⟨ticked, forall_mem_singleton.mpr (Nat.zero_le _)⟩
  case h_6 => exact ⟨ticked, forall_mem_singleton.mpr (Nat.le_refl _)⟩
  case h_7 => exact ⟨ticked.invalidate mine, by simp⟩

end Sections

/-- **The cached status is never older than the last change**: what a `Status`
call reports was read from the system after every change of the calls that had
returned before it looked at the cache. -/
theorem status_current {backend : Backend} {acts : List (Act Task Told)}
    {reached : Pool Shared Task} (ran : (calls backend).run ⟨{}, []⟩ acts = some reached) :
    ∀ report ∈ reached.shared.reports, ∀ began ∈ report.2.began, report.1 < began := by
  have free : (calls backend).Along (Pool.sections fun _ _ => True) ⟨{}, []⟩ acts :=
    .of_forall (fun act _ _ => by cases act <;> trivial) _
  have current := (Pool.invariant_over Shared.Current Task.Current
    (fun _ task begins => by cases task <;> trivial)
    (fun m task told after left held own _ went => by
      obtain ⟨rfl, rfl⟩ := Prod.mk.inj (Option.some.inj went)
      obtain ⟨state, tasks⟩ := current_run held own backend told
      exact ⟨state, tasks, fun _ other => other.later (later_run backend m task told)⟩)
    ⟨Nat.le_refl _, by simp, by simp⟩ (by simp) free ran).1
  exact current.reports

/-- A call of `Status` up to its store. -/
def polling (gen settled began : Nat) : List (Act Task Told) :=
  let poll : Poll := { gen, settled }
  [.go (.ask .rules poll) {}, .go (.wait .rules (poll.begins began)) {},
    .go (.store ((poll.begins began).with ⟨true, true⟩)) {}]

/-- A reading that a Disable overtakes, a fresh one, and the cached one. -/
def overtaken : List (Act Task Told) :=
  [.start .status, .go .status {}, .start (.call .disable), .go (.call .disable) {},
    .go (.change [(.deleteTable, false)] 0) {}, .go (.change [] 3) {}] ++ polling 0 0 5 ++
    [.start .status, .go .status {}] ++ polling 1 3 9 ++ [.start .status, .go .status {}]

theorem overtaken_current : ((calls .nftables).run ⟨{}, []⟩ overtaken).map
      (·.shared.reports.map fun report => (report.1, report.2.began)) =
        some [(3, [9]), (3, [9]), (0, [5])] ∧
    ∃ reached, (calls .nftables).run ⟨{}, []⟩ overtaken = some reached ∧
      ∀ report ∈ reached.shared.reports, ∀ began ∈ report.2.began, report.1 < began := by
  have ended : ((calls .nftables).run ⟨{}, []⟩ overtaken).map
      (·.shared.reports.map fun report => (report.1, report.2.began)) =
        some [(3, [9]), (3, [9]), (0, [5])] := by decide
  obtain ⟨reached, ran, _⟩ := Option.map_eq_some_iff.mp ended
  exact ⟨ended, reached, ran, status_current ran⟩

end KillSwitch

end RiftRoute
