/-
Module: RiftRoute.Updater.Guard
Purpose: The updater's files and the programs that change them (a copy or state
  write is one operation), what one rollback puts back wherever it stops, and
  installations whose starts may be cut short.
Trusted boundary: human-reviewed spec
-/
import RiftRoute.Library.Durable
import RiftRoute.Library.Machine

namespace RiftRoute

namespace Updater

open Durable Durable.Prog

/-! ### Files -/

/-- The helpers' names in a release tarball. -/
inductive Helper where
  | openVPN
  | charonCmd
deriving DecidableEq, Repr

/-- The files an update installs; each has a kept copy (`.prev`). -/
inductive Place where
  | daemon
  | helper (h : Helper)
deriving DecidableEq, Repr

/-- The update on probation, or the rollback the user asked for. -/
structure Marker where
  fromVersion : String
  toVersion : String
  boots : Nat
  rollback : Bool
deriving DecidableEq, Repr

inductive HelperSwap where
  | replaced
  | added
deriving DecidableEq, Repr

/-- The update server's last word on the newest release it served. -/
structure LastAdvice where
  version : String
  rolloutPercent : Int
  halt : Bool
deriving DecidableEq, Repr

/-- The updater's state file. -/
structure Persisted where
  bucket : Nat
  lastAdvice : LastAdvice
  skip : String
  rolledBackFrom : String
  rolledBackBy : String
  rollbackError : String
  swapOf : Helper → Option HelperSwap

def Persisted.setSwap (h : Helper) (how : Option HelperSwap) (ps : Persisted) : Persisted :=
  { ps with swapOf := Function.update ps.swapOf h how }

/-- What is on disk, over the contents of binaries and of databases. -/
structure Disk (B Db : Type) where
  installed : Place → Option B
  kept : Place → Option B
  db : Db
  restore : Option Db
  wal : Bool
  shm : Bool
  backup : Option Db
  marker : Option Marker
  state : Persisted

inductive FileOp (B : Type) where
  | keep (p : Place)
  | putBack (p : Place)
  | install (p : Place) (file : B)
  | removeKept (p : Place)
  | removeBackup
  | backupDB
  | copyBackup
  | removeRestore
  | removeWal
  | removeShm
  | renameRestore
  | writeMarker (m : Marker)
  | removeMarker
  | updateState (f : Persisted → Persisted)

variable {B Db : Type}

/-- What an operation does; a copy or a rename of a missing file fails, and
removing a missing file changes nothing. -/
def perform : FileOp B → Disk B Db → Option (Disk B Db)
  | .keep p, d => (d.installed p).map fun b =>
    { d with kept := Function.update d.kept p (some b) }
  | .putBack p, d => (d.kept p).map fun b =>
    { d with installed := Function.update d.installed p (some b) }
  | .install p file, d =>
    some { d with installed := Function.update d.installed p (some file) }
  | .removeKept p, d => some { d with kept := Function.update d.kept p none }
  | .removeBackup, d => some { d with backup := none }
  | .backupDB, d => some { d with backup := some d.db }
  | .copyBackup, d => d.backup.map fun b => { d with restore := some b }
  | .removeRestore, d => some { d with restore := none }
  | .removeWal, d => some { d with wal := false }
  | .removeShm, d => some { d with shm := false }
  | .renameRestore, d => d.restore.map fun b =>
    { d with db := b, restore := none }
  | .writeMarker m, d => some { d with marker := some m }
  | .removeMarker, d => some { d with marker := none }
  | .updateState f, d => some { d with state := f d.state }

/-- A program over the updater's files. -/
abbrev Files (B Db A : Type) := Prog (FileOp B) (Disk B Db) A

/-! ### The start of the daemon -/

def maxBoots : Nat := 3

/-- The running version, the helpers that ship here, and how a database's
schema and the oldest schema it may be read with are read. -/
structure GuardEnv (Db : Type) where
  current : String
  openVPN : Bool
  charonCmd : Bool
  dbVersion : Db → Option Nat
  dbMinReader : Db → Option Nat

def helpersAt (openVPN charonCmd : Bool) : List Helper :=
  (if openVPN then [.openVPN] else []) ++ (if charonCmd then [.charonCmd] else [])

def GuardEnv.helpers (env : GuardEnv Db) : List Helper := helpersAt env.openVPN env.charonCmd

/-- The verdict for a start. -/
structure Guard where
  restartNow : Bool
  probation : Bool
deriving DecidableEq, Repr

def restoreHelper (h : Helper) (how : Option HelperSwap) : Files B Db Bool :=
  if how = some .replaced then do
    let d ← read
    if (d.kept (.helper h)).isSome then
      if ← Prog.perform (.putBack (.helper h)) then
        attempt (.removeKept (.helper h))
        return true
      else return false
    else return true
  else return true

/-- Put one helper back and clear its record; a failure is logged. -/
def restoreOne (ps : Persisted) (h : Helper) : Files B Db Bool :=
  if (ps.swapOf h).isSome then do
    if ← restoreHelper h (ps.swapOf h) then
      attempt (.updateState (·.setSwap h none))
      return true
    else return true
  else return true

def restoreHelpersFor (env : GuardEnv Db) : Files B Db Bool := do
  let d ← read
  each (restoreOne d.state) env.helpers

def recordRolledBack (version who : String) : Files B Db Unit :=
  attempt (.updateState fun ps =>
    { ps with
      rolledBackFrom := version, rolledBackBy := who, skip := version,
      rollbackError := "" })

/-- The version going back can't read the current database. -/
def GuardEnv.mustRestore (env : GuardEnv Db) (d : Disk B Db) : Bool :=
  match d.backup with
  | none => false
  | some backup =>
    match env.dbVersion backup, env.dbMinReader d.db with
    | some oldSchema, some minReader => decide (oldSchema < minReader)
    | _, _ => false

/-- The database of before the update, if it is needed; `false` when putting
it back failed. -/
def restoreDB (env : GuardEnv Db) : Files B Db Bool := do
  let d ← read
  if env.mustRestore d then
    if ← Prog.perform .copyBackup then
      attempt .removeWal
      attempt .removeShm
      Prog.perform .renameRestore
    else
      attempt .removeRestore
      return false
  else return true

/-- The last part of a rollback, once the daemon is back. -/
def closeRollback (m : Marker) (who : String) : Files B Db (Option String) := do
  attempt (.removeKept .daemon)
  attempt (if m.rollback then .removeMarker
    else .writeMarker ⟨m.fromVersion, m.toVersion, maxBoots + 1, false⟩)
  recordRolledBack m.toVersion who
  return none

/-- Put the previous version back; the error, if there is one. -/
def rollback (env : GuardEnv Db) (m : Marker) (who : String) : Files B Db (Option String) := do
  let d ← read
  if (d.kept .daemon).isSome then
    if ← restoreDB env then
      let _ ← restoreHelpersFor env
      if ← Prog.perform (.putBack .daemon) then closeRollback m who
      else return some "restore binary"
    else return some "restore database"
  else return some "no previous binary to roll back to"

def rollbackOrCarryOn (env : GuardEnv Db) (m : Marker) (who : String) : Files B Db Guard := do
  match ← rollback env m who with
  | some err =>
    attempt .removeMarker
    attempt (.updateState fun ps => { ps with rollbackError := err })
    return ⟨false, false⟩
  | none => return ⟨true, false⟩

/-- Not the new binary: the swap never finished, or the rollback already
happened. -/
def settleOther (env : GuardEnv Db) (m : Marker) : Files B Db Guard := do
  if m.boots = 0 then
    let _ ← restoreHelpersFor env
  if env.current = m.fromVersion ∧ 0 < m.boots then
    recordRolledBack m.toVersion "health"
  attempt .removeMarker
  return ⟨false, false⟩

/-- What runs first in a start. -/
def bootGuard (env : GuardEnv Db) : Files B Db Guard := do
  let d ← read
  match d.marker with
  | none => return ⟨false, false⟩
  | some m =>
    if m.rollback then rollbackOrCarryOn env m "you"
    else if env.current ≠ m.toVersion then settleOther env m
    else if maxBoots < m.boots + 1 then
      rollbackOrCarryOn env { m with boots := m.boots + 1 } "health"
    else do
      attempt (.writeMarker { m with boots := m.boots + 1 })
      return ⟨false, true⟩

/-- The marker is this version's own probation, not a rollback asked for in
the meantime. -/
def Marker.isProbation (version : String) (m : Marker) : Bool :=
  !m.rollback && m.toVersion = version

/-- A start on probation is healthy. -/
def confirm (version : String) : Files B Db Unit := do
  let d ← read
  if d.marker.any (Marker.isProbation version) then attempt .removeMarker
  attempt (.updateState fun ps =>
    { ps with rolledBackFrom := "", rolledBackBy := "", rollbackError := "" })

/-! ### Installing a release -/

/-- A release waiting to be installed, with the helpers it has. -/
structure Staged (B : Type) where
  version : String
  daemon : B
  helpers : List (Helper × B)
deriving DecidableEq, Repr

variable (s : Staged B)

def Staged.has (h : Helper) : Bool := s.helpers.any fun staged => staged.1 = h

/-- Keep the installed helpers the release replaces and record what was done
to each; `none` when that failed. -/
def keepHelpers (s : Staged B) : List Helper → (Helper → Option HelperSwap) →
      Files B Db (Option (Helper → Option HelperSwap))
  | [], hows => do
      if ← Prog.perform (.updateState fun ps => { ps with swapOf := hows }) then
        return some hows
      else return none
  | h :: rest, hows =>
    if s.has h then do
      let d ← read
      if (d.installed (.helper h)).isSome then
        if ← Prog.perform (.keep (.helper h)) then
          keepHelpers s rest (Function.update hows h (some .replaced))
        else return none
      else do
        attempt (.removeKept (.helper h))
        keepHelpers s rest (Function.update hows h (some .added))
    else do
      attempt (.removeKept (.helper h))
      keepHelpers s rest hows

/-- A helper that can't be put back does not stop the others. -/
def undoOne (hows : Helper → Option HelperSwap) (h : Helper) : Files B Db Bool := do
  let _ ← restoreHelper h (hows h)
  return true

/-- Undo a failed copy. -/
def undo (env : GuardEnv Db) (hows : Helper → Option HelperSwap)
    (err : String) : Files B Db (Option String) := do
  attempt .removeMarker
  let _ ← each (undoOne hows) env.helpers
  return some err

def installHelper (staged : Helper × B) : Files B Db Bool :=
  Prog.perform (.install (.helper staged.1) staged.2)

/-- The helpers first, the daemon last. -/
def installStaged (env : GuardEnv Db) (s : Staged B)
    (hows : Helper → Option HelperSwap) : Files B Db (Option String) := do
  if ← each installHelper s.helpers then
    if ← Prog.perform (.install .daemon s.daemon) then return none
    else undo env hows "install binary"
  else undo env hows "install helper"

/-- From the helpers on; what comes before is the database and the running
binary. -/
def swapFiles (env : GuardEnv Db) (s : Staged B) : Files B Db (Option String) := do
  match ← keepHelpers s env.helpers fun _ => none with
  | none => return some "keep current helpers"
  | some hows =>
    if ← Prog.perform (.writeMarker ⟨env.current, s.version, 0, false⟩) then
      installStaged env s hows
    else return some "write marker"

/-- Install a staged release; the error, if there is one. -/
def swap (env : GuardEnv Db) (s : Staged B) : Files B Db (Option String) := do
  attempt .removeBackup
  if ← Prog.perform .backupDB then
    if ← Prog.perform (.keep .daemon) then swapFiles env s
    else return some "keep current binary"
  else return some "back up database"

/-- The user asks for the previous version; the error, if there is one. -/
def requestRollback (env : GuardEnv Db) : Files B Db (Option String) := do
  let d ← read
  if (d.kept .daemon).isSome then
    if ← Prog.perform (.writeMarker ⟨env.current, env.current, 0, true⟩) then
      return none
    else return some "write marker"
  else return some "no previous version is kept on this computer"

/-! ### The operations a swap uses -/

/-- An operation on a helper's kept copy, the marker or what the state file
says beside the version to skip. -/
def FileOp.isUpkeep : FileOp B → Prop
  | .keep (.helper _) | .putBack (.helper _) | .removeKept (.helper _)
  | .writeMarker _ | .removeMarker => True
  | .updateState f => ∀ ps, (f ps).skip = ps.skip
  | _ => False

/-- An operation of a swap once the running daemon is kept: upkeep, or putting
a staged file in its place. -/
inductive FileOp.Late (s : Staged B) : FileOp B → Prop where
  | upkeep {op : FileOp B} (is : op.isUpkeep) : Late s op
  | daemon : Late s (.install .daemon s.daemon)
  | helper {staged : Helper × B} (member : staged ∈ s.helpers) :
      Late s (.install (.helper staged.1) staged.2)

open FileOp

theorem keepHelpers_uses (hs : List Helper) (hows : Helper → Option HelperSwap) :
    Uses isUpkeep (keepHelpers s hs hows : Files B Db _) := by
  induction hs generalizing hows with
  | nil => exact ⟨fun _ => rfl, fun _ => uses_ite trivial trivial⟩
  | cons h rest ih =>
    refine uses_ite (fun d => uses_ite ?_ ?_) ⟨trivial, fun _ => ih _⟩
    · exact ⟨trivial, fun _ => uses_ite (ih _) trivial⟩
    · exact ⟨trivial, fun _ => ih _⟩

theorem restoreHelper_uses (h : Helper) (how : Option HelperSwap) :
    Uses isUpkeep (restoreHelper h how : Files B Db _) := by
  refine uses_ite (fun d => uses_ite ?_ trivial) trivial
  exact ⟨trivial, fun _ => uses_ite ⟨trivial, fun _ => trivial⟩ trivial⟩

theorem undo_uses (env : GuardEnv Db) (hows : Helper → Option HelperSwap)
    (err : String) : Uses isUpkeep (undo env hows err : Files B Db _) := by
  have turn : ∀ h ∈ env.helpers, Uses isUpkeep (undoOne hows h : Files B Db Bool) :=
    fun h _ => uses_bind (restoreHelper_uses h _) fun _ => trivial
  exact uses_bind ⟨trivial, fun _ => trivial⟩ fun _ => uses_bind (uses_each turn) fun _ => trivial

theorem swapFiles_uses (env : GuardEnv Db) (s : Staged B) :
    Uses (Late s) (swapFiles env s : Files B Db _) := by
  have undoing : ∀ hows err, Uses (Late s) (undo env hows err : Files B Db _) :=
    fun hows err => uses_mono (undo_uses env hows err) fun _ => .upkeep
  refine uses_bind (uses_mono (keepHelpers_uses s _ _) fun _ => .upkeep) ?_
  intro result
  cases result with
  | none => trivial
  | some hows =>
    have turn : ∀ staged ∈ s.helpers,
        Uses (Late s) (installHelper staged : Files B Db Bool) :=
      fun _ member => ⟨.helper member, fun _ => trivial⟩
    refine ⟨.upkeep trivial, fun _ => uses_ite ?_ trivial⟩
    refine uses_bind (uses_each turn) fun _ => uses_ite ?_ (undoing hows _)
    exact ⟨.daemon, fun _ => uses_ite trivial (undoing hows _)⟩

def Staged.files : List (Place × B) :=
  (.daemon, s.daemon) :: s.helpers.map fun staged => (.helper staged.1, staged.2)

/-- If the operation puts a file in place, it is one of the release. -/
def FileOp.PutsOnly (op : FileOp B) : Prop :=
  ∀ p file, op = .install p file → (p, file) ∈ s.files

theorem FileOp.Late.putsOnly {s : Staged B} {op : FileOp B}
    (late : Late s op) : PutsOnly s op := by
  rintro p file rfl
  cases late with
  | upkeep upkeep => exact upkeep.elim
  | daemon => exact List.mem_cons_self
  | helper member =>
    exact List.mem_cons_of_mem _ (List.mem_map_of_mem member)

theorem swap_putsOnly (env : GuardEnv Db) (s : Staged B) :
    Uses (PutsOnly s) (swap env s : Files B Db _) := by
  have late : Uses (PutsOnly s) (swapFiles env s : Files B Db _) :=
    uses_mono (swapFiles_uses env s) fun _ => Late.putsOnly
  refine ⟨nofun, fun _ => ⟨nofun, fun _ => uses_ite ?_ trivial⟩⟩
  exact ⟨nofun, fun _ => uses_ite late trivial⟩

open Disk

variable {may : FileOp B → Prop}

/-! ### Putting helpers back -/

/-- What a helper is once it has been put back: the kept copy of one the last
update replaced, else what is installed. -/
def Disk.due (d : Disk B Db) (h : Helper) : Option B :=
  if d.state.swapOf h = some .replaced then
    (d.kept (.helper h)).or (d.installed (.helper h))
  else d.installed (.helper h)

/-- Nothing but helpers and their records changed. -/
structure SameDaemon (d after : Disk B Db) : Prop where
  installed : after.installed .daemon = d.installed .daemon
  kept : after.kept .daemon = d.kept .daemon
  marker : after.marker = d.marker
  skip : after.state.skip = d.state.skip

theorem SameDaemon.refl (d : Disk B Db) : SameDaemon d d := ⟨rfl, rfl, rfl, rfl⟩

variable {d after : Disk B Db}

theorem SameDaemon.trans {last : Disk B Db}
    (first : SameDaemon d after) (second : SameDaemon after last) :
    SameDaemon d last :=
  ⟨second.installed.trans first.installed, second.kept.trans first.kept,
    second.marker.trans first.marker, second.skip.trans first.skip⟩

/-- One helper may have been put back, and what is due of each is the same. -/
structure OnlyHelper (h : Helper) (d after : Disk B Db) : Prop where
  same : SameDaemon d after
  due : ∀ g, after.due g = d.due g
  installed : ∀ g ≠ h, after.installed (.helper g) = d.installed (.helper g)
  swapOf : ∀ g ≠ h, after.state.swapOf g = d.state.swapOf g

theorem OnlyHelper.refl (h : Helper) (d : Disk B Db) : OnlyHelper h d d :=
  ⟨.refl d, fun _ => rfl, fun _ _ => rfl, fun _ _ => rfl⟩

variable {h : Helper}

theorem due_of_others (here : after.due h = d.due h)
    (installed : ∀ g ≠ h, after.installed (.helper g) = d.installed (.helper g))
    (kept : ∀ g ≠ h, after.kept (.helper g) = d.kept (.helper g))
    (swapOf : ∀ g ≠ h, after.state.swapOf g = d.state.swapOf g) (g : Helper) :
    after.due g = d.due g := by
  by_cases at_h : g = h
  · rw [at_h]
    exact here
  · simp only [due, installed g at_h, kept g at_h, swapOf g at_h]

def Disk.cleared (h : Helper) (d : Disk B Db) : Disk B Db :=
  { d with state := d.state.setSwap h none }

theorem due_cleared (h : Helper) (d : Disk B Db) :
    (d.cleared h).due h = d.installed (.helper h) := by
  simp [due, cleared, Persisted.setSwap]

theorem onlyHelper_cleared (only : OnlyHelper h d after)
    (back : after.installed (.helper h) = d.due h)
    (kept : ∀ g ≠ h, after.kept (.helper g) = d.kept (.helper g)) :
    OnlyHelper h d (after.cleared h) := by
  have swapOf : ∀ g ≠ h, (after.cleared h).state.swapOf g = d.state.swapOf g := by
    intro g other
    simp [cleared, Persisted.setSwap, other, only.swapOf g other]
  refine ⟨only.same.trans ⟨rfl, rfl, rfl, rfl⟩, ?_, only.installed, swapOf⟩
  refine due_of_others ?_ only.installed kept swapOf
  rw [due_cleared]
  exact back

/-- The disk once a helper's kept copy is installed, and once that copy is
removed. -/
def Disk.withHelper (h : Helper) (file : B) (d : Disk B Db) : Disk B Db :=
  { d with installed := Function.update d.installed (.helper h) (some file) }

def Disk.withoutKept (h : Helper) (d : Disk B Db) : Disk B Db :=
  { d with kept := Function.update d.kept (.helper h) none }

section

variable {file : B} (replaced : d.state.swapOf h = some .replaced)
  (kept : d.kept (.helper h) = some file)

include replaced kept

theorem onlyHelper_withHelper :
    OnlyHelper h d (d.withHelper h file) := by
  have installed : ∀ g ≠ h, (d.withHelper h file).installed (.helper g) =
      d.installed (.helper g) := by
    intro g other
    simp [withHelper, other]
  refine ⟨⟨rfl, rfl, rfl, rfl⟩, ?_, installed, fun _ _ => rfl⟩
  apply due_of_others _ installed (fun _ _ => rfl) fun _ _ => rfl
  simp [due, withHelper, replaced, kept]

theorem onlyHelper_withoutKept :
    OnlyHelper h d ((d.withHelper h file).withoutKept h) := by
  have installed : ∀ g ≠ h, ((d.withHelper h file).withoutKept h).installed
      (.helper g) = d.installed (.helper g) := by
    intro g other
    simp [withHelper, withoutKept, other]
  refine ⟨⟨rfl, rfl, rfl, rfl⟩, ?_, installed, fun _ _ => rfl⟩
  refine due_of_others ?_ installed ?_ fun _ _ => rfl
  · simp [due, withHelper, withoutKept, replaced, kept]
  · intro g other
    simp [withHelper, withoutKept, other]

end

theorem restoreHelper_holds (replaced : d.state.swapOf h = some .replaced) :
    Durable.Holds perform may (fun _ ok after => ok = true ∧ OnlyHelper h d after ∧
        after.installed (.helper h) = d.due h ∧ after.state = d.state ∧
        ∀ g ≠ h, after.kept (.helper g) = d.kept (.helper g))
      (OnlyHelper h d) (restoreHelper h (some .replaced)) 0 d := by
  cases kept : d.kept (.helper h) with
  | none =>
    have due : d.installed (.helper h) = d.due h := by
      simp [due, replaced, kept]
    change Durable.Holds perform may _ _ (if (d.kept (.helper h)).isSome then _ else _) 0 d
    rw [kept]
    exact ⟨.refl h d, rfl, .refl h d, due, rfl, fun _ _ => rfl⟩
  | some file =>
    have due : d.due h = some file := by simp [due, replaced, kept]
    have back := onlyHelper_withHelper replaced kept
    have removed := onlyHelper_withoutKept replaced kept
    have performed : perform (.putBack (.helper h)) d = some (d.withHelper h file) := by
      simp [perform, kept, withHelper]
    change Durable.Holds perform may _ _ (if (d.kept (.helper h)).isSome then _ else _) 0 d
    rw [kept]
    refine holds_act_some performed (.refl h d) ?_
    refine holds_act_some rfl back ?_
    refine ⟨removed, rfl, removed, ?_, rfl, ?_⟩
    · rw [due]
      simp [withHelper]
    · intro g other
      simp [withHelper, other]

theorem restoreOne_holds {ps : Persisted} (known : d.state.swapOf h = ps.swapOf h) :
    Durable.Holds perform may (fun _ ok after => ok = true ∧ OnlyHelper h d after ∧
        after.installed (.helper h) = d.due h)
      (OnlyHelper h d) (restoreOne ps h) 0 d := by
  unfold restoreOne
  rw [← known]
  cases how : d.state.swapOf h with
  | none => exact ⟨.refl h d, rfl, .refl h d, by simp [due, how]⟩
  | some swapped =>
    cases swapped with
    | added =>
      have due : d.installed (.helper h) = d.due h := by simp [due, how]
      have cleared := onlyHelper_cleared (.refl h d) due fun _ _ => rfl
      refine holds_act_some rfl (.refl h d) ?_
      exact ⟨cleared, rfl, cleared, due⟩
    | replaced =>
      refine holds_seq (restoreHelper_holds how) (fun _ only => only) ?_
      rintro n none ok after ⟨rfl, only, due, -, kept⟩
      obtain rfl := Nat.le_zero.mp none
      have cleared := onlyHelper_cleared only due kept
      refine holds_act_some rfl only ?_
      exact ⟨cleared, rfl, cleared, due⟩

/-- Some helpers may have been put back, and what is due of each is the
same. -/
structure OnlyHelpers (d after : Disk B Db) : Prop where
  same : SameDaemon d after
  due : ∀ g, after.due g = d.due g

/-- The loop over the helpers: those still to come keep their records, and
those gone through are what was due. -/
structure Restoring (hs rest : List Helper) (d after : Disk B Db) : Prop where
  only : OnlyHelpers d after
  fresh : rest.Nodup
  toCome : ∀ h ∈ rest, after.state.swapOf h = d.state.swapOf h
  gone : ∀ h ∈ hs, h ∉ rest → after.installed (.helper h) = d.due h

theorem Restoring.next {hs rest : List Helper} {middle : Disk B Db}
    (before : Restoring hs (h :: rest) d middle)
    (turn : OnlyHelper h middle after)
    (back : after.installed (.helper h) = middle.due h) :
    Restoring hs rest d after := by
  have apart : ∀ g ∈ rest, g ≠ h :=
    fun g member same => (List.nodup_cons.mp before.fresh).1 (same ▸ member)
  refine ⟨⟨before.only.same.trans turn.same, ?_⟩, before.fresh.of_cons, ?_, ?_⟩
  · intro g
    rw [turn.due, before.only.due]
  · intro g member
    rw [turn.swapOf g (apart g member), before.toCome g (by simp [member])]
  · intro g member past
    by_cases at_h : g = h
    · rw [at_h, back, before.only.due]
    · rw [turn.installed g at_h]
      exact before.gone g member (by simp [at_h, past])

theorem helpers_nodup (env : GuardEnv Db) : env.helpers.Nodup := by
  unfold GuardEnv.helpers helpersAt
  cases env.openVPN <;> cases env.charonCmd <;> decide

theorem restoreHelpersFor_holds (env : GuardEnv Db) (d : Disk B Db) : Durable.Holds perform may
      (fun _ _ after => OnlyHelpers d after ∧
        ∀ h ∈ env.helpers, after.installed (.helper h) = d.due h)
      (OnlyHelpers d) (restoreHelpersFor env) 0 d := by
  have start : Restoring env.helpers env.helpers d d :=
    ⟨⟨.refl d, fun _ => rfl⟩, helpers_nodup env, fun _ _ => rfl,
      fun _ member absent => absurd member absent⟩
  have loop : Durable.Holds perform may
      (fun n ok after => if ok then n = 0 ∧ Restoring env.helpers [] d after
        else False)
      (OnlyHelpers d) (each (restoreOne d.state) env.helpers) 0 d := by
    refine holds_each (fun rest n after => n = 0 ∧ Restoring env.helpers rest d after)
      (fun _ _ => False) ?_ ?_ env.helpers ⟨rfl, start⟩
    · rintro h rest n middle ⟨rfl, before⟩
      refine holds_mono (holds_budget (restoreOne_holds (before.toCome h (by simp)))) ?_ ?_
      · rintro n ok after - ⟨none, rfl, moved, back⟩
        exact ⟨Nat.le_zero.mp none, before.next moved back⟩
      · intro after moved
        exact ⟨before.only.same.trans moved.same, fun g => (moved.due g).trans (before.only.due g)⟩
    · rintro n after ⟨-, done⟩
      exact done.only
  refine holds_mono loop ?_ fun _ only => only
  intro n ok after only ended
  cases ok with
  | false => exact ended.elim
  | true => exact ⟨only, fun h member => ended.2.gone h member (by simp)⟩

/-! ### One rollback -/

/-- Nothing but the database changed. -/
structure SameFiles (d after : Disk B Db) : Prop where
  installed : after.installed = d.installed
  kept : after.kept = d.kept
  marker : after.marker = d.marker
  state : after.state = d.state

theorem SameFiles.onlyHelpers (same : SameFiles d after) : OnlyHelpers d after := by
  obtain ⟨installed, kept, marker, state⟩ := same
  refine ⟨⟨by rw [installed], by rw [kept], marker, by rw [state]⟩, ?_⟩
  intro g
  simp only [due, installed, kept, state]

theorem OnlyHelpers.trans {last : Disk B Db}
    (first : OnlyHelpers d after) (second : OnlyHelpers after last) :
    OnlyHelpers d last :=
  ⟨first.same.trans second.same, fun g => (second.due g).trans (first.due g)⟩

theorem backup_of_mustRestore {env : GuardEnv Db}
    (must : env.mustRestore d = true) : ∃ backup, d.backup = some backup := by
  cases backup : d.backup with
  | none => simp [GuardEnv.mustRestore, backup] at must
  | some content => exact ⟨content, rfl⟩

theorem restoreDB_holds (env : GuardEnv Db) (d : Disk B Db) :
    Durable.Holds perform may (fun _ ok after => ok = true ∧ SameFiles d after)
      (SameFiles d) (restoreDB env) 0 d := by
  have same : SameFiles d d := ⟨rfl, rfl, rfl, rfl⟩
  change Durable.Holds perform may _ _ (if env.mustRestore d then _ else _) 0 d
  split
  · next must =>
      obtain ⟨content, backup⟩ := backup_of_mustRestore must
      have copied : perform .copyBackup d = some { d with restore := some content } := by
        simp [perform, backup]
      refine holds_act_some copied same ?_
      refine holds_act_some rfl ⟨rfl, rfl, rfl, rfl⟩ ?_
      refine holds_act_some rfl ⟨rfl, rfl, rfl, rfl⟩ ?_
      refine holds_act_some rfl ⟨rfl, rfl, rfl, rfl⟩ ?_
      exact ⟨⟨rfl, rfl, rfl, rfl⟩, rfl, ⟨rfl, rfl, rfl, rfl⟩⟩
  · exact ⟨same, rfl, same⟩

def Marker.closed (m : Marker) : Option Marker :=
  if m.rollback then none
  else some ⟨m.fromVersion, m.toVersion, maxBoots + 1, false⟩

theorem perform_closed (m : Marker) (d : Disk B Db) : perform (if m.rollback then .removeMarker
      else .writeMarker ⟨m.fromVersion, m.toVersion, maxBoots + 1, false⟩) d =
        some { d with marker := m.closed } := by
  unfold Marker.closed
  split <;> rfl

/-- The previous daemon is installed, and the helpers are what was due. -/
structure Back (hs : List Helper) (previous : B) (d after : Disk B Db) :
    Prop where
  daemon : after.installed .daemon = some previous
  helpers : ∀ h ∈ hs, after.installed (.helper h) = d.due h

/-- How far a rollback is once the daemon is back: the kept copy, the marker
and the version to skip. -/
inductive Closing (m : Marker) (d after : Disk B Db) : Prop where
  | daemonBack (due : ∀ g, after.due g = d.due g)
      (kept : after.kept .daemon = d.kept .daemon)
      (marker : after.marker = d.marker)
      (skip : after.state.skip = d.state.skip)
  | unkept (kept : after.kept .daemon = none) (marker : after.marker = d.marker)
      (skip : after.state.skip = d.state.skip)
  | unmarked (kept : after.kept .daemon = none)
      (marker : after.marker = m.closed)
      (skip : after.state.skip = d.state.skip)
  | recorded (kept : after.kept .daemon = none)
      (marker : after.marker = m.closed)
      (skip : after.state.skip = m.toVersion)

/-- Where a rollback from `d` may stop. -/
def Midway (hs : List Helper) (previous : B) (m : Marker) (d after : Disk B Db) : Prop :=
  OnlyHelpers d after ∨ (Back hs previous d after ∧ Closing m d after)

/-- Where it ends. -/
structure RolledBack (hs : List Helper) (previous : B) (m : Marker)
    (d after : Disk B Db) : Prop where
  back : Back hs previous d after
  kept : after.kept .daemon = none
  marker : after.marker = m.closed
  skip : after.state.skip = m.toVersion

theorem closeRollback_holds {hs : List Helper} {previous : B} {m : Marker}
    {who : String} {middle : Disk B Db} (back : Back hs previous d middle)
    (due : ∀ g, middle.due g = d.due g)
    (kept : middle.kept .daemon = d.kept .daemon)
    (marker : middle.marker = d.marker)
    (skip : middle.state.skip = d.state.skip) :
    Durable.Holds perform may (fun _ err after => err = none ∧ RolledBack hs previous m d after)
      (Midway hs previous m d) (closeRollback m who) 0 middle := by
  refine holds_act_some rfl (.inr ⟨back, .daemonBack due kept marker skip⟩) ?_
  refine holds_act_some (perform_closed m _)
    (.inr ⟨⟨back.daemon, back.helpers⟩, .unkept (by simp) marker skip⟩) ?_
  refine holds_act_some rfl (.inr ⟨⟨back.daemon, back.helpers⟩, .unmarked (by simp) rfl skip⟩) ?_
  refine ⟨.inr ⟨⟨back.daemon, back.helpers⟩, .recorded (by simp) rfl rfl⟩, rfl, ?_⟩
  exact ⟨⟨back.daemon, back.helpers⟩, by simp, rfl, rfl⟩

section

variable (env : GuardEnv Db) (m : Marker) (who : String)

theorem rollback_holds {previous : B} (kept : d.kept .daemon = some previous) :
    Durable.Holds perform may (fun _ err after => err = none ∧
        RolledBack env.helpers previous m d after)
      (Midway env.helpers previous m d) (rollback env m who) 0 d := by
  change Durable.Holds perform may _ _ (if (d.kept .daemon).isSome then _ else _) 0 d
  rw [kept]
  refine holds_seq (restoreDB_holds env d) (fun after same => .inl same.onlyHelpers) ?_
  rintro n none ok middle ⟨rfl, same⟩
  obtain rfl := Nat.le_zero.mp none
  refine holds_seq (restoreHelpersFor_holds env middle)
    (fun after only => .inl (same.onlyHelpers.trans only)) ?_
  rintro n none - restored ⟨only, helpers⟩
  obtain rfl := Nat.le_zero.mp none
  have before := same.onlyHelpers.trans only
  have stillKept : restored.kept .daemon = some previous := by
    rw [before.same.kept, kept]
  have performed : perform (.putBack .daemon) restored = some
      { restored with
        installed := Function.update restored.installed .daemon
          (some previous) } := by
    simp [perform, stillKept]
  refine holds_act_some performed (.inl before) ?_
  refine closeRollback_holds ⟨by simp, ?_⟩ before.due before.same.kept
    before.same.marker before.same.skip
  intro h member
  simp [helpers h member, same.onlyHelpers.due]

theorem rollbackOrCarryOn_holds {previous : B}
    (kept : d.kept .daemon = some previous) :
    Durable.Holds perform may (fun _ guard after => guard.restartNow = true ∧
        RolledBack env.helpers previous m d after)
      (Midway env.helpers previous m d) (rollbackOrCarryOn env m who) 0 d := by
  refine holds_seq (rollback_holds env m who kept) (fun _ midway => midway) ?_
  rintro n - err after ⟨rfl, rolled⟩
  exact ⟨.inr ⟨rolled.back, .recorded rolled.kept rolled.marker rolled.skip⟩, rfl, rolled⟩

theorem rollbackOrCarryOn_unkept (kept : d.kept .daemon = none) :
    Durable.Holds perform may (fun _ guard after => guard.restartNow = false ∧
        after.installed = d.installed ∧ after.kept = d.kept ∧
        after.marker = none ∧ after.state.skip = d.state.skip)
      (fun after => after.installed = d.installed ∧ after.kept = d.kept ∧
        (after.marker = d.marker ∨ after.marker = none) ∧
        after.state.skip = d.state.skip)
      (rollbackOrCarryOn env m who) 0 d := by
  change Durable.Holds perform may _ _
    (((if (d.kept .daemon).isSome then _ else _ : Files B Db _)).bind _) 0 d
  rw [kept]
  refine holds_act_some rfl ⟨rfl, rfl, .inl rfl, rfl⟩ ?_
  refine holds_act_some rfl ⟨rfl, rfl, .inr rfl, rfl⟩ ?_
  exact ⟨⟨rfl, rfl, .inr rfl, rfl⟩, rfl, rfl, rfl, rfl, rfl⟩

end

/-! ### Starts -/

/-- An installation: the version in a daemon's binary, the helpers that ship
on it, and its databases. -/
structure Install (B Db : Type) where
  version : B → String
  openVPN : Bool
  charonCmd : Bool
  dbVersion : Db → Option Nat
  dbMinReader : Db → Option Nat

namespace Install

variable (install : Install B Db)

def helpers : List Helper := helpersAt install.openVPN install.charonCmd

def env (d : Disk B Db) : GuardEnv Db where
  current := ((d.installed .daemon).map install.version).getD ""
  openVPN := install.openVPN
  charonCmd := install.charonCmd
  dbVersion := install.dbVersion
  dbMinReader := install.dbMinReader

/-- A start whose guard performs this many operations before it dies, or all
of them when there are fewer. -/
def cut (operations : Nat) (d : Disk B Db) : Disk B Db :=
  (exec perform (bootGuard (install.env d)) (List.replicate operations true) d).1

/-- A start whose guard runs to the end. -/
def boot (d : Disk B Db) : Guard × Disk B Db := finish perform (bootGuard (install.env d)) d

def starts : Machine (Disk B Db) Nat where
  step d operations := some (install.cut operations d)

end Install

section Cases

variable {m : Marker} {d : Disk B Db}

section

variable {ends : Nat → Guard → Disk B Db → Prop} {stops : Disk B Db → Prop} {env : GuardEnv Db}

theorem bootGuard_marked (marker : d.marker = some m)
    (user : m.rollback = true →
      Durable.Holds perform may ends stops (rollbackOrCarryOn env m "you") 0 d)
    (other : m.rollback = false → env.current ≠ m.toVersion →
      Durable.Holds perform may ends stops (settleOther env m) 0 d)
    (past : m.rollback = false → env.current = m.toVersion →
      maxBoots < m.boots + 1 → Durable.Holds perform may ends stops
        (rollbackOrCarryOn env { m with boots := m.boots + 1 } "health") 0 d)
    (probation : m.rollback = false → env.current = m.toVersion →
      m.boots + 1 ≤ maxBoots → Durable.Holds perform may ends stops
        (.act (.writeMarker { m with boots := m.boots + 1 }) fun _ => .done ⟨false, true⟩) 0 d) :
    Durable.Holds perform may ends stops (bootGuard env) 0 d := by
  refine holds_look ?_
  rw [marker]
  dsimp only
  by_cases how : m.rollback = true
  · rw [if_pos how]
    exact user how
  · rw [if_neg how]
    have update := Bool.eq_false_iff.mpr how
    by_cases current : env.current = m.toVersion
    · rw [if_neg (not_not.mpr current)]
      by_cases many : maxBoots < m.boots + 1
      · rw [if_pos many]
        exact past update current many
      · rw [if_neg many]
        exact probation update current (Nat.not_lt.mp many)
    · rw [if_pos current]
      exact other update current

theorem bootGuard_unmarked (marker : d.marker = none)
    (here : stops d) (ended : ends 0 ⟨false, false⟩ d) :
    Durable.Holds perform may ends stops (bootGuard env) 0 d := by
  refine holds_look ?_
  rw [marker]
  exact ⟨here, ended⟩

end

theorem rollbackOrCarryOn_settles (env : GuardEnv Db) (who : String) : Durable.Holds perform may
      (fun _ guard after => guard.restartNow = false → after.marker = none)
      (fun _ => True) (rollbackOrCarryOn env m who) 0 d := by
  cases kept : d.kept .daemon with
  | none =>
    refine holds_mono (rollbackOrCarryOn_unkept env m who kept) ?_ fun _ _ => trivial
    rintro n guard after - ⟨-, -, -, marker, -⟩ -
    exact marker
  | some previous =>
    refine holds_mono (rollbackOrCarryOn_holds env m who kept) ?_ fun _ _ => trivial
    rintro n guard after - ⟨restarts, -⟩ carriesOn
    cases restarts.symm.trans carriesOn

theorem settleOther_settles (env : GuardEnv Db) :
    Durable.Holds perform may (fun _ _ after => after.marker = none) (fun _ => True)
      (settleOther env m) 0 d := by
  have last : ∀ {after : Disk B Db}, Durable.Holds perform may
      (fun _ _ (after : Disk B Db) => after.marker = none) (fun _ => True)
      (.act .removeMarker fun _ => .done (⟨false, false⟩ : Guard)) 0 after :=
    fun {_} => holds_act_some rfl trivial ⟨trivial, rfl⟩
  unfold settleOther
  by_cases boots : m.boots = 0
  · rw [if_pos boots, if_neg (fun both => by omega)]
    refine holds_seq (restoreHelpersFor_holds env d) (fun _ _ => trivial) ?_
    rintro n none - after -
    obtain rfl := Nat.le_zero.mp none
    exact last
  · rw [if_neg boots]
    by_cases rolledBack : env.current = m.fromVersion ∧ 0 < m.boots
    · rw [if_pos rolledBack]
      refine holds_act_some rfl trivial ?_
      exact last
    · rw [if_neg rolledBack]
      exact last

theorem confirm_unmarks {version : String}
    (own : ∀ m, d.marker = some m → m.isProbation version = true) :
    Durable.Holds perform may (fun _ _ after => after.marker = none) (fun _ => True)
      (confirm version) 0 d := by
  change Durable.Holds perform may _ _
    (if d.marker.any (Marker.isProbation version) then _ else _) 0 d
  cases found : d.marker with
  | none => exact holds_act_some rfl trivial ⟨trivial, found⟩
  | some m =>
    rw [if_pos (by simpa using own m found)]
    refine holds_act_some rfl trivial ?_
    exact holds_act_some rfl trivial ⟨trivial, rfl⟩

section

variable (install : Install B Db) (d : Disk B Db)
  (carriesOn : (install.boot d).1.restartNow = false)

include carriesOn

theorem running_marker (m : Marker)
    (marker : (install.boot d).2.marker = some m) :
    m.isProbation (install.env d).current = true := by
  have holds : Durable.Holds perform (fun _ => False)
      (fun _ guard after => guard.restartNow = false → ∀ m,
        after.marker = some m → m.isProbation (install.env d).current = true)
      (fun _ => True) (bootGuard (install.env d)) 0 d := by
    cases found : d.marker with
    | none =>
      refine bootGuard_unmarked found trivial ?_
      intro _ m marker
      cases found.symm.trans marker
    | some m =>
      have none_of : ∀ {after : Disk B Db} {m' : Marker},
          after.marker = none → after.marker = some m' →
            m'.isProbation (install.env d).current = true :=
        fun unmarked marked => by cases unmarked.symm.trans marked
      refine bootGuard_marked found (fun _ => ?_) (fun _ _ => ?_)
        (fun _ _ _ => ?_) (fun update current _ => ?_)
      · refine holds_mono (rollbackOrCarryOn_settles _ _) ?_ fun _ _ => trivial
        exact fun _ _ _ _ ended carriesOn _ => none_of (ended carriesOn)
      · refine holds_mono (settleOther_settles _) ?_ fun _ _ => trivial
        exact fun _ _ _ _ ended _ _ => none_of ended
      · refine holds_mono (rollbackOrCarryOn_settles _ _) ?_ fun _ _ => trivial
        exact fun _ _ _ _ ended carriesOn _ => none_of (ended carriesOn)
      · refine holds_act_some rfl trivial ⟨trivial, ?_⟩
        simp [Marker.isProbation, update, current]
  exact (holds_finish holds).2 carriesOn m marker

end

end Cases

end Updater

end RiftRoute
