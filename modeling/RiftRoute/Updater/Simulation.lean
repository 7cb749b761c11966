/-
Module: RiftRoute.Updater.Simulation
Purpose: What happens to an install is what the updater's jobs, its swap and
  its start make of the files.
Trusted boundary: none
Main exports: happens_simulates, installs_simulates
-/
import RiftRoute.Updater.Remembered
import RiftRoute.Updater.Swap

namespace RiftRoute

open List

namespace Updater

open Durable

variable {Key Db : Type} {install : Install Bytes Db}

/-- The install's versions are those of the daemons on disk, it skips what the
state file says, and what was decided on it was offered. -/
structure Mirrors (install : Install Bytes Db) (s : Installation) (σ : Shared Db) : Prop where
  running : (σ.disk.installed .daemon).map install.version = some s.running
  previous : (σ.disk.kept .daemon).map install.version = s.previous
  skip : σ.disk.state.skip = s.skip
  offered : ∀ dec ∈ σ.decided, dec.manifest.version ∈ s.offers.map Prod.fst

theorem Mirrors.current {s : Installation} {σ : Shared Db} (mirrors : Mirrors install s σ) :
    (install.env σ.disk).current = s.running := by
  simp [Install.env, mirrors.running]

/-! ### A job -/

/-- Staging leaves the disk alone but for the version to skip. -/
theorem stage_disk (env : Env Key Db) (answers : StageAnswers) (m : Manifest) (σ : Shared Db) :
    (stage env answers m σ).1.decided = σ.decided ∧
    ∃ broken : Bool, (stage env answers m σ).1.disk =
      if broken then { σ.disk with state := { σ.disk.state with skip := m.version } }
      else σ.disk := by
  have failed : ∀ skip, (stageFailed m skip σ.dropStaged).decided = σ.decided ∧
      (stageFailed m skip σ.dropStaged).disk =
        if skip then { σ.disk with state := { σ.disk.state with skip := m.version } }
        else σ.disk := by
    intro skip
    cases skip <;> exact ⟨rfl, rfl⟩
  unfold stage
  dsimp only
  repeat' split
  all_goals first | exact ⟨rfl, false, rfl⟩ | exact ⟨(failed _).1, _, (failed _).2⟩

theorem job_simulates {env : Env Key Db} {kind : JobKind} {a : Answers} {f : Fetched}
    {s : Installation} {σ : Shared Db} (mirrors : Mirrors install s σ)
    (current : env.current = (install.env σ.disk).current) (cached : σ.ps = σ.disk.state)
    (decided : (decideSection env kind a f σ).2 = some (.stage a f)) :
    ∃ broken next, installs.step s (.job (decideInput env σ f kind) broken) = some next ∧
      Mirrors install next (stage env a.staging f.manifest (decideSection env kind a f σ).1).1 := by
  have wanted := install_decides (s := s) (mirrors.current.symm.trans current.symm)
    (mirrors.skip.symm.trans (congrArg Persisted.skip cached.symm)) decided
  have recorded : decideSection env kind a f σ = ({ σ with
      decided := σ.decided ++ [⟨f.raw, f.sig, f.manifest, σ.disk.state.skip⟩] },
      some (.stage a f)) := by
    unfold decideSection at decided ⊢
    split
    · rfl
    · next other =>
      rw [if_neg other] at decided
      cases decided
  rw [recorded]
  obtain ⟨same, broken, disk⟩ := stage_disk env a.staging f.manifest { σ with
    decided := σ.decided ++ [⟨f.raw, f.sig, f.manifest, σ.disk.state.skip⟩] }
  refine ⟨broken, _, if_pos wanted, ?_⟩
  have offers : ∀ dec ∈ σ.decided ++ [⟨f.raw, f.sig, f.manifest, σ.disk.state.skip⟩],
      dec.manifest.version ∈ (s.offers ++ [(f.manifest.version, s.recorded)]).map Prod.fst := by
    intro dec member
    rw [map_append]
    rcases mem_append.mp member with before | last
    · exact mem_append_left _ (mirrors.offered dec before)
    · obtain rfl := mem_singleton.mp last
      exact mem_append_right _ mem_cons_self
  cases broken with
  | false => exact ⟨disk ▸ mirrors.running, disk ▸ mirrors.previous, disk ▸ mirrors.skip,
      same ▸ offers⟩
  | true => exact ⟨disk ▸ mirrors.running, disk ▸ mirrors.previous, disk ▸ rfl, same ▸ offers⟩

/-! ### A swap -/

/-- A swap that returns no error has kept the daemon it replaced, and skips
what was skipped. -/
theorem swap_keeps {B : Type} (env : GuardEnv Db) (release : Staged B) {d₀ : Disk B Db}
    (running : (d₀.installed .daemon).isSome) {may : FileOp B → Prop} {budget : Nat} :
    Durable.Holds perform may (fun _ result after => result = none →
        after.kept .daemon = d₀.installed .daemon ∧ after.state.skip = d₀.state.skip)
      (fun _ => True) (swap env release) budget d₀ := by
  obtain ⟨current, isCurrent⟩ := Option.isSome_iff_exists.mp running
  have files : ∀ {n} {backup : Option Db}, Durable.Holds perform may
      (fun _ result after => result = none →
        after.kept .daemon = d₀.installed .daemon ∧ after.state.skip = d₀.state.skip)
      (fun _ => True) (.act .backupDB fun ok => (if ok = true then
          (Prog.perform (.keep .daemon)).bind fun ok =>
            if ok = true then swapFiles env release else .done (some "keep current binary")
        else .done (some "back up database"))) n { d₀ with backup := backup } := by
    intro n backup
    refine holds_act rfl trivial ?_ fun _ _ => ⟨trivial, nofun⟩
    refine holds_act (perform_keep_daemon isCurrent) trivial ?_ fun _ _ => ⟨trivial, nofun⟩
    refine holds_mono (swapFiles_keeps isCurrent env release) ?_ fun _ _ => trivial
    exact fun _ _ _ _ ended _ => ended.1
  exact holds_act rfl trivial files fun _ _ => files

/-- A release that was decided on is swapped in. -/
structure SwapsIn (install : Install Bytes Db) (release : Staged Bytes) (oks : List Bool)
    (σ after : Shared Db) : Prop where
  swappable : Swappable install release σ.disk
  decided : ∃ dec ∈ σ.decided, dec.manifest.version = release.version
  refused : OneCopyRefused install release σ.disk oks
  done : swapResult install release σ.disk oks = some none
  disk : after.disk = swapStopped install release σ.disk oks
  same : after.decided = σ.decided

theorem swap_simulates {s : Installation} {σ after : Shared Db} {release : Staged Bytes}
    {oks : List Bool} (mirrors : Mirrors install s σ)
    (swaps : SwapsIn install release oks σ after) :
    ∃ next, installs.step s (.swap release.version) = some next ∧ Mirrors install next after := by
  obtain ⟨swappable, ⟨dec, member, version⟩, refused, done, disk, same⟩ := swaps
  have offered := version ▸ mirrors.offered dec member
  refine ⟨_, if_pos offered, ?_⟩
  have placed : Placed install release σ.disk (swapStopped install release σ.disk oks) := by
    cases (swap_stops swappable refused).2 none done with
    | placed placed => exact placed
  obtain ⟨kept, skip⟩ := (holds_sound (swap_keeps (install.env σ.disk) release swappable.running)
    refused.few refused.copies).2 none done rfl
  refine ⟨?_, ?_, ?_, same ▸ mirrors.offered⟩
  · rw [disk, placed.daemon]
    exact congrArg some swappable.version
  · rw [disk]
    exact (congrArg (Option.map install.version) kept).trans mirrors.running
  · rw [disk]
    exact skip.trans mirrors.skip

/-! ### A rollback -/

/-- A start that finds a rollback asked for makes it. -/
theorem boot_rolls_back {B : Type} {install : Install B Db} {m : Marker} {previous : B}
    {d : Disk B Db} (asks : AsksRollback install m previous d) :
    (install.boot d).2.installed .daemon = some previous ∧
      (install.boot d).2.kept .daemon = none ∧ (install.boot d).2.state.skip = m.toVersion := by
  have holds : Durable.Holds perform (fun _ => False)
      (fun _ _ after => after.installed .daemon = some previous ∧
        after.kept .daemon = none ∧ after.state.skip = m.toVersion)
      (fun _ => True) (bootGuard (install.env d)) 0 d := by
    refine bootGuard_marked asks.marker (fun _ => ?_) (fun update other => ?_)
      (fun _ _ _ => ?_) (fun update _ few => ?_)
    · refine holds_mono (rollbackOrCarryOn_holds _ m "you" asks.kept) ?_ fun _ _ => trivial
      exact fun _ _ _ _ ended => ⟨ended.2.back.daemon, ended.2.kept, ended.2.skip⟩
    · exact absurd (asks.update update).2.2.2 other
    · refine holds_mono (rollbackOrCarryOn_holds _ _ "health" asks.kept) ?_ fun _ _ => trivial
      exact fun _ _ _ _ ended => ⟨ended.2.back.daemon, ended.2.kept, ended.2.skip⟩
    · have many := (asks.update update).1
      omega
  exact (holds_finish holds).2

/-- A start makes a rollback from the running version. -/
structure RollsBack (install : Install Bytes Db) (m : Marker) (previous : Bytes)
    (σ after : Shared Db) : Prop where
  asks : AsksRollback install m previous σ.disk
  leaves : m.toVersion = (install.env σ.disk).current
  disk : after.disk = (install.boot σ.disk).2
  same : after.decided = σ.decided

theorem rollback_simulates {s : Installation} {σ after : Shared Db} {m : Marker}
    {previous : Bytes} (mirrors : Mirrors install s σ)
    (rolls : RollsBack install m previous σ after) :
    ∃ next, installs.step s .rollback = some next ∧ Mirrors install next after := by
  obtain ⟨asks, leaves, disk, same⟩ := rolls
  obtain ⟨daemon, kept, skip⟩ := boot_rolls_back asks
  have before : s.previous = some (install.version previous) := by
    rw [← mirrors.previous, asks.kept, Option.map_some]
  refine ⟨_, Option.map_eq_some_iff.mpr ⟨_, before, rfl⟩, ?_, ?_, ?_, same ▸ mirrors.offered⟩
  · rw [disk, daemon, Option.map_some]
  · rw [disk, kept, Option.map_none]
  · rw [disk, skip, leaves, mirrors.current]
    rfl

/-! ### Runs -/

/-- What happens to an install's files: a job decides to install a release and
stages it, a staged release is swapped in, a start makes a rollback, or
something else leaves the daemons and the version to skip alone. -/
inductive Happens (install : Install Bytes Db) : Shared Db → Shared Db → Prop where
  | job {Key : Type} {σ : Shared Db} (env : Env Key Db) (kind : JobKind) (a : Answers)
      (f : Fetched) (current : env.current = (install.env σ.disk).current)
      (cached : σ.ps = σ.disk.state)
      (decided : (decideSection env kind a f σ).2 = some (.stage a f)) :
      Happens install σ (stage env a.staging f.manifest (decideSection env kind a f σ).1).1
  | swap {σ after : Shared Db} (release : Staged Bytes) (oks : List Bool)
      (swaps : SwapsIn install release oks σ after) : Happens install σ after
  | rollback {σ after : Shared Db} (m : Marker) (previous : Bytes)
      (rolls : RollsBack install m previous σ after) : Happens install σ after
  | other {σ after : Shared Db}
      (installed : after.disk.installed .daemon = σ.disk.installed .daemon)
      (kept : after.disk.kept .daemon = σ.disk.kept .daemon)
      (skip : after.disk.state.skip = σ.disk.state.skip)
      (same : after.decided = σ.decided) : Happens install σ after

/-- Each is a step of the install's own machine. -/
theorem happens_simulates {s : Installation} {σ after : Shared Db} (mirrors : Mirrors install s σ)
    (happens : Happens install σ after) :
    ∃ event next, installs.step s event = some next ∧ Mirrors install next after := by
  cases happens with
  | job env kind a f current cached decided =>
    obtain ⟨broken, next, stepped, still⟩ := job_simulates mirrors current cached decided
    exact ⟨_, next, stepped, still⟩
  | swap release oks swaps => exact ⟨_, swap_simulates mirrors swaps⟩
  | rollback m previous rolls => exact ⟨_, rollback_simulates mirrors rolls⟩
  | other installed kept skip same =>
    exact ⟨.restart, s, rfl, installed ▸ mirrors.running, kept ▸ mirrors.previous,
      skip.trans mirrors.skip, same ▸ mirrors.offered⟩

/-- So is whatever happens over all the starts of an install. -/
theorem installs_simulates {s : Installation} {σ last : Shared Db} (mirrors : Mirrors install s σ)
    (happened : Relation.ReflTransGen (Happens install) σ last) :
    ∃ events reached, installs.run s events = some reached ∧ Mirrors install reached last := by
  induction happened with
  | refl => exact ⟨[], s, rfl, mirrors⟩
  | tail _ happens ih =>
    obtain ⟨events, reached, ran, still⟩ := ih
    obtain ⟨event, next, stepped, onward⟩ := happens_simulates still happens
    refine ⟨events ++ [event], next, ?_, onward⟩
    exact Machine.run_append.mpr ⟨reached, ran, Machine.run_cons.mpr ⟨next, stepped, rfl⟩⟩

end Updater

end RiftRoute
