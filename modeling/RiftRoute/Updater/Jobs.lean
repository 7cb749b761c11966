/-
Module: RiftRoute.Updater.Jobs
Purpose: The updater's jobs as calls that run section by section under its
  lock, beside requests and mode changes, and what sections leave alone; what
  network, disk and self-tests answer is their input.
Trusted boundary: human-reviewed spec
-/
import RiftRoute.Updater.Manifest
import RiftRoute.Updater.Guard

namespace RiftRoute

namespace Updater

open Durable

/-! ### Releases -/

/-- An entry of a release tarball. -/
structure TarEntry where
  name : String
  regular : Bool
  content : Bytes
deriving DecidableEq, Repr

/-- A place's file in a release tarball. -/
def Place.releaseName : Place → String
  | .daemon => "riftrouted"
  | .helper .openVPN => "openvpn"
  | .helper .charonCmd => "charon-cmd"

/-- The largest file the updater takes for a place. -/
def Place.maxSize : Place → Nat
  | .daemon => 150 * 2 ^ 20
  | .helper .openVPN => 20 * 2 ^ 20
  | .helper .charonCmd => 30 * 2 ^ 20

/-- What the updater is set up with. -/
structure Env (Key Db : Type) where
  guard : GuardEnv Db
  channel : String
  goos : String
  goarch : String
  selfUpdatable : Bool
  trusted : String → Option Key
  codec : Codec Key
  untar : Bytes → Option (List TarEntry)

variable {Key Db : Type}

def Env.current (env : Env Key Db) : String := env.guard.current

/-- The places a release may have files for. -/
def Env.places (env : Env Key Db) : List Place := .daemon :: env.guard.helpers.map Place.helper

/-- The files taken from a tarball's entries; `none` when the release is
broken: an entry wanted appears twice or is not a plain file of sane size. -/
def extractEntries (wanted : List Place) (got : Place → Option Bytes) :
    List TarEntry → Option (Place → Option Bytes)
  | [] => some got
  | e :: rest =>
    match wanted.find? fun p => p.releaseName = trimPrefix e.name "./" with
    | none => extractEntries wanted got rest
    | some p =>
      if (got p).isSome ∨ ¬ e.regular ∨ e.content = [] ∨ p.maxSize < e.content.length then none
      else extractEntries wanted (Function.update got p (some e.content)) rest

/-- The files of a tarball; it must have the daemon. -/
def extractRelease (env : Env Key Db) (tarball : Bytes) : Option (Place → Option Bytes) := do
  let entries ← env.untar tarball
  let got ← extractEntries env.places (fun _ => none) entries
  if (got .daemon).isSome then some got else none

/-- A verified, self-tested release waiting to be installed: its version and
the hashes its files must still have at the swap. -/
structure StagedRelease where
  version : String
  sums : List (Place × String)
deriving DecidableEq, Repr

/-! ### The updater's state -/

/-- A decision to install: the manifest as signed, and the version skipped on
disk then. -/
structure Decided where
  raw : Bytes
  sig : Bytes
  manifest : Manifest
  skip : String

structure Shared (Db : Type) where
  busy : Bool
  queued : Bool
  mode : UpdateMode
  wantNow : Bool
  wantMode : UpdateMode
  installing : Bool
  rollback : Bool
  staged : Option StagedRelease
  /-- The staging directory: a version's directory and its files. -/
  staging : String → Place → Option Bytes
  /-- The cached state file. -/
  ps : Persisted
  disk : Disk Bytes Db
  /-- History: the decisions to install and the files put in place. -/
  decided : List Decided
  placed : List (Place × Bytes)

namespace Shared

/-- Forget a staged update and delete its files. -/
def dropStaged (σ : Shared Db) : Shared Db := { σ with staged := none, staging := fun _ _ => none }

def clearWant (σ : Shared Db) : Shared Db := { σ with wantNow := false }

/-- Change the state file; the cache is not refreshed. -/
def updateState (f : Persisted → Persisted) (σ : Shared Db) : Shared Db :=
  { σ with disk := { σ.disk with state := f σ.disk.state } }

/-- Read the state file into the cache. -/
def reload (σ : Shared Db) : Shared Db := { σ with ps := σ.disk.state }

end Shared

/-! ### Fetching -/

/-- The update server's answer; its manifest and signature are base64. -/
inductive ServerAnswer where
  | failed
  | notFound
  | answer (manifest sig : Option Bytes) (advice : Advice)

inductive GitHubAnswer where
  | failed
  | notFound
  | answer (manifest sig : Bytes)

/-- What a fetch is answered, and when. -/
structure FetchAnswers where
  server : ServerAnswer
  gitHub : GitHubAnswer
  now : Int

/-- A verified manifest and what may hold it back. -/
structure Fetched where
  manifest : Manifest
  raw : Bytes
  sig : Bytes
  advice : Option Advice
  hold : Bool

inductive FetchError where
  | noRelease
  | failed

/-- Seven days, in seconds. -/
def fallbackGrace : Int := 7 * 24 * 3600

def verify (env : Env Key Db) (raw sig : Bytes) : Option Manifest :=
  match verifyManifest env.codec env.trusted raw sig with
  | .error _ => none
  | .ok m => if m.channel = env.channel then some m else none

def fromServer (env : Env Key Db) : ServerAnswer → Option (Manifest × Advice × Bytes × Bytes)
  | .answer (some raw) (some sig) advice =>
    (verify env raw sig).map fun m => (m, advice, raw, sig)
  | _ => none

def fromGitHub (env : Env Key Db) : GitHubAnswer → Option (Manifest × Bytes × Bytes)
  | .answer raw sig => (verify env raw sig).map fun m => (m, raw, sig)
  | _ => none

def ServerAnswer.isNotFound : ServerAnswer → Bool
  | .notFound => true
  | _ => false

def GitHubAnswer.isNotFound : GitHubAnswer → Bool
  | .notFound => true
  | _ => false

/-- A GitHub copy obeys the server's last advice on that version; one the
server never advised on waits out its grace. -/
def gitHubCopy (last : LastAdvice) (now : Int) (m : Manifest) (raw sig : Bytes) : Fetched :=
  if last.version = m.version then
    ⟨m, raw, sig, some ⟨last.rolloutPercent, last.halt⟩, false⟩
  else ⟨m, raw, sig, none, now - m.published < fallbackGrace⟩

/-- The server first, whose advice is remembered; GitHub if the server has no
manifest that verifies. -/
def fetch (env : Env Key Db) (answers : FetchAnswers) (σ : Shared Db) :
    Shared Db × Except FetchError Fetched :=
  match fromServer env answers.server with
  | some (m, advice, raw, sig) =>
    (σ.updateState fun ps =>
        { ps with
          lastAdvice := ⟨m.version, advice.rolloutPercent, advice.halt⟩ },
      .ok ⟨m, raw, sig, some advice, false⟩)
  | none =>
    match fromGitHub env answers.gitHub with
    | some (m, raw, sig) =>
      (σ, .ok (gitHubCopy σ.disk.state.lastAdvice answers.now m raw sig))
    | none =>
      if answers.server.isNotFound ∧ answers.gitHub.isNotFound then
        (σ, .error .noRelease)
      else (σ, .error .failed)

/-! ### Deciding and staging -/

/-- The periodic check, "check now" and "install now". -/
inductive JobKind where
  | auto
  | manual
  | install
deriving DecidableEq, Repr

/-- The input of the rules: a manual check reports even when updates are off,
and "install now" waives the mode and the rollout, not a halt. -/
def decideInput (env : Env Key Db) (σ : Shared Db) (f : Fetched) (kind : JobKind) : DecideInput :=
  let asked := kind = .install ∨ σ.wantNow = true
  { current := env.current
    mode :=
      if asked then .auto
      else if kind = .manual ∧ σ.mode = .off then .notify
      else σ.mode
    manifest := f.manifest
    advice :=
      if asked then f.advice.map fun advice => ⟨100, advice.halt⟩ else f.advice
    bucket := if asked then 0 else σ.ps.bucket
    goos := env.goos
    goarch := env.goarch
    selfUpdatable := env.selfUpdatable
    skip := σ.ps.skip }

def decide (env : Env Key Db) (σ : Shared Db) (f : Fetched) (kind : JobKind) : Decision :=
  let d := decideUpdate (decideInput env σ f kind)
  if d.action = .install ∧ f.hold then
    ⟨.hold, f.manifest.version ++ " is out on GitHub, but the update server " ++
      "hasn't confirmed it yet; it installs from GitHub once it has been out " ++
      "for 7 days"⟩
  else d

/-- How the self-tests of a staged release end; a broken release is skipped. -/
inductive TestResult where
  | passed
  | broken
  | failed
deriving DecidableEq, Repr

/-- What staging is answered: the download, whether files could be written and
read, the self-tests, and whether it was cancelled. -/
structure StageAnswers where
  tarball : Option Bytes
  written : Bool
  tests : TestResult
  cancelled : Bool

/-- Staging failed; a release that is itself broken is skipped. -/
def stageFailed (m : Manifest) (skip : Bool) (σ : Shared Db) : Shared Db :=
  let σ := if skip then σ.updateState fun ps => { ps with skip := m.version }
    else σ
  { σ with staging := fun _ _ => none }

/-- The hashes of the files a release has. -/
def sumsOf (env : Env Key Db) (got : Place → Option Bytes) : List (Place × String) :=
  env.places.filterMap fun p =>
    (got p).map fun content => (p, env.codec.sha256 content)

variable (σ : Shared Db)

def Shared.stagedExists (s : StagedRelease) : Bool :=
  s.sums.all fun file => (σ.staging s.version file.1).isSome

/-- Download the tarball of a release, check it against the signed hash and
size, unpack and test it; whether a release of this version is staged then. -/
def stage (env : Env Key Db) (answers : StageAnswers) (m : Manifest)
    (σ : Shared Db) : Shared Db × Bool :=
  if σ.staged.any fun s => s.version = m.version && σ.stagedExists s then
    (σ, true)
  else
    match m.asset env.goos env.goarch "tarball" with
    | none => (σ, false)
    | some asset =>
      let σ := σ.dropStaged
      match answers.tarball with
      | none => (stageFailed m false σ, false)
      | some tarball =>
        -- a short or altered download is not the release's fault
        if (tarball.length : Int) ≠ asset.size ∨ env.codec.sha256 tarball ≠ asset.sha256 then
          (stageFailed m false σ, false)
        else
          match extractRelease env tarball with
          | none => (stageFailed m (!answers.cancelled) σ, false)
          | some got =>
            if ¬ answers.written then (stageFailed m false σ, false)
            else if answers.tests = .broken then
              (stageFailed m (!answers.cancelled) σ, false)
            else if answers.tests = .failed then
              (stageFailed m false σ, false)
            else
              ({ σ with
                  staged := some ⟨m.version, sumsOf env got⟩
                  staging := Function.update σ.staging m.version got },
                true)

/-! ### Calls -/

/-- What a job is answered on its way. -/
structure Answers where
  cancelled : Bool
  first : FetchAnswers
  staging : StageAnswers
  quiet : Bool
  second : FetchAnswers
  quiesced : Bool
  swap : List Bool

inductive Call where
  | checkNow (a : Answers)
  | installNow (a : Answers)
  | periodic (a : Answers)
  | idle (a : Answers)
  | requestRollback (quiesced written : Bool)
  | setMode (mode : UpdateMode)
  | reload

/-- The sections of the calls; from `fetch` to `unlock` the call holds the
updater's lock. -/
inductive Stage where
  | installNow (a : Answers)
  | startJob (kind : JobKind) (a : Answers)
  | lockQueued (kind : JobKind) (a : Answers)
  | periodic (a : Answers)
  | lock (a : Answers)
  | tryLock (a : Answers)
  | unqueue (kind : JobKind) (a : Answers)
  | fetch (kind : JobKind) (a : Answers)
  | decide (kind : JobKind) (a : Answers) (f : Fetched)
  | stage (a : Answers) (f : Fetched)
  | install (a : Answers)
  | stillWanted (a : Answers) (s : StagedRelease)
  | check (a : Answers) (s : StagedRelease)
  | swap (a : Answers) (s : StagedRelease)
  | unlock
  | requestRollback (quiesced written : Bool)
  | rollback (quiesced written : Bool)
  | setMode (mode : UpdateMode)
  | reload

def enter : Call → Stage
  | .checkNow a => .startJob .manual a
  | .installNow a => .installNow a
  | .periodic a => .periodic a
  | .idle a => .tryLock a
  | .requestRollback quiesced written => .requestRollback quiesced written
  | .setMode mode => .setMode mode
  | .reload => .reload

def Shared.unchanged (env : Env Key Db) (σ : Shared Db) (s : StagedRelease) : Bool :=
  s.sums.all fun file =>
    (σ.staging s.version file.1).map env.codec.sha256 = some file.2

def Shared.stagedHelper (version : String) : Place → Option (Helper × Bytes)
  | .daemon => none
  | .helper h => (σ.staging version (.helper h)).map fun content => (h, content)

/-- The files of a staged release as they are in its directory. -/
def Shared.release (s : StagedRelease) : Option (Staged Bytes) :=
  if σ.stagedExists s then
    (σ.staging s.version .daemon).map fun daemon =>
      ⟨s.version, daemon, s.sums.filterMap fun file => σ.stagedHelper s.version file.1⟩
  else none

/-- The files operations put in place. -/
def placedBy (ops : List (FileOp Bytes)) : List (Place × Bytes) :=
  ops.filterMap fun
    | .install p file => some (p, file)
    | _ => none

def FileOp.writesState : FileOp Bytes → Bool
  | .updateState _ => true
  | _ => false

/-- Swap a release in, which refreshes the cached state when it records the
helpers; the operations' outcomes are given, and a list that ends before the
swap does is a death there. -/
def runSwap (env : Env Key Db) (oks : List Bool) (release : Staged Bytes)
    (σ : Shared Db) : Shared Db :=
  let p : Files Bytes Db (Option String) := swap env.guard release
  let run := exec perform p oks σ.disk
  let ops := performed perform p oks σ.disk
  let after := { σ with
    disk := run.1
    ps := if ops.any FileOp.writesState then run.1.state else σ.ps
    placed := σ.placed ++ placedBy ops }
  if run.2 = some none then
    { after with installing := true, staged := none, wantNow := false }
  else after

/-- Turning updates off after "install now" cancels it. -/
def Shared.cancelWant : Shared Db :=
  if σ.wantNow ∧ σ.mode = .off ∧ σ.wantMode ≠ .off then σ.clearWant else σ

/-- The start of an install: not when nothing is staged or a restart is due,
only if the mode or the user allows it, and at a quiet moment. -/
def installSection (env : Env Key Db) (a : Answers) (σ : Shared Db) : Shared Db × Option Stage :=
  if a.cancelled ∨ ¬ env.selfUpdatable ∨ σ.installing then (σ, some .unlock)
  else
    match σ.staged with
    | none => (σ, some .unlock)
    | some s =>
      let σ := σ.cancelWant
      if (σ.wantNow = true ∨ σ.mode = .auto) ∧ a.quiet then
        (σ, some (.stillWanted a s))
      else (σ, some .unlock)

/-- The last look before the swap: whether a staged version is still wanted.
When neither source can be reached it goes by the server's last word. -/
def stillWanted (env : Env Key Db) (answers : FetchAnswers)
    (version : String) (σ : Shared Db) : Shared Db × Bool :=
  match fetch env answers σ with
  | (σ, .error _) =>
    if σ.ps.lastAdvice.version = version ∧ σ.ps.lastAdvice.halt then
      (σ.dropStaged, false)
    else (σ, true)
  | (σ, .ok f) =>
    if f.manifest.version ≠ version ∨ (decide env σ f .auto).action ≠ .install then
      (σ.dropStaged, false)
    else (σ, true)

/-- A job's fetch, after which the state file is written and the cache
refreshed. -/
def fetchSection (env : Env Key Db) (kind : JobKind) (a : Answers)
    (σ : Shared Db) : Shared Db × Option Stage :=
  if a.cancelled then (σ, some .unlock)
  else
    match fetch env a.first σ with
    | (σ, .error .noRelease) => (σ.reload.dropStaged.clearWant, some .unlock)
    | (σ, .error .failed) => (σ.reload, some .unlock)
    | (σ, .ok f) => (σ.reload, some (.decide kind a f))

/-- A job's decision; a decision to install is recorded. -/
def decideSection (env : Env Key Db) (kind : JobKind) (a : Answers)
    (f : Fetched) (σ : Shared Db) : Shared Db × Option Stage :=
  if (decide env σ f kind).action = .install then
    ({ σ with
        decided := σ.decided ++ [⟨f.raw, f.sig, f.manifest, σ.disk.state.skip⟩] },
      some (.stage a f))
  else (σ.dropStaged.clearWant, some .unlock)

/-- A rollback the user asks for. -/
def rollbackSection (env : Env Key Db) (quiesced written : Bool) (σ : Shared Db) : Shared Db :=
  if σ.installing ∨ ¬ quiesced then σ
  else
    let run := exec perform (requestRollback env.guard : Files Bytes Db (Option String)) [written]
      σ.disk
    if run.2 = some none then
      { σ with disk := run.1, installing := true, rollback := true }.dropStaged
    else { σ with disk := run.1 }

/-- One section: what it does to the updater's state, and the next one. -/
def body (env : Env Key Db) (σ : Shared Db) : Stage → Shared Db × Option Stage
  | .installNow a =>
    if env.selfUpdatable ∧ isRelease env.current then
      ({ σ with wantNow := true, wantMode := σ.mode }, some (.startJob .install a))
    else (σ, none)
  | .startJob kind a =>
    if σ.queued then (σ, none)
    else ({ σ with queued := true }, some (.lockQueued kind a))
  | .lockQueued kind a =>
    if σ.busy then (σ, some (.lockQueued kind a))
    else ({ σ with busy := true }, some (.unqueue kind a))
  | .periodic a =>
    if σ.mode = .off then (σ, none) else (σ, some (.lock a))
  | .lock a =>
    if σ.busy then (σ, some (.lock a))
    else ({ σ with busy := true }, some (.fetch .auto a))
  | .tryLock a =>
    if σ.busy then (σ, none)
    else ({ σ with busy := true }, some (.install a))
  | .unqueue kind a => ({ σ with queued := false }, some (.fetch kind a))
  | .fetch kind a => fetchSection env kind a σ
  | .decide kind a f => decideSection env kind a f σ
  | .stage a f =>
    let staged := stage env a.staging f.manifest σ
    (staged.1, some (if staged.2 then .install a else .unlock))
  | .install a => installSection env a σ
  | .stillWanted a s =>
    let looked := stillWanted env a.second s.version σ
    (looked.1, some (if looked.2 then .check a s else .unlock))
  | .check a s =>
    if ¬ a.quiesced then (σ, some .unlock)
    else if σ.unchanged env s then (σ, some (.swap a s))
    else (σ.dropStaged, some .unlock)
  | .swap a s =>
    match σ.release s with
    | none => (σ, some .unlock)
    | some release => (runSwap env a.swap release σ, some .unlock)
  | .unlock => ({ σ with busy := false }, none)
  | .requestRollback quiesced written =>
    if ¬ env.selfUpdatable ∨ (σ.disk.kept .daemon).isNone ∨ σ.busy then (σ, none)
    else ({ σ with busy := true }, some (.rollback quiesced written))
  | .rollback quiesced written =>
    (rollbackSection env quiesced written σ, some .unlock)
  | .setMode mode => ({ σ with mode := mode }, none)
  | .reload => (σ.reload, none)

/-- The updater's calls. -/
def program (env : Env Key Db) : Calls.Program (Shared Db) Call Stage where
  enter := enter
  body := body env

/-! ### The updater's lock -/

def Stage.inside : Stage → Bool
  | .installNow _ | .startJob _ _ | .lockQueued _ _ | .periodic _ | .lock _
  | .tryLock _ | .requestRollback _ _ | .setMode _ | .reload => false
  | _ => true

/-- The lock one check, staging or install holds at a time. -/
def busyLock : Calls.Lock (Shared Db) Stage where
  held := Shared.busy
  inside := Stage.inside

section Calm

variable (env : Env Key Db) {σ : Shared Db}

/-- The lock and the history are as they were, and nothing new is staged. -/
structure Calm (σ after : Shared Db) : Prop where
  busy : after.busy = σ.busy
  decided : after.decided = σ.decided
  placed : after.placed = σ.placed
  staged : after.staged = σ.staged ∨ after.staged = none

theorem Calm.refl (σ : Shared Db) : Calm σ σ := ⟨rfl, rfl, rfl, .inl rfl⟩

theorem Calm.drop {after : Shared Db} (calm : Calm σ after) : Calm σ after.dropStaged :=
  ⟨calm.busy, calm.decided, calm.placed, .inr rfl⟩

theorem fetch_calm (answers : FetchAnswers) : Calm σ (fetch env answers σ).1 := by
  unfold fetch
  split
  · exact ⟨rfl, rfl, rfl, .inl rfl⟩
  · split
    · exact .refl σ
    · split <;> exact .refl σ

theorem stillWanted_calm (answers : FetchAnswers) (version : String) :
    Calm σ (stillWanted env answers version σ).1 := by
  have calm : Calm σ (fetch env answers σ).1 := fetch_calm env answers
  unfold stillWanted
  split
  · next fetched =>
      rw [fetched] at calm
      split
      · exact calm.drop
      · exact calm
  · next fetched =>
      rw [fetched] at calm
      split
      · exact calm.drop
      · exact calm

theorem fetchSection_calm (kind : JobKind) (a : Answers) :
    Calm σ (fetchSection env kind a σ).1 := by
  have calm : Calm σ (fetch env a.first σ).1 := fetch_calm env a.first
  unfold fetchSection
  split
  · exact .refl σ
  · split
    · next fetched =>
        rw [fetched] at calm
        exact ⟨calm.busy, calm.decided, calm.placed, .inr rfl⟩
    · next fetched =>
        rw [fetched] at calm
        exact ⟨calm.busy, calm.decided, calm.placed, calm.staged⟩
    · next fetched =>
        rw [fetched] at calm
        exact ⟨calm.busy, calm.decided, calm.placed, calm.staged⟩

theorem cancelWant_calm : Calm σ σ.cancelWant := by
  unfold Shared.cancelWant
  split
  · exact ⟨rfl, rfl, rfl, .inl rfl⟩
  · exact .refl σ

theorem installSection_calm (a : Answers) : Calm σ (installSection env a σ).1 := by
  unfold installSection
  split
  · exact .refl σ
  · split
    · exact .refl σ
    · dsimp only
      split <;> exact cancelWant_calm

theorem rollbackSection_calm (quiesced written : Bool) :
    Calm σ (rollbackSection env quiesced written σ) := by
  unfold rollbackSection
  split
  · exact .refl σ
  · dsimp only
    split
    · exact ⟨rfl, rfl, rfl, .inr rfl⟩
    · exact ⟨rfl, rfl, rfl, .inl rfl⟩

theorem stageFailed_calm (m : Manifest) (skip : Bool) : Calm σ (stageFailed m skip σ) := by
  cases skip <;> exact ⟨rfl, rfl, rfl, .inl rfl⟩

theorem stage_cases (answers : StageAnswers) (m : Manifest) : Calm σ (stage env answers m σ).1 ∨
      ∃ asset tarball got, m.asset env.goos env.goarch "tarball" = some asset ∧
        (tarball.length : Int) = asset.size ∧
        env.codec.sha256 tarball = asset.sha256 ∧
        extractRelease env tarball = some got ∧
        (stage env answers m σ).1 = { σ with
          staged := some ⟨m.version, sumsOf env got⟩
          staging := Function.update (fun _ _ => none) m.version got } := by
  have failed : ∀ skip, Calm σ (stageFailed m skip σ.dropStaged) := by
    intro skip
    have calm : Calm σ.dropStaged (stageFailed m skip σ.dropStaged) := stageFailed_calm m skip
    exact ⟨calm.busy, calm.decided, calm.placed, .inr (by
      rcases calm.staged with same | none
      · exact same
      · exact none)⟩
  unfold stage
  split
  · exact .inl (.refl σ)
  split
  · exact .inl (.refl σ)
  next asset isAsset =>
  split
  · exact .inl (failed false)
  next tarball _ =>
  split
  · exact .inl (failed false)
  next genuine =>
  rw [not_or, not_not, not_not] at genuine
  split
  · exact .inl (failed _)
  next got extracted =>
  split
  · exact .inl (failed false)
  split
  · exact .inl (failed _)
  split
  · exact .inl (failed false)
  exact .inr ⟨asset, tarball, got, isAsset, genuine.1, genuine.2, extracted, rfl⟩

end Calm

/-! ### The lock is respected -/

section Lock

variable (env : Env Key Db)

/-- Outside the lock only flags change, and the cached state. -/
structure OnlyFlags (σ after : Shared Db) : Prop where
  staged : after.staged = σ.staged
  staging : after.staging = σ.staging
  disk : after.disk = σ.disk
  ps : after.ps = σ.ps ∨ after.ps = σ.disk.state
  decided : after.decided = σ.decided
  placed : after.placed = σ.placed

theorem body_outside {σ : Shared Db} {stage : Stage}
    (outside : stage.inside = false) : OnlyFlags σ (body env σ stage).1 := by
  cases stage <;> cases outside
  case setMode => exact ⟨rfl, rfl, rfl, .inl rfl, rfl, rfl⟩
  case reload => exact ⟨rfl, rfl, rfl, .inr rfl, rfl, rfl⟩
  all_goals
    rw [body]
    split
    · first | exact same | exact ⟨rfl, rfl, rfl, .inl rfl, rfl, rfl⟩
    · first | exact same | exact ⟨rfl, rfl, rfl, .inl rfl, rfl, rfl⟩

theorem body_inside {σ : Shared Db} {stage later : Stage} (inside : stage.inside = true)
    (isLater : (body env σ stage).2 = some later) :
    (body env σ stage).1.busy = σ.busy := by
  cases stage <;> cases inside
  case fetch kind a => exact (fetchSection_calm env kind a).busy
  case install a => exact (installSection_calm env a).busy
  case rollback quiesced written =>
    exact (rollbackSection_calm env quiesced written).busy
  case stillWanted a s => exact (stillWanted_calm env a.second s.version).busy
  case unqueue => rfl
  case unlock => cases isLater
  case decide kind a f =>
    change (decideSection env kind a f σ).1.busy = σ.busy
    unfold decideSection
    split <;> rfl
  case stage a f =>
    change (stage env a.staging f.manifest σ).1.busy = σ.busy
    rcases stage_cases (σ := σ) env a.staging f.manifest with
      calm | ⟨_, _, _, _, _, _, _, staged⟩
    · exact calm.busy
    · rw [staged]
  case check a s =>
    rw [body]
    split
    · rfl
    · split <;> rfl
  case swap a s =>
    rw [body]
    split
    · rfl
    · next release _ =>
        unfold runSwap
        dsimp only
        split <;> rfl

/-- What a section outside the lock may do: go on outside with the lock as it
was, or take it free and go inside. -/
inductive Enters (σ : Shared Db) (result : Shared Db × Option Stage) : Prop where
  | stays (busy : result.1.busy = σ.busy)
      (outside : ∀ later ∈ result.2, later.inside = false)
  | takes (free : σ.busy = false) (busy : result.1.busy = true)
      (goesIn : ∃ later, result.2 = some later ∧ later.inside = true)

theorem body_enters {σ : Shared Db} {stage : Stage}
    (outside : stage.inside = false) : Enters σ (body env σ stage) := by
  have returns : ∀ later ∈ (none : Option Stage), later.inside = false :=
    fun _ member => nomatch member
  have goesOn : ∀ {next : Stage}, next.inside = false →
      ∀ later ∈ some next, later.inside = false := by
    rintro next isOutside _ ⟨⟩
    exact isOutside
  cases stage <;> cases outside
  case setMode => exact .stays rfl returns
  case reload => exact .stays rfl returns
  case installNow a =>
    rw [body]
    split
    · exact .stays rfl (goesOn rfl)
    · exact .stays rfl returns
  case startJob kind a =>
    rw [body]
    split
    · exact .stays rfl returns
    · exact .stays rfl (goesOn rfl)
  case periodic a =>
    rw [body]
    split
    · exact .stays rfl returns
    · exact .stays rfl (goesOn rfl)
  case lockQueued kind a =>
    rw [body]
    split
    · exact .stays rfl (goesOn rfl)
    · next free => exact .takes (Bool.eq_false_iff.mpr free) rfl ⟨_, rfl, rfl⟩
  case lock a =>
    rw [body]
    split
    · exact .stays rfl (goesOn rfl)
    · next free => exact .takes (Bool.eq_false_iff.mpr free) rfl ⟨_, rfl, rfl⟩
  case tryLock a =>
    rw [body]
    split
    · exact .stays rfl returns
    · next free => exact .takes (Bool.eq_false_iff.mpr free) rfl ⟨_, rfl, rfl⟩
  case requestRollback quiesced written =>
    rw [body]
    split
    · exact .stays rfl returns
    · next free =>
        simp only [not_or] at free
        exact .takes (Bool.eq_false_iff.mpr free.2.2) rfl ⟨_, rfl, rfl⟩

theorem program_respects : (program env).Respects busyLock where
  enter := by
    intro call
    cases call <;> rfl
  takes := by
    intro σ stage outside later isLater inside
    cases body_enters env (σ := σ) outside with
    | stays _ stays =>
      have notInside : later.inside = false := stays later isLater
      cases notInside.symm.trans inside
    | takes free busy _ => exact ⟨free, busy⟩
  leaves := by
    intro σ stage outside stays
    cases body_enters env (σ := σ) outside with
    | stays busy _ => exact busy
    | takes _ _ goesIn =>
      obtain ⟨later, isLater, inside⟩ := goesIn
      have notInside : later.inside = false := stays later isLater
      cases notInside.symm.trans inside
  keeps := by
    intro σ stage inside held later isLater _
    exact (body_inside env inside isLater).trans held

end Lock

end Updater

end RiftRoute
