/-
Module: RiftRoute.Updater.Remembered
Purpose: Only signed bytes are installed, however jobs, installs and requests
  interleave, and what an install remembers over all its starts.
Trusted boundary: human-reviewed spec
-/
import RiftRoute.Updater.Jobs

namespace RiftRoute

open List

namespace Updater

open Durable

variable {Key Db : Type}

/-! ### Where a staged file comes from -/

section Origin

variable (env : Env Key Db)

/-- A decision to install was for a manifest whose exact bytes verify under a
trusted key, of this channel, and newer than the running and the skipped
version. -/
structure Justified (dec : Decided) : Prop where
  verified : Verified env.codec env.trusted dec.raw dec.sig dec.manifest
  channel : dec.manifest.channel = env.channel
  wanted : Wanted env.current dec.skip dec.manifest.version

/-- The tarball is the one a manifest names for this platform. -/
structure Named (m : Manifest) (tarball : Bytes) : Prop where
  named : ∃ asset, m.asset env.goos env.goarch "tarball" = some asset ∧
    (tarball.length : Int) = asset.size ∧
    env.codec.sha256 tarball = asset.sha256

/-- The content is an entry, under the place's name, of a tarball the manifest
names. -/
def FromRelease (m : Manifest) (p : Place) (content : Bytes) : Prop :=
  ∃ tarball entries, Named env m tarball ∧ env.untar tarball = some entries ∧
    ∃ e ∈ entries, trimPrefix e.name "./" = p.releaseName ∧ e.content = content

def Traced (decided : List Decided) (s : StagedRelease) : Prop :=
  ∃ dec ∈ decided, ∃ tarball got, Named env dec.manifest tarball ∧
    extractRelease env tarball = some got ∧ s.sums = sumsOf env got

variable {env}

variable {content : Bytes} {got : Place → Option Bytes}

theorem extractEntries_entry {wanted : List Place}
    {last : Place → Option Bytes} {entries : List TarEntry}
    (extracted : extractEntries wanted got entries = some last) {p : Place}
    (has : last p = some content) :
    got p = some content ∨ ∃ e ∈ entries, trimPrefix e.name "./" = p.releaseName ∧
        e.content = content := by
  induction entries generalizing got with
  | nil =>
    obtain rfl := Option.some.inj extracted
    exact .inl has
  | cons e rest ih =>
    have later : ∀ {before : Place → Option Bytes}, extractEntries wanted before rest = some last →
        before p = some content ∨ ∃ e' ∈ e :: rest, trimPrefix e'.name "./" = p.releaseName ∧
            e'.content = content := by
      intro before ran
      rcases ih ran with known | ⟨e', member, found⟩
      · exact .inl known
      · exact .inr ⟨e', mem_cons_of_mem e member, found⟩
    rw [extractEntries] at extracted
    split at extracted
    · exact later extracted
    · next q isPlace =>
        split at extracted
        · cases extracted
        rcases later extracted with known | found
        · by_cases same : p = q
          · subst same
            rw [Function.update_self] at known
            have name := find?_some isPlace
            exact .inr ⟨e, by simp, (of_decide_eq_true name).symm, Option.some.inj known⟩
          · rw [Function.update_of_ne same] at known
            exact .inl known
        · exact .inr found

theorem fromRelease_of_extract {m : Manifest} {tarball : Bytes} (named : Named env m tarball)
    (extracted : extractRelease env tarball = some got) {p : Place} (has : got p = some content) :
    FromRelease env m p content := by
  obtain ⟨entries, untarred, rest⟩ := Option.bind_eq_some_iff.mp extracted
  obtain ⟨last, ran, isDaemon⟩ := Option.bind_eq_some_iff.mp rest
  split at isDaemon
  · obtain rfl := Option.some.inj isDaemon
    rcases extractEntries_entry ran has with known | found
    · cases known
    · exact ⟨tarball, entries, named, untarred, found⟩
  · cases isDaemon

theorem daemon_staged {tarball : Bytes} (extracted : extractRelease env tarball = some got) :
    ∃ sum, (Place.daemon, sum) ∈ sumsOf env got := by
  obtain ⟨entries, -, rest⟩ := Option.bind_eq_some_iff.mp extracted
  obtain ⟨last, -, isDaemon⟩ := Option.bind_eq_some_iff.mp rest
  split at isDaemon
  · next has =>
      obtain rfl := Option.some.inj isDaemon
      obtain ⟨content, isContent⟩ := Option.isSome_iff_exists.mp has
      refine ⟨env.codec.sha256 content, mem_filterMap.mpr ⟨.daemon, ?_, ?_⟩⟩
      · exact mem_cons_self
      · rw [isContent]
        rfl
  · cases isDaemon

theorem got_of_sum (injective : Function.Injective env.codec.sha256) {p : Place}
    (member : (p, env.codec.sha256 content) ∈ sumsOf env got) :
    got p = some content := by
  obtain ⟨q, -, isSum⟩ := mem_filterMap.mp member
  obtain ⟨taken, isTaken, equal⟩ := Option.map_eq_some_iff.mp isSum
  rw [Prod.mk.injEq] at equal
  obtain ⟨rfl, sum⟩ := equal
  rw [isTaken, injective sum]

end Origin

/-! ### Every run -/

section Run

variable (env : Env Key Db)

/-- What holds of the updater's state: decisions to install are justified,
what is staged comes from a decided manifest, and so do the files put in
place. -/
structure Sound (σ : Shared Db) : Prop where
  decided : ∀ dec ∈ σ.decided, Justified env dec
  staged : ∀ s, σ.staged = some s → Traced env σ.decided s
  placed : ∀ file ∈ σ.placed, ∃ dec ∈ σ.decided, FromRelease env dec.manifest file.1 file.2

/-- What holds of a call at a stage. -/
def Stage.Sound (σ : Shared Db) : Stage → Prop
  | .decide _ _ f =>
    Verified env.codec env.trusted f.raw f.sig f.manifest ∧
      f.manifest.channel = env.channel ∧ σ.ps.skip = σ.disk.state.skip
  | .stage _ f => ∃ dec ∈ σ.decided, dec.manifest = f.manifest
  | .stillWanted _ s | .check _ s => Traced env σ.decided s
  | .swap _ s => Traced env σ.decided s ∧ σ.unchanged env s = true
  | _ => True

variable {env} {σ after : Shared Db}

theorem Sound.calm (sound : Sound env σ) (calm : Calm σ after) : Sound env after := by
  refine ⟨?_, ?_, ?_⟩
  · rw [calm.decided]
    exact sound.decided
  · intro s isStaged
    rw [calm.decided]
    rcases calm.staged with same | none
    · exact sound.staged s (same.symm.trans isStaged)
    · cases none.symm.trans isStaged
  · rw [calm.placed, calm.decided]
    exact sound.placed

theorem verified_of_channel {raw sig : Bytes} {m : Manifest} (ok : verify env raw sig = some m) :
    Verified env.codec env.trusted raw sig m ∧ m.channel = env.channel := by
  unfold verify at ok
  split at ok
  · cases ok
  · next verified =>
      split at ok
      · next channel =>
          obtain rfl := Option.some.inj ok
          exact ⟨verified_of_verify env.codec verified, channel⟩
      · cases ok

theorem fetch_verified {answers : FetchAnswers} {f : Fetched}
    (fetched : (fetch env answers σ).2 = .ok f) :
    Verified env.codec env.trusted f.raw f.sig f.manifest ∧ f.manifest.channel = env.channel := by
  unfold fetch at fetched
  split at fetched
  · next m advice raw sig isServer =>
      cases fetched
      unfold fromServer at isServer
      split at isServer
      · obtain ⟨_, ok, equal⟩ := Option.map_eq_some_iff.mp isServer
        cases equal
        exact verified_of_channel ok
      · cases isServer
  · split at fetched
    · next m raw sig isGitHub =>
        unfold fromGitHub at isGitHub
        split at isGitHub
        · obtain ⟨_, ok, equal⟩ := Option.map_eq_some_iff.mp isGitHub
          cases equal
          cases fetched
          unfold gitHubCopy
          split <;> exact verified_of_channel ok
        · cases isGitHub
    · split at fetched <;> cases fetched

variable {later : Stage}

theorem fetchSection_later {kind : JobKind} {a : Answers}
    (isLater : (fetchSection env kind a σ).2 = some later) :
    later.Sound env (fetchSection env kind a σ).1 := by
  unfold fetchSection at isLater ⊢
  split at isLater
  · next cancelled =>
      cases isLater
      trivial
  · next running =>
      rw [if_neg running]
      split at isLater
      · cases isLater
        trivial
      · cases isLater
        trivial
      · next after f fetched =>
          cases isLater
          have verified := fetch_verified (f := f) (congrArg Prod.snd fetched)
          exact ⟨verified.1, verified.2, rfl⟩

theorem decideSection_sound {kind : JobKind} {a : Answers} {f : Fetched}
    (sound : Sound env σ) (here : (Stage.decide kind a f).Sound env σ) :
    Sound env (decideSection env kind a f σ).1 ∧ ∀ later ∈ (decideSection env kind a f σ).2,
        later.Sound env (decideSection env kind a f σ).1 := by
  unfold decideSection
  split
  · next install =>
      have rules : (decideUpdate (decideInput env σ f kind)).action = .install := by
        unfold decide at install
        dsimp only at install
        split at install
        · cases install
        exact install
      obtain ⟨verified, channel, cached⟩ := here
      have wanted := (decideUpdate_install rules).1
      have justified : Justified env ⟨f.raw, f.sig, f.manifest, σ.disk.state.skip⟩ :=
        ⟨verified, channel, cached ▸ wanted⟩
      refine ⟨⟨?_, ?_, ?_⟩, ?_⟩
      · intro dec member
        rcases mem_append.mp member with old | new
        · exact sound.decided dec old
        · obtain rfl := mem_singleton.mp new
          exact justified
      · intro s isStaged
        obtain ⟨dec, member, traced⟩ := sound.staged s isStaged
        exact ⟨dec, mem_append_left _ member, traced⟩
      · intro file member
        obtain ⟨dec, isDecided, release⟩ := sound.placed file member
        exact ⟨dec, mem_append_left _ isDecided, release⟩
      · rintro _ ⟨⟩
        exact ⟨_, mem_append_right _ (mem_singleton_self _), rfl⟩
  · refine ⟨sound.calm ⟨rfl, rfl, rfl, .inr rfl⟩, ?_⟩
    rintro _ ⟨⟩
    trivial

theorem stage_sound {answers : StageAnswers} {m : Manifest}
    (sound : Sound env σ) (here : ∃ dec ∈ σ.decided, dec.manifest = m) :
    Sound env (stage env answers m σ).1 := by
  rcases stage_cases (σ := σ) env answers m with
    calm | ⟨asset, tarball, got, isAsset, size, hash, extracted, staged⟩
  · exact sound.calm calm
  · rw [staged]
    refine ⟨sound.decided, ?_, sound.placed⟩
    rintro _ ⟨⟩
    obtain ⟨dec, member, rfl⟩ := here
    exact ⟨dec, member, tarball, got, ⟨asset, isAsset, size, hash⟩, extracted, rfl⟩

theorem release_from (injective : Function.Injective env.codec.sha256)
    {s : StagedRelease} {release : Staged Bytes}
    (traced : Traced env σ.decided s) (unchanged : σ.unchanged env s = true)
    (isRelease : σ.release s = some release) :
    ∃ dec ∈ σ.decided, ∀ file ∈ release.files, FromRelease env dec.manifest file.1 file.2 := by
  obtain ⟨dec, member, tarball, got, named, extracted, sums⟩ := traced
  refine ⟨dec, member, ?_⟩
  -- a file in the directory with a hash of the release is the one extracted
  have same : ∀ p sum content, (p, sum) ∈ s.sums → σ.staging s.version p = some content →
      FromRelease env dec.manifest p content := by
    intro p sum content inSums inDirectory
    have hash := all_eq_true.mp unchanged (p, sum) inSums
    simp only [inDirectory, Option.map_some, Option.some.injEq, decide_eq_true_eq] at hash
    rw [sums, ← hash] at inSums
    exact fromRelease_of_extract named extracted (got_of_sum injective inSums)
  unfold Shared.release at isRelease
  split at isRelease
  case isFalse => cases isRelease
  obtain ⟨daemon, isDaemon, rfl⟩ := Option.map_eq_some_iff.mp isRelease
  intro file member
  rcases mem_cons.mp member with rfl | isHelper
  · obtain ⟨sum, inSums⟩ := daemon_staged extracted
    exact same .daemon sum daemon (sums ▸ inSums) isDaemon
  · obtain ⟨staged, isStaged, rfl⟩ := mem_map.mp isHelper
    obtain ⟨⟨p, sum⟩, inSums, found⟩ := mem_filterMap.mp isStaged
    cases p with
    | daemon => cases found
    | helper h =>
      obtain ⟨content, inDirectory, rfl⟩ := Option.map_eq_some_iff.mp found
      exact same (.helper h) sum content inSums inDirectory

theorem runSwap_sound {oks : List Bool} {release : Staged Bytes} (sound : Sound env σ)
    (known : ∃ dec ∈ σ.decided, ∀ file ∈ release.files,
      FromRelease env dec.manifest file.1 file.2) :
    Sound env (runSwap env oks release σ) := by
  obtain ⟨dec, member, files⟩ := known
  have placed : ∀ file ∈ σ.placed ++ placedBy (performed perform
      (swap env.guard release : Files Bytes Db _) oks σ.disk),
      ∃ dec ∈ σ.decided, FromRelease env dec.manifest file.1 file.2 := by
    intro file inPlace
    rcases mem_append.mp inPlace with old | new
    · exact sound.placed file old
    · refine ⟨dec, member, files file ?_⟩
      obtain ⟨op, isOp, puts⟩ := mem_filterMap.mp new
      have only := uses_performed (swap_putsOnly env.guard release) op isOp
      cases op <;> cases puts
      exact only _ _ rfl
  unfold runSwap
  dsimp only
  split
  · exact ⟨sound.decided, by rintro _ ⟨⟩, placed⟩
  · exact ⟨sound.decided, sound.staged, placed⟩

theorem installSection_later {a : Answers} (sound : Sound env σ)
    (isLater : (installSection env a σ).2 = some later) :
    later.Sound env (installSection env a σ).1 := by
  have calm : Calm σ (installSection env a σ).1 := installSection_calm env a
  unfold installSection at isLater
  split at isLater
  · cases isLater
    trivial
  split at isLater
  · cases isLater
    trivial
  next s isStaged =>
  dsimp only at isLater
  split at isLater
  · cases isLater
    change Traced env (installSection env a σ).1.decided s
    rw [calm.decided]
    exact sound.staged s isStaged
  · cases isLater
    trivial

variable {stage : Stage}

theorem sound_inside (injective : Function.Injective env.codec.sha256)
    (inside : stage.inside = true) (sound : Sound env σ)
    (here : stage.Sound env σ) : Sound env (body env σ stage).1 := by
  cases stage <;> cases inside
  case unqueue => exact ⟨sound.decided, sound.staged, sound.placed⟩
  case unlock => exact ⟨sound.decided, sound.staged, sound.placed⟩
  case fetch kind a => exact sound.calm (fetchSection_calm env kind a)
  case decide kind a f => exact (decideSection_sound sound here).1
  case stage a f => exact stage_sound sound here
  case install a => exact sound.calm (installSection_calm env a)
  case stillWanted a s =>
    exact sound.calm (stillWanted_calm env a.second s.version)
  case check a s =>
    rw [body]
    split
    · exact sound
    · split
      · exact sound
      · exact sound.calm (Calm.refl σ).drop
  case swap a s =>
    rw [body]
    split
    · exact sound
    · next release isRelease =>
        exact runSwap_sound sound (release_from injective here.1 here.2 isRelease)
  case rollback quiesced written =>
    exact sound.calm (rollbackSection_calm env quiesced written)

theorem later_outside (outside : stage.inside = false)
    (isLater : (body env σ stage).2 = some later) :
    later.Sound env (body env σ stage).1 := by
  cases stage <;> cases outside
  case setMode => cases isLater
  case reload => cases isLater
  all_goals
    rw [body] at isLater
    split at isLater
    · cases isLater
      try trivial
    · cases isLater
      try trivial

theorem later_inside (inside : stage.inside = true) (sound : Sound env σ) (here : stage.Sound env σ)
    (isLater : (body env σ stage).2 = some later) :
    later.Sound env (body env σ stage).1 := by
  cases stage <;> cases inside
  case unqueue =>
    cases isLater
    trivial
  case unlock => cases isLater
  case fetch kind a => exact fetchSection_later isLater
  case decide kind a f => exact (decideSection_sound sound here).2 later isLater
  case install a => exact installSection_later sound isLater
  case stage a f =>
    obtain rfl := Option.some.inj isLater
    split <;> trivial
  case stillWanted a s =>
    have calm : Calm σ (stillWanted env a.second s.version σ).1 :=
      stillWanted_calm env a.second s.version
    obtain rfl := Option.some.inj isLater
    split
    · change Traced env (stillWanted env a.second s.version σ).1.decided s
      rw [calm.decided]
      exact here
    · trivial
  case check a s =>
    rw [body] at isLater ⊢
    split at isLater
    · cases isLater
      trivial
    · next quiet =>
        rw [if_neg quiet]
        split at isLater
        · next unchanged =>
            rw [if_pos unchanged]
            cases isLater
            exact ⟨here, unchanged⟩
        · cases isLater
          trivial
  case swap a s =>
    rw [body] at isLater
    split at isLater
    · cases isLater
      trivial
    · cases isLater
      trivial
  case rollback quiesced written =>
    cases isLater
    trivial

theorem others_outside {other : Stage} (outside : stage.inside = false)
    (there : other.Sound env σ) : other.Sound env (body env σ stage).1 := by
  have flags : OnlyFlags σ (body env σ stage).1 := body_outside env outside
  cases other
  case decide kind a f =>
    refine ⟨there.1, there.2.1, ?_⟩
    rw [flags.disk]
    rcases flags.ps with same | fresh
    · rw [same]
      exact there.2.2
    · rw [fresh]
  case swap a s =>
    refine ⟨?_, ?_⟩
    · rw [flags.decided]
      exact there.1
    · unfold Shared.unchanged
      rw [flags.staging]
      exact there.2
  case stage a f =>
    change ∃ dec ∈ (body env σ stage).1.decided, _
    rw [flags.decided]
    exact there
  case stillWanted a s =>
    change Traced env (body env σ stage).1.decided s
    rw [flags.decided]
    exact there
  case check a s =>
    change Traced env (body env σ stage).1.decided s
    rw [flags.decided]
    exact there
  all_goals trivial

theorem program_keeps (injective : Function.Injective env.codec.sha256) :
    (program env).Keeps busyLock (Sound env) (Stage.Sound env) where
  enter := by
    intro σ call _
    cases call <;> trivial
  body := by
    intro σ stage sound here
    cases inside : stage.inside with
    | true => exact sound_inside injective inside sound here
    | false =>
      have flags : OnlyFlags σ (body env σ stage).1 := body_outside env inside
      refine ⟨?_, ?_, ?_⟩
      · rw [program, flags.decided]
        exact sound.decided
      · rw [program, flags.decided, flags.staged]
        exact sound.staged
      · rw [program, flags.decided, flags.placed]
        exact sound.placed
  later := by
    intro σ stage sound here later isLater
    cases inside : stage.inside with
    | true => exact later_inside inside sound here isLater
    | false => exact later_outside inside isLater
  others := by
    intro σ stage other _ _ there apart
    cases inside : stage.inside with
    | false => exact others_outside inside there
    | true =>
      have outside : other.inside = false := apart inside
      cases other <;> cases outside <;> trivial

/-- Whatever the network answers and however the calls interleave, each file a
swap puts in place is an entry of a tarball named, for this platform, by a
manifest whose exact bytes verify under a trusted key, of this channel, newer
than the running version and than the one skipped when it was decided on. -/
theorem placed_signed (env : Env Key Db)
    (injective : Function.Injective env.codec.sha256) (σ : Shared Db)
    (unstaged : σ.staged = none) (noDecisions : σ.decided = [])
    (noFiles : σ.placed = []) (moves : List (Calls.Move Call))
    (reached : Calls.Table (Shared Db) Call Stage)
    (ran : (Calls.machine (program env)).run ⟨σ, 0, []⟩ moves = some reached)
    (p : Place) (content : Bytes)
    (placed : (p, content) ∈ reached.shared.placed) :
    ∃ dec ∈ reached.shared.decided, Justified env dec ∧ FromRelease env dec.manifest p content := by
  have start : Sound env σ := by
    refine ⟨?_, ?_, ?_⟩
    · rw [noDecisions]
      exact fun _ member => nomatch member
    · rw [unstaged]
      rintro _ ⟨⟩
    · rw [noFiles]
      exact fun _ member => nomatch member
  have held := (Calls.guarded_run (program_respects env) (program_keeps injective) start ran).2
  obtain ⟨dec, member, release⟩ := held.shared.placed (p, content) placed
  exact ⟨dec, member, held.shared.decided dec member, release⟩

end Run

/-! ### A run that installs -/

/-- A text for each byte sequence, and no two share one. -/
def byteText (bytes : Bytes) : String := String.ofList (bytes.map Char.ofUInt8)

theorem byteText_injective : Function.Injective byteText := by
  intro first second same
  refine map_injective_iff.mpr ?_ (String.ofList_injective same)
  intro b c equal
  exact UInt8.toUInt32_inj.mp (congrArg Char.val equal)

def newTarball : Bytes := replicate 64 48

def newManifest : Manifest where
  schema := 1
  channel := "stable"
  version := "2.0.0"
  published := 0
  minFrom := ""
  assets := [⟨"linux", "amd64", "tarball", "riftroute_2.0.0_linux_amd64.tar.gz",
    byteText newTarball, 64⟩]

def signedEnv : Env Unit Unit where
  guard := ⟨"1.9.0", true, false, fun _ => some 1, fun _ => some 1⟩
  channel := "stable"
  goos := "linux"
  goarch := "amd64"
  selfUpdatable := true
  trusted key := if key = "release" then some () else none
  codec :=
    { parseSignature := fun sig =>
        if sig = [1] then some ⟨"release", "ed25519", "code"⟩ else none
      decodeBase64 := fun _ => some (replicate 64 1)
      verifies := fun _ raw _ => raw = [2]
      parseManifest := fun _ => some newManifest
      allowedAssetURL := fun _ => true
      sha256 := byteText }
  untar _ := some [⟨"./riftrouted", true, [7]⟩, ⟨"openvpn", true, [8]⟩]

def idleState : Persisted where
  bucket := 40
  lastAdvice := ⟨"", 0, false⟩
  skip := "1.9.5"
  rolledBackFrom := ""
  rolledBackBy := ""
  rollbackError := ""
  swapOf _ := none

def idleUpdater : Shared Unit where
  busy := false
  queued := false
  mode := .auto
  wantNow := false
  wantMode := .auto
  installing := false
  rollback := false
  staged := none
  staging _ _ := none
  ps := idleState
  disk := ⟨fun _ => some [5], fun _ => none, (), none, false, false, none, none, idleState⟩
  decided := []
  placed := []

/-- The server answers, everything is quiet and every write succeeds. -/
def goodAnswers : Answers where
  cancelled := false
  first := ⟨.answer (some [2]) (some [1]) ⟨100, false⟩, .failed, 0⟩
  staging := ⟨some newTarball, true, .passed, false⟩
  quiet := true
  second := ⟨.answer (some [2]) (some [1]) ⟨100, false⟩, .failed, 0⟩
  quiesced := true
  swap := replicate 12 true

/-- A periodic check, section by section. -/
def periodicMoves : List (Calls.Move Call) :=
  .begin (.periodic goodAnswers) :: replicate 10 (.advance 0)

theorem periodicMoves_installs :
    ∃ reached, (Calls.machine (program signedEnv)).run ⟨idleUpdater, 0, []⟩
        periodicMoves = some reached ∧
      (Place.daemon, [7]) ∈ reached.shared.placed ∧
      ∃ dec ∈ reached.shared.decided, Justified signedEnv dec ∧
        FromRelease signedEnv dec.manifest .daemon [7] := by
  have installs : ((Calls.machine (program signedEnv)).run ⟨idleUpdater, 0, []⟩
      periodicMoves).any fun reached =>
        (Place.daemon, [7]) ∈ reached.shared.placed := by
    decide +kernel
  obtain ⟨reached, ran, placed⟩ := Option.any_eq_true _ _ |>.mp installs
  have member : (Place.daemon, [7]) ∈ reached.shared.placed := of_decide_eq_true placed
  exact ⟨reached, ran, member, placed_signed signedEnv byteText_injective
    idleUpdater rfl rfl rfl periodicMoves reached ran .daemon [7] member⟩

/-- A computer's install: the running version, the one kept for a rollback, and
the state file's skipped version.  The versions recorded as skipped so far and
the decisions to install, each with what was recorded then, are its history. -/
structure Installation where
  running : String
  previous : Option String
  skip : String
  recorded : List String
  offers : List (String × List String)
deriving DecidableEq

inductive InstallEvent
  /-- A job, of any kind, decides on a manifest; if it is to install it, staging
  may find the release broken. -/
  | job (rules : DecideInput) (broken : Bool)
  /-- A release decided on is swapped in and restarted into. -/
  | swap (version : String)
  | rollback
  | restart

/-- A version left for good is recorded as the skipped one. -/
def Installation.skips (s : Installation) (version : String) : Installation :=
  { s with skip := version, recorded := s.recorded ++ [version] }

/-- What a job decides: the rules see the running and the skipped version. -/
def Installation.decides (s : Installation) (rules : DecideInput) : Decision :=
  decideUpdate { rules with current := s.running, skip := s.skip }

/-- What happens to an install.  Every state write succeeds. -/
def installs : Machine Installation InstallEvent where
  step s
    | .job rules broken =>
      if (s.decides rules).action = .install then
        let version := rules.manifest.version
        let s := { s with offers := s.offers ++ [(version, s.recorded)] }
        some (if broken then s.skips version else s)
      else some s
    | .swap version =>
      if version ∈ s.offers.map Prod.fst then
        some { s with running := version, previous := some s.running }
      else none
    | .rollback => s.previous.map fun previous =>
        { s.skips s.running with running := previous, previous := none }
    | .restart => some s

/-! ### The jobs behind it -/

section Jobs

variable {env : Env Key Db} {σ : Shared Db} {a : Answers} {f : Fetched}
  {kind : JobKind}

theorem decides_with_state {after : Shared Db}
    (fetched : fetchSection env kind a σ = (after, some (.decide kind a f))) :
    after.ps = after.disk.state := by
  unfold fetchSection at fetched
  split at fetched
  · cases fetched
  split at fetched <;> cases fetched
  rfl

theorem install_decides {s : Installation} (running : s.running = env.current)
    (skips : s.skip = σ.ps.skip)
    (install : (decideSection env kind a f σ).2 = some (.stage a f)) :
    (s.decides (decideInput env σ f kind)).action = .install := by
  unfold Installation.decides
  rw [running, skips]
  unfold decideSection at install
  split at install
  · next decided =>
    unfold decide at decided
    dsimp only at decided
    split at decided
    · cases decided
    exact decided
  · cases install

end Jobs

/-! ### Versions -/

theorem newer_eq_true_iff {a b : String} :
    newer a b = true ↔ ∃ x y, parseSemver a = some x ∧ parseSemver b = some y ∧
      (x.1 < y.1 ∨ x.1 = y.1 ∧ (x.2.1 < y.2.1 ∨ x.2.1 = y.2.1 ∧ x.2.2 < y.2.2)) := by
  unfold newer
  split
  · next x y z x' y' z' left right =>
    simp only [left, right, Option.some.injEq]
    split
    · simp; omega
    · split
      · simp; omega
      · split
        · simp; omega
        · simp; omega
  · next unread =>
    simp only [Bool.false_eq_true, false_iff]
    rintro ⟨⟨a, b, c⟩, ⟨x, y, z⟩, left, right, -⟩
    exact unread a b c x y z left right

theorem newer_of_newer {low high candidate : String} (reads : (parseSemver low).isSome)
    (above : newer high low = false) (newerHigh : newer high candidate = true) :
    newer low candidate = true := by
  obtain ⟨x, y, isHigh, isCandidate, less⟩ := newer_eq_true_iff.mp newerHigh
  obtain ⟨l, isLow⟩ := Option.isSome_iff_exists.mp reads
  refine newer_eq_true_iff.mpr ⟨l, y, isLow, isCandidate, ?_⟩
  have notBelow : ¬ (x.1 < l.1 ∨ x.1 = l.1 ∧ (x.2.1 < l.2.1 ∨ x.2.1 = l.2.1 ∧ x.2.2 < l.2.2)) :=
    fun below => Bool.eq_false_iff.mp above (newer_eq_true_iff.mpr ⟨x, l, isHigh, isLow, below⟩)
  omega

/-! ### What is remembered -/

/-- The skipped version is a version, and is not older than any recorded. -/
structure Remembers (s : Installation) : Prop where
  skips : s.recorded ≠ [] → s.skip ≠ "" ∧ (parseSemver s.skip).isSome
  covers : ∀ v ∈ s.recorded, ∀ w, newer s.skip w = true → newer v w = true
  offered : ∀ offer ∈ s.offers, offer.1 ∉ offer.2

/-- A rollback leaves a version, and not one older than the skipped one. -/
def Upward (s : Installation) : InstallEvent → Prop
  | .rollback => (parseSemver s.running).isSome ∧ newer s.running s.skip = false
  | _ => True

instance (s : Installation) : DecidablePred (Upward s) := fun e => by
  unfold Upward
  split <;> infer_instance

theorem not_newer_of_newer {a b : String} (above : newer a b = true) : newer b a = false := by
  obtain ⟨x, y, isA, isB, less⟩ := newer_eq_true_iff.mp above
  rw [Bool.eq_false_iff, ne_eq, newer_eq_true_iff]
  rintro ⟨y', x', isB', isA', more⟩
  obtain rfl := Option.some.inj (isA.symm.trans isA')
  obtain rfl := Option.some.inj (isB.symm.trans isB')
  omega

theorem ne_empty_of_reads {v : String} (reads : (parseSemver v).isSome) : v ≠ "" := by
  rintro rfl
  exact absurd reads (by decide)

theorem Remembers.skip {s : Installation} (remembers : Remembers s) {version : String}
    (reads : (parseSemver version).isSome)
    (upward : s.recorded ≠ [] → newer version s.skip = false) :
    Remembers (s.skips version) where
  skips := fun _ => ⟨ne_empty_of_reads reads, reads⟩
  covers := by
    intro v member w above
    rcases mem_append.mp member with before | last
    · have some := ne_nil_of_mem before
      exact remembers.covers v before w
        (newer_of_newer (remembers.skips some).2 (upward some) above)
    · obtain rfl := mem_singleton.mp last
      exact above
  offered := remembers.offered

theorem remembers_step {s next : Installation} {e : InstallEvent} (remembers : Remembers s)
    (upward : Upward s e) (stepped : installs.step s e = some next) : Remembers next := by
  cases e with
  | job rules broken =>
    simp only [installs] at stepped
    split at stepped
    case isTrue install =>
      obtain ⟨⟨isNewer, unskipped⟩, -⟩ := decideUpdate_install install
      obtain ⟨_, _, -, reads, -⟩ := newer_eq_true_iff.mp isNewer
      have allowed : s.recorded ≠ [] → newer s.skip rules.manifest.version = true :=
        fun some => unskipped.resolve_left (remembers.skips some).1
      have kept : Remembers
          { s with offers := s.offers ++ [(rules.manifest.version, s.recorded)] } := by
        refine ⟨remembers.skips, remembers.covers, ?_⟩
        intro offer member
        rcases mem_append.mp member with before | last
        · exact remembers.offered offer before
        · obtain rfl := mem_singleton.mp last
          intro recorded
          have above := remembers.covers _ recorded _ (allowed (ne_nil_of_mem recorded))
          exact Bool.eq_false_iff.mp (not_newer_of_newer above) above
      cases stepped
      split
      · exact kept.skip (by simp [reads]) fun some => not_newer_of_newer (allowed some)
      · exact kept
    case isFalse =>
      cases stepped
      exact remembers
  | swap version =>
    simp only [installs] at stepped
    split at stepped
    · cases stepped
      exact ⟨remembers.skips, remembers.covers, remembers.offered⟩
    · cases stepped
  | rollback =>
    obtain ⟨previous, -, rfl⟩ := Option.map_eq_some_iff.mp stepped
    have kept := remembers.skip upward.1 fun _ => upward.2
    exact ⟨kept.skips, kept.covers, kept.offered⟩
  | restart =>
    cases stepped
    exact remembers

/-- A version recorded as skipped is never decided on again. -/
theorem skipped_never_offered {s reached : Installation} (fresh : s.recorded = [])
    (unasked : s.offers = []) {events : List InstallEvent}
    (along : installs.Along Upward s events) (ran : installs.run s events = some reached) :
    ∀ offer ∈ reached.offers, offer.1 ∉ offer.2 := by
  have start : Remembers s := ⟨fun some => absurd fresh some, by simp [fresh], by simp [unasked]⟩
  exact (Machine.invariant Remembers (fun _ _ _ => remembers_step) start along ran).offered

/-- The input of the rules for a release on an install that takes updates. -/
def offerOf (version : String) : DecideInput :=
  { current := "", mode := .auto, advice := none, bucket := 0, goos := "linux"
    goarch := "amd64", selfUpdatable := true, skip := ""
    manifest :=
      { schema := 1, channel := "stable", version := version, published := 0, minFrom := ""
        assets := [⟨"linux", "amd64", "tarball", "", "", 1⟩] } }

def updatedOnce : Installation := ⟨"2.0.0", some "1.0.0", "", [], []⟩

/-- 3.0.0 was broken when staged; after the user goes back from 2.0.0 it is
offered again. -/
theorem broken_release_offered_again :
    (installs.run updatedOnce [.job (offerOf "3.0.0") true, .rollback, .restart,
      .job (offerOf "3.0.0") false]).map Installation.offers =
        some [("3.0.0", []), ("3.0.0", ["3.0.0", "2.0.0"])] := by
  decide

def goesBack : List InstallEvent :=
  [.rollback, .job (offerOf "2.0.0") false, .job (offerOf "3.0.0") false]

theorem newer_offered_after_rollback :
    updatedOnce.recorded = [] ∧ ∃ reached, installs.run updatedOnce goesBack = some reached ∧
      reached.offers.map Prod.fst = ["3.0.0"] ∧ ∀ offer ∈ reached.offers, offer.1 ∉ offer.2 :=
  ⟨rfl, _, by rfl, by decide, skipped_never_offered (s := updatedOnce) rfl rfl
    (show installs.Along Upward updatedOnce goesBack by decide) (by rfl)⟩

variable {env : Env Key Db} {answers : FetchAnswers}

/-- The state file's advice, the updater's copy of it, and the version staged.
What the server last said with each version's manifest, and the versions swapped
in, with whether the server's last word on them was halt, are the history. -/
structure Advised where
  last : LastAdvice
  cached : LastAdvice
  staged : Option String
  word : String → Option Advice
  swaps : List (String × Bool)

def Advised.halted (s : Advised) (version : String) : Bool := (s.word version).any Advice.halt

/-- What a decision goes by beside the fetched release, and whether the user's
request waives the rollout. -/
structure Rules where
  input : DecideInput
  waived : Bool

/-- How an install ends after its last look: it must wait, the staged files
changed, or they are swapped in. -/
inductive InstallEnd
  | waits
  | changed
  | failed
  | swapped

inductive AdvisedEvent
  /-- Fetch, decide, and stage what is to be installed. -/
  | check (answers : FetchAnswers) (rules : Rules) (stages : Bool)
  /-- The last look at what is staged, and the swap. -/
  | install (answers : FetchAnswers) (rules : Rules) (ends : InstallEnd)
  /-- A restart, also into a rollback. -/
  | restart

/-- The server's advice is remembered; a GitHub copy is judged by it. -/
def Advised.fetch (env : Env Key Db) (answers : FetchAnswers) (s : Advised) :
    Advised × Except FetchError Fetched :=
  match fromServer env answers.server with
  | some (m, advice, raw, sig) =>
    ({ s with
        last := ⟨m.version, advice.rolloutPercent, advice.halt⟩
        word := Function.update s.word m.version (some advice) },
      .ok ⟨m, raw, sig, some advice, false⟩)
  | none =>
    match fromGitHub env answers.gitHub with
    | some (m, raw, sig) => (s, .ok (gitHubCopy s.last answers.now m raw sig))
    | none =>
      if answers.server.isNotFound ∧ answers.gitHub.isNotFound then (s, .error .noRelease)
      else (s, .error .failed)

def Rules.installs (r : Rules) (f : Fetched) : Bool :=
  (decideUpdate { r.input with
    manifest := f.manifest
    advice := if r.waived then f.advice.map fun a => ⟨100, a.halt⟩ else f.advice }).action
      = .install && !f.hold

def Advised.drop (s : Advised) : Advised := { s with staged := none }

def Advised.ends (s : Advised) (version : String) : InstallEnd → Advised
  | .waits => s
  | .changed => s.drop
  | .failed => { s with swaps := s.swaps ++ [(version, s.halted version)] }
  | .swapped => { s.drop with swaps := s.swaps ++ [(version, s.halted version)] }

/-- The jobs of one install.  Every state write succeeds. -/
def advised (env : Env Key Db) : Machine Advised AdvisedEvent where
  step s
    | .check answers rules stages =>
      match s.fetch env answers with
      | (s, .error .noRelease) => some { s.drop with cached := s.last }
      | (s, .error .failed) => some { s with cached := s.last }
      | (s, .ok f) =>
        let s := { s with cached := s.last }
        if !rules.installs f then some s.drop
        else if stages then some { s with staged := some f.manifest.version }
        else if (f.manifest.asset env.goos env.goarch "tarball").isNone then some s
        else some s.drop
    | .install answers rules ends => s.staged.map fun version =>
      match s.fetch env answers with
      | (s, .error _) =>
        -- neither source answers: the server's last word decides
        if s.cached.version = version ∧ s.cached.halt then s.drop else s.ends version ends
      | (s, .ok f) =>
        if f.manifest.version = version ∧ rules.installs f then s.ends version ends else s.drop
    | .restart => some { s.drop with cached := s.last }

/-! ### The jobs behind it -/

theorem fetch_agrees {σ : Shared Db} {s : Advised} (last : s.last = σ.disk.state.lastAdvice) :
    (s.fetch env answers).1.last = (fetch env answers σ).1.disk.state.lastAdvice ∧
      (s.fetch env answers).2 = (fetch env answers σ).2 := by
  unfold Advised.fetch fetch
  cases fromServer env answers.server with
  | some served => exact ⟨rfl, rfl⟩
  | none =>
    cases fromGitHub env answers.gitHub with
    | some copy =>
      exact ⟨last, congrArg (fun advice =>
        Except.ok (gitHubCopy advice answers.now copy.1 copy.2.1 copy.2.2)) last⟩
    | none =>
      dsimp only
      split <;> exact ⟨last, rfl⟩

theorem decide_agrees {σ : Shared Db} {f : Fetched} {kind : JobKind} :
    Rules.installs ⟨decideInput env σ f kind, kind = .install ∨ σ.wantNow⟩ f = true ↔
      (decide env σ f kind).action = .install := by
  have rules : Rules.installs ⟨decideInput env σ f kind, kind = .install ∨ σ.wantNow⟩ f =
      ((decideUpdate (decideInput env σ f kind)).action = .install && !f.hold) := by
    cases kind <;> cases wanted : σ.wantNow <;> simp [Rules.installs, decideInput, wanted]
  rw [rules, decide]
  cases f.hold with
  | false => simp
  | true =>
    simp only [Bool.not_true, Bool.and_false, Bool.false_eq_true, and_true, false_iff]
    split
    · simp
    · next other => exact other

/-! ### What is remembered of a halt -/

/-- A halt of the remembered version is remembered, nothing halted is staged, and
nothing halted was swapped in. -/
structure Obeys (s : Advised) : Prop where
  remembered : s.halted s.last.version = true → s.last.halt = true
  staged : ∀ v, s.staged = some v → s.halted v = false
  swaps : ∀ swap ∈ s.swaps, swap.2 = false

/-- A GitHub copy that is past its grace is of the version last advised on, or of
one the server's last word on which was not halt. -/
def Remembered (env : Env Key Db) (s : Advised) (answers : FetchAnswers) : Prop :=
  (fromServer env answers.server).isNone → ∀ copy ∈ fromGitHub env answers.gitHub,
    s.last.version = copy.1.version ∨ answers.now - copy.1.published < fallbackGrace ∨
      s.halted copy.1.version = false

def RemembersHalt (env : Env Key Db) (s : Advised) : AdvisedEvent → Prop
  | .check answers _ _ | .install answers _ _ => Remembered env s answers
  | .restart => True

instance (s : Advised) : Decidable (Remembered env s answers) :=
  inferInstanceAs (Decidable (_ → ∀ copy ∈ fromGitHub env answers.gitHub, _ ∨ _ ∨ _))

instance (s : Advised) : DecidablePred (RemembersHalt env s) := fun e => by
  unfold RemembersHalt
  split <;> infer_instance

theorem unhalted_of_installs {r : Rules} {f : Fetched} (install : r.installs f = true) :
    f.hold = false ∧ ∀ advice ∈ f.advice, advice.halt = false := by
  simp only [Rules.installs, Bool.and_eq_true, decide_eq_true_eq, Bool.not_eq_true'] at install
  refine ⟨install.2, fun advice given => ?_⟩
  have unhalted := (decideUpdate_install install.1).2.2.2
  cases waived : r.waived with
  | false => exact unhalted advice (by simpa [waived] using given)
  | true =>
    refine unhalted ⟨100, advice.halt⟩ ?_
    simpa [waived] using ⟨advice, given, rfl⟩

theorem Obeys.fetch {s after : Advised} {f : Fetched} (obeys : Obeys s)
    (remembers : Remembered env s answers) (fetched : s.fetch env answers = (after, .ok f)) :
    (after.halted after.last.version = true → after.last.halt = true) ∧
      after.staged = s.staged ∧ after.swaps = s.swaps ∧
      (∀ v, v ≠ f.manifest.version → after.halted v = s.halted v) ∧
      ∀ r : Rules, r.installs f = true → after.halted f.manifest.version = false := by
  unfold Advised.fetch at fetched
  cases served : fromServer env answers.server with
  | some answer =>
    simp only [served, Prod.mk.injEq, Except.ok.injEq] at fetched
    obtain ⟨rfl, rfl⟩ := fetched
    refine ⟨by simp [Advised.halted], rfl, rfl, fun v other => ?_, fun r install => ?_⟩
    · simp [Advised.halted, Function.update_of_ne other]
    · simpa [Advised.halted] using (unhalted_of_installs install).2 answer.2.1 rfl
  | none =>
    cases copied : fromGitHub env answers.gitHub with
    | some copy =>
      simp only [served, copied, Prod.mk.injEq, Except.ok.injEq] at fetched
      obtain ⟨rfl, rfl⟩ := fetched
      refine ⟨obeys.remembered, rfl, rfl, fun _ _ => rfl, fun r install => ?_⟩
      have unhalted := unhalted_of_installs install
      unfold gitHubCopy at unhalted ⊢
      split
      · next same =>
        rw [if_pos same] at unhalted
        have notHalt := unhalted.2 _ rfl
        rw [Bool.eq_false_iff]
        intro halted
        exact absurd (obeys.remembered (same ▸ halted)) (Bool.eq_false_iff.mp notHalt)
      · next other =>
        rw [if_neg other] at unhalted
        have past := of_decide_eq_false unhalted.1
        exact ((remembers (by simp [served]) copy copied).resolve_left other).resolve_left past
    | none =>
      simp only [served, copied] at fetched
      split at fetched <;> cases fetched

theorem fetch_error {s after : Advised} {e : FetchError}
    (fetched : s.fetch env answers = (after, .error e)) : after = s := by
  unfold Advised.fetch at fetched
  split at fetched
  · cases fetched
  split at fetched
  · cases fetched
  split at fetched <;> cases fetched <;> rfl

theorem Obeys.drop {s : Advised} (remembered : s.halted s.last.version = true → s.last.halt = true)
    (swaps : ∀ swap ∈ s.swaps, swap.2 = false) : Obeys s.drop :=
  ⟨remembered, by simp [Advised.drop], swaps⟩

theorem Obeys.ends {s : Advised} (obeys : Obeys s) {version : String}
    (staged : s.staged = some version) (e : InstallEnd) : Obeys (s.ends version e) := by
  have swapped : ∀ swap ∈ s.swaps ++ [(version, s.halted version)], swap.2 = false := by
    simpa [List.forall_mem_append, obeys.staged version staged] using obeys.swaps
  cases e with
  | waits => exact obeys
  | changed => exact .drop obeys.remembered obeys.swaps
  | failed => exact ⟨obeys.remembered, obeys.staged, swapped⟩
  | swapped => exact ⟨obeys.remembered, by simp [Advised.ends, Advised.drop], swapped⟩

theorem obeys_step {s next : Advised} {e : AdvisedEvent} (obeys : Obeys s)
    (remembers : RemembersHalt env s e) (stepped : (advised env).step s e = some next) :
    Obeys next := by
  cases e with
  | restart =>
    cases stepped
    exact ⟨obeys.remembered, by simp [Advised.drop], obeys.swaps⟩
  | check answers rules stages =>
    simp only [advised] at stepped
    split at stepped
    case h_1 fetched =>
      obtain rfl := fetch_error fetched
      cases stepped
      exact ⟨obeys.remembered, by simp [Advised.drop], obeys.swaps⟩
    case h_2 fetched =>
      obtain rfl := fetch_error fetched
      cases stepped
      exact ⟨obeys.remembered, obeys.staged, obeys.swaps⟩
    case h_3 after f fetched =>
      obtain ⟨remembered, sameStaged, sameSwaps, others, judged⟩ := obeys.fetch remembers fetched
      have swaps : ∀ swap ∈ after.swaps, swap.2 = false := sameSwaps ▸ obeys.swaps
      split at stepped
      · cases stepped
        exact ⟨remembered, by simp [Advised.drop], swaps⟩
      next install =>
        have unhalted := judged rules (by simpa using install)
        split at stepped
        · cases stepped
          exact ⟨remembered, fun v isStaged => Option.some.inj isStaged ▸ unhalted, swaps⟩
        split at stepped <;> cases stepped
        · refine ⟨remembered, fun v isStaged => ?_, swaps⟩
          by_cases same : v = f.manifest.version
          · exact same ▸ unhalted
          · exact (others v same).trans (obeys.staged v (sameStaged ▸ isStaged))
        · exact ⟨remembered, by simp [Advised.drop], swaps⟩
  | install answers rules ends =>
    obtain ⟨version, isStaged, rfl⟩ := Option.map_eq_some_iff.mp stepped
    split
    case h_1 fetched =>
      obtain rfl := fetch_error fetched
      split
      · exact .drop obeys.remembered obeys.swaps
      · exact obeys.ends isStaged ends
    case h_2 after f fetched =>
      obtain ⟨remembered, sameStaged, sameSwaps, -, judged⟩ := obeys.fetch remembers fetched
      have swaps : ∀ swap ∈ after.swaps, swap.2 = false := sameSwaps ▸ obeys.swaps
      split
      · next wanted =>
        have staged : after.staged = some version := sameStaged.trans isStaged
        refine Obeys.ends ⟨remembered, fun v stagedToo => ?_, swaps⟩ staged ends
        obtain rfl := Option.some.inj (staged.symm.trans stagedToo)
        exact wanted.1 ▸ judged rules wanted.2
      · exact .drop remembered swaps

/-- No version is swapped in whose last word from the server was halt. -/
theorem halt_obeyed {s reached : Advised} (unheard : s.word = fun _ => none)
    (nothing : s.staged = none) (fresh : s.swaps = []) {events : List AdvisedEvent}
    (along : (advised env).Along (RemembersHalt env) s events)
    (ran : (advised env).run s events = some reached) : ∀ swap ∈ reached.swaps, swap.2 = false := by
  have start : Obeys s := ⟨by simp [Advised.halted, unheard], by simp [nothing], by simp [fresh]⟩
  exact (Machine.invariant Obeys (fun _ _ _ => obeys_step) start along ran).swaps

/-- Releases are their version's digit, all signed. -/
def anySigned : Env Unit Unit :=
  { signedEnv with
    codec := { signedEnv.codec with
      verifies := fun _ _ _ => true
      parseManifest := fun raw =>
        some { newManifest with version := if raw = [3] then "3.0.0" else "2.0.0" } } }

def noAdvice : Advised := ⟨⟨"", 0, false⟩, ⟨"", 0, false⟩, none, fun _ => none, []⟩

def byDefault : Rules :=
  ⟨decideInput signedEnv idleUpdater ⟨newManifest, [], [], none, false⟩ .auto, false⟩

def serverSays (release : UInt8) (halt : Bool) : FetchAnswers :=
  ⟨.answer (some [release]) (some [1]) ⟨100, halt⟩, .failed, 0⟩

/-- GitHub's 2.0.0, long past its grace, while the server is unreachable. -/
def onlyGitHub : FetchAnswers := ⟨.failed, .answer [2] [1], 2 * fallbackGrace⟩

/-- The server halts 2.0.0 and then serves 3.0.0, which is not staged; the halt
of 2.0.0 is forgotten. -/
theorem halted_release_swapped_in :
    ((advised anySigned).run noAdvice [.check (serverSays 2 true) byDefault true,
      .check (serverSays 3 false) byDefault false, .check onlyGitHub byDefault true,
      .install onlyGitHub byDefault .swapped]).map Advised.swaps = some [("2.0.0", true)] := by
  decide

/-- The halt is remembered while the server is unreachable; once it is lifted the
release is installed. -/
def haltLifted : List AdvisedEvent :=
  [.check (serverSays 2 true) byDefault true, .check onlyGitHub byDefault true,
    .check (serverSays 2 false) byDefault true, .install onlyGitHub byDefault .swapped]

theorem unhalted_release_swapped_in :
    noAdvice.staged = none ∧ ∃ reached, (advised anySigned).run noAdvice haltLifted = some reached ∧
      reached.swaps.map Prod.fst = ["2.0.0"] ∧ ∀ swap ∈ reached.swaps, swap.2 = false :=
  ⟨rfl, _, by rfl, by decide, halt_obeyed (s := noAdvice) rfl rfl rfl
    (show (advised anySigned).Along (RemembersHalt anySigned) noAdvice haltLifted by decide)
    (by rfl)⟩

end Updater

end RiftRoute
