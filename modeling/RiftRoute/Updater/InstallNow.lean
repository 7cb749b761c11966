/-
Module: RiftRoute.Updater.InstallNow
Purpose: "Install now" beside other jobs.  The request is one flag, which a job
  that installs nothing clears after its decision; the job that serves it is the
  one queued for it, or the one that was waiting already.
Trusted boundary: human-reviewed spec
Main exports: requested, Serves
-/
import RiftRoute.Updater.Remembered

namespace RiftRoute.Updater

variable {Key Db : Type}

/-- What the status says: an error, or a decision, and whether the user's request
was seen when it was made. -/
inductive Report
  | error
  | verdict (action : Action) (asked : Bool)
deriving DecidableEq

/-- The status says that there is nothing to install, that it is held back, why it
cannot be installed here, or that something failed. -/
def Report.answers : Report → Bool
  | .error => true
  | .verdict action asked => action = .none || action = .hold || (action = .notify && asked)

/-- The status names a release to install. -/
def Report.installs : Report → Bool
  | .verdict .install _ => true
  | _ => false

/-- Where a job that holds the lock is. -/
inductive Point
  | unqueue
  | fetch
  | decide (f : Fetched)
  | dismiss
  | stage (f : Fetched)
  | install
  | look (s : StagedRelease)
  | swap

/-- A job, queued or running, and whether an accepted request relies on it. -/
structure Served where
  kind : JobKind
  serves : Bool

/-- What is left when a serving job has ended. -/
structure Ending where
  installing : Bool
  report : Report
  staged : Bool
  want : Bool
deriving DecidableEq

def Ending.served (e : Ending) : Bool := e.installing || e.report.answers || (e.staged && e.want)

/-- Or the last look found another release to install, and the request is still
recorded. -/
def Ending.kept (e : Ending) : Bool :=
  e.served || (e.report.installs && e.want)

/-- The last look's verdict on a staged release that is dropped. -/
def lookVerdict (env : Env Key Db) (answers : FetchAnswers) (σ : Shared Db) : Report :=
  match fetch env answers σ with
  | (_, .error _) => .verdict .hold σ.wantNow
  | (σ, .ok f) => .verdict (decide env σ f .auto).action σ.wantNow

/-- The end of an install after its last look. -/
def swapEnd (σ : Shared Db) (report : Report) : InstallEnd → Shared Db × Report
  | .waits => (σ, report)
  | .changed => (σ.dropStaged, .error)
  | .failed => (σ, .error)
  | .swapped => ({ σ with installing := true, staged := none, wantNow := false }, report)

/-- One step of a job: the state, the status, and where it goes on.  A release
decided on has a tarball, so staging that fails reports it. -/
def advance (env : Env Key Db) (a : Answers) (ends : InstallEnd) (kind : JobKind) (report : Report)
    (σ : Shared Db) : Point → (Shared Db × Report) × Option Point
  | .unqueue => ((σ, report), some .fetch)
  | .fetch =>
    match fetch env a.first σ with
    | (σ, .error .noRelease) => ((σ.reload, .verdict .none σ.wantNow), some .dismiss)
    | (σ, .error .failed) => ((σ.reload, .error), none)
    | (σ, .ok f) => ((σ.reload, report), some (.decide f))
  | .decide f =>
    let action := (decide env σ f kind).action
    ((σ, .verdict action (kind = .install ∨ σ.wantNow)),
      some (if action = .install then .stage f else .dismiss))
  | .dismiss => ((σ.dropStaged.clearWant, report), none)
  | .stage f =>
    match stage env a.staging f.manifest σ with
    | (σ, true) => ((σ, report), some .install)
    | (σ, false) => ((σ, .error), none)
  | .install =>
    match installSection env a σ with
    | (σ, some (.stillWanted _ s)) => ((σ, report), some (.look s))
    | (σ, _) => ((σ, report), none)
  | .look s =>
    match stillWanted env a.second s.version σ with
    | (after, true) => ((after, report), some .swap)
    | (after, false) => ((after, lookVerdict env a.second σ), none)
  | .swap => (swapEnd σ report ends, none)

/-- The updater, the calls of `InstallNow` that have recorded the request and not
yet started a job, the job that waits for the lock, and the one that holds it. -/
structure Requested (Db : Type) where
  shared : Shared Db
  requesting : Nat
  waiting : Option Served
  running : Option (Served × Point)
  report : Report
  ended : List Ending

inductive RequestEvent
  | request
  | startInstall
  | checkNow
  | lockQueued
  | periodic
  | idle
  | advance (a : Answers) (ends : InstallEnd)

def endingOf (after : Shared Db × Report) : Ending :=
  ⟨after.1.installing, after.2, after.1.staged.isSome, after.1.wantNow⟩

def Requested.goesOn (s : Requested Db) (job : Served) (after : Shared Db × Report) :
    Option Point → Requested Db
  | some point => { s with shared := after.1, report := after.2, running := some (job, point) }
  | none =>
    { s with
      shared := after.1
      report := after.2
      running := none
      ended := if job.serves then s.ended ++ [endingOf after] else s.ended }

/-- What a running updater does.  The mode stays what it is. -/
def requested (env : Env Key Db) : Machine (Requested Db) RequestEvent where
  step s
    | .request =>
      if env.selfUpdatable ∧ isRelease env.current then some { s with
        shared := { s.shared with wantNow := true, wantMode := s.shared.mode }
        requesting := s.requesting + 1 }
      else none
    | .startInstall =>
      -- a job that waits already will see the request
      if s.requesting = 0 then none else some { s with
        requesting := s.requesting - 1
        waiting := some ⟨(s.waiting.map Served.kind).getD .install, true⟩ }
    | .checkNow => some { s with waiting := some (s.waiting.getD ⟨.manual, false⟩) }
    | .lockQueued =>
      if s.running.isNone then
        s.waiting.map fun job => { s with running := some (⟨job.kind, false⟩, .unqueue) }
      else none
    | .periodic =>
      if s.running.isNone then some { s with running := some (⟨.auto, false⟩, .fetch) } else none
    | .idle =>
      if s.running.isNone then some { s with running := some (⟨.auto, false⟩, .install) }
      else none
    | .advance a ends =>
      match s.running with
      | none => none
      | some (job, .unqueue) =>
        some { s with waiting := none, running := some (s.waiting.getD job, .fetch) }
      | some (job, point) =>
        let next := Updater.advance env a ends job.kind s.report s.shared point
        if a.cancelled then none else some (s.goesOn job next.1 next.2)

/-! ### What a step leaves of the request -/

section Steps

variable (env : Env Key Db) (a : Answers) (ends : InstallEnd) (kind : JobKind) (report : Report)
  {σ : Shared Db} {point : Point}

/-- The request, the modes, and whether a restart is due. -/
def Shared.flags (σ : Shared Db) : Bool × UpdateMode × UpdateMode × Bool :=
  (σ.wantNow, σ.wantMode, σ.mode, σ.installing)

theorem fetch_flags (answers : FetchAnswers) : (fetch env answers σ).1.flags = σ.flags := by
  unfold fetch
  split
  · rfl
  · split
    · rfl
    · split <;> rfl

theorem stage_flags (answers : StageAnswers) (m : Manifest) :
    (stage env answers m σ).1.flags = σ.flags := by
  have failed : ∀ skip, (stageFailed m skip σ.dropStaged).flags = σ.flags := by
    intro skip
    cases skip <;> rfl
  unfold stage
  split
  · rfl
  · split
    · rfl
    · dsimp only
      repeat' split
      all_goals first | rfl | exact failed _

theorem staged_of_stage (answers : StageAnswers) (m : Manifest)
    (ok : (stage env answers m σ).2 = true) : (stage env answers m σ).1.staged.isSome := by
  unfold stage at ok ⊢
  split
  · next found => exact Option.isSome_of_any found
  · next absent =>
    rw [if_neg absent] at ok
    revert ok
    repeat' split
    all_goals simp

theorem stillWanted_staged (answers : FetchAnswers) (version : String)
    (wanted : (stillWanted env answers version σ).2 = true) :
    (stillWanted env answers version σ).1.staged = σ.staged := by
  have kept : (fetch env answers σ).1.staged = σ.staged := by
    unfold fetch
    repeat' split
    all_goals rfl
  unfold stillWanted at wanted ⊢
  split <;> next fetched =>
    rw [fetched] at kept
    simp only [fetched] at wanted
    split
    · next dropped => rw [if_pos dropped] at wanted; cases wanted
    · exact kept

theorem stillWanted_flags (answers : FetchAnswers) (version : String) :
    (stillWanted env answers version σ).1.flags = σ.flags := by
  have kept := fetch_flags (σ := σ) env answers
  unfold stillWanted
  split <;> next fetched =>
    rw [fetched] at kept
    split <;> exact kept

/-- The request was made in the present mode. -/
def Timely (σ : Shared Db) : Prop := σ.wantNow = true → σ.wantMode = σ.mode

theorem cancelWant_of_timely (timely : Timely σ) : σ.cancelWant = σ := by
  unfold Shared.cancelWant
  split
  · next late => exact absurd (timely late.1 ▸ late.2.1) late.2.2
  · rfl

theorem installSection_timely (timely : Timely σ) : (installSection env a σ).1 = σ := by
  unfold installSection
  split
  · rfl
  · split
    · rfl
    · dsimp only
      rw [cancelWant_of_timely timely]
      split <;> rfl

theorem advance_flags (timely : Timely σ) (stays : point ≠ .dismiss) :
    (advance env a ends kind report σ point).1.1.flags = σ.flags ∨
      (advance env a ends kind report σ point).1.1.installing = true ∧
        (advance env a ends kind report σ point).1.1.wantNow = false := by
  cases point with
  | unqueue | decide => exact .inl rfl
  | dismiss => exact absurd rfl stays
  | fetch =>
    have kept := fetch_flags (σ := σ) env a.first
    simp only [advance]
    split <;> next fetched =>
      rw [fetched] at kept
      exact .inl kept
  | stage f =>
    have kept := stage_flags (σ := σ) env a.staging f.manifest
    simp only [advance]
    split <;> next staged =>
      rw [staged] at kept
      exact .inl kept
  | install =>
    have same := installSection_timely env a timely
    simp only [advance]
    split <;> next started =>
      rw [started] at same
      exact .inl (congrArg Shared.flags same)
  | look s =>
    have kept := stillWanted_flags (σ := σ) env a.second s.version
    simp only [advance]
    split <;> next looked =>
      rw [looked] at kept
      exact .inl kept
  | swap =>
    cases ends with
    | waits | changed | failed => exact .inl rfl
    | swapped => exact .inr ⟨rfl, rfl⟩

theorem advance_recorded (timely : Timely σ) :
    Timely (advance env a ends kind report σ point).1.1 ∧
      (point ≠ .dismiss → σ.installing = true ∨ σ.wantNow = true →
        (advance env a ends kind report σ point).1.1.installing = true ∨
          (advance env a ends kind report σ point).1.1.wantNow = true) := by
  by_cases dismisses : point = .dismiss
  · subst dismisses
    exact ⟨fun want => Bool.noConfusion want, fun stays => absurd rfl stays⟩
  rcases advance_flags env a ends kind report timely dismisses with same | ⟨restarts, cleared⟩
  · simp only [Shared.flags, Prod.mk.injEq] at same
    simp only [Timely, same]
    exact ⟨timely, fun _ => id⟩
  · exact ⟨fun want => absurd (cleared.symm.trans want) Bool.false_ne_true,
      fun _ _ => .inl restarts⟩

/-- How a serving job stands: the request is recorded, or its answer is. -/
def Serves (σ : Shared Db) (report : Report) : Point → Prop
  | .dismiss => σ.installing = true ∨ report.answers = true
  | .install | .look _ | .swap =>
    σ.installing = true ∨ σ.wantNow = true ∧ σ.staged.isSome = true
  | _ => σ.installing = true ∨ σ.wantNow = true

theorem asked_verdict (action : Action) : (Report.verdict action true).answers = true ∨
    (Report.verdict action true).installs = true := by
  cases action <;> decide

theorem kept_iff {after : Shared Db × Report} : (endingOf after).kept = true ↔
    after.1.installing = true ∨ after.2.answers = true ∨
      after.1.wantNow = true ∧ (after.1.staged.isSome = true ∨ after.2.installs = true) := by
  simp only [endingOf, Ending.kept, Ending.served, Bool.or_eq_true, Bool.and_eq_true]
  tauto

theorem asked_look (answers : FetchAnswers) (want : σ.wantNow = true) :
    (lookVerdict env answers σ).answers = true ∨ (lookVerdict env answers σ).installs = true := by
  have kept := fetch_flags (σ := σ) env answers
  unfold lookVerdict
  split
  · rw [want]
    exact asked_verdict _
  · next fetched =>
    simp only [fetched, Shared.flags, Prod.mk.injEq] at kept
    rw [kept.1, want]
    exact asked_verdict _

/-- A serving job stands well, or has ended with the request answered or
recorded. -/
def Stands (after : Shared Db × Report) : Option Point → Prop
  | some point => Serves after.1 after.2 point
  | none => (endingOf after).kept = true

theorem serves_advance (timely : Timely σ) (serves : Serves σ report point) :
    Stands (advance env a ends kind report σ point).1
      (advance env a ends kind report σ point).2 := by
  cases point with
  | unqueue => exact serves
  | fetch =>
    have kept := fetch_flags (σ := σ) env a.first
    simp only [advance]
    generalize fetch env a.first σ = fetched at kept ⊢
    obtain ⟨after, result⟩ := fetched
    simp only [Shared.flags, Prod.mk.injEq] at kept
    match result with
    | .error .noRelease => exact .inr rfl
    | .error .failed => exact kept_iff.mpr (.inr (.inl rfl))
    | .ok f => exact serves.imp (kept.2.2.2.trans ·) (kept.1.trans ·)
  | decide f =>
    simp only [advance]
    split
    · exact serves
    · next other =>
      refine serves.imp id fun want => (asked_verdict (decide env σ f kind).action).elim ?_ ?_
      · simp [want]
      · cases action : (decide env σ f kind).action <;> simp_all [Report.installs]
  | dismiss => exact kept_iff.mpr (serves.imp id .inl)
  | stage f =>
    have kept := stage_flags (σ := σ) env a.staging f.manifest
    have staged := staged_of_stage (σ := σ) env a.staging f.manifest
    simp only [advance]
    generalize stage env a.staging f.manifest σ = ran at kept staged ⊢
    obtain ⟨after, ok⟩ := ran
    simp only [Shared.flags, Prod.mk.injEq] at kept
    cases ok with
    | false => exact kept_iff.mpr (.inr (.inl rfl))
    | true =>
      exact serves.imp (kept.2.2.2.trans ·) fun want => ⟨kept.1.trans want, staged rfl⟩
  | install =>
    have same := installSection_timely env a timely
    simp only [advance]
    generalize installSection env a σ = started at same ⊢
    obtain ⟨after, next⟩ := started
    obtain rfl : after = σ := same
    split
    · next started =>
      cases started
      exact serves
    · next started =>
      cases started
      exact kept_iff.mpr (serves.imp id fun kept => .inr ⟨kept.1, .inl kept.2⟩)
  | look s =>
    have kept := stillWanted_flags (σ := σ) env a.second s.version
    have staged := stillWanted_staged (σ := σ) env a.second s.version
    simp only [advance]
    generalize stillWanted env a.second s.version σ = looked at kept staged ⊢
    obtain ⟨after, wanted⟩ := looked
    simp only [Shared.flags, Prod.mk.injEq] at kept
    cases wanted with
    | true =>
      refine serves.imp (kept.2.2.2.trans ·) fun recorded => ⟨kept.1.trans recorded.1, ?_⟩
      rw [staged rfl]
      exact recorded.2
    | false =>
      refine kept_iff.mpr (serves.imp (kept.2.2.2.trans ·) fun recorded => ?_)
      exact (asked_look env a.second recorded.1).imp id fun other =>
        ⟨kept.1.trans recorded.1, .inr other⟩
  | swap =>
    cases ends with
    | waits => exact kept_iff.mpr (serves.imp id fun kept => .inr ⟨kept.1, .inl kept.2⟩)
    | changed | failed => exact kept_iff.mpr (.inr (.inl rfl))
    | swapped => exact kept_iff.mpr (.inl rfl)

end Steps

/-! ### Whole runs -/

/-- The endings so far are well, a request on its way to its job is recorded, and
a serving job stands well. -/
structure Keeps (s : Requested Db) : Prop where
  ended : ∀ ending ∈ s.ended, ending.kept = true
  timely : Timely s.shared
  recorded : 0 < s.requesting ∨ s.waiting.any Served.serves = true →
    s.shared.installing = true ∨ s.shared.wantNow = true
  serves : ∀ job point, s.running = some (job, point) → job.serves = true →
    Serves s.shared s.report point

def Point.dismisses : Point → Bool
  | .dismiss => true
  | _ => false

def ClearsNone (s : Requested Db) : RequestEvent → Prop
  | .advance _ _ => (s.running.any fun job => job.2.dismisses) →
      s.requesting = 0 ∧ s.waiting.any Served.serves = false
  | _ => True

instance (s : Requested Db) : DecidablePred (ClearsNone s) := fun e => by
  unfold ClearsNone
  split <;> infer_instance

variable {env : Env Key Db}

theorem Keeps.goesOn {s : Requested Db} (keeps : Keeps s) {job : Served} {point : Point}
    (isAt : s.running = some (job, point)) (clears : point = .dismiss →
      s.requesting = 0 ∧ s.waiting.any Served.serves = false) (a : Answers) (ends : InstallEnd) :
    Keeps (s.goesOn job (advance env a ends job.kind s.report s.shared point).1
      (advance env a ends job.kind s.report s.shared point).2) := by
  have stands serving := serves_advance env a ends job.kind s.report keeps.timely
    (keeps.serves job point isAt serving)
  obtain ⟨timely, recorded⟩ : _ ∧ (point ≠ .dismiss → _) :=
    advance_recorded env a ends job.kind s.report keeps.timely
  generalize advance env a ends job.kind s.report s.shared point = out at stands timely recorded ⊢
  have kept : 0 < s.requesting ∨ s.waiting.any Served.serves = true →
      out.1.1.installing = true ∨ out.1.1.wantNow = true := by
    intro pending
    refine recorded (fun dismisses => ?_) (keeps.recorded pending)
    have none := clears dismisses
    rcases pending with requesting | serving
    · omega
    · exact absurd (none.2.symm.trans serving) Bool.false_ne_true
  obtain ⟨after, _ | next⟩ := out
  · refine ⟨fun ending member => ?_, timely, kept, fun _ _ running => by cases running⟩
    cases serving : job.serves with
    | false =>
      refine keeps.ended ending ?_
      simpa [Requested.goesOn, serving] using member
    | true =>
      have recent : ending ∈ s.ended ∨ ending = endingOf after := by
        simpa [Requested.goesOn, serving] using member
      rcases recent with before | rfl
      · exact keeps.ended ending before
      · exact stands serving
  · refine ⟨keeps.ended, timely, kept, fun other point running serving => ?_⟩
    cases running
    exact stands serving

theorem keeps_step {s next : Requested Db} {e : RequestEvent} (keeps : Keeps s)
    (clears : ClearsNone s e) (stepped : (requested env).step s e = some next) : Keeps next := by
  cases e with
  | request =>
    simp only [requested] at stepped
    split at stepped <;> cases stepped
    refine ⟨keeps.ended, fun _ => rfl, fun _ => .inr rfl, fun job point running serving => ?_⟩
    have serves := keeps.serves job point running serving
    cases point with
    | dismiss => exact serves
    | install | look | swap => exact serves.imp id fun recorded => ⟨rfl, recorded.2⟩
    | _ => exact .inr rfl
  | startInstall =>
    simp only [requested] at stepped
    split at stepped <;> cases stepped
    next some =>
      exact ⟨keeps.ended, keeps.timely, fun _ => keeps.recorded (.inl (by omega)), keeps.serves⟩
  | checkNow =>
    cases stepped
    refine ⟨keeps.ended, keeps.timely, fun pending => keeps.recorded (pending.imp id ?_),
      keeps.serves⟩
    cases s.waiting with
    | none => simp
    | some job => simp
  | lockQueued =>
    simp only [requested] at stepped
    split at stepped
    · obtain ⟨job, -, rfl⟩ := Option.map_eq_some_iff.mp stepped
      exact ⟨keeps.ended, keeps.timely, keeps.recorded, by simp⟩
    · cases stepped
  | periodic | idle =>
    simp only [requested] at stepped
    split at stepped <;> cases stepped
    exact ⟨keeps.ended, keeps.timely, keeps.recorded, by simp⟩
  | advance a ends =>
    simp only [requested] at stepped
    split at stepped
    case h_1 => cases stepped
    case h_2 job isAt =>
      cases stepped
      refine ⟨keeps.ended, keeps.timely, fun pending => keeps.recorded (pending.imp id ?_), ?_⟩
      · simp
      · rintro other point ⟨rfl⟩ serving
        cases waits : s.waiting with
        | none => exact keeps.serves job .unqueue isAt (by simpa [waits] using serving)
        | some queued => exact keeps.recorded (.inr (by simpa [waits] using serving))
    case h_3 job point _ isAt =>
      split at stepped <;> cases stepped
      refine keeps.goesOn isAt (fun dismisses => clears ?_) a ends
      simp [isAt, dismisses, Point.dismisses]

/-- When a job that serves an "Install now" has ended, the release is installed,
the status answers the request, or it is still recorded. -/
theorem install_now_kept {s reached : Requested Db} (idle : s.running = none)
    (unasked : s.requesting = 0) (unqueued : s.waiting = none) (fresh : s.ended = [])
    (unwanted : s.shared.wantNow = false) {events : List RequestEvent}
    (along : (requested env).Along ClearsNone s events)
    (ran : (requested env).run s events = some reached) :
    ∀ ending ∈ reached.ended, ending.kept = true := by
  have start : Keeps s := ⟨by simp [fresh], by simp [Timely, unwanted],
    by simp [unasked, unqueued], by simp [idle]⟩
  exact (Machine.invariant Keeps (fun _ _ _ => keeps_step) start along ran).ended

def notifies : Requested Unit :=
  ⟨{ idleUpdater with mode := .notify }, 0, none, none, .verdict .none false, []⟩

/-- A job from its start to its end. -/
def wholeJob (a : Answers) (steps : Nat) : List RequestEvent :=
  .lockQueued :: List.replicate steps (.advance a .swapped)

def noneYet : Answers := { goodAnswers with first := ⟨.notFound, .notFound, 0⟩ }

/-- The last look finds 3.0.0 instead of the staged 2.0.0. -/
def superseded : Answers := { goodAnswers with second := serverSays 3 false }

/-- The staged release is dropped for another one; and a check that finds no
release clears a request recorded just before, so the release its job stages is
never installed. -/
theorem install_now_not_served :
    ((requested anySigned).run notifies
      ([.request, .startInstall] ++ wholeJob superseded 6)).map Requested.ended =
        some [⟨false, .verdict .install true, false, true⟩] ∧
    ((requested anySigned).run notifies ([.checkNow] ++ wholeJob noneYet 2 ++ [.request] ++
      [.advance noneYet .swapped, .startInstall] ++ wholeJob goodAnswers 5)).map
        Requested.ended = some [⟨false, .verdict .install true, true, false⟩] := by
  decide

def asksOnce : List RequestEvent := [.request, .startInstall] ++ wholeJob goodAnswers 7

theorem install_now_installs :
    notifies.running = none ∧ ∃ reached,
      (requested anySigned).run notifies asksOnce = some reached ∧
      reached.ended.map Ending.installing = [true] ∧
        ∀ ending ∈ reached.ended, ending.kept = true :=
  ⟨rfl, _, by rfl, by decide, install_now_kept (s := notifies) rfl rfl rfl rfl rfl
    (show (requested anySigned).Along ClearsNone notifies asksOnce by decide) (by rfl)⟩

end RiftRoute.Updater
