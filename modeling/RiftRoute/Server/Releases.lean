/-
Module: RiftRoute.Server.Releases
Purpose: The update server: one channel's releases (two files, their rollout
  advice a row of the database) and the telemetry reports it takes, each
  request section by section in any interleaving with others.
Trusted boundary: human-reviewed spec
Main exports: server, uploads
-/
import RiftRoute.Library.Machine
import RiftRoute.Updater.Manifest

namespace RiftRoute.Server

open List

open Updater (Advice newer)

/-- A signed manifest: its version, and the rest of its bytes. -/
structure Release where
  version : String
  rest : String := ""
deriving DecidableEq, Repr

/-- The advice row.  Which version was published when it was stored, and which
one its percent was chosen for, is recorded beside it. -/
structure Stored extends Advice where
  setFor : Option String
  percentFor : Option String
deriving DecidableEq, Repr

/-- A channel nobody configured is fully rolled out. -/
def unconfigured : Stored := ⟨⟨100, false⟩, none, none⟩

/-- What `PublishManifest` does next: the signature, the manifest, then the
advice. -/
inductive Stage
  | signature | manifest | rollout
deriving DecidableEq, Repr

structure Publication where
  release : Release
  rollout : Int
  sameVersion : Bool
  stage : Stage
deriving DecidableEq, Repr

/-- A channel: the manifest, the release its signature signs, the advice row,
and the publication under way.  The rest is the record of what happened: the
number of stores, whether a new version stands without its own advice, the
answers given, the halt posts that returned, and whether a halt is in force. -/
structure Site where
  raw : Option Release
  sig : Option Release
  row : Option Stored
  publication : Option Publication := none
  stores : Nat := 0
  unadvised : Bool := false
  answers : List (Release × Stored) := []
  halts : Nat := 0
  halted : Bool := false
deriving DecidableEq, Repr

/-- `st.advice`. -/
def Site.advice (s : Site) : Stored := s.row.getD unconfigured

def Site.published (s : Site) : Option String := s.raw.map Release.version

inductive PostAction
  | halt
  | resume
  | rollout (percent : Option Int)
  | other
deriving DecidableEq, Repr

inductive Request
  | update
  | post (action : PostAction)
deriving DecidableEq, Repr

/-- Where a request or the publication is.  A request knows how many halt posts
had returned when it began, a post that is about to store how many stores it
has seen. -/
inductive Task
  | begin (request : Request)
  | raw (request : Request) (began : Nat)
  | sig (request : Request) (began : Nat) (release : Release)
  | advice (request : Request) (began : Nat) (release : Release)
  | store (action : PostAction) (began : Nat) (read : Stored) (seen : Nat)
  | redirect (action : PostAction)
  | publish (release : Release) (rollout : Int)
  | publishing
deriving DecidableEq, Repr

/-- The switch of `handleReleasesPost`; `none` is a bad request. -/
def PostAction.change (published : Option String) (a : Stored) : PostAction → Option Stored
  | .halt => some { a with halt := true }
  | .resume => some { a with halt := false }
  | .rollout (some p) =>
    if p < 0 ∨ 100 < p then none
    else some { a with rolloutPercent := p, percentFor := published }
  | .rollout none => none
  | .other => none

/-- `setAdvice` by a post. -/
def Site.stored (s : Site) (action : PostAction) (began : Nat) (a : Stored) : Site :=
  { s with
    row := some { a with setFor := s.published }
    stores := s.stores + 1
    halted := if action = .resume ∧ began = s.halts then false else s.halted }

/-- `PublishManifest` up to its first write; `none` is a refusal. -/
def Site.accept (s : Site) (release : Release) (rollout : Int) : Option Publication :=
  let current := if s.sig = s.raw then s.raw else none
  if rollout < -1 ∨ 100 < rollout then none
  else if current.any fun cur => newer release.version cur.version then none
  else some ⟨release, rollout, current.any (·.version = release.version), .signature⟩

/-- The next write of a publication. -/
def Site.publishStep (s : Site) (p : Publication) (ok : Bool) : Site × List Task :=
  match p.stage with
  | .signature =>
    ({ s with sig := some p.release, publication := some { p with stage := .manifest } },
      [.publishing])
  | .manifest =>
    let s := { s with raw := some p.release, unadvised := s.unadvised || !p.sameVersion }
    if p.sameVersion ∧ p.rollout = -1 then ({ s with publication := none }, [])
    else ({ s with publication := some { p with stage := .rollout } }, [.publishing])
  | .rollout =>
    if ok then
      ({ s with
          row := some
            ⟨⟨if p.rollout = -1 then 100 else p.rollout, false⟩, some p.release.version,
              some p.release.version⟩
          stores := s.stores + 1
          unadvised := false
          halted := p.sameVersion && s.halted
          publication := none }, [])
    else ({ s with publication := none }, [])

/-- One section.  The answer says whether its store call, or the check of the
session, succeeds. -/
def body (s : Site) : Task → Bool → Option (Site × List Task)
  | .begin .update, _ => some (s, [.raw .update s.halts])
  | .begin (.post action), ok => some (s, if ok then [.raw (.post action) s.halts] else [])
  | .raw request began, _ =>
    some (s, s.raw.toList.map fun release => .sig request began release)
  | .sig request began release, _ =>
    some (s, if s.sig = some release then [.advice request began release] else [])
  | .advice .update _ release, ok =>
    some (if ok then { s with answers := s.answers ++ [(release, s.advice)] } else s, [])
  | .advice (.post action) began _, ok =>
    some (s, if ok ∧ (action.change s.published s.advice).isSome then
      [.store action began s.advice s.stores] else [])
  | .store action began read _, ok =>
    match ok, action.change s.published read with
    | true, some a => some (s.stored action began a, [.redirect action])
    | _, _ => some (s, [])
  | .redirect .halt, _ =>
    some ({ s with halts := s.halts + 1, halted := true }, [])
  | .redirect _, _ => some (s, [])
  | .publish release rollout, _ =>
    match s.publication, s.accept release rollout with
    | none, some p => some ({ s with publication := some p }, [.publishing])
    | none, none => some (s, [])
    | some _, _ => none
  | .publishing, ok => s.publication.map fun p => s.publishStep p ok

/-- Requests and publications may begin at any time; one publication runs at a
time. -/
def Task.enters : Task → Bool
  | .begin _ => true
  | .publish _ _ => true
  | _ => false

def server : Machine (Pool Site Task) (Act Task Bool) := Pool.machine Task.enters body

/-! ### What a section does -/

def Seen (s : Site) : Task → Prop
  | .store _ _ read seen => seen ≤ s.stores ∧ (seen = s.stores → read = s.advice)
  | _ => True

inductive Moves (s : Site) : Task → Site → List Task → Prop
  | idle {task : Task} {left : List Task} (fresh : ∀ t ∈ left, Seen s t)
      (quiet : .redirect .halt ∉ left) : Moves s task s left
  | answered (began : Nat) (release : Release) :
      Moves s (.advice .update began release)
        { s with answers := s.answers ++ [(release, s.advice)] } []
  | stored {action : PostAction} {read a : Stored} (began seen : Nat)
      (changed : action.change s.published read = some a) :
      Moves s (.store action began read seen) (s.stored action began a) [.redirect action]
  | returned : Moves s (.redirect .halt)
      { s with halts := s.halts + 1, halted := true } []
  | accepted {task : Task} {release : Release} {rollout : Int} {p : Publication}
      (accepts : s.accept release rollout = some p) :
      Moves s task { s with publication := some p } [.publishing]
  | published {p : Publication} (ok : Bool) (under : s.publication = some p) :
      Moves s .publishing (s.publishStep p ok).1 (s.publishStep p ok).2

variable {left : List Task} {task : Task} {s after : Site}

theorem moves_of_body {ok : Bool}
    (ran : body s task ok = some (after, left)) : Moves s task after left := by
  unfold body at ran
  split at ran
  case h_5 =>
    cases ok <;> cases ran
    · exact .idle (by simp) (by simp)
    · exact .answered _ _
  case h_7 =>
    split at ran
    case h_1 changed =>
      cases ran
      exact .stored _ _ changed
    case h_2 =>
      cases ran
      exact .idle (by simp) (by simp)
  case h_8 =>
    cases ran
    exact .returned
  case h_10 =>
    split at ran
    case h_1 accepts =>
      cases ran
      exact .accepted accepts
    case h_2 =>
      cases ran
      exact .idle (by simp) (by simp)
    case h_3 => cases ran
  case h_11 =>
    obtain ⟨p, under, is⟩ := Option.map_eq_some_iff.mp ran
    obtain ⟨rfl, rfl⟩ := Prod.mk.inj is
    exact .published _ under
  all_goals
    cases ran
    exact .idle (by simp +contextual [Seen]) (by simp +contextual)

theorem publishStep_left (s : Site) (p : Publication) (ok : Bool) :
    ∀ t ∈ (s.publishStep p ok).2, t = .publishing := by
  unfold Site.publishStep
  split
  · simp
  · dsimp only
    split <;> simp
  · split <;> simp

theorem publishStep_stores (s : Site) (p : Publication) (ok : Bool) :
    ((s.publishStep p ok).1.stores = s.stores ∧ (s.publishStep p ok).1.row = s.row) ∧
        (s.publishStep p ok).1.halted = s.halted ∨
      s.stores < (s.publishStep p ok).1.stores ∧ p.stage = .rollout ∧
        (s.publishStep p ok).1.halted = (p.sameVersion && s.halted) := by
  unfold Site.publishStep
  split
  case h_1 => exact .inl ⟨⟨rfl, rfl⟩, rfl⟩
  case h_2 =>
    split <;> exact .inl ⟨⟨rfl, rfl⟩, rfl⟩
  case h_3 stage =>
    split
    · exact .inr ⟨Nat.lt_succ_self _, stage, rfl⟩
    · exact .inl ⟨⟨rfl, rfl⟩, rfl⟩

theorem Moves.seen (moves : Moves s task after left) :
    (∀ t ∈ left, Seen after t) ∧ ∀ other, Seen s other → Seen after other := by
  have stable : (after.stores = s.stores ∧ after.row = s.row ∨ s.stores < after.stores) →
      ∀ other, Seen s other → Seen after other := by
    intro counted other seen
    cases other with
    | store action began read count =>
      obtain ⟨bound, held⟩ := seen
      rcases counted with ⟨same, row⟩ | more
      · rw [Seen, Site.advice, same, row]
        exact ⟨bound, held⟩
      · exact ⟨by omega, fun now => by omega⟩
    | _ => trivial
  cases moves with
  | idle fresh quiet => exact ⟨fresh, fun _ seen => seen⟩
  | published ok under =>
    refine ⟨?_, stable ((publishStep_stores s _ ok).imp And.left And.left)⟩
    intro t member
    rw [publishStep_left s _ ok t member]
    trivial
  | stored => exact ⟨by simp [Seen], stable (.inr (Nat.lt_succ_self _))⟩
  | _ => exact ⟨by simp [Seen], stable (.inl ⟨rfl, rfl⟩)⟩

theorem change_percentFor {v : Option String} {read a : Stored} {action : PostAction}
    (changed : action.change v read = some a) :
    a.percentFor = read.percentFor ∨ a.percentFor = v := by
  unfold PostAction.change at changed
  split at changed
  case h_3 =>
    split at changed
    · cases changed
    cases changed
    exact .inr rfl
  all_goals cases changed
  all_goals exact .inl rfl

/-! ### Releases and their advice -/

def Made (a : Stored) (version : String) : Prop :=
  a.setFor = some version ∧ a.percentFor = some version

structure Paired (s : Site) : Prop where
  advised : s.unadvised = false → ∀ release, s.raw = some release →
    ∃ a, s.row = some a ∧ Made a release.version
  answered : ∀ p ∈ s.answers, Made p.2 p.1.version
  same : ∀ p, s.publication = some p → p.sameVersion = true → s.published = some p.release.version
  renamed : ∀ p, s.publication = some p → p.stage = .rollout → s.raw = some p.release

/-- An update request reads the advice while the release it loaded is still the
published one and has its own advice; a post stores before any other store has
come between. -/
def Undisturbed (s : Site) : Task → Prop
  | .advice .update _ release => s.unadvised = false ∧ s.published = some release.version
  | .store _ _ _ seen => seen = s.stores
  | _ => True

instance (s : Site) : DecidablePred (Undisturbed s) := fun task => by
  unfold Undisturbed
  split <;> infer_instance

theorem accept_same {release : Release} {rollout : Int} {p : Publication}
    (accepts : s.accept release rollout = some p) :
    p.stage = .signature ∧ (p.sameVersion = true → s.published = some p.release.version) := by
  simp only [Site.accept, Option.ite_none_left_eq_some, Option.some.injEq] at accepts
  obtain ⟨-, -, rfl⟩ := accepts
  refine ⟨rfl, fun same => ?_⟩
  split at same
  · cases raw : s.raw with
    | none => simp [raw] at same
    | some current => simpa [Site.published, raw] using same
  · cases same

theorem paired_publishStep {p : Publication} (paired : Paired s)
    (under : s.publication = some p) (ok : Bool) : Paired (s.publishStep p ok).1 := by
  have same := paired.same p under
  unfold Site.publishStep
  split
  case h_1 =>
    refine ⟨paired.advised, paired.answered, ?_, ?_⟩
    · rintro _ ⟨⟩
      exact same
    · rintro _ ⟨⟩ ⟨⟩
  case h_2 =>
    have advised : (s.unadvised || !p.sameVersion) = false → ∀ release,
        some p.release = some release → ∃ a, s.row = some a ∧ Made a release.version := by
      rintro calm _ ⟨⟩
      obtain ⟨calm, kept⟩ := Bool.or_eq_false_iff.mp calm
      obtain ⟨before, raw, version⟩ := Option.map_eq_some_iff.mp (same (by simpa using kept))
      rw [← version]
      exact paired.advised calm before raw
    split
    · exact ⟨advised, paired.answered, by simp, by simp⟩
    · refine ⟨advised, paired.answered, ?_, ?_⟩
      · rintro _ ⟨⟩ _
        rfl
      · rintro _ ⟨⟩ _
        rfl
  case h_3 stage =>
    have raw := paired.renamed p under stage
    split
    · refine ⟨?_, paired.answered, by simp, by simp⟩
      intro _ release is
      obtain rfl := Option.some.inj (raw.symm.trans is)
      exact ⟨_, rfl, rfl, rfl⟩
    · exact ⟨paired.advised, paired.answered, by simp, by simp⟩

theorem paired_step (paired : Paired s) (seen : Seen s task) (calm : Undisturbed s task)
    (moves : Moves s task after left) : Paired after := by
  cases moves with
  | idle => exact paired
  | answered began release =>
    refine ⟨paired.advised, ?_, paired.same, paired.renamed⟩
    intro p member
    rcases mem_append.mp member with before | last
    · exact paired.answered p before
    · obtain rfl := mem_singleton.mp last
      obtain ⟨current, raw, version⟩ := Option.map_eq_some_iff.mp calm.2
      obtain ⟨a, row, made⟩ := paired.advised calm.1 current raw
      rw [version] at made
      rw [Site.advice, row]
      exact made
  | stored began count changed =>
    refine ⟨?_, paired.answered, paired.same, paired.renamed⟩
    intro advised release raw
    obtain ⟨a, row, made⟩ := paired.advised advised release raw
    have published : s.published = some release.version := by
      rw [Site.published, show s.raw = some release from raw]
      rfl
    refine ⟨_, rfl, published, ?_⟩
    rcases change_percentFor changed with kept | chosen
    · rw [seen.2 calm, Site.advice, row] at kept
      exact kept.trans made.2
    · exact chosen.trans published
  | returned => exact ⟨paired.advised, paired.answered, paired.same, paired.renamed⟩
  | accepted accepts =>
    obtain ⟨stage, same⟩ := accept_same accepts
    refine ⟨paired.advised, paired.answered, ?_, ?_⟩
    · rintro _ ⟨⟩
      exact same
    · rintro _ ⟨⟩ rollout
      exact absurd (stage.symm.trans rollout) (by decide)
  | published ok under => exact paired_publishStep paired under ok

/-- A channel between publications whose release, if it has one, has its own
advice. -/
structure Settled (s : Site) : Prop where
  published : ∀ release, s.raw = some release → ∃ a, s.row = some a ∧ Made a release.version
  advised : s.unadvised = false
  free : s.publication = none
  unasked : s.answers = []

theorem Settled.paired (settled : Settled s) : Paired s where
  advised := fun _ => settled.published
  answered := by simp [settled.unasked]
  same := by simp [settled.free]
  renamed := by simp [settled.free]

/-- In every interleaving of publications with undisturbed requests and posts a
release is answered with advice made for it. -/
theorem answers_paired {site : Site} (settled : Settled site)
    {acts : List (Act Task Bool)} {reached : Pool Site Task}
    (along : server.Along (Pool.sections Undisturbed) ⟨site, []⟩ acts)
    (ran : server.run ⟨site, []⟩ acts = some reached) :
    ∀ answer ∈ reached.shared.answers, Made answer.2 answer.1.version := by
  refine (Pool.invariant_over Paired Seen ?_ ?_ settled.paired (by simp) along ran).1.answered
  · intro s task enters
    cases task <;> trivial
  · intro s task ok after left paired seen calm ran
    have moves := moves_of_body ran
    exact ⟨paired_step paired seen calm moves, moves.seen⟩

/-- A release at full rollout, and the next one published at five percent. -/
def rolledOut : Site :=
  { raw := some ⟨"1.0.0", ""⟩, sig := some ⟨"1.0.0", ""⟩
    row := some ⟨⟨100, false⟩, some "1.0.0", some "1.0.0"⟩ }

theorem rolledOut_settled : Settled rolledOut where
  published := by
    rintro _ ⟨⟩
    exact ⟨_, rfl, rfl, rfl⟩
  advised := rfl
  free := rfl
  unasked := rfl

/-- A publication's sections. -/
def publishes (release : Release) (rollout : Int) : List (Act Task Bool) :=
  [.start (.publish release rollout), .go (.publish release rollout) true,
    .go .publishing true, .go .publishing true, .go .publishing true]

def asks (release : Release) : List (Act Task Bool) :=
  [.start (.begin .update), .go (.begin .update) true, .go (.raw .update 0) true,
    .go (.sig .update 0 release) true, .go (.advice .update 0 release) true]

/-- A request between the manifest and its advice is told the old percent. -/
theorem new_release_at_old_percent : ∃ reached, server.run ⟨rolledOut, []⟩
        ((publishes ⟨"1.1.0", ""⟩ 5).take 4 ++ asks ⟨"1.1.0", ""⟩) = some reached ∧
      reached.shared.answers = [(⟨"1.1.0", ""⟩, ⟨⟨100, false⟩, some "1.0.0", some "1.0.0"⟩)] :=
  ⟨_, by rfl, by decide⟩

theorem answered_after_publication : Settled rolledOut ∧ ∃ reached, server.run ⟨rolledOut, []⟩
        (publishes ⟨"1.1.0", ""⟩ 5 ++ asks ⟨"1.1.0", ""⟩) = some reached ∧
      reached.shared.answers.length = 1 ∧
      ∀ answer ∈ reached.shared.answers, Made answer.2 answer.1.version := by
  refine ⟨rolledOut_settled, _, by rfl, by decide, ?_⟩
  refine answers_paired rolledOut_settled
    (?_ : server.Along _ _ (publishes ⟨"1.1.0", ""⟩ 5 ++ asks ⟨"1.1.0", ""⟩)) (by rfl)
  decide

/-! ### A halt and what may end it -/

/-- The stored advice says halt. -/
def Site.Halts (s : Site) : Prop := ∃ a, s.row = some a ∧ a.halt = true

/-- A post stores before any other store has come between.  A resume stores if
every halt post that stored had returned when it began, a publication if it is
of a new version and no halt post has yet to return. -/
def OneByOne (pool : Pool Site Task) : Act Task Bool → Prop
  | .go (.store action began _ seen) _ =>
    seen = pool.shared.stores ∧ (action = .resume →
      began = pool.shared.halts ∧ .redirect .halt ∉ pool.tasks)
  | .go .publishing _ => ∀ p ∈ pool.shared.publication, p.stage = .rollout →
      p.sameVersion = false ∧ .redirect .halt ∉ pool.tasks
  | _ => True

instance (pool : Pool Site Task) : DecidablePred (OneByOne pool) := fun act => by
  unfold OneByOne
  split <;> infer_instance

/-- What holds while halts are in force or about to be. -/
structure Halting (pool : Pool Site Task) : Prop where
  seen : ∀ t ∈ pool.tasks, Seen pool.shared t
  held : pool.shared.halted = true ∨ .redirect .halt ∈ pool.tasks → pool.shared.Halts

theorem change_halt {v : Option String} {read a : Stored} {action : PostAction}
    (changed : action.change v read = some a) :
    a.halt = true ∨ action = .resume ∨ action ≠ .halt ∧ a.halt = read.halt := by
  unfold PostAction.change at changed
  split at changed
  case h_1 =>
    cases changed
    exact .inl rfl
  case h_2 => exact .inr (.inl rfl)
  case h_3 =>
    split at changed
    · cases changed
    cases changed
    exact .inr (.inr ⟨by simp, rfl⟩)
  all_goals cases changed

theorem held_step {pool : Pool Site Task} {ok : Bool} (halting : Halting pool)
    (waits : task ∈ pool.tasks)
    (ordered : OneByOne pool (.go task ok)) (moves : Moves pool.shared task after left)
    (still : after.halted = true ∨ .redirect .halt ∈ pool.tasks.erase task ++ left) :
    after.Halts := by
  have others : Task.redirect .halt ∈ pool.tasks.erase task → pool.shared.Halts :=
    fun member => halting.held (.inr (mem_of_mem_erase member))
  cases moves with
  | idle fresh quiet =>
    rcases still with halted | member
    · exact halting.held (.inl halted)
    · exact others ((mem_append.mp member).resolve_right quiet)
  | answered | accepted =>
    rcases still with halted | member
    · exact halting.held (.inl halted)
    · exact others ((mem_append.mp member).resolve_right (by simp))
  | returned => exact halting.held (.inr waits)
  | @stored action read a began seen changed =>
    rcases change_halt changed with halted | rfl | ⟨other, same⟩
    · exact ⟨_, rfl, halted⟩
    · obtain ⟨began, none⟩ := ordered.2 rfl
      simp only [Site.stored, began, and_self, if_true, Bool.false_eq_true, false_or] at still
      rcases mem_append.mp still with member | last
      · exact absurd (mem_of_mem_erase member) none
      · simp at last
    · have before : pool.shared.Halts := by
        rcases still with halted | member
        · refine halting.held (.inl ?_)
          simp only [Site.stored] at halted
          split at halted
          · cases halted
          exact halted
        · refine others ((mem_append.mp member).resolve_right ?_)
          simpa using other.symm
      obtain ⟨current, row, halted⟩ := before
      have read : read = current := by
        rw [(halting.seen _ waits).2 ordered.1, Site.advice, row]
        rfl
      exact ⟨_, rfl, by rw [← read, ← same] at halted; exact halted⟩
  | @published p ok under =>
    have quiet : Task.redirect .halt ∉ (pool.shared.publishStep p ok).2 := by
      intro member
      cases publishStep_left _ p ok _ member
    rw [mem_append, or_iff_left quiet] at still
    rcases publishStep_stores pool.shared p ok with ⟨⟨-, row⟩, halted⟩ | ⟨-, stage, halted⟩
    · rw [Site.Halts, row]
      rw [halted] at still
      exact still.elim (fun halted => halting.held (.inl halted)) others
    · obtain ⟨new, none⟩ := ordered p under stage
      rw [halted, new] at still
      rcases still with off | member
      · cases off
      · exact absurd (mem_of_mem_erase member) none

theorem halting_step {pool next : Pool Site Task} {act : Act Task Bool}
    (halting : Halting pool) (ordered : OneByOne pool act)
    (stepped : server.step pool act = some next) : Halting next := by
  cases act with
  | start task =>
    obtain ⟨enters, same, more⟩ := Pool.step_start stepped
    have fresh : Seen pool.shared task ∧ task ≠ .redirect .halt := by
      cases task with
      | begin | publish => exact ⟨trivial, by simp⟩
      | _ => cases enters
    refine ⟨?_, ?_⟩
    · rw [same, more]
      intro t member
      rcases mem_append.mp member with before | last
      · exact halting.seen t before
      · obtain rfl := mem_singleton.mp last
        exact fresh.1
    · rw [same, more]
      rintro (halted | member)
      · exact halting.held (.inl halted)
      · refine halting.held (.inr ((mem_append.mp member).resolve_right ?_))
        simpa using fresh.2.symm
  | go task ok =>
    obtain ⟨waits, left, ran, tasks⟩ := Pool.step_go stepped
    have moves := moves_of_body ran
    obtain ⟨fresh, stable⟩ := moves.seen
    refine ⟨?_, ?_⟩
    · rw [tasks]
      intro t member
      rcases mem_append.mp member with before | last
      · exact stable t (halting.seen t (mem_of_mem_erase before))
      · exact fresh t last
    · rw [tasks]
      exact held_step halting waits ordered moves

/-- While a halt is in force the stored advice says halt. -/
theorem halt_kept {site : Site} (calm : site.halted = false)
    {acts : List (Act Task Bool)} {reached : Pool Site Task}
    (along : server.Along OneByOne ⟨site, []⟩ acts)
    (ran : server.run ⟨site, []⟩ acts = some reached) :
    reached.shared.halted = true → ∃ a, reached.shared.row = some a ∧ a.halt = true := by
  have start : Halting ⟨site, []⟩ := ⟨by simp, by simp [calm]⟩
  exact fun halted => (Machine.invariant Halting (fun _ _ _ => halting_step) start along ran).held
    (.inl halted)

/-- A post at its sections up to the store. -/
def posts (action : PostAction) (began : Nat) : List (Act Task Bool) :=
  [.start (.begin (.post action)), .go (.begin (.post action)) true,
    .go (.raw (.post action) began) true, .go (.sig (.post action) began ⟨"1.0.0", ""⟩) true,
    .go (.advice (.post action) began ⟨"1.0.0", ""⟩) true]

/-- A rollout post that read before the halt was stored undoes it. -/
theorem rollout_undoes_halt : ∃ reached, server.run ⟨rolledOut, []⟩
        (posts (.rollout (some 25)) 0 ++ posts .halt 0 ++
          [.go (.store .halt 0 rolledOut.advice 0) true, .go (.redirect .halt) true,
            .go (.store (.rollout (some 25)) 0 rolledOut.advice 0) true]) = some reached ∧
      reached.shared.halted = true ∧
      reached.shared.row = some ⟨⟨25, false⟩, some "1.0.0", some "1.0.0"⟩ :=
  ⟨_, by rfl, by decide, by decide⟩

/-- A halt post, and a rollout post that begins after it has returned. -/
def haltThenRollout : List (Act Task Bool) :=
  posts .halt 0 ++ [.go (.store .halt 0 rolledOut.advice 0) true, .go (.redirect .halt) true] ++
    posts (.rollout (some 25)) 1 ++
    [.go (.store (.rollout (some 25)) 1 { rolledOut.advice with halt := true } 1) true]

theorem halt_then_rollout_kept : rolledOut.halted = false ∧ ∃ reached,
    server.run ⟨rolledOut, []⟩ haltThenRollout = some reached ∧
      (reached.shared.row.map (·.rolloutPercent) = some 25 ∧ reached.shared.stores = 2) ∧
      reached.shared.halted = true ∧ ∃ a, reached.shared.row = some a ∧ a.halt = true := by
  refine ⟨rfl, _, by rfl, by decide, by decide, ?_⟩
  refine halt_kept rfl (?_ : server.Along _ ⟨rolledOut, []⟩ haltThenRollout) (by rfl) (by decide)
  decide

/-- A decoded report: its UTC day, who it is from, and the rest of it. -/
structure Report where
  day : Int
  install : String
  doc : String := ""
deriving DecidableEq, Repr

def Report.key (r : Report) : Int × String := (r.day, r.install)

/-- The stored reports, and as history those refused for want of room. -/
structure Inbox where
  reports : KeyedTable Report.key := .empty
  refused : List Report := []

namespace Inbox

/-- The two queries of `reportsOn`. -/
def count (s : Inbox) (day : Int) : Nat := s.reports.rows.countP (·.day = day)

def has (s : Inbox) (r : Report) : Bool := (s.reports.find r.key).isSome

def putReport (s : Inbox) (r : Report) : Inbox := { s with reports := s.reports.put r }

/-- How many reports of `r`'s install and day have been refused. -/
def refusals (s : Inbox) (r : Report) : Nat := s.refused.countP (·.key = r.key)

end Inbox

/-- A request: as it comes, once it has counted the day's reports, and once it
may store its own. -/
inductive Upload
  | request (json : Bool) (body : Option Report) (today : Int)
  | counted (r : Report) (n : Nat)
  | put (r : Report)
deriving DecidableEq, Repr

/-- What a section is told: the throttle's answer, and whether the database is
past its size or the disk short of space. -/
structure Told where
  allowed : Bool := true
  large : Bool := false
  low : Bool := false

/-- The report of a request that passes the checks made without the store. -/
def accepted (json : Bool) (body : Option Report) (today : Int) (told : Told) : Option Report :=
  body.filter fun r => json ∧ told.allowed ∧ today - 1 ≤ r.day ∧ r.day ≤ today + 1

variable (cap : Nat)

/-- One section of `handleTelemetry`, with `cap` as the day's cap. -/
def handleTelemetry (s : Inbox) (task : Upload) (told : Told) :
    Option (Inbox × List Upload) :=
  match task with
  | .request json body today =>
    some (s, (accepted json body today told).toList.map fun r => .counted r (s.count r.day))
  | .counted r n =>
    -- A report that replaces the install's own needs no room.
    if s.has r ∨ ¬ (n ≥ cap ∨ told.large ∨ told.low) then some (s, [.put r])
    else some ({ s with refused := r :: s.refused }, [])
  | .put r => some (s.putReport r, [])

def Upload.isRequest : Upload → Bool
  | .request .. => true
  | _ => false

def uploads : Machine (Pool Inbox Upload) (Act Upload Told) :=
  Pool.machine Upload.isRequest (handleTelemetry cap)

/-- Whether a request may still add a report to the day. -/
def Upload.adds (s : Inbox) (day : Int) : Upload → Bool
  | .request .. => false
  | .counted r n => ¬ s.has r ∧ r.day = day ∧ n < cap
  | .put r => ¬ s.has r ∧ r.day = day

/-- The requests that may still add a report to the day. -/
def waiting (pool : Pool Inbox Upload) (day : Int) : Nat :=
  pool.tasks.countP (Upload.adds cap pool.shared day)

/-- A request that counts fewer reports than the cap leaves room for those that
have counted and not stored yet. -/
def Spare (pool : Pool Inbox Upload) : Act Upload Told → Bool
  | .go (.request json body today) told => (accepted json body today told).all fun r =>
    pool.shared.count r.day < cap → pool.shared.count r.day + waiting cap pool r.day < cap
  | _ => true

section Room

variable {cap : Nat} {s after : Inbox} {r other : Report} {day : Int} {task : Upload} {told : Told}
  {left : List Upload} {pool next : Pool Inbox Upload} {act : Act Upload Told}

/-- A report takes the place of its install's, or is one more of its day. -/
theorem count_putReport : (s.putReport r).count day =
    s.count day + if ¬ s.has r ∧ r.day = day then 1 else 0 := by
  have known : s.has r ↔ r.key ∈ s.reports.rows.map Report.key := by
    simp [Inbox.has, KeyedTable.find, List.mem_map]
  have keys : ∀ rows : List Report,
      rows.countP (·.day = day) = (rows.map Report.key).countP (·.1 = day) := by
    intro rows
    rw [countP_map]
    rfl
  unfold Inbox.count Inbox.putReport KeyedTable.put
  rw [keys, keys, KeyedTable.map_key_putRows]
  by_cases had : s.has r
  · simp [had, known.mp had]
  · rw [if_neg (mt known.mpr had), countP_append]
    simp [had, Report.key, countP_cons]

theorem has_putReport (had : s.has other) : (s.putReport r).has other := by
  simp only [Inbox.has, Inbox.putReport, KeyedTable.find_put]
  split
  · rfl
  · exact had

/-- A section forgets no install's report, and refuses none of an install that
has one. -/
theorem has_of_section (ran : handleTelemetry cap s task told = some (after, left)) :
    (∀ other, s.has other → after.has other) ∧
      ∀ other, s.has other → after.refusals other = s.refusals other := by
  cases task with
  | request =>
    cases ran
    exact ⟨fun _ => id, fun _ _ => rfl⟩
  | counted r =>
    simp only [handleTelemetry] at ran
    split at ran
    case isTrue =>
      cases ran
      exact ⟨fun _ => id, fun _ _ => rfl⟩
    case isFalse new =>
      cases ran
      refine ⟨fun _ => id, fun other had => countP_cons_of_neg ?_⟩
      intro same
      rw [Inbox.has, ← of_decide_eq_true same] at had
      exact new (.inl had)
  | put r =>
    cases ran
    exact ⟨fun _ => has_putReport, fun _ _ => rfl⟩

/-- A section adds a report where its request might, or leaves that to the rest
of it. -/
theorem count_section (day : Int) (ran : handleTelemetry cap s task told = some (after, left))
    (late : task.isRequest = false) :
    after.count day + left.countP (Upload.adds cap after day) ≤
      s.count day + if task.adds cap s day then 1 else 0 := by
  cases task with
  | request => cases late
  | counted r n =>
    simp only [handleTelemetry] at ran
    split at ran
    case isTrue room =>
      cases ran
      rw [countP_singleton]
      simp only [Upload.adds, decide_eq_true_eq]
      by_cases had : s.has r
      · simp [had]
      · have below : n < cap := by
          simp only [had, false_or, Bool.false_eq_true] at room
          omega
        simp [below]
    case isFalse =>
      cases ran
      exact Nat.le_add_right _ _
  | put r =>
    cases ran
    rw [count_putReport]
    simp [Upload.adds]

theorem fits_step (fits : ∀ day, pool.shared.count day + waiting cap pool day ≤ cap)
    (spare : Spare cap pool act) (stepped : (uploads cap).step pool act = some next) (day : Int) :
    next.shared.count day + waiting cap next day ≤ cap := by
  have held := fits day
  cases act with
  | start task =>
    obtain ⟨entry, same, tasks⟩ := Pool.step_start stepped
    cases task with
    | request =>
      rw [same, waiting, same, tasks, countP_append]
      exact held
    | counted | put => cases entry
  | go task told =>
    obtain ⟨member, left, ran, tasks⟩ := Pool.step_go stepped
    have fewer : ∀ other ∈ pool.tasks.erase task,
        other.adds cap next.shared day → other.adds cap pool.shared day := by
      intro other _ adds
      cases other with
      | request => exact adds
      | counted r n | put r =>
        simp only [Upload.adds, decide_eq_true_eq] at adds ⊢
        exact ⟨mt ((has_of_section ran).1 r) adds.1, adds.2⟩
    have rest := countP_mono_left fewer
    have before := (perm_cons_erase member).countP_eq (Upload.adds cap pool.shared day)
    rw [countP_cons] at before
    rw [waiting, tasks, countP_append]
    unfold waiting at held
    cases task with
    | request json body today =>
      simp only [handleTelemetry, Option.some.injEq, Prod.mk.injEq] at ran
      obtain ⟨same, rfl⟩ := ran
      rw [← same] at rest ⊢
      cases got : accepted json body today told with
      | none =>
        rw [Option.toList_none, map_nil, countP_nil]
        omega
      | some r =>
        rw [Option.toList_some, map_singleton, countP_singleton]
        simp only [Spare, got, Option.all_some, waiting] at spare
        split
        case isTrue adds =>
          simp only [Upload.adds, decide_eq_true_eq] at adds
          have room := of_decide_eq_true spare adds.2.2
          rw [adds.2.1] at room
          omega
        case isFalse => omega
    | counted | put =>
      have moved := count_section day ran rfl
      omega

/-- No report is refused after its install has one. -/
theorem refusals_of_has {acts : List (Act Upload Told)} {r : Report} (had : pool.shared.has r)
    (ran : (uploads cap).run pool acts = some next) :
    next.shared.refusals r = pool.shared.refusals r := by
  have free : (uploads cap).Along (Pool.sections fun _ _ => True) pool acts :=
    .of_forall (fun act _ _ => by cases act <;> trivial) _
  refine (Pool.invariant (fun s => s.has r ∧ s.refusals r = pool.shared.refusals r)
    (fun _ => True) (fun _ _ => trivial) ?_ ⟨had, rfl⟩ (fun _ _ => trivial) free ran).1.2
  intro s task told after left held _ _ went
  obtain ⟨has, refusals⟩ := has_of_section went
  exact ⟨⟨has r held.1, (refusals r held.1).trans held.2⟩, fun _ _ => trivial⟩

end Room

/-- No day has more reports than the cap; and whenever an install has a report
of a day, no later one of it is refused, and each one stored takes its place. -/
theorem reports_capped {cap : Nat} {start reached : Pool Inbox Upload}
    {acts : List (Act Upload Told)} (idle : start.tasks = [])
    (few : ∀ day, start.shared.count day ≤ cap)
    (spare : (uploads cap).Along (fun pool act => Spare cap pool act) start acts)
    (ran : (uploads cap).run start acts = some reached) :
    (∀ day, reached.shared.count day ≤ cap) ∧ ∀ r, reached.shared.has r →
      (∀ more last, (uploads cap).run reached more = some last →
        last.shared.refusals r = reached.shared.refusals r) ∧
      (reached.shared.putReport r).reports.find r.key = some r ∧
      ∀ day, (reached.shared.putReport r).count day = reached.shared.count day := by
  have fits := Machine.invariant
    (fun pool => ∀ day, pool.shared.count day + waiting cap pool day ≤ cap)
    (fun _ _ _ fits spare stepped => fits_step fits spare stepped)
    (by simpa [waiting, idle] using few) spare ran
  refine ⟨fun day => Nat.le_trans (Nat.le_add_right _ _) (fits day), fun r had => ⟨?_, ?_, ?_⟩⟩
  · exact fun more last onward => refusals_of_has had onward
  · simp [Inbox.putReport]
  · intro day
    rw [count_putReport, if_neg (fun new => new.1 had), Nat.add_zero]

/-- A request up to its store. -/
def upload (r : Report) (n : Nat) : List (Act Upload Told) :=
  [.start (.request true r r.day), .go (.request true r r.day) {}, .go (.counted r n) {}]

/-- An install repeats its report while another finds no room. -/
def repeated : List (Act Upload Told) :=
  upload ⟨0, "a", "1"⟩ 0 ++ [.go (.put ⟨0, "a", "1"⟩) {}] ++ upload ⟨0, "a", "2"⟩ 1 ++
    upload ⟨0, "b", "3"⟩ 1 ++ [.go (.put ⟨0, "a", "2"⟩) {}]

theorem repeated_capped : (uploads 1).Along (fun pool act => Spare 1 pool act) ⟨{}, []⟩ repeated ∧
    ∃ reached, (uploads 1).run ⟨{}, []⟩ repeated = some reached ∧
      reached.shared.refused = [⟨0, "b", "3"⟩] ∧ (∀ day, reached.shared.count day ≤ 1) ∧
      ∀ more last, (uploads 1).run reached more = some last →
        last.shared.refusals ⟨0, "a", "4"⟩ = 0 := by
  have along : (uploads 1).Along (fun pool act => Spare 1 pool act) ⟨{}, []⟩ repeated := by decide
  obtain ⟨capped, kept⟩ := reports_capped rfl (fun _ => Nat.zero_le _) along rfl
  refine ⟨along, _, rfl, rfl, capped, fun more last onward => ?_⟩
  exact ((kept ⟨0, "a", "4"⟩ (by decide)).1 more last onward).trans (by decide)

/-- Two requests that count the day's reports before either stores its own. -/
theorem cap_exceeded : ((uploads 2).run ⟨{}, []⟩
    (upload ⟨0, "a", ""⟩ 0 ++ [.go (.put ⟨0, "a", ""⟩) {}] ++
      upload ⟨0, "b", ""⟩ 1 ++ upload ⟨0, "c", ""⟩ 1 ++
      [.go (.put ⟨0, "b", ""⟩) {}, .go (.put ⟨0, "c", ""⟩) {}])).map (·.shared.count 0) =
    some 3 := by
  decide

end RiftRoute.Server
