/-
Module: RiftRoute.Updater.Rollback
Purpose: Starts of the daemon with a rollback asked for, cut short anywhere:
  what the guard puts back, and the window that loses the version to skip.
Trusted boundary: human-reviewed spec
-/
import RiftRoute.Updater.Guard

namespace RiftRoute

namespace Updater

open Durable

variable {B Db : Type} {may : FileOp B → Prop}

/-- A kept previous daemon and a marker asking for a rollback: the user's, or
that of an update past its allowed starts. -/
structure AsksRollback (install : Install B Db) (m : Marker) (previous : B)
    (d : Disk B Db) : Prop where
  kept : d.kept .daemon = some previous
  marker : d.marker = some m
  update : m.rollback = false → maxBoots ≤ m.boots ∧
    m.fromVersion ≠ m.toVersion ∧ install.version previous = m.fromVersion ∧
    (install.env d).current = m.toVersion

/-- The version rolled back from is skipped once its rollback can't be done
again. -/
def SkipKept (m : Marker) (d : Disk B Db) : Prop :=
  d.kept .daemon = none → d.state.skip = m.toVersion

instance [DecidableEq B] (m : Marker) (d : Disk B Db) : Decidable (SkipKept m d) :=
  inferInstanceAs (Decidable (_ → _))

section Starts

variable {install : Install B Db} {m : Marker} {previous : B}
  {d₀ d : Disk B Db}

/-! ### One start -/

/-- A user's rollback not yet past its commit, as found on disk. -/
structure UserAsked (m : Marker) (previous : B) (d₀ d : Disk B Db) : Prop where
  kept : d.kept .daemon = some previous
  marker : d.marker = some m
  due : ∀ g, d.due g = d₀.due g

/-- A user's rollback whose kept copy is gone. -/
structure UserPast (hs : List Helper) (m : Marker) (previous : B)
    (skip : String) (d₀ d : Disk B Db) : Prop where
  back : Back hs previous d₀ d
  kept : d.kept .daemon = none
  marker : d.marker = some m ∨ d.marker = none
  skips : d.state.skip = skip

theorem userAsked_start (user : m.rollback = true) (asked : UserAsked m previous d₀ d) :
    Durable.Holds perform may (fun _ guard _ => guard.restartNow = true)
      (fun after => UserAsked m previous d₀ after ∨
        ∃ skip, UserPast install.helpers m previous skip d₀ after)
      (bootGuard (install.env d)) 0 d := by
  refine bootGuard_marked asked.marker (fun _ => ?_)
    (fun other => by simp [user] at other) (fun other => by simp [user] at other)
    (fun other => by simp [user] at other)
  refine holds_mono (rollbackOrCarryOn_holds (install.env d) m "you" asked.kept)
    (fun _ _ _ _ ended => ended.1) ?_
  have toward : ∀ {after}, Back install.helpers previous d after →
      Back install.helpers previous d₀ after :=
    fun back => ⟨back.daemon, fun h member => (back.helpers h member).trans (asked.due h)⟩
  rintro after (only | ⟨back, closing⟩)
  · left
    exact ⟨only.same.kept.trans asked.kept, only.same.marker.trans asked.marker,
      fun g => (only.due g).trans (asked.due g)⟩
  · have closed : m.closed = none := by simp [Marker.closed, user]
    cases closing with
    | daemonBack due kept marker _ =>
      exact .inl ⟨kept.trans asked.kept, marker.trans asked.marker,
        fun g => (due g).trans (asked.due g)⟩
    | unkept kept marker _ =>
      exact .inr ⟨_, toward back, kept, .inl (marker.trans asked.marker), rfl⟩
    | unmarked kept marker _ | recorded kept marker _ =>
      exact .inr ⟨_, toward back, kept, .inr (marker.trans closed), rfl⟩

variable {skip : String}

theorem userPast_start (user : m.rollback = true)
    (past : UserPast install.helpers m previous skip d₀ d) :
    Durable.Holds perform may (fun _ guard _ => guard.restartNow = false)
      (UserPast install.helpers m previous skip d₀)
      (bootGuard (install.env d)) 0 d := by
  rcases past.marker with marker | marker
  · refine bootGuard_marked marker (fun _ => ?_) (fun other => by simp [user] at other)
      (fun other => by simp [user] at other)
      (fun other => by simp [user] at other)
    refine holds_mono (rollbackOrCarryOn_unkept (install.env d) m "you" past.kept)
      (fun _ _ _ _ ended => ended.1) ?_
    rintro after ⟨installed, kept, found, skips⟩
    refine ⟨⟨by rw [installed, past.back.daemon], ?_⟩, by rw [kept, past.kept],
      ?_, skips.trans past.skips⟩
    · intro h member
      rw [installed, past.back.helpers h member]
    · exact found.imp_left fun same => same.trans marker
  · exact bootGuard_unmarked marker past rfl

/-- An update's rollback not yet past its commit, as found on disk. -/
structure HealthAsked (install : Install B Db) (m : Marker) (previous : B)
    (d₀ d : Disk B Db) : Prop where
  asks : AsksRollback install m previous d
  due : ∀ g, d.due g = d₀.due g

/-- An update's rollback past its commit: the previous daemon will record it,
or has. -/
structure HealthPast (hs : List Helper) (m : Marker) (previous : B)
    (d₀ d : Disk B Db) : Prop where
  back : Back hs previous d₀ d
  left : (∃ boots, 0 < boots ∧ d.marker = some ⟨m.fromVersion, m.toVersion, boots, false⟩) ∨
    (d.marker = none ∧ d.state.skip = m.toVersion)

theorem healthAsked_start (update : m.rollback = false)
    (asked : HealthAsked install m previous d₀ d) :
    Durable.Holds perform may (fun _ guard _ => guard.restartNow = true)
      (fun after => HealthAsked install m previous d₀ after ∨
        HealthPast install.helpers m previous d₀ after)
      (bootGuard (install.env d)) 0 d := by
  obtain ⟨boots, different, old, current⟩ := asked.asks.update update
  refine bootGuard_marked asked.asks.marker (fun other => by simp [update] at other)
    (fun _ other => absurd current other) (fun _ _ _ => ?_)
    (fun _ _ few => by omega)
  refine holds_mono (rollbackOrCarryOn_holds (install.env d) _ "health" asked.asks.kept)
    (fun _ _ _ _ ended => ended.1) ?_
  rintro after (only | ⟨back, closing⟩)
  · left
    refine ⟨⟨only.same.kept.trans asked.asks.kept,
      only.same.marker.trans asked.asks.marker, fun _ => ?_⟩,
      fun g => (only.due g).trans (asked.due g)⟩
    refine ⟨boots, different, old, ?_⟩
    simpa [Install.env, only.same.installed] using current
  · have toward : Back install.helpers previous d₀ after :=
      ⟨back.daemon, fun h member => (back.helpers h member).trans (asked.due h)⟩
    have before : d.marker = some ⟨m.fromVersion, m.toVersion, m.boots, false⟩ := by
      rw [asked.asks.marker, ← update]
    have bootsPositive : 0 < m.boots := Nat.lt_of_lt_of_le (by decide) boots
    right
    cases closing with
    | daemonBack _ _ marker _ | unkept _ marker _ =>
      exact ⟨toward, .inl ⟨_, bootsPositive, marker.trans before⟩⟩
    | unmarked _ marker _ | recorded _ marker _ =>
      exact ⟨toward, .inl ⟨_, Nat.succ_pos maxBoots,
        marker.trans (by simp [Marker.closed, update])⟩⟩

theorem healthPast_start (old : install.version previous = m.fromVersion)
    (different : m.fromVersion ≠ m.toVersion)
    (past : HealthPast install.helpers m previous d₀ d) :
    Durable.Holds perform may (fun _ guard after => guard.restartNow = false ∧
        after.state.skip = m.toVersion)
      (HealthPast install.helpers m previous d₀)
      (bootGuard (install.env d)) 0 d := by
  have current : (install.env d).current = m.fromVersion := by
    simp [Install.env, past.back.daemon, old]
  rcases past.left with ⟨boots, positive, marker⟩ | ⟨marker, skipped⟩
  · refine bootGuard_marked marker (fun other => by cases other)
      (fun _ _ => ?_) (fun _ same => absurd (current.symm.trans same) different)
      (fun _ same => absurd (current.symm.trans same) different)
    unfold settleOther
    rw [if_neg (Nat.pos_iff_ne_zero.mp positive), if_pos ⟨current, positive⟩]
    refine holds_act_some rfl past ?_
    refine holds_act_some rfl
      ⟨⟨past.back.daemon, past.back.helpers⟩, .inl ⟨boots, positive, marker⟩⟩ ?_
    exact ⟨⟨⟨past.back.daemon, past.back.helpers⟩, .inr ⟨rfl, rfl⟩⟩, rfl, rfl⟩
  · exact bootGuard_unmarked marker past ⟨rfl, skipped⟩

/-! ### Sequences of starts -/

/-- Where a user's rollback is between starts. -/
def UserFound (hs : List Helper) (m : Marker) (previous : B) (d₀ d : Disk B Db) : Prop :=
  UserAsked m previous d₀ d ∨ ∃ skip, UserPast hs m previous skip d₀ d

theorem user_cut (user : m.rollback = true) (operations : Nat)
    (found : UserFound install.helpers m previous d₀ d) :
    UserFound install.helpers m previous d₀ (install.cut operations d) := by
  rcases found with asked | ⟨skip, past⟩
  · exact holds_cut (userAsked_start user asked) operations
  · exact .inr ⟨skip, holds_cut (userPast_start user past) operations⟩

theorem userPast_cut (user : m.rollback = true) (operations : Nat)
    (past : UserPast install.helpers m previous skip d₀ d) :
    UserPast install.helpers m previous skip d₀ (install.cut operations d) :=
  holds_cut (userPast_start user past) operations

variable {cuts : List Nat} {reached : Disk B Db}

theorem userPast_run (user : m.rollback = true)
    (past : UserPast install.helpers m previous skip d₀ d)
    (ran : install.starts.run d cuts = some reached) :
    UserPast install.helpers m previous skip d₀ reached := by
  have always : install.starts.Along (fun _ _ => True) d cuts := .of_forall (fun _ _ _ => trivial) d
  refine Machine.invariant _ ?_ past always ran
  rintro s operations _ held - ⟨⟩
  exact userPast_cut user operations held

theorem user_run_iff (user : m.rollback = true) (found : UserFound install.helpers m previous d₀ d)
    (kept : ∀ skip', UserPast install.helpers m previous skip' d₀ d → skip' = m.toVersion)
    (ran : install.starts.run d cuts = some reached)
    (past : UserPast install.helpers m previous skip d₀ reached) :
    skip = m.toVersion ↔ install.starts.Along
        (fun d operations => SkipKept m (install.cut operations d)) d cuts := by
  induction cuts generalizing d with
  | nil =>
    obtain rfl := Option.some.inj ran
    exact ⟨fun _ => trivial, fun _ => kept skip past⟩
  | cons operations cuts ih =>
    have rest : install.starts.run (install.cut operations d) cuts = some reached := ran
    rcases user_cut user operations found with asked | ⟨skipNow, pastNow⟩
    · have inPlace : SkipKept m (install.cut operations d) := by
        intro gone
        rw [asked.kept] at gone
        cases gone
      have onward := ih (.inl asked) (fun _ other => by cases asked.kept.symm.trans other.kept) rest
      exact onward.trans ⟨fun along => .cons rfl inPlace along, fun along => along.2 _ rfl⟩
    · obtain rfl : skipNow = skip := (userPast_run user pastNow rest).skips.symm.trans past.skips
      constructor
      · intro recorded
        refine .cons rfl (fun _ => pastNow.skips.trans recorded) ?_
        refine (ih (.inr ⟨_, pastNow⟩) ?_ rest).mp recorded
        intro other otherPast
        exact (otherPast.skips.symm.trans pastNow.skips).trans recorded
      · intro along
        exact pastNow.skips.symm.trans (along.1 pastNow.kept)

theorem user_run (user : m.rollback = true) (found : UserFound install.helpers m previous d₀ d)
    (ran : install.starts.run d cuts = some reached) :
    UserFound install.helpers m previous d₀ reached := by
  have always : install.starts.Along (fun _ _ => True) d cuts := .of_forall (fun _ _ _ => trivial) d
  refine Machine.invariant _ ?_ found always ran
  rintro d operations _ held - ⟨⟩
  exact user_cut user operations held

theorem health_run (update : m.rollback = false)
    (asks : AsksRollback install m previous d₀) (ran : install.starts.run d₀ cuts = some reached) :
    HealthAsked install m previous d₀ reached ∨
      HealthPast install.helpers m previous d₀ reached := by
  obtain ⟨-, different, old, -⟩ := asks.update update
  have always : install.starts.Along (fun _ _ => True) d₀ cuts :=
    .of_forall (fun _ _ _ => trivial) d₀
  refine Machine.invariant (fun d => HealthAsked install m previous d₀ d ∨
    HealthPast install.helpers m previous d₀ d) ?_ ?_ always ran
  · rintro d operations _ (asked | past) - ⟨⟩
    · exact holds_cut (healthAsked_start update asked) operations
    · exact .inr (holds_cut (healthPast_start old different past) operations)
  · exact .inl ⟨asks, fun _ => rfl⟩

/-- The previous version is back, and the version rolled back from is
skipped. -/
structure RollbackDone (install : Install B Db) (m : Marker) (previous : B)
    (d₀ d : Disk B Db) : Prop where
  daemon : d.installed .daemon = some previous
  helpers : ∀ h ∈ install.helpers, d.installed (.helper h) = d₀.due h
  skip : d.state.skip = m.toVersion

/-- However often starts are cut short, the rollback is done when one gets
through, except that a user's rollback must not be cut short between the kept
copy's removal and the record of the version to skip. -/
theorem rollback_survives_iff (install : Install B Db) (m : Marker)
    (previous : B) (d₀ d : Disk B Db)
    (asks : AsksRollback install m previous d₀) (cuts : List Nat)
    (ran : install.starts.run d₀ cuts = some d)
    (ended : (install.boot d).1.restartNow = false) :
    RollbackDone install m previous d₀ (install.boot d).2 ↔ install.starts.Along
        (fun d operations => m.rollback = true →
          SkipKept m (install.cut operations d)) d₀ cuts := by
  by_cases user : m.rollback = true
  · have found : UserFound install.helpers m previous d₀ d₀ :=
      .inl ⟨asks.kept, asks.marker, fun _ => rfl⟩
    simp only [user, forall_const]
    rcases user_run user found ran with asked | ⟨skip, past⟩
    · have restarts : (install.boot d).1.restartNow = true :=
        (holds_finish (userAsked_start user asked)).2
      cases restarts.symm.trans ended
    · have final := (holds_finish (userPast_start user past)).1
      rw [← user_run_iff user found
        (fun _ other => by cases asks.kept.symm.trans other.kept) ran past]
      constructor
      · intro done
        exact final.skips.symm.trans done.skip
      · intro recorded
        exact ⟨final.back.daemon, final.back.helpers, final.skips.trans recorded⟩
  · have update := Bool.eq_false_iff.mpr user
    obtain ⟨-, different, old, -⟩ := asks.update update
    refine ⟨fun _ => .of_forall (fun _ _ _ other => absurd other user) d₀, fun _ => ?_⟩
    rcases health_run update asks ran with asked | past
    · have restarts := (holds_finish (healthAsked_start update asked)).2
      cases restarts.symm.trans ended
    · have final := holds_finish (healthPast_start old different past)
      exact ⟨final.1.back.daemon, final.1.back.helpers, final.2.2⟩

end Starts

/-! ### A rollback the user asked for -/

/-- Both helpers ship, and a binary's content is its version. -/
def plainInstall : Install String Nat where
  version := id
  openVPN := true
  charonCmd := true
  dbVersion := some
  dbMinReader := some

def askedMarker : Marker := ⟨"2.0.0", "2.0.0", 0, true⟩

/-- An update from 1.9.0 to 2.0.0 that replaced one helper, and the request to
go back. -/
def askedDisk : Disk String Nat where
  installed
    | .daemon => some "2.0.0"
    | .helper .openVPN => some "openvpn of 2.0.0"
    | .helper .charonCmd => none
  kept
    | .daemon => some "1.9.0"
    | .helper .openVPN => some "openvpn of 1.9.0"
    | .helper .charonCmd => none
  db := 7
  restore := none
  wal := true
  shm := true
  backup := some 6
  marker := some askedMarker
  state :=
    { bucket := 40, lastAdvice := ⟨"2.0.0", 100, false⟩
      skip := "", rolledBackFrom := "", rolledBackBy := "", rollbackError := ""
      swapOf := fun h => if h = .openVPN then some .replaced else none }

theorem askedDisk_asks : AsksRollback plainInstall askedMarker "1.9.0" askedDisk :=
  ⟨rfl, rfl, by decide⟩

/-- Interrupted while the database goes back, after the first helper, and at
the restart. -/
theorem askedDisk_rolledBack : RollbackDone plainInstall askedMarker "1.9.0" askedDisk
      (plainInstall.boot (plainInstall.cut 20 (plainInstall.cut 1
        (plainInstall.cut 3 askedDisk)))).2 :=
  (rollback_survives_iff plainInstall askedMarker "1.9.0" askedDisk _
    askedDisk_asks [3, 1, 20] rfl (by decide +kernel)).mpr (by decide +kernel)

/-- Cut short once the kept copy is removed, the rollback forgets to skip the
version it went back from. -/
theorem askedDisk_not_skipped : AsksRollback plainInstall askedMarker "1.9.0" askedDisk ∧
      plainInstall.starts.run askedDisk [9] = some (plainInstall.cut 9 askedDisk) ∧
      (plainInstall.boot (plainInstall.cut 9 askedDisk)).1.restartNow = false ∧
      (plainInstall.boot (plainInstall.cut 9 askedDisk)).2.state.skip = "" ∧
      ¬ RollbackDone plainInstall askedMarker "1.9.0" askedDisk
        (plainInstall.boot (plainInstall.cut 9 askedDisk)).2 := by
  refine ⟨askedDisk_asks, rfl, by decide +kernel, by decide +kernel, ?_⟩
  intro done
  have skipped := done.skip
  revert skipped
  decide +kernel

/-! ### A start that is confirmed -/

/-- The update is on its second start. -/
def probationDisk : Disk String Nat :=
  { askedDisk with marker := some ⟨"1.9.0", "2.0.0", 1, false⟩ }

end Updater

end RiftRoute
