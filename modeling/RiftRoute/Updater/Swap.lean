/-
Module: RiftRoute.Updater.Swap
Purpose: Installing a release when the process may die before any file
  operation and one copy may fail: what the next start makes of the files, and
  a user's rollback after a swap that failed.
Trusted boundary: human-reviewed spec
Main exports: Swappable, swap_holds
-/
import RiftRoute.Updater.Rollback

namespace RiftRoute

open List

namespace Updater

open Durable Durable.Prog

variable {B Db : Type}

/-- The operation copies a file. -/
def FileOp.isCopy : FileOp B → Prop
  | .keep _ | .putBack _ | .install _ _ => True
  | _ => False

/-- What a swap starts from: no marker but that of the running version's own
probation, a running version that differs from the release's, and staged
helpers that ship here, each once. -/
structure Swappable (install : Install B Db) (s : Staged B)
    (d : Disk B Db) : Prop where
  marker : ∀ m, d.marker = some m → m.isProbation (install.env d).current = true
  running : (d.installed .daemon).isSome
  version : install.version s.daemon = s.version
  newer : (install.env d).current ≠ s.version
  ships : (s.helpers.map Prod.fst).Sublist install.helpers

/-! ### Keeping what is installed -/

section Keeping

variable {may : FileOp B → Prop} {s : Staged B} {d₀ : Disk B Db}

/-- The installed helpers the release replaces are kept and recorded, among
those gone through. -/
structure Keeping (s : Staged B) (d₀ : Disk B Db) (gone : List Helper)
    (hows : Helper → Option HelperSwap) (d : Disk B Db) : Prop where
  installed : d.installed = d₀.installed
  marker : d.marker = d₀.marker
  kept : ∀ h ∈ gone, s.has h = true → ∀ file, d₀.installed (.helper h) = some file →
      hows h = some .replaced ∧ d.kept (.helper h) = some file

variable {d : Disk B Db} {hows : Helper → Option HelperSwap} {gone : List Helper}

theorem Keeping.next {h : Helper} {how : Option HelperSwap} {copy : Option B}
    (keeping : Keeping s d₀ gone hows d) (fresh : h ∉ gone)
    (here : s.has h = true → ∀ file, d₀.installed (.helper h) = some file →
      how = some .replaced ∧ copy = some file) :
    Keeping s d₀ (gone ++ [h]) (Function.update hows h how)
      { d with kept := Function.update d.kept (.helper h) copy } := by
  refine ⟨keeping.installed, keeping.marker, ?_⟩
  intro g member shipped file before
  by_cases at_h : g = h
  · subst at_h
    simpa using here shipped file before
  · have earlier : g ∈ gone := by simpa [at_h] using member
    simpa [at_h] using keeping.kept g earlier shipped file before

theorem Keeping.same {h : Helper} {how : Option HelperSwap}
    (keeping : Keeping s d₀ gone hows d) (fresh : h ∉ gone)
    (here : s.has h = true → ∀ file, d₀.installed (.helper h) = some file →
      how = some .replaced ∧ d.kept (.helper h) = some file) :
    Keeping s d₀ (gone ++ [h]) (Function.update hows h how) d := by
  have next := keeping.next fresh here
  rwa [Function.update_eq_self] at next

theorem holds_removeKept {A : Type} {ends : Nat → A → Disk B Db → Prop}
    {stops : Disk B Db → Prop} {h : Helper} {next : Files B Db A}
    {budget : Nat} (here : stops d)
    (removed : ∀ n, Durable.Holds perform may ends stops next n
      { d with kept := Function.update d.kept (.helper h) none })
    (refused : ∀ n, Durable.Holds perform may ends stops next n d) :
    Durable.Holds perform may ends stops
      ((attempt (.removeKept (.helper h))).bind fun _ => next) budget d :=
  holds_act rfl here (removed budget) fun _ _ => refused _

theorem keepHelpers_holds {rest : List Helper} {budget : Nat}
    (fresh : (gone ++ rest).Nodup) (keeping : Keeping s d₀ gone hows d) :
    Durable.Holds perform may (fun _ result after => ∀ hows', result = some hows' →
        Keeping s d₀ (gone ++ rest) hows' after ∧ after.state.swapOf = hows')
      (fun after => after.installed = d₀.installed ∧ after.marker = d₀.marker)
      (keepHelpers s rest hows) budget d := by
  induction rest generalizing gone hows budget d with
  | nil =>
    have here := And.intro keeping.installed keeping.marker
    refine holds_act rfl here ⟨here, ?_⟩ fun _ _ => ⟨here, fun _ => nofun⟩
    rintro hows' ⟨⟩
    rw [append_nil]
    exact ⟨⟨keeping.installed, keeping.marker, keeping.kept⟩, rfl⟩
  | cons h rest ih =>
    have here := And.intro keeping.installed keeping.marker
    have apart : h ∉ gone := fun member =>
      (nodup_append.mp fresh).2.2 h member h (by simp) rfl
    rw [append_cons] at fresh ⊢
    unfold keepHelpers
    split
    · next shipped =>
        change Durable.Holds perform may _ _
          (if (d.installed (.helper h)).isSome then _ else _) budget d
        rw [keeping.installed]
        cases before : d₀.installed (.helper h) with
        | none =>
          have vacuous : ∀ copy : Option B, s.has h = true → ∀ file,
              d₀.installed (.helper h) = some file →
                some HelperSwap.added = some .replaced ∧ copy = some file := by
            intro copy _ file known
            cases before.symm.trans known
          exact holds_removeKept here (fun n => ih fresh (keeping.next apart (vacuous _)))
            (fun n => ih fresh (keeping.same apart (vacuous _)))
        | some file =>
          have performed : perform (.keep (.helper h)) d = some
              { d with
                kept := Function.update d.kept (.helper h) (some file) } := by
            simp [perform, keeping.installed, before]
          refine holds_act performed here ?_ fun _ _ => ⟨here, fun _ => nofun⟩
          refine ih fresh (keeping.next apart ?_)
          intro _ other known
          exact ⟨rfl, before.symm.trans known⟩
    · next other =>
        have vacuous : ∀ copy : Option B, s.has h = true → ∀ file,
            d₀.installed (.helper h) = some file → hows h = some .replaced ∧ copy = some file :=
          fun _ shipped => absurd shipped other
        refine holds_removeKept here (fun n => ?_) (fun n => ?_)
        · have next := keeping.next apart (vacuous none)
          rw [Function.update_eq_self] at next
          exact ih fresh next
        · have next := keeping.same apart (vacuous _)
          rw [Function.update_eq_self] at next
          exact ih fresh next

end Keeping

/-! ### Putting the release in place -/

section Placing

variable {install : Install B Db} {s : Staged B} {d₀ : Disk B Db}

def swapMarker (install : Install B Db) (s : Staged B) (d₀ : Disk B Db) : Marker :=
  ⟨(install.env d₀).current, s.version, 0, false⟩

def Replaces (s : Staged B) (d₀ : Disk B Db) (h : Helper) (old : B) : Prop :=
  s.has h = true ∧ d₀.installed (.helper h) = some old

/-- Helpers are going into place: the daemon is not replaced yet, and every
helper the release replaces can be put back. -/
structure Placing (install : Install B Db) (s : Staged B)
    (d₀ d : Disk B Db) : Prop where
  marker : d.marker = some (swapMarker install s d₀)
  daemon : d.installed .daemon = d₀.installed .daemon
  recorded : ∀ h old, Replaces s d₀ h old →
    d.state.swapOf h = some .replaced ∧ d.kept (.helper h) = some old

/-- The release is in place. -/
structure Placed (install : Install B Db) (s : Staged B)
    (d₀ d : Disk B Db) : Prop where
  marker : d.marker = some (swapMarker install s d₀)
  daemon : d.installed .daemon = some s.daemon
  helpers : ∀ staged ∈ s.helpers, d.installed (.helper staged.1) = some staged.2

/-- The helpers the release replaces are those of before. -/
def HelpersOld (s : Staged B) (d₀ : Disk B Db) (files : Place → Option B) : Prop :=
  ∀ h old, Replaces s d₀ h old → files (.helper h) = some old

/-- The swap has not come to its marker. -/
structure Untouched (d₀ d : Disk B Db) : Prop where
  installed : d.installed = d₀.installed
  marker : d.marker = d₀.marker

/-- The swap is undoing a failed copy. -/
structure Unmarked (d₀ d : Disk B Db) : Prop where
  marker : d.marker = none
  daemon : d.installed .daemon = d₀.installed .daemon

/-- Where a swap may stop; it undoes nothing unless a copy was refused. -/
inductive Midswap (install : Install B Db) (s : Staged B) (refusable : Prop)
    (d₀ d : Disk B Db) : Prop where
  | before (untouched : Untouched d₀ d)
  | undoing (refused : refusable) (unmarked : Unmarked d₀ d)
  | placing (placing : Placing install s d₀ d)
  | placed (placed : Placed install s d₀ d)

/-- What a swap that returns has done. -/
inductive Swapped (install : Install B Db) (s : Staged B)
    (d₀ d : Disk B Db) : Option String → Prop where
  | placed (placed : Placed install s d₀ d) : Swapped install s d₀ d none
  | before (untouched : Untouched d₀ d) (err : String) :
      Swapped install s d₀ d (some err)
  | undone (unmarked : Unmarked d₀ d) (old : HelpersOld s d₀ d.installed)
      (err : String) : Swapped install s d₀ d (some err)

variable {d : Disk B Db} {h : Helper}

theorem due_of_placing {old : B}
    (placing : Placing install s d₀ d) (replaces : Replaces s d₀ h old) :
    d.due h = some old := by
  obtain ⟨replaced, kept⟩ := placing.recorded h old replaces
  simp [Disk.due, replaced, kept]

/-- Undoing: helpers go back one by one, and the records stay. -/
structure Undoing (hs rest : List Helper) (hows : Helper → Option HelperSwap)
    (d after : Disk B Db) : Prop where
  only : OnlyHelpers d after
  swapOf : after.state.swapOf = hows
  gone : ∀ h ∈ hs, h ∉ rest → hows h = some .replaced → after.installed (.helper h) = d.due h

theorem Undoing.next {hs rest : List Helper}
    {hows : Helper → Option HelperSwap} {middle after : Disk B Db}
    (before : Undoing hs (h :: rest) hows d middle)
    (turn : OnlyHelper h middle after) (swapOf : after.state.swapOf = hows)
    (back : hows h = some .replaced → after.installed (.helper h) = middle.due h) :
    Undoing hs rest hows d after := by
  refine ⟨before.only.trans ⟨turn.same, turn.due⟩, swapOf, ?_⟩
  intro g member past replaced
  by_cases at_h : g = h
  · subst at_h
    rw [back replaced, before.only.due]
  · rw [turn.installed g at_h]
    exact before.gone g member (by simp [at_h, past]) replaced

variable {may : FileOp B → Prop}

theorem undoOne_holds :
    Durable.Holds perform may (fun n ok after => n = 0 ∧ ok = true ∧ OnlyHelper h d after ∧
        after.state = d.state ∧
        (d.state.swapOf h = some .replaced → after.installed (.helper h) = d.due h))
      (OnlyHelper h d)
      (undoOne d.state.swapOf h) 0 d := by
  by_cases replaced : d.state.swapOf h = some .replaced
  · unfold undoOne
    rw [replaced]
    refine holds_seq (restoreHelper_holds replaced) (fun _ only => only) ?_
    rintro n none ok after ⟨rfl, only, due, state, -⟩
    exact ⟨only, Nat.le_zero.mp none, rfl, only, state, fun _ => due⟩
  · have skipped : undoOne d.state.swapOf h = (.done true : Files B Db Bool) := by
      unfold undoOne restoreHelper
      rw [if_neg replaced]
      rfl
    rw [skipped]
    exact ⟨.refl h d, rfl, rfl, .refl h d, rfl, fun other => absurd other replaced⟩

theorem mem_of_has (ships : (s.helpers.map Prod.fst).Sublist install.helpers)
    (shipped : s.has h = true) : h ∈ install.helpers := by
  simp only [Staged.has, any_eq_true, decide_eq_true_eq] at shipped
  obtain ⟨staged, member, rfl⟩ := shipped
  exact ships.subset (mem_map_of_mem member)

theorem undoAll_holds {hs : List Helper} :
    Durable.Holds perform may (fun _ _ after => Undoing hs [] d.state.swapOf d after)
      (OnlyHelpers d) (each (undoOne d.state.swapOf) hs) 0 d := by
  have start : Undoing hs hs d.state.swapOf d d :=
    ⟨⟨.refl d, fun _ => rfl⟩, rfl, fun _ member absent => absurd member absent⟩
  have loop : Durable.Holds perform may (fun n ok after => if ok then
        n = 0 ∧ Undoing hs [] d.state.swapOf d after else False)
      (OnlyHelpers d) (each (undoOne d.state.swapOf) hs) 0 d := by
    refine holds_each (fun rest n after => n = 0 ∧ Undoing hs rest d.state.swapOf d after)
      (fun _ _ => False) ?_ (fun _ _ undoing => undoing.2.only) hs ⟨rfl, start⟩
    rintro h rest n middle ⟨rfl, before⟩
    rw [← before.swapOf]
    refine holds_mono undoOne_holds ?_ ?_
    · rintro n ok after - ⟨rfl, rfl, moved, state, back⟩
      rw [before.swapOf] at back ⊢
      exact ⟨rfl, before.next moved (by rw [state, before.swapOf]) back⟩
    · intro after moved
      exact before.only.trans ⟨moved.same, moved.due⟩
  refine holds_mono loop ?_ fun _ only => only
  intro n ok after _ ended
  cases ok with
  | false => exact ended.elim
  | true => exact ended.2

variable {refusable : Prop}

theorem undo_holds {err : String} (ships : (s.helpers.map Prod.fst).Sublist install.helpers)
    (refused : refusable) (placing : Placing install s d₀ d) :
    Durable.Holds perform may (fun _ result after => Swapped install s d₀ after result)
      (Midswap install s refusable d₀)
      (undo (install.env d₀) d.state.swapOf err) 0 d := by
  have unmarked : ∀ {after}, OnlyHelpers { d with marker := none } after → Unmarked d₀ after :=
    fun only => ⟨only.same.marker, only.same.installed.trans placing.daemon⟩
  refine holds_act_some rfl (.placing placing) ?_
  change Durable.Holds perform may _ _ ((each (undoOne d.state.swapOf) install.helpers).bind _) 0 _
  refine holds_seq undoAll_holds (fun _ only => .undoing refused (unmarked only)) ?_
  intro n _ _ after undoing
  refine ⟨.undoing refused (unmarked undoing.only), .undone (unmarked undoing.only) ?_ err⟩
  intro h old replaces
  have back := undoing.gone h (mem_of_has ships replaces.1) (by simp)
    (placing.recorded h old replaces).1
  have due := due_of_placing placing replaces
  exact back.trans due

/-- The staged helpers go into place one by one. -/
structure Installing (install : Install B Db) (s : Staged B)
    (hows : Helper → Option HelperSwap) (d₀ : Disk B Db)
    (rest : List (Helper × B)) (d : Disk B Db) : Prop where
  placing : Placing install s d₀ d
  swapOf : d.state.swapOf = hows
  toCome : ∀ staged ∈ rest, staged ∈ s.helpers
  gone : ∀ staged ∈ s.helpers, staged ∉ rest → d.installed (.helper staged.1) = some staged.2

theorem Installing.next {hows : Helper → Option HelperSwap}
    {rest : List (Helper × B)} {staged : Helper × B}
    (ships : (s.helpers.map Prod.fst).Sublist install.helpers)
    (before : Installing install s hows d₀ (staged :: rest) d) :
    Installing install s hows d₀ rest (d.withHelper staged.1 staged.2) := by
  have names : (s.helpers.map Prod.fst).Nodup := ships.nodup (helpers_nodup (install.env d₀))
  obtain ⟨⟨marker, daemon, recorded⟩, swapOf, toCome, gone⟩ := before
  refine ⟨⟨marker, daemon, recorded⟩, swapOf,
    fun other member => toCome other (by simp [member]), ?_⟩
  intro other member past
  by_cases same : other.1 = staged.1
  · obtain rfl := inj_on_of_nodup_map names member (toCome staged (by simp)) same
    simp [Disk.withHelper]
  · have different : other ≠ staged := fun equal => same (by rw [equal])
    simpa [Disk.withHelper, same] using gone other member (by simp [different, past])

theorem installStaged_holds {budget : Nat}
    (ships : (s.helpers.map Prod.fst).Sublist install.helpers)
    (few : budget ≤ 1) (refused : 0 < budget → refusable)
    (placing : Placing install s d₀ d) :
    Durable.Holds perform FileOp.isCopy (fun _ result after => Swapped install s d₀ after result)
      (Midswap install s refusable d₀)
      (installStaged (install.env d₀) s d.state.swapOf) budget d := by
  have start : Installing install s d.state.swapOf d₀ s.helpers d :=
    ⟨placing, rfl, fun _ member => member, fun _ member absent => absurd member absent⟩
  have loop : Durable.Holds perform FileOp.isCopy (fun n ok after => if ok then
          n ≤ budget ∧ Installing install s d.state.swapOf d₀ [] after
        else (n = 0 ∧ refusable) ∧ Placing install s d₀ after ∧ after.state.swapOf = d.state.swapOf)
      (Midswap install s refusable d₀) (each installHelper s.helpers) budget d := by
    refine holds_each (fun rest n after => n ≤ budget ∧
        Installing install s d.state.swapOf d₀ rest after)
      (fun n after => (n = 0 ∧ refusable) ∧ Placing install s d₀ after ∧
        after.state.swapOf = d.state.swapOf) ?_
      (fun _ _ before => .placing before.2.placing) s.helpers
      ⟨Nat.le_refl _, start⟩
    rintro staged rest n middle ⟨small, before⟩
    have here : Midswap install s refusable d₀ middle := .placing before.placing
    have next := before.next ships
    refine holds_act rfl here ⟨.placing next.placing, small, next⟩ ?_
    intro _ left
    exact ⟨here, ⟨by omega, refused (by omega)⟩, before.placing, before.swapOf⟩
  refine holds_seq loop (fun _ here => here) ?_
  intro n small ok after ended
  cases ok with
  | false =>
    obtain ⟨⟨rfl, refused⟩, placing, swapOf⟩ := ended
    rw [← swapOf]
    exact undo_holds ships refused placing
  | true =>
    obtain ⟨-, installed⟩ := ended
    have placed : Placed install s d₀
        { after with
          installed := Function.update after.installed .daemon
            (some s.daemon) } := by
      refine ⟨installed.placing.marker, by simp, ?_⟩
      intro staged member
      simpa using installed.gone staged member (by simp)
    refine holds_act rfl (.placing installed.placing) ⟨.placed placed, .placed placed⟩ ?_
    intro _ left
    have last : n - 1 = 0 := by omega
    rw [last, ← installed.swapOf]
    exact undo_holds ships (refused (by omega)) installed.placing

theorem swap_holds {budget : Nat} (swappable : Swappable install s d₀) (few : budget ≤ 1)
    (refused : 0 < budget → refusable) :
    Durable.Holds perform FileOp.isCopy (fun _ result after => Swapped install s d₀ after result)
      (Midswap install s refusable d₀) (swap (install.env d₀) s) budget d₀ := by
  have midway : ∀ {d : Disk B Db}, d.installed = d₀.installed →
      d.marker = d₀.marker → Midswap install s refusable d₀ d :=
    fun installed marker => .before ⟨installed, marker⟩
  have failed : ∀ {d : Disk B Db} {err : String}, d.installed = d₀.installed →
      d.marker = d₀.marker → Swapped install s d₀ d (some err) :=
    fun installed marker => .before ⟨installed, marker⟩ _
  obtain ⟨old, running⟩ := Option.isSome_iff_exists.mp swappable.running
  refine holds_act rfl (midway rfl rfl) ?_ fun copies => copies.elim
  refine holds_act rfl (midway rfl rfl) ?_ fun copies => copies.elim
  have keptDaemon : perform (.keep .daemon) { d₀ with backup := some d₀.db } = some
        { d₀ with
          backup := some d₀.db
          kept := Function.update d₀.kept .daemon (some old) } := by
    simp [perform, running]
  refine holds_act keptDaemon (midway rfl rfl) ?_ fun _ _ => ⟨midway rfl rfl, failed rfl rfl⟩
  have keeping : Keeping s d₀ [] (fun _ => none)
      { d₀ with
        backup := some d₀.db
        kept := Function.update d₀.kept .daemon (some old) } :=
    ⟨rfl, rfl, fun h member => absurd member (by simp)⟩
  have fresh : ([] ++ install.helpers).Nodup := helpers_nodup (install.env d₀)
  change Durable.Holds perform FileOp.isCopy _ _
    ((keepHelpers s install.helpers fun _ => none).bind _) budget _
  refine holds_seq (holds_mono (keepHelpers_holds fresh keeping)
    (fun _ _ _ here ended => And.intro here ended) fun _ here => here)
    (fun _ here => midway here.1 here.2) ?_
  rintro n small result after ⟨here, kept⟩
  cases result with
  | none => exact ⟨midway here.1 here.2, failed here.1 here.2⟩
  | some hows =>
    obtain ⟨keeping, rfl⟩ := kept hows rfl
    have placing : Placing install s d₀
        { after with marker := some (swapMarker install s d₀) } := by
      refine ⟨rfl, by rw [here.1], ?_⟩
      intro h file replaces
      exact keeping.kept h (mem_of_has swappable.ships replaces.1) replaces.1 file replaces.2
    refine holds_act rfl (midway here.1 here.2) ?_ fun copies => copies.elim
    exact installStaged_holds swappable.ships (by omega) (fun left => refused (by omega)) placing

end Placing

/-! ### The next start -/

section NextStart

variable {install : Install B Db} {s : Staged B} {d₀ d : Disk B Db}

/-- The daemon and the helpers the release replaces are those of before. -/
def AllOld (s : Staged B) (d₀ : Disk B Db) (files : Place → Option B) : Prop :=
  files .daemon = d₀.installed .daemon ∧ HelpersOld s d₀ files

def AllNew (s : Staged B) (files : Place → Option B) : Prop :=
  files .daemon = some s.daemon ∧ ∀ staged ∈ s.helpers, files (.helper staged.1) = some staged.2

/-- The marker of a swap is gone and a helper it replaced is not back. -/
def Stranded (s : Staged B) (d₀ d : Disk B Db) : Prop :=
  d.marker = none ∧ ¬ HelpersOld s d₀ d.installed

/-- What a rollback brings back. -/
def Disk.comesBack (d : Disk B Db) : Place → Option B
  | .daemon => d.kept .daemon
  | .helper h => d.due h

def Disk.usedUp (d : Disk B Db) : Bool := d.marker.any fun m => maxBoots ≤ m.boots

/-- The running version was itself on its last start, and what a rollback of
it brings back is neither all of before nor all of the release. -/
structure Overrun (s : Staged B) (d₀ d : Disk B Db) : Prop where
  usedUp : d.usedUp = true
  kept : (d.kept .daemon).isSome
  mixed : ¬ (AllOld s d₀ d.comesBack ∨ AllNew s d.comesBack)

theorem boot_unmarked (marker : d.marker = none) : (install.boot d).2 = d := by
  have holds : Durable.Holds perform (fun _ => False) (fun _ _ after => after = d)
      (fun after => after = d) (bootGuard (install.env d)) 0 d :=
    bootGuard_unmarked marker rfl rfl
  exact (holds_finish holds).1

theorem settleOther_unfinished {may : FileOp B → Prop} {env : GuardEnv Db}
    {m : Marker} (boots : m.boots = 0) :
    Durable.Holds perform may (fun _ _ after => after.installed .daemon = d.installed .daemon ∧
        ∀ h ∈ env.helpers, after.installed (.helper h) = d.due h)
      (fun _ => True) (settleOther env m) 0 d := by
  unfold settleOther
  rw [if_pos boots, if_neg (fun both => by omega)]
  refine holds_seq (restoreHelpersFor_holds env d) (fun _ _ => trivial) ?_
  rintro n none - after ⟨only, helpers⟩
  obtain rfl := Nat.le_zero.mp none
  exact holds_act_some rfl trivial ⟨trivial, only.same.installed, helpers⟩

theorem boot_placing (swappable : Swappable install s d₀) (placing : Placing install s d₀ d) :
    AllOld s d₀ (install.boot d).2.installed := by
  have current : (install.env d).current = (install.env d₀).current := by
    simp [Install.env, placing.daemon]
  have different : (install.env d).current ≠ s.version := by
    rw [current]
    exact swappable.newer
  have holds : Durable.Holds perform (fun _ => False)
      (fun _ _ after => after.installed .daemon = d.installed .daemon ∧
        ∀ h ∈ (install.env d).helpers, after.installed (.helper h) = d.due h)
      (fun _ => True) (bootGuard (install.env d)) 0 d :=
    bootGuard_marked placing.marker (fun other => absurd other Bool.false_ne_true)
      (fun _ _ => settleOther_unfinished rfl)
      (fun _ same => absurd same different) (fun _ same => absurd same different)
  obtain ⟨daemon, helpers⟩ := (holds_finish holds).2
  refine ⟨daemon.trans placing.daemon, ?_⟩
  intro h old replaces
  exact (helpers h (mem_of_has swappable.ships replaces.1)).trans (due_of_placing placing replaces)

theorem boot_placed (swappable : Swappable install s d₀) (placed : Placed install s d₀ d) :
    AllNew s (install.boot d).2.installed := by
  have current : (install.env d).current = s.version := by
    simp [Install.env, placed.daemon, swappable.version]
  have holds : Durable.Holds perform (fun _ => False)
      (fun _ _ after => after.installed = d.installed)
      (fun _ => True) (bootGuard (install.env d)) 0 d :=
    bootGuard_marked placed.marker (fun other => absurd other Bool.false_ne_true)
      (fun _ other => absurd current other)
      (fun _ _ many => absurd many (by simp [swapMarker, maxBoots]))
      (fun _ _ _ => holds_act_some rfl trivial ⟨trivial, rfl⟩)
  have same := (holds_finish holds).2
  refine ⟨?_, fun staged member => ?_⟩
  · exact (congrFun same .daemon).trans placed.daemon
  · exact (congrFun same _).trans (placed.helpers staged member)

theorem boot_untouched (swappable : Swappable install s d₀) (untouched : Untouched d₀ d) :
    (¬ (d.usedUp = true ∧ (d.kept .daemon).isSome) ∧ (install.boot d).2.installed = d.installed) ∨
      (d.usedUp = true ∧ ∃ previous, d.kept .daemon = some previous ∧
        Back install.helpers previous d (install.boot d).2) := by
  cases marker : d.marker with
  | none =>
    refine .inl ⟨?_, by rw [boot_unmarked marker]⟩
    simp [Disk.usedUp, marker]
  | some m =>
    have current : (install.env d).current = (install.env d₀).current := by
      simp [Install.env, untouched.installed]
    have own := swappable.marker m (untouched.marker.symm.trans marker)
    simp only [Marker.isProbation, ← current, Bool.and_eq_true,
      Bool.not_eq_true', decide_eq_true_eq] at own
    obtain ⟨update, running⟩ := own
    have usedUp_iff : d.usedUp = true ↔ maxBoots < m.boots + 1 := by
      rw [Nat.lt_add_one_iff]
      simp [Disk.usedUp, marker]
    have holds : Durable.Holds perform (fun _ => False)
        (fun _ _ after => (¬ (d.usedUp = true ∧ (d.kept .daemon).isSome) ∧
            after.installed = d.installed) ∨
          (d.usedUp = true ∧ ∃ previous, d.kept .daemon = some previous ∧
            Back install.helpers previous d after))
        (fun _ => True) (bootGuard (install.env d)) 0 d := by
      refine bootGuard_marked marker (fun user => by simp [update] at user)
        (fun _ other => absurd running.symm other) (fun _ _ many => ?_)
        (fun _ _ few => ?_)
      · cases kept : d.kept .daemon with
        | none =>
          refine holds_mono (rollbackOrCarryOn_unkept _ _ _ kept) ?_ fun _ _ => trivial
          rintro n guard after - ⟨-, installed, -⟩
          exact .inl ⟨by simp, installed⟩
        | some previous =>
          refine holds_mono (rollbackOrCarryOn_holds _ _ _ kept) ?_ fun _ _ => trivial
          rintro n guard after - ⟨-, rolled⟩
          exact .inr ⟨usedUp_iff.mpr many, previous, rfl, rolled.back⟩
      · refine holds_act_some rfl trivial ⟨trivial, .inl ⟨?_, rfl⟩⟩
        rintro ⟨usedUp, -⟩
        have := usedUp_iff.mp usedUp
        omega
    exact (holds_finish holds).2

variable (install s d₀)

def swapRefused (oks : List Bool) : List (FileOp B) :=
  refused perform (swap (install.env d₀) s) oks d₀

def swapStopped (oks : List Bool) : Disk B Db := (exec perform (swap (install.env d₀) s) oks d₀).1

def swapResult (oks : List Bool) : Option (Option String) :=
  (exec perform (swap (install.env d₀) s) oks d₀).2

/-- At most one operation was refused, and it copies a file. -/
structure OneCopyRefused (oks : List Bool) : Prop where
  few : (swapRefused install s d₀ oks).length ≤ 1
  copies : ∀ op ∈ swapRefused install s d₀ oks, op.isCopy

variable {install s d₀}

theorem swap_stops (swappable : Swappable install s d₀) {oks : List Bool}
    (refused : OneCopyRefused install s d₀ oks) :
    Midswap install s (swapRefused install s d₀ oks ≠ []) d₀ (swapStopped install s d₀ oks) ∧
      ∀ result, swapResult install s d₀ oks = some result →
        Swapped install s d₀ (swapStopped install s d₀ oks) result := by
  refine holds_sound (swap_holds swappable refused.few ?_) (Nat.le_refl _) refused.copies
  intro left nothing
  simp [nothing] at left

theorem Untouched.helpersOld (untouched : Untouched d₀ d) : HelpersOld s d₀ d.installed := by
  intro h old replaces
  rw [untouched.installed]
  exact replaces.2

section

variable (swappable : Swappable install s d₀) {previous : B} {after : Disk B Db}
  (kept : d.kept .daemon = some previous) (back : Back install.helpers previous d after)

include swappable kept back

theorem allOld_back_iff :
    AllOld s d₀ after.installed ↔ AllOld s d₀ d.comesBack := by
  refine and_congr (by rw [back.daemon, Disk.comesBack, kept]) ?_
  refine forall_congr' fun h => forall_congr' fun old => ?_
  refine imp_congr_right fun replaces => ?_
  rw [back.helpers h (mem_of_has swappable.ships replaces.1), Disk.comesBack]

theorem allNew_back_iff :
    AllNew s after.installed ↔ AllNew s d.comesBack := by
  refine and_congr (by rw [back.daemon, Disk.comesBack, kept]) ?_
  refine forall_congr' fun staged => imp_congr_right fun member => ?_
  have ships := swappable.ships.subset (mem_map_of_mem member)
  rw [back.helpers staged.1 ships, Disk.comesBack]

end

/-- After the next start, the daemon and the helpers are all of before or all
of the release, unless the process died with the marker gone and a replaced
helper not back, or the running version had used up its own starts. -/
theorem swap_all_or_nothing_iff (install : Install B Db) (s : Staged B)
    (d₀ : Disk B Db) (swappable : Swappable install s d₀) (oks : List Bool)
    (refused : OneCopyRefused install s d₀ oks) :
    (AllOld s d₀ (install.boot (swapStopped install s d₀ oks)).2.installed ∨
        AllNew s (install.boot (swapStopped install s d₀ oks)).2.installed) ↔
      ¬ Stranded s d₀ (swapStopped install s d₀ oks) ∧
        ¬ Overrun s d₀ (swapStopped install s d₀ oks) := by
  have differ : d₀.installed .daemon ≠ some s.daemon := by
    intro same
    apply swappable.newer
    simp [Install.env, same, swappable.version]
  have stops := (swap_stops swappable refused).1
  generalize swapStopped install s d₀ oks = d at stops ⊢
  -- the swap's own marker is neither missing nor used up
  have fresh : d.marker = some (swapMarker install s d₀) →
      ¬ Stranded s d₀ d ∧ ¬ Overrun s d₀ d := by
    intro marker
    constructor
    · rintro ⟨gone, -⟩
      cases gone.symm.trans marker
    · rintro ⟨usedUp, -, -⟩
      simp [Disk.usedUp, marker, swapMarker, maxBoots] at usedUp
  cases stops with
  | before untouched =>
    have notStranded : ¬ Stranded s d₀ d := fun stranded => stranded.2 untouched.helpersOld
    rcases boot_untouched swappable untouched with
      ⟨running, same⟩ | ⟨usedUp, previous, kept, back⟩
    · rw [same]
      refine ⟨fun _ => ⟨notStranded, fun overrun => ?_⟩, fun _ => .inl ?_⟩
      · exact running ⟨overrun.usedUp, overrun.kept⟩
      · exact ⟨by rw [untouched.installed], untouched.helpersOld⟩
    · rw [allOld_back_iff swappable kept back, allNew_back_iff swappable kept back]
      constructor
      · exact fun either => ⟨notStranded, fun overrun => overrun.mixed either⟩
      · rintro ⟨-, notOverrun⟩
        refine not_not.mp fun mixed => notOverrun ⟨usedUp, ?_, mixed⟩
        simp [kept]
  | undoing _ unmarked =>
    rw [boot_unmarked unmarked.marker]
    constructor
    · intro either
      refine ⟨?_, fun overrun => ?_⟩
      · rintro ⟨-, notOld⟩
        rcases either with ⟨-, old⟩ | ⟨new, -⟩
        · exact notOld old
        · exact differ (unmarked.daemon.symm.trans new)
      · have usedUp := overrun.usedUp
        simp [Disk.usedUp, unmarked.marker] at usedUp
    · rintro ⟨notStranded, -⟩
      exact .inl ⟨unmarked.daemon, not_not.mp fun notOld =>
        notStranded ⟨unmarked.marker, notOld⟩⟩
  | placing placing =>
    exact ⟨fun _ => fresh placing.marker, fun _ => .inl (boot_placing swappable placing)⟩
  | placed placed =>
    exact ⟨fun _ => fresh placed.marker, fun _ => .inr (boot_placed swappable placed)⟩

end NextStart

/-! ### An update of one helper and the daemon -/

/-- Version 1.9.0 with its openvpn, before it has ever been updated. -/
def runningDisk : Disk String Nat where
  installed
    | .daemon => some "1.9.0"
    | .helper .openVPN => some "openvpn of 1.9.0"
    | .helper .charonCmd => none
  kept _ := none
  db := 6
  restore := none
  wal := true
  shm := true
  backup := none
  marker := none
  state :=
    { bucket := 40, lastAdvice := ⟨"2.0.0", 100, false⟩
      skip := "", rolledBackFrom := "", rolledBackBy := "", rollbackError := ""
      swapOf := fun _ => none }

def nextRelease : Staged String where
  version := "2.0.0"
  daemon := "2.0.0"
  helpers := [(.openVPN, "openvpn of 2.0.0"), (.charonCmd, "charon-cmd of 2.0.0")]

theorem runningDisk_swappable : Swappable plainInstall nextRelease runningDisk :=
  ⟨by rintro _ ⟨⟩, rfl, rfl, by decide, by decide⟩

/-- Dying between the helpers and the daemon: the helpers go back. -/
theorem runningDisk_unfinished : AllOld nextRelease runningDisk (plainInstall.boot
        (swapStopped plainInstall nextRelease runningDisk (replicate 9 true))).2.installed ∨
      AllNew nextRelease (plainInstall.boot (swapStopped plainInstall nextRelease runningDisk
          (replicate 9 true))).2.installed :=
  (swap_all_or_nothing_iff plainInstall nextRelease runningDisk
    runningDisk_swappable (replicate 9 true)
    ⟨by decide, by
      rw [show swapRefused plainInstall nextRelease runningDisk
        (replicate 9 true) = [] from rfl]
      simp⟩).mpr
    ⟨fun stranded => absurd stranded.1 (by decide),
      fun overrun => absurd overrun.usedUp (by decide)⟩

/-- The daemon's copy fails after nine operations, and the process dies when
it has removed the marker. -/
def cutWhileUndoing : List Bool := replicate 9 true ++ [false, true]

theorem cutWhileUndoing_refused : swapRefused plainInstall nextRelease runningDisk cutWhileUndoing =
      [.install .daemon "2.0.0"] := rfl

/-- The old daemon stays with the new openvpn. -/
theorem cutWhileUndoing_mixed : Swappable plainInstall nextRelease runningDisk ∧
      OneCopyRefused plainInstall nextRelease runningDisk cutWhileUndoing ∧
      ¬ AllOld nextRelease runningDisk (plainInstall.boot (swapStopped
        plainInstall nextRelease runningDisk cutWhileUndoing)).2.installed ∧
      ¬ AllNew nextRelease (plainInstall.boot (swapStopped
        plainInstall nextRelease runningDisk cutWhileUndoing)).2.installed := by
  refine ⟨runningDisk_swappable, ⟨?_, ?_⟩, ?_, ?_⟩
  · rw [cutWhileUndoing_refused]
    decide
  · rw [cutWhileUndoing_refused]
    simp [FileOp.isCopy]
  · rintro ⟨-, helpers⟩
    have openVPN := helpers .openVPN "openvpn of 1.9.0" ⟨by decide, rfl⟩
    revert openVPN
    decide
  · rintro ⟨daemon, -⟩
    revert daemon
    decide

/-! ### A rollback the user asks for -/

/-- The disk once the user has asked for a rollback. -/
def Install.requested (install : Install B Db) (d : Disk B Db) : Disk B Db :=
  (finish perform (requestRollback (install.env d)) d).2

/-- The disk after the rollback the user asked for. -/
def Install.rolledBack (install : Install B Db) (d : Disk B Db) : Disk B Db :=
  (install.boot (install.requested d)).2

/-- The same daemon and helpers come back, and the same database is offered. -/
structure SameRollback (install : Install B Db) (d other : Disk B Db) :
    Prop where
  daemon : (install.rolledBack other).installed .daemon = (install.rolledBack d).installed .daemon
  helpers : ∀ h ∈ install.helpers, (install.rolledBack other).installed (.helper h) =
      (install.rolledBack d).installed (.helper h)
  backup : other.backup = d.backup

variable {install : Install B Db}

theorem requested_eq {d : Disk B Db} {previous : B} (kept : d.kept .daemon = some previous) :
    install.requested d =
      { d with
        marker := some ⟨(install.env d).current, (install.env d).current, 0,
          true⟩ } := by
  have holds : Durable.Holds perform (fun _ => False)
      (fun _ _ after => after = { d with
        marker := some ⟨(install.env d).current, (install.env d).current, 0,
          true⟩ })
      (fun _ => True) (requestRollback (install.env d)) 0 d := by
    change Durable.Holds perform _ _ _ (if (d.kept .daemon).isSome then _ else _) 0 d
    rw [kept]
    exact holds_act_some rfl trivial ⟨trivial, rfl⟩
  exact (holds_finish holds).2

theorem rolledBack_back {d : Disk B Db} {previous : B} (kept : d.kept .daemon = some previous) :
    Back install.helpers previous d (install.rolledBack d) := by
  unfold Install.rolledBack
  rw [requested_eq kept]
  let asked : Disk B Db := { d with
    marker := some ⟨(install.env d).current, (install.env d).current, 0, true⟩ }
  have holds : Durable.Holds perform (fun _ => False)
      (fun _ _ after => Back install.helpers previous asked after)
      (fun _ => True) (bootGuard (install.env asked)) 0 asked := by
    refine bootGuard_marked rfl (fun _ => ?_) (fun other => nomatch other)
      (fun other => nomatch other) (fun other => nomatch other)
    refine holds_mono (rollbackOrCarryOn_holds _ _ "you" kept) ?_ fun _ _ => trivial
    exact fun _ _ _ _ ended => ended.2.back
  have back := (holds_finish holds).2
  exact ⟨back.daemon, back.helpers⟩

/-! ### A swap that fails -/

/-- An operation of a swap after those that back the database up and keep the
running daemon: it leaves the kept daemon alone. -/
def FileOp.isLate : FileOp B → Prop
  | .backupDB | .keep .daemon | .removeKept .daemon => False
  | _ => True

/-- What a swap leaves alone once the running daemon is kept. -/
theorem kept_of_late {release : Staged B} {op : FileOp B} (late : op.Late release)
    {file : Option B} {skip : String} (d after : Disk B Db)
    (before : d.kept .daemon = file ∧ d.state.skip = skip)
    (performed : perform op d = some after) :
    after.kept .daemon = file ∧ after.state.skip = skip := by
  cases late with
  | daemon | helper =>
    obtain rfl := Option.some.inj performed
    exact before
  | upkeep upkeep =>
    cases op with
    | keep p | removeKept p | putBack p =>
      cases p with
      | daemon => exact upkeep.elim
      | helper h =>
        first
        | obtain ⟨content, -, rfl⟩ := Option.map_eq_some_iff.mp performed
          exact ⟨by simpa using before.1, before.2⟩
        | obtain rfl := Option.some.inj performed
          exact ⟨by simpa using before.1, before.2⟩
    | updateState f =>
      obtain rfl := Option.some.inj performed
      exact ⟨before.1, (upkeep _).trans before.2⟩
    | writeMarker | removeMarker =>
      obtain rfl := Option.some.inj performed
      exact before
    | _ => exact upkeep.elim

theorem isLate_of_late {release : Staged B} {op : FileOp B} (late : op.Late release) :
    op.isLate := by
  cases late with
  | upkeep upkeep =>
    cases op with
    | keep p | removeKept p =>
      cases p with
      | daemon => exact upkeep
      | helper h => trivial
    | backupDB => exact upkeep
    | _ => trivial
  | daemon | helper => trivial

section Kept

variable {d₀ : Disk B Db} {current : B} (isCurrent : d₀.installed .daemon = some current)
  {backup : Option Db}

include isCurrent

theorem perform_keep_daemon : perform (.keep .daemon) { d₀ with backup := backup } = some
    { d₀ with
      backup := backup
      kept := Function.update d₀.kept .daemon (some current) } := by
  simp [perform, isCurrent]

/-- From the helpers on, the kept daemon is the running one. -/
theorem swapFiles_keeps (env : GuardEnv Db) (s : Staged B) {may : FileOp B → Prop} {n : Nat} :
    Durable.Holds perform may
      (fun k _ after => (after.kept .daemon = d₀.installed .daemon ∧
        after.state.skip = d₀.state.skip) ∧ (k < n → ∃ op : FileOp B, op.Late s ∧ may op))
      (fun _ => True) (swapFiles env s) n
      { d₀ with
        backup := backup
        kept := Function.update d₀.kept .daemon (some current) } := by
  have start : (Function.update d₀.kept .daemon (some current)) .daemon =
      d₀.installed .daemon := by simp [isCurrent]
  exact holds_mono (holds_frame (fun _ late => kept_of_late late) (swapFiles_uses env s)
    ⟨start, rfl⟩) (fun _ _ _ _ ended => ended) fun _ _ => trivial

end Kept

/-- What a swap leaves when one operation was refused and it returned an
error. -/
inductive FailedAt (d₀ : Disk B Db) : FileOp B → Disk B Db → Prop where
  | backup : FailedAt d₀ .backupDB { d₀ with backup := none }
  | keep : FailedAt d₀ (.keep .daemon) { d₀ with backup := some d₀.db }
  | late {op : FileOp B} {d : Disk B Db} (late : op.isLate)
      (kept : d.kept .daemon = d₀.installed .daemon) : FailedAt d₀ op d

theorem swap_fails {env : GuardEnv Db} {s : Staged B} {d₀ : Disk B Db}
    (running : (d₀.installed .daemon).isSome) (op : FileOp B) :
    Durable.Holds perform (fun other => other = op)
      (fun n result after => n = 0 → ∀ err, result = some err → FailedAt d₀ op after)
      (fun _ => True) (swap env s) 1 d₀ := by
  obtain ⟨current, isCurrent⟩ := Option.isSome_iff_exists.mp running
  refine holds_act rfl trivial ?_ ?_
  · refine holds_act rfl trivial ?_ ?_
    · refine holds_act (perform_keep_daemon isCurrent) trivial ?_ ?_
      · refine holds_mono (swapFiles_keeps isCurrent env s) ?_ fun _ _ => trivial
        rintro n result after - ⟨⟨kept, -⟩, refused⟩ rfl err -
        obtain ⟨other, late, rfl⟩ := refused Nat.zero_lt_one
        exact .late (isLate_of_late late) kept
      · rintro rfl -
        exact ⟨trivial, fun _ _ _ => .keep⟩
    · rintro rfl -
      exact ⟨trivial, fun _ _ _ => .backup⟩
  · -- the kept database could not be removed, which is no error
    rintro rfl -
    refine holds_act_some rfl trivial ?_
    refine holds_act_some (perform_keep_daemon isCurrent) trivial ?_
    refine holds_mono (swapFiles_keeps isCurrent env s) ?_ fun _ _ => trivial
    rintro n result after - ⟨⟨kept, -⟩, -⟩ - err -
    exact .late trivial kept

theorem failedAt_of_refused {s : Staged B}
    {d₀ : Disk B Db} {oks : List Bool} {op : FileOp B} {err : String}
    (running : (d₀.installed .daemon).isSome)
    (refusal : swapRefused install s d₀ oks = [op])
    (failed : swapResult install s d₀ oks = some (some err)) :
    FailedAt d₀ op (swapStopped install s d₀ oks) := by
  have isRefusal : refused perform (swap (install.env d₀) s) oks d₀ = [op] := refusal
  have ended := (holds_sound (swap_fails running op)
    (show (refused perform (swap (install.env d₀) s) oks d₀).length ≤ 1 by
      simp [isRefusal])
    (by simp [isRefusal])).2 (some err) failed
  rw [isRefusal] at ended
  exact ended rfl err rfl

theorem sameRollback_iff {d₀ d : Disk B Db} {previous : B} (kept : d₀.kept .daemon = some previous)
    (same : SameFiles d₀ d) :
    SameRollback install d₀ d ↔ d.backup = d₀.backup := by
  have before : Back install.helpers previous d₀ (install.rolledBack d₀) := rolledBack_back kept
  have after : Back install.helpers previous d (install.rolledBack d) :=
    rolledBack_back (by rw [same.kept, kept])
  refine ⟨SameRollback.backup, fun backup => ⟨?_, ?_, backup⟩⟩
  · rw [before.daemon, after.daemon]
  · intro h member
    rw [before.helpers h member, after.helpers h member, same.onlyHelpers.due]

/-- After a swap that failed, a rollback the user asks for is what it would
have been without the swap exactly when the database's backup failed and none
was kept, or keeping the running daemon failed and the kept database is the
current one. -/
theorem failed_swap_keeps_rollback_iff (install : Install B Db) (s : Staged B)
    (d₀ : Disk B Db) (current previous : B)
    (running : d₀.installed .daemon = some current)
    (kept : d₀.kept .daemon = some previous) (different : previous ≠ current)
    (oks : List Bool) (op : FileOp B) (err : String)
    (refusal : swapRefused install s d₀ oks = [op])
    (failed : swapResult install s d₀ oks = some (some err)) :
    SameRollback install d₀ (swapStopped install s d₀ oks) ↔ (op = .backupDB ∧ d₀.backup = none) ∨
        (op = .keep .daemon ∧ d₀.backup = some d₀.db) := by
  have isRunning : (d₀.installed .daemon).isSome := by simp [running]
  have failure := failedAt_of_refused isRunning refusal failed
  generalize swapStopped install s d₀ oks = d at failure ⊢
  cases failure with
  | backup =>
    have same : SameFiles d₀ { d₀ with backup := none } := ⟨rfl, rfl, rfl, rfl⟩
    refine (sameRollback_iff kept same).trans ?_
    simp [eq_comm]
  | keep =>
    have same : SameFiles d₀ { d₀ with backup := some d₀.db } := ⟨rfl, rfl, rfl, rfl⟩
    refine (sameRollback_iff kept same).trans ?_
    simp [eq_comm]
  | late late lost =>
    constructor
    · intro same
      have before : Back install.helpers previous d₀ (install.rolledBack d₀) := rolledBack_back kept
      have after : Back install.helpers current d (install.rolledBack d) :=
        rolledBack_back (lost.trans running)
      have equal := same.daemon
      rw [before.daemon, after.daemon] at equal
      exact absurd (Option.some.inj equal).symm different
    · rintro (⟨rfl, -⟩ | ⟨rfl, -⟩)
      · exact late.elim
      · exact late.elim

/-! ### An update that fails after one that succeeded -/

/-- Version 2.0.0, updated from 1.9.0 with its database kept. -/
def updatedDisk : Disk String Nat := { askedDisk with marker := none }

def thirdRelease : Staged String where
  version := "2.1.0"
  daemon := "2.1.0"
  helpers := []

/-- No database was kept, and backing it up fails. -/
theorem backupFails_keeps_rollback : SameRollback plainInstall { updatedDisk with backup := none }
      (swapStopped plainInstall thirdRelease { updatedDisk with backup := none } [true, false]) :=
  (failed_swap_keeps_rollback_iff plainInstall thirdRelease
    { updatedDisk with backup := none } "2.0.0" "1.9.0" rfl rfl (by decide)
    [true, false] .backupDB "back up database" rfl rfl).mpr (.inl ⟨rfl, rfl⟩)

/-- The new daemon can't be copied: the rollback then brings 2.0.0 back where
it was 1.9.0 before, and the kept database and openvpn are gone. -/
theorem installFails_spoils_rollback : swapRefused plainInstall thirdRelease updatedDisk
        (List.replicate 7 true ++ [false, true]) = [.install .daemon "2.1.0"] ∧
      swapResult plainInstall thirdRelease updatedDisk
        (List.replicate 7 true ++ [false, true]) = some (some "install binary") ∧
      (plainInstall.rolledBack updatedDisk).installed .daemon = some "1.9.0" ∧
      (plainInstall.rolledBack (swapStopped plainInstall thirdRelease updatedDisk
        (List.replicate 7 true ++ [false, true]))).installed .daemon = some "2.0.0" ∧
      ¬ SameRollback plainInstall updatedDisk (swapStopped plainInstall
        thirdRelease updatedDisk (List.replicate 7 true ++ [false, true])) := by
  refine ⟨rfl, rfl, by decide +kernel, by decide +kernel, ?_⟩
  intro same
  have daemon := same.daemon
  revert daemon
  decide +kernel

end Updater

end RiftRoute
