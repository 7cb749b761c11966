/-
Module: RiftRoute.BuildInfo.Compare
Purpose: The order of builds: by semantic version where both have one that
  counts, else by commit time.  Which triples of builds it orders consistently.
Trusted boundary: human-reviewed spec
Main exports: compareBuilds, Build.Near
-/
import RiftRoute.Library.Netip
import Mathlib.Data.Option.NAry

namespace RiftRoute.BuildInfo

open Netip (decimal)
open Texts (splitOn)

/-! ### Versions -/

structure Build where
  version : String := ""
  moduleVersion : String := ""
  commitTime : String := ""
deriving DecidableEq, Repr

/-- `strconv.Atoi`. -/
def atoi (text : String) : Option Int :=
  (match text.toList with
    | '-' :: digits => (decimal digits).map fun n => -(n : Int)
    | '+' :: digits => (decimal digits).map Int.ofNat
    | digits => (decimal digits).map Int.ofNat).filter fun n => -2 ^ 63 ≤ n ∧ n < 2 ^ 63

structure Semver where
  major : Int
  minor : Int
  patch : Int
  pre : List String := []
deriving DecidableEq, Repr

/-- What follows a plus is dropped; what follows the first hyphen are the
pre-release identifiers. -/
def parseSemver (v : String) : Option Semver :=
  match v.toList with
  | 'v' :: rest =>
    let text := rest.takeWhile (· ≠ '+')
    let pre := if '-' ∈ text then splitOn '.' ((text.dropWhile (· ≠ '-')).drop 1) else []
    match (splitOn '.' (text.takeWhile (· ≠ '-'))).map (atoi ∘ String.ofList) with
    | [some major, some minor, some patch] =>
      if major < 0 ∨ minor < 0 ∨ patch < 0 then none
      else some ⟨major, minor, patch, pre.map String.ofList⟩
    | _ => none
  | _ => none

def sign (n : Int) : Ordering := compare n 0

/-- The value of a machine integer. -/
def wrap (n : Int) : Int := (n + 2 ^ 63) % 2 ^ 64 - 2 ^ 63

/-- Numeric identifiers have lower precedence. -/
def comparePre (a b : String) : Ordering :=
  match atoi a, atoi b with
  | some m, some n => sign (wrap (m - n))
  | some _, none => .lt
  | none, some _ => .gt
  | none, none => compare a b

/-- The loop over the identifiers, then their numbers. -/
def comparePres : List String → List String → Ordering
  | a :: as, b :: bs => (comparePre a b).then (comparePres as bs)
  | as, bs => compare as.length bs.length

/-- A release outranks its pre-releases. -/
def compareParsed (p q : Semver) : Ordering :=
  (compare p.major q.major).then ((compare p.minor q.minor).then
    ((compare p.patch q.patch).then
      (match p.pre, q.pre with
        | [], [] => .eq
        | [], _ => .gt
        | _, [] => .lt
        | as, bs => comparePres as bs)))

def compareSemver (a b : String) : Option Ordering :=
  Option.map₂ compareParsed (parseSemver a) (parseSemver b)

/-! ### Builds -/

def isIdent (c : Char) : Bool := c.isAlphanum || c = '.' || c = '-'

/-- A pseudo-version with no tag behind it: `v0.0.0-`, maybe identifiers and a
dot, fourteen digits, a hyphen and twelve hexadecimal digits, maybe build
metadata. -/
def untagged (b : Build) : Bool :=
  let text := b.moduleVersion.toList
  let stamp := (text.drop 7).takeWhile (· ≠ '+')
  let metadata := (text.drop 7).dropWhile (· ≠ '+')
  let front := stamp.take (stamp.length - 27)
  let back := stamp.drop (stamp.length - 27)
  "v0.0.0-".toList.isPrefixOf text &&
    (metadata = [] || 1 < metadata.length && (metadata.drop 1).all isIdent) &&
    (front = [] || 1 < front.length && front.all isIdent && front.getLast? = some '.') &&
    back.length = 27 && (back.take 14).all Char.isDigit && back[14]? = some '-' &&
    (back.drop 15).all fun c => c.isDigit || 'a' ≤ c && c ≤ 'f'

def releaseOnly (v : List Char) : Bool :=
  let parts := splitOn '.' v
  parts.length = 3 && parts.all fun p => p ≠ [] && p.all Char.isDigit

/-- The toolchain's version, else a plain release stamp. -/
def semverOf (b : Build) : String :=
  if b.moduleVersion ≠ "" then b.moduleVersion
  else if releaseOnly b.version.toList then "v" ++ b.version
  else ""

/-- Different versions decide, then times, then equal versions. -/
def pick (bySemver byTime : Option Ordering) : Option Ordering :=
  if bySemver.any (· ≠ .eq) then bySemver else byTime.or bySemver

/-- The order of two builds, if they can be ordered; `time` reads a commit
time as an instant. -/
def compareBuilds (time : String → Option Int) (a b : Build) : Option Ordering :=
  pick (if untagged a ∨ untagged b then none else compareSemver (semverOf a) (semverOf b))
    (Option.map₂ compare (time a.commitTime) (time b.commitTime))

/-! ### The order of versions -/

/-- The version of a build, if it counts. -/
def Build.counts (b : Build) : Option Semver :=
  if untagged b then none else parseSemver (semverOf b)

/-- The numbers among the pre-release identifiers. -/
def Semver.numbers (p : Semver) : List Int := p.pre.filterMap atoi

/-- The identifiers compared without overflow. -/
def preOrder (a b : String) : Ordering :=
  match atoi a, atoi b with
  | some m, some n => compare m n
  | some _, none => .lt
  | none, some _ => .gt
  | none, none => compare a b

instance : Std.OrientedCmp preOrder where
  eq_swap {a b} := by
    cases first : atoi a <;> cases second : atoi b <;> simp only [preOrder, first, second]
    · exact Std.OrientedOrd.eq_swap
    · rfl
    · rfl
    · exact Std.OrientedOrd.eq_swap

instance : Std.TransCmp preOrder where
  isLE_trans {a b c} ab bc := by
    cases first : atoi a <;> cases second : atoi b <;> cases third : atoi c <;>
      simp only [preOrder, first, second, third] at *
    all_goals first | exact Std.TransOrd.isLE_trans ab bc | contradiction | rfl

def preList (p q : Semver) : Ordering := p.pre.compareLex preOrder q.pre

instance : Std.TransCmp preList where
  eq_swap := (inferInstance : Std.OrientedCmp (List.compareLex preOrder)).eq_swap
  isLE_trans := (inferInstance : Std.TransCmp (List.compareLex preOrder)).isLE_trans

def semverOrder : Semver → Semver → Ordering :=
  compareLex (compareOn Semver.major) (compareLex (compareOn Semver.minor)
    (compareLex (compareOn Semver.patch) (compareLex (compareOn fun p => p.pre.isEmpty) preList)))

instance : Std.TransCmp semverOrder := inferInstanceAs (Std.TransCmp (compareLex _ _))

/-- No difference of two numbers overflows. -/
def Near (p q : Semver) : Prop := ∀ m ∈ p.numbers, ∀ n ∈ q.numbers, (m - n).natAbs < 2 ^ 63

theorem comparePre_eq {a b : String}
    (near : ∀ m ∈ atoi a, ∀ n ∈ atoi b, (m - n).natAbs < 2 ^ 63) :
    comparePre a b = preOrder a b := by
  unfold comparePre preOrder
  split
  case h_1 m n first second =>
    have small := near m first n second
    have same : wrap (m - n) = m - n := by
      unfold wrap
      omega
    rw [same, sign, Int.compare_eq_ite_lt, Int.compare_eq_ite_lt]
    simp
  all_goals rfl

theorem comparePres_eq {as bs : List String} (near : ∀ m ∈ as.filterMap atoi,
      ∀ n ∈ bs.filterMap atoi, (m - n).natAbs < 2 ^ 63) :
    comparePres as bs = as.compareLex preOrder bs := by
  induction as generalizing bs with
  | nil =>
    cases bs with
    | nil => rfl
    | cons b bs => exact Nat.compare_eq_lt.mpr (Nat.succ_pos _)
  | cons a as ih =>
    cases bs with
    | nil => exact Nat.compare_eq_gt.mpr (Nat.succ_pos _)
    | cons b bs =>
      rw [comparePres, List.compareLex_cons_cons, ih, comparePre_eq]
      · intro m first n second
        exact near m (List.mem_filterMap.mpr ⟨a, by simp, first⟩) n
          (List.mem_filterMap.mpr ⟨b, by simp, second⟩)
      · intro m first n second
        obtain ⟨s, inside, read⟩ := List.mem_filterMap.mp first
        obtain ⟨t, within, got⟩ := List.mem_filterMap.mp second
        exact near m (List.mem_filterMap.mpr ⟨s, by simp [inside], read⟩) n
          (List.mem_filterMap.mpr ⟨t, by simp [within], got⟩)

theorem compareParsed_eq {p q : Semver} (near : Near p q) :
    compareParsed p q = semverOrder p q := by
  have pres := comparePres_eq near
  unfold compareParsed semverOrder compareLex compareOn preList
  congr 3
  obtain ⟨_, _, _, as⟩ := p
  obtain ⟨_, _, _, bs⟩ := q
  cases as with
  | nil => cases bs <;> rfl
  | cons a as =>
    cases bs with
    | nil => rfl
    | cons b bs => exact pres

/-! ### The order of builds -/

theorem map₂_swap {α : Type} {cmp : α → α → Ordering} [Std.OrientedCmp cmp] (x y : Option α) :
    Option.map₂ cmp y x = (Option.map₂ cmp x y).map Ordering.swap := by
  cases x with
  | none => cases y <;> rfl
  | some x =>
    cases y with
    | none => rfl
    | some y => exact congrArg some Std.OrientedCmp.eq_swap

theorem pick_swap (v t : Option Ordering) :
    pick (v.map .swap) (t.map .swap) = (pick v t).map .swap := by
  rcases v with _ | _ | _ | _ <;> cases t <;> rfl

theorem isLE_of_pick {v t : Option Ordering} {o : Ordering} (picked : pick v t = some o) :
    o.isLE ↔ (∀ x ∈ v, x.isLE) ∧ ((∀ x ∈ v, x = .eq) → ∀ y ∈ t, y.isLE) := by
  rcases v with _ | _ | _ | _ <;> rcases t with _ | y <;> cases picked <;> simp

section Ordered

variable (time : String → Option Int) (a b c : Build)

def versions : Option Ordering := Option.map₂ semverOrder a.counts b.counts

def times : Option Ordering := Option.map₂ compare (time a.commitTime) (time b.commitTime)

/-- No difference of the builds' pre-release numbers overflows. -/
def Build.Near : Prop := ∀ p ∈ a.counts, ∀ q ∈ b.counts, BuildInfo.Near p q

/-- What lets versions and commit times be mixed.  If all three versions count
and are equal, only the middle build's commit time may not be missing alone;
if one does not count, the others' versions follow their commit times. -/
def Steady : Prop :=
  if a.counts.isSome ∧ b.counts.isSome ∧ c.counts.isSome then
    versions a b = some .eq → versions b c = some .eq → (times time a c).isSome →
      (time b.commitTime).isSome
  else ∀ x ∈ [a, b, c], ∀ y ∈ [a, b, c], versions x y = some .lt → times time x y = some .lt

variable {time a b c}

theorem compareBuilds_eq (near : a.Near b) :
    compareBuilds time a b = pick (versions a b) (times time a b) := by
  unfold compareBuilds
  congr 1
  unfold Build.Near versions Build.counts at *
  by_cases first : untagged a
  · simp [first]
  · by_cases second : untagged b
    · simp [second]
    · simp only [first, second, or_self, if_false, Bool.false_eq_true] at near ⊢
      unfold compareSemver
      cases parsed : parseSemver (semverOf a) with
      | none => rfl
      | some p =>
        cases other : parseSemver (semverOf b) with
        | none => rfl
        | some q => exact congrArg some (compareParsed_eq (near p parsed q other))

theorem Build.Near.symm (near : a.Near b) : b.Near a := by
  intro p first q second m inside n within
  rw [← Int.natAbs_neg, Int.neg_sub]
  exact near q second p first n within m inside

theorem compareBuilds_swap (near : a.Near b) :
    compareBuilds time b a = (compareBuilds time a b).map Ordering.swap := by
  rw [compareBuilds_eq near, compareBuilds_eq near.symm, ← pick_swap]
  exact congrArg₂ pick (map₂_swap _ _) (map₂_swap _ _)

/-- The build is not newer, by the criteria that decide the pair. -/
def NotNewer (time : String → Option Int) (a b : Build) : Prop :=
  (∀ x ∈ versions a b, x.isLE) ∧
    ((∀ x ∈ versions a b, x = .eq) → ∀ y ∈ times time a b, y.isLE)

theorem notNewer_counted {p q r : Semver} (first : a.counts = some p) (second : b.counts = some q)
    (third : c.counts = some r)
    (steady : versions a b = some .eq → versions b c = some .eq → (times time a c).isSome →
      (time b.commitTime).isSome)
    (ab : NotNewer time a b) (bc : NotNewer time b c) : NotNewer time a c := by
  have pq : versions a b = some (semverOrder p q) := by rw [versions, first, second]; rfl
  have qr : versions b c = some (semverOrder q r) := by rw [versions, second, third]; rfl
  have pr : versions a c = some (semverOrder p r) := by rw [versions, first, third]; rfl
  unfold NotNewer at *
  simp only [pq, qr, pr, Option.mem_def, Option.some.injEq, forall_eq'] at ab bc steady ⊢
  refine ⟨Std.TransCmp.isLE_trans ab.1 bc.1, fun same y here => ?_⟩
  have back : (semverOrder r p).isLE := by
    rw [Std.OrientedCmp.eq_comm.mp same]
    rfl
  have early := Std.OrientedCmp.isLE_antisymm ab.1 (Std.TransCmp.isLE_trans bc.1 back)
  have late := Std.OrientedCmp.isLE_antisymm bc.1 (Std.TransCmp.isLE_trans back ab.1)
  have timed : (times time a c).isSome := Option.isSome_of_mem here
  obtain ⟨t, middle⟩ := Option.isSome_iff_exists.mp (steady early late timed)
  obtain ⟨s, u, start, stop, rfl⟩ := Option.mem_map₂_iff.mp here
  have st := ab.2 early _ (Option.mem_map₂_iff.mpr ⟨s, t, start, middle, rfl⟩)
  have tu := bc.2 late _ (Option.mem_map₂_iff.mpr ⟨t, u, middle, stop, rfl⟩)
  exact Std.TransOrd.isLE_trans st tu

theorem notNewer_timed {t : Int} (middle : time b.commitTime = some t)
    (follows : ∀ x ∈ [a, b, c], ∀ y ∈ [a, b, c], versions x y = some .lt →
      times time x y = some .lt)
    (ab : NotNewer time a b) (bc : NotNewer time b c) : NotNewer time a c := by
  have timely : ∀ x ∈ [a, b, c], ∀ y ∈ [a, b, c], NotNewer time x y →
      ∀ o ∈ times time x y, o.isLE := by
    intro x inside y within early o here
    by_cases older : versions x y = some .lt
    · rw [follows x inside y within older] at here
      obtain rfl := Option.some.inj here
      rfl
    · refine early.2 (fun v found => ?_) o here
      have le := early.1 v found
      cases v with
      | lt => exact absurd found older
      | eq => rfl
      | gt => cases le
  have chain : ∀ o ∈ times time a c, o.isLE := by
    intro o here
    obtain ⟨s, u, start, stop, rfl⟩ := Option.mem_map₂_iff.mp here
    have st := timely a (by simp) b (by simp) ab _
      (Option.mem_map₂_iff.mpr ⟨s, t, start, middle, rfl⟩)
    have tu := timely b (by simp) c (by simp) bc _
      (Option.mem_map₂_iff.mpr ⟨t, u, middle, stop, rfl⟩)
    exact Std.TransOrd.isLE_trans st tu
  refine ⟨fun v found => ?_, fun _ => chain⟩
  cases v with
  | lt | eq => rfl
  | gt =>
    have back : versions c a = some .lt := by
      rw [versions, map₂_swap]
      exact congrArg (Option.map Ordering.swap) found
    have less := follows c (by simp) a (by simp) back
    rw [times, map₂_swap] at less
    obtain ⟨o, here, swapped⟩ := Option.map_eq_some_iff.mp less
    have le := chain o here
    cases o <;> simp at swapped le

theorem timed_of_uncounted {o : Ordering} (near : a.Near b)
    (one : a.counts = none ∨ b.counts = none) (ordered : compareBuilds time a b = some o) :
    (time a.commitTime).isSome ∧ (time b.commitTime).isSome := by
  have uncounted : versions a b = none := by
    unfold versions
    rcases one with one | one <;> simp [one]
  rw [compareBuilds_eq near, uncounted] at ordered
  have timed : times time a b = some o := by simpa [pick] using ordered
  obtain ⟨s, t, start, stop, -⟩ := Option.mem_map₂_iff.mp timed
  exact ⟨Option.isSome_of_mem start, Option.isSome_of_mem stop⟩

/-- **Builds are ordered consistently**: the order the other way round is the
opposite one, and three builds that versions and commit times order the same
way are ordered transitively. -/
theorem compareBuilds_consistent (time : String → Option Int) {a b c : Build}
    (near : a.Near b ∧ b.Near c ∧ a.Near c) :
    compareBuilds time b a = (compareBuilds time a b).map Ordering.swap ∧
    ∀ ab bc ac, compareBuilds time a b = some ab → compareBuilds time b c = some bc →
      compareBuilds time a c = some ac → Steady time a b c →
      ab.isLE → bc.isLE → ac.isLE := by
  refine ⟨compareBuilds_swap near.1, fun ab bc ac first second third steady early late => ?_⟩
  have step : ∀ {x y o}, x.Near y → compareBuilds time x y = some o →
      (o.isLE ↔ NotNewer time x y) := fun near ordered =>
    isLE_of_pick ((compareBuilds_eq near).symm.trans ordered)
  rw [step near.2.2 third]
  rw [step near.1 first] at early
  rw [step near.2.1 second] at late
  unfold Steady at steady
  split at steady
  case isTrue counted =>
    obtain ⟨p, hp⟩ := Option.isSome_iff_exists.mp counted.1
    obtain ⟨q, hq⟩ := Option.isSome_iff_exists.mp counted.2.1
    obtain ⟨r, hr⟩ := Option.isSome_iff_exists.mp counted.2.2
    exact notNewer_counted hp hq hr steady early late
  case isFalse uncounted =>
    have timed : (time b.commitTime).isSome := by
      by_cases one : a.counts = none ∨ b.counts = none
      · exact (timed_of_uncounted near.1 one first).2
      · have three : c.counts = none := by
          simpa [Option.isSome_iff_ne_none, not_or.mp one] using uncounted
        exact (timed_of_uncounted near.2.1 (.inr three) second).1
    obtain ⟨t, middle⟩ := Option.isSome_iff_exists.mp timed
    exact notNewer_timed middle steady early late

end Ordered

/-! ### Versions against commit times -/

/-- Commit times that are years. -/
def years (text : String) : Option Int := (decimal text.toList).map Int.ofNat

def early : Build := { moduleVersion := "v2.0.0", commitTime := "2020" }

/-- A build where no tag was reachable. -/
def between : Build :=
  { moduleVersion := "v0.0.0-20210301120000-0123456789ab", commitTime := "2021" }

def maintenance : Build := { moduleVersion := "v1.9.0", commitTime := "2022" }

def later : Build := { moduleVersion := "v2.1.0", commitTime := "2022" }

theorem later_not_older : Steady years early between later ∧ compareBuilds years early later =
    some .lt ∧ ∀ ab bc ac, compareBuilds years early between = some ab →
      compareBuilds years between later = some bc → compareBuilds years early later = some ac →
      ab.isLE → bc.isLE → ac.isLE := by
  have uncounted : between.counts = none := by decide
  have first : early.counts = some ⟨2, 0, 0, []⟩ := by decide
  have last : later.counts = some ⟨2, 1, 0, []⟩ := by decide
  have near : early.Near between ∧ between.Near later ∧ early.Near later := by
    simp [Build.Near, Near, Semver.numbers, uncounted, first]
  have steady : Steady years early between later := by
    have inOrder : ∀ x ∈ [early, between, later], ∀ y ∈ [early, between, later],
        versions x y = some .lt → times years x y = some .lt := by
      simp only [List.forall_mem_cons, List.not_mem_nil, false_imp_iff, implies_true, and_true,
        versions, uncounted, first, last]
      decide
    simpa [Steady, uncounted] using inOrder
  refine ⟨steady, by decide, fun ab bc ac earlier later whole => ?_⟩
  exact (compareBuilds_consistent years near).2 ab bc ac earlier later whole steady

/-- The untagged build is ordered by time, the releases by version. -/
theorem maintenance_between : compareBuilds years early between = some .lt ∧
    compareBuilds years between maintenance = some .lt ∧
    compareBuilds years early maintenance = some .gt := by
  decide

end RiftRoute.BuildInfo
