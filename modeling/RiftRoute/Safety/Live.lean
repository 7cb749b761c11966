/-
Module: RiftRoute.Safety.Live
Purpose: Live repair: how often an apply puts back a route that another program
  removes, over whole runs of applies.
Trusted boundary: human-reviewed spec
Main exports: repair, Fits.note
-/
import RiftRoute.Library.Machine
import RiftRoute.Routing.Installed

namespace RiftRoute.Live

open List

def liveStrikes : Nat := 3

/-- Times are in seconds. -/
def liveWindow : Int := 600

def liveHold : Int := 1800

def liveGap : Int := 20

/-- The sightings of a route that went missing, the latest first.  A route without
a record has the empty one. -/
structure LiveRecord where
  seen : List Int := []
  heldUntil : Option Int := none

def LiveRecord.held (r : LiveRecord) (now : Int) : Bool := r.heldUntil.any (now < ·)

/-- Forget what stopped going missing. -/
def LiveRecord.forget (r : LiveRecord) (now : Int) : LiveRecord :=
  if r.heldUntil.all (· < now) ∧ r.seen.head?.all (now - · > liveWindow) then {} else r

/-- Record one route found missing. -/
def LiveRecord.note (r : LiveRecord) (now : Int) : LiveRecord :=
  if r.seen.head?.any (now - · < liveGap) then r
  else
    let seen := now :: r.seen.filter (now - · ≤ liveWindow)
    if liveStrikes ≤ seen.length then ⟨[], some (now + liveHold)⟩ else ⟨seen, r.heldUntil⟩

/-- An apply: what it reads, and what it wants. -/
structure Apply where
  now : Int
  owned : List ManagedRoute
  desired : List ManagedRoute
  read : Family → Option (List Route)
  tunnelsOnly : Bool := false
  /-- Whether its plan is executed: not when a guardrail or a change awaiting
  confirmation refuses it, it is built again, or it fails. -/
  carriedOut : Bool := true
  /-- The records hold a route once. -/
  distinct : (owned.map ManagedRoute.key).Nodup

/-- The records, and as history the counted put-backs of each route, the latest
first. -/
structure Repair where
  now : Int
  recs : RouteKey → LiveRecord := fun _ => {}
  counted : RouteKey → List Int := fun _ => []

def Apply.verified (a : Apply) (s : Repair) : Verified :=
  verifyRoutes a.desired a.read (fun k => (s.recs k).held a.now)
    (if a.tunnelsOnly then isTunnelRoute else fun _ => true) a.owned

/-- The routes found missing that are counted. -/
def Apply.missing (a : Apply) (s : Repair) : List ManagedRoute :=
  (a.verified s).missing.filter fun o => !isTunnelRoute o

def Apply.note (a : Apply) (s : Repair) : RouteKey → LiveRecord :=
  if (a.verified s).missing = [] then s.recs
  else (a.missing s).foldl
    (fun recs o => Function.update recs o.key ((recs o.key).note a.now))
    fun k => (s.recs k).forget a.now

/-- The apply's plan puts back a route that is not a tunnel's: it is recorded, and
the plan adds it. -/
def Apply.putsBack (a : Apply) (s : Repair) (k : RouteKey) : Bool :=
  a.owned.any (fun o => o.key = k && !isTunnelRoute o) &&
    k ∈ a.desired.map ManagedRoute.key && k ∉ (a.verified s).kept.map ManagedRoute.key

/-- An apply notes what it finds missing before anything can refuse it. -/
def step (s : Repair) (a : Apply) : Option Repair :=
  if a.now < s.now then none
  else some
    { now := a.now
      recs := a.note s
      counted := fun k =>
        if a.carriedOut ∧ a.putsBack s k ∧ (s.counted k).head?.all (a.now - · ≥ liveGap) then
          a.now :: s.counted k
        else s.counted k }

def repair : Machine Repair Apply := ⟨step⟩

/-! ### One route -/

/-- A fourth put-back comes only after the hold that the third began. -/
def Spaced (times : List Int) : Prop :=
  ∀ d c b a rest, d :: c :: b :: a :: rest <:+ times → c - a ≤ liveWindow → c + liveHold ≤ d

/-- How a route's record goes with its counted put-backs: it is held since the
latest, or the record has those that are not stale. -/
inductive Stands (now : Int) : List Int → LiveRecord → Prop
  | held {c : Int} {rest : List Int} (spaced : Spaced (c :: rest)) (soon : now < c + liveHold) :
      Stands now (c :: rest) ⟨[], some (c + liveHold)⟩
  | free (seen : List Int) {old : List Int} {ends : Option Int}
      (spaced : Spaced (now :: (seen ++ old))) (ended : ∀ u ∈ ends, u ≤ now)
      (few : seen.length < liveStrikes)
      (stale : ∀ t ∈ old, liveWindow < now - t) : Stands now (seen ++ old) ⟨seen, ends⟩

structure Fits (now : Int) (times : List Int) (r : LiveRecord) : Prop where
  past : ∀ t ∈ times, t ≤ now
  sorted : times.Pairwise (· ≥ ·)
  stands : Stands now times r

variable {now after : Int} {times : List Int} {r : LiveRecord}

theorem Spaced.cons (spaced : Spaced times) (waits : ∀ c b a rest, times = c :: b :: a :: rest →
    c - a ≤ liveWindow → c + liveHold ≤ now) : Spaced (now :: times) := by
  intro d c b a rest part close
  rcases suffix_cons_iff.mp part with whole | part
  · obtain ⟨rfl, same⟩ := cons.inj whole
    exact waits c b a rest same.symm close
  · exact spaced d c b a rest part close

theorem Spaced.tail {t : Int} (spaced : Spaced (t :: times)) : Spaced times :=
  fun d c b a rest part => spaced d c b a rest (part.trans (suffix_cons ..))

theorem Stands.spaced (stands : Stands now times r) : Spaced times := by
  cases stands with
  | held spaced => exact spaced
  | free _ spaced => exact spaced.tail

theorem Stands.held_of_third (stands : Stands now times r) {c b a : Int} {rest : List Int}
    (third : times = c :: b :: a :: rest) (close : c - a ≤ liveWindow)
    (soon : now < c + liveHold) : r.held now = true := by
  cases stands with
  | held =>
    obtain ⟨rfl, -⟩ := cons.inj third
    simp [LiveRecord.held, soon]
  | free _ spaced =>
    exact absurd (spaced now c b a rest (third ▸ suffix_refl _) close) (not_le.mpr soon)

theorem Fits.later (fits : Fits now times r) (elapsed : now ≤ after) : Fits after times r := by
  refine ⟨fun t member => (fits.past t member).trans elapsed, fits.sorted, ?_⟩
  cases fits.stands with
  | @held c rest spaced soon =>
    by_cases still : after < c + liveHold
    · exact .held spaced still
    rw [not_lt] at still
    refine .free [] (spaced.cons fun _ _ _ _ same _ => (cons.inj same).1 ▸ still)
      (fun u is => Option.some.inj is ▸ still) (by decide) fun t member => ?_
    have : t ≤ c := by
      rcases mem_cons.mp member with rfl | among
      · exact le_rfl
      · exact rel_of_pairwise_cons fits.sorted among
    simp only [liveWindow, liveHold] at still ⊢
    omega
  | free seen spaced ended few stale =>
    refine .free seen (spaced.tail.cons fun c b a rest same close => ?_)
      (fun u is => (ended u is).trans elapsed) few fun t member => ?_
    · exact (spaced now c b a rest (same ▸ suffix_refl _) close).trans elapsed
    · exact (stale t member).trans_le (Int.sub_le_sub_right elapsed t)

theorem Fits.forget (fits : Fits now times r) : Fits now times (r.forget now) := by
  obtain ⟨past, sorted, stands⟩ := fits
  refine ⟨past, sorted, ?_⟩
  unfold LiveRecord.forget
  split
  · next old =>
    cases stands with
    | held spaced soon =>
      have ended := of_decide_eq_true old.1
      omega
    | free seen spaced ended few stale =>
      refine .free [] spaced (by simp) (by decide) fun t member => ?_
      rcases mem_append.mp member with among | among
      · cases seen with
        | nil => cases among
        | cons latest rest =>
          have gone := of_decide_eq_true old.2
          rcases mem_cons.mp among with rfl | earlier
          · exact gone
          · have := rel_of_pairwise_cons sorted (mem_append_left _ earlier)
            omega
      · exact stale t among
  · exact stands

theorem filter_sorted (now : Int) {seen : List Int} (sorted : seen.Pairwise (· ≥ ·)) :
    ∃ gone, seen = seen.filter (now - · ≤ liveWindow) ++ gone ∧
      ∀ t ∈ gone, liveWindow < now - t := by
  induction seen with
  | nil => exact ⟨[], rfl, by simp⟩
  | cons t rest ih =>
    obtain ⟨later, sorted⟩ := pairwise_cons.mp sorted
    by_cases recent : now - t ≤ liveWindow
    · obtain ⟨gone, whole, stale⟩ := ih sorted
      refine ⟨gone, ?_, stale⟩
      rw [filter_cons_of_pos (by simpa using recent), cons_append, ← whole]
    · have stale : ∀ u ∈ t :: rest, liveWindow < now - u := by
        refine forall_mem_cons.mpr ⟨not_le.mp recent, fun u member => ?_⟩
        have := later u member
        omega
      refine ⟨t :: rest, ?_, stale⟩
      have none : (t :: rest).filter (now - · ≤ liveWindow) = [] :=
        filter_eq_nil_iff.mpr fun u member near =>
          absurd (of_decide_eq_true near) (not_le.mpr (stale u member))
      rw [none, nil_append]

/-- A put-back is counted exactly when the record counts it, and at the third the
hold begins. -/
theorem Fits.note (fits : Fits now times r) (free : r.held now = false) :
    Fits now (if times.head?.all (now - · ≥ liveGap) then now :: times else times)
      (r.note now) := by
  obtain ⟨past, sorted, stands⟩ := fits
  have next : (now :: times).Pairwise (· ≥ ·) := pairwise_cons.mpr ⟨past, sorted⟩
  have nextPast : ∀ t ∈ now :: times, t ≤ now := forall_mem_cons.mpr ⟨le_rfl, past⟩
  cases stands with
  | held spaced soon => exact absurd free (by simp [LiveRecord.held, soon])
  | @free seen old ends spaced ended few stale =>
    have gap : (seen ++ old).head?.all (now - · ≥ liveGap) =
        !seen.head?.any (now - · < liveGap) := by
      cases seen with
      | nil =>
        cases old with
        | nil => rfl
        | cons t old =>
          have := stale t mem_cons_self
          simp only [liveWindow] at this
          simp [liveGap]
          omega
      | cons t seen => simp [← decide_not]
    rw [gap]
    unfold LiveRecord.note
    cases recent : seen.head?.any (now - · < liveGap) with
    | true => exact ⟨past, sorted, .free seen spaced ended few stale⟩
    | false =>
      refine ⟨nextPast, next, ?_⟩
      obtain ⟨gone, whole, dropped⟩ := filter_sorted now (pairwise_append.mp sorted).1
      simp only [Bool.not_false, if_true, Bool.false_eq_true, if_false]
      split
      · exact .held spaced (lt_add_of_pos_right now (by decide))
      · next short =>
        have rest : ∀ t ∈ gone ++ old, liveWindow < now - t := fun t member =>
          (mem_append.mp member).elim (dropped t) (stale t)
        have split : seen ++ old = seen.filter (now - · ≤ liveWindow) ++ (gone ++ old) := by
          rw [← append_assoc, ← whole]
        rw [split]
        rw [split] at spaced
        generalize seen.filter (now - · ≤ liveWindow) = fresh at *
        refine .free (now :: fresh) (spaced.cons fun c b a more same close => absurd ?_ short) ended
          (not_le.mp short) rest
        -- the two before are recent, so that this one is the third
        obtain ⟨rfl, same⟩ := cons.inj same
        rcases fresh with _ | ⟨x, _ | ⟨y, fresh⟩⟩
        · exact absurd close (not_le.mpr (rest a (by simp_all)))
        · exact absurd close (not_le.mpr (rest a (by simp_all)))
        · simp [liveStrikes]

theorem Spaced.count (spaced : Spaced times) (sorted : times.Pairwise (· ≥ ·)) (t : Int) :
    (times.filter fun c => t ≤ c ∧ c ≤ t + liveWindow).length ≤ liveStrikes := by
  induction times with
  | nil => exact Nat.zero_le _
  | cons d rest ih =>
    by_cases here : t ≤ d ∧ d ≤ t + liveWindow
    · rw [filter_cons_of_pos (by simpa using here)]
      refine Nat.succ_le_succ ?_
      rcases rest with _ | ⟨c, _ | ⟨b, _ | ⟨a, rest⟩⟩⟩
      · exact Nat.zero_le _
      · exact (length_filter_le ..).trans (by simp)
      · exact length_filter_le ..
      · have far : a < t := by
          have newer : c ≥ a := rel_of_pairwise_cons sorted.tail (by simp)
          have := rel_of_pairwise_cons sorted mem_cons_self
          have := spaced d c b a rest (suffix_refl _)
          simp only [liveWindow, liveHold] at this here
          omega
        have none : (a :: rest).filter (fun c => t ≤ c ∧ c ≤ t + liveWindow) = [] := by
          refine filter_eq_nil_iff.mpr fun u member inside => ?_
          have := (of_decide_eq_true inside).1
          rcases mem_cons.mp member with rfl | earlier
          · omega
          · have := rel_of_pairwise_cons sorted.tail.tail.tail earlier
            omega
        change (filter _ ([c, b] ++ a :: rest)).length ≤ 2
        rw [filter_append, none, append_nil]
        exact length_filter_le ..
    · rw [filter_cons_of_neg (by simpa using here)]
      exact ih spaced.tail sorted.tail

/-! ### Whole runs -/

variable {a : Apply} {s : Repair} {k : RouteKey}

/-- Whether the check keeps a recorded route. -/
def Apply.keeps (a : Apply) (s : Repair) : ManagedRoute → Bool :=
  keepsRoute a.desired a.read (fun k => (s.recs k).held a.now)
    (if a.tunnelsOnly then isTunnelRoute else fun _ => true)

variable {o : ManagedRoute}

theorem mem_missing : o ∈ a.missing s ↔
    o ∈ a.owned ∧ isTunnelRoute o = false ∧ a.keeps s o = false := by
  simp [Apply.missing, Apply.verified, (verifyRoutes_eq ..).2, Apply.keeps]

theorem mem_kept : o ∈ (a.verified s).kept ↔ o ∈ a.owned ∧ a.keeps s o := by
  simp [Apply.verified, (verifyRoutes_eq ..).1, Apply.keeps]

theorem wanted_of_lost (lost : a.keeps s o = false) :
    o.key ∈ a.desired.map ManagedRoute.key ∧
      (isTunnelRoute o = false → (s.recs o.key).held a.now = false) := by
  unfold Apply.keeps at lost
  generalize (if a.tunnelsOnly then isTunnelRoute else fun _ => true) = only at lost
  unfold keepsRoute at lost
  split at lost
  · next checked =>
    obtain ⟨wanted, -⟩ := Bool.and_eq_true_iff.mp checked
    refine ⟨indexBy_isSome.mp wanted, fun other => ?_⟩
    cases read : a.read o.route.family with
    | none => simp [read] at lost
    | some rows => simp_all
  · cases lost

/-- A recorded route that is not kept has no other record. -/
theorem key_not_kept (member : o ∈ a.owned) (lost : a.keeps s o = false) :
    o.key ∉ (a.verified s).kept.map ManagedRoute.key := by
  intro listed
  obtain ⟨other, kept, same⟩ := mem_map.mp listed
  obtain ⟨among, keeps⟩ := mem_kept.mp kept
  obtain rfl := inj_on_of_nodup_map a.distinct among member same
  exact absurd (keeps.symm.trans lost) (by decide)

theorem putsBack_iff : a.putsBack s k ↔ k ∈ (a.missing s).map ManagedRoute.key := by
  simp only [Apply.putsBack, Bool.and_eq_true, any_eq_true, decide_eq_true_eq, Bool.not_eq_true']
  constructor
  · rintro ⟨⟨⟨o, member, rfl, other⟩, -⟩, gone⟩
    refine mem_map_of_mem (mem_missing.mpr ⟨member, other, ?_⟩)
    by_contra keeps
    exact gone (mem_map_of_mem (mem_kept.mpr ⟨member, Bool.not_eq_false _ ▸ keeps⟩))
  · intro listed
    obtain ⟨o, member, rfl⟩ := mem_map.mp listed
    obtain ⟨among, other, lost⟩ := mem_missing.mp member
    exact ⟨⟨⟨o, among, rfl, other⟩, (wanted_of_lost lost).1⟩, key_not_kept among lost⟩

theorem foldl_note {missing : List ManagedRoute} (distinct : (missing.map ManagedRoute.key).Nodup)
    (recs : RouteKey → LiveRecord) (now : Int) (k : RouteKey) :
    missing.foldl (fun recs o => Function.update recs o.key ((recs o.key).note now)) recs k =
      if k ∈ missing.map ManagedRoute.key then (recs k).note now else recs k := by
  induction missing generalizing recs with
  | nil => rfl
  | cons o rest ih =>
    obtain ⟨apart, distinct⟩ := nodup_cons.mp distinct
    rw [foldl_cons, ih distinct]
    by_cases here : k = o.key
    · subst here
      simp [apart]
    · simp [here]

theorem note_eq (lost : (a.verified s).missing ≠ []) (k : RouteKey) :
    a.note s k = if a.putsBack s k then ((s.recs k).forget a.now).note a.now
      else (s.recs k).forget a.now := by
  have distinct : ((a.missing s).map ManagedRoute.key).Nodup := by
    rw [Apply.missing, Apply.verified, (verifyRoutes_eq ..).2]
    exact ((filter_sublist.trans filter_sublist).map _).nodup a.distinct
  rw [Apply.note, if_neg lost, foldl_note distinct]
  simp only [putsBack_iff]

theorem fits_step {next : Repair} (fits : Fits s.now (s.counted k) (s.recs k))
    (carried : a.putsBack s k → a.carriedOut)
    (stepped : repair.step s a = some next) :
    Fits next.now (next.counted k) (next.recs k) := by
  obtain ⟨later, made⟩ := Option.ite_none_left_eq_some.mp stepped
  obtain rfl := Option.some.inj made
  replace fits := fits.later (not_lt.mp later)
  dsimp only
  cases back : a.putsBack s k with
  | false =>
    rw [if_neg (by simp)]
    by_cases lost : (a.verified s).missing = []
    · rw [Apply.note, if_pos lost]
      exact fits
    · rw [note_eq lost, back]
      exact fits.forget
  | true =>
    obtain ⟨o, member, rfl⟩ := mem_map.mp (putsBack_iff.mp back)
    obtain ⟨-, other, gone⟩ := mem_missing.mp member
    have lost : (a.verified s).missing ≠ [] := ne_nil_of_mem (mem_of_mem_filter member)
    have free : ((s.recs o.key).forget a.now).held a.now = false := by
      unfold LiveRecord.forget
      split
      · rfl
      · exact (wanted_of_lost gone).2 other
    rw [note_eq lost, back]
    simpa [carried back] using fits.forget.note free

/-- The kernel does not hold a recorded route that is still wanted, and no other
route has its destination. -/
def Apply.FindsMissing (a : Apply) (o : ManagedRoute) : Prop :=
  o ∈ a.owned ∧ o.key ∈ a.desired.map ManagedRoute.key ∧ ∃ rows, a.read o.route.family = some rows ∧
    (indexInstalled rows).has o.route = false ∧ (indexInstalled rows).outranked o.route = false

theorem keeps_of_found (tunnel : isTunnelRoute o) (found : a.FindsMissing o) :
    a.keeps s o = false := by
  obtain ⟨-, wanted, rows, read, absent, free⟩ := found
  have checked : (if a.tunnelsOnly then isTunnelRoute else fun _ => true) o = true := by
    split
    · exact tunnel
    · rfl
  have indexed : (indexRoutes a.desired o.key).isSome = true := indexBy_isSome.mpr wanted
  simp [Apply.keeps, keepsRoute, indexed, checked, read, absent, free, tunnel]

def office : ManagedRoute := { route := { dstCIDR := "10.0.0.0/8", gateway := "192.0.2.1" } }

/-- The apply at a time finds the office's route gone. -/
def loses (now : Int) : Apply :=
  ⟨now, [office], [office], fun _ => some [], false, true, by simp⟩

end RiftRoute.Live
