/-
Module: RiftRoute.Tunnel.Sessions
Purpose: The tunnels' applier: tickets, the one-slot kick channel, the loop and
  its retry timer.  How a WireGuard session keeps its tunnel's server list.
Trusted boundary: human-reviewed spec
Main exports: applier, Session.reresolve
-/
import RiftRoute.Library.Machine
import RiftRoute.Library.Netip

namespace RiftRoute.Applier

/-- Where the loop is: in its `select`, awake, or applying what it read. -/
inductive Phase
  | waiting
  | woken
  | applying (n : Nat)
  | stopped
deriving DecidableEq

/-- The applier's fields, the loop's variables, and the requests that have
counted but not yet kicked.  The applies that ended and the waits that returned
are its history: the requests an apply had read, and whether it succeeded; a
ticket, and whether its wait returned nil. -/
structure State where
  want : Nat := 0
  done : Nat := 0
  failed : Bool := false
  kick : Bool := false
  retry : Bool := false
  phase : Phase := .waiting
  requesting : Nat := 0
  applies : List (Nat × Bool) := []
  returned : List (Nat × Bool) := []

inductive Event
  /-- `request` takes its ticket. -/
  | request
  /-- `request` kicks, or finds the channel full. -/
  | kick
  /-- The loop takes the kick. -/
  | kicked
  /-- The retry timer fires. -/
  | retried
  /-- The loop reads what is wanted. -/
  | read
  /-- The apply ends. -/
  | finish (ok : Bool)
  | stop
  /-- A wait finds its ticket covered. -/
  | wait (n : Nat)
  /-- A wait's context ends first. -/
  | giveUp (n : Nat)

def step (s : State) : Event → Option State
  | .request => some { s with want := s.want + 1, requesting := s.requesting + 1 }
  | .kick =>
    if s.requesting = 0 then none
    else some { s with requesting := s.requesting - 1, kick := true }
  | .kicked =>
    if s.phase = .waiting ∧ s.kick then
      some { s with kick := false, retry := false, phase := .woken }
    else none
  | .retried =>
    if s.phase = .waiting ∧ s.retry then some { s with retry := false, phase := .woken } else none
  | .read => if s.phase = .woken then some { s with phase := .applying s.want } else none
  | .finish ok =>
    match s.phase with
    | .applying n =>
      some { s with
        done := n, failed := !ok, retry := !ok, phase := .waiting
        applies := (n, ok) :: s.applies }
    | _ => none
  | .stop => if s.phase = .waiting then some { s with phase := .stopped } else none
  | .wait n => if n ≤ s.done then some { s with returned := (n, !s.failed) :: s.returned } else none
  | .giveUp n => if s.done < n then some { s with returned := (n, false) :: s.returned } else none

/-- The applier beside its callers. -/
def applier : Machine State Event := ⟨step⟩

def State.Pending (s : State) : Prop := s.kick = true ∨ 0 < s.requesting

/-- What holds of the applier in every interleaving. -/
structure Sound (s : State) : Prop where
  done_le : s.done ≤ s.want
  reading : ∀ n, s.phase = .applying n → s.done ≤ n ∧ n ≤ s.want ∧ (n < s.want → s.Pending)
  waiting : s.phase = .waiting → (s.done < s.want → s.Pending) ∧ (s.failed = true → s.retry = true)
  covered : s.failed = false → 0 < s.done → (s.done, true) ∈ s.applies
  returned : ∀ n, 0 < n → (n, true) ∈ s.returned → ∃ m, n ≤ m ∧ (m, true) ∈ s.applies

theorem sound_init : Sound {} where
  done_le := Nat.le_refl 0
  reading := by simp
  waiting := by simp
  covered := by simp
  returned := by simp

section Step

variable {s next : State}

theorem Sound.beside (sound : Sound s) (want : s.want ≤ next.want) (done : next.done = s.done)
    (phase : next.phase = s.phase) (applies : next.applies = s.applies)
    (flags : next.failed = s.failed ∧ next.retry = s.retry)
    (pending : s.want < next.want ∨ s.Pending → next.Pending)
    (returned : ∀ n, (n, true) ∈ next.returned →
      (n, true) ∈ s.returned ∨ n ≤ s.done ∧ s.failed = false) :
    Sound next ∧ s.done ≤ next.done := by
  have kept : ∀ {n}, n < next.want → (n < s.want → s.Pending) → next.Pending := by
    intro n less behind
    by_cases before : n < s.want
    · exact pending (.inr (behind before))
    · exact pending (.inl (by omega))
  refine ⟨⟨?_, fun n applying => ?_, fun waiting => ?_, ?_, fun n ticket listed => ?_⟩,
    Nat.le_of_eq done.symm⟩
  · exact done ▸ Nat.le_trans sound.done_le want
  · obtain ⟨least, most, behind⟩ := sound.reading n (phase ▸ applying)
    exact ⟨done ▸ least, Nat.le_trans most want, fun less => kept less behind⟩
  · obtain ⟨behind, retry⟩ := sound.waiting (phase ▸ waiting)
    exact ⟨fun less => kept less (done ▸ behind), flags.1 ▸ flags.2 ▸ retry⟩
  · rw [done, applies, flags.1]
    exact sound.covered
  · rw [applies]
    rcases returned n listed with before | ⟨reached, succeeded⟩
    · exact sound.returned n ticket before
    · exact ⟨s.done, reached, sound.covered succeeded (Nat.lt_of_lt_of_le ticket reached)⟩

theorem sound_step {e : Event} (sound : Sound s) (stepped : step s e = some next) :
    Sound next ∧ s.done ≤ next.done := by
  cases e with
  | request =>
    obtain rfl := Option.some.inj stepped
    exact sound.beside (Nat.le_succ _) rfl rfl rfl ⟨rfl, rfl⟩ (fun _ => .inr (Nat.succ_pos _))
      fun _ => .inl
  | kick =>
    simp only [step, Option.ite_none_left_eq_some, Option.some.injEq] at stepped
    obtain ⟨-, rfl⟩ := stepped
    exact sound.beside (Nat.le_refl _) rfl rfl rfl ⟨rfl, rfl⟩ (fun _ => .inl rfl) fun _ => .inl
  | wait n | giveUp n =>
    simp only [step, Option.ite_none_right_eq_some, Option.some.injEq] at stepped
    obtain ⟨covered, rfl⟩ := stepped
    refine sound.beside (Nat.le_refl _) rfl rfl rfl ⟨rfl, rfl⟩
      (fun either => either.resolve_left (Nat.lt_irrefl _)) fun m listed => ?_
    simp only [List.mem_cons, Prod.mk.injEq] at listed
    rcases listed with ⟨rfl, nil⟩ | before
    · first
      | exact .inr ⟨covered, by simpa using nil⟩
      | cases nil
    · exact .inl before
  | kicked | retried | stop =>
    simp only [step, Option.ite_none_right_eq_some, Option.some.injEq] at stepped
    obtain ⟨-, rfl⟩ := stepped
    exact ⟨⟨sound.done_le, by simp, by simp, sound.covered, sound.returned⟩, Nat.le_refl _⟩
  | read =>
    simp only [step, Option.ite_none_right_eq_some, Option.some.injEq] at stepped
    obtain ⟨-, rfl⟩ := stepped
    refine ⟨⟨sound.done_le, fun n applying => ?_, by simp, sound.covered, sound.returned⟩,
      Nat.le_refl _⟩
    obtain rfl := Phase.applying.inj applying
    exact ⟨sound.done_le, Nat.le_refl _, fun less => absurd less (Nat.lt_irrefl _)⟩
  | finish ok =>
    simp only [step] at stepped
    split at stepped
    case h_2 => cases stepped
    case h_1 n applying =>
      obtain rfl := Option.some.inj stepped
      obtain ⟨least, most, behind⟩ := sound.reading n applying
      refine ⟨⟨most, by simp, fun _ => ⟨behind, id⟩, ?_, fun m ticket listed => ?_⟩, least⟩
      · intro succeeded _
        cases ok with
        | true => exact List.mem_cons_self
        | false => cases succeeded
      · obtain ⟨k, reached, applied⟩ := sound.returned m ticket listed
        exact ⟨k, reached, List.mem_cons_of_mem _ applied⟩

end Step

/-- No apply is dropped: what is done only grows, up to what is wanted; a wait
returns nil only for a ticket that a successful apply had read; and where the
loop waits with nothing under way, everything is done and a failure is retried. -/
theorem applies_never_dropped {es : List Event} {s : State} (ran : applier.run {} es = some s) :
    (∀ e next, step s e = some next → s.done ≤ next.done) ∧ s.done ≤ s.want ∧
    (∀ n, 0 < n → (n, true) ∈ s.returned → ∃ m, n ≤ m ∧ (m, true) ∈ s.applies) ∧
    (s.phase = .waiting → s.kick = false → s.requesting = 0 →
      s.done = s.want ∧ (s.failed = true → s.retry = true)) := by
  have sound : Sound s := Machine.invariant Sound
    (fun _ _ _ held _ stepped => (sound_step held stepped).1) sound_init
    (.of_forall (fun _ _ _ => trivial) _) ran
  refine ⟨fun _ _ stepped => (sound_step sound stepped).2, sound.done_le, sound.returned,
    fun waiting empty idle => ?_⟩
  obtain ⟨behind, retry⟩ := sound.waiting waiting
  refine ⟨Nat.le_antisymm sound.done_le (Nat.le_of_not_lt fun less => ?_), retry⟩
  rcases behind less with kicked | requesting
  · simp [empty] at kicked
  · omega

/-- Two requests share one apply, which is retried once. -/
def retriedRun : List Event :=
  [.request, .request, .kick, .kick, .kicked, .read, .finish false, .retried, .read, .finish true,
    .wait 2]

theorem requests_share_apply : ∃ s, applier.run {} retriedRun = some s ∧
    s.want = 2 ∧ s.returned = [(2, true)] ∧ s.done = s.want ∧
    ∃ m, 2 ≤ m ∧ (m, true) ∈ s.applies := by
  obtain ⟨-, -, returned, whole⟩ := applies_never_dropped
    (rfl : applier.run {} retriedRun = some _)
  exact ⟨_, rfl, rfl, rfl, (whole rfl rfl rfl).1, returned 2 (by decide) (by decide)⟩

end RiftRoute.Applier

namespace RiftRoute.Roaming

open Netip (Addr)

def maxPins : Nat := 16

structure AddrPort where
  addr : Addr
  port : Nat
deriving DecidableEq

/-- The tunnel's servers, the endpoint the session remembers for each peer, and
as history the addresses a re-resolve has taken off the list. -/
structure Session where
  servers : List Addr
  endpoints : String → Option AddrPort := fun _ => none
  dropped : List Addr := []

/-- A peer of a report: its key, and its endpoint if that can be parsed. -/
abbrev Peer := String × Option AddrPort

/-- Remember a peer's endpoint; a new one's address is fresh. -/
def notice (seen : (String → Option AddrPort) × List Addr) (p : Peer) :
    (String → Option AddrPort) × List Addr :=
  match p.2 with
  | none => seen
  | some ap =>
    if seen.1 p.1 = some ap then seen
    else (fun key => if key = p.1 then some ap else seen.1 key, seen.2 ++ [ap.addr])

/-- A fresh address joins the servers, unless it is there or they are many. -/
def join (servers : List Addr) (a : Addr) : List Addr :=
  if a ∉ servers ∧ servers.length < 4 * maxPins then servers ++ [a] else servers

def Session.follow (s : Session) (report : List Peer) : Session :=
  let seen := report.foldl notice (s.endpoints, [])
  let servers := seen.2.foldl join s.servers
  { servers, endpoints := seen.1, dropped := s.dropped.filter (· ∉ servers) }

/-- A re-resolve that found other addresses. -/
def Session.reresolve (s : Session) (servers : List Addr) : Session :=
  { s with servers, dropped := (s.dropped ++ s.servers).filter (· ∉ servers) }

inductive Event
  | poll (report : List Peer)
  | reresolve (servers : List Addr)

def session : Machine Session Event where
  step s
    | .poll report => some (s.follow report)
    | .reresolve servers => some (s.reresolve servers)

/-- The addresses are among few, and resolved ones are listed once. -/
def Event.Within (few : Finset Addr) : Event → Prop
  | .poll report => ∀ key ap, (key, some ap) ∈ report → ap.addr ∈ few
  | .reresolve servers => servers.Nodup ∧ ∀ a ∈ servers, a ∈ few

/-- No peer reports, unchanged, an address a re-resolve has taken off. -/
def Steady (s : Session) : Event → Prop
  | .poll report => ∀ key ap, (key, some ap) ∈ report → s.endpoints key = some ap →
      ap.addr ∉ s.dropped
  | .reresolve _ => True

instance (s : Session) : DecidablePred (Steady s)
  | .poll report => decidable_of_iff (∀ p ∈ report, ∀ ap ∈ p.2, s.endpoints p.1 = some ap →
      ap.addr ∉ s.dropped) ⟨fun all key ap listed => all _ listed ap rfl,
        fun all p listed ap reports =>
        all p.1 ap (by rw [← reports]; exact listed)⟩
  | .reresolve _ => inferInstanceAs (Decidable True)

section Following

variable {few : Finset Addr} {s : Session}

structure Listed (few : Finset Addr) (servers : List Addr) : Prop where
  once : servers.Nodup
  within : ∀ a ∈ servers, a ∈ few

theorem Listed.join {servers : List Addr} {a : Addr} (listed : Listed few servers)
    (member : a ∈ few) (bound : few.card < 4 * maxPins) :
    Listed few (join servers a) ∧ a ∈ join servers a ∧ servers ⊆ join servers a := by
  by_cases there : a ∈ servers
  · simp only [Roaming.join, there, not_true_eq_false, false_and, if_false]
    exact ⟨listed, trivial, List.Subset.refl _⟩
  · have room : servers.length < 4 * maxPins := by
      refine lt_of_le_of_lt ?_ bound
      rw [← List.toFinset_card_of_nodup listed.once]
      exact Finset.card_le_card fun b inside => listed.within b (List.mem_toFinset.mp inside)
    rw [Roaming.join, if_pos ⟨there, room⟩]
    refine ⟨⟨?_, ?_⟩, by simp, List.subset_append_left _ _⟩
    · rw [← List.concat_eq_append, List.nodup_concat]
      exact ⟨there, listed.once⟩
    · simpa [or_imp, forall_and, member] using listed.within

theorem Listed.joins {servers fresh : List Addr} (listed : Listed few servers)
    (member : ∀ a ∈ fresh, a ∈ few) (bound : few.card < 4 * maxPins) :
    Listed few (fresh.foldl Roaming.join servers) ∧ fresh ⊆ fresh.foldl Roaming.join servers ∧
      servers ⊆ fresh.foldl Roaming.join servers := by
  induction fresh generalizing servers with
  | nil => exact ⟨listed, List.nil_subset _, List.Subset.refl _⟩
  | cons a fresh ih =>
    rw [List.forall_mem_cons] at member
    obtain ⟨first, there, kept⟩ := listed.join member.1 bound
    obtain ⟨last, rest, grown⟩ := ih first member.2
    exact ⟨last, List.cons_subset.mpr ⟨grown there, rest⟩, fun b held => grown (kept held)⟩

theorem noticed (report : List Peer) (before : String → Option AddrPort) :
    (∀ key ap, (report.foldl notice (before, [])).1 key = some ap ∨ (key, some ap) ∈ report →
      before key = some ap ∨ ap.addr ∈ (report.foldl notice (before, [])).2) ∧
    ∀ a ∈ (report.foldl notice (before, [])).2, ∃ key ap, (key, some ap) ∈ report ∧
      ap.addr = a := by
  induction report using List.reverseRecOn with
  | nil => simp
  | append_singleton report p ih =>
    obtain ⟨remembered, reported⟩ := ih
    obtain ⟨key, endpoint⟩ := p
    rw [List.foldl_append, List.foldl_cons, List.foldl_nil]
    generalize report.foldl notice (before, []) = seen at remembered reported
    have more : ∀ a ∈ seen.2, ∃ key' ap, (key', some ap) ∈ report ++ [(key, endpoint)] ∧
        ap.addr = a := by
      intro a fresh
      obtain ⟨key', ap, listed, same⟩ := reported a fresh
      exact ⟨key', ap, List.mem_append_left _ listed, same⟩
    cases endpoint with
    | none =>
      rw [show notice seen (key, none) = seen from rfl]
      exact ⟨by simpa using remembered, more⟩
    | some ap =>
      by_cases known : seen.1 key = some ap
      · rw [show notice seen (key, some ap) = seen from if_pos known]
        refine ⟨fun key' ap' either => remembered key' ap' ?_, more⟩
        rcases either with held | listed
        · exact .inl held
        · simp only [List.mem_append, List.mem_singleton, Prod.mk.injEq,
            Option.some.injEq] at listed
          rcases listed with listed | ⟨rfl, rfl⟩
          · exact .inr listed
          · exact .inl known
      · rw [show notice seen (key, some ap) = _ from if_neg known]
        refine ⟨fun key' ap' either => ?_, fun a fresh => ?_⟩
        · by_cases here : ap' = ap
          · exact .inr (by simp [here])
          · refine (remembered key' ap' ?_).imp_right (List.mem_append_left _)
            rcases either with held | listed
            · dsimp only at held
              split at held
              · exact absurd (Option.some.inj held).symm here
              · exact .inl held
            · exact .inr (by simpa [here] using listed)
        · rcases List.mem_append.mp fresh with old | new
          · exact more a old
          · exact ⟨key, ap, by simp, (List.mem_singleton.mp new).symm⟩

/-- The servers are few, and a remembered endpoint is listed or was taken off. -/
structure Kept (few : Finset Addr) (s : Session) : Prop where
  listed : Listed few s.servers
  remembered : ∀ key ap, s.endpoints key = some ap → ap.addr ∈ s.servers ∨ ap.addr ∈ s.dropped

theorem Kept.follow {report : List Peer} (kept : Kept few s) (bound : few.card < 4 * maxPins)
    (within : (Event.poll report).Within few) : Kept few (s.follow report) ∧
      (Steady s (.poll report) → ∀ key ap, (key, some ap) ∈ report →
        ap.addr ∈ (s.follow report).servers) := by
  obtain ⟨noticed, reported⟩ := noticed report s.endpoints
  have few' : ∀ a ∈ (report.foldl notice (s.endpoints, [])).2, a ∈ few := by
    intro a fresh
    obtain ⟨key, ap, listed, rfl⟩ := reported a fresh
    exact within key ap listed
  obtain ⟨listed, joined, grown⟩ := kept.listed.joins few' bound
  refine ⟨⟨listed, fun key ap held => ?_⟩, fun steady key ap peer => ?_⟩
  · by_cases there : ap.addr ∈ (s.follow report).servers
    · exact .inl there
    · refine .inr (List.mem_filter.mpr ⟨?_, decide_eq_true there⟩)
      rcases noticed key ap (.inl held) with old | fresh
      · exact (kept.remembered key ap old).resolve_left fun old => there (grown old)
      · exact absurd (joined fresh) there
  · rcases noticed key ap (.inr peer) with old | fresh
    · exact grown ((kept.remembered key ap old).resolve_right (steady key ap peer old))
    · exact joined fresh

theorem Kept.step {e : Event} {next : Session} (kept : Kept few s) (bound : few.card < 4 * maxPins)
    (within : e.Within few) (stepped : session.step s e = some next) : Kept few next := by
  cases e with
  | poll report =>
    obtain rfl := Option.some.inj stepped
    exact (kept.follow bound within).1
  | reresolve servers =>
    obtain rfl := Option.some.inj stepped
    refine ⟨⟨within.1, within.2⟩, fun key ap held => ?_⟩
    by_cases there : ap.addr ∈ servers
    · exact .inl there
    · refine .inr (List.mem_filter.mpr ⟨?_, decide_eq_true there⟩)
      exact List.mem_append.mpr (kept.remembered key ap held).symm

end Following

/-- With few addresses overall, a poll leaves every endpoint the device reports
in the server list, unless a peer still reports one that a re-resolve took off. -/
theorem endpoints_listed (few : Finset Addr) (servers : List Addr) (es : List Event)
    (bound : few.card < 4 * maxPins) (once : servers.Nodup) (start : ∀ a ∈ servers, a ∈ few)
    (within : ∀ e ∈ es, e.Within few) {s : Session} (ran : session.run { servers } es = some s)
    {report : List Peer} (reported : (Event.poll report).Within few)
    (steady : Steady s (.poll report)) :
    ∀ key ap, (key, some ap) ∈ report → ap.addr ∈ (s.follow report).servers := by
  have kept : Kept few s := Machine.invariant (Kept few)
    (fun _ e _ held (inside : e.Within few) stepped => held.step bound inside stepped)
    ⟨⟨once, start⟩, by simp⟩ (.of_forall (fun e member _ => within e member) _) ran
  exact (kept.follow bound reported).2 steady

def roamed : AddrPort := ⟨.v4 0xc0000201#32, 51820⟩

def home : Addr := .v4 0xc6336401#32

/-- A peer roams, a re-resolve that knows nothing of it replaces the list, and
the peer stays where it is. -/
theorem roamed_endpoint_unlisted :
    ((((({ servers := [home] } : Session).follow [("peer", some roamed)]).reresolve [home]).follow
      [("peer", some roamed)]).servers) = [home] ∧ roamed.addr ≠ home := by
  decide

theorem roamed_endpoint_listed : ({home, roamed.addr} : Finset Addr).card < 4 * maxPins ∧
    ∀ key ap, (key, some ap) ∈ [("peer", some roamed)] →
      ap.addr ∈ ((({ servers := [home] } : Session).follow [("peer", some roamed)]).follow
        [("peer", some roamed)]).servers := by
  refine ⟨by decide, endpoints_listed {home, roamed.addr} [home] [.poll [("peer", some roamed)]]
    (by decide) (by decide) (by decide) ?_ rfl ?_ (by decide)⟩
  · simp [Event.Within]
  · simp [Event.Within]

end RiftRoute.Roaming
