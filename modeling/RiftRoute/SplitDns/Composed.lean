/-
Module: RiftRoute.SplitDns.Composed
Purpose: Split DNS shared by the user and the wildcard learner under two locks,
  and when interleaved calls leave the backend with the user's last choice.
Trusted boundary: human-reviewed spec
Main exports: Composed, program
-/
import RiftRoute.Core.Service
import RiftRoute.Library.Machine
import Mathlib.Data.List.Permutation

namespace RiftRoute

open List Calls

namespace SplitDns

structure SplitDNSRoute where
  domain : String
  resolver : String
  port : Int := 0
deriving DecidableEq, Repr

/-- The user's routes, and those of the others for domains the user has not
claimed. -/
def dedupePreferUser (user extra : List SplitDNSRoute) : List SplitDNSRoute :=
  let claimed := user.map fun r => domainRuleHost r.domain
  user ++ extra.filter fun r => domainRuleHost r.domain ∉ claimed

/-- The two locks' state.  `chosen` is no field of the source and no call reads
it: it is what the user's calls have asked for, in the order in which they
recorded a selection or cleared the backend. -/
structure Composed where
  user : List SplitDNSRoute := []
  backend : List SplitDNSRoute := []
  chosen : List SplitDNSRoute := []
deriving DecidableEq, Repr

inductive Call where
  | apply (routes : List SplitDNSRoute)
  | clear
  | resync
deriving DecidableEq, Repr

/-- What a call does next, under one of the locks. -/
inductive Stage where
  | record (routes : List SplitDNSRoute)
  | read
  | write (merged : List SplitDNSRoute)
  | clear
deriving DecidableEq, Repr

/-- The section that writes what was read. -/
def Stage.writes : Stage → Bool
  | .write _ => true
  | _ => false

/-- The sections that change the user's choice. -/
def Stage.chooses : Stage → Bool
  | .record _ => true
  | .clear => true
  | _ => false

/-- `Apply` records the selection and goes on as `Resync`, which merges what is
remembered and then writes it; `Clear` clears the backend alone. -/
def program (extra : List SplitDNSRoute) : Program Composed Call Stage where
  enter
    | .apply routes => .record routes
    | .clear => .clear
    | .resync => .read
  body c
    | .record routes => ({ c with user := routes, chosen := routes }, some .read)
    | .read => (c, some (.write (dedupePreferUser c.user extra)))
    | .write merged => ({ c with backend := merged }, none)
    | .clear => ({ c with backend := [], chosen := [] }, none)

abbrev Calling := Table Composed Call Stage

def start : Calling := ⟨{}, 0, []⟩

/-- What a call makes of the user's choice. -/
def choose (chosen : List SplitDNSRoute) : Call → List SplitDNSRoute
  | .apply routes => routes
  | .clear => []
  | .resync => chosen

/-- The choice that calls made one after the other leave. -/
def selection (calls : List Call) : List SplitDNSRoute := calls.foldl choose []

variable (t : Calling)

/-- A selection has been merged and is still to be written. -/
def Writing : Prop := ∃ e ∈ t.entries, e.stage.any Stage.writes

instance (t : Calling) : Decidable (Writing t) := inferInstanceAs (Decidable (∃ e ∈ t.entries, _))

/-- No selection is recorded and nothing cleared while another call is still to
write, and the remembered selection is read only while it is the user's
choice: not between a clear and the next recording, unless it is empty. -/
def Allowed : Move Call → Prop
  | .begin _ => True
  | .advance id => ∀ e ∈ t.entries[id]?,
      (e.stage.any Stage.chooses → ¬ Writing t) ∧
      (e.stage = some .read → t.shared.user = t.shared.chosen)

instance (t : Calling) (move : Move Call) : Decidable (Allowed t move) :=
  match move with
  | .begin _ => isTrue trivial
  | .advance id => inferInstanceAs (Decidable (∀ e ∈ t.entries[id]?, _))

/-- The backend has a selection, and nothing else but learner's entries. -/
def Holds (extra backend chosen : List SplitDNSRoute) : Prop :=
  ∃ learner, backend = chosen ++ learner ∧ ∀ r ∈ learner, r ∈ extra

theorem holds_merged (extra user : List SplitDNSRoute) :
    Holds extra (dedupePreferUser user extra) user :=
  ⟨_, rfl, fun _ member => (mem_filter.mp member).1⟩

/-! ### What the calls keep -/

/-- `Apply` takes effect when it records, `Clear` when it clears, and `Resync`
when it reads. -/
def taken : Call → Stage → Bool
  | .apply _, .record _ => false
  | .apply _, _ => true
  | .resync, .read => false
  | .resync, _ => true
  | .clear, _ => false

def Runs : Call → Stage → Prop
  | .apply routes, .record same => same = routes
  | .apply _, .read => True
  | .apply _, .write _ => True
  | .resync, .read => True
  | .resync, .write _ => True
  | .clear, .clear => True
  | _, _ => False

/-- A call will still write. -/
def Pending : Prop :=
  ∃ e ∈ t.entries, e.stage.any Stage.writes ∨
    (∃ routes, e.call = .apply routes) ∧ e.stage = some .read

structure Kept (extra : List SplitDNSRoute) (t : Calling) : Prop where
  runs : ∀ e ∈ t.entries, ∀ stage ∈ e.stage, Runs e.call stage
  current : ∀ e ∈ t.entries, ∀ merged, e.stage = some (.write merged) →
    merged = dedupePreferUser t.shared.chosen extra
  held : Pending t ∨ Holds extra t.shared.backend t.shared.chosen

def Ordered : Prop :=
  ∃ order, Took taken t order ∧ t.shared.chosen = selection (t.callsIn order)

section Steps

variable {extra : List SplitDNSRoute} {t next : Calling}

theorem kept_begin {call : Call} (kept : Kept extra t)
    (stepped : (machine (program extra)).step t (.begin call) =
      some next) : Kept extra next := by
  rw [step_begin stepped]
  have fresh : ∀ merged, (program extra).enter call ≠ .write merged := by
    intro merged same
    cases call <;> cases same
  refine ⟨?_, ?_, ?_⟩
  · intro e member stage at_
    rcases mem_append.mp member with before | last
    · exact kept.runs e before stage at_
    · obtain rfl := mem_singleton.mp last
      obtain rfl := Option.some.inj at_
      cases call <;> trivial
  · intro e member merged at_
    rcases mem_append.mp member with before | last
    · exact kept.current e before merged at_
    · obtain rfl := mem_singleton.mp last
      exact absurd (Option.some.inj at_) (fresh merged)
  · rcases kept.held with ⟨e, member, pending⟩ | held
    · exact .inl ⟨e, mem_append_left _ member, pending⟩
    · exact .inr held

theorem kept_advance {id : Nat} (kept : Kept extra t) (allowed : Allowed t (.advance id))
    (stepped : (machine (program extra)).step t (.advance id) =
      some next) : Kept extra next := by
  obtain ⟨e, stage, found, at_, -⟩ := step_advance stepped
  obtain ⟨alone, current⟩ := allowed e found
  have member := mem_of_getElem? found
  have runs := kept.runs e member stage at_
  obtain ⟨moved, others⟩ := mem_advance found at_ stepped
  have shared : next.shared = ((program extra).body t.shared stage).1 := by
    rw [next_advance found at_ stepped]
  -- what is left to show is about the call that moved
  have runsAll : (∀ later ∈ ((program extra).body t.shared stage).2, Runs e.call later) →
      ∀ f ∈ next.entries, ∀ later ∈ f.stage, Runs f.call later := by
    intro own f inside
    rcases others f inside with before | rfl
    · exact kept.runs f before
    · exact own
  have currentAll : (∀ f ∈ t.entries, ∀ merged, f.stage = some (.write merged) →
        merged = dedupePreferUser next.shared.chosen extra) →
      (∀ merged, ((program extra).body t.shared stage).2 = some (.write merged) →
        merged = dedupePreferUser next.shared.chosen extra) →
      ∀ f ∈ next.entries, ∀ merged, f.stage = some (.write merged) →
        merged = dedupePreferUser next.shared.chosen extra := by
    intro rest own f inside
    rcases others f inside with before | rfl
    · exact rest f before
    · exact own
  cases stage with
  | record routes =>
    have none := alone (by rw [at_]; rfl)
    obtain ⟨same, is⟩ : ∃ same, e.call = .apply same := by
      cases call : e.call <;> rw [call] at runs <;> simp [Runs] at runs ⊢
    refine ⟨runsAll ?_, currentAll ?_ ?_, .inl ⟨_, moved, .inr ⟨⟨same, is⟩, rfl⟩⟩⟩
    · rintro later ⟨⟩
      rw [is]
      trivial
    · intro f inside merged writes
      exact absurd ⟨f, inside, by rw [writes]; rfl⟩ none
    · intro merged same
      cases same
  | read =>
    have chosen : next.shared.chosen = t.shared.chosen := by rw [shared]; rfl
    refine ⟨runsAll ?_, currentAll ?_ ?_, .inl ⟨_, moved, .inl rfl⟩⟩
    · rintro later ⟨⟩
      cases call : e.call <;> rw [call] at runs <;> simp [Runs] at runs ⊢
    · rw [chosen]
      exact kept.current
    · rintro merged ⟨⟩
      rw [chosen, current at_]
  | write merged =>
    have chosen : next.shared.chosen = t.shared.chosen := by rw [shared]; rfl
    have backend : next.shared.backend = merged := by rw [shared]; rfl
    refine ⟨runsAll ?_, currentAll ?_ ?_, .inr ?_⟩
    · rintro later ⟨⟩
    · rw [chosen]
      exact kept.current
    · intro merged same
      cases same
    · rw [backend, chosen, kept.current e member merged at_]
      exact holds_merged extra t.shared.chosen
  | clear =>
    have none := alone (by rw [at_]; rfl)
    have empty : next.shared.chosen = [] ∧ next.shared.backend = [] := by
      rw [shared]
      exact ⟨rfl, rfl⟩
    refine ⟨runsAll ?_, currentAll ?_ ?_, .inr ?_⟩
    · rintro later ⟨⟩
    · intro f inside merged writes
      exact absurd ⟨f, inside, by rw [writes]; rfl⟩ none
    · intro merged same
      cases same
    · rw [empty.1, empty.2]
      exact ⟨[], rfl, by simp⟩

theorem ordered_begin {call : Call} (ordered : Ordered t)
    (stepped : (machine (program extra)).step t (.begin call) =
      some next) : Ordered next := by
  obtain ⟨order, took, chosen⟩ := ordered
  have fresh : taken call ((program extra).enter call) = false := by
    cases call <;> rfl
  refine ⟨order, took_begin took fresh stepped, ?_⟩
  rw [callsIn_begin took stepped, ← chosen, step_begin stepped]

theorem selection_append (calls : List Call) (call : Call) :
    selection (calls ++ [call]) = choose (selection calls) call := by
  rw [selection, foldl_append]
  rfl

theorem ordered_advance {id : Nat} (kept : Kept extra t) (ordered : Ordered t)
    (stepped : (machine (program extra)).step t (.advance id) =
      some next) : Ordered next := by
  obtain ⟨order, took, chosen⟩ := ordered
  obtain ⟨e, stage, found, at_, -⟩ := step_advance stepped
  have runs := kept.runs e (mem_of_getElem? found) stage at_
  have shared : next.shared = ((program extra).body t.shared stage).1 := by
    rw [next_advance found at_ stepped]
  have calls : next.callsIn order = t.callsIn order := callsIn_advance found at_ stepped
  have more : next.callsIn (order ++ [id]) = t.callsIn order ++ [e.call] := by
    rw [callsIn_advance found at_ stepped, callsIn_append found]
  cases stage with
  | record routes =>
    cases call : e.call with
    | apply same =>
      rw [call] at runs
      obtain rfl : routes = same := runs
      refine ⟨_, took_now took found at_ ?_ ?_ stepped, ?_⟩
      · rw [call]; rfl
      · rintro later ⟨⟩
        rw [call]; rfl
      · rw [more, call, selection_append, shared]; rfl
    | clear | resync => rw [call] at runs; exact runs.elim
  | read =>
    cases call : e.call with
    | apply routes =>
      refine ⟨order, took_stays took found at_ ?_ stepped, ?_⟩
      · rw [call]
        exact iff_of_true rfl (by rintro later ⟨⟩; rfl)
      · rw [calls, ← chosen, shared]; rfl
    | clear => rw [call] at runs; exact runs.elim
    | resync =>
      refine ⟨_, took_now took found at_ ?_ ?_ stepped, ?_⟩
      · rw [call]; rfl
      · rintro later ⟨⟩
        rw [call]; rfl
      · rw [more, call, selection_append, ← chosen, shared]; rfl
  | write merged =>
    refine ⟨order, took_stays took found at_ ?_ stepped, ?_⟩
    · refine iff_of_true ?_ (by rintro later ⟨⟩)
      cases call : e.call <;> rw [call] at runs
      · rfl
      · exact runs.elim
      · rfl
    · rw [calls, ← chosen, shared]; rfl
  | clear =>
    cases call : e.call with
    | apply | resync => rw [call] at runs; exact runs.elim
    | clear =>
      refine ⟨_, took_now took found at_ ?_ ?_ stepped, ?_⟩
      · rw [call]; rfl
      · rintro later ⟨⟩
      · rw [more, call, selection_append, shared]; rfl

end Steps

/-- Once all calls have returned, the backend has what the user's last call
chose, in an order of the calls that real time allows. -/
theorem holds_last_choice (extra : List SplitDNSRoute) (moves : List (Move Call)) (t : Calling)
    (allowed : (Calls.machine (program extra)).Along Allowed start moves)
    (ran : (Calls.machine (program extra)).run start moves = some t)
    (returned : ∀ e ∈ t.entries, e.stage = none) :
    ∃ order, Order t order ∧ Holds extra t.shared.backend (selection (t.callsIn order)) := by
  have starts : Kept extra start ∧ Ordered start := by
    refine ⟨⟨by simp [start], by simp [start], .inr ⟨[], rfl, by simp⟩⟩, ?_⟩
    exact ⟨[], took_start taken start.shared, rfl⟩
  have reached : Kept extra t ∧ Ordered t := by
    refine Machine.invariant (fun t => Kept extra t ∧ Ordered t) ?_ starts allowed ran
    rintro before move after ⟨kept, ordered⟩ ok stepped
    cases move with
    | begin call =>
      exact ⟨kept_begin kept stepped, ordered_begin ordered stepped⟩
    | advance id =>
      exact ⟨kept_advance kept ok stepped, ordered_advance kept ordered stepped⟩
  obtain ⟨kept, order, took, chosen⟩ := reached
  refine ⟨order, took.order returned, ?_⟩
  rw [← chosen]
  rcases kept.held with ⟨e, member, pending⟩ | held
  · have ended := returned e member
    rcases pending with at_ | ⟨-, at_⟩ <;> rw [ended] at at_ <;> cases at_
  · exact held

def corp : SplitDNSRoute := ⟨"corp.example", "10.0.0.53", 0⟩

def learnt : SplitDNSRoute := ⟨"wild.example", "127.0.0.1", 5353⟩

/-- A selection is applied and the learner's entries re-synced. -/
def appliedThenSynced : List (Move Call) :=
  [.begin (.apply [corp]), .advance 0, .advance 0, .advance 0, .begin .resync,
    .advance 1, .advance 1]

theorem appliedThenSynced_holds :
    ∃ t, (Calls.machine (program [learnt])).run start appliedThenSynced = some t ∧
      t.shared.backend = [corp, learnt] ∧ ∃ order, Order t order ∧
        Holds [learnt] t.shared.backend (selection (t.callsIn order)) :=
  ⟨_, rfl, by decide +kernel, holds_last_choice [learnt] appliedThenSynced _
    (by decide +kernel) rfl (by decide +kernel)⟩

/-- A selection is applied and cleared, and the learner's entries re-synced. -/
def clearedThenSynced : List (Move Call) :=
  [.begin (.apply [corp]), .advance 0, .advance 0, .advance 0, .begin .clear,
    .advance 1, .begin .resync, .advance 2, .advance 2]

def revived : Calling :=
  { shared := { user := [corp], backend := [corp], chosen := [] }
    now := 9
    entries := [⟨.apply [corp], none, 0, 3⟩, ⟨.clear, none, 4, 5⟩,
      ⟨.resync, none, 6, 8⟩] }

theorem clearedThenSynced_revived :
    (Calls.machine (program [])).run start clearedThenSynced = some revived ∧
      (∀ e ∈ revived.entries, e.stage = none) ∧
      ¬ ∃ order, Order revived order ∧
        Holds [] revived.shared.backend (selection (revived.callsIn order)) := by
  refine ⟨rfl, by decide, ?_⟩
  rintro ⟨order, ⟨all, realTime⟩, learner, backend, known⟩
  have cleared : ∀ order ∈ (range 3).permutations',
      (order.Pairwise fun i j => ¬ Before revived j i) →
        selection (revived.callsIn order) = [] := by
    decide
  rw [cleared order (mem_permutations'.mpr all) realTime, nil_append] at backend
  have inside : corp ∈ learner := by
    rw [← backend]
    exact mem_cons_self
  exact absurd (known corp inside) not_mem_nil

end SplitDns

end RiftRoute
