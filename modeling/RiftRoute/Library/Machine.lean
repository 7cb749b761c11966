/-
Module: RiftRoute.Library.Machine
Purpose: Event-driven machines and what runs whose steps meet a condition
  (`Along`) preserve, tasks and calls that share a state section by section, the
  orders of calls that agree with real time, and calls that share a lock.
Trusted boundary: none
-/
import Mathlib.Data.List.Basic
import Mathlib.Data.List.Nodup
import Mathlib.Data.List.Range

/-- What an event does in a state, if it applies there. -/
structure Machine (S E : Type) where
  step : S → E → Option S

namespace Machine

variable {S E : Type} (M : Machine S E)

/-- Run events in order. -/
def run : S → List E → Option S
  | s, [] => some s
  | s, e :: es => (M.step s e).bind fun next => run next es

/-- Every step of the run meets the condition. -/
def Along (allowed : S → E → Prop) : S → List E → Prop
  | _, [] => True
  | s, e :: es =>
    allowed s e ∧ ∀ next, M.step s e = some next → Along allowed next es

variable {M}

variable {es : List E} {reached : S}

theorem run_cons {s : S} {e : E} : M.run s (e :: es) = some reached ↔
      ∃ next, M.step s e = some next ∧ M.run next es = some reached := by
  rw [run, Option.bind_eq_some_iff]

theorem run_append {s : S} {first second : List E} :
    M.run s (first ++ second) = some reached ↔ ∃ middle, M.run s first = some middle ∧
        M.run middle second = some reached := by
  induction first generalizing s with
  | nil => simp [run]
  | cons e first ih =>
    rw [List.cons_append, run_cons]
    constructor
    · rintro ⟨next, stepped, rest⟩
      obtain ⟨middle, front, back⟩ := ih.mp rest
      exact ⟨middle, run_cons.mpr ⟨next, stepped, front⟩, back⟩
    · rintro ⟨middle, front, back⟩
      obtain ⟨next, stepped, rest⟩ := run_cons.mp front
      exact ⟨next, stepped, ih.mpr ⟨middle, rest, back⟩⟩

/-- A loop that works off a list, a run for each item, runs as the fold. -/
theorem run_foldl {α β : Type} (loop : List α → β → S) (f : β → α → β)
    (items : ∀ a rest b, ∃ es, M.run (loop (a :: rest) b) es = some (loop rest (f b a)))
    (todo : List α) (b : β) : ∃ es, M.run (loop todo b) es = some (loop [] (todo.foldl f b)) := by
  induction todo generalizing b with
  | nil => exact ⟨[], rfl⟩
  | cons a todo ih =>
    obtain ⟨first, front⟩ := items a todo b
    obtain ⟨es, back⟩ := ih (f b a)
    exact ⟨first ++ es, run_append.mpr ⟨_, front, back⟩⟩

/-- A machine that follows each step of another follows its runs. -/
theorem run_map {T F : Type} (N : Machine T F) (event : E → F) (Rel : S → T → Prop)
    (follows : ∀ s t e next, Rel s t → M.step s e = some next →
      ∃ after, N.step t (event e) = some after ∧ Rel next after)
    {s : S} {t : T} (related : Rel s t) (ran : M.run s es = some reached) :
    ∃ after, N.run t (es.map event) = some after ∧ Rel reached after := by
  induction es generalizing s t with
  | nil =>
    obtain rfl := Option.some.inj ran
    exact ⟨t, rfl, related⟩
  | cons e es ih =>
    obtain ⟨next, stepped, rest⟩ := run_cons.mp ran
    obtain ⟨between, moved, onward⟩ := follows s t e next related stepped
    obtain ⟨after, others, ended⟩ := ih onward rest
    exact ⟨after, run_cons.mpr ⟨between, moved, others⟩, ended⟩

variable {allowed : S → E → Prop}

theorem Along.cons {s next : S} {e : E} (stepped : M.step s e = some next) (ok : allowed s e)
    (rest : M.Along allowed next es) : M.Along allowed s (e :: es) := by
  refine ⟨ok, ?_⟩
  intro other otherStep
  obtain rfl := Option.some.inj (stepped.symm.trans otherStep)
  exact rest

/-- A run's condition can be checked step by step. -/
instance decidableAlong (allowed : S → E → Prop) [check : ∀ s e, Decidable (allowed s e)] :
    ∀ (s : S) (es : List E), Decidable (M.Along allowed s es)
  | _, [] => isTrue trivial
  | s, e :: es =>
    match stepped : M.step s e with
    | none =>
      decidable_of_iff (allowed s e) ⟨fun ok => ⟨ok, by simp [stepped]⟩, And.left⟩
    | some next =>
      have := decidableAlong allowed next es
      decidable_of_iff (allowed s e ∧ M.Along allowed next es)
        ⟨fun ok => .cons stepped ok.1 ok.2, fun along => ⟨along.1, along.2 next stepped⟩⟩

/-- Steps that meet the condition in every state. -/
theorem Along.of_forall (every : ∀ e ∈ es, ∀ s, allowed s e) (s : S) : M.Along allowed s es := by
  induction es generalizing s with
  | nil => trivial
  | cons e es ih =>
    refine ⟨every e (by simp) s, fun next _ => ?_⟩
    exact ih (fun e member => every e (by simp [member])) next

theorem Along.and_forall {also : E → Prop} {s : S} (along : M.Along allowed s es)
    (every : ∀ e ∈ es, also e) :
    M.Along (fun s e => also e ∧ allowed s e) s es := by
  induction es generalizing s with
  | nil => trivial
  | cons e es ih =>
    refine ⟨⟨every e (by simp), along.1⟩, fun next stepped => ?_⟩
    exact ih (along.2 next stepped) fun e member => every e (by simp [member])

theorem Along.append {s middle : S} {first second : List E} (front : M.Along allowed s first)
    (ran : M.run s first = some middle)
    (back : M.Along allowed middle second) :
    M.Along allowed s (first ++ second) := by
  induction first generalizing s with
  | nil =>
    obtain rfl := Option.some.inj ran
    exact back
  | cons e first ih =>
    obtain ⟨next, stepped, rest⟩ := run_cons.mp ran
    exact .cons stepped front.1 (ih (front.2 next stepped) rest)

/-- The rule with the past: what allowed steps preserve of the events so far
and the state they led to. -/
theorem invariant_past (Inv : List E → S → Prop) {s₀ : S}
    (keeps : ∀ past s e next, M.run s₀ past = some s → Inv past s →
      allowed s e → M.step s e = some next → Inv (past ++ [e]) next)
    (start : Inv [] s₀)
    (along : M.Along allowed s₀ es) (ran : M.run s₀ es = some reached) :
    Inv es reached := by
  have onward : ∀ (es past : List E) (s : S), M.run s₀ past = some s →
      Inv past s → M.Along allowed s es → M.run s es = some reached →
      Inv (past ++ es) reached := by
    intro es
    induction es with
    | nil =>
      intro past s _ held _ ran
      obtain rfl := Option.some.inj ran
      rw [List.append_nil]
      exact held
    | cons e es ih =>
      intro past s before held along ran
      obtain ⟨next, stepped, rest⟩ := run_cons.mp ran
      have onePast : M.run s₀ (past ++ [e]) = some next :=
        run_append.mpr ⟨s, before, run_cons.mpr ⟨next, stepped, rfl⟩⟩
      have keptPast := ih (past ++ [e]) next onePast
        (keeps past s e next before held along.1 stepped)
        (along.2 next stepped) rest
      rw [List.append_assoc] at keptPast
      exact keptPast
  exact onward es [] s₀ rfl start along ran

/-- What allowed steps preserve holds in every state a run of them reaches. -/
theorem invariant (Inv : S → Prop)
    (keeps : ∀ s e next, Inv s → allowed s e → M.step s e = some next →
      Inv next) {s : S} (start : Inv s)
    (along : M.Along allowed s es) (ran : M.run s es = some reached) :
    Inv reached := by
  refine invariant_past (fun _ s => Inv s) ?_ start along ran
  intro _ s e next _ held
  exact keeps s e next held

end Machine

/-- A shared state and the tasks under way. -/
structure Pool (S T : Type) where
  shared : S
  tasks : List T

/-- A task begins, or a waiting one runs its next section. -/
inductive Act (T A : Type) where
  | start (task : T)
  | go (task : T) (answer : A)

namespace Pool

variable {S T A : Type} [DecidableEq T]

/-- The interleavings of tasks: which tasks may begin, and what a section
does. -/
def machine (entry : T → Bool) (body : S → T → A → Option (S × List T)) :
    Machine (Pool S T) (Act T A) where
  step pool
    | .start task =>
      if entry task then some { pool with tasks := pool.tasks ++ [task] }
      else none
    | .go task answer =>
      if task ∈ pool.tasks then
        (body pool.shared task answer).map fun after =>
          { shared := after.1, tasks := pool.tasks.erase task ++ after.2 }
      else none

/-- Every section that runs meets a condition on the state before it. -/
def sections (allowed : S → T → Prop) : Pool S T → Act T A → Prop
  | _, .start _ => True
  | pool, .go task _ => allowed pool.shared task

instance (allowed : S → T → Prop) [check : ∀ s t, Decidable (allowed s t)] :
    ∀ (pool : Pool S T) (act : Act T A), Decidable (sections allowed pool act)
  | _, .start _ => isTrue trivial
  | pool, .go task _ => check pool.shared task

variable {entry : T → Bool} {body : S → T → A → Option (S × List T)}

theorem step_start {pool next : Pool S T} {task : T}
    (stepped : (machine entry body).step pool (.start task) = some next) :
    entry task ∧ next.shared = pool.shared ∧ next.tasks = pool.tasks ++ [task] := by
  simp only [machine] at stepped
  split at stepped
  case isTrue begins =>
    obtain rfl := Option.some.inj stepped
    exact ⟨begins, rfl, rfl⟩
  case isFalse => cases stepped

theorem step_go {pool next : Pool S T} {task : T} {answer : A}
    (stepped : (machine entry body).step pool (.go task answer) = some next) :
    task ∈ pool.tasks ∧ ∃ left, body pool.shared task answer = some (next.shared, left) ∧
        next.tasks = pool.tasks.erase task ++ left := by
  simp only [machine] at stepped
  split at stepped
  case isTrue waiting =>
    obtain ⟨⟨shared, left⟩, ran, rfl⟩ := Option.map_eq_some_iff.mp stepped
    exact ⟨waiting, left, ran, rfl⟩
  case isFalse => cases stepped

/-- What every section preserves of the shared state and of the tasks over it,
its own and the waiting ones, holds along a run. -/
theorem invariant_over (State : S → Prop) (Task : S → T → Prop)
    {allowed : S → T → Prop} (starts : ∀ shared task, entry task → Task shared task)
    (keeps : ∀ shared task answer after left, State shared → Task shared task →
      allowed shared task → body shared task answer = some (after, left) →
      State after ∧ (∀ next ∈ left, Task after next) ∧
        ∀ other, Task shared other → Task after other)
    {pool reached : Pool S T} {acts : List (Act T A)}
    (state : State pool.shared) (tasks : ∀ task ∈ pool.tasks, Task pool.shared task)
    (along : (machine entry body).Along (sections allowed) pool acts)
    (ran : (machine entry body).run pool acts = some reached) :
    State reached.shared ∧ ∀ task ∈ reached.tasks, Task reached.shared task := by
  refine Machine.invariant
    (fun pool => State pool.shared ∧ ∀ task ∈ pool.tasks, Task pool.shared task) ?_
    ⟨state, tasks⟩ along ran
  intro pool act next held ok stepped
  cases act with
  | start task =>
    obtain ⟨begins, same, more⟩ := step_start stepped
    rw [same, more]
    refine ⟨held.1, ?_⟩
    intro other member
    rcases List.mem_append.mp member with before | last
    · exact held.2 other before
    · obtain rfl := List.mem_singleton.mp last
      exact starts _ other begins
  | go task answer =>
    obtain ⟨waiting, left, went, after⟩ := step_go stepped
    obtain ⟨kept, onward, others⟩ :=
      keeps pool.shared task answer next.shared left held.1 (held.2 task waiting) ok went
    refine ⟨kept, ?_⟩
    rw [after]
    intro other member
    rcases List.mem_append.mp member with before | fresh
    · exact others other (held.2 other (List.mem_of_mem_erase before))
    · exact onward other fresh

/-- The rule for tasks that are judged without the shared state. -/
theorem invariant (State : S → Prop) (Task : T → Prop)
    {allowed : S → T → Prop} (starts : ∀ task, entry task → Task task)
    (keeps : ∀ shared task answer after left, State shared → Task task →
      allowed shared task → body shared task answer = some (after, left) →
      State after ∧ ∀ next ∈ left, Task next)
    {pool reached : Pool S T} {acts : List (Act T A)}
    (state : State pool.shared) (tasks : ∀ task ∈ pool.tasks, Task task)
    (along : (machine entry body).Along (sections allowed) pool acts)
    (ran : (machine entry body).run pool acts = some reached) :
    State reached.shared ∧ ∀ task ∈ reached.tasks, Task task := by
  refine invariant_over State (fun _ => Task) (fun _ => starts) ?_ state tasks along ran
  intro shared task answer after left held own ok went
  obtain ⟨kept, onward⟩ := keeps shared task answer after left held own ok went
  exact ⟨kept, onward, fun _ other => other⟩

end Pool

namespace Calls

open List

variable {S C T : Type}

/-- The first section of a call, and what a section does: the shared state
after it and the next section, if the call does not return. -/
structure Program (S C T : Type) where
  enter : C → T
  body : S → T → S × Option T

/-- A call, the section it is at, and when it began and returned. -/
structure Entry (C T : Type) where
  call : C
  stage : Option T
  began : Nat
  ended : Nat
deriving DecidableEq, Repr

/-- The shared state, the number of moves made, and the calls so far. -/
structure Table (S C T : Type) where
  shared : S
  now : Nat
  entries : List (Entry C T)

inductive Move (C : Type) where
  | begin (call : C)
  | advance (id : Nat)
deriving DecidableEq, Repr

def Table.advance (P : Program S C T) (t : Table S C T) (id : Nat) : Option (Table S C T) :=
  match t.entries[id]? with
  | none => none
  | some e =>
    e.stage.map fun stage =>
      let after := P.body t.shared stage
      { shared := after.1
        now := t.now + 1
        entries := t.entries.set id { e with stage := after.2, ended := t.now } }

/-- Any call may begin, and any call that has not returned may run its next
section. -/
def machine (P : Program S C T) : Machine (Table S C T) (Move C) where
  step t
    | .begin call => some
        { t with
          now := t.now + 1
          entries := t.entries ++ [⟨call, some (P.enter call), t.now, 0⟩] }
    | .advance id => t.advance P id

/-- One call had returned when the other began. -/
def Before (t : Table S C T) (i j : Nat) : Prop :=
  ∃ e ∈ t.entries[i]?, ∃ f ∈ t.entries[j]?, e.stage = none ∧ e.ended < f.began

instance [DecidableEq T] (t : Table S C T) (i j : Nat) : Decidable (Before t i j) :=
  inferInstanceAs (Decidable (∃ e ∈ t.entries[i]?, ∃ f ∈ t.entries[j]?, _))

/-- An order of all calls that real time allows. -/
structure Order (t : Table S C T) (order : List Nat) : Prop where
  all : order.Perm (range t.entries.length)
  realTime : order.Pairwise fun i j => ¬ Before t j i

def Table.callsIn (t : Table S C T) (order : List Nat) : List C :=
  order.filterMap fun i => t.entries[i]?.map Entry.call

section Steps

variable {P : Program S C T} {t next : Table S C T}

theorem step_begin {call : C} (stepped : (machine P).step t (.begin call) = some next) :
    next = { t with
      now := t.now + 1
      entries := t.entries ++ [⟨call, some (P.enter call), t.now, 0⟩] } :=
  (Option.some.inj stepped).symm

theorem step_advance {id : Nat} (stepped : (machine P).step t (.advance id) = some next) :
    ∃ e stage, t.entries[id]? = some e ∧ e.stage = some stage ∧
      next = { shared := (P.body t.shared stage).1
               now := t.now + 1
               entries := t.entries.set id
                { e with stage := (P.body t.shared stage).2, ended := t.now } } := by
  change t.advance P id = some next at stepped
  unfold Table.advance at stepped
  split at stepped
  case h_1 => cases stepped
  rename_i e found
  obtain ⟨stage, is, rfl⟩ := Option.map_eq_some_iff.mp stepped
  exact ⟨e, stage, found, is, rfl⟩

end Steps

/-! ### Calls that take effect in one of their sections -/

def Table.Stamped (t : Table S C T) : Prop := ∀ e ∈ t.entries, e.began < t.now

/-- The calls that have taken effect, in an order of real time. -/
structure Took (taken : C → T → Bool) (t : Table S C T) (order : List Nat) :
    Prop where
  stamped : t.Stamped
  once : order.Nodup
  mem : ∀ i, i ∈ order ↔ ∃ e, t.entries[i]? = some e ∧ ∀ stage ∈ e.stage, taken e.call stage
  realTime : order.Pairwise fun i j => ¬ Before t j i

theorem took_start (taken : C → T → Bool) (shared : S) :
    Took taken (⟨shared, 0, []⟩ : Table S C T) [] where
  stamped := by
    intro e member
    cases member
  once := nodup_nil
  mem := by simp
  realTime := .nil

section Begin

variable {P : Program S C T} {taken : C → T → Bool} {t next : Table S C T}
  {order : List Nat} {call : C}

section

variable (stepped : (machine P).step t (.begin call) = some next) {i : Nat} {e : Entry C T}

include stepped

theorem getElem?_begin (found : t.entries[i]? = some e) :
    next.entries[i]? = some e := by
  rw [step_begin stepped]
  have inside : i < t.entries.length := (List.getElem?_eq_some_iff.mp found).1
  rw [List.getElem?_append_left inside]
  exact found

theorem entry_begin (found : next.entries[i]? = some e) :
    t.entries[i]? = some e ∨ e = ⟨call, some (P.enter call), t.now, 0⟩ := by
  rw [step_begin stepped] at found
  rw [List.getElem?_append] at found
  split at found
  case isTrue => exact .inl found
  case isFalse => exact .inr (mem_singleton.mp (mem_of_getElem? found))

end

theorem callsIn_begin (took : Took taken t order)
    (stepped : (machine P).step t (.begin call) = some next) :
    next.callsIn order = t.callsIn order := by
  apply filterMap_congr
  intro i member
  obtain ⟨e, found, -⟩ := (took.mem i).mp member
  rw [getElem?_begin stepped found, found]

theorem took_begin (took : Took taken t order) (fresh : taken call (P.enter call) = false)
    (stepped : (machine P).step t (.begin call) = some next) :
    Took taken next order where
  stamped := by
    rw [step_begin stepped]
    intro e member
    rcases mem_append.mp member with before | last
    · exact Nat.lt_succ_of_lt (took.stamped e before)
    · obtain rfl := mem_singleton.mp last
      exact Nat.lt_succ_self t.now
  once := took.once
  mem := by
    intro i
    rw [took.mem i]
    constructor
    · rintro ⟨e, found, past⟩
      exact ⟨e, getElem?_begin stepped found, past⟩
    · rintro ⟨e, found, past⟩
      rcases entry_begin stepped found with known | rfl
      · exact ⟨e, known, past⟩
      · rw [past (P.enter call) rfl] at fresh
        cases fresh
  realTime := by
    refine took.realTime.imp_of_mem ?_
    rintro i j first second apart ⟨e, foundE, f, foundF, ended, earlier⟩
    obtain ⟨g, known, -⟩ := (took.mem i).mp first
    have same := getElem?_begin stepped known
    obtain rfl := Option.some.inj (foundF.symm.trans same)
    rcases entry_begin stepped foundE with old | rfl
    · exact apart ⟨e, old, f, known, ended, earlier⟩
    · cases ended

end Begin

section Advance

variable {P : Program S C T} {taken : C → T → Bool} {t next : Table S C T}
  {order : List Nat} {id : Nat} {e : Entry C T} {stage : T}

section

variable (found : t.entries[id]? = some e) (at_ : e.stage = some stage)
  (stepped : (machine P).step t (.advance id) = some next)

include found at_ stepped

theorem next_advance :
    next = { shared := (P.body t.shared stage).1
             now := t.now + 1
             entries := t.entries.set id
              { e with stage := (P.body t.shared stage).2, ended := t.now } } := by
  obtain ⟨other, its, same, is, rfl⟩ := step_advance stepped
  obtain rfl := Option.some.inj (same.symm.trans found)
  obtain rfl := Option.some.inj (is.symm.trans at_)
  rfl

theorem entry_advance (i : Nat) :
    next.entries[i]? =
      if i = id then
        some { e with stage := (P.body t.shared stage).2, ended := t.now }
      else t.entries[i]? := by
  have inside : id < t.entries.length := (List.getElem?_eq_some_iff.mp found).1
  rw [next_advance found at_ stepped]
  rw [List.getElem?_set]
  by_cases same : i = id
  · subst same
    simp [inside]
  · rw [if_neg (Ne.symm same), if_neg same]

theorem callsIn_advance :
    next.callsIn order = t.callsIn order := by
  apply filterMap_congr
  intro i _
  rw [entry_advance found at_ stepped]
  split
  case isTrue same => rw [same, found]; rfl
  case isFalse => rfl

theorem mem_advance :
    ({ e with stage := (P.body t.shared stage).2, ended := t.now } : Entry C T) ∈ next.entries ∧
      ∀ f ∈ next.entries, f ∈ t.entries ∨
        f = { e with stage := (P.body t.shared stage).2, ended := t.now } := by
  have inside : id < t.entries.length := (List.getElem?_eq_some_iff.mp found).1
  rw [next_advance found at_ stepped]
  exact ⟨mem_set inside _, fun f member => mem_or_eq_of_mem_set member⟩

end

section

variable (stamped : t.Stamped) (found : t.entries[id]? = some e) (at_ : e.stage = some stage)
  (stepped : (machine P).step t (.advance id) = some next)

include stamped found at_ stepped

theorem stamped_advance :
    next.Stamped := by
  have later : next.now = t.now + 1 := by rw [next_advance found at_ stepped]
  intro f member
  rw [later]
  rcases (mem_advance found at_ stepped).2 f member with before | rfl
  · exact Nat.lt_succ_of_lt (stamped f before)
  · exact Nat.lt_succ_of_lt (stamped e (mem_of_getElem? found))

theorem before_of_advance {i j : Nat}
    (earlier : Before next j i) : Before t j i := by
  obtain ⟨f, foundF, g, foundG, ended, order⟩ := earlier
  have lookup := entry_advance found at_ stepped
  obtain ⟨old, known, began⟩ : ∃ old, t.entries[i]? = some old ∧ old.began = g.began := by
    rw [Option.mem_def, lookup] at foundG
    split at foundG
    case isTrue same =>
      obtain rfl := Option.some.inj foundG
      exact ⟨e, same ▸ found, rfl⟩
    case isFalse => exact ⟨g, foundG, rfl⟩
  rw [Option.mem_def, lookup] at foundF
  split at foundF
  case isTrue =>
    obtain rfl := Option.some.inj foundF
    have late := stamped old (mem_of_getElem? known)
    rw [began] at late
    exact absurd order (Nat.lt_asymm late)
  case isFalse => exact ⟨f, foundF, old, known, ended, began ▸ order⟩

end

section

variable (took : Took taken t order) (found : t.entries[id]? = some e) (at_ : e.stage = some stage)

include took found at_

/-- A section that leaves its call as it was, before or after its effect. -/
theorem took_stays (stays : taken e.call stage = true ↔
      ∀ later ∈ (P.body t.shared stage).2, taken e.call later = true)
    (stepped : (machine P).step t (.advance id) = some next) :
    Took taken next order where
  stamped := stamped_advance took.stamped found at_ stepped
  once := took.once
  mem := by
    intro i
    rw [took.mem i, entry_advance found at_ stepped]
    split
    case isTrue same =>
      subst same
      simp only [found, Option.some_inj, exists_eq_left', at_, Option.mem_some_iff,
        forall_eq', stays]
    case isFalse => rfl
  realTime := took.realTime.imp fun apart earlier =>
    apart (before_of_advance took.stamped found at_ stepped earlier)

/-- The section in which a call takes effect. -/
theorem took_now (notYet : taken e.call stage = false)
    (takes : ∀ later ∈ (P.body t.shared stage).2, taken e.call later = true)
    (stepped : (machine P).step t (.advance id) = some next) :
    Took taken next (order ++ [id]) := by
  have absent : id ∉ order := by
    intro member
    obtain ⟨f, known, past⟩ := (took.mem id).mp member
    obtain rfl := Option.some.inj (known.symm.trans found)
    rw [past stage at_] at notYet
    cases notYet
  refine ⟨stamped_advance took.stamped found at_ stepped, ?_, ?_, ?_⟩
  · refine nodup_append.mpr ⟨took.once, by simp, ?_⟩
    intro i member j last same
    obtain rfl := mem_singleton.mp last
    exact absent (same ▸ member)
  · intro i
    rw [mem_append, mem_singleton, took.mem i, entry_advance found at_ stepped]
    split
    case isTrue same =>
      exact iff_of_true (.inr same) ⟨_, rfl, takes⟩
    case isFalse differs => exact or_iff_left differs
  · refine pairwise_append.mpr ⟨?_, pairwise_singleton _ _, ?_⟩
    · exact took.realTime.imp fun apart earlier =>
        apart (before_of_advance took.stamped found at_ stepped earlier)
    · intro i _ j last earlier
      obtain rfl := mem_singleton.mp last
      obtain ⟨f, known, -, -, ended, -⟩ := before_of_advance took.stamped found at_ stepped earlier
      obtain rfl := Option.some.inj (known.symm.trans found)
      rw [at_] at ended
      cases ended

end

theorem callsIn_append (found : t.entries[id]? = some e) (order : List Nat) :
    t.callsIn (order ++ [id]) = t.callsIn order ++ [e.call] := by
  simp [Table.callsIn, found]

end Advance

/-- Once every call has returned, they are all in an order of real time. -/
theorem Took.order {taken : C → T → Bool} {t : Table S C T}
    {order : List Nat} (took : Took taken t order)
    (returned : ∀ e ∈ t.entries, e.stage = none) : Order t order where
  all := by
    apply (perm_ext_iff_of_nodup took.once nodup_range).mpr
    intro i
    rw [took.mem i, mem_range]
    constructor
    · rintro ⟨e, found, -⟩
      exact (List.getElem?_eq_some_iff.mp found).1
    · intro inside
      refine ⟨t.entries[i], List.getElem?_eq_getElem inside, ?_⟩
      rw [returned _ (getElem_mem inside)]
      intro stage at_
      cases at_
  realTime := took.realTime

/-- A call has come to a stage. -/
def Table.At (t : Table S C T) (id : Nat) (stage : T) : Prop :=
  ∃ e, t.entries[id]? = some e ∧ e.stage = some stage

/-- When the lock is held, and the stages of a call that holds it. -/
structure Lock (S T : Type) where
  held : S → Bool
  inside : T → Bool

/-- Calls begin outside, get inside by taking a free lock, hold it while
inside, and leave it alone while outside. -/
structure Program.Respects (P : Program S C T) (L : Lock S T) : Prop where
  enter : ∀ call, L.inside (P.enter call) = false
  takes : ∀ s stage, L.inside stage = false → ∀ later ∈ (P.body s stage).2, L.inside later = true →
      L.held s = false ∧ L.held (P.body s stage).1 = true
  leaves : ∀ s stage, L.inside stage = false →
    (∀ later ∈ (P.body s stage).2, L.inside later = false) → L.held (P.body s stage).1 = L.held s
  keeps : ∀ s stage, L.inside stage = true → L.held s = true →
    ∀ later ∈ (P.body s stage).2, L.inside later = true → L.held (P.body s stage).1 = true

/-- At most one call is inside, and then the lock is held. -/
structure Exclusive (L : Lock S T) (t : Table S C T) : Prop where
  one : ∀ i j first second, t.At i first → t.At j second →
    L.inside first = true → L.inside second = true → i = j
  held : ∀ i stage, t.At i stage → L.inside stage = true → L.held t.shared = true

section Steps

variable {P : Program S C T} {L : Lock S T} {t next : Table S C T}

theorem at_begin {call : C} (stepped : (machine P).step t (.begin call) = some next) {i : Nat}
    {stage : T} (arrived : next.At i stage) :
    t.At i stage ∨ stage = P.enter call := by
  obtain ⟨e, found, is⟩ := arrived
  rcases entry_begin stepped found with known | rfl
  · exact .inl ⟨e, known, is⟩
  · exact .inr (Option.some.inj is).symm

theorem at_advance {id : Nat} {e : Entry C T} {stage : T}
    (found : t.entries[id]? = some e) (at_ : e.stage = some stage)
    (stepped : (machine P).step t (.advance id) = some next) {i : Nat}
    {later : T} (arrived : next.At i later) :
    (i ≠ id ∧ t.At i later) ∨ (i = id ∧ (P.body t.shared stage).2 = some later) := by
  obtain ⟨f, foundF, is⟩ := arrived
  rw [entry_advance found at_ stepped] at foundF
  split at foundF
  · next same =>
      obtain rfl := Option.some.inj foundF
      exact .inr ⟨same, is⟩
  · next other => exact .inl ⟨other, f, foundF, is⟩

theorem exclusive_step (respects : P.Respects L) (exclusive : Exclusive L t)
    {move : Move C} (stepped : (machine P).step t move = some next) :
    Exclusive L next := by
  cases move with
  | begin call =>
    have old : ∀ {i stage}, next.At i stage → L.inside stage = true → t.At i stage := by
      intro i stage arrived inside
      rcases at_begin stepped arrived with known | rfl
      · exact known
      · rw [respects.enter] at inside
        cases inside
    have shared : next.shared = t.shared := by rw [step_begin stepped]
    refine ⟨?_, ?_⟩
    · intro i j first second atI atJ insideI insideJ
      exact exclusive.one i j first second (old atI insideI) (old atJ insideJ) insideI insideJ
    · intro i stage arrived inside
      rw [shared]
      exact exclusive.held i stage (old arrived inside) inside
  | advance id =>
    obtain ⟨e, stage, found, at_, -⟩ := step_advance stepped
    have shared : next.shared = (P.body t.shared stage).1 := by
      rw [next_advance found at_ stepped]
    -- the other calls inside, if the one that moved is or gets inside
    have alone : ∀ later ∈ (P.body t.shared stage).2,
        L.inside later = true → ∀ i other, i ≠ id → t.At i other → L.inside other = false := by
      intro later isLater insideLater i other apart arrived
      rw [Bool.eq_false_iff]
      intro insideOther
      cases insideStage : L.inside stage with
      | true =>
        exact apart (exclusive.one i id other stage arrived ⟨e, found, at_⟩ insideOther insideStage)
      | false =>
        have free := (respects.takes _ _ insideStage later isLater insideLater).1
        rw [exclusive.held i other arrived insideOther] at free
        cases free
    refine ⟨?_, ?_⟩
    · intro i j first second atI atJ insideI insideJ
      rcases at_advance found at_ stepped atI with
        ⟨apartI, oldI⟩ | ⟨rfl, isFirst⟩ <;>
      rcases at_advance found at_ stepped atJ with
        ⟨apartJ, oldJ⟩ | ⟨rfl, isSecond⟩
      · exact exclusive.one i j first second oldI oldJ insideI insideJ
      · rw [alone second isSecond insideJ i first apartI oldI] at insideI
        cases insideI
      · rw [alone first isFirst insideI j second apartJ oldJ] at insideJ
        cases insideJ
      · rfl
    · intro i later arrived inside
      rw [shared]
      rcases at_advance found at_ stepped arrived with
        ⟨apart, old⟩ | ⟨rfl, isLater⟩
      · have insideStage : L.inside stage = false := by
          rw [Bool.eq_false_iff]
          intro also
          exact apart (exclusive.one i id later stage old ⟨e, found, at_⟩ inside also)
        rw [respects.leaves _ _ insideStage]
        · exact exclusive.held i later old inside
        · intro mover isMover
          rw [Bool.eq_false_iff]
          intro insideMover
          rw [alone mover isMover insideMover i later apart old] at inside
          cases inside
      · cases insideStage : L.inside stage with
        | true =>
          have before := exclusive.held _ stage ⟨e, found, at_⟩ insideStage
          exact respects.keeps _ _ insideStage before later isLater inside
        | false => exact (respects.takes _ _ insideStage later isLater inside).2

/-- What holds of the shared state and, in it, of the stage of each call. -/
structure Locals (Inv : S → Prop) (Local : S → T → Prop) (t : Table S C T) :
    Prop where
  shared : Inv t.shared
  locals : ∀ i stage, t.At i stage → Local t.shared stage

/-- Sections keep an invariant and what holds of the stages; a call inside
need not keep what holds of another one inside. -/
structure Program.Keeps (P : Program S C T) (L : Lock S T) (Inv : S → Prop)
    (Local : S → T → Prop) : Prop where
  enter : ∀ s call, Inv s → Local s (P.enter call)
  body : ∀ s stage, Inv s → Local s stage → Inv (P.body s stage).1
  later : ∀ s stage, Inv s → Local s stage →
    ∀ later ∈ (P.body s stage).2, Local (P.body s stage).1 later
  others : ∀ s stage other, Inv s → Local s stage → Local s other →
    (L.inside stage = true → L.inside other = false) → Local (P.body s stage).1 other

variable {Inv : S → Prop} {Local : S → T → Prop}

theorem locals_step (keeps : P.Keeps L Inv Local) (exclusive : Exclusive L t)
    (held : Locals Inv Local t) {move : Move C}
    (stepped : (machine P).step t move = some next) : Locals Inv Local next := by
  cases move with
  | begin call =>
    have shared : next.shared = t.shared := by rw [step_begin stepped]
    refine ⟨shared ▸ held.shared, ?_⟩
    intro i stage arrived
    rw [shared]
    rcases at_begin stepped arrived with known | rfl
    · exact held.locals i stage known
    · exact keeps.enter t.shared call held.shared
  | advance id =>
    obtain ⟨e, stage, found, at_, -⟩ := step_advance stepped
    have mover : Local t.shared stage := held.locals id stage ⟨e, found, at_⟩
    have shared : next.shared = (P.body t.shared stage).1 := by
      rw [next_advance found at_ stepped]
    refine ⟨shared ▸ keeps.body _ _ held.shared mover, ?_⟩
    intro i later arrived
    rw [shared]
    rcases at_advance found at_ stepped arrived with
      ⟨apart, old⟩ | ⟨-, isLater⟩
    · refine keeps.others _ _ later held.shared mover
        (held.locals i later old) fun insideStage => ?_
      rw [Bool.eq_false_iff]
      intro inside
      exact apart (exclusive.one i id later stage old ⟨e, found, at_⟩ inside insideStage)
    · exact keeps.later _ _ held.shared mover later isLater

/-- Every run of calls that share a lock: at most one is inside, and what
sections keep holds throughout. -/
theorem guarded_run (respects : P.Respects L) (keeps : P.Keeps L Inv Local)
    {s : S} (start : Inv s) {moves : List (Move C)} {reached : Table S C T}
    (ran : (machine P).run ⟨s, 0, []⟩ moves = some reached) :
    Exclusive L reached ∧ Locals Inv Local reached := by
  have empty : ∀ {i stage}, ¬ (⟨s, 0, []⟩ : Table S C T).At i stage := by
    rintro i stage ⟨e, found, -⟩
    simp at found
  have always : (machine P).Along (fun _ _ => True) ⟨s, 0, []⟩ moves :=
    .of_forall (fun _ _ _ => trivial) _
  refine Machine.invariant (fun t => Exclusive L t ∧ Locals Inv Local t) ?_ ?_ always ran
  · rintro t move next ⟨exclusive, held⟩ - stepped
    exact ⟨exclusive_step respects exclusive stepped, locals_step keeps exclusive held stepped⟩
  · refine ⟨⟨?_, ?_⟩, start, ?_⟩
    · exact fun _ _ _ _ arrived => absurd arrived empty
    · exact fun _ _ arrived => absurd arrived empty
    · exact fun _ _ arrived => absurd arrived empty

end Steps

end Calls
